import Libipfs.Protobuf.Large

/-!
# The beginning of encoded fields

A buffer may end before the fields that were encoded do.  A read behind the end of the buffer
faults, so a decoder that succeeds has found whole fields.

* `varintDecode_append`   what is behind a varint does not matter;
* `FieldCase.read_append`, `FieldCase.read_le`   nor what is behind a value, which is inside the
                          buffer;
* `applyItems_invariant`  what every field leaves true holds when they are decoded;
* `decodeFields_take`     **a decoder that succeeds** on the beginning of encoded fields has been
                          given some of the fields, and each of them whole.
-/

namespace Libp2p
open CSem

theorem varintDecode_append {len : Int} {buf : List UInt8} {v n : Nat} (rest : List UInt8)
    (h : varintDecode len buf = .ok (v, n)) : varintDecode len (buf ++ rest) = .ok (v, n) := by
  have hle := varintDecode_le h
  obtain ⟨hlength, hten, hfit, hv⟩ := varintDecode_eq_ok.1 h
  refine varintDecode_eq_ok.2 ⟨varintLength_append hlength, hten, hfit, ?_⟩
  rw [List.take_append_of_le_length hle]
  exact hv

/-- no field of bytes is the beginning of another -/
theorem bytesField_append_inj {no : Nat} {ty : WireType} {d d' rest rest' : List UInt8}
    (hd : d.length < 2 ^ 64) (hd' : d'.length < 2 ^ 64)
    (h : bytesField no ty d ++ rest = bytesField no ty d' ++ rest') : d = d' ∧ rest = rest' := by
  unfold bytesField at h
  simp only [List.append_assoc] at h
  have h := List.append_cancel_left h
  have hread : varintDecode 10 (varintBytes d.length ++ (d ++ rest)) = _ :=
    varintDecode_varintBytes hd
      (varintFits_of_le (by have := varintBytes_length_le d.length; omega))
  rw [h] at hread
  obtain ⟨hlength, -⟩ := varintDecode_varintBytes_eq hd' hread
  rw [hlength, List.append_cancel_left_eq] at h
  exact List.append_inj h hlength

section
variable {σ : Type} {c : FieldCase σ} {remaining : Nat} {buf : List UInt8} {m : Int}
variable {store : σ → Exec (Option σ)}

private theorem take_drop_append (rest : List UInt8) {n size : Nat} (h : n + size ≤ buf.length) :
    ((buf ++ rest).drop n).take size = (buf.drop n).take size := by
  rw [List.drop_append_of_le_length (by omega),
    List.take_append_of_le_length (by rw [List.length_drop]; omega)]

/-- **a value** is read from its own bytes -/
theorem FieldCase.read_append (rest : List UInt8)
    (h : c.read remaining buf = .ok (some (m, store))) :
    c.read remaining (buf ++ rest) = .ok (some (m, store)) := by
  cases c with
  | skip => exact h
  | reject => cases h
  | varint f =>
    obtain ⟨⟨v, n⟩, hv, h⟩ := bind_eq_ok.1 h
    exact bind_eq_ok.2 ⟨_, varintDecode_append rest hv, h⟩
  | bytes f =>
    obtain ⟨y, hy, h⟩ := bind_eq_ok.1 h
    cases y with
    | none => cases h
    | some y =>
      obtain ⟨d, k⟩ := y
      obtain ⟨size, n, hv, hs, hle, hd, hk⟩ := protobufDecodeLengthDelimited_eq_some.1 hy
      refine bind_eq_ok.2 ⟨some (d, k), ?_, h⟩
      refine protobufDecodeLengthDelimited_eq_some.2
        ⟨size, n, varintDecode_append rest hv, hs, ?_, ?_, hk⟩
      · rw [List.length_append]
        omega
      · rw [take_drop_append rest hle]
        exact hd
  | string f =>
    obtain ⟨⟨text, k⟩, hy, h⟩ := bind_eq_ok.1 h
    obtain ⟨v, n, hv, hk, hr⟩ := protobufDecodeString_eq_ok.1 hy
    refine bind_eq_ok.2 ⟨(text, k), ?_, h⟩
    refine protobufDecodeString_eq_ok.2 ⟨v, n, varintDecode_append rest hv, hk, ?_⟩
    refine hr.imp id fun ⟨h0, h1, hle, htext⟩ => ⟨h0, h1, ?_, ?_⟩
    · rw [List.length_append]
      omega
    · rw [take_drop_append rest hle]
      exact htext

/-- and these are inside the buffer -/
theorem FieldCase.read_le (h : c.read remaining buf = .ok (some (m, store))) :
    m ≤ (buf.length : Int) := by
  cases c with
  | skip =>
    cases h
    exact Int.natCast_nonneg _
  | reject => cases h
  | varint f =>
    obtain ⟨⟨v, n⟩, hv, h⟩ := bind_eq_ok.1 h
    have hle : n ≤ buf.length := varintDecode_le hv
    cases h
    exact Int.ofNat_le.2 hle
  | bytes f =>
    obtain ⟨y, hy, h⟩ := bind_eq_ok.1 h
    cases y with
    | none => cases h
    | some y =>
      have hle := (protobufDecodeLengthDelimited_bounds hy).2
      cases h
      exact Int.ofNat_le.2 hle
  | string f =>
    obtain ⟨⟨text, k⟩, hy, h⟩ := bind_eq_ok.1 h
    obtain ⟨v, n, hv, hk, hr⟩ := protobufDecodeString_eq_ok.1 hy
    have hle := varintDecode_le hv
    cases h
    rcases hr with ⟨h0, -⟩ | ⟨h0, -, hbound, -⟩
    · omega
    · omega

end

section
variable {σ : Type} {fields : Int → FieldCase σ} {s r : σ} {items : List Item}

theorem applyItems_invariant {I : σ → Prop} (h0 : I s)
    (hI : ∀ i ∈ items, ∀ s r, I s → i.store fields s = .ok (some r) → I r)
    (h : applyItems fields items s = .ok (some r)) : I r := by
  induction items generalizing s with
  | nil =>
    cases h
    exact h0
  | cons i is ih =>
    rw [applyItems_cons] at h
    obtain ⟨x, hx, h⟩ := bind_eq_ok.1 h
    cases x with
    | none => cases h
    | some s' =>
      have hs : I s' := hI i List.mem_cons_self s s' h0 hx
      exact ih hs (fun j hj => hI j (List.mem_cons_of_mem _ hj)) h

/-- a field that is cut off is not read -/
theorem readItem_cut {pre : List UInt8} {i : Item} {n : Nat} {x : Nat × (σ → Exec (Option σ))}
    (hw : i.WordSized) (ha : i.Accepted fields) (hlen : i.enc.length ≤ ptrdiffMax) (h0 : 0 < n)
    (hn : n < i.enc.length) :
    readItem fields (pre ++ i.enc.take n) pre.length ≠ .ok (some x) := by
  intro h
  have htag : (tagBytes i.no i.ty).length = 1 := tagBytes_length_le_one hw.no_lt
  have henc := Item.enc_length hw
  have hcut : i.enc.take n = tagBytes i.no i.ty ++ i.body.take (n - 1) := by
    rw [Item.enc, List.take_append, htag, List.take_of_length_le (by omega)]
  obtain ⟨tag, v, ht, hv, hx⟩ := readItem_eq_ok.1 h
  rw [List.drop_left, hcut, protobufDecodeFieldAndType_tagBytes hw.no_lt] at ht
  cases ht
  have hdrop : (pre ++ i.enc.take n).drop (pre.length + 1) = i.body.take (n - 1) := by
    rw [hcut, ← List.append_assoc, List.drop_left' (by rw [List.length_append, htag])]
  simp only at hv
  rw [hdrop] at hv
  cases v with
  | none => cases hx
  | some v =>
    -- the rest of the field behind it makes no difference
    have hle := FieldCase.read_le hv
    have hfull := FieldCase.read_append (i.body.drop (n - 1)) hv
    have hbody := Item.read_body_ok hw ha
      (show (i.body ++ []).length ≤ ptrdiffMax by rw [List.append_nil]; omega)
      (by rw [List.append_nil, ← List.take_append_drop (n - 1) i.body]; exact hfull)
    rw [(Prod.mk.inj (Option.some.inj hbody)).1, List.length_take] at hle
    omega

private theorem decodeLoop_take (pre : List UInt8) {fuel n : Nat}
    (hi : ∀ i ∈ items, i.WordSized ∧ i.Accepted fields)
    (hfuel : ((itemsBytes items).take n).length ≤ fuel)
    (hlen : (pre ++ itemsBytes items).length ≤ ptrdiffMax)
    (h : decodeLoop fields (pre ++ (itemsBytes items).take n) fuel pre.length s = .ok (some r)) :
    ∃ k, (itemsBytes items).take n = itemsBytes (items.take k) ∧
      applyItems fields (items.take k) s = .ok (some r) := by
  induction items generalizing pre fuel n s with
  | nil =>
    rw [itemsBytes_nil, List.take_nil, decodeLoop_done (by simp)] at h
    refine ⟨0, ?_, h⟩
    rw [itemsBytes_nil, List.take_nil]
    rfl
  | cons i is ih =>
    obtain ⟨hw, ha⟩ := hi i List.mem_cons_self
    have hpos := i.enc_length_pos
    rw [itemsBytes_cons] at hlen hfuel h ⊢
    by_cases h0 : n = 0
    · rw [h0, List.take_zero, decodeLoop_done (by simp)] at h
      refine ⟨0, ?_, h⟩
      rw [h0]
      rfl
    · have hlt : pre.length < (pre ++ (i.enc ++ itemsBytes is).take n).length := by
        simp only [List.length_append, List.length_take]
        omega
      obtain ⟨fuel, rfl⟩ : ∃ k, fuel = k + 1 := by
        refine ⟨fuel - 1, ?_⟩
        simp only [List.length_append, List.length_take] at hfuel
        omega
      by_cases hn : n < i.enc.length
      · -- the buffer ends inside the field
        rw [decodeLoop_succ hlt] at h
        obtain ⟨x, hx, h⟩ := bind_eq_ok.1 h
        cases x with
        | none => cases h
        | some x =>
          obtain ⟨store, hread, -⟩ := fieldStep_eq_some.1 hx
          rw [List.take_append_of_le_length (by omega)] at hread
          simp only [List.length_append] at hlen
          exact absurd hread (readItem_cut hw ha (by omega) (by omega) hn)
      · have htake : (i.enc ++ itemsBytes is).take n =
            i.enc ++ (itemsBytes is).take (n - i.enc.length) := by
          rw [List.take_append, List.take_of_length_le (by omega)]
        have hlen' : (pre ++ (i.enc ++ (itemsBytes is).take (n - i.enc.length))).length ≤
            ptrdiffMax := by
          simp only [List.length_append, List.length_take] at hlen ⊢
          omega
        rw [htake] at hfuel h ⊢
        rw [decodeLoop_item hw ha hlen' (varintFits_of_decodeLoop hw ha hlen' h)] at h
        obtain ⟨t, hstore, h⟩ := bind_eq_ok.1 h
        cases t with
        | none => cases h
        | some s' =>
          rw [← List.append_assoc] at hlen
          obtain ⟨k, hk, happly⟩ := ih (pre ++ i.enc) (fun j hj => hi j (List.mem_cons_of_mem _ hj))
            (by rw [List.length_append] at hfuel; omega) hlen h
          refine ⟨k + 1, ?_, ?_⟩
          · rw [hk, List.take_succ_cons, itemsBytes_cons]
          · rw [List.take_succ_cons, applyItems_cons, hstore, ok_bind]
            exact happly

/-- **the beginning of encoded fields**: a decoder succeeds on whole fields only -/
theorem decodeFields_take {n : Nat} (hi : ∀ i ∈ items, i.WordSized ∧ i.Accepted fields)
    (hlen : (itemsBytes items).length ≤ ptrdiffMax)
    (h : decodeFields fields ((itemsBytes items).take n) s = .ok (some r)) :
    ∃ k, (itemsBytes items).take n = itemsBytes (items.take k) ∧
      applyItems fields (items.take k) s = .ok (some r) :=
  decodeLoop_take [] hi (Nat.le_succ _) hlen h

end

end Libp2p
