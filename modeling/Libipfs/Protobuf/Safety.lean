import Libipfs.Protobuf.FieldLoop

/-!
# What a field loop reads, and how it moves

Two properties of one pass of the loop, each with the exact condition on the bytes at its
position.

* `ReadsSafely`   the primitives read nothing past the end of the buffer, and a malformed tag or
                  value (a varint that is truncated or has more than ten bytes, a declared size
                  beyond the rest of the buffer) makes the decoder return 0;
* `readsSafely_iff`   this is so when nothing is malformed, or `malloc` refuses the declared size;
* `Advances`      the pass ends the decoder or moves the position forward;
* `advances_iff`  this is so unless a string moves the position back.

`Along` carries a property of passes to all the passes of a loop.
-/

namespace Libp2p
open CSem

/-! ## varints that are whole -/

/-- the value and the length of the varint at the beginning of a buffer: `none` when it is
truncated or has more than ten bytes -/
def varintAt (buf : List UInt8) : Option (Nat × Nat) :=
  match varintLength buf with
  | none => none
  | some n => if n ≤ 10 then some (varintValue (buf.take n) % 2 ^ 64, n) else none

theorem varintAt_eq_some {buf : List UInt8} {v n : Nat} :
    varintAt buf = some (v, n) ↔
      varintLength buf = some n ∧ n ≤ 10 ∧ v = varintValue (buf.take n) % 2 ^ 64 := by
  unfold varintAt
  cases h : varintLength buf with
  | none => simp
  | some m =>
    by_cases hm : m ≤ 10
    · simp only [if_pos hm, Option.some.injEq, Prod.mk.injEq]
      refine ⟨fun h => ?_, fun h => ?_⟩
      · obtain ⟨h1, rfl⟩ := h
        exact ⟨rfl, hm, h1.symm⟩
      · obtain ⟨rfl, -, h2⟩ := h
        exact ⟨h2.symm, rfl⟩
    · simp only [if_neg hm, reduceCtorEq, false_iff]
      intro h
      obtain ⟨h1, hn, -⟩ := h
      cases h1
      exact hm hn

theorem varintDecode_eq_ok_iff {len : Int} {buf : List UInt8} {v n : Nat} :
    varintDecode len buf = .ok (v, n) ↔ varintAt buf = some (v, n) ∧ varintFits n len := by
  rw [varintDecode_eq_ok, varintAt_eq_some]
  tauto

theorem varintAt_le {buf : List UInt8} {v n : Nat} (h : varintAt buf = some (v, n)) :
    n ≤ buf.length :=
  varintLength_le (varintAt_eq_some.1 h).1

private theorem varintDecodeFrom_whole {len : Int} {buf : List UInt8} {i acc m : Nat}
    (h : varintLength buf = some m) (hm : i + m ≤ 10) :
    varintDecodeFrom len i acc buf ≠ .error .outOfBounds := by
  induction buf generalizing i acc m with
  | nil => cases h
  | cons b bs ih =>
    rw [varintLength_cons] at h
    have hpos : 0 < m := by
      split at h
      · cases h
        exact Nat.one_pos
      · obtain ⟨k, -, rfl⟩ := Option.map_eq_some_iff.1 h
        exact Nat.succ_pos k
    rw [varintDecodeFrom, require_pos (by omega), ok_bind]
    by_cases hb : b.toNat < 128
    · simp [hb]
    · rw [if_neg hb] at h
      obtain ⟨k, hk, rfl⟩ := Option.map_eq_some_iff.1 h
      simp only [if_neg hb]
      by_cases hlen : ((i + 1 : Nat) : Int) < len
      · rw [require_pos hlen, ok_bind]
        exact ih hk (by omega)
      · rw [require_neg hlen]
        simp

/-- a whole varint is never read past -/
theorem varintDecode_ne_outOfBounds {len : Int} {buf : List UInt8} {x : Nat × Nat}
    (h : varintAt buf = some x) : varintDecode len buf ≠ .error .outOfBounds := by
  obtain ⟨h1, h2, -⟩ := varintAt_eq_some.1 h
  exact varintDecodeFrom_whole h1 (by omega)

/-! ## malformed fields -/

section
variable {σ : Type}

/-- what is behind the tag is not what the case reads: a varint that is not whole, or a declared
size beyond the rest of the buffer -/
def FieldCase.Malformed (rest : List UInt8) : FieldCase σ → Prop
  | .skip => False
  | .reject => False
  | .varint _ => varintAt rest = none
  | .bytes _ => ∀ size n, varintAt rest = some (size, n) → rest.length < n + size
  | .string _ => ∀ size n, varintAt rest = some (size, n) → rest.length < n + size

/-- the declared size is one that `malloc` refuses -/
def FieldCase.Refused (rest : List UInt8) : FieldCase σ → Prop
  | .bytes _ => ∃ size n, varintAt rest = some (size, n) ∧ varintFits n (toInt32 rest.length) ∧
      ptrdiffMax < size
  | _ => False

/-- the tag at `pos`, if it is whole: the field's number and the position behind it -/
def tagAt (buf : List UInt8) (pos : Nat) : Option (Int × Nat) :=
  (varintAt (buf.drop pos)).map fun x => (toInt32 (x.1 / 8 : Nat), pos + x.2)

def MalformedAt (fields : Int → FieldCase σ) (buf : List UInt8) (pos : Nat) : Prop :=
  ∀ no next, tagAt buf pos = some (no, next) → (fields no).Malformed (buf.drop next)

def RefusedAt (fields : Int → FieldCase σ) (buf : List UInt8) (pos : Nat) : Prop :=
  ∃ no next, tagAt buf pos = some (no, next) ∧
    varintFits (next - pos) (toInt32 buf.length) ∧ (fields no).Refused (buf.drop next)

variable {fields : Int → FieldCase σ} {buf : List UInt8} {pos : Nat}

theorem tagAt_eq_some {no : Int} {next : Nat} :
    tagAt buf pos = some (no, next) ↔
      ∃ field n, varintAt (buf.drop pos) = some (field, n) ∧ no = toInt32 (field / 8 : Nat) ∧
        next = pos + n := by
  unfold tagAt
  rw [Option.map_eq_some_iff]
  refine ⟨fun h => ?_, fun h => ?_⟩
  · obtain ⟨⟨field, n⟩, h, e⟩ := h
    cases e
    exact ⟨field, n, h, rfl, rfl⟩
  · obtain ⟨field, n, h, rfl, rfl⟩ := h
    exact ⟨_, h, rfl⟩

/-- one pass of the loop reads a tag that is whole and fits, and then the value -/
theorem readItem_eq_ok_iff {r : Option (Nat × (σ → Exec (Option σ)))} :
    readItem fields buf pos = .ok r ↔
      ∃ no next v, tagAt buf pos = some (no, next) ∧
        varintFits (next - pos) (toInt32 buf.length) ∧
        (fields no).read (buf.length - next) (buf.drop next) = .ok v ∧
        r = v.map fun x => (toUInt64 (next + x.1), x.2) := by
  rw [readItem_eq_ok]
  refine ⟨fun h => ?_, fun h => ?_⟩
  · obtain ⟨tag, v, ht, hv, rfl⟩ := h
    obtain ⟨field, n, hd, rfl⟩ := protobufDecodeFieldAndType_eq_ok.1 ht
    obtain ⟨h1, h2⟩ := varintDecode_eq_ok_iff.1 hd
    exact ⟨_, pos + n, v, tagAt_eq_some.2 ⟨field, n, h1, rfl, rfl⟩,
      by rwa [Nat.add_sub_cancel_left], hv, rfl⟩
  · obtain ⟨no, next, v, ht, hf, hv, rfl⟩ := h
    obtain ⟨field, n, h1, rfl, rfl⟩ := tagAt_eq_some.1 ht
    rw [Nat.add_sub_cancel_left] at hf
    exact ⟨_, v, protobufDecodeFieldAndType_eq_ok.2
      ⟨field, n, varintDecode_eq_ok_iff.2 ⟨h1, hf⟩, rfl⟩, hv, rfl⟩

/-! ### reading a value -/

theorem FieldCase.read_eq_none {c : FieldCase σ} {rest : List UInt8}
    (h : c.read rest.length rest = .ok none) : c = .reject ∨ c.Refused rest := by
  cases c with
  | skip => cases h
  | reject => exact .inl rfl
  | varint store =>
    obtain ⟨x, -, h⟩ := bind_eq_ok.1 h
    cases h
  | string store =>
    obtain ⟨x, -, h⟩ := bind_eq_ok.1 h
    cases h
  | bytes store =>
    obtain ⟨x, hx, h⟩ := bind_eq_ok.1 h
    cases x with
    | some x => cases h
    | none =>
      obtain ⟨size, n, hv, hs⟩ := protobufDecodeLengthDelimited_eq_none.1 hx
      obtain ⟨h1, h2⟩ := varintDecode_eq_ok_iff.1 hv
      exact .inr ⟨size, n, h1, h2, hs⟩

theorem FieldCase.read_of_refused {c : FieldCase σ} {rest : List UInt8} (h : c.Refused rest) :
    c.read rest.length rest = .ok none := by
  cases c with
  | bytes store =>
    obtain ⟨size, n, h1, h2, hs⟩ := h
    have hx := protobufDecodeLengthDelimited_eq_none.2 ⟨size, n, varintDecode_eq_ok_iff.2 ⟨h1, h2⟩, hs⟩
    exact bind_eq_ok.2 ⟨none, hx, rfl⟩
  | _ => exact h.elim

theorem protobufDecodeLengthDelimited_ne_outOfBounds {rest : List UInt8} {size n : Nat}
    (hv : varintAt rest = some (size, n)) (hle : n + size ≤ rest.length) :
    protobufDecodeLengthDelimited rest.length rest ≠ .error .outOfBounds := by
  refine bind_ne_error (varintDecode_ne_outOfBounds hv) fun x hx => ?_
  obtain ⟨size', n'⟩ := x
  cases hv.symm.trans (varintDecode_eq_ok_iff.1 hx).1
  dsimp only
  split
  · exact ok_ne_error
  · rw [require_pos hle]
    exact ok_ne_error

theorem protobufDecodeString_ne_outOfBounds {rest : List UInt8} {size n : Nat}
    (hv : varintAt rest = some (size, n)) (hle : n + size ≤ rest.length) :
    protobufDecodeString rest.length rest ≠ .error .outOfBounds := by
  refine bind_ne_error (varintDecode_ne_outOfBounds hv) fun x hx => ?_
  obtain ⟨size', n'⟩ := x
  cases hv.symm.trans (varintDecode_eq_ok_iff.1 hx).1
  dsimp only
  split
  · have hint := toInt32_le_natCast size
    refine bind_ne_error (require_ne_error (by decide)) fun _ _ => ?_
    rw [require_pos (by omega)]
    exact ok_ne_error
  · exact ok_ne_error

/-- what is not malformed is not read past -/
theorem FieldCase.read_ne_outOfBounds {c : FieldCase σ} {rest : List UInt8}
    (h : ¬ c.Malformed rest) : c.read rest.length rest ≠ .error .outOfBounds := by
  cases c with
  | skip => exact ok_ne_error
  | reject => exact ok_ne_error
  | varint store =>
    obtain ⟨x, hx⟩ := Option.ne_none_iff_exists'.1 h
    exact bind_ne_error (varintDecode_ne_outOfBounds hx) fun _ _ => ok_ne_error
  | bytes store =>
    simp only [FieldCase.Malformed, not_forall, Nat.not_lt] at h
    obtain ⟨size, n, hv, hle⟩ := h
    refine bind_ne_error (protobufDecodeLengthDelimited_ne_outOfBounds hv hle) fun d _ => ?_
    cases d <;> exact ok_ne_error
  | string store =>
    simp only [FieldCase.Malformed, not_forall, Nat.not_lt] at h
    obtain ⟨size, n, hv, hle⟩ := h
    exact bind_ne_error (protobufDecodeString_ne_outOfBounds hv hle) fun _ _ => ok_ne_error

/-! ## safe reading -/

/-- the pass at `pos` reads nothing past the end, and refuses what is malformed -/
def ReadsSafely (fields : Int → FieldCase σ) (buf : List UInt8) (pos : Nat) : Prop :=
  readItem fields buf pos ≠ .error .outOfBounds ∧
    (MalformedAt fields buf pos → readItem fields buf pos = .ok none)

theorem readItem_of_refusedAt (h : RefusedAt fields buf pos) :
    readItem fields buf pos = .ok none := by
  obtain ⟨no, next, ht, hf, hr⟩ := h
  have hread := FieldCase.read_of_refused hr
  rw [List.length_drop] at hread
  exact readItem_eq_ok_iff.2 ⟨no, next, none, ht, hf, hread, rfl⟩

theorem readItem_ne_outOfBounds (h : ¬ MalformedAt fields buf pos) :
    readItem fields buf pos ≠ .error .outOfBounds := by
  unfold MalformedAt at h
  push Not at h
  obtain ⟨no, next, ht, hm⟩ := h
  obtain ⟨field, n, hv, rfl, rfl⟩ := tagAt_eq_some.1 ht
  refine bind_ne_error (bind_ne_error (varintDecode_ne_outOfBounds hv) fun _ _ => ok_ne_error) ?_
  intro tag htag
  obtain ⟨field', n', hd, rfl⟩ := protobufDecodeFieldAndType_eq_ok.1 htag
  cases hv.symm.trans (varintDecode_eq_ok_iff.1 hd).1
  have hread := FieldCase.read_ne_outOfBounds hm
  rw [List.length_drop] at hread
  refine bind_ne_error hread fun x _ => ?_
  cases x <;> exact ok_ne_error

/-- **exactly when a pass reads safely** -/
theorem readsSafely_iff :
    ReadsSafely fields buf pos ↔ ¬ MalformedAt fields buf pos ∨ RefusedAt fields buf pos := by
  refine ⟨fun h => ?_, fun h => ?_⟩
  · by_cases hm : MalformedAt fields buf pos
    · obtain ⟨no, next, v, ht, hf, hv, hr⟩ := readItem_eq_ok_iff.1 (h.2 hm)
      cases v with
      | some v => cases hr
      | none =>
        have hmal := hm no next ht
        rw [← List.length_drop] at hv
        rcases FieldCase.read_eq_none hv with hc | hc
        · rw [hc] at hmal
          exact hmal.elim
        · exact .inr ⟨no, next, ht, hf, hc⟩
    · exact .inl hm
  · rcases h with h | h
    · exact ⟨readItem_ne_outOfBounds h, fun hm => absurd hm h⟩
    · have hnone := readItem_of_refusedAt h
      exact ⟨by rw [hnone]; simp, fun _ => hnone⟩

/-! ## moving forward -/

/-- the pass at `pos` with the state `s` ends the decoder or moves the position forward -/
def Advances (fields : Int → FieldCase σ) (buf : List UInt8) (pos : Nat) (s : σ) : Prop :=
  ∀ pos' s', fieldStep fields buf pos s = .ok (some (pos', s')) → pos < pos'

/-- a string at `pos` whose declared length, as an `int`, takes the position back to `pos` or
before it, and which the decoder stores -/
def StringBackAt (fields : Int → FieldCase σ) (buf : List UInt8) (pos : Nat) (s : σ) : Prop :=
  ∃ no next store v n, tagAt buf pos = some (no, next) ∧
    varintFits (next - pos) (toInt32 buf.length) ∧ fields no = .string store ∧
    varintAt (buf.drop next) = some (v, n) ∧
    varintFits n (toInt32 (buf.length - next : Nat)) ∧
    -(next + n : Int) ≤ toInt32 v ∧ toInt32 v ≤ pos - (next + n) ∧
    ∃ s', store none s = .ok (some s')

theorem FieldCase.read_bound {c : FieldCase σ} {remaining : Nat} {rest : List UInt8} {m : Int}
    {store : σ → Exec (Option σ)} (hc : ∀ f, c ≠ .string f)
    (h : c.read remaining rest = .ok (some (m, store))) : 0 ≤ m ∧ m ≤ rest.length := by
  cases c with
  | skip =>
    cases h
    omega
  | reject => cases h
  | varint f =>
    obtain ⟨⟨v, n⟩, hv, h⟩ := bind_eq_ok.1 h
    cases h
    have := varintDecode_le hv
    omega
  | bytes f =>
    obtain ⟨x, hx, h⟩ := bind_eq_ok.1 h
    cases x with
    | none => cases h
    | some x =>
      obtain ⟨d, n⟩ := x
      cases h
      have := (protobufDecodeLengthDelimited_bounds hx).2
      omega
  | string f => exact absurd rfl (hc f)

private theorem tagAt_bounds {no : Int} {next : Nat} (hpos : pos < buf.length)
    (h : tagAt buf pos = some (no, next)) : pos < next ∧ next ≤ buf.length := by
  obtain ⟨field, n, hv, -, rfl⟩ := tagAt_eq_some.1 h
  have h1 := varintLength_pos (varintAt_eq_some.1 hv).1
  have h2 := varintAt_le hv
  rw [List.length_drop] at h2
  omega

private theorem toUInt64_of_nonneg {z : Int} (h0 : 0 ≤ z) (h : z < 2 ^ 64) :
    ((toUInt64 z : Nat) : Int) = z := by
  lift z to Nat using h0
  rw [toUInt64_natCast_of_lt (by exact_mod_cast h)]

private theorem toUInt64_of_neg {z : Int} (h0 : z < 0) (h : -2 ^ 31 ≤ z) :
    2 ^ 64 - 2 ^ 31 ≤ toUInt64 z := by
  unfold toUInt64
  norm_num at *
  omega

private theorem natCast_ptrdiffMax_lt : (ptrdiffMax : Int) < 2 ^ 63 := by norm_num [ptrdiffMax]

theorem stringBackAt_step {s : σ} (hpos : pos < buf.length) (hlen : buf.length ≤ ptrdiffMax)
    (h : StringBackAt fields buf pos s) :
    ∃ pos' s', fieldStep fields buf pos s = .ok (some (pos', s')) ∧ pos' ≤ pos := by
  obtain ⟨no, next, store, v, n, ht, hf, hc, hv, hfit, h0, hback, s', hs⟩ := h
  obtain ⟨hn1, hn2⟩ := tagAt_bounds hpos ht
  have hd : protobufDecodeString (buf.length - next) (buf.drop next) = .ok (none, n + toInt32 v) :=
    protobufDecodeString_eq_ok.2
      ⟨v, n, varintDecode_eq_ok_iff.2 ⟨hv, hfit⟩, rfl, .inl ⟨by omega, rfl⟩⟩
  have hread : (fields no).read (buf.length - next) (buf.drop next) =
      .ok (some (n + toInt32 v, store none)) := by
    rw [hc]
    exact bind_eq_ok.2 ⟨_, hd, rfl⟩
  refine ⟨toUInt64 (next + (n + toInt32 v)), s', fieldStep_eq_some.2
    ⟨store none, readItem_eq_ok_iff.2 ⟨no, next, _, ht, hf, hread, rfl⟩, hs⟩, ?_⟩
  have hz : ((toUInt64 (next + (n + toInt32 v)) : Nat) : Int) = next + (n + toInt32 v) :=
    toUInt64_of_nonneg (by omega) (by have := natCast_ptrdiffMax_lt; omega)
  omega

/-- **exactly when a pass advances** -/
theorem advances_iff {s : σ} (hpos : pos < buf.length) (hlen : buf.length ≤ ptrdiffMax) :
    Advances fields buf pos s ↔ ¬ StringBackAt fields buf pos s := by
  refine ⟨fun h hb => ?_, fun h pos' s' hstep => ?_⟩
  · obtain ⟨pos', s', hstep, hle⟩ := stringBackAt_step hpos hlen hb
    have := h pos' s' hstep
    omega
  · obtain ⟨store, hr, hs⟩ := fieldStep_eq_some.1 hstep
    obtain ⟨no, next, v, ht, hf, hv, e⟩ := readItem_eq_ok_iff.1 hr
    obtain ⟨hn1, hn2⟩ := tagAt_bounds hpos ht
    have hpd := natCast_ptrdiffMax_lt
    obtain ⟨m, rfl⟩ : ∃ m, v = some (m, store) := by
      cases v with
      | none => cases e
      | some v =>
        cases e
        exact ⟨v.1, rfl⟩
    obtain rfl : pos' = toUInt64 (next + m) := congrArg Prod.fst (Option.some.inj e)
    have hfwd (h0 : 0 ≤ m) (hm : m ≤ (buf.drop next).length) : pos < toUInt64 (next + m) := by
      rw [List.length_drop] at hm
      have hz : ((toUInt64 (next + m) : Nat) : Int) = next + m :=
        toUInt64_of_nonneg (by omega) (by omega)
      omega
    by_cases hc : ∀ f, fields no ≠ .string f
    · obtain ⟨h0, hm⟩ := FieldCase.read_bound hc hv
      exact hfwd h0 hm
    · push Not at hc
      obtain ⟨f, hc⟩ := hc
      rw [hc] at hv
      obtain ⟨⟨text, m'⟩, hd, hv⟩ := bind_eq_ok.1 hv
      obtain ⟨rfl, rfl⟩ : m' = m ∧ f text = store := by
        cases hv
        exact ⟨rfl, rfl⟩
      obtain ⟨v, n, hdec, rfl, hcase⟩ := protobufDecodeString_eq_ok.1 hd
      obtain ⟨hwhole, hfit⟩ := varintDecode_eq_ok_iff.1 hdec
      have hnb := varintAt_le hwhole
      rw [List.length_drop] at hnb
      rcases hcase with ⟨hneg, rfl⟩ | ⟨hp, -, hin, -⟩
      · -- nothing is stored: the position moves by `n` plus the declared length
        have hlo := (toInt32_bounds v).1
        by_cases hz : (next : Int) + (n + toInt32 v) < 0
        · have := toUInt64_of_neg hz (by omega)
          omega
        · have hz' : ((toUInt64 (next + (n + toInt32 v)) : Nat) : Int) = next + (n + toInt32 v) :=
            toUInt64_of_nonneg (by omega) (by omega)
          by_contra hle
          exact h ⟨no, next, f, v, n, ht, hf, hc, hwhole, hfit, by omega, by omega, s', hs⟩
      · exact hfwd (by omega) (by omega)

/-! ## along the loop -/

/-- what is asked of one pass, asked of every pass the loop makes -/
def Along (fields : Int → FieldCase σ) (s0 : σ) (P : List UInt8 → Nat → σ → Prop)
    (buf : List UInt8) : Prop :=
  ∀ pos s, Reached fields buf s0 pos s → pos < buf.length → P buf pos s

theorem along_congr {s0 : σ} {P Q : List UInt8 → Nat → σ → Prop}
    (h : ∀ pos s, pos < buf.length → (P buf pos s ↔ Q buf pos s)) :
    Along fields s0 P buf ↔ Along fields s0 Q buf :=
  ⟨fun hP pos s hr hpos => (h pos s hpos).1 (hP pos s hr hpos),
    fun hQ pos s hr hpos => (h pos s hpos).2 (hQ pos s hr hpos)⟩

/-- the pass at `pos` hands the bytes `d` of the field `no` to what follows -/
def Hands (buf : List UInt8) (pos : Nat) (no : Int) (d : List UInt8) : Prop :=
  ∃ next m, tagAt buf pos = some (no, next) ∧ varintFits (next - pos) (toInt32 buf.length) ∧
    protobufDecodeLengthDelimited (buf.length - next) (buf.drop next) = .ok (some (d, m))

/-- the action of a pass comes from the case of its field -/
theorem readItem_store {pos' : Nat} {store : σ → Exec (Option σ)}
    (h : readItem fields buf pos = .ok (some (pos', store))) :
    ∃ no, (fields no = .skip ∧ store = fun s => .ok (some s)) ∨
      (∃ f v, fields no = .varint f ∧ store = f v) ∨
      (∃ f d, fields no = .bytes f ∧ store = f d ∧ Hands buf pos no d) ∨
      (∃ f text, fields no = .string f ∧ store = f text) := by
  obtain ⟨no, next, v, ht, hf, hv, e⟩ := readItem_eq_ok_iff.1 h
  obtain ⟨m, rfl⟩ : ∃ m, v = some (m, store) := by
    cases v with
    | none => cases e
    | some v =>
      cases e
      exact ⟨v.1, rfl⟩
  refine ⟨no, ?_⟩
  cases hc : fields no with
  | skip =>
    rw [hc] at hv
    cases hv
    exact .inl ⟨rfl, rfl⟩
  | reject =>
    rw [hc] at hv
    cases hv
  | varint f =>
    rw [hc] at hv
    obtain ⟨⟨v, n⟩, -, hv⟩ := bind_eq_ok.1 hv
    cases hv
    exact .inr (.inl ⟨f, v, rfl, rfl⟩)
  | bytes f =>
    rw [hc] at hv
    obtain ⟨x, hx, hv⟩ := bind_eq_ok.1 hv
    cases x with
    | none => cases hv
    | some x =>
      obtain ⟨d, n⟩ := x
      cases hv
      exact .inr (.inr (.inl ⟨f, d, rfl, rfl, next, n, ht, hf, hx⟩))
  | string f =>
    rw [hc] at hv
    obtain ⟨⟨text, n⟩, -, hv⟩ := bind_eq_ok.1 hv
    cases hv
    exact .inr (.inr (.inr ⟨f, text, rfl, rfl⟩))

/-- a fault of the loop, but for running out of fuel, is the fault of one of its passes -/
theorem decodeFields_ne_error {s0 : σ} {e : Fault} (he : e ≠ .diverges)
    (h : Along fields s0 (fun buf pos s => fieldStep fields buf pos s ≠ .error e) buf) :
    decodeFields fields buf s0 ≠ .error e := by
  have key (fuel pos : Nat) (s : σ) (hr : Reached fields buf s0 pos s) :
      decodeLoop fields buf fuel pos s ≠ .error e := by
    induction fuel generalizing pos s with
    | zero =>
      rw [decodeLoop]
      split
      · intro h
        cases h
        exact he rfl
      · simp
    | succ fuel ih =>
      by_cases hpos : pos < buf.length
      · rw [decodeLoop_succ hpos]
        intro hd
        rcases bind_eq_error.1 hd with hd | ⟨x, hx, hd⟩
        · exact h pos s hr hpos hd
        · cases x with
          | none => cases hd
          | some x => exact ih x.1 x.2 (hr.step hpos hx) hd
      · rw [decodeLoop_done hpos]
        simp
  exact key _ 0 s0 Reached.start

private theorem decodeLoop_of_advances {s0 s : σ} {fuel : Nat}
    (hadv : Along fields s0 (Advances fields) buf)
    (hst : Along fields s0 (fun buf pos s => fieldStep fields buf pos s ≠ .error .diverges) buf)
    (hr : Reached fields buf s0 pos s) (hfuel : buf.length < pos + fuel) :
    decodeLoop fields buf fuel pos s ≠ .error .diverges := by
  induction fuel generalizing pos s with
  | zero =>
    rw [decodeLoop_done (by omega)]
    simp
  | succ fuel ih =>
    by_cases hpos : pos < buf.length
    · rw [decodeLoop_succ hpos]
      intro he
      rcases bind_eq_error.1 he with he | ⟨x, hx, he⟩
      · exact hst pos s hr hpos he
      · cases x with
        | none => cases he
        | some x =>
          have := hadv pos s hr hpos x.1 x.2 hx
          exact ih (hr.step hpos hx) (by omega) he
    · rw [decodeLoop_done hpos]
      simp

theorem decodeFields_of_advances {s0 : σ} (hadv : Along fields s0 (Advances fields) buf)
    (hst : Along fields s0 (fun buf pos s => fieldStep fields buf pos s ≠ .error .diverges) buf) :
    decodeFields fields buf s0 ≠ .error .diverges :=
  decodeLoop_of_advances hadv hst Reached.start (by omega)

/-! ### the primitives end -/

theorem varintDecode_ne_diverges {len : Int} {rest : List UInt8} :
    varintDecode len rest ≠ .error .diverges := by
  have key (i acc : Nat) : varintDecodeFrom len i acc rest ≠ .error .diverges := by
    induction rest generalizing i acc with
    | nil => simp [varintDecodeFrom]
    | cons b bs ih =>
      rw [varintDecodeFrom]
      refine bind_ne_error (require_ne_error (by decide)) fun _ _ => ?_
      dsimp only
      split
      · exact ok_ne_error
      · exact bind_ne_error (require_ne_error (by decide)) fun _ _ => ih _ _
  exact key 0 0

theorem protobufDecodeLengthDelimited_ne_diverges {remaining : Nat} {rest : List UInt8} :
    protobufDecodeLengthDelimited remaining rest ≠ .error .diverges := by
  refine bind_ne_error varintDecode_ne_diverges fun x _ => ?_
  dsimp only
  split
  · exact ok_ne_error
  · exact bind_ne_error (require_ne_error (by decide)) fun _ _ => ok_ne_error

theorem protobufDecodeString_ne_diverges {remaining : Nat} {rest : List UInt8} :
    protobufDecodeString remaining rest ≠ .error .diverges := by
  refine bind_ne_error varintDecode_ne_diverges fun x _ => ?_
  dsimp only
  split
  · refine bind_ne_error (require_ne_error (by decide)) fun _ _ => ?_
    exact bind_ne_error (require_ne_error (by decide)) fun _ _ => ok_ne_error
  · exact ok_ne_error

theorem FieldCase.read_ne_diverges {c : FieldCase σ} {remaining : Nat} {rest : List UInt8} :
    c.read remaining rest ≠ .error .diverges := by
  cases c with
  | skip => exact ok_ne_error
  | reject => exact ok_ne_error
  | varint store => exact bind_ne_error varintDecode_ne_diverges fun _ _ => ok_ne_error
  | bytes store =>
    refine bind_ne_error protobufDecodeLengthDelimited_ne_diverges fun d _ => ?_
    cases d <;> exact ok_ne_error
  | string store => exact bind_ne_error protobufDecodeString_ne_diverges fun _ _ => ok_ne_error

theorem readItem_ne_diverges : readItem fields buf pos ≠ .error .diverges := by
  refine bind_ne_error (bind_ne_error varintDecode_ne_diverges fun _ _ => ok_ne_error) fun tag _ => ?_
  refine bind_ne_error FieldCase.read_ne_diverges fun x _ => ?_
  cases x <;> exact ok_ne_error

/-! ## decoders within decoders -/

/-- every pass reads safely, and so does every decoder that a pass hands bytes to: `nested` says
it of the decoder behind a field number -/
def SafeOn (fields : Int → FieldCase σ) (s0 : σ) (nested : Int → List UInt8 → Prop) :
    List UInt8 → Prop :=
  Along fields s0 fun buf pos _ =>
    ReadsSafely fields buf pos ∧ ∀ no d, Hands buf pos no d → nested no d

/-- no pass finds anything malformed, unless `malloc` refuses its size, and neither does any
decoder that a pass hands bytes to -/
def WholeOn (fields : Int → FieldCase σ) (s0 : σ) (nested : Int → List UInt8 → Prop) :
    List UInt8 → Prop :=
  Along fields s0 fun buf pos _ =>
    (¬ MalformedAt fields buf pos ∨ RefusedAt fields buf pos) ∧
      ∀ no d, Hands buf pos no d → nested no d

theorem safeOn_iff_wholeOn {s0 : σ} {nested nested' : Int → List UInt8 → Prop}
    (h : ∀ no d, nested no d ↔ nested' no d) :
    SafeOn fields s0 nested buf ↔ WholeOn fields s0 nested' buf := by
  refine along_congr fun pos s hpos => and_congr readsSafely_iff ?_
  exact forall_congr' fun no => forall_congr' fun d => imp_congr_right fun _ => h no d

/-- the action of the case does not fault with `e`, on bytes of which `P` holds -/
def FieldCase.Quiet (e : Fault) (P : List UInt8 → Prop) : FieldCase σ → Prop
  | .skip => True
  | .reject => True
  | .varint f => ∀ v s, f v s ≠ .error e
  | .bytes f => ∀ d s, P d → f d s ≠ .error e
  | .string f => ∀ text s, f text s ≠ .error e

private theorem store_ne_error {e : Fault} {nested : Int → List UInt8 → Prop} {pos' : Nat}
    {store : σ → Exec (Option σ)} (hq : ∀ no, (fields no).Quiet e (nested no))
    (hnested : ∀ no d, Hands buf pos no d → nested no d)
    (hx : readItem fields buf pos = .ok (some (pos', store))) (s : σ) : store s ≠ .error e := by
  obtain ⟨no, hc⟩ := readItem_store hx
  have hq := hq no
  rcases hc with ⟨-, rfl⟩ | ⟨f, v, hf, rfl⟩ | ⟨f, d, hf, rfl, hd⟩ | ⟨f, text, hf, rfl⟩
  · simp
  · rw [hf] at hq
    exact hq v s
  · rw [hf] at hq
    exact hq d s (hnested no d hd)
  · rw [hf] at hq
    exact hq text s

private theorem fieldStep_ne_error {e : Fault} {nested : Int → List UInt8 → Prop}
    (hread : readItem fields buf pos ≠ .error e) (hq : ∀ no, (fields no).Quiet e (nested no))
    (hnested : ∀ no d, Hands buf pos no d → nested no d) (s : σ) :
    fieldStep fields buf pos s ≠ .error e := by
  refine bind_ne_error hread fun x hx => ?_
  cases x with
  | none => exact ok_ne_error
  | some x =>
    refine bind_ne_error (store_ne_error hq hnested hx s) fun y _ => ?_
    cases y <;> exact ok_ne_error

/-- **safe decoding**: the decoder does not end with a read past the end -/
theorem SafeOn.ne_outOfBounds {s0 : σ} {nested : Int → List UInt8 → Prop}
    (h : SafeOn fields s0 nested buf)
    (hq : ∀ no, (fields no).Quiet .outOfBounds (nested no)) :
    decodeFields fields buf s0 ≠ .error .outOfBounds :=
  decodeFields_ne_error (by simp) fun pos s hr hpos =>
    fieldStep_ne_error (h pos s hr hpos).1.1 hq (h pos s hr hpos).2 s

/-- every pass advances, and so does every pass of a decoder that a pass hands bytes to -/
def AdvancesOn (fields : Int → FieldCase σ) (s0 : σ) (nested : Int → List UInt8 → Prop) :
    List UInt8 → Prop :=
  Along fields s0 fun buf pos s =>
    Advances fields buf pos s ∧ ∀ no d, Hands buf pos no d → nested no d

/-- no string takes the position back, here or in a decoder that a pass hands bytes to -/
def NeverBackOn (fields : Int → FieldCase σ) (s0 : σ) (nested : Int → List UInt8 → Prop) :
    List UInt8 → Prop :=
  Along fields s0 fun buf pos s =>
    ¬ StringBackAt fields buf pos s ∧ ∀ no d, Hands buf pos no d → nested no d

theorem Hands.length_le {no : Int} {d : List UInt8} (h : Hands buf pos no d) :
    d.length ≤ buf.length := by
  obtain ⟨next, m, -, -, h⟩ := h
  obtain ⟨size, n, -, -, -, rfl, -⟩ := protobufDecodeLengthDelimited_eq_some.1 h
  rw [List.length_take, List.length_drop, List.length_drop]
  omega

theorem advancesOn_iff {s0 : σ} {nested nested' : Int → List UInt8 → Prop}
    (h : ∀ no d, d.length ≤ ptrdiffMax → (nested no d ↔ nested' no d))
    (hlen : buf.length ≤ ptrdiffMax) :
    AdvancesOn fields s0 nested buf ↔ NeverBackOn fields s0 nested' buf := by
  refine along_congr fun pos s hpos => and_congr (advances_iff hpos hlen) ?_
  exact forall_congr' fun no => forall_congr' fun d => forall_congr' fun hd =>
    h no d (le_trans hd.length_le hlen)

/-- **a loop that advances comes to its end** -/
theorem AdvancesOn.ne_diverges {s0 : σ} {nested : Int → List UInt8 → Prop}
    (h : AdvancesOn fields s0 nested buf) (hq : ∀ no, (fields no).Quiet .diverges (nested no)) :
    decodeFields fields buf s0 ≠ .error .diverges :=
  decodeFields_of_advances (fun pos s hr hpos => (h pos s hr hpos).1) fun pos s hr hpos =>
    fieldStep_ne_error readItem_ne_diverges hq (h pos s hr hpos).2 s

end

end Libp2p
