import Libipfs.Protobuf.Encode

/-!
# The field loop of the decoders

Every protobuf decoder of the repository is the same loop,

    while (pos < buffer_length) { read a tag; pos += bytes_read; switch (field_no) … }

with a `switch` of its own.  A decoder is given here by its `switch`: for each field number, how
the value behind the tag is read (`FieldCase`) and what is done with it.  The tag is read with the
length of the WHOLE buffer, the value with what remains of it; a field number without a case
leaves `pos` behind the tag; a string may move `pos` back.

* `readItem`        one tag and one value: the new position and the action on the decoder's state;
* `fieldStep`       one pass of the loop;
* `decodeFields`    the loop, with fuel for one pass more than there are positions;
* `Reached`         the positions and states the loop passes through;
* `decodeFields_items`, `decodeFields_items_ok`   decoding a sequence of encoded fields.
-/

namespace Libp2p
open CSem

/-! ## the loop -/

/-- a case of the `switch`; a `store` that yields `none` makes the decoder return 0 -/
inductive FieldCase (σ : Type) where
  /-- no case, or one that reads nothing -/
  | skip
  /-- the decoder returns 0 -/
  | reject
  | varint (store : Nat → σ → Exec (Option σ))
  | bytes (store : List UInt8 → σ → Exec (Option σ))
  | string (store : Option (List UInt8) → σ → Exec (Option σ))

section
variable {σ : Type}

/-- the value behind a tag: how far the position moves, and what is done with the value -/
def FieldCase.read (remaining : Nat) (buf : List UInt8) :
    FieldCase σ → Exec (Option (Int × (σ → Exec (Option σ))))
  | .skip => .ok (some (0, fun s => .ok (some s)))
  | .reject => .ok none
  | .varint store => do
    let (v, m) ← protobufDecodeVarint remaining buf
    .ok (some (m, store v))
  | .bytes store => do
    match ← protobufDecodeLengthDelimited remaining buf with
    | none => .ok none
    | some (d, m) => .ok (some (m, store d))
  | .string store => do
    let (text, m) ← protobufDecodeString remaining buf
    .ok (some (m, store text))

def readItem (fields : Int → FieldCase σ) (buf : List UInt8) (pos : Nat) :
    Exec (Option (Nat × (σ → Exec (Option σ)))) := do
  let tag ← protobufDecodeFieldAndType (toInt32 buf.length) (buf.drop pos)
  let pos := pos + tag.bytesRead
  match ← (fields tag.fieldNo).read (buf.length - pos) (buf.drop pos) with
  | none => .ok none
  | some (m, store) => .ok (some (toUInt64 (pos + m), store))

def fieldStep (fields : Int → FieldCase σ) (buf : List UInt8) (pos : Nat) (s : σ) :
    Exec (Option (Nat × σ)) := do
  match ← readItem fields buf pos with
  | none => .ok none
  | some (pos', store) =>
    match ← store s with
    | none => .ok none
    | some s' => .ok (some (pos', s'))

def decodeLoop (fields : Int → FieldCase σ) (buf : List UInt8) : Nat → Nat → σ → Exec (Option σ)
  | 0, pos, s => if pos < buf.length then .error .diverges else .ok (some s)
  | fuel + 1, pos, s =>
    if pos < buf.length then do
      match ← fieldStep fields buf pos s with
      | none => .ok none
      | some (pos', s') => decodeLoop fields buf fuel pos' s'
    else .ok (some s)

/-- `none` when the decoder returns 0 -/
def decodeFields (fields : Int → FieldCase σ) (buf : List UInt8) (s : σ) : Exec (Option σ) :=
  decodeLoop fields buf (buf.length + 1) 0 s

/-- the state the loop stops with, also where the decoder returns 0 -/
def decodeLoopLeft (fields : Int → FieldCase σ) (buf : List UInt8) : Nat → Nat → σ → Exec σ
  | 0, pos, s => if pos < buf.length then .error .diverges else .ok s
  | fuel + 1, pos, s =>
    if pos < buf.length then do
      match ← fieldStep fields buf pos s with
      | none => .ok s
      | some (pos', s') => decodeLoopLeft fields buf fuel pos' s'
    else .ok s

/-- the loop arrives at `pos` with the state `s` -/
inductive Reached (fields : Int → FieldCase σ) (buf : List UInt8) (s0 : σ) : Nat → σ → Prop
  | start : Reached fields buf s0 0 s0
  | step {pos pos' : Nat} {s s' : σ} (h : Reached fields buf s0 pos s) (hpos : pos < buf.length)
      (hstep : fieldStep fields buf pos s = .ok (some (pos', s'))) :
      Reached fields buf s0 pos' s'

variable {fields : Int → FieldCase σ} {buf : List UInt8} {pos : Nat} {s : σ}

theorem decodeLoop_done {fuel : Nat} (h : ¬ pos < buf.length) :
    decodeLoop fields buf fuel pos s = .ok (some s) := by
  cases fuel with
  | zero => rw [decodeLoop, if_neg h]
  | succ fuel => rw [decodeLoop, if_neg h]

theorem decodeLoop_succ {fuel : Nat} (h : pos < buf.length) :
    decodeLoop fields buf (fuel + 1) pos s = fieldStep fields buf pos s >>= fun r =>
      match r with
      | none => .ok none
      | some (pos', s') => decodeLoop fields buf fuel pos' s' := by
  rw [decodeLoop, if_pos h]

theorem readItem_eq_ok {r : Option (Nat × (σ → Exec (Option σ)))} :
    readItem fields buf pos = .ok r ↔
      ∃ tag v, protobufDecodeFieldAndType (toInt32 buf.length) (buf.drop pos) = .ok tag ∧
        (fields tag.fieldNo).read (buf.length - (pos + tag.bytesRead))
          (buf.drop (pos + tag.bytesRead)) = .ok v ∧
        r = v.map fun x => (toUInt64 ((pos + tag.bytesRead : Nat) + x.1), x.2) := by
  unfold readItem
  rw [bind_eq_ok]
  refine ⟨fun h => ?_, fun h => ?_⟩
  · obtain ⟨tag, htag, h⟩ := h
    obtain ⟨v, hv, h⟩ := bind_eq_ok.1 h
    refine ⟨tag, v, htag, hv, ?_⟩
    cases v with
    | none => exact (Except.ok.inj h).symm
    | some x => exact (Except.ok.inj h).symm
  · obtain ⟨tag, v, htag, hv, rfl⟩ := h
    refine ⟨tag, htag, bind_eq_ok.2 ⟨v, hv, ?_⟩⟩
    cases v with
    | none => rfl
    | some x => rfl

theorem fieldStep_eq_some {pos' : Nat} {s' : σ} :
    fieldStep fields buf pos s = .ok (some (pos', s')) ↔
      ∃ store, readItem fields buf pos = .ok (some (pos', store)) ∧ store s = .ok (some s') := by
  unfold fieldStep
  rw [bind_eq_ok]
  refine ⟨fun h => ?_, fun h => ?_⟩
  · obtain ⟨r, hr, h⟩ := h
    cases r with
    | none => cases h
    | some r =>
      obtain ⟨t, ht, h⟩ := bind_eq_ok.1 h
      cases t with
      | none => cases h
      | some t =>
        cases h
        exact ⟨r.2, hr, ht⟩
  · obtain ⟨store, hr, ht⟩ := h
    exact ⟨_, hr, bind_eq_ok.2 ⟨_, ht, rfl⟩⟩

/-- a decoder that succeeds got behind the end of the buffer with the state it returns -/
theorem reached_of_decodeLoop {s0 r : σ} {fuel : Nat} (hr : Reached fields buf s0 pos s)
    (h : decodeLoop fields buf fuel pos s = .ok (some r)) :
    ∃ pos', Reached fields buf s0 pos' r ∧ buf.length ≤ pos' := by
  induction fuel generalizing pos s with
  | zero =>
    by_cases hpos : pos < buf.length
    · rw [decodeLoop, if_pos hpos] at h
      cases h
    · rw [decodeLoop_done hpos] at h
      cases h
      exact ⟨pos, hr, Nat.le_of_not_lt hpos⟩
  | succ fuel ih =>
    by_cases hpos : pos < buf.length
    · rw [decodeLoop_succ hpos] at h
      obtain ⟨x, hx, h⟩ := bind_eq_ok.1 h
      cases x with
      | none => cases h
      | some x => exact ih (hr.step hpos hx) h
    · rw [decodeLoop_done hpos] at h
      cases h
      exact ⟨pos, hr, Nat.le_of_not_lt hpos⟩

theorem reached_of_decodeFields {s0 r : σ} (h : decodeFields fields buf s0 = .ok (some r)) :
    ∃ pos', Reached fields buf s0 pos' r ∧ buf.length ≤ pos' :=
  reached_of_decodeLoop Reached.start h

/-- an invariant of the actions is one of the loop -/
theorem Reached.invariant {s0 : σ} {I : σ → Prop} (h0 : I s0)
    (hI : ∀ p p' store s s', readItem fields buf p = .ok (some (p', store)) → I s →
      store s = .ok (some s') → I s')
    (h : Reached fields buf s0 pos s) : I s := by
  induction h with
  | start => exact h0
  | step h hpos hstep ih =>
    obtain ⟨store, hr, hs⟩ := fieldStep_eq_some.1 hstep
    exact hI _ _ _ _ _ hr ih hs

end

/-! ## decoding encoded fields -/

/-- a field as it is written -/
inductive Item where
  | varint (no : Nat) (ty : WireType) (v : Nat)
  | bytes (no : Nat) (ty : WireType) (d : List UInt8)
  deriving DecidableEq, Repr

def Item.no : Item → Nat
  | .varint no _ _ => no
  | .bytes no _ _ => no

def Item.ty : Item → WireType
  | .varint _ ty _ => ty
  | .bytes _ ty _ => ty

/-- what is behind the tag -/
def Item.body : Item → List UInt8
  | .varint _ _ v => varintBytes v
  | .bytes _ _ d => varintBytes d.length ++ d

def Item.enc (i : Item) : List UInt8 := tagBytes i.no i.ty ++ i.body

/-- the length of the varint behind the tag: the value's, or that of the number of bytes -/
def Item.sizeLength : Item → Nat
  | .varint _ _ v => (varintBytes v).length
  | .bytes _ _ d => (varintBytes d.length).length

theorem Item.enc_varint (no : Nat) (ty : WireType) (v : Nat) :
    (Item.varint no ty v).enc = varintField no ty v := rfl
theorem Item.enc_bytes (no : Nat) (ty : WireType) (d : List UInt8) :
    (Item.bytes no ty d).enc = bytesField no ty d := rfl

/-- the encoder call that writes the field -/
def Item.encode : Item → Nat → Exec (List UInt8)
  | .varint no ty v => protobufEncodeVarint no ty v
  | .bytes no ty d => protobufEncodeLengthDelimited no ty d

def itemsBytes (items : List Item) : List UInt8 := items.flatMap Item.enc

@[simp] theorem itemsBytes_nil : itemsBytes [] = [] := rfl
@[simp] theorem itemsBytes_cons (i : Item) (is : List Item) :
    itemsBytes (i :: is) = i.enc ++ itemsBytes is := rfl
theorem itemsBytes_eq_flatten (items : List Item) :
    itemsBytes items = (items.map Item.enc).flatten := List.flatMap_def
theorem itemsBytes_append (is js : List Item) :
    itemsBytes (is ++ js) = itemsBytes is ++ itemsBytes js := by
  simp [itemsBytes]

/-- the fields, one call after the other -/
def encodeItems (items : List Item) : Nat → Exec (List UInt8) :=
  encodeAll (items.map Item.encode)

/-- the number of the field is written in one byte, and its value in a machine word -/
def Item.WordSized : Item → Prop
  | .varint no _ v => no < 16 ∧ v < 2 ^ 64
  | .bytes no _ _ => no < 16

theorem Item.WordSized.no_lt {i : Item} (h : i.WordSized) : i.no < 16 := by
  cases i with
  | varint no ty v => exact h.1
  | bytes no ty d => exact h

theorem Item.writes {i : Item} (h : i.WordSized) : Writes i.encode i.enc := by
  have hno : i.no < 2 ^ 29 := lt_trans h.no_lt (by norm_num)
  cases i with
  | varint no ty v => exact Writes.protobufEncodeVarint hno h.2
  | bytes no ty d => exact Writes.protobufEncodeLengthDelimited hno

theorem writes_encodeItems {items : List Item} (h : ∀ i ∈ items, i.WordSized) :
    Writes (encodeItems items) (itemsBytes items) :=
  Writes.encodeAll (forall₂_map fun i hi => Item.writes (h i hi))

section
variable {σ : Type} {fields : Int → FieldCase σ} {s : σ}

/-- what the decoder does with an encoded field -/
def Item.store (fields : Int → FieldCase σ) (i : Item) : σ → Exec (Option σ) :=
  match i, fields i.no with
  | .varint _ _ v, .varint store => store v
  | .bytes _ _ d, .bytes store => store d
  | .bytes _ _ d, .string store => store (if d = [] then none else some (cString d))
  | _, _ => fun _ => .ok none

/-- the decoder has a case for the field, of the field's kind -/
def Item.Accepted (fields : Int → FieldCase σ) (i : Item) : Prop :=
  match i, fields i.no with
  | .varint _ _ _, .varint _ => True
  | .bytes _ _ _, .bytes _ => True
  | .bytes _ _ d, .string _ => d.length + 1 < 2 ^ 31
  | _, _ => False

def applyItems (fields : Int → FieldCase σ) : List Item → σ → Exec (Option σ)
  | [], s => .ok (some s)
  | i :: is, s => do
    match ← i.store fields s with
    | none => .ok none
    | some s' => applyItems fields is s'

@[simp] theorem applyItems_nil : applyItems fields [] s = .ok (some s) := rfl
theorem applyItems_cons (i : Item) (is : List Item) :
    applyItems fields (i :: is) s = i.store fields s >>= fun r =>
      match r with
      | none => .ok none
      | some s' => applyItems fields is s' := rfl

theorem applyItems_append (is js : List Item) (s : σ) :
    applyItems fields (is ++ js) s = applyItems fields is s >>= fun r =>
      match r with
      | none => .ok none
      | some s' => applyItems fields js s' := by
  induction is generalizing s with
  | nil => rfl
  | cons i is ih =>
    rw [List.cons_append, applyItems_cons, applyItems_cons]
    cases i.store fields s with
    | error e => rfl
    | ok r =>
      cases r with
      | none => rfl
      | some t => exact ih t

theorem applyItems_append_of {is js : List Item} {s s' : σ}
    (h : applyItems fields is s = .ok (some s')) :
    applyItems fields (is ++ js) s = applyItems fields js s' := by
  rw [applyItems_append, h]
  rfl

theorem applyItems_append_eq_some {is js : List Item} {s r : σ} :
    applyItems fields (is ++ js) s = .ok (some r) ↔
      ∃ t, applyItems fields is s = .ok (some t) ∧ applyItems fields js t = .ok (some r) := by
  rw [applyItems_append, bind_eq_ok]
  constructor
  · intro h
    obtain ⟨t, ht, h⟩ := h
    cases t with
    | none => cases h
    | some t => exact ⟨t, ht, h⟩
  · intro h
    obtain ⟨t, ht, h⟩ := h
    exact ⟨some t, ht, h⟩

/-- **a repeated field**: each is parsed, and pushed behind those before it -/
theorem applyItems_repeated {α β : Type} {no : Nat} {ty : WireType} {enc : α → List UInt8}
    {parse : List UInt8 → Exec (Option β)} {push : σ → β → σ}
    (hstore : ∀ d s, (Item.bytes no ty d).store fields s =
      parse d >>= fun r => .ok (r.map (push s))) {l : List α} {s s' : σ} :
    applyItems fields (l.map fun a => .bytes no ty (enc a)) s = .ok (some s') ↔
      ∃ read, List.Forall₂ (fun a b => parse (enc a) = .ok (some b)) l read ∧
        s' = read.foldl push s := by
  induction l generalizing s with
  | nil =>
    constructor
    · intro h
      cases h
      exact ⟨[], .nil, rfl⟩
    · intro h
      obtain ⟨read, hread, rfl⟩ := h
      cases hread
      rfl
  | cons a l ih =>
    rw [List.map_cons, applyItems_cons, hstore]
    constructor
    · intro h
      obtain ⟨t, ht, h⟩ := bind_eq_ok.1 h
      obtain ⟨r, hr, ht⟩ := bind_eq_ok.1 ht
      cases r with
      | none =>
        cases ht
        cases h
      | some b =>
        cases ht
        obtain ⟨read, hread, hs⟩ := ih.1 h
        exact ⟨b :: read, .cons hr hread, hs⟩
    · intro h
      obtain ⟨read, hread, hs⟩ := h
      cases hread with
      | cons hr hread => exact bind_eq_ok.2 ⟨_, bind_eq_ok.2 ⟨_, hr, rfl⟩, ih.2 ⟨_, hread, hs⟩⟩

theorem Item.enc_length_pos (i : Item) : 0 < i.enc.length := by
  have := varintBytes_length_pos (i.no * 8 + i.ty.num)
  rw [Item.enc, tagBytes, List.length_append]
  omega

/-- a tag is a single byte: it is read whatever the length given is -/
theorem protobufDecodeFieldAndType_tagBytes {len : Int} {no : Nat} {ty : WireType}
    {rest : List UInt8} (h : no < 16) :
    protobufDecodeFieldAndType len (tagBytes no ty ++ rest) =
      .ok { fieldNo := no, fieldType := ty.num, bytesRead := 1 } := by
  have ht := ty.num_lt
  have hl : (tagBytes no ty).length = 1 := tagBytes_length_le_one h
  have hd : varintDecode len (tagBytes no ty ++ rest) = .ok (no * 8 + ty.num, 1) := by
    have h : varintDecode len (varintBytes (no * 8 + ty.num) ++ rest) = .ok (_, _) :=
      varintDecode_varintBytes (by omega) (.inl hl)
    rwa [show (varintBytes (no * 8 + ty.num)).length = 1 from hl] at h
  refine protobufDecodeFieldAndType_eq_ok.2 ⟨_, _, hd, ?_⟩
  have h8 : (no * 8 + ty.num) / 8 = no := by omega
  rw [h8, toInt32_natCast_of_lt (by omega)]
  have : ((no * 8 + ty.num : Nat) : Int) - no * 8 = ty.num := by push_cast; ring
  rw [this, toInt32_natCast_of_lt (by omega)]

/-- the value of an encoded field can be read as nothing else -/
theorem Item.read_body_ok {i : Item} {remaining : Nat} {rest : List UInt8}
    {x : Option (Int × (σ → Exec (Option σ)))} (hw : i.WordSized) (ha : i.Accepted fields)
    (hlen : (i.body ++ rest).length ≤ ptrdiffMax)
    (h : (fields i.no).read remaining (i.body ++ rest) = .ok x) :
    x = some ((i.body.length : Int), i.store fields) := by
  have hpd : ptrdiffMax < 2 ^ 64 := ptrdiffMax_lt
  cases i with
  | varint no ty v =>
    simp only [Item.Accepted, Item.no] at ha h
    simp only [Item.store, Item.no]
    cases hf : fields no with
    | varint store =>
      rw [hf] at h
      obtain ⟨⟨v', m⟩, hv, h⟩ := bind_eq_ok.1 h
      obtain ⟨rfl, rfl⟩ := varintDecode_varintBytes_eq hw.2 hv
      exact (Except.ok.inj h).symm
    | _ => rw [hf] at ha; exact ha.elim
  | bytes no ty d =>
    simp only [Item.Accepted, Item.no] at ha h
    simp only [Item.store, Item.no]
    simp only [Item.body, List.append_assoc, List.length_append] at h hlen ⊢
    have hd : d.length < 2 ^ 64 := by omega
    cases hf : fields no with
    | bytes store =>
      rw [hf] at h
      obtain ⟨y, hy, h⟩ := bind_eq_ok.1 h
      cases y with
      | none =>
        obtain ⟨size, n, hv, hs⟩ := protobufDecodeLengthDelimited_eq_none.1 hy
        obtain ⟨rfl, rfl⟩ := varintDecode_varintBytes_eq hd hv
        omega
      | some y =>
        obtain ⟨size, n, hv, hs, hle, h1, h2⟩ := protobufDecodeLengthDelimited_eq_some.1 hy
        obtain ⟨rfl, rfl⟩ := varintDecode_varintBytes_eq hd hv
        rw [List.drop_left, List.take_left] at h1
        obtain ⟨y1, y2⟩ := y
        simp only at h1 h2 h
        subst h1 h2
        exact (Except.ok.inj h).symm
    | string store =>
      rw [hf] at h ha
      obtain ⟨⟨text, m⟩, hy, h⟩ := bind_eq_ok.1 h
      obtain ⟨v, n, hv, hm, hr⟩ := protobufDecodeString_eq_ok.1 hy
      obtain ⟨rfl, rfl⟩ := varintDecode_varintBytes_eq hd hv
      have hint : toInt32 (d.length : Nat) = d.length :=
        toInt32_natCast_of_lt (by simp only at ha; omega)
      rw [hint] at hm hr
      have htext : text = if d = [] then none else some (cString d) := by
        rcases hr with ⟨h0, htext⟩ | ⟨h0, -, -, htext⟩
        · have : d = [] := List.eq_nil_of_length_eq_zero (by omega)
          rw [htext, if_pos this]
        · have : d ≠ [] := fun e => by simp [e] at h0
          rw [htext, if_neg this, Int.toNat_natCast, List.drop_left, List.take_left]
      rw [← Except.ok.inj h, hm, htext, Nat.cast_add]
    | _ => rw [hf] at ha; exact ha.elim

/-- and it is read iff its varint fits the length given -/
theorem Item.safe_read {i : Item} {remaining : Nat} {rest : List UInt8}
    (hw : i.WordSized) (ha : i.Accepted fields) (hlen : (i.body ++ rest).length ≤ ptrdiffMax) :
    Safe ((fields i.no).read remaining (i.body ++ rest)) ↔
      varintFits i.sizeLength (toInt32 remaining) := by
  have hpd : ptrdiffMax < 2 ^ 64 := ptrdiffMax_lt
  cases i with
  | varint no ty v =>
    simp only [Item.Accepted, Item.no] at ha ⊢
    cases hf : fields no with
    | varint store =>
      have hsafe : Safe (varintDecode (toInt32 remaining) (varintBytes v ++ rest)) ↔ _ :=
        safe_varintDecode_varintBytes hw.2
      unfold Item.sizeLength
      rw [← hsafe]
      exact ⟨Safe.of_bind, fun ⟨x, hx⟩ => safe_bind.2 ⟨x, hx, safe_ok _⟩⟩
    | _ => rw [hf] at ha; exact ha.elim
  | bytes no ty d =>
    simp only [Item.Accepted, Item.no] at ha ⊢
    simp only [Item.body, List.append_assoc, List.length_append] at hlen ⊢
    have hd : d.length < 2 ^ 64 := by omega
    constructor
    · intro h
      have hsafe : Safe (varintDecode (toInt32 remaining) (varintBytes d.length ++ (d ++ rest))) ↔
        _ := safe_varintDecode_varintBytes hd
      unfold Item.sizeLength
      rw [← hsafe]
      cases hf : fields no with
      | bytes store =>
        rw [hf] at h
        exact h.of_bind.of_bind
      | string store =>
        rw [hf] at h
        exact h.of_bind.of_bind
      | _ => rw [hf] at ha; exact ha.elim
    · intro hfit
      have hv : varintDecode (toInt32 remaining) (varintBytes d.length ++ (d ++ rest)) = .ok (_, _) :=
        varintDecode_varintBytes hd hfit
      cases hf : fields no with
      | bytes store =>
        have hd := protobufDecodeLengthDelimited_eq_some.2
          ⟨_, _, hv, by omega, by simp only [List.length_append]; omega, rfl, rfl⟩
        exact safe_bind.2 ⟨_, hd, safe_ok _⟩
      | string store =>
        rw [hf] at ha
        have h31 : toInt32 (d.length : Nat) = d.length :=
          toInt32_natCast_of_lt (by simp only at ha; omega)
        by_cases h0 : d.length = 0
        · have hd := protobufDecodeString_eq_ok.2
            ⟨_, _, hv, rfl, .inl ⟨by rw [h31]; omega, rfl⟩⟩
          exact safe_bind.2 ⟨_, hd, safe_ok _⟩
        · have hd := protobufDecodeString_eq_ok.2
            ⟨_, _, hv, rfl, .inr ⟨by rw [h31]; omega, by rw [h31]; exact_mod_cast ha,
              by simp only [h31, Int.toNat_natCast, List.length_append]; omega, rfl⟩⟩
          exact safe_bind.2 ⟨_, hd, safe_ok _⟩
      | _ => rw [hf] at ha; exact ha.elim

/-- an encoded field behind `pre` and before `rest`, seen by one pass of the loop -/
theorem item_here (pre rest : List UInt8) (i : Item) (hw : i.WordSized)
    (hlen : (pre ++ (i.enc ++ rest)).length ≤ ptrdiffMax) :
    protobufDecodeFieldAndType (toInt32 (pre ++ (i.enc ++ rest)).length)
        ((pre ++ (i.enc ++ rest)).drop pre.length) =
          .ok { fieldNo := i.no, fieldType := i.ty.num, bytesRead := 1 } ∧
      (pre ++ (i.enc ++ rest)).drop (pre.length + 1) = i.body ++ rest ∧
      (pre ++ (i.enc ++ rest)).length - (pre.length + 1) = (i.body ++ rest).length ∧
      toUInt64 ((pre.length + 1 : Nat) + (i.body.length : Int)) = pre.length + i.enc.length := by
  have h1 : (tagBytes i.no i.ty).length = 1 := tagBytes_length_le_one hw.no_lt
  have hpd : ptrdiffMax < 2 ^ 64 := ptrdiffMax_lt
  have henc : i.enc.length = 1 + i.body.length := by rw [Item.enc, List.length_append, h1]
  have hsplit : pre ++ (i.enc ++ rest) = (pre ++ tagBytes i.no i.ty) ++ (i.body ++ rest) := by
    simp only [Item.enc, List.append_assoc]
  refine ⟨?_, ?_, ?_, ?_⟩
  · rw [List.drop_left, Item.enc, List.append_assoc]
    exact protobufDecodeFieldAndType_tagBytes hw.no_lt
  · rw [hsplit, List.drop_left' (by rw [List.length_append, h1])]
  · simp only [List.length_append]
    omega
  · simp only [List.length_append] at hlen
    rw [show ((pre.length + 1 : Nat) : Int) + (i.body.length : Int) =
      ((pre.length + i.enc.length : Nat) : Int) by rw [henc]; push_cast; ring]
    exact toUInt64_natCast_of_lt (by omega)

theorem readItem_item_ok {pre rest : List UInt8} {i : Item}
    {r : Option (Nat × (σ → Exec (Option σ)))} (hw : i.WordSized) (ha : i.Accepted fields)
    (hlen : (pre ++ (i.enc ++ rest)).length ≤ ptrdiffMax)
    (h : readItem fields (pre ++ (i.enc ++ rest)) pre.length = .ok r) :
    r = some (pre.length + i.enc.length, i.store fields) := by
  obtain ⟨htag, hdrop, hrem, hpos⟩ := item_here pre rest i hw hlen
  obtain ⟨tag, v, ht, hv, rfl⟩ := readItem_eq_ok.1 h
  cases htag.symm.trans ht
  simp only [hdrop, hrem] at hv
  have hbody : (i.body ++ rest).length ≤ ptrdiffMax := by omega
  rw [Item.read_body_ok hw ha hbody hv, Option.map_some, hpos]

theorem safe_readItem_item {pre rest : List UInt8} {i : Item} (hw : i.WordSized)
    (ha : i.Accepted fields) (hlen : (pre ++ (i.enc ++ rest)).length ≤ ptrdiffMax) :
    Safe (readItem fields (pre ++ (i.enc ++ rest)) pre.length) ↔
      varintFits i.sizeLength (toInt32 (i.body ++ rest).length) := by
  obtain ⟨htag, hdrop, hrem, -⟩ := item_here pre rest i hw hlen
  have hbody : (i.body ++ rest).length ≤ ptrdiffMax := by omega
  rw [← Item.safe_read hw ha hbody]
  constructor
  · rintro ⟨r, h⟩
    obtain ⟨tag, v, ht, hv, -⟩ := readItem_eq_ok.1 h
    cases htag.symm.trans ht
    simp only [hdrop, hrem] at hv
    exact ⟨v, hv⟩
  · rintro ⟨v, hv⟩
    exact ⟨_, readItem_eq_ok.2 ⟨_, v, htag, by simp only [hdrop, hrem]; exact hv, rfl⟩⟩

theorem readItem_item {pre rest : List UInt8} {i : Item} (hw : i.WordSized)
    (ha : i.Accepted fields) (hlen : (pre ++ (i.enc ++ rest)).length ≤ ptrdiffMax)
    (hfit : varintFits i.sizeLength (toInt32 (i.body ++ rest).length)) :
    readItem fields (pre ++ (i.enc ++ rest)) pre.length =
      .ok (some (pre.length + i.enc.length, i.store fields)) := by
  obtain ⟨r, hr⟩ := (safe_readItem_item hw ha hlen).2 hfit
  rw [hr, readItem_item_ok hw ha hlen hr]

/-- **one pass** over an encoded field whose varint fits -/
theorem decodeLoop_item {pre rest : List UInt8} {i : Item} {fuel : Nat} (hw : i.WordSized)
    (ha : i.Accepted fields) (hlen : (pre ++ (i.enc ++ rest)).length ≤ ptrdiffMax)
    (hfit : varintFits i.sizeLength (toInt32 (i.body ++ rest).length)) :
    decodeLoop fields (pre ++ (i.enc ++ rest)) (fuel + 1) pre.length s =
      i.store fields s >>= fun r =>
        match r with
        | none => .ok none
        | some s' => decodeLoop fields ((pre ++ i.enc) ++ rest) fuel (pre ++ i.enc).length s' := by
  have hpos := i.enc_length_pos
  rw [decodeLoop_succ (by simp only [List.length_append]; omega)]
  unfold fieldStep
  rw [readItem_item hw ha hlen hfit, ok_bind, List.append_assoc, List.length_append]
  dsimp only
  cases i.store fields s with
  | error e => rfl
  | ok r =>
    cases r with
    | none => rfl
    | some s' => rfl

/-- there is no other way past the field -/
theorem varintFits_of_decodeLoop {pre rest : List UInt8} {i : Item} {fuel : Nat} {r : Option σ}
    (hw : i.WordSized) (ha : i.Accepted fields)
    (hlen : (pre ++ (i.enc ++ rest)).length ≤ ptrdiffMax)
    (h : decodeLoop fields (pre ++ (i.enc ++ rest)) (fuel + 1) pre.length s = .ok r) :
    varintFits i.sizeLength (toInt32 (i.body ++ rest).length) := by
  have hpos := i.enc_length_pos
  rw [decodeLoop_succ (by simp only [List.length_append]; omega)] at h
  obtain ⟨x, hx, -⟩ := bind_eq_ok.1 h
  obtain ⟨y, hy, -⟩ := bind_eq_ok.1 hx
  exact (safe_readItem_item hw ha hlen).1 ⟨y, hy⟩

/-- the bytes of a field are among those of all -/
theorem length_le_itemsBytes {items : List Item} {no : Nat} {ty : WireType} {d : List UInt8}
    (h : Item.bytes no ty d ∈ items) : d.length ≤ (itemsBytes items).length := by
  have hmem : (Item.bytes no ty d).enc ∈ items.map Item.enc := List.mem_map_of_mem h
  rw [itemsBytes_eq_flatten]
  exact le_trans (length_le_bytesField no ty d) (List.sublist_flatten_of_mem hmem).length_le

theorem itemsBytes_length_le (items : List Item) : items.length ≤ (itemsBytes items).length := by
  induction items with
  | nil => exact Nat.le_refl 0
  | cons i is ih =>
    have := i.enc_length_pos
    rw [itemsBytes_cons, List.length_append, List.length_cons]
    omega

/-- each varint fits what remains of the buffer, taken as an `int` -/
def Readable : List Item → Prop
  | [] => True
  | i :: is => varintFits i.sizeLength (toInt32 (i.body ++ itemsBytes is).length) ∧ Readable is

theorem Item.sizeLength_le (i : Item) : i.sizeLength ≤ i.body.length := by
  cases i with
  | varint no ty v => exact Nat.le_refl _
  | bytes no ty d =>
    show (varintBytes d.length).length ≤ (varintBytes d.length ++ d).length
    rw [List.length_append]
    exact Nat.le_add_right _ _

theorem readable_of_lt {items : List Item} (h : (itemsBytes items).length < 2 ^ 31) :
    Readable items := by
  induction items with
  | nil => trivial
  | cons i is ih =>
    have hle := i.sizeLength_le
    rw [itemsBytes_cons, Item.enc] at h
    simp only [List.length_append] at h
    refine ⟨varintFits_of_le ?_, ih (by omega)⟩
    rw [toInt32_natCast_of_lt (by simp only [List.length_append]; omega), List.length_append]
    omega

private theorem decodeLoop_items (pre : List UInt8) {items : List Item} {fuel : Nat}
    (hi : ∀ i ∈ items, i.WordSized ∧ i.Accepted fields) (hfuel : items.length ≤ fuel)
    (hlen : (pre ++ itemsBytes items).length ≤ ptrdiffMax) (hread : Readable items) :
    decodeLoop fields (pre ++ itemsBytes items) fuel pre.length s = applyItems fields items s := by
  induction items generalizing pre fuel s with
  | nil =>
    rw [decodeLoop_done (by simp)]
    rfl
  | cons i is ih =>
    obtain ⟨hw, ha⟩ := hi i List.mem_cons_self
    obtain ⟨fuel, rfl⟩ := Nat.exists_eq_add_one_of_ne_zero (Nat.ne_zero_of_lt hfuel)
    rw [itemsBytes_cons] at hlen ⊢
    rw [decodeLoop_item hw ha hlen hread.1, applyItems_cons]
    apply bind_congr
    intro r
    cases r with
    | none => rfl
    | some s' =>
      rw [← List.append_assoc] at hlen
      exact ih _ (fun j hj => hi j (List.mem_cons_of_mem _ hj)) (Nat.le_of_succ_le_succ hfuel) hlen
        hread.2

/-- **round trip**: encoded fields are decoded one after the other -/
theorem decodeFields_readable {items : List Item}
    (hi : ∀ i ∈ items, i.WordSized ∧ i.Accepted fields)
    (hlen : (itemsBytes items).length ≤ ptrdiffMax) (hread : Readable items) :
    decodeFields fields (itemsBytes items) s = applyItems fields items s := by
  have hfuel := itemsBytes_length_le items
  exact decodeLoop_items [] hi (by omega) hlen hread

/-- in particular when the buffer is an `int` -/
theorem decodeFields_items {items : List Item} (hi : ∀ i ∈ items, i.WordSized ∧ i.Accepted fields)
    (hlen : (itemsBytes items).length < 2 ^ 31) :
    decodeFields fields (itemsBytes items) s = applyItems fields items s := by
  have hpd : 2 ^ 31 ≤ ptrdiffMax := by norm_num [ptrdiffMax]
  exact decodeFields_readable hi (by omega) (readable_of_lt hlen)

private theorem readable_of_decodeLoop (pre : List UInt8) {items : List Item} {fuel : Nat} {r : σ}
    (hi : ∀ i ∈ items, i.WordSized ∧ i.Accepted fields) (hfuel : items.length ≤ fuel)
    (hlen : (pre ++ itemsBytes items).length ≤ ptrdiffMax)
    (h : decodeLoop fields (pre ++ itemsBytes items) fuel pre.length s = .ok (some r)) :
    Readable items := by
  induction items generalizing pre fuel s with
  | nil => trivial
  | cons i is ih =>
    obtain ⟨hw, ha⟩ := hi i List.mem_cons_self
    obtain ⟨fuel, rfl⟩ := Nat.exists_eq_add_one_of_ne_zero (Nat.ne_zero_of_lt hfuel)
    rw [itemsBytes_cons] at hlen h
    have hfit := varintFits_of_decodeLoop hw ha hlen h
    rw [decodeLoop_item hw ha hlen hfit] at h
    obtain ⟨t, -, h⟩ := bind_eq_ok.1 h
    cases t with
    | none => cases h
    | some s' =>
      rw [← List.append_assoc] at hlen
      exact ⟨hfit, ih _ (fun j hj => hi j (List.mem_cons_of_mem _ hj))
        (Nat.le_of_succ_le_succ hfuel) hlen h⟩

private theorem decodeLoop_items_ok (pre : List UInt8) {items : List Item} {fuel : Nat}
    {r : Option σ} (hi : ∀ i ∈ items, i.WordSized ∧ i.Accepted fields)
    (hfuel : items.length ≤ fuel) (hlen : (pre ++ itemsBytes items).length ≤ ptrdiffMax)
    (h : decodeLoop fields (pre ++ itemsBytes items) fuel pre.length s = .ok r) :
    applyItems fields items s = .ok r := by
  induction items generalizing pre fuel s with
  | nil =>
    rw [decodeLoop_done (by simp)] at h
    exact h
  | cons i is ih =>
    obtain ⟨hw, ha⟩ := hi i List.mem_cons_self
    obtain ⟨fuel, rfl⟩ := Nat.exists_eq_add_one_of_ne_zero (Nat.ne_zero_of_lt hfuel)
    rw [itemsBytes_cons] at hlen h
    rw [decodeLoop_item hw ha hlen (varintFits_of_decodeLoop hw ha hlen h)] at h
    obtain ⟨t, ht, h⟩ := bind_eq_ok.1 h
    rw [applyItems_cons, ht, ok_bind]
    cases t with
    | none => exact h
    | some s' =>
      rw [← List.append_assoc] at hlen
      exact ih _ (fun j hj => hi j (List.mem_cons_of_mem _ hj)) (Nat.le_of_succ_le_succ hfuel) hlen h

/-- encoded fields are decoded as nothing else, however long the buffer is -/
theorem decodeFields_items_ok {items : List Item} {r : Option σ}
    (hi : ∀ i ∈ items, i.WordSized ∧ i.Accepted fields)
    (hlen : (itemsBytes items).length ≤ ptrdiffMax)
    (h : decodeFields fields (itemsBytes items) s = .ok r) : applyItems fields items s = .ok r := by
  have hfuel := itemsBytes_length_le items
  exact decodeLoop_items_ok [] hi (by omega) hlen h

/-- and only when they are readable -/
theorem readable_of_decodeFields {items : List Item} {r : σ}
    (hi : ∀ i ∈ items, i.WordSized ∧ i.Accepted fields)
    (hlen : (itemsBytes items).length ≤ ptrdiffMax)
    (h : decodeFields fields (itemsBytes items) s = .ok (some r)) : Readable items := by
  have hfuel := itemsBytes_length_le items
  exact readable_of_decodeLoop [] hi (by omega) hlen h

end

end Libp2p
