import Libipfs.Protobuf.Wire
import Mathlib.Data.List.Forall2

/-!
# Encoding fields

Every encoder of the repository is a sequence of fields, each written behind the ones before it
into what is left of the buffer.  `encodeAll` is that sequence.  Nothing but an `assert` checks
that a varint fits, and nothing at all checks that the bytes of a length delimited field do: a
write past the end of the buffer is a fault here.

* `WritesOnly f bytes`   the encoder `f` writes `bytes` if it does not fault;
* `Writes f bytes`       and it does not fault in a buffer that has room for them and a size that
                         is an `int`;
* `Writes.encodeAll`     encoders in sequence write their bytes in sequence;
* `encodeUntil_eq_some`  so do encoders that may return 0, when none does;
* `varintField`, `bytesField`   the bytes of one field.
-/

namespace Libp2p
open CSem

/-! ## the encoders -/

/-- a number behind a tag -/
def encodeVarintField (tag incoming room : Nat) : Exec (List UInt8) := do
  let field ← varintEncode tag room
  let value ← varintEncode incoming (room - field.length)
  .ok (field ++ value)

/-- bytes behind a tag and their number -/
def encodeBytesField (tag : Nat) (incoming : List UInt8) (room : Nat) : Exec (List UInt8) := do
  let field ← varintEncode tag room
  let size ← varintEncode incoming.length (room - field.length)
  -- `memcpy`
  require .overflow (field.length + size.length + incoming.length ≤ room)
  .ok (field ++ size ++ incoming)

def protobufEncodeVarint (fieldNumber : Nat) (fieldType : WireType) (incoming room : Nat) :
    Exec (List UInt8) :=
  encodeVarintField (fieldNumber * 8 + fieldType.num) incoming room

def protobufEncodeLengthDelimited (fieldNumber : Nat) (fieldType : WireType)
    (incoming : List UInt8) (room : Nat) : Exec (List UInt8) :=
  encodeBytesField (fieldNumber * 8 + fieldType.num) incoming room

/-- encoders one behind the other, each given what is left of the buffer -/
def encodeAll : List (Nat → Exec (List UInt8)) → Nat → Exec (List UInt8)
  | [], _ => .ok []
  | f :: fs, room => do
    let written ← f room
    let rest ← encodeAll fs (room - written.length)
    .ok (written ++ rest)

/-- encoders one behind the other; when one returns 0 the rest is not called -/
def encodeUntil : List (Nat → Exec (Option (List UInt8))) → Nat → Exec (Option (List UInt8))
  | [], _ => .ok (some [])
  | f :: fs, room => do
    match ← f room with
    | none => .ok none
    | some written =>
      match ← encodeUntil fs (room - written.length) with
      | none => .ok none
      | some rest => .ok (some (written ++ rest))

/-- an encoder that never returns 0 -/
def always (f : Nat → Exec (List UInt8)) (room : Nat) : Exec (Option (List UInt8)) := do
  let written ← f room
  .ok (some written)

/-! ## the bytes of a field -/

def tagBytes (fieldNumber : Nat) (fieldType : WireType) : List UInt8 :=
  varintBytes (fieldNumber * 8 + fieldType.num)

def varintField (fieldNumber : Nat) (fieldType : WireType) (v : Nat) : List UInt8 :=
  tagBytes fieldNumber fieldType ++ varintBytes v

def bytesField (fieldNumber : Nat) (fieldType : WireType) (d : List UInt8) : List UInt8 :=
  tagBytes fieldNumber fieldType ++ (varintBytes d.length ++ d)

theorem varintField_length_le (fieldNumber : Nat) (fieldType : WireType) (v : Nat) :
    (varintField fieldNumber fieldType v).length ≤ 20 := by
  have h1 := varintBytes_length_le (fieldNumber * 8 + fieldType.num)
  have h2 := varintBytes_length_le v
  simp only [varintField, tagBytes, List.length_append]
  omega

theorem tagBytes_length_le_one {fieldNumber : Nat} {fieldType : WireType} (h : fieldNumber < 16) :
    (tagBytes fieldNumber fieldType).length = 1 := by
  have := fieldType.num_lt
  rw [tagBytes, varintBytes, varintBytesFrom_succ, if_pos (by omega)]
  rfl

theorem varintField_length (no : Nat) (ty : WireType) (v : Nat) (h : no < 16) :
    (varintField no ty v).length = 1 + (varintBytes v).length := by
  rw [varintField, List.length_append, tagBytes_length_le_one h]

theorem bytesField_length (no : Nat) (ty : WireType) (d : List UInt8) (h : no < 16) :
    (bytesField no ty d).length = 1 + (varintBytes d.length).length + d.length := by
  rw [bytesField, List.length_append, List.length_append, tagBytes_length_le_one h, Nat.add_assoc]

theorem varintField_length_le_eleven (no : Nat) (ty : WireType) (v : Nat) (h : no < 16) :
    (varintField no ty v).length ≤ 11 := by
  have hten := varintBytes_length_le v
  rw [varintField_length no ty v h]
  omega

theorem bytesField_length_le (no : Nat) (ty : WireType) (d : List UInt8) (h : no < 16) :
    (bytesField no ty d).length ≤ 11 + d.length := by
  have hten := varintBytes_length_le d.length
  rw [bytesField_length no ty d h]
  omega

theorem length_le_bytesField (no : Nat) (ty : WireType) (d : List UInt8) :
    d.length ≤ (bytesField no ty d).length := by
  simp only [bytesField, List.length_append]
  omega

/-! ## what an encoder writes -/

/-- whatever `f` wrote, it is `bytes`, and it had the room -/
def WritesOnly (f : Nat → Exec (List UInt8)) (bytes : List UInt8) : Prop :=
  ∀ room out, f room = .ok out → out = bytes ∧ bytes.length ≤ room

structure Writes (f : Nat → Exec (List UInt8)) (bytes : List UInt8) : Prop where
  exact : WritesOnly f bytes
  /-- room enough, in a buffer whose size is an `int` -/
  fits : ∀ room, bytes.length ≤ room → room < 2 ^ 31 → f room = .ok bytes

theorem Writes.protobufEncodeVarint {fieldNumber : Nat} {fieldType : WireType} {v : Nat}
    (hn : fieldNumber < 2 ^ 29) (hv : v < 2 ^ 64) :
    Writes (protobufEncodeVarint fieldNumber fieldType v) (varintField fieldNumber fieldType v) where
  exact room out h := by
    unfold Libp2p.protobufEncodeVarint encodeVarintField at h
    obtain ⟨field, hfield, h⟩ := bind_eq_ok.1 h
    obtain ⟨value, hvalue, h⟩ := bind_eq_ok.1 h
    obtain ⟨rfl, h1⟩ := varintEncode_ok hfield
    obtain ⟨rfl, h2⟩ := varintEncode_ok hvalue
    cases h
    refine ⟨rfl, ?_⟩
    simp only [varintField, tagBytes, List.length_append]
    omega
  fits room hroom hint := by
    have ht := fieldType.num_lt
    simp only [varintField, tagBytes, List.length_append] at hroom
    unfold Libp2p.protobufEncodeVarint encodeVarintField
    rw [varintEncode_of_le (by omega) (by omega) hint, ok_bind,
      varintEncode_of_le hv (by omega) (by omega), ok_bind]
    rfl

theorem Writes.protobufEncodeLengthDelimited {fieldNumber : Nat} {fieldType : WireType}
    {d : List UInt8} (hn : fieldNumber < 2 ^ 29) :
    Writes (protobufEncodeLengthDelimited fieldNumber fieldType d)
      (bytesField fieldNumber fieldType d) where
  exact room out h := by
    unfold Libp2p.protobufEncodeLengthDelimited encodeBytesField at h
    obtain ⟨field, hfield, h⟩ := bind_eq_ok.1 h
    obtain ⟨size, hsize, h⟩ := bind_eq_ok.1 h
    obtain ⟨rfl, h1⟩ := varintEncode_ok hfield
    obtain ⟨rfl, h2⟩ := varintEncode_ok hsize
    obtain ⟨hle, h⟩ := require_bind_eq_ok.1 h
    cases h
    refine ⟨List.append_assoc _ _ _, ?_⟩
    simp only [bytesField, tagBytes, List.length_append]
    omega
  fits room hroom hint := by
    have ht := fieldType.num_lt
    simp only [bytesField, tagBytes, List.length_append] at hroom
    unfold Libp2p.protobufEncodeLengthDelimited encodeBytesField
    rw [varintEncode_of_le (by omega) (by omega) hint, ok_bind,
      varintEncode_of_le (by omega) (by omega) (by omega), ok_bind, require_pos (by omega), ok_bind]
    exact congrArg Except.ok (List.append_assoc _ _ _)

theorem encodeAll_nil (room : Nat) : encodeAll [] room = .ok [] := rfl
theorem encodeAll_cons (f : Nat → Exec (List UInt8)) (fs : List (Nat → Exec (List UInt8)))
    (room : Nat) :
    encodeAll (f :: fs) room = f room >>= fun written =>
      encodeAll fs (room - written.length) >>= fun rest => .ok (written ++ rest) := rfl

/-- the calls for the members of a list, beside what they write -/
theorem forall₂_map {α β γ : Type} {R : β → γ → Prop} {f : α → β} {g : α → γ} {xs : List α}
    (h : ∀ x ∈ xs, R (f x) (g x)) : List.Forall₂ R (xs.map f) (xs.map g) := by
  rw [List.forall₂_map_left_iff, List.forall₂_map_right_iff]
  exact List.forall₂_same.2 h

theorem WritesOnly.encodeAll {fs : List (Nat → Exec (List UInt8))} {bs : List (List UInt8)}
    (h : List.Forall₂ WritesOnly fs bs) : WritesOnly (encodeAll fs) bs.flatten := by
  induction h with
  | nil =>
    intro room out h
    cases h
    exact ⟨rfl, Nat.zero_le _⟩
  | @cons f b fs bs hf hfs ih =>
    intro room out h
    rw [encodeAll_cons] at h
    obtain ⟨written, hw, h⟩ := bind_eq_ok.1 h
    obtain ⟨rest, hr, h⟩ := bind_eq_ok.1 h
    obtain ⟨rfl, h1⟩ := hf _ _ hw
    obtain ⟨rfl, h2⟩ := ih _ _ hr
    cases h
    refine ⟨rfl, ?_⟩
    rw [List.flatten_cons, List.length_append]
    omega

/-- **encoders in sequence** write their bytes in sequence -/
theorem Writes.encodeAll {fs : List (Nat → Exec (List UInt8))} {bs : List (List UInt8)}
    (h : List.Forall₂ Writes fs bs) : Writes (encodeAll fs) bs.flatten := by
  refine ⟨WritesOnly.encodeAll (h.imp fun _ _ hw => hw.exact), ?_⟩
  induction h with
  | nil =>
    intro room _ _
    rfl
  | @cons f b fs bs hf hfs ih =>
    intro room hroom hint
    rw [List.flatten_cons, List.length_append] at hroom
    rw [encodeAll_cons, hf.fits room (by omega) hint, ok_bind,
      ih (room - b.length) (by omega) (by omega), ok_bind]
    rfl

/-! ## encoders that may return 0 -/

/-- a fault where the encoder returns 0 -/
def orFault (f : Nat → Exec (Option (List UInt8))) (room : Nat) : Exec (List UInt8) := do
  let written ← f room
  deref written

@[simp] theorem orFault_always (f : Nat → Exec (List UInt8)) : orFault (always f) = f := by
  funext room
  unfold orFault always
  cases f room with
  | error e => rfl
  | ok written => rfl

/-- **a sequence that does not return 0** is one of encoders that do not -/
theorem encodeUntil_eq_some {fs : List (Nat → Exec (Option (List UInt8)))} {room : Nat}
    {out : List UInt8} :
    encodeUntil fs room = .ok (some out) ↔ encodeAll (fs.map orFault) room = .ok out := by
  induction fs generalizing room out with
  | nil =>
    show Except.ok (some []) = Except.ok (some out) ↔ Except.ok [] = Except.ok out
    rw [Except.ok.injEq, Except.ok.injEq, Option.some_inj]
  | cons f fs ih =>
    rw [List.map_cons, encodeAll_cons, encodeUntil]
    unfold orFault
    cases f room with
    | error e => exact ⟨(nomatch ·), (nomatch ·)⟩
    | ok written =>
      cases written with
      | none => exact ⟨(nomatch ·), (nomatch ·)⟩
      | some written =>
        rw [ok_bind, ok_bind, deref_some, ok_bind]
        constructor
        · intro h
          obtain ⟨rest, hrest, h⟩ := bind_eq_ok.1 h
          cases rest with
          | none => cases h
          | some rest =>
            cases h
            exact bind_eq_ok.2 ⟨rest, ih.1 hrest, rfl⟩
        · intro h
          obtain ⟨rest, hrest, h⟩ := bind_eq_ok.1 h
          cases h
          exact bind_eq_ok.2 ⟨some rest, ih.2 hrest, rfl⟩

end Libp2p
