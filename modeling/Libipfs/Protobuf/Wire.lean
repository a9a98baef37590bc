import Libipfs.Protobuf.Varint
import Mathlib.Data.List.TakeWhile

/-!
# The protobuf primitives

The functions of `protobuf.c` on the rest of a buffer.  The pointer `&buffer[pos]` of the source
is `buf.drop pos` here, so a read past the end of the object is a read past the end of the list;
the length the source passes along is an argument of its own, because the decoders pass the
length of the WHOLE buffer for a tag and the remaining one for a value.

`malloc` hands out every size up to `PTRDIFF_MAX` and fails beyond it; that failure is the only
one these functions report.

* `protobufDecodeFieldAndType`, `protobufDecodeLengthDelimited`, `protobufDecodeString`
  the decoders, each with the lemma saying exactly when it succeeds;
* `protobufEncodeVarint`, `protobufEncodeLengthDelimited`   the encoders;
* `varintField`, `bytesField`   the bytes an encoded field consists of.
-/

namespace Libp2p
open CSem

/-- the wire types of the source, by number -/
inductive WireType where
  | varint
  | bit64
  | lengthDelimited
  | startGroup
  | endGroup
  | bit32
  deriving DecidableEq, Repr

def WireType.num : WireType → Nat
  | .varint => 0
  | .bit64 => 1
  | .lengthDelimited => 2
  | .startGroup => 3
  | .endGroup => 4
  | .bit32 => 5

theorem WireType.num_lt (w : WireType) : w.num < 8 := by cases w <;> decide

/-! ## decoding -/

structure Tag where
  fieldNo : Int
  fieldType : Int
  bytesRead : Nat
  deriving DecidableEq, Repr

/-- `field_no` is the tag shifted by three, cut down to an `int` -/
def protobufDecodeFieldAndType (bufferLength : Int) (buf : List UInt8) : Exec Tag := do
  let (field, n) ← varintDecode bufferLength buf
  let fieldNo := toInt32 (field / 8 : Nat)
  .ok { fieldNo := fieldNo, fieldType := toInt32 (field - fieldNo * 8), bytesRead := n }

def protobufDecodeVarint (bufferLength : Nat) (buf : List UInt8) : Exec (Nat × Nat) :=
  varintDecode (toInt32 bufferLength) buf

/-- the field's bytes and the bytes read; `none` when `malloc` fails -/
def protobufDecodeLengthDelimited (bufferLength : Nat) (buf : List UInt8) :
    Exec (Option (List UInt8 × Nat)) := do
  let (fieldSize, n) ← varintDecode (toInt32 bufferLength) buf
  if ptrdiffMax < fieldSize then
    .ok none
  else do
    require .outOfBounds (n + fieldSize ≤ buf.length)
    .ok (some ((buf.drop n).take fieldSize, n + fieldSize))

/-- a C string ends at its first zero byte -/
def cString (bytes : List UInt8) : List UInt8 := bytes.takeWhile (· ≠ 0)

theorem cString_of_not_mem {s : List UInt8} (h : 0 ∉ s) : cString s = s := by
  refine List.takeWhile_eq_self_iff.2 fun b hb => ?_
  have hne : b ≠ 0 := fun e => h (e ▸ hb)
  simpa using hne

theorem not_mem_cString (s : List UInt8) : 0 ∉ cString s := by
  intro h
  have h0 := List.mem_takeWhile_imp h
  exact absurd h0 (by decide)

/-- the string, when one is stored at all, and the bytes read: the declared length is an `int`,
so it may be negative, and then nothing is stored and `bytes_read` goes back -/
def protobufDecodeString (bufferLength : Nat) (buf : List UInt8) :
    Exec (Option (List UInt8) × Int) := do
  let (v, n) ← varintDecode (toInt32 bufferLength) buf
  let length := toInt32 v
  if 0 < length then do
    -- `memset(*results, 0, length+1)`
    require .overflow (length + 1 < 2 ^ 31)
    require .outOfBounds (n + length.toNat ≤ buf.length)
    .ok (some (cString ((buf.drop n).take length.toNat)), n + length)
  else
    .ok (none, n + length)

/-! ### exactly when they succeed -/

theorem protobufDecodeFieldAndType_eq_ok {len : Int} {buf : List UInt8} {t : Tag} :
    protobufDecodeFieldAndType len buf = .ok t ↔
      ∃ field n, varintDecode len buf = .ok (field, n) ∧
        t = ⟨toInt32 (field / 8 : Nat), toInt32 (field - toInt32 (field / 8 : Nat) * 8), n⟩ := by
  unfold protobufDecodeFieldAndType
  rw [bind_eq_ok]
  constructor
  · rintro ⟨⟨field, n⟩, h, e⟩
    exact ⟨field, n, h, (Except.ok.inj e).symm⟩
  · rintro ⟨field, n, h, rfl⟩
    exact ⟨(field, n), h, rfl⟩

theorem protobufDecodeFieldAndType_bounds {len : Int} {buf : List UInt8} {t : Tag}
    (h : protobufDecodeFieldAndType len buf = .ok t) :
    0 < t.bytesRead ∧ t.bytesRead ≤ buf.length := by
  obtain ⟨field, n, hv, rfl⟩ := protobufDecodeFieldAndType_eq_ok.1 h
  exact ⟨varintDecode_pos hv, varintDecode_le hv⟩

theorem protobufDecodeLengthDelimited_eq_some {L : Nat} {buf d : List UInt8} {m : Nat} :
    protobufDecodeLengthDelimited L buf = .ok (some (d, m)) ↔
      ∃ size n, varintDecode (toInt32 L) buf = .ok (size, n) ∧ size ≤ ptrdiffMax ∧
        n + size ≤ buf.length ∧ d = (buf.drop n).take size ∧ m = n + size := by
  unfold protobufDecodeLengthDelimited
  rw [bind_eq_ok]
  constructor
  · rintro ⟨⟨size, n⟩, h, e⟩
    simp only at e
    split at e
    · cases e
    · obtain ⟨hle, e⟩ := require_bind_eq_ok.1 e
      cases e
      exact ⟨size, n, h, by omega, hle, rfl, rfl⟩
  · rintro ⟨size, n, h, hs, hle, rfl, rfl⟩
    refine ⟨(size, n), h, ?_⟩
    simp only
    rw [if_neg (by omega), require_pos hle]
    rfl

theorem protobufDecodeLengthDelimited_eq_none {L : Nat} {buf : List UInt8} :
    protobufDecodeLengthDelimited L buf = .ok none ↔
      ∃ size n, varintDecode (toInt32 L) buf = .ok (size, n) ∧ ptrdiffMax < size := by
  unfold protobufDecodeLengthDelimited
  rw [bind_eq_ok]
  constructor
  · rintro ⟨⟨size, n⟩, h, e⟩
    simp only at e
    split at e
    · exact ⟨size, n, h, ‹_›⟩
    · obtain ⟨-, e⟩ := require_bind_eq_ok.1 e
      cases e
  · rintro ⟨size, n, h, hs⟩
    exact ⟨(size, n), h, by simp only; rw [if_pos hs]⟩

theorem protobufDecodeLengthDelimited_bounds {L : Nat} {buf d : List UInt8} {m : Nat}
    (h : protobufDecodeLengthDelimited L buf = .ok (some (d, m))) :
    0 < m ∧ m ≤ buf.length := by
  obtain ⟨size, n, hv, -, hle, -, rfl⟩ := protobufDecodeLengthDelimited_eq_some.1 h
  exact ⟨Nat.lt_of_lt_of_le (varintDecode_pos hv) (Nat.le_add_right _ _), hle⟩

theorem protobufDecodeString_eq_ok {L : Nat} {buf : List UInt8} {text : Option (List UInt8)}
    {m : Int} :
    protobufDecodeString L buf = .ok (text, m) ↔
      ∃ v n, varintDecode (toInt32 L) buf = .ok (v, n) ∧ m = n + toInt32 v ∧
        ((toInt32 v ≤ 0 ∧ text = none) ∨
          (0 < toInt32 v ∧ toInt32 v + 1 < 2 ^ 31 ∧ n + (toInt32 v).toNat ≤ buf.length ∧
            text = some (cString ((buf.drop n).take (toInt32 v).toNat)))) := by
  unfold protobufDecodeString
  rw [bind_eq_ok]
  constructor
  · rintro ⟨⟨v, n⟩, h, e⟩
    refine ⟨v, n, h, ?_⟩
    by_cases h0 : 0 < toInt32 v
    · simp only [if_pos h0] at e
      obtain ⟨h1, e⟩ := require_bind_eq_ok.1 e
      obtain ⟨h2, e⟩ := require_bind_eq_ok.1 e
      cases e
      exact ⟨rfl, .inr ⟨h0, h1, h2, rfl⟩⟩
    · simp only [if_neg h0] at e
      cases e
      exact ⟨rfl, .inl ⟨by omega, rfl⟩⟩
  · rintro ⟨v, n, h, hm, hr⟩
    refine ⟨(v, n), h, ?_⟩
    rw [hm]
    rcases hr with ⟨h0, rfl⟩ | ⟨h0, h1, h2, rfl⟩
    · simp only [if_neg (show ¬ 0 < toInt32 v by omega)]
    · simp only [if_pos h0]
      exact require_bind_eq_ok.2 ⟨h1, require_bind_eq_ok.2 ⟨h2, rfl⟩⟩

/-- a string that was read has no zero byte, and its size with one is an `int` -/
theorem protobufDecodeString_text {L : Nat} {buf text : List UInt8} {m : Int}
    (h : protobufDecodeString L buf = .ok (some text, m)) : 0 ∉ text ∧ text.length + 1 < 2 ^ 31 := by
  obtain ⟨v, n, -, -, hr⟩ := protobufDecodeString_eq_ok.1 h
  rcases hr with ⟨-, htext⟩ | ⟨-, hlt, -, htext⟩
  · cases htext
  · obtain rfl := Option.some.inj htext
    have hle : (cString ((buf.drop n).take (toInt32 v).toNat)).length ≤ (toInt32 v).toNat :=
      le_trans (List.takeWhile_prefix _).length_le (List.length_take_le _ _)
    exact ⟨not_mem_cString _, by omega⟩

end Libp2p
