import Libipfs.Crypto.Base32
import Libipfs.Blocks.Block
import Mathlib.Logic.Function.Basic

/-!
# Keys of the datastore

The datastore maps the hash of a block to its key, the base32 form of the hash.

* `dsKeyFromBinary_eq`, `dsKeyFromBinary_eq_none`   the key is what fits of the encoding;
* `roundTrips_iff`   the buffers through which a hash comes back from its key.
-/

namespace Ipfs
open CSem Libp2p

/-- `none` when the function returns 0 -/
def dsKeyFromBinary (binaryArray : List UInt8) (room : Nat) : Exec (Option (List UInt8)) :=
  if room < cryptoEncodingBase32EncodeSize binaryArray.length then .ok none
  else do
    let results ← cryptoEncodingBase32Encode binaryArray room
    .ok (some results)

/-- `none` when the function returns 0 -/
def binaryFromDsKey (dsKey : List UInt8) (room : Nat) : Option (List UInt8) :=
  if room < cryptoEncodingBase32DecodeSize dsKey.length then none
  else cryptoEncodingBase32Decode dsKey room

/-- the values of the datastore, by their keys -/
abbrev Datastore : Type := List UInt8 → Option (List UInt8)

/-- the size of the key's buffer in `ipfs_datastore_helper_add_block_to_datastore` -/
def fsKeyLength : Nat := 100

/-- the record of a block: its hash, and the base32 form of it; the datastore keeps what is put -/
def addBlockToDatastore (block : Block) (datastore : Datastore) : Exec (Bool × Datastore) := do
  let cid ← deref block.cid
  match ← dsKeyFromBinary cid.hash fsKeyLength with
  | none => .ok (false, datastore)
  | some value => .ok (true, Function.update datastore cid.hash (some value))

section
variable {binaryArray : List UInt8} {room : Nat}

theorem cryptoEncodingBase32EncodeSize_pos (n : Nat) : 0 < cryptoEncodingBase32EncodeSize n := by
  unfold cryptoEncodingBase32EncodeSize
  norm_num
  omega

/-- the size that wraps around is more than any object has -/
theorem ptrdiffMax_lt_encodeSize {n : Nat} (h : n < 5) :
    ptrdiffMax < cryptoEncodingBase32EncodeSize n := by
  unfold cryptoEncodingBase32EncodeSize ptrdiffMax
  norm_num
  omega

theorem encodeSize_of_le {n : Nat} (h5 : 5 ≤ n) (h : n ≤ ptrdiffMax) :
    cryptoEncodingBase32EncodeSize n = (n - 5) / 5 * 8 + 1 := by
  unfold cryptoEncodingBase32EncodeSize
  unfold ptrdiffMax at h
  norm_num at *
  omega

theorem dsKeyFromBinary_eq (h : cryptoEncodingBase32EncodeSize binaryArray.length ≤ room) :
    dsKeyFromBinary binaryArray room = .ok (some ((base32Chars binaryArray).take room)) := by
  have hpos := cryptoEncodingBase32EncodeSize_pos binaryArray.length
  unfold dsKeyFromBinary
  rw [if_neg (by omega), cryptoEncodingBase32Encode_eq (by omega)]
  rfl

theorem dsKeyFromBinary_eq_none (h : room < cryptoEncodingBase32EncodeSize binaryArray.length) :
    dsKeyFromBinary binaryArray room = .ok none := by
  unfold dsKeyFromBinary
  rw [if_pos h]

/-- a key is made in a buffer of `room` bytes whenever that is large enough, and comes back
through every buffer that is large enough for it -/
def RoundTrips (binaryArray : List UInt8) (room : Nat) : Prop :=
  cryptoEncodingBase32EncodeSize binaryArray.length ≤ room →
    ∃ dsKey, dsKeyFromBinary binaryArray room = .ok (some dsKey) ∧
      ∀ room', cryptoEncodingBase32DecodeSize dsKey.length ≤ room' →
        binaryFromDsKey dsKey room' = some binaryArray

theorem base32Length_le_decodeSize (n : Nat) :
    n ≤ cryptoEncodingBase32DecodeSize (base32Length n) := by
  unfold cryptoEncodingBase32DecodeSize base32Length
  omega

/-- **a hash comes back from its key** iff the key's buffer takes the whole encoding -/
theorem roundTrips_iff : RoundTrips binaryArray room ↔
    (cryptoEncodingBase32EncodeSize binaryArray.length ≤ room →
      base32Length binaryArray.length ≤ room) := by
  unfold RoundTrips
  refine imp_congr_right fun hsize => ?_
  rw [dsKeyFromBinary_eq hsize]
  have hlen := base32Chars_length binaryArray
  refine ⟨fun h => ?_, fun h => ?_⟩
  · obtain ⟨dsKey, hkey, hback⟩ := h
    obtain rfl := Option.some.inj (Except.ok.inj hkey)
    by_contra hroom
    have hdec := hback _ (Nat.le_refl _)
    unfold binaryFromDsKey cryptoEncodingBase32Decode at hdec
    rw [if_neg (Nat.lt_irrefl _)] at hdec
    obtain ⟨out, hout, htake⟩ := Option.map_eq_some_iff.1 hdec
    have hlt := base32Decode_take (Nat.lt_of_not_le hroom) hout
    have := congrArg List.length htake
    rw [List.length_take] at this
    omega
  · refine ⟨_, rfl, fun room' hroom' => ?_⟩
    have hall : (base32Chars binaryArray).take room = base32Chars binaryArray :=
      List.take_of_length_le (by omega)
    rw [hall] at hroom' ⊢
    have hle := base32Length_le_decodeSize binaryArray.length
    rw [← hlen] at hle
    unfold binaryFromDsKey cryptoEncodingBase32Decode
    rw [if_neg (Nat.not_lt_of_le hroom'), base32Decode_base32Chars, Option.map_some,
      List.take_of_length_le (Nat.le_trans hle hroom')]

end

end Ipfs
