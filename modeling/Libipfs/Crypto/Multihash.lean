import Libipfs.Crypto.PeerId
import Libipfs.Importer.Resolver
import Libipfs.Lib.Region

/-!
# Multihashes

A code, the length of the digest, and the digest.  Whatever reads one looks at the two bytes in
front, and never whether the digest that they announce is there.

* `checkMultihash`, `mhMultihashLength`, `mhMultihashDigestAt`   what is read from a multihash;
* `mhNewInto`             a multihash, into a buffer;
* `digestComesBack_iff`   a digest comes back, with the codes that are taken;
* `multihashFraming_iff`  **when the digest lies inside**.
-/

set_option linter.unusedVariables false

namespace Libp2p
open CSem

/-! ## the functions -/

def mhETooShort : Int := -2
def mhETooLong : Int := -3
def mhEVarintNotSupported : Int := -4
def mhEDigsetTooLong : Int := -5

/-- 0 is no error -/
def checkLen (len : Nat) : Int :=
  if len < 1 then mhETooShort else if 128 ≤ len then mhETooLong else 0

def checkMultihash (mh : List UInt8) : Int :=
  if mh.length < 3 then mhETooShort
  else if 128 ≤ (mh.getD 0 0).toNat then mhEVarintNotSupported
  else if 128 ≤ (mh.getD 1 0).toNat then mhEVarintNotSupported
  else checkLen (mh.getD 1 0).toNat

/-- the length of the digest, or an error -/
def mhMultihashLength (mh : List UInt8) : Int :=
  if checkMultihash mh ≠ 0 then checkMultihash mh else (mh.getD 1 0).toNat

/-- the place of the digest and its length, or an error -/
def mhMultihashDigestAt (mh : List UInt8) : Except Int (Nat × Nat) :=
  if checkMultihash mh ≠ 0 then .error (checkMultihash mh)
  else .ok (2, toUInt64 (mhMultihashLength mh))

def mhNewLength (code : Int) (hashLen : Nat) : Nat := 2 + hashLen

/-- the bit that would begin a varint -/
def VarintCode (code : Int) : Prop := 128 ≤ code % 256

instance (code : Int) : Decidable (VarintCode code) := inferInstanceAs (Decidable (_ ≤ _))

/-- the error and the buffer -/
def mhNewInto (buffer : Region) (code : Int) (digest : List UInt8) : Exec (Int × Region) :=
  if VarintCode code then .ok (mhEVarintNotSupported, buffer)
  else if 127 < digest.length then .ok (mhEDigsetTooLong, buffer)
  else do
    let buffer ← buffer.store 0 [UInt8.ofNat (code % 256).toNat]
    let buffer ← buffer.store 1 [UInt8.ofNat digest.length]
    let buffer ← buffer.store 2 digest
    .ok (0, buffer)

/-! ## what they promise -/

/-- one byte to 127 -/
abbrev MultihashDigest : Type := { digest : List UInt8 // 1 ≤ digest.length ∧ digest.length ≤ 127 }

/-- the digest is found in the multihash that was made of it -/
def DigestComesBack (code : Int) (digest : MultihashDigest) (buffer : Region) : Prop :=
  ∃ mh place len, mhNewInto buffer code digest.1 = .ok (0, mh) ∧
    mhMultihashDigestAt mh = .ok (place, len) ∧ mh.load place len = .ok digest.1

/-- the digest is announced by an error, or lies wholly inside -/
def DigestInside (mh : List UInt8) : Prop :=
  (∀ place len, mhMultihashDigestAt mh = .ok (place, len) → place + len ≤ mh.length) ∧
    (0 ≤ mhMultihashLength mh → 2 + mhMultihashLength mh ≤ mh.length)

section
variable {mh digest : List UInt8} {buffer : Region} {code : Int}

/-- what is refused: too short, a varint in front, no digest -/
def Refused (mh : List UInt8) : Prop :=
  mh.length < 3 ∨ 128 ≤ (mh.getD 0 0).toNat ∨ 128 ≤ (mh.getD 1 0).toNat ∨ (mh.getD 1 0).toNat = 0

instance (mh : List UInt8) : Decidable (Refused mh) := by
  unfold Refused
  infer_instance

theorem checkMultihash_pos (h : Refused mh) : checkMultihash mh < 0 := by
  unfold checkMultihash checkLen mhETooShort mhETooLong mhEVarintNotSupported
  unfold Refused at h
  split_ifs <;> omega

theorem checkMultihash_neg (h : ¬ Refused mh) : checkMultihash mh = 0 := by
  unfold checkMultihash checkLen
  unfold Refused at h
  split_ifs <;> omega

theorem mhMultihashLength_of_refused (h : Refused mh) : mhMultihashLength mh < 0 := by
  have hcheck := checkMultihash_pos h
  unfold mhMultihashLength
  rw [if_pos hcheck.ne]
  exact hcheck

theorem mhMultihashLength_of_taken (h : ¬ Refused mh) :
    mhMultihashLength mh = (mh.getD 1 0).toNat := by
  unfold mhMultihashLength
  rw [if_neg (not_not.2 (checkMultihash_neg h))]

theorem mhMultihashDigestAt_of_refused (h : Refused mh) :
    mhMultihashDigestAt mh = .error (checkMultihash mh) := by
  unfold mhMultihashDigestAt
  exact if_pos (checkMultihash_pos h).ne

theorem mhMultihashDigestAt_of_taken (h : ¬ Refused mh) :
    mhMultihashDigestAt mh = .ok (2, (mh.getD 1 0).toNat) := by
  have hbyte := (mh.getD 1 0).toNat_lt
  unfold mhMultihashDigestAt
  rw [if_neg (not_not.2 (checkMultihash_neg h)), mhMultihashLength_of_taken h,
    toUInt64_natCast_of_lt (by omega)]

/-- **what is written** -/
theorem mhNewInto_pos (hcode : ¬ VarintCode code) (hdigest : digest.length ≤ 127)
    (hbuffer : buffer.length = mhNewLength code digest.length) : mhNewInto buffer code digest =
      .ok (0, UInt8.ofNat (code % 256).toNat :: UInt8.ofNat digest.length :: digest) := by
  unfold mhNewLength at hbuffer
  obtain ⟨b0, b1, rest, rfl⟩ : ∃ b0 b1 rest, buffer = b0 :: b1 :: rest := by
    match buffer, hbuffer with
    | b0 :: b1 :: rest, _ => exact ⟨b0, b1, rest, rfl⟩
    | [_], h => rw [List.length_singleton] at h; omega
    | [], h => rw [List.length_nil] at h; omega
  have hrest : rest.length = digest.length := by
    rw [List.length_cons, List.length_cons] at hbuffer
    omega
  have hfirst : Region.store (b0 :: b1 :: rest) 0 [UInt8.ofNat (code % 256).toNat] =
      .ok (UInt8.ofNat (code % 256).toNat :: b1 :: rest) :=
    Region.store_pos (Nat.succ_le_succ (Nat.zero_le _))
  have hsecond : Region.store (UInt8.ofNat (code % 256).toNat :: b1 :: rest) 1
      [UInt8.ofNat digest.length] =
        .ok (UInt8.ofNat (code % 256).toNat :: UInt8.ofNat digest.length :: rest) :=
    Region.store_pos (Nat.succ_le_succ (Nat.succ_le_succ (Nat.zero_le _)))
  have hthird : Region.store (UInt8.ofNat (code % 256).toNat :: UInt8.ofNat digest.length :: rest) 2
      digest = .ok (UInt8.ofNat (code % 256).toNat :: UInt8.ofNat digest.length :: digest) := by
    have hall : rest.drop digest.length = [] := List.drop_of_length_le hrest.le
    rw [Region.store_pos (by rw [List.length_cons, List.length_cons]; omega), Nat.add_comm 2]
    show Except.ok (_ :: _ :: (digest ++ rest.drop digest.length)) = _
    rw [hall, List.append_nil]
  unfold mhNewInto
  rw [if_neg hcode, if_neg (by omega), hfirst, ok_bind, hsecond, ok_bind, hthird, ok_bind]

/-- **a digest comes back** with every code that is not refused -/
theorem digestComesBack_iff (digest : MultihashDigest)
    (hbuffer : buffer.length = mhNewLength code digest.1.length) :
    DigestComesBack code digest buffer ↔ ¬ VarintCode code := by
  obtain ⟨digest, hone, hlong⟩ := digest
  unfold DigestComesBack
  dsimp only at hbuffer ⊢
  constructor
  · rintro ⟨mh, place, len, hnew, -⟩ hcode
    unfold mhNewInto at hnew
    rw [if_pos hcode] at hnew
    cases hnew
  · intro hcode
    have hsize : (UInt8.ofNat digest.length).toNat = digest.length := by
      rw [UInt8.toNat_ofNat']
      omega
    have hfirst : (UInt8.ofNat (code % 256).toNat).toNat = (code % 256).toNat := by
      rw [UInt8.toNat_ofNat']
      omega
    have htaken : ¬ Refused (UInt8.ofNat (code % 256).toNat :: UInt8.ofNat digest.length :: digest) := by
      unfold VarintCode at hcode
      unfold Refused
      show ¬ (digest.length + 2 < 3 ∨ 128 ≤ (UInt8.ofNat (code % 256).toNat).toNat ∨
        128 ≤ (UInt8.ofNat digest.length).toNat ∨ (UInt8.ofNat digest.length).toNat = 0)
      omega
    refine ⟨_, _, _, mhNewInto_pos hcode hlong hbuffer, mhMultihashDigestAt_of_taken htaken, ?_⟩
    show Region.load _ 2 (UInt8.ofNat digest.length).toNat = _
    rw [hsize, Region.load_pos (by rw [List.length_cons, List.length_cons]; omega)]
    exact congrArg Except.ok List.take_length

theorem digestInside_iff : DigestInside mh ↔
    Refused mh ∨ 2 + (mh.getD 1 0).toNat ≤ mh.length := by
  unfold DigestInside
  by_cases h : Refused mh
  · have hlength := mhMultihashLength_of_refused h
    rw [mhMultihashDigestAt_of_refused h]
    exact iff_of_true ⟨fun place len hok => (nomatch hok), fun hpos => by omega⟩ (.inl h)
  · rw [mhMultihashDigestAt_of_taken h, mhMultihashLength_of_taken h, or_iff_right h]
    constructor
    · exact fun hinside => hinside.1 2 _ rfl
    · intro hle
      refine ⟨fun place len hok => ?_, fun _ => by omega⟩
      obtain ⟨rfl, rfl⟩ := Prod.mk.inj (Except.ok.inj hok)
      exact hle

end

/-- a buffer for a digest -/
abbrev BufferFor (digest : MultihashDigest) : Type :=
  { buffer : Region // buffer.length = 2 + digest.1.length }

/-- **multihashes**: a digest comes back with every code that is taken, and the digest that is
announced lies inside when the multihash is as long as it says -/
theorem multihashFraming_iff (code : Int) (digest : MultihashDigest) (buffer : BufferFor digest)
    (mh : List UInt8) :
    (DigestComesBack code digest buffer.1 ↔ ¬ VarintCode code) ∧
    (DigestInside mh ↔ Refused mh ∨ 2 + (mh.getD 1 0).toNat ≤ mh.length) :=
  ⟨digestComesBack_iff digest buffer.2, digestInside_iff⟩

/-- one byte that is said to be 127 -/
theorem not_digestInside : ¬ DigestInside [0x12, 127, 0] := by
  intro h
  have hinside := h.1 2 127 (by decide +kernel)
  revert hinside
  decide

end Libp2p
