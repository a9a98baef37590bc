import Libipfs.Lib.Region
import Libipfs.Multiaddr.Hex

/-!
# Base16

Two digits for each byte, in small letters.  They are read with `sscanf`, which looks for the end of
a string; the writer puts a zero byte behind the digits only where the buffer has more room than they
take.

* `scanHexByte_hexByte`           two digits are read as the byte they were written for;
* `base16DecodeFrom_unterminated` digits that are no string are read beyond their end;
* `base16Decode_base16Encode`     **what is encoded is decoded**, when there is room behind the digits.
-/

namespace Libp2p
open CSem

/-! ## the codec -/

/-- the buffer and the length of what is in it, `none` when the function returns 0 -/
def cryptoEncodingBase16Encode (incoming : List UInt8) (results : Region) :
    Exec (Option (Region × Nat)) :=
  if results.length < incoming.length * 2 then .ok none
  else do
    -- the places are those of an `int`
    require .overflow (incoming.length ≤ 2 ^ 30)
    let results ← Region.store (List.replicate results.length 0) 0 (varToHex incoming)
    .ok (some (results, incoming.length * 2))

def cryptoEncodingBase16EncodeSize (incomingLength : Nat) : Int := toInt32 (incomingLength * 2 : Nat)

/-- `sscanf` with `%2hhx`: the string is looked through to its zero byte; of it spaces are read, and
two characters of a number; what is no number leaves the zero that is there -/
def scanHexByte (pos : List UInt8) : Exec UInt8 := do
  require .outOfBounds (0 ∈ pos)
  let item := (pos.dropWhile isSpace).take 2
  let (value, _) ← strtol 16 (item ++ [0])
  .ok (UInt8.ofNat (value % 256).toNat)

def base16DecodeFrom : Nat → List UInt8 → Exec (List UInt8)
  | 0, _ => .ok []
  | n + 1, pos => do
    let b ← scanHexByte pos
    let rest ← base16DecodeFrom n (pos.drop 2)
    .ok (b :: rest)

/-- the buffer, whose length is left as it is; `none` when the function returns 0 -/
def cryptoEncodingBase16Decode (incoming : List UInt8) (incomingLength : Nat) (results : Region) :
    Exec (Option Region) :=
  if results.length < incomingLength / 2 then .ok none
  else do
    require .overflow (incomingLength / 2 < 2 ^ 31)
    let bytes ← base16DecodeFrom (incomingLength / 2) incoming
    let results ← Region.store (List.replicate results.length 0) 0 bytes
    .ok (some results)

def cryptoEncodingBase16DecodeSize (incomingLength : Nat) : Int := toInt32 (incomingLength / 2 : Nat)

/-! ## the round trip -/

section
variable {bytes rest : List UInt8} {results out : Region}

theorem length_varToHex (bytes : List UInt8) : (varToHex bytes).length = bytes.length * 2 := by
  rw [(spells_varToHex bytes).length, Nat.mul_comm]

theorem scanHexByte_hexByte (b : UInt8) (h0 : 0 ∈ rest) :
    scanHexByte (hexByte b ++ rest) = .ok b := by
  obtain ⟨c, d, more, htext, hc, hd, hmore⟩ := spells_cons (spells_hexByte b)
  have hnil : more = [] := List.eq_nil_of_length_eq_zero hmore.length
  have hspace : isSpace c = false := not_isSpace_of_le (lt_of_digitIn hc)
  have hitem : ((hexByte b ++ rest).dropWhile isSpace).take 2 = [c, d] := by
    rw [htext, hnil, List.cons_append, List.dropWhile_cons_of_neg (by rw [hspace]; decide)]
    rfl
  obtain ⟨lu, hlu, hb⟩ := strtol_hexByte hc hd
  have hread : strtol 16 ([c, d] ++ [0]) = .ok (lu, 2) := hlu
  unfold scanHexByte
  rw [require_pos (List.mem_append_right _ h0), ok_bind]
  dsimp only
  rw [hitem, hread, ok_bind]
  exact congrArg Except.ok hb

theorem base16DecodeFrom_varToHex (bytes : List UInt8) (h0 : 0 ∈ rest) :
    base16DecodeFrom bytes.length (varToHex bytes ++ rest) = .ok bytes := by
  induction bytes with
  | nil => rfl
  | cons b bytes ih =>
    have happend : varToHex (b :: bytes) ++ rest = hexByte b ++ (varToHex bytes ++ rest) := by
      rw [varToHex, List.flatMap_cons, List.append_assoc]
      rfl
    have hdrop : (hexByte b ++ (varToHex bytes ++ rest)).drop 2 = varToHex bytes ++ rest := rfl
    rw [List.length_cons, base16DecodeFrom, happend,
      scanHexByte_hexByte b (List.mem_append_right _ h0), ok_bind, hdrop, ih]
    rfl

/-- **digits that are no string** are read beyond their end -/
theorem base16DecodeFrom_unterminated {digits : List UInt8} {n : Nat} (h0 : 0 ∉ digits) :
    base16DecodeFrom (n + 1) digits = .error .outOfBounds := by
  unfold base16DecodeFrom scanHexByte
  rw [require_neg h0]
  rfl

/-- what is filled from the front -/
theorem store_replicate_zero {n : Nat} (h : bytes.length ≤ n) :
    Region.store (List.replicate n 0) 0 bytes =
      .ok (bytes ++ List.replicate (n - bytes.length) 0) := by
  rw [Region.store_pos (by rw [List.length_replicate]; omega), List.take_zero, List.nil_append,
    List.drop_replicate, Nat.zero_add]

theorem base16Encode_ok (hlen : bytes.length ≤ 2 ^ 30) (hroom : bytes.length * 2 ≤ results.length) :
    cryptoEncodingBase16Encode bytes results =
      .ok (some (varToHex bytes ++ List.replicate (results.length - bytes.length * 2) 0,
        bytes.length * 2)) := by
  have hhex := length_varToHex bytes
  unfold cryptoEncodingBase16Encode
  rw [if_neg (by omega), require_pos hlen, ok_bind, store_replicate_zero (by omega), hhex]
  rfl

/-- **what is encoded is decoded** when there is room for a zero byte behind the digits, and without
it they are read beyond their end -/
theorem base16Decode_base16Encode (hlen : bytes.length ≤ 2 ^ 30)
    (hroom : bytes.length * 2 ≤ results.length) (hout : bytes.length ≤ out.length) :
    (∃ text decoded, cryptoEncodingBase16Encode bytes results =
        .ok (some (text, bytes.length * 2)) ∧
      cryptoEncodingBase16Decode text (bytes.length * 2) out = .ok (some decoded) ∧
      decoded.take bytes.length = bytes) ↔ bytes = [] ∨ bytes.length * 2 < results.length := by
  have htwice : bytes.length * 2 / 2 = bytes.length := Nat.mul_div_cancel _ (by decide)
  constructor
  · rintro ⟨text, decoded, hencode, hdecode, -⟩
    rw [base16Encode_ok hlen hroom, Except.ok.injEq, Option.some.injEq, Prod.mk.injEq] at hencode
    obtain ⟨rfl, -⟩ := hencode
    by_contra h
    obtain ⟨hne, hfull⟩ := not_or.1 h
    -- the digits fill the buffer
    obtain ⟨n, hn⟩ := Nat.exists_eq_succ_of_ne_zero (mt List.eq_nil_of_length_eq_zero hne)
    have hrest : results.length - bytes.length * 2 = 0 := by omega
    have h0 : 0 ∉ varToHex bytes := not_mem_of_spells (spells_varToHex bytes)
    unfold cryptoEncodingBase16Decode at hdecode
    rw [htwice, if_neg (by omega), require_pos (by omega), ok_bind, hrest, List.replicate_zero,
      List.append_nil, hn, base16DecodeFrom_unterminated h0] at hdecode
    cases hdecode
  · intro h
    refine ⟨_, bytes ++ List.replicate (out.length - bytes.length) 0, base16Encode_ok hlen hroom, ?_,
      List.take_left⟩
    unfold cryptoEncodingBase16Decode
    rw [htwice, if_neg (by omega), require_pos (by omega), ok_bind]
    rcases h with rfl | hmore
    · rw [List.length_nil, base16DecodeFrom, ok_bind, store_replicate_zero (Nat.zero_le _)]
      rfl
    · have h0 : (0 : UInt8) ∈ List.replicate (results.length - bytes.length * 2) 0 :=
        List.mem_replicate.2 ⟨by omega, rfl⟩
      rw [base16DecodeFrom_varToHex _ h0, ok_bind, store_replicate_zero hout]
      rfl

end

/-- two bytes, in buffers with room to spare -/
theorem base16Decode_base16Encode_pair : ∃ text decoded,
    cryptoEncodingBase16Encode [1, 255] (List.replicate 5 7) = .ok (some (text, 4)) ∧
      cryptoEncodingBase16Decode text 4 (List.replicate 3 7) = .ok (some decoded) ∧
      decoded.take 2 = [1, 255] :=
  (@base16Decode_base16Encode [1, 255] (List.replicate 5 7) (List.replicate 3 7) (by decide) (by decide)
    (by decide)).2 (.inr (by decide))

end Libp2p
