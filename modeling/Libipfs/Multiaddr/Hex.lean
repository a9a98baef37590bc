import Libipfs.Lib.CString
import Libipfs.Lib.Numeral
import Libipfs.Multiaddr.Base58

/-!
# Hexadecimal text

The conversions of `multiaddr/varhexutils.c`, in capital or small letters.

* `Spells text bytes`     the text has two digits for each of the bytes;
* `hexToVar_of_spells`    it is read as the bytes;
* `hexToInt_of_spells`    and as their number, up to eight of them;
* `spells_intToHex`       **a number is written with as few bytes as it takes**.
-/

namespace Libp2p
open CSem

/-! ## the conversions -/

/-- `%X` -/
def capital (c : UInt8) : UInt8 := if 97 ≤ c then c - 32 else c

/-- `%02x` -/
def hexByte (b : UInt8) : List UInt8 := [digitByte (b.toNat / 16), digitByte (b.toNat % 16)]

/-- `%02lX`, and a zero in front if the number of digits is odd -/
def intToHex (int2hex : Nat) : List UInt8 :=
  let result := List.leftpad 2 48 ((numeral 16 int2hex).map capital)
  if result.length % 2 ≠ 0 then 48 :: result else result

/-- the four bits of a character; those of one that is no digit are taken as they are -/
def hexNibble (c : UInt8) : Nat :=
  let byte :=
    if 48 ≤ c ∧ c ≤ 57 then c.toNat - 48
    else if 97 ≤ c ∧ c ≤ 102 then c.toNat - 97 + 10
    else if 65 ≤ c ∧ c ≤ 70 then c.toNat - 65 + 10
    else c.toNat
  byte % 16

def hexToInt (hex : List UInt8) : Nat :=
  (cutAt 0 hex).1.foldl (fun val c => (val * 16 + hexNibble c) % 2 ^ 64) 0

def varToHex (incoming : List UInt8) : List UInt8 := incoming.flatMap hexByte

/-- a last digit alone is written behind the end of the result -/
def hexToVar : List UInt8 → Exec (List UInt8)
  | [] => .ok []
  | [_] => .error .overflow
  | c :: d :: incoming => do
    let (lu, _) ← strtol 16 [c, d, 0]
    let rest ← hexToVar incoming
    .ok (UInt8.ofNat (lu % 256).toNat :: rest)

/-- the high bit is set in each byte -/
def uvarintEncode : Nat → Nat → List UInt8
  | 0, _ => []
  | room + 1, val =>
    UInt8.ofNat (val % 256 ||| 128) ::
      if val >>> 7 = 0 then [] else uvarintEncode room (val >>> 7)

def uvarintDecode : Nat → Nat → List UInt8 → Nat
  | room + 1, i, b :: buf =>
    (b.toNat % 128) <<< (7 * i) ||| if b < 128 then 0 else uvarintDecode room (i + 1) buf
  | _, _, _ => 0

/-- into a buffer of one byte -/
def numToHexVar32 (num : Nat) : List UInt8 :=
  ((uvarintEncode (min 4 1) num).flatMap hexByte).map capital

/-- the bytes behind the one that is read are zero -/
def hexVarToNum32 (hexString : List UInt8) : Exec Nat := do
  let (lu, _) ← strtol 16 (hexString ++ [0])
  .ok (uvarintDecode 4 0 (UInt8.ofNat (lu % 256).toNat :: List.replicate 399 0))

/-! ## the bytes a text spells -/

def nibbles (b : UInt8) : List Nat := [b.toNat / 16, b.toNat % 16]

/-- two digits for each byte, in capital or small letters -/
def Spells (text bytes : List UInt8) : Prop :=
  text.map (digitIn 16) = (bytes.flatMap nibbles).map some

section
variable {text more bytes rest : List UInt8} {b c d : UInt8} {n v hi lo : Nat}

theorem Spells.append (h : Spells text bytes) (h' : Spells more rest) :
    Spells (text ++ more) (bytes ++ rest) := by
  unfold Spells at *
  rw [List.map_append, h, h', List.flatMap_append, List.map_append]

theorem Spells.length (h : Spells text bytes) : text.length = 2 * bytes.length := by
  have hlen := congrArg List.length h
  rw [List.length_map, List.length_map] at hlen
  rw [hlen]
  clear h hlen
  induction bytes with
  | nil => rfl
  | cons b bytes ih =>
    rw [List.flatMap_cons, List.length_append, ih, List.length_cons]
    show 2 + 2 * bytes.length = _
    omega

/-- a text for a byte and others -/
theorem spells_cons (h : Spells text (b :: bytes)) :
    ∃ c d more, text = c :: d :: more ∧ digitIn 16 c = some (b.toNat / 16) ∧
      digitIn 16 d = some (b.toNat % 16) ∧ Spells more bytes := by
  cases text with
  | nil => cases h
  | cons c text =>
    cases text with
    | nil =>
      have hlen := h.length
      rw [List.length_cons, List.length_cons, List.length_nil] at hlen
      omega
    | cons d more =>
      unfold Spells at h
      rw [List.flatMap_cons, List.map_cons, List.map_cons, List.map_append] at h
      obtain ⟨hc, h⟩ := List.cons.inj h
      obtain ⟨hd, h⟩ := List.cons.inj h
      exact ⟨c, d, more, rfl, hc, hd, h⟩

theorem digitIn_capital (h : digitIn 16 c = some n) : digitIn 16 (capital c) = some n := by
  have hall : ∀ k < 256, (digitIn 16 (UInt8.ofNat k)).isSome →
      digitIn 16 (capital (UInt8.ofNat k)) = digitIn 16 (UInt8.ofNat k) := by decide +kernel
  have hc : UInt8.ofNat c.toNat = c := UInt8.ofNat_toNat
  have heq := hall c.toNat c.toNat_lt
  rw [hc, h] at heq
  exact heq rfl

theorem map_digitIn_capital {ds : List Nat} (h : text.map (digitIn 16) = ds.map some) :
    (text.map capital).map (digitIn 16) = ds.map some := by
  rw [← h, List.map_map]
  refine List.map_congr_left fun c hc => ?_
  have hmem : digitIn 16 c ∈ ds.map some := by
    rw [← h]
    exact List.mem_map_of_mem hc
  obtain ⟨n, -, hn⟩ := List.mem_map.1 hmem
  exact (digitIn_capital hn.symm).trans hn

theorem Spells.capital (h : Spells text bytes) : Spells (text.map capital) bytes :=
  map_digitIn_capital h

theorem spells_hexByte (b : UInt8) : Spells (hexByte b) [b] := by
  have hb : b.toNat < 256 := b.toNat_lt
  unfold Spells hexByte
  rw [List.map_cons, List.map_cons, digitIn_digitByte (by decide) (by omega),
    digitIn_digitByte (by decide) (by omega)]
  rfl

theorem spells_varToHex (bytes : List UInt8) : Spells (varToHex bytes) bytes := by
  induction bytes with
  | nil => rfl
  | cons b bytes ih => exact (spells_hexByte b).append ih

/-! ### reading -/

theorem strtol_pair (hc : digitIn 16 c = some hi) (hd : digitIn 16 d = some lo) :
    strtol 16 [c, d, 0] = .ok (toLong (lo + 16 * hi : Nat), 2) := by
  have h48 := lt_of_digitIn hc
  have hspaces : [c, d, 0].takeWhile isSpace = [] := by
    rw [List.takeWhile_cons, not_isSpace_of_le h48]
    rfl
  have hsign : ¬ (c = 43 ∨ c = 45) := by
    rintro (rfl | rfl)
    · exact absurd h48 (by decide)
    · exact absurd h48 (by decide)
  have hx : ¬ (d = 120 ∨ d = 88) := by
    rintro (rfl | rfl)
    · exact nomatch hd
    · exact nomatch hd
  have hlength : signLength [c, d, 0] = 0 := if_neg hsign
  have hhex : hexLength 16 [c, d, 0] = 0 := if_neg fun h => hx h.2.2.1
  have hdigits : leadingDigits 16 [c, d, 0] = [hi, lo] := by
    rw [leadingDigits, hc, leadingDigits, hd]
    rfl
  have hminus : ¬ [c, d, 0].head? = some 45 := fun h => hsign (.inr (Option.some.inj h))
  unfold strtol
  simp only [hspaces, List.length_nil, List.drop_zero, hlength, Nat.add_zero, hhex, hdigits]
  rw [require_pos (by simp), ok_bind, if_neg (by simp), if_neg hminus]
  rfl

/-- two digits are the byte they spell -/
theorem toNat_emod_toLong {n : Nat} (h : n < 256) : (toLong n % 256).toNat = n := by
  rw [toLong_natCast_of_lt (by omega)]
  omega

theorem strtol_hexByte (hc : digitIn 16 c = some (b.toNat / 16))
    (hd : digitIn 16 d = some (b.toNat % 16)) :
    ∃ lu, strtol 16 [c, d, 0] = .ok (lu, 2) ∧ UInt8.ofNat (lu % 256).toNat = b := by
  have hb : b.toNat % 16 + 16 * (b.toNat / 16) = b.toNat := Nat.mod_add_div b.toNat 16
  refine ⟨_, strtol_pair hc hd, ?_⟩
  rw [hb, toNat_emod_toLong b.toNat_lt, UInt8.ofNat_toNat]

/-- **the bytes of a text** -/
theorem hexToVar_of_spells (h : Spells text bytes) : hexToVar text = .ok bytes := by
  induction bytes generalizing text with
  | nil =>
    obtain rfl : text = [] := List.map_eq_nil_iff.1 h
    rfl
  | cons b bytes ih =>
    obtain ⟨c, d, more, rfl, hc, hd, h⟩ := spells_cons h
    obtain ⟨lu, hlu, hb⟩ := strtol_hexByte hc hd
    rw [hexToVar, hlu, ok_bind]
    dsimp only
    rw [ih h, ok_bind, hb]

theorem even_of_hexToVar {text bytes : List UInt8} (h : hexToVar text = .ok bytes) :
    text.length % 2 = 0 := by
  fun_induction hexToVar text generalizing bytes with
  | case1 => rfl
  | case2 c => cases h
  | case3 c d text ih =>
    obtain ⟨lu, -, h⟩ := bind_eq_ok.1 h
    obtain ⟨rest, hrest, -⟩ := bind_eq_ok.1 h
    have hlen := ih hrest
    rw [List.length_cons, List.length_cons]
    omega

theorem hexNibble_of_digitIn (h : digitIn 16 c = some n) : c ≠ 0 ∧ hexNibble c = n := by
  have hall : ∀ k < 256, digitIn 16 (UInt8.ofNat k) = none ∨
      UInt8.ofNat k ≠ 0 ∧ digitIn 16 (UInt8.ofNat k) = some (hexNibble (UInt8.ofNat k)) := by
    decide +kernel
  have hc : UInt8.ofNat c.toNat = c := UInt8.ofNat_toNat
  have hcases := hall c.toNat c.toNat_lt
  rw [hc, h] at hcases
  rcases hcases with hnone | ⟨h0, hsome⟩
  · cases hnone
  · exact ⟨h0, (Option.some.inj hsome).symm⟩

theorem not_mem_of_spells (h : Spells text bytes) : 0 ∉ text := by
  intro h0
  have hmem : digitIn 16 0 ∈ (bytes.flatMap nibbles).map some := by
    rw [← h]
    exact List.mem_map_of_mem h0
  obtain ⟨n, -, hn⟩ := List.mem_map.1 hmem
  cases hn

/-- the digits two by two -/
theorem ofDigits_nibbles (bytes : List UInt8) :
    ofDigits 16 (bytes.flatMap nibbles) = bytesValue bytes := by
  induction bytes using List.reverseRecOn with
  | nil => rfl
  | append_singleton bytes b ih =>
    have hb := Nat.div_add_mod b.toNat 16
    have hnibbles : (bytes ++ [b]).flatMap nibbles =
        bytes.flatMap nibbles ++ [b.toNat / 16] ++ [b.toNat % 16] := by
      rw [List.flatMap_append, List.append_assoc]
      rfl
    have hvalue : bytesValue (bytes ++ [b]) = bytesValue bytes * 256 + b.toNat := by
      unfold bytesValue
      rw [List.map_append, List.map_singleton, ofDigits_concat]
    rw [hnibbles, ofDigits_concat, ofDigits_concat, ih, hvalue]
    omega

theorem foldl_hexNibble (ds : List Nat) (h : text.map (digitIn 16) = ds.map some) (v : Nat) :
    text.foldl (fun val c => (val * 16 + hexNibble c) % 2 ^ 64) (v % 2 ^ 64) =
      ds.foldl (fun v d => v * 16 + d) v % 2 ^ 64 := by
  induction text generalizing ds v with
  | nil =>
    obtain rfl : ds = [] := List.map_eq_nil_iff.1 h.symm
    rfl
  | cons c text ih =>
    cases ds with
    | nil => cases h
    | cons d ds =>
      rw [List.map_cons, List.map_cons] at h
      obtain ⟨hc, h⟩ := List.cons.inj h
      have hstep : (v % 2 ^ 64 * 16 + hexNibble c) % 2 ^ 64 = (v * 16 + d) % 2 ^ 64 := by
        rw [(hexNibble_of_digitIn hc).2]
        omega
      rw [List.foldl_cons, List.foldl_cons, hstep]
      exact ih ds h (v * 16 + d)

/-- **the number of a text**, of up to eight bytes -/
theorem hexToInt_of_spells (h : Spells text bytes) (h8 : bytes.length ≤ 8) :
    hexToInt text = bytesValue bytes := by
  have hlt : bytesValue bytes < 2 ^ 64 := by
    refine Nat.lt_of_lt_of_le (bytesValue_lt bytes) ?_
    calc 256 ^ bytes.length ≤ 256 ^ 8 := Nat.pow_le_pow_right (by decide) h8
      _ = 2 ^ 64 := by norm_num
  unfold hexToInt
  rw [cutAt_of_not_mem (not_mem_of_spells h)]
  have hfold := foldl_hexNibble _ h 0
  rw [Nat.zero_mod] at hfold
  rw [hfold]
  show ofDigits 16 (bytes.flatMap nibbles) % 2 ^ 64 = _
  rw [ofDigits_nibbles, Nat.mod_eq_of_lt hlt]

/-! ### writing -/

theorem flatMap_valueBytes (n v : Nat) :
    (valueBytes n v).flatMap nibbles = toDigits 16 (2 * n) v := by
  induction n generalizing v with
  | zero => rfl
  | succ n ih =>
    have hlast : valueBytes (n + 1) v = valueBytes n (v / 256) ++ [UInt8.ofNat (v % 256)] := by
      unfold valueBytes
      rw [toDigits, List.map_append, List.map_singleton]
    have hnat : (UInt8.ofNat (v % 256)).toNat = v % 256 :=
      UInt8.toNat_ofNat_of_lt (Nat.mod_lt v (by decide))
    have hnibbles : nibbles (UInt8.ofNat (v % 256)) = [v / 16 % 16, v % 16] := by
      unfold nibbles
      rw [hnat]
      have hhi : v % 256 / 16 = v / 16 % 16 := by omega
      have hlo : v % 256 % 16 = v % 16 := by omega
      rw [hhi, hlo]
    have hdiv : v / 16 / 16 = v / 256 := Nat.div_div_eq_div_mul v 16 16
    rw [hlast, List.flatMap_append, ih, List.flatMap_singleton, hnibbles, Nat.mul_succ, toDigits,
      toDigits, hdiv, List.append_assoc]
    rfl

/-- a text of digits of the right length -/
theorem spells_of_digits {ds : List Nat} (h : text.map (digitIn 16) = ds.map some)
    (hlen : ds.length = 2 * n) (hv : ofDigits 16 ds = v) : Spells text (valueBytes n v) := by
  have hsmall : ∀ d ∈ ds, d < 16 := by
    intro d hd
    have hmem : some d ∈ text.map (digitIn 16) := by
      rw [h]
      exact List.mem_map_of_mem hd
    obtain ⟨c, -, hc⟩ := List.mem_map.1 hmem
    unfold digitIn at hc
    exact of_decide_eq_true (Option.filter_eq_some_iff.1 hc).2
  unfold Spells
  rw [h, flatMap_valueBytes, ← hv, ← hlen, toDigits_ofDigits ds hsmall]

/-- zeros in front of the digits, up to an even number of them -/
theorem intToHex_eq (v : Nat) : ∃ k, intToHex v =
      List.replicate k 48 ++ (numeral 16 v).map capital ∧
    (k + (numeral 16 v).length) % 2 = 0 ∧ k ≤ 1 := by
  have hpos : 0 < (numeral 16 v).length := length_numeral_pos
  have hpad : List.leftpad 2 48 ((numeral 16 v).map capital) =
      List.replicate (2 - (numeral 16 v).length) 48 ++ (numeral 16 v).map capital := by
    unfold List.leftpad
    rw [List.length_map]
  have hlen : (List.leftpad 2 48 ((numeral 16 v).map capital)).length =
      max 2 (numeral 16 v).length := by
    rw [List.length_leftpad, List.length_map]
  unfold intToHex
  dsimp only
  rw [hlen, hpad]
  by_cases hodd : max 2 (numeral 16 v).length % 2 ≠ 0
  · have hnone : 2 - (numeral 16 v).length = 0 := by omega
    rw [if_pos hodd, hnone]
    exact ⟨1, rfl, by omega, Nat.le_refl 1⟩
  · rw [if_neg hodd]
    exact ⟨2 - (numeral 16 v).length, rfl, by omega, by omega⟩

/-- **a number is written with as few bytes as it takes** -/
theorem spells_intToHex (v : Nat) : Spells (intToHex v) (valueBytes (max 1 (byteSize v)) v) := by
  obtain ⟨ds, hds, hv⟩ := digits_numeral (by decide : 1 < 16) (by decide) v
  obtain ⟨k, htext, heven, hk⟩ := intToHex_eq v
  rw [← ofDigits_eq_reverse] at hv
  have hlen := congrArg List.length hds
  rw [List.length_map, List.length_map] at hlen
  have hpow : ∀ n, 256 ^ n = 16 ^ (2 * n) := by
    intro n
    rw [pow_mul]
    norm_num
  have hpos : 0 < (numeral 16 v).length := length_numeral_pos
  -- as many digits as two for each byte, or one less
  have hhigh : (numeral 16 v).length ≤ 2 * max 1 (byteSize v) := by
    rw [length_numeral_le_iff (by decide) (by omega), ← hpow, ← byteSize_le_iff]
    exact Nat.le_max_right _ _
  have hlow : 2 * max 1 (byteSize v) ≤ (numeral 16 v).length + 1 := by
    by_contra hgt
    have hn : max 1 (byteSize v) = byteSize v := by omega
    have hfew : (numeral 16 v).length ≤ 2 * (byteSize v - 1) := by omega
    rw [length_numeral_le_iff (by decide) (by omega), ← hpow, ← byteSize_le_iff] at hfew
    omega
  have hdigits : (intToHex v).map (digitIn 16) = (List.replicate k 0 ++ ds).map some := by
    have hzero : digitIn 16 48 = some 0 := rfl
    rw [htext, List.map_append, List.map_append, map_digitIn_capital hds, List.map_replicate,
      List.map_replicate, hzero]
  refine spells_of_digits hdigits ?_ ?_
  · rw [List.length_append, List.length_replicate]
    omega
  · rw [ofDigits_replicate_append, hv]

/-- zeros in front, up to a number of bytes -/
theorem spells_leftpad (h : Spells text (valueBytes n v)) (hv : v < 256 ^ n) (k : Nat) :
    Spells (List.leftpad (2 * (k + n)) 48 text) (valueBytes (k + n) v) := by
  have hlen := h.length
  rw [valueBytes_length] at hlen
  have hzeros : ∀ k, Spells (List.replicate (2 * k) 48) (List.replicate k 0) := by
    intro k
    induction k with
    | zero => rfl
    | succ k ih =>
      have hpair : Spells [48, 48] [0] := rfl
      exact hpair.append ih
  have hpad : 2 * (k + n) - text.length = 2 * k := by omega
  unfold List.leftpad
  rw [hpad, valueBytes, toDigits_add (by decide) k hv, List.map_append, List.map_replicate]
  exact (hzeros k).append h

/-! ### the size of an id -/

/-- the byte that stands for a size -/
def sizeByte (num : Nat) : UInt8 := UInt8.ofNat (num % 256 ||| 128)

theorem spells_numToHexVar32 (num : Nat) : Spells (numToHexVar32 num) [sizeByte num] := by
  have hbyte : uvarintEncode (min 4 1) num = [sizeByte num] := by
    show sizeByte num :: (if num >>> 7 = 0 then [] else []) = _
    rw [ite_self]
  unfold numToHexVar32
  rw [hbyte]
  exact (spells_varToHex [sizeByte num]).capital

theorem hexVarToNum32_hexByte (b : UInt8) : hexVarToNum32 (hexByte b) = .ok (b.toNat % 128) := by
  obtain ⟨c, d, more, htext, hc, hd, -⟩ := spells_cons (spells_hexByte b)
  obtain ⟨lu, hlu, hb⟩ := strtol_hexByte hc hd
  obtain ⟨rfl, hrest⟩ := List.cons.inj htext
  obtain ⟨rfl, -⟩ := List.cons.inj hrest
  show (strtol 16 [_, _, 0] >>= _) = _
  rw [hlu, ok_bind]
  dsimp only
  rw [hb]
  show Except.ok ((b.toNat % 128) <<< 0 ||| if b < 128 then 0 else 0) = _
  rw [ite_self, Nat.shiftLeft_zero, Nat.or_zero]

/-- a size of less than 128 is read back -/
theorem toNat_sizeByte {num : Nat} (h : num < 128) : (sizeByte num).toNat % 128 = num := by
  have hall : ∀ n < 128, (sizeByte n).toNat % 128 = n := by decide
  exact hall num h

end

end Libp2p
