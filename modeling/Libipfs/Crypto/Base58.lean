import Libipfs.Lib.Exec
import Mathlib.Data.List.Induction
import Mathlib.Data.Nat.Digits.Defs
import Mathlib.Data.Nat.Log
import Mathlib.Tactic.Ring
import Mathlib.Tactic.NormNum

/-!
# Base58

A number in two ways: the bytes of a multihash, and the digits of its text.  The limbs of the
decoder and the digits of the encoder are kept as one number here.

* `ofDigits_toDigits`, `toDigits_ofDigits`   numbers and their digits, the highest one first;
* `base58Decode_base58Encode`   the text of a SHA-256 multihash starts with `Qm`, has 46
                                characters, and is decoded to the multihash.
-/

namespace Libp2p
open CSem

/-! ## digits -/

/-- the highest digit first -/
def ofDigits (b : Nat) (digits : List Nat) : Nat := digits.foldl (fun v d => v * b + d) 0

/-- the last `n` digits, the highest one first -/
def toDigits (b : Nat) : Nat → Nat → List Nat
  | 0, _ => []
  | n + 1, v => toDigits b n (v / b) ++ [v % b]

section
variable {b : Nat}

theorem ofDigits_concat (ds : List Nat) (d : Nat) :
    ofDigits b (ds ++ [d]) = ofDigits b ds * b + d := by
  simp [ofDigits]

@[simp] theorem toDigits_length (n v : Nat) : (toDigits b n v).length = n := by
  induction n generalizing v with
  | zero => rfl
  | succ n ih => rw [toDigits, List.length_append, ih, List.length_singleton]

theorem toDigits_lt (hb : 0 < b) (n v : Nat) : ∀ d ∈ toDigits b n v, d < b := by
  induction n generalizing v with
  | zero => exact fun d hd => by cases hd
  | succ n ih =>
    intro d hd
    rcases List.mem_append.1 hd with hd | hd
    · exact ih _ d hd
    · rw [List.mem_singleton.1 hd]
      exact Nat.mod_lt _ hb

theorem ofDigits_toDigits {n v : Nat} (h : v < b ^ n) : ofDigits b (toDigits b n v) = v := by
  induction n generalizing v with
  | zero =>
    rw [pow_zero, Nat.lt_one_iff] at h
    rw [h]
    rfl
  | succ n ih =>
    have hdiv : v / b < b ^ n := Nat.div_lt_of_lt_mul (by rwa [pow_succ'] at h)
    rw [toDigits, ofDigits_concat, ih hdiv, Nat.mul_comm]
    exact Nat.div_add_mod v b

theorem toDigits_ofDigits (ds : List Nat) (h : ∀ d ∈ ds, d < b) :
    toDigits b ds.length (ofDigits b ds) = ds := by
  induction ds using List.reverseRecOn with
  | nil => rfl
  | append_singleton ds d ih =>
    have hd : d < b := h d (by simp)
    have hb : 0 < b := by omega
    rw [List.length_append, List.length_singleton, toDigits, ofDigits_concat, Nat.mul_add_mod',
      Nat.mod_eq_of_lt hd, Nat.mul_comm, Nat.mul_add_div hb, Nat.div_eq_of_lt hd, Nat.add_zero,
      ih fun x hx => h x (by simp [hx])]

theorem ofDigits_lt {ds : List Nat} (h : ∀ d ∈ ds, d < b) : ofDigits b ds < b ^ ds.length := by
  induction ds using List.reverseRecOn with
  | nil => simp [ofDigits]
  | append_singleton ds d ih =>
    have hd : d < b := h d (by simp)
    have ih := ih fun x hx => h x (by simp [hx])
    rw [ofDigits_concat, List.length_append, List.length_singleton, pow_succ]
    have hmul : (ofDigits b ds + 1) * b ≤ b ^ ds.length * b := Nat.mul_le_mul_right b ih
    rw [Nat.add_mul, Nat.one_mul] at hmul
    omega

theorem foldl_digits (b : Nat) (ds : List Nat) (v : Nat) :
    ds.foldl (fun v d => v * b + d) v = v * b ^ ds.length + ofDigits b ds := by
  induction ds using List.reverseRecOn with
  | nil => simp [ofDigits]
  | append_singleton ds d ih =>
    rw [List.foldl_append, ih, ofDigits_concat, List.length_append, List.length_singleton]
    simp only [List.foldl_cons, List.foldl_nil]
    ring

theorem ofDigits_cons (d : Nat) (ds : List Nat) :
    ofDigits b (d :: ds) = d * b ^ ds.length + ofDigits b ds := by
  rw [← foldl_digits]
  unfold ofDigits
  rw [List.foldl_cons, Nat.zero_mul, Nat.zero_add]

theorem ofDigits_replicate_append (k : Nat) (ds : List Nat) :
    ofDigits b (List.replicate k 0 ++ ds) = ofDigits b ds := by
  induction k with
  | zero => rfl
  | succ k ih => rw [List.replicate_succ, List.cons_append, ofDigits_cons, Nat.zero_mul,
      Nat.zero_add, ih]

/-- the same number from the other end -/
theorem ofDigits_eq_reverse (ds : List Nat) : ofDigits b ds = Nat.ofDigits b ds.reverse := by
  induction ds with
  | nil => rfl
  | cons d ds ih => rw [ofDigits_cons, Nat.ofDigits_reverse_cons, ih, Nat.add_comm, Nat.mul_comm]

theorem toDigits_succ (b n v : Nat) : toDigits b (n + 1) v = v / b ^ n % b :: toDigits b n v := by
  induction n generalizing v with
  | zero => simp [toDigits]
  | succ n ih =>
    rw [toDigits, ih, Nat.div_div_eq_div_mul, ← pow_succ', List.cons_append]
    rfl

theorem toDigits_head_eq_zero {b n v : Nat} (h : v < b ^ n) :
    toDigits b (n + 1) v = 0 :: toDigits b n v := by
  rw [toDigits_succ, Nat.div_eq_of_lt h, Nat.zero_mod]

/-- zeros in front where there are more places than needed -/
theorem toDigits_add {n v : Nat} (hb : 0 < b) (k : Nat) (h : v < b ^ n) :
    toDigits b (k + n) v = List.replicate k 0 ++ toDigits b n v := by
  induction k with
  | zero => rw [Nat.zero_add, List.replicate_zero, List.nil_append]
  | succ k ih =>
    have hlt : v < b ^ (k + n) := Nat.lt_of_lt_of_le h (Nat.pow_le_pow_right hb (by omega))
    rw [Nat.succ_add, toDigits_head_eq_zero hlt, ih, List.replicate_succ, List.cons_append]

/-- digits that begin with none that is zero are those of the number -/
theorem toDigits_ofDigits_of_le {ds : List Nat} {n : Nat} (hb : 0 < b) (h : ∀ d ∈ ds, d < b)
    (hn : ds.length ≤ n) :
    toDigits b n (ofDigits b ds) = List.replicate (n - ds.length) 0 ++ ds := by
  obtain ⟨k, rfl⟩ : ∃ k, n = k + ds.length := ⟨n - ds.length, by omega⟩
  rw [toDigits_add hb k (ofDigits_lt h), toDigits_ofDigits ds h, Nat.add_sub_cancel]

end

/-! ## the codec -/

/-- `b58digits_ordered` -/
def base58Alphabet : List UInt8 :=
  [49, 50, 51, 52, 53, 54, 55, 56, 57, 65, 66, 67, 68, 69, 70, 71, 72, 74, 75, 76, 77, 78, 80, 81,
   82, 83, 84, 85, 86, 87, 88, 89, 90, 97, 98, 99, 100, 101, 102, 103, 104, 105, 106, 107, 109,
   110, 111, 112, 113, 114, 115, 116, 117, 118, 119, 120, 121, 122]

def base58Char (d : Nat) : UInt8 := base58Alphabet.getD d 0

/-- `b58digits_map`, `none` for -1 and for a byte that is not ASCII -/
def base58Digit (c : UInt8) : Option Nat := base58Alphabet.idxOf? c

def bytesValue (bytes : List UInt8) : Nat := ofDigits 256 (bytes.map UInt8.toNat)

def valueBytes (n v : Nat) : List UInt8 := (toDigits 256 n v).map UInt8.ofNat

/-- leading zeros would be written over the pointer to the results -/
def cryptoEncodingBase58Encode (binaryData : List UInt8) : Exec (List UInt8) := do
  require .outOfBounds (binaryData.head? ≠ some 0)
  let size := binaryData.length * 138 / 100 + 1
  let buf := toDigits 58 size (bytesValue binaryData)
  .ok ((buf.dropWhile fun d => d = 0).map base58Char)

/-- leading zeros are written over the pointer to the results; `none` when the text is too long -/
def cryptoEncodingBase58EncodeInto (binaryData : List UInt8) (room : Nat) :
    Exec (Option (List UInt8)) := do
  let zcount := (binaryData.takeWhile fun b => b = 0).length
  let text ← cryptoEncodingBase58Encode (binaryData.drop zcount)
  if room ≤ zcount + text.length then .ok none
  else do
    require .outOfBounds (zcount = 0)
    .ok (some text)

/-- into a buffer of `binsz` bytes; the length that is returned leaves out as many bytes as there
are leading zeros, and counts the leading `1`s -/
def cryptoEncodingBase58Decode (b58 : List UInt8) (binsz : Nat) : Option (List UInt8) := do
  let digits ← b58.mapM base58Digit
  let value := ofDigits 58 digits
  if 256 ^ binsz ≤ value then none
  else
    let bin := valueBytes binsz value
    let zeros := (bin.takeWhile fun b => b = 0).length
    let zerocount := (digits.takeWhile fun d => d = 0).length
    return bin.take (binsz - zeros + zerocount)

/-- the bytes that so many characters can make -/
def cryptoEncodingBase58DecodeSize (encodedSize : Nat) : Nat := Nat.clog 256 (58 ^ encodedSize)

/-! ### the text of a SHA-256 multihash -/

theorem base58DecodeSize_46 : cryptoEncodingBase58DecodeSize 46 = 34 := by
  unfold cryptoEncodingBase58DecodeSize
  decide

theorem base58Digit_base58Char {d : Nat} (h : d < 58) : base58Digit (base58Char d) = some d := by
  have : ∀ d < 58, base58Digit (base58Char d) = some d := by decide
  exact this d h

theorem mapM_base58Digit {ds : List Nat} (h : ∀ d ∈ ds, d < 58) :
    (ds.map base58Char).mapM base58Digit = some ds := by
  induction ds with
  | nil => rfl
  | cons d ds ih =>
    rw [List.map_cons, List.mapM_cons, base58Digit_base58Char (h d List.mem_cons_self),
      ih fun x hx => h x (List.mem_cons_of_mem _ hx)]
    rfl

/-- the decoder, on digits -/
theorem cryptoEncodingBase58Decode_map {ds : List Nat} (h : ∀ d ∈ ds, d < 58) (binsz : Nat) :
    cryptoEncodingBase58Decode (ds.map base58Char) binsz =
      if 256 ^ binsz ≤ ofDigits 58 ds then none
      else some ((valueBytes binsz (ofDigits 58 ds)).take
        (binsz - ((valueBytes binsz (ofDigits 58 ds)).takeWhile fun b => b = 0).length +
          (ds.takeWhile fun d => d = 0).length)) := by
  unfold cryptoEncodingBase58Decode
  rw [mapM_base58Digit h]
  rfl

theorem valueBytes_bytesValue (bytes : List UInt8) :
    valueBytes bytes.length (bytesValue bytes) = bytes := by
  have h : ∀ d ∈ bytes.map UInt8.toNat, d < 256 := by
    intro d hd
    obtain ⟨b, -, rfl⟩ := List.mem_map.1 hd
    exact b.toNat_lt
  have hd := toDigits_ofDigits _ h
  rw [List.length_map] at hd
  rw [valueBytes, bytesValue, hd, List.map_map]
  simp [Function.comp_def]

theorem bytesValue_lt (bytes : List UInt8) : bytesValue bytes < 256 ^ bytes.length := by
  have hdigits : ∀ d ∈ bytes.map UInt8.toNat, d < 256 := by
    intro d hd
    obtain ⟨b, -, rfl⟩ := List.mem_map.1 hd
    exact b.toNat_lt
  have h := ofDigits_lt hdigits
  rwa [List.length_map] at h

/-- the value of a digest behind the two bytes of its multihash -/
theorem bytesValue_multihash {digest : List UInt8} (h : digest.length = 32) :
    bytesValue (0x12 :: 0x20 :: digest) = 0x1220 * 256 ^ 32 + bytesValue digest := by
  show (digest.map UInt8.toNat).foldl (fun v d => v * 256 + d) 0x1220 = _
  rw [foldl_digits, List.length_map, h]
  rfl

/-- a text has no character but those of the alphabet -/
theorem base58Encode_mem {binaryData text : List UInt8}
    (h : cryptoEncodingBase58Encode binaryData = .ok text) :
    ∀ c ∈ text, ∃ d, c = base58Char d := by
  obtain ⟨-, h⟩ := require_bind_eq_ok.1 h
  rw [← Except.ok.inj h]
  intro c hc
  obtain ⟨d, -, hd⟩ := List.mem_map.1 hc
  exact ⟨d, hd.symm⟩

theorem base58Char_ne_slash (d : Nat) : base58Char d ≠ 47 := by
  by_cases hd : d < 58
  · have hall : ∀ d < 58, base58Char d ≠ 47 := by decide
    exact hall d hd
  · have hnone : base58Alphabet[d]? = none := List.getElem?_eq_none (Nat.not_lt.1 hd)
    unfold base58Char
    rw [List.getD_eq_getElem?_getD, hnone]
    decide

/-- **the text of a SHA-256 multihash**: 46 characters that start with `Qm`, decoded to it -/
theorem base58Decode_base58Encode {digest : List UInt8} (h : digest.length = 32) :
    ∃ text, cryptoEncodingBase58Encode (0x12 :: 0x20 :: digest) = .ok text ∧ text.length = 46 ∧
      text.getD 0 0 = 81 ∧ text.getD 1 0 = 109 ∧
      cryptoEncodingBase58Decode text 34 = some (0x12 :: 0x20 :: digest) := by
  have hlen : (0x12 :: 0x20 :: digest : List UInt8).length = 34 := by simp [h]
  have hv := bytesValue_multihash h
  have hlt := bytesValue_lt digest
  have hback := valueBytes_bytesValue (0x12 :: 0x20 :: digest)
  rw [hlen] at hback
  rw [h] at hlt
  generalize hval : bytesValue (0x12 :: 0x20 :: digest) = v at hv hback
  -- the two bytes in front fix the first two digits
  have hhi : v / 58 ^ 44 = 1378 := by omega
  have h46 : v < 58 ^ 46 := by omega
  have h34 : v < 256 ^ 34 := by omega
  have h0 : v / 58 ^ 45 % 58 = 23 := by omega
  have h1 : v / 58 ^ 44 % 58 = 44 := by omega
  have hdigits : toDigits 58 46 v = 23 :: 44 :: toDigits 58 44 v := by
    rw [toDigits_succ, toDigits_succ, h0, h1]
  have hsmall : ∀ d ∈ toDigits 58 46 v, d < 58 := toDigits_lt (by norm_num) 46 v
  refine ⟨(toDigits 58 46 v).map base58Char, ?_, by simp, ?_, ?_, ?_⟩
  · have hhead : (0x12 :: 0x20 :: digest : List UInt8).head? ≠ some 0 := by simp
    have hdrop : (toDigits 58 47 v).dropWhile (fun d => decide (d = 0)) = toDigits 58 46 v := by
      rw [toDigits_head_eq_zero h46, hdigits]
      rfl
    unfold cryptoEncodingBase58Encode
    rw [require_pos hhead, ok_bind, hlen, hval]
    exact congrArg (fun ds => Except.ok (ds.map base58Char)) hdrop
  · rw [hdigits]
    rfl
  · rw [hdigits]
    rfl
  · have hzeros : (valueBytes 34 v).takeWhile (fun b => decide (b = 0)) = [] := by
      rw [hback]
      rfl
    have hones : (toDigits 58 46 v).takeWhile (fun d => decide (d = 0)) = [] := by
      rw [hdigits]
      rfl
    have hvalue : ofDigits 58 (toDigits 58 46 v) = v := ofDigits_toDigits h46
    rw [cryptoEncodingBase58Decode_map hsmall, hvalue, if_neg (by omega), hzeros, hones, hback]
    exact congrArg some (List.take_of_length_le (by rw [hlen]; exact Nat.le_refl 34))

end Libp2p
