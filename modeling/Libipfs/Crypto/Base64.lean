import Libipfs.Crypto.Base32

/-!
# Base64

The encoder turns three bytes into four characters.  The decoder goes over its input twice: first
it skips line ends, and spaces before them, and counts characters and padding; then it puts the
bytes together.

* `base64Chars`                    the characters of an input;
* `base64Check`, `base64Out`       the two passes of the decoder;
* `base64Out_base64Chars`          the second one gives the input back;
* `cryptoEncodingBase64Decode_encoded`   **what was encoded is decoded**.
-/

namespace Libp2p
open CSem

/-! ## encoding -/

/-- `base64_enc_map`: letters, small letters, digits, `+` and `/` -/
def base64EncMap (i : Nat) : UInt8 :=
  if i < 26 then UInt8.ofNat (65 + i)
  else if i < 52 then UInt8.ofNat (71 + i)
  else if i < 62 then UInt8.ofNat (i - 4)
  else if i = 62 then 43
  else 47

/-- `base64_dec_map`: 64 for the `=` of the padding, 127 for what is no character -/
def base64DecMap (c : UInt8) : Nat :=
  if 65 ≤ c.toNat ∧ c.toNat ≤ 90 then c.toNat - 65
  else if 97 ≤ c.toNat ∧ c.toNat ≤ 122 then c.toNat - 71
  else if 48 ≤ c.toNat ∧ c.toNat ≤ 57 then c.toNat + 4
  else if c.toNat = 43 then 62
  else if c.toNat = 47 then 63
  else if c.toNat = 61 then 64
  else 127

/-- all the characters of an input -/
def base64Chars : List UInt8 → List UInt8
  | [] => []
  | [c1] => [base64EncMap (c1.toNat / 4), base64EncMap (c1.toNat % 4 * 16), 61, 61]
  | [c1, c2] =>
    [base64EncMap (c1.toNat / 4), base64EncMap (c1.toNat % 4 * 16 + c2.toNat / 16),
     base64EncMap (c2.toNat % 16 * 4), 61]
  | c1 :: c2 :: c3 :: src =>
    base64EncMap (c1.toNat / 4) :: base64EncMap (c1.toNat % 4 * 16 + c2.toNat / 16) ::
      base64EncMap (c2.toNat % 16 * 4 + c3.toNat / 64) :: base64EncMap (c3.toNat % 64) ::
      base64Chars src

/-- `none` when the buffer is too small; a zero byte is written behind the characters -/
def mbedtlsBase64Encode (dlen : Nat) (src : List UInt8) : Option (List UInt8) :=
  let n := src.length / 3 + if src.length % 3 ≠ 0 then 1 else 0
  if src = [] then some []
  else if (2 ^ 64 - 2) / 4 < n then none
  else if dlen < n * 4 + 1 then none
  else some (base64Chars src)

def cryptoEncodingBase64Encode (inputData : List UInt8) (maxOutputLength : Nat) :
    Option (List UInt8) := mbedtlsBase64Encode maxOutputLength inputData

def cryptoEncodingBase64EncodeSize (decodedSize : Nat) : Nat :=
  (decodedSize / 3 + if decodedSize % 3 ≠ 0 then 1 else 0) * 4 + 1

/-! ## decoding -/

/-- the first pass: whether spaces were skipped, the characters and the padding so far -/
def base64Check : List UInt8 → Bool → Nat → Nat → Option (Nat × Nat)
  | [], _, n, j => some (n, j)
  | c :: src, spaces, n, j =>
    if c = 32 then base64Check src true n j
    else if c = 13 ∧ src.head? = some 10 then base64Check src false n j
    else if c = 10 then base64Check src false n j
    else if spaces then none
    else
      let j := if c = 61 then j + 1 else j
      if 2 < j then none
      else if 127 < c.toNat ∨ base64DecMap c = 127 then none
      else if base64DecMap c < 64 ∧ j ≠ 0 then none
      else base64Check src false (n + 1) j

/-- the bytes of four characters, as many as the padding leaves -/
def base64Bytes (j x : Nat) : List UInt8 :=
  (if 0 < j then [UInt8.ofNat (x / 65536)] else []) ++
    (if 1 < j then [UInt8.ofNat (x / 256)] else []) ++
    if 2 < j then [UInt8.ofNat x] else []

/-- the second pass: `x` takes the bits, `n` of every four characters have come -/
def base64Out : List UInt8 → Nat → Nat → Nat → List UInt8
  | [], _, _, _ => []
  | c :: src, j, n, x =>
    if c = 13 ∨ c = 10 ∨ c = 32 then base64Out src j n x
    else
      let j := j - if base64DecMap c = 64 then 1 else 0
      let x := (x * 64 + base64DecMap c % 64) % 2 ^ 32
      if n + 1 = 4 then base64Bytes j x ++ base64Out src j 0 x
      else base64Out src j (n + 1) x

/-- `none` for an error -/
def mbedtlsBase64Decode (dlen : Nat) (src : List UInt8) : Exec (Option (List UInt8)) :=
  match base64Check src false 0 0 with
  | none => .ok none
  | some (n, j) =>
    if n = 0 then .ok (some [])
    else if dlen < (n * 6 + 7) / 8 - j then .ok none
    else do
      let out := base64Out src 3 0 0
      require .outOfBounds (out.length ≤ dlen)
      .ok (some out)

def cryptoEncodingBase64Decode (inputData : List UInt8) (maxOutputLength : Nat) :
    Exec (Option (List UInt8)) := mbedtlsBase64Decode maxOutputLength inputData

/-- six bits for a character, computed in floating point and rounded up -/
def cryptoEncodingBase64DecodeSize (encodedSize : Nat) : Nat := (encodedSize * 6 + 7) / 8

/-! ## characters -/

section
variable {v : Nat} {src : List UInt8} {n j x : Nat}

theorem base64DecMap_base64EncMap (h : v < 64) : base64DecMap (base64EncMap v) = v := by
  have hall : ∀ v < 64, base64DecMap (base64EncMap v) = v := by decide
  exact hall v h

/-- a character is no space, no line end, no padding, and no quote and no backslash either -/
theorem base64EncMap_plain (v : Nat) :
    43 ≤ base64EncMap v ∧ base64EncMap v ≤ 122 ∧ base64EncMap v ≠ 61 ∧ base64EncMap v ≠ 92 := by
  have hall : ∀ v < 64, 43 ≤ base64EncMap v ∧ base64EncMap v ≤ 122 ∧ base64EncMap v ≠ 61 ∧
      base64EncMap v ≠ 92 := by decide
  by_cases h : v < 64
  · exact hall v h
  · have hlast : base64EncMap v = 47 := by
      unfold base64EncMap
      rw [if_neg (by omega), if_neg (by omega), if_neg (by omega), if_neg (by omega)]
    rw [hlast]
    decide

theorem base64EncMap_ne {c : UInt8} (hc : c < 43) (v : Nat) : base64EncMap v ≠ c :=
  fun h => absurd ((base64EncMap_plain v).1) (by rw [h]; exact UInt8.not_le.2 hc)

/-- a character is counted -/
theorem base64Check_char (h : v < 64) :
    base64Check (base64EncMap v :: src) false n 0 = base64Check src false (n + 1) 0 := by
  have hplain := base64EncMap_plain v
  have hle : ¬ (127 < (base64EncMap v).toNat ∨ base64DecMap (base64EncMap v) = 127) := by
    have h122 : (base64EncMap v).toNat ≤ 122 := UInt8.le_iff_toNat_le.1 hplain.2.1
    rw [base64DecMap_base64EncMap h]
    omega
  rw [base64Check, if_neg (base64EncMap_ne (by decide) v),
    if_neg fun hcr => base64EncMap_ne (by decide) v hcr.1, if_neg (base64EncMap_ne (by decide) v),
    if_neg Bool.false_ne_true]
  dsimp only
  rw [if_neg hplain.2.2.1, if_neg (by omega), if_neg hle, if_neg (by omega)]

/-- a character gives six bits -/
theorem base64Out_char (h : v < 64) :
    base64Out (base64EncMap v :: src) j n x =
      if n + 1 = 4 then base64Bytes j ((x * 64 + v) % 2 ^ 32) ++
        base64Out src j 0 ((x * 64 + v) % 2 ^ 32)
      else base64Out src j (n + 1) ((x * 64 + v) % 2 ^ 32) := by
  have hskip : ¬ (base64EncMap v = 13 ∨ base64EncMap v = 10 ∨ base64EncMap v = 32) := by
    rintro (h | h | h)
    · exact base64EncMap_ne (by decide) v h
    · exact base64EncMap_ne (by decide) v h
    · exact base64EncMap_ne (by decide) v h
  have hmod : base64DecMap (base64EncMap v) % 64 = v := by
    rw [base64DecMap_base64EncMap h, Nat.mod_eq_of_lt h]
  have hpad : base64DecMap (base64EncMap v) ≠ 64 := by
    rw [base64DecMap_base64EncMap h]
    omega
  rw [base64Out, if_neg hskip]
  dsimp only
  rw [if_neg hpad, hmod, Nat.sub_zero]

/-- so does the padding, all of them zero -/
theorem base64Out_pad :
    base64Out (61 :: src) j n x =
      if n + 1 = 4 then base64Bytes (j - 1) (x * 64 % 2 ^ 32) ++
        base64Out src (j - 1) 0 (x * 64 % 2 ^ 32)
      else base64Out src (j - 1) (n + 1) (x * 64 % 2 ^ 32) := rfl

/-! ## round trip -/

theorem length_base64Chars (src : List UInt8) : (base64Chars src).length =
    (src.length / 3 + if src.length % 3 ≠ 0 then 1 else 0) * 4 := by
  induction src using base64Chars.induct with
  | case1 => rfl
  | case2 c1 =>
    show 4 = (1 / 3 + if 1 % 3 ≠ 0 then 1 else 0) * 4
    rfl
  | case3 c1 c2 =>
    show 4 = (2 / 3 + if 2 % 3 ≠ 0 then 1 else 0) * 4
    rfl
  | case4 c1 c2 c3 src ih =>
    have hdiv : (src.length + 3) / 3 = src.length / 3 + 1 := by omega
    have hmod : (src.length + 3) % 3 = src.length % 3 := by omega
    show (base64Chars src).length + 4 = ((src.length + 3) / 3 + _) * 4
    rw [ih, List.length_cons, List.length_cons, List.length_cons, hdiv, hmod]
    omega

/-- how much of the last group is padding -/
def padding (len : Nat) : Nat := (3 - len % 3) % 3

theorem base64Check_base64Chars (src : List UInt8) (n : Nat) :
    base64Check (base64Chars src) false n 0 =
      some (n + (base64Chars src).length, padding src.length) := by
  induction src using base64Chars.induct generalizing n with
  | case1 => rfl
  | case2 c1 =>
    have h1 := c1.toNat_lt
    unfold base64Chars
    rw [base64Check_char (by omega), base64Check_char (by omega)]
    rfl
  | case3 c1 c2 =>
    have h1 := c1.toNat_lt
    have h2 := c2.toNat_lt
    unfold base64Chars
    rw [base64Check_char (by omega), base64Check_char (by omega), base64Check_char (by omega)]
    rfl
  | case4 c1 c2 c3 src ih =>
    have h1 := c1.toNat_lt
    have h2 := c2.toNat_lt
    have h3 := c3.toNat_lt
    have hpad : padding (src.length + 3) = padding src.length := by
      unfold padding
      omega
    unfold base64Chars
    rw [base64Check_char (by omega), base64Check_char (by omega), base64Check_char (by omega),
      base64Check_char (by omega), ih]
    show some (_, _) = some (n + ((base64Chars src).length + 4), padding (src.length + 3))
    rw [hpad]
    congr 2
    omega

theorem base64Out_base64Chars (src : List UInt8) (x : Nat) :
    base64Out (base64Chars src) 3 0 x = src := by
  induction src using base64Chars.induct generalizing x with
  | case1 => rfl
  | case2 c1 =>
    have h1 := c1.toNat_lt
    unfold base64Chars
    rw [base64Out_char (by omega), if_neg (by omega), base64Out_char (by omega), if_neg (by omega),
      base64Out_pad, if_neg (by omega), base64Out_pad, if_pos (by omega)]
    show [UInt8.ofNat _] = [c1]
    rw [@ofNat_eq_of_mod _ c1 (by omega)]
  | case3 c1 c2 =>
    have h1 := c1.toNat_lt
    have h2 := c2.toNat_lt
    unfold base64Chars
    rw [base64Out_char (by omega), if_neg (by omega), base64Out_char (by omega), if_neg (by omega),
      base64Out_char (by omega), if_neg (by omega), base64Out_pad, if_pos (by omega)]
    show [UInt8.ofNat _, UInt8.ofNat _] = [c1, c2]
    rw [@ofNat_eq_of_mod _ c1 (by omega), @ofNat_eq_of_mod _ c2 (by omega)]
  | case4 c1 c2 c3 src ih =>
    have h1 := c1.toNat_lt
    have h2 := c2.toNat_lt
    have h3 := c3.toNat_lt
    unfold base64Chars
    rw [base64Out_char (by omega), if_neg (by omega), base64Out_char (by omega), if_neg (by omega),
      base64Out_char (by omega), if_neg (by omega), base64Out_char (by omega), if_pos (by omega),
      ih]
    show UInt8.ofNat _ :: UInt8.ofNat _ :: UInt8.ofNat _ :: src = c1 :: c2 :: c3 :: src
    rw [@ofNat_eq_of_mod _ c1 (by omega), @ofNat_eq_of_mod _ c2 (by omega),
      @ofNat_eq_of_mod _ c3 (by omega)]

end

/-- **what was encoded is decoded** -/
theorem cryptoEncodingBase64Decode_encoded {src : List UInt8} (hne : src ≠ []) :
    cryptoEncodingBase64Decode (base64Chars src)
      (cryptoEncodingBase64DecodeSize (base64Chars src).length) = .ok (some src) := by
  have hpos : 0 < src.length := List.length_pos_iff.2 hne
  have hlen := length_base64Chars src
  have hmod : src.length % 3 = 0 ∨ src.length % 3 ≠ 0 := eq_or_ne _ _
  have hwhole : src.length ≤ cryptoEncodingBase64DecodeSize (base64Chars src).length := by
    unfold cryptoEncodingBase64DecodeSize
    split at hlen <;> omega
  have hnot : (base64Chars src).length ≠ 0 := by
    split at hlen <;> omega
  unfold cryptoEncodingBase64Decode mbedtlsBase64Decode
  rw [base64Check_base64Chars, Nat.zero_add]
  dsimp only
  rw [if_neg hnot, if_neg (by unfold cryptoEncodingBase64DecodeSize; omega),
    base64Out_base64Chars, require_pos hwhole, ok_bind]

end Libp2p
