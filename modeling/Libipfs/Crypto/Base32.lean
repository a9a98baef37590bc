import Libipfs.Protobuf.Wire
import Mathlib.Data.List.TakeDrop
import Mathlib.Data.List.TakeWhile

/-!
# Base32

The encoder turns each group of five bytes into eight characters and writes as many of them as
the buffer takes; the decoder takes groups of eight characters and nothing else.  The size that
`cryptoEncodingBase32EncodeSize` computes is too small for every input.

* `base32Decode_base32Chars`   the characters of a whole input are decoded to it;
* `base32Decode_take`          what a truncated encoding is decoded to;
* `cryptoEncodingBase32Encode_eq`   the public encoder gives the characters that fit.
-/

namespace Libp2p
open CSem

/-! ## encoding -/

/-- `b32str`: the letters, then the digits from 2 to 7 -/
def b32str (i : Nat) : UInt8 := if i < 26 then UInt8.ofNat (65 + i) else UInt8.ofNat (24 + i)

/-- the `=` of the padding -/
def base32Pad : UInt8 := 61

/-- one pass of the loop: what is behind the end of the input counts as zero -/
def base32Group (input : List UInt8) : List UInt8 :=
  let byte (k : Nat) : Nat := (input.getD k 0).toNat
  let char (k v : Nat) : UInt8 := if k < input.length then b32str (v % 32) else base32Pad
  [char 0 (byte 0 / 8),
   char 0 (byte 0 * 4 + byte 1 / 64),
   char 1 (byte 1 / 2),
   char 1 (byte 1 * 16 + byte 2 / 16),
   char 2 (byte 2 * 2 + byte 3 / 128),
   char 3 (byte 3 / 4),
   char 3 (byte 3 * 8 + byte 4 / 32),
   char 4 (byte 4)]

/-- all the characters of an input -/
def base32Chars : List UInt8 → List UInt8
  | [] => []
  | a :: b :: c :: d :: e :: rest => base32Group [a, b, c, d, e] ++ base32Chars rest
  | input => base32Group input

/-- `BASE32_LENGTH` -/
def base32Length (n : Nat) : Nat := (n + 4) / 5 * 8

/-- the buffer: it is cleared, and then takes as many characters as it has room for -/
def base32Encode (input : List UInt8) (room : Nat) : List UInt8 :=
  let chars := (base32Chars input).take room
  chars ++ List.replicate (room - chars.length) 0

/-- the length is the buffer's when its last byte is a character -/
def cryptoEncodingBase32Encode (incoming : List UInt8) (room : Nat) : Exec (List UInt8) := do
  -- `results[*results_length - 1]`
  require .outOfBounds (0 < room)
  let results := base32Encode incoming room
  .ok (if results.getLast? = some 0 then cString results else results)

/-- in `size_t`, where an input of less than five bytes wraps around -/
def cryptoEncodingBase32EncodeSize (n : Nat) : Nat :=
  ((n + (2 ^ 64 - 5)) % 2 ^ 64 / 5 * 8 + 1) % 2 ^ 64

/-! ## decoding -/

/-- the table `b32`, `none` for -1 -/
def b32 (c : UInt8) : Option Nat :=
  if 65 ≤ c.toNat ∧ c.toNat ≤ 90 then some (c.toNat - 65)
  else if 50 ≤ c.toNat ∧ c.toNat ≤ 55 then some (c.toNat - 24)
  else none

/-- the bits that are put together do not overlap, so that `|` is a sum; the padding may start at
the third, the fifth, the sixth or the eighth character -/
def decode8 (c0 c1 c2 c3 c4 c5 c6 c7 : UInt8) : Option (List UInt8) := do
  let v0 ← b32 c0
  let v1 ← b32 c1
  let out0 := UInt8.ofNat (v0 * 8 + v1 / 4)
  if c2 = base32Pad then
    if c3 = base32Pad ∧ c4 = base32Pad ∧ c5 = base32Pad ∧ c6 = base32Pad ∧ c7 = base32Pad then
      return [out0]
    else none
  else
    let v2 ← b32 c2
    let v3 ← b32 c3
    let out1 := UInt8.ofNat (v1 * 64 + v2 * 2 + v3 / 16)
    if c4 = base32Pad then
      if c5 = base32Pad ∧ c6 = base32Pad ∧ c7 = base32Pad then return [out0, out1] else none
    else
      let v4 ← b32 c4
      let out2 := UInt8.ofNat (v3 * 16 + v4 / 2)
      if c5 = base32Pad then
        if c6 = base32Pad ∧ c7 = base32Pad then return [out0, out1, out2] else none
      else
        let v5 ← b32 c5
        let v6 ← b32 c6
        let out3 := UInt8.ofNat (v4 * 128 + v5 * 4 + v6 / 8)
        if c7 = base32Pad then return [out0, out1, out2, out3]
        else
          let v7 ← b32 c7
          let out4 := UInt8.ofNat (v6 * 32 + v7)
          return [out0, out1, out2, out3, out4]

/-- without a context the input is one unit: it fails at the first group that fails, the last one
included when it is too short -/
def base32Decode : List UInt8 → Option (List UInt8)
  | [] => some []
  | c0 :: c1 :: c2 :: c3 :: c4 :: c5 :: c6 :: c7 :: rest => do
    let out ← decode8 c0 c1 c2 c3 c4 c5 c6 c7
    let more ← base32Decode rest
    return out ++ more
  | _ => none

/-- as many bytes as there is room for -/
def cryptoEncodingBase32Decode (incoming : List UInt8) (room : Nat) : Option (List UInt8) :=
  (base32Decode incoming).map fun out => out.take room

def cryptoEncodingBase32DecodeSize (n : Nat) : Nat := 5 * (n / 8) + 5

/-! ## characters -/

theorem b32_b32str {i : Nat} (h : i < 32) : b32 (b32str i) = some i := by
  have : ∀ i < 32, b32 (b32str i) = some i := by decide
  exact this i h

theorem b32str_ne_pad {i : Nat} (h : i < 32) : b32str i ≠ base32Pad := by
  have : ∀ i < 32, b32str i ≠ base32Pad := by decide
  exact this i h

theorem b32str_ne_zero {i : Nat} (h : i < 32) : b32str i ≠ 0 := by
  have : ∀ i < 32, b32str i ≠ 0 := by decide
  exact this i h

theorem b32str_inj {i j : Nat} (hi : i < 32) (hj : j < 32) (h : b32str i = b32str j) : i = j := by
  have e := congrArg b32 h
  rw [b32_b32str hi, b32_b32str hj] at e
  exact Option.some.inj e

/-! ## groups -/

theorem base32Group_length (input : List UInt8) : (base32Group input).length = 8 := rfl

theorem base32Group_ne_zero (input : List UInt8) : ∀ c ∈ base32Group input, c ≠ 0 := by
  intro c hc
  have hchar : ∀ k v, (if k < input.length then b32str (v % 32) else base32Pad) ≠ 0 := by
    intro k v
    split
    · exact b32str_ne_zero (Nat.mod_lt _ (by norm_num))
    · decide
  simp only [base32Group, List.mem_cons, List.not_mem_nil, or_false] at hc
  rcases hc with rfl | rfl | rfl | rfl | rfl | rfl | rfl | rfl <;> exact hchar _ _

/-! ### putting bytes together again -/

theorem ofNat_eq_of_mod {n : Nat} {a : UInt8} (h : n % 256 = a.toNat) :
    UInt8.ofNat n = a := by
  apply UInt8.toNat_inj.1
  rw [UInt8.toNat_ofNat']
  exact h

section
variable (a b c d e : UInt8)

private theorem byte0 :
    UInt8.ofNat (a.toNat / 8 % 32 * 8 + (a.toNat * 4 + b.toNat / 64) % 32 / 4) = a := by
  apply ofNat_eq_of_mod
  have ha := a.toNat_lt
  have hb := b.toNat_lt
  omega

private theorem byte1 :
    UInt8.ofNat ((a.toNat * 4 + b.toNat / 64) % 32 * 64 + b.toNat / 2 % 32 * 2 +
      (b.toNat * 16 + c.toNat / 16) % 32 / 16) = b := by
  apply ofNat_eq_of_mod
  have ha := a.toNat_lt
  have hb := b.toNat_lt
  have hc := c.toNat_lt
  omega

private theorem byte2 :
    UInt8.ofNat ((b.toNat * 16 + c.toNat / 16) % 32 * 16 +
      (c.toNat * 2 + d.toNat / 128) % 32 / 2) = c := by
  apply ofNat_eq_of_mod
  have hb := b.toNat_lt
  have hc := c.toNat_lt
  have hd := d.toNat_lt
  omega

private theorem byte3 :
    UInt8.ofNat ((c.toNat * 2 + d.toNat / 128) % 32 * 128 + d.toNat / 4 % 32 * 4 +
      (d.toNat * 8 + e.toNat / 32) % 32 / 8) = d := by
  apply ofNat_eq_of_mod
  have hc := c.toNat_lt
  have hd := d.toNat_lt
  have he := e.toNat_lt
  omega

private theorem byte4 :
    UInt8.ofNat ((d.toNat * 8 + e.toNat / 32) % 32 * 32 + e.toNat % 32) = e := by
  apply ofNat_eq_of_mod
  have hd := d.toNat_lt
  have he := e.toNat_lt
  omega

end

theorem base32Decode_cons (c0 c1 c2 c3 c4 c5 c6 c7 : UInt8) (rest : List UInt8) :
    base32Decode (c0 :: c1 :: c2 :: c3 :: c4 :: c5 :: c6 :: c7 :: rest) =
      (decode8 c0 c1 c2 c3 c4 c5 c6 c7).bind fun out => (base32Decode rest).map (out ++ ·) := by
  show (decode8 c0 c1 c2 c3 c4 c5 c6 c7).bind _ = _
  congr 1
  funext out
  cases base32Decode rest <;> rfl

/-- the characters of a group, as the decoder takes them apart -/
def decodeGroup (group : List UInt8) : Option (List UInt8) :=
  match group with
  | [c0, c1, c2, c3, c4, c5, c6, c7] => decode8 c0 c1 c2 c3 c4 c5 c6 c7
  | _ => none

/-- a group is decoded to itself: how many bytes there are decides where the padding starts -/
theorem decodeGroup_base32Group {input : List UInt8} (h0 : input ≠ []) (h5 : input.length ≤ 5) :
    decodeGroup (base32Group input) = some input := by
  have hmod : ∀ n : Nat, n % 32 < 32 := fun n => Nat.mod_lt _ (by norm_num)
  have hv : ∀ n : Nat, b32 (b32str (n % 32)) = some (n % 32) := fun n => b32_b32str (hmod n)
  have hp : ∀ n : Nat, b32str (n % 32) ≠ base32Pad := fun n => b32str_ne_pad (hmod n)
  match input, h0, h5 with
  | [a], _, _ =>
    show decode8 (b32str (a.toNat / 8 % 32)) (b32str ((a.toNat * 4 + (0 : UInt8).toNat / 64) % 32))
      base32Pad base32Pad base32Pad base32Pad base32Pad base32Pad = _
    simp only [decode8, hv, Option.bind_eq_bind, Option.bind_some, and_self, if_true, byte0]
    rfl
  | [a, b], _, _ =>
    show decode8 (b32str (a.toNat / 8 % 32)) (b32str ((a.toNat * 4 + b.toNat / 64) % 32))
      (b32str (b.toNat / 2 % 32)) (b32str ((b.toNat * 16 + (0 : UInt8).toNat / 16) % 32))
      base32Pad base32Pad base32Pad base32Pad = _
    simp only [decode8, hv, hp, Option.bind_eq_bind, Option.bind_some, and_self, if_true, if_false,
      byte0, byte1]
    rfl
  | [a, b, c], _, _ =>
    show decode8 (b32str (a.toNat / 8 % 32)) (b32str ((a.toNat * 4 + b.toNat / 64) % 32))
      (b32str (b.toNat / 2 % 32)) (b32str ((b.toNat * 16 + c.toNat / 16) % 32))
      (b32str ((c.toNat * 2 + (0 : UInt8).toNat / 128) % 32)) base32Pad base32Pad base32Pad = _
    simp only [decode8, hv, hp, Option.bind_eq_bind, Option.bind_some, and_self, if_true, if_false,
      byte0, byte1, byte2]
    rfl
  | [a, b, c, d], _, _ =>
    show decode8 (b32str (a.toNat / 8 % 32)) (b32str ((a.toNat * 4 + b.toNat / 64) % 32))
      (b32str (b.toNat / 2 % 32)) (b32str ((b.toNat * 16 + c.toNat / 16) % 32))
      (b32str ((c.toNat * 2 + d.toNat / 128) % 32)) (b32str (d.toNat / 4 % 32))
      (b32str ((d.toNat * 8 + (0 : UInt8).toNat / 32) % 32)) base32Pad = _
    simp only [decode8, hv, hp, Option.bind_eq_bind, Option.bind_some, if_true, if_false, byte0,
      byte1, byte2, byte3]
    rfl
  | [a, b, c, d, e], _, _ =>
    show decode8 (b32str (a.toNat / 8 % 32)) (b32str ((a.toNat * 4 + b.toNat / 64) % 32))
      (b32str (b.toNat / 2 % 32)) (b32str ((b.toNat * 16 + c.toNat / 16) % 32))
      (b32str ((c.toNat * 2 + d.toNat / 128) % 32)) (b32str (d.toNat / 4 % 32))
      (b32str ((d.toNat * 8 + e.toNat / 32) % 32)) (b32str (e.toNat % 32)) = _
    simp only [decode8, hv, hp, Option.bind_eq_bind, Option.bind_some, if_false, byte0, byte1,
      byte2, byte3, byte4]
    rfl

theorem base32Decode_group {input : List UInt8} (h0 : input ≠ []) (h5 : input.length ≤ 5)
    (rest : List UInt8) :
    base32Decode (base32Group input ++ rest) = (base32Decode rest).map (input ++ ·) := by
  have h := decodeGroup_base32Group h0 h5
  show base32Decode (_ :: _ :: _ :: _ :: _ :: _ :: _ :: _ :: rest) = _
  rw [base32Decode_cons]
  show (decodeGroup (base32Group input)).bind _ = _
  rw [h]
  rfl

/-! ## whole inputs -/

/-- the last group of an input -/
theorem base32Chars_short {input : List UInt8} (h0 : input ≠ []) (h5 : input.length < 5) :
    base32Chars input = base32Group input := by
  match input, h0, h5 with
  | [a], _, _ => rfl
  | [a, b], _, _ => rfl
  | [a, b, c], _, _ => rfl
  | [a, b, c, d], _, _ => rfl

theorem base32Chars_group {input rest : List UInt8} (h5 : input.length = 5) :
    base32Chars (input ++ rest) = base32Group input ++ base32Chars rest := by
  match input, h5 with
  | [a, b, c, d, e], _ => rfl

/-- an input is empty, one short group, or a group of five bytes and more -/
theorem groups_induction {motive : List UInt8 → Prop} (nil : motive [])
    (short : ∀ input, input ≠ [] → input.length < 5 → motive input)
    (group : ∀ input rest, input.length = 5 → motive rest → motive (input ++ rest))
    (input : List UInt8) : motive input := by
  induction input using base32Chars.induct with
  | case1 => exact nil
  | case2 a b c d e rest ih => exact group [a, b, c, d, e] rest rfl ih
  | case3 input h0 h5 =>
    refine short input h0 ?_
    match input, h5 with
    | [], _ => simp
    | [a], _ => simp
    | [a, b], _ => simp
    | [a, b, c], _ => simp
    | [a, b, c, d], _ => simp
    | a :: b :: c :: d :: e :: rest, h5 => exact absurd rfl (h5 a b c d e rest)

/-- **the characters of a whole input are decoded to it** -/
theorem base32Decode_base32Chars (input : List UInt8) :
    base32Decode (base32Chars input) = some input := by
  induction input using groups_induction with
  | nil => rfl
  | short input h0 h5 =>
    have h := base32Decode_group h0 (Nat.le_of_lt h5) []
    rw [List.append_nil] at h
    rw [base32Chars_short h0 h5, h]
    exact congrArg some (List.append_nil input)
  | group input rest h5 ih =>
    have h0 : input ≠ [] := fun e => by
      rw [e] at h5
      cases h5
    rw [base32Chars_group h5, base32Decode_group h0 (Nat.le_of_eq h5), ih]
    rfl

theorem base32Chars_inj {a b : List UInt8} (h : base32Chars a = base32Chars b) : a = b := by
  have e := congrArg base32Decode h
  rw [base32Decode_base32Chars, base32Decode_base32Chars] at e
  exact Option.some.inj e

theorem base32Chars_length (input : List UInt8) :
    (base32Chars input).length = base32Length input.length := by
  induction input using groups_induction with
  | nil => rfl
  | short input h0 h5 =>
    have hpos := List.length_pos_iff.2 h0
    rw [base32Chars_short h0 h5, base32Group_length, base32Length]
    omega
  | group input rest h5 ih =>
    rw [base32Chars_group h5, List.length_append, List.length_append, base32Group_length, ih, h5,
      base32Length, base32Length]
    omega

theorem base32Chars_ne_zero (input : List UInt8) : ∀ c ∈ base32Chars input, c ≠ 0 := by
  induction input using groups_induction with
  | nil => exact fun c hc => by cases hc
  | short input h0 h5 =>
    rw [base32Chars_short h0 h5]
    exact base32Group_ne_zero input
  | group input rest h5 ih =>
    rw [base32Chars_group h5]
    intro c hc
    rcases List.mem_append.1 hc with hc | hc
    · exact base32Group_ne_zero input c hc
    · exact ih c hc

/-- whole groups in front -/
theorem base32Chars_append {a : List UInt8} (h : a.length % 5 = 0) (b : List UInt8) :
    base32Chars (a ++ b) = base32Chars a ++ base32Chars b := by
  induction a using groups_induction with
  | nil => rfl
  | short input h0 h5 =>
    have hpos := List.length_pos_iff.2 h0
    omega
  | group input rest h5 ih =>
    rw [List.length_append, h5] at h
    rw [List.append_assoc, base32Chars_group h5, base32Chars_group h5, ih (by omega),
      List.append_assoc]

/-- the characters of the first groups -/
theorem base32Chars_take {k : Nat} {input : List UInt8} (h : 5 * k ≤ input.length) :
    (base32Chars input).take (8 * k) = base32Chars (input.take (5 * k)) := by
  have hlen : (input.take (5 * k)).length = 5 * k := by
    rw [List.length_take]
    omega
  have hchars : (base32Chars (input.take (5 * k))).length = 8 * k := by
    rw [base32Chars_length, hlen, base32Length]
    omega
  have happ := base32Chars_append (by omega : (input.take (5 * k)).length % 5 = 0)
    (input.drop (5 * k))
  rw [List.take_append_drop] at happ
  rw [happ, List.take_append_of_le_length (Nat.le_of_eq hchars.symm), ← hchars, List.take_length]

/-- the decoder takes groups of eight -/
theorem base32Decode_length {input out : List UInt8} (h : base32Decode input = some out) :
    input.length % 8 = 0 := by
  induction input using base32Decode.induct generalizing out with
  | case1 => rfl
  | case2 c0 c1 c2 c3 c4 c5 c6 c7 rest ih =>
    rw [base32Decode_cons] at h
    obtain ⟨group, -, h⟩ := Option.bind_eq_some_iff.1 h
    obtain ⟨more, hmore, -⟩ := Option.map_eq_some_iff.1 h
    have := ih hmore
    simp only [List.length_cons]
    omega
  | case3 input h0 h8 =>
    rw [base32Decode] at h
    · cases h
    · exact h0
    · exact h8

/-- **what a truncated encoding is decoded to**: nothing, or less than the input -/
theorem base32Decode_take {input out : List UInt8} {room : Nat}
    (hroom : room < base32Length input.length)
    (h : base32Decode ((base32Chars input).take room) = some out) :
    out.length < input.length := by
  have hmod := base32Decode_length h
  have hlen := base32Chars_length input
  rw [List.length_take, hlen, Nat.min_eq_left (Nat.le_of_lt hroom)] at hmod
  unfold base32Length at hroom
  obtain ⟨k, rfl⟩ : ∃ k, room = 8 * k := ⟨room / 8, by omega⟩
  rw [base32Chars_take (by omega), base32Decode_base32Chars] at h
  cases h
  rw [List.length_take]
  omega

/-! ## the public encoder -/

/-- **the public encoder** gives the characters that fit -/
theorem cryptoEncodingBase32Encode_eq {incoming : List UInt8} {room : Nat} (h : 0 < room) :
    cryptoEncodingBase32Encode incoming room = .ok ((base32Chars incoming).take room) := by
  have hne : ∀ c ∈ (base32Chars incoming).take room, c ≠ 0 := fun c hc =>
    base32Chars_ne_zero incoming c (List.mem_of_mem_take hc)
  have hcut : cString ((base32Chars incoming).take room) = (base32Chars incoming).take room :=
    List.takeWhile_eq_self_iff.2 fun c hc => by simpa using hne c hc
  unfold cryptoEncodingBase32Encode
  rw [require_pos h, ok_bind]
  refine congrArg Except.ok ?_
  by_cases hfull : ((base32Chars incoming).take room).length = room
  · -- the buffer is full of characters
    have hbuf : base32Encode incoming room = (base32Chars incoming).take room := by
      simp only [base32Encode, hfull, Nat.sub_self, List.replicate_zero, List.append_nil]
    rw [hbuf]
    split
    · exact hcut
    · rfl
  · have hle : ((base32Chars incoming).take room).length ≤ room := List.length_take_le _ _
    obtain ⟨k, hk⟩ : ∃ k, room - ((base32Chars incoming).take room).length = k + 1 :=
      ⟨room - ((base32Chars incoming).take room).length - 1, by omega⟩
    have hbuf : base32Encode incoming room =
        (base32Chars incoming).take room ++ List.replicate (k + 1) 0 := by
      rw [← hk]
      rfl
    have hlast : (base32Encode incoming room).getLast? = some 0 := by
      rw [hbuf, List.replicate_succ', ← List.append_assoc, List.getLast?_concat]
    rw [if_pos hlast, hbuf]
    unfold cString
    rw [List.takeWhile_append_of_pos fun c hc => by simpa using hne c hc]
    simp

end Libp2p
