import Libipfs.Crypto.Base16
import Libipfs.Protobuf.Wire
import Mathlib.Data.Nat.Digits.Lemmas

/-!
# Multibase

The text of some bytes with the sign of its base in front, in base 58 or base 16.  The text is
written at the beginning of the buffer and then copied one place further, over itself.

* `multibaseEncode`, `multibaseDecode`   with `multibaseEncodeSize` and `multibaseDecodeSize` for
                          the buffers;
* `base58Text`, `EncodesRight`   the text an encoder of base 58 should write;
* `MultibaseLaw`          what is encoded is decoded, with buffers of the sizes computed for them;
* `MultibaseFits`         when it is;
* `multibaseLaw_base16`   **base 16 has no room for its sign**;
* `multibaseLaw_base58`   **base 58 is written at the end of the buffer**;
* `multibaseLaw_never`    with the encoder as it is, nothing goes there and back;
* `multibase_iff`         both.
-/

namespace Libp2p
open CSem

/-! ## base 58 in a buffer -/

/-- `ceil(8 / log2(58) * decoded_size)` -/
def cryptoEncodingBase58EncodeSize (decodedSize : Nat) : Nat := Nat.clog 58 (256 ^ decodedSize)

/-- line by line what is in `multiaddr/base58.c`: the buffer, and the length -/
def cryptoEncodingBase58DecodeInto (b58 : List UInt8) (binsz : Nat) :
    Exec (Option (List UInt8 × Nat)) :=
  multiaddrEncodingBase58Decode b58 binsz

/-- the digits without zeros in front, the highest one first -/
def textDigits (v : Nat) : List Nat := (Nat.digits 58 v).reverse

/-- a `1` for each zero in front, and the digits of the number -/
def base58Text (data : List UInt8) : List UInt8 :=
  List.replicate (data.takeWhile fun b => b = 0).length 49 ++
    (textDigits (bytesValue data)).map base58Char

/-- where it returns, it has written this text if there is room for it and a zero behind it -/
def EncodesRight (encode58 : List UInt8 → Nat → Exec (Option (List UInt8))) : Prop :=
  ∀ data room out, encode58 data room = .ok out →
    out = if room ≤ (base58Text data).length then none else some (base58Text data)

end Libp2p

namespace Ipfs
open CSem Libp2p

/-! ## multibase -/

/-- `'z'` -/
def multibaseBase58Btc : UInt8 := 122

/-- `'f'` -/
def multibaseBase16 : UInt8 := 102

/-- in a C `int` -/
def multibaseEncodeSize (base : UInt8) (incomingLength : Nat) : Int :=
  if base = multibaseBase58Btc then
    toInt32 (cryptoEncodingBase58EncodeSize incomingLength + 1 : Nat)
  else if base = multibaseBase16 then cryptoEncodingBase16EncodeSize incomingLength
  else 0

def multibaseDecodeSize (base : UInt8) (incomingLength : Nat) : Int :=
  if base = multibaseBase58Btc then
    toInt32 (cryptoEncodingBase58DecodeSize incomingLength + 1 : Nat)
  else if base = multibaseBase16 then cryptoEncodingBase16DecodeSize incomingLength
  else 0

section
-- `moves`: the `memcpy` at hand moves what overlaps, which C does not promise
variable (encode58 : List UInt8 → Nat → Exec (Option (List UInt8))) (moves : Bool)

/-- the buffer, and the length of what is in it -/
def multibaseEncode58 (incoming : List UInt8) (results : Region) :
    Exec (Option (Region × Nat)) := do
  match ← encode58 incoming results.length with
  | none => .ok none
  | some text => do
    let results ← results.store 0 (text ++ [0])
    .ok (some (results, text.length + 1))

/-- `none` when the function returns 0 -/
def multibaseEncode (base : UInt8) (incoming : List UInt8) (results : Region) :
    Exec (Option (Region × Nat)) := do
  let encoded ←
    (if base = multibaseBase58Btc then multibaseEncode58 encode58 incoming results
    else if base = multibaseBase16 then cryptoEncodingBase16Encode incoming results
    else .ok none)
  match encoded with
  | none => .ok none
  | some (encoded, resultsLength) =>
    if results.length ≤ resultsLength then .ok none
    else do
      -- from the beginning of the buffer to the place behind it
      require .outOfBounds (moves = true ∨ resultsLength ≤ 1)
      let moved ← encoded.store 1 (encoded.take resultsLength)
      let results ← moved.store 0 [base]
      .ok (some (results, resultsLength + 1))

/-- `none` when the function returns 0; in base 16 the length stays that of the buffer -/
def multibaseDecode (incoming : Region) (incomingLength : Nat) (results : Region) :
    Exec (Option (Region × Nat)) := do
  match incoming with
  | [] => .error .outOfBounds
  | base :: incoming =>
    if base = multibaseBase58Btc then do
      require .outOfBounds (0 ∈ incoming)
      match ← cryptoEncodingBase58DecodeInto (cString incoming) results.length with
      | none => .ok none
      | some (bin, resultsLength) => do
        let results ← results.store 0 bin
        .ok (some (results, resultsLength))
    else if base = multibaseBase16 then do
      let incomingLength := toUInt64 (incomingLength - 1)
      match ← cryptoEncodingBase16Decode incoming incomingLength results with
      | none => .ok none
      | some results => .ok (some (results, results.length))
    else .ok none

/-- what is encoded into a buffer of the size computed for it is decoded into one of the size
computed for that, with its length -/
def MultibaseLaw (base : UInt8) (data : List UInt8) : Prop :=
  ∃ buffer text textLength out decoded,
    Region.malloc (toUInt64 (multibaseEncodeSize base data.length)) = some buffer ∧
    multibaseEncode encode58 moves base data buffer = .ok (some (text, textLength)) ∧
    Region.malloc (toUInt64 (multibaseDecodeSize base textLength)) = some out ∧
    multibaseDecode text textLength out = .ok (some (decoded, data.length)) ∧
    data <+: decoded

end

/-! ## base 16 -/

section
variable {encode58 : List UInt8 → Nat → Exec (Option (List UInt8))} {moves : Bool}
variable {base : UInt8} {data : List UInt8} {results : Region}

/-- a size that `malloc` hands out is none that came out negative -/
theorem toUInt64_toInt32_le {n : Nat} (h : toUInt64 (toInt32 n) ≤ ptrdiffMax) :
    toUInt64 (toInt32 n) ≤ n := by
  have hle := toInt32_le_natCast n
  have hbounds := toInt32_bounds n
  unfold ptrdiffMax at h
  unfold toUInt64 at *
  omega

/-- a size that is an `unsigned int` comes out as itself -/
theorem toUInt64_toInt32_eq {n : Nat} (hn : n < 2 ^ 32) (h : toUInt64 (toInt32 n) ≤ ptrdiffMax) :
    toUInt64 (toInt32 n) = n := by
  by_cases hint : n < 2 ^ 31
  · rw [toInt32_natCast_of_lt hint, toUInt64_natCast_of_lt (by omega)]
  · have hneg := toInt32_natCast_neg (Nat.not_lt.1 hint) hn
    have hbounds := toInt32_bounds n
    unfold toUInt64 ptrdiffMax at h
    omega

theorem toUInt64_toInt32_lt {z : Int} (h : toUInt64 (toInt32 z) ≤ ptrdiffMax) :
    toUInt64 (toInt32 z) < 2 ^ 31 := by
  have hbounds := toInt32_bounds z
  unfold toUInt64 ptrdiffMax at *
  omega

theorem base58_ne_base16 : multibaseBase16 ≠ multibaseBase58Btc := by decide

/-- **base 16 has no room for its sign** -/
theorem multibaseLaw_base16 (encode58 : List UInt8 → Nat → Exec (Option (List UInt8)))
    (moves : Bool) (data : List UInt8) : ¬ MultibaseLaw encode58 moves multibaseBase16 data := by
  rintro ⟨buffer, text, textLength, out, decoded, hmalloc, hencode, -⟩
  have hsize : multibaseEncodeSize multibaseBase16 data.length =
      toInt32 (data.length * 2 : Nat) := by
    unfold multibaseEncodeSize cryptoEncodingBase16EncodeSize
    rw [if_neg base58_ne_base16, if_pos rfl]
  have hroom : buffer.length ≤ data.length * 2 := by
    rw [hsize] at hmalloc
    unfold Region.malloc at hmalloc
    split_ifs at hmalloc with hmax
    rw [← Option.some.inj hmalloc, List.length_replicate]
    exact toUInt64_toInt32_le hmax
  unfold multibaseEncode at hencode
  rw [if_neg base58_ne_base16, if_pos rfl] at hencode
  obtain ⟨encoded, hencoded, hencode⟩ := bind_eq_ok.1 hencode
  unfold cryptoEncodingBase16Encode at hencoded
  split_ifs at hencoded with hshort
  · cases hencoded
    cases hencode
  · obtain ⟨-, hencoded⟩ := require_bind_eq_ok.1 hencoded
    obtain ⟨filled, -, hencoded⟩ := bind_eq_ok.1 hencoded
    cases hencoded
    dsimp only at hencode
    rw [if_pos hroom] at hencode
    cases hencode

/-! ## base 58 -/

theorem textDigits_lt (v : Nat) : ∀ d ∈ textDigits v, d < 58 := fun d hd =>
  Nat.digits_lt_base (by decide) (List.mem_reverse.1 hd)

theorem ofDigits_textDigits (v : Nat) : ofDigits 58 (textDigits v) = v := by
  rw [ofDigits_eq_reverse, textDigits, List.reverse_reverse, Nat.ofDigits_digits]

/-- digits that begin with none that is zero are these -/
theorem eq_textDigits {ds : List Nat} (h : ∀ d ∈ ds, d < 58) (h0 : ds.head? ≠ some 0) :
    ds = textDigits (ofDigits 58 ds) := by
  have hlast (hne : ds.reverse ≠ []) : ds.reverse.getLast hne ≠ 0 := by
    intro hzero
    refine h0 ?_
    rw [← List.getLast?_reverse, List.getLast?_eq_some_getLast hne, hzero]
  have hdigits := Nat.digits_ofDigits 58 (by decide) ds.reverse
    (fun d hd => h d (List.mem_reverse.1 hd)) hlast
  rw [textDigits, ofDigits_eq_reverse, hdigits, List.reverse_reverse]

theorem head_textDigits (v : Nat) : (textDigits v).head? ≠ some 0 := by
  intro h0
  by_cases hv : v = 0
  · rw [hv] at h0
    cases h0
  · have hne : Nat.digits 58 v ≠ [] := Nat.digits_ne_nil_iff_ne_zero.2 hv
    rw [textDigits, List.head?_reverse, List.getLast?_eq_some_getLast hne] at h0
    exact Nat.getLast_digit_ne_zero 58 hv (Option.some.inj h0)

/-- a `1` is the digit zero -/
theorem base58Text_eq (data : List UInt8) : base58Text data =
    (List.replicate (data.takeWhile fun b => b = 0).length 0 ++
      textDigits (bytesValue data)).map base58Char := by
  rw [base58Text, List.map_append, List.map_replicate]
  rfl

/-- a string of bytes: zeros, and the bytes of its number -/
theorem eq_zeros_append (data : List UInt8) :
    data = List.replicate (data.takeWhile fun b => b = 0).length 0 ++
      numberBytes (bytesValue data) := by
  induction data with
  | nil => rfl
  | cons b data ih =>
    by_cases hb : b = 0
    · have hvalue : bytesValue (b :: data) = bytesValue data := by
        rw [bytesValue_cons, hb, UInt8.toNat_zero, Nat.zero_mul, Nat.zero_add]
      rw [List.takeWhile_cons_of_pos (p := fun b => decide (b = 0)) (decide_eq_true hb), hvalue,
        List.length_cons, List.replicate_succ, List.cons_append, ← ih, hb]
    · have h0 : (b :: data).head? ≠ some 0 := fun h => hb (Option.some.inj h)
      rw [List.takeWhile_cons_of_neg (p := fun b => decide (b = 0)) (by rwa [decide_eq_true_iff]),
        List.length_nil, List.replicate_zero, List.nil_append,
        numberBytes_bytesValue (List.cons_ne_nil _ _) h0]

theorem length_eq_zeros_add (data : List UInt8) :
    data.length = (data.takeWhile fun b => b = 0).length + byteSize (bytesValue data) := by
  have hlen := congrArg List.length (eq_zeros_append data)
  rwa [List.length_append, List.length_replicate, numberBytes_length] at hlen

theorem base58Char_ne_zero {d : Nat} (h : d < 58) : base58Char d ≠ 0 := by
  have hall : ∀ d < 58, base58Char d ≠ 0 := by decide
  exact hall d h

/-- the digits of the text -/
theorem digits_base58Text_lt (data : List UInt8) :
    ∀ d ∈ List.replicate (data.takeWhile fun b => b = 0).length 0 ++
      textDigits (bytesValue data), d < 58 := by
  intro d hd
  rcases List.mem_append.1 hd with hd | hd
  · rw [List.eq_of_mem_replicate hd]
    decide
  · exact textDigits_lt _ d hd

theorem zero_not_mem_base58Text (data : List UInt8) : 0 ∉ base58Text data := by
  intro h0
  rw [base58Text_eq] at h0
  obtain ⟨d, hd, hchar⟩ := List.mem_map.1 h0
  exact base58Char_ne_zero (digits_base58Text_lt data d hd) hchar

/-- the ones that the decoder counts are the zeros of the bytes -/
theorem takeWhile_base58Text (data : List UInt8) :
    ((base58Text data).takeWhile fun c => c = 49).length =
      (data.takeWhile fun b => b = 0).length := by
  have hones : ∀ c ∈ List.replicate (data.takeWhile fun b => b = 0).length (49 : UInt8),
      decide (c = 49) = true := fun c hc => decide_eq_true (List.eq_of_mem_replicate hc)
  rw [base58Text, List.takeWhile_append_of_pos hones, List.length_append, List.length_replicate]
  have hhead := head_textDigits (bytesValue data)
  have hlt := textDigits_lt (bytesValue data)
  cases hdigits : textDigits (bytesValue data) with
  | nil => rfl
  | cons d ds =>
    rw [hdigits] at hhead hlt
    have hd : ¬ base58Char d = 49 := fun h =>
      hhead (congrArg some ((base58Char_eq_one_iff (hlt d List.mem_cons_self)).1 h))
    rw [List.map_cons,
      List.takeWhile_cons_of_neg (p := fun c => decide (c = 49)) (by rwa [decide_eq_true_iff])]
    rfl

/-- **the decoder**, on the text of some bytes: their number at the end of the buffer, and their
length -/
theorem decodeInto_base58Text (data : List UInt8) (binsz : Nat) :
    cryptoEncodingBase58DecodeInto (base58Text data) binsz =
      .ok (if byteSize (bytesValue data) ≤ binsz then
        some (valueBytes binsz (bytesValue data), data.length) else none) := by
  have hones := takeWhile_base58Text data
  have hlen := length_eq_zeros_add data
  have hdecode := multiaddrEncodingBase58Decode_map (digits_base58Text_lt data) binsz
  rw [← base58Text_eq, ofDigits_replicate_append, ofDigits_textDigits, hones, Nat.add_comm,
    ← hlen] at hdecode
  exact hdecode

/-- the bytes stand at the beginning of the buffer when it is as long as they are, or holds zeros
only -/
theorem prefix_valueBytes_iff {n : Nat} (h : byteSize (bytesValue data) ≤ n) :
    data <+: valueBytes n (bytesValue data) ↔
      data.length = n ∨ (bytesValue data = 0 ∧ data.length ≤ n) := by
  have hlen := length_eq_zeros_add data
  have hdata := eq_zeros_append data
  have hbytes := valueBytes_eq_append h
  generalize (data.takeWhile fun b => b = 0).length = z at hlen hdata
  generalize bytesValue data = v at h hlen hdata hbytes ⊢
  rw [hbytes]
  constructor
  · intro hp
    have hle := hp.length_le
    rw [List.length_append, List.length_replicate, numberBytes_length] at hle
    by_cases hv : v = 0
    · exact .inr ⟨hv, by omega⟩
    · refine .inl (by_contra fun hne => ?_)
      -- the first byte of the number would be one of the zeros in front of it
      obtain ⟨k, hk⟩ : ∃ k, n - byteSize v = z + (k + 1) := ⟨n - data.length - 1, by omega⟩
      rw [hk, List.replicate_add, List.append_assoc, hdata, List.prefix_append_right_inj,
        List.replicate_succ, List.cons_append] at hp
      have hhead := head_numberBytes v
      cases hbytes : numberBytes v with
      | nil =>
        have hsize := numberBytes_length v
        rw [hbytes, List.length_nil] at hsize
        exact hv (Nat.lt_one_iff.1 (byteSize_le_iff.1 (Nat.le_of_eq hsize.symm)))
      | cons b bytes =>
        rw [hbytes] at hhead hp
        exact hhead (congrArg some (List.cons_prefix_cons.1 hp).1)
  · rintro (hn | ⟨rfl, hle⟩)
    · have hzeros : n - byteSize v = z := by omega
      rw [hzeros, ← hdata]
    · have hzero : byteSize 0 = 0 := rfl
      have hnil : numberBytes 0 = [] := rfl
      rw [hnil, List.append_nil] at hdata ⊢
      rw [hzero] at hlen ⊢
      rw [hdata, List.prefix_replicate_iff, List.length_replicate]
      exact ⟨by omega, rfl⟩

/-! ### there and back -/

/-- what the copy over itself and the sign leave in the buffer -/
theorem store_behind {encoded : Region} {n : Nat} (base : UInt8) (h : n < encoded.length) :
    (encoded.store 1 (encoded.take n) >>= fun moved => moved.store 0 [base]) =
      .ok (base :: (encoded.take n ++ encoded.drop (n + 1))) := by
  have hlen : (encoded.take n).length = n := by
    rw [List.length_take]
    omega
  rw [Region.store_pos (by omega), ok_bind, hlen, Nat.add_comm 1 n]
  cases encoded with
  | nil => exact absurd h (Nat.not_lt_zero n)
  | cons a encoded =>
    have hmoved : (a :: encoded).take 1 ++ (a :: encoded).take n ++ (a :: encoded).drop (n + 1) =
        a :: ((a :: encoded).take n ++ (a :: encoded).drop (n + 1)) := rfl
    rw [hmoved, Region.store_pos (by simp)]
    rfl

/-- the sign, the text, and zeros behind it -/
def signedText (data : List UInt8) (room : Nat) : Region :=
  multibaseBase58Btc ::
    (base58Text data ++ 0 :: List.replicate (room - ((base58Text data).length + 2)) 0)

theorem multibaseEncode58_eq (h : EncodesRight encode58) {room : Nat} {out : Option (List UInt8)}
    (hout : encode58 data room = .ok out) :
    multibaseEncode58 encode58 data (List.replicate room 0) =
      .ok (if room ≤ (base58Text data).length then none
        else some (base58Text data ++ 0 :: List.replicate (room - ((base58Text data).length + 1)) 0,
          (base58Text data).length + 1)) := by
  unfold multibaseEncode58
  rw [List.length_replicate, hout, ok_bind, h data room out hout]
  by_cases hshort : room ≤ (base58Text data).length
  · rw [if_pos hshort, if_pos hshort]
  · have hterminated : (base58Text data ++ [0]).length = (base58Text data).length + 1 := by
      rw [List.length_append, List.length_singleton]
    rw [if_neg hshort, if_neg hshort]
    dsimp only
    rw [store_replicate_zero (by omega), ok_bind, hterminated, List.append_assoc]
    rfl

/-- the copy and the sign -/
theorem store_signedText {room : Nat} (hroom : (base58Text data).length + 1 < room)
    {encoded : Region} (hencoded : encoded =
      base58Text data ++ 0 :: List.replicate (room - ((base58Text data).length + 1)) 0) :
    (encoded.store 1 (encoded.take ((base58Text data).length + 1)) >>= fun moved =>
      moved.store 0 [multibaseBase58Btc]) = .ok (signedText data room) := by
  have hfilled : (base58Text data).length + 1 < encoded.length := by
    rw [hencoded, List.length_append, List.length_cons, List.length_replicate]
    omega
  have hsplit : encoded = (base58Text data ++ [0]) ++
      List.replicate (room - ((base58Text data).length + 1)) 0 := by
    rw [hencoded, List.append_assoc]
    rfl
  have hterminated : (base58Text data ++ [0]).length = (base58Text data).length + 1 := by
    rw [List.length_append, List.length_singleton]
  have htake : encoded.take ((base58Text data).length + 1) = base58Text data ++ [0] := by
    rw [hsplit, ← hterminated, List.take_left]
  have hdrop : encoded.drop ((base58Text data).length + 1 + 1) =
      List.replicate (room - ((base58Text data).length + 2)) 0 := by
    rw [hsplit, ← hterminated, ← List.drop_drop, List.drop_left, List.drop_replicate, hterminated]
    rfl
  rw [store_behind multibaseBase58Btc hfilled, htake, hdrop, List.append_assoc]
  rfl

theorem multibaseEncode_base58_iff (h : EncodesRight encode58) {room length : Nat}
    {text : Region} :
    multibaseEncode encode58 moves multibaseBase58Btc data (List.replicate room 0) =
        .ok (some (text, length)) ↔
      Safe (encode58 data room) ∧ (base58Text data).length + 1 < room ∧
        (moves = true ∨ (base58Text data).length + 1 ≤ 1) ∧
        text = signedText data room ∧ length = (base58Text data).length + 2 := by
  unfold multibaseEncode
  rw [if_pos rfl, List.length_replicate]
  cases hencode : encode58 data room with
  | error e =>
    have hfault : multibaseEncode58 encode58 data (List.replicate room 0) = .error e := by
      unfold multibaseEncode58
      rw [List.length_replicate, hencode]
      rfl
    rw [hfault]
    constructor
    · intro h
      cases h
    · intro h
      exact absurd h.1 (not_safe_error e)
  | ok out =>
    rw [multibaseEncode58_eq h hencode, ok_bind]
    by_cases hshort : room ≤ (base58Text data).length
    · rw [if_pos hshort]
      constructor
      · intro h
        cases h
      · intro h
        omega
    · rw [if_neg hshort]
      dsimp only
      by_cases hroom : room ≤ (base58Text data).length + 1
      · rw [if_pos hroom]
        constructor
        · intro h
          cases h
        · intro h
          omega
      · obtain ⟨moved, hmoved, hsigned⟩ :=
          bind_eq_ok.1 (store_signedText (Nat.not_le.1 hroom) rfl)
        rw [if_neg hroom, hmoved]
        constructor
        · intro h
          obtain ⟨hcopy, h⟩ := require_bind_eq_ok.1 h
          rw [ok_bind, hsigned] at h
          cases h
          exact ⟨safe_ok _, by omega, hcopy, rfl, rfl⟩
        · rintro ⟨-, -, hcopy, rfl, rfl⟩
          rw [require_pos hcopy, ok_bind, ok_bind, hsigned]
          rfl

theorem multibaseDecode_signedText (room length : Nat) (out : Nat) :
    multibaseDecode (signedText data room) length (List.replicate out 0) =
      .ok (if byteSize (bytesValue data) ≤ out then
        some (valueBytes out (bytesValue data), data.length) else none) := by
  have h0 := zero_not_mem_base58Text data
  have hmem : 0 ∈ base58Text data ++
      0 :: List.replicate (room - ((base58Text data).length + 2)) (0 : UInt8) :=
    List.mem_append_right _ List.mem_cons_self
  have htext : cString (base58Text data ++
      0 :: List.replicate (room - ((base58Text data).length + 2)) 0) = base58Text data := by
    have hcut := @cstr_append _ h0 [] (List.replicate (room - ((base58Text data).length + 2)) 0)
    exact hcut
  unfold multibaseDecode signedText
  dsimp only
  rw [if_pos rfl, require_pos hmem, ok_bind, htext, List.length_replicate, decodeInto_base58Text,
    ok_bind]
  by_cases hsize : byteSize (bytesValue data) ≤ out
  · rw [if_pos hsize]
    dsimp only
    rw [Region.store_malloc (valueBytes_length _ _)]
    rfl
  · rw [if_neg hsize]

/-- when the text can be encoded and decoded again -/
structure MultibaseFits (encode58 : List UInt8 → Nat → Exec (Option (List UInt8))) (moves : Bool)
    (base : UInt8) (data : List UInt8) : Prop where
  base58 : base = multibaseBase58Btc
  moves : moves = true
  allocated : toUInt64 (multibaseEncodeSize base data.length) ≤ ptrdiffMax
  returns : Safe (encode58 data (toUInt64 (multibaseEncodeSize base data.length)))
  /-- the text, the zero behind it, and the sign -/
  room : (base58Text data).length + 1 < toUInt64 (multibaseEncodeSize base data.length)
  allocatedBack : toUInt64 (multibaseDecodeSize base ((base58Text data).length + 2)) ≤ ptrdiffMax
  /-- the bytes end with the buffer, and begin with it, or are all zero -/
  placed :
    data.length = toUInt64 (multibaseDecodeSize base ((base58Text data).length + 2)) ∨
      (bytesValue data = 0 ∧
        data.length ≤ toUInt64 (multibaseDecodeSize base ((base58Text data).length + 2)))

theorem eq_nil_of_base58Text (h : base58Text data = []) : data = [] := by
  rw [base58Text_eq, List.map_eq_nil_iff, List.append_eq_nil_iff] at h
  obtain ⟨hzeros, hdigits⟩ := h
  have hvalue := ofDigits_textDigits (bytesValue data)
  rw [hdigits] at hvalue
  have hdata := eq_zeros_append data
  rw [(List.replicate_eq_nil_iff 0).1 hzeros, ← hvalue] at hdata
  exact hdata

/-- the size for no bytes at all has room for the sign only -/
theorem multibaseEncodeSize_zero : toUInt64 (multibaseEncodeSize multibaseBase58Btc 0) = 1 := by
  have hsize : cryptoEncodingBase58EncodeSize 0 = 0 := by
    unfold cryptoEncodingBase58EncodeSize
    rw [pow_zero, Nat.clog_one_right]
  unfold multibaseEncodeSize
  rw [if_pos rfl, hsize, toInt32_natCast_of_lt (by norm_num), toUInt64_natCast_of_lt (by norm_num)]

/-- **base 58 is written at the end of the buffer** -/
theorem multibaseLaw_base58 (h : EncodesRight encode58) :
    MultibaseLaw encode58 moves multibaseBase58Btc data ↔
      MultibaseFits encode58 moves multibaseBase58Btc data := by
  constructor
  · rintro ⟨buffer, text, textLength, out, decoded, hmalloc, hencode, hback, hdecode, hdata⟩
    unfold Region.malloc at hmalloc hback
    split_ifs at hmalloc hback with hmax hmax'
    rw [← Option.some.inj hmalloc] at hencode
    obtain ⟨hreturns, hroom, hcopy, rfl, rfl⟩ := (multibaseEncode_base58_iff h).1 hencode
    rw [← Option.some.inj hback, multibaseDecode_signedText] at hdecode
    have hsize : byteSize (bytesValue data) ≤ toUInt64 (multibaseDecodeSize multibaseBase58Btc
        ((base58Text data).length + 2)) := by
      by_contra hshort
      rw [if_neg hshort] at hdecode
      cases hdecode
    rw [if_pos hsize] at hdecode
    cases hdecode
    refine ⟨rfl, ?_, hmax, hreturns, hroom, hmax', ?_⟩
    · rcases hcopy with hmoves | hnone
      · exact hmoves
      · have hnil : base58Text data = [] := List.length_eq_zero_iff.1 (by omega)
        rw [eq_nil_of_base58Text hnil, List.length_nil, multibaseEncodeSize_zero] at hroom
        omega
    · exact (prefix_valueBytes_iff hsize).1 hdata
  · intro hfits
    have hsize : byteSize (bytesValue data) ≤ toUInt64 (multibaseDecodeSize multibaseBase58Btc
        ((base58Text data).length + 2)) := by
      rcases hfits.placed with hlen | ⟨hzero, -⟩
      · rw [← hlen, length_eq_zeros_add data]
        exact Nat.le_add_left _ _
      · rw [hzero]
        exact Nat.zero_le _
    refine ⟨_, signedText data _, _, _, _, Region.malloc_pos hfits.allocated,
      (multibaseEncode_base58_iff h).2 ⟨hfits.returns, hfits.room, .inl hfits.moves, rfl, rfl⟩,
      Region.malloc_pos hfits.allocatedBack, ?_, (prefix_valueBytes_iff hsize).2 hfits.placed⟩
    rw [multibaseDecode_signedText, if_pos hsize]

end

/-! ## the encoder as it is -/

/-- what does not begin with zero is written in the digits of its number -/
theorem base58Encode_numberBytes (v : Nat) :
    cryptoEncodingBase58Encode (numberBytes v) = .ok ((textDigits v).map base58Char) := by
  obtain ⟨size, hsize⟩ : ∃ size, size = (numberBytes v).length * 138 / 100 + 1 := ⟨_, rfl⟩
  have hlt : v < 58 ^ size := by
    have hv : v < 256 ^ (numberBytes v).length := by
      rw [numberBytes_length]
      exact byteSize_le_iff.1 (Nat.le_refl _)
    rw [hsize]
    exact hv.trans (pow_256_lt _)
  obtain ⟨ds, hds⟩ : ∃ ds, ds = (toDigits 58 size v).dropWhile fun d => d = 0 := ⟨_, rfl⟩
  have hsmall : ∀ d ∈ ds, d < 58 := by
    intro d hd
    rw [hds] at hd
    exact toDigits_lt (by decide) _ _ d (List.dropWhile_subset _ hd)
  have hhead : ds.head? ≠ some 0 := by
    intro h0
    have hfalse := List.head?_dropWhile_not (fun d => decide (d = 0)) (toDigits 58 size v)
    rw [← hds, h0] at hfalse
    exact absurd hfalse (by decide)
  have hvalue : ofDigits 58 ds = v := by rw [hds, ofDigits_dropWhile, ofDigits_toDigits hlt]
  have hdigits := eq_textDigits hsmall hhead
  rw [hvalue] at hdigits
  unfold cryptoEncodingBase58Encode
  dsimp only
  rw [require_pos (head_numberBytes v), ok_bind, bytesValue_numberBytes, ← hsize, ← hds, hdigits]

theorem encodeInto_eq (data : List UInt8) (room : Nat) :
    cryptoEncodingBase58EncodeInto data room =
      if room ≤ (base58Text data).length then .ok none
      else require .outOfBounds ((data.takeWhile fun b => b = 0).length = 0) >>= fun _ =>
        .ok (some ((textDigits (bytesValue data)).map base58Char)) := by
  have hdrop : data.drop (data.takeWhile fun b => b = 0).length =
      numberBytes (bytesValue data) := by
    have hdata := congrArg (List.drop (data.takeWhile fun b => b = 0).length)
      (eq_zeros_append data)
    rwa [List.drop_left' List.length_replicate] at hdata
  unfold cryptoEncodingBase58EncodeInto
  dsimp only
  rw [hdrop, base58Encode_numberBytes, ok_bind, base58Text, List.length_append,
    List.length_replicate]

/-- where it returns, there are no zeros in front -/
theorem encodesRight_encodeInto : EncodesRight cryptoEncodingBase58EncodeInto := by
  intro data room out hencode
  rw [encodeInto_eq] at hencode
  split_ifs at hencode ⊢ with hroom
  · cases hencode
    rfl
  · obtain ⟨hzeros, hencode⟩ := require_bind_eq_ok.1 hencode
    cases hencode
    rw [base58Text, hzeros]
    rfl

/-- it returns on no bytes that begin with zero -/
theorem zeros_eq_zero_of_safe {data : List UInt8} {room : Nat}
    (h : Safe (cryptoEncodingBase58EncodeInto data room))
    (hroom : (base58Text data).length < room) : (data.takeWhile fun b => b = 0).length = 0 := by
  obtain ⟨out, hout⟩ := h
  rw [encodeInto_eq, if_neg (Nat.not_le.2 hroom)] at hout
  exact (require_bind_eq_ok.1 hout).1

/-- **nothing goes there and back** with the encoder as it is: the buffer to decode into is larger
than what is decoded -/
theorem multibaseLaw_never (moves : Bool) {base : UInt8} (data : List UInt8)
    (hbase : base = multibaseBase58Btc ∨ base = multibaseBase16) :
    ¬ MultibaseLaw cryptoEncodingBase58EncodeInto moves base data := by
  rcases hbase with rfl | rfl
  · intro hlaw
    have hfits := (multibaseLaw_base58 encodesRight_encodeInto).1 hlaw
    have hroom := hfits.room
    have hzeros := zeros_eq_zero_of_safe hfits.returns (by omega)
    have hlen := length_eq_zeros_add data
    rw [hzeros, Nat.zero_add] at hlen
    have hplaced := hfits.placed
    have hmax := hfits.allocated
    have hmax' := hfits.allocatedBack
    unfold multibaseEncodeSize at hmax hroom
    unfold multibaseDecodeSize at hmax' hplaced
    rw [if_pos rfl] at hmax hroom hmax' hplaced
    have hlt := toUInt64_toInt32_lt hmax
    -- the size of the buffer to decode into is an `int`, and itself
    have hle : cryptoEncodingBase58DecodeSize ((base58Text data).length + 2) ≤
        (base58Text data).length + 2 :=
      Nat.clog_le_of_le_pow (Nat.pow_le_pow_left (by decide) _)
    rw [toUInt64_toInt32_eq (by omega) hmax'] at hplaced
    have hdigits := byteSize_ofDigits_le (digits_base58Text_lt data)
    rw [ofDigits_replicate_append, ofDigits_textDigits] at hdigits
    have hsize : byteSize (bytesValue data) ≤
        cryptoEncodingBase58DecodeSize ((base58Text data).length + 2) := by
      refine hdigits.trans (Nat.clog_mono_right _ (Nat.pow_le_pow_right (by decide) ?_))
      rw [base58Text_eq, List.length_map]
      omega
    rcases hplaced with hplaced | ⟨hzero, -⟩
    · omega
    · have hnil : data = [] := by
        rw [hzero] at hlen
        exact List.length_eq_zero_iff.1 hlen
      have hempty := hfits.room
      rw [hnil, List.length_nil, multibaseEncodeSize_zero] at hempty
      omega
  · exact multibaseLaw_base16 _ moves data

/-- **there and back**: never with the encoder as it is; with any that is right, in base 58 when the
bytes end with the buffer -/
theorem multibase_iff (moves : Bool) {base : UInt8} (data : List UInt8)
    (hbase : base = multibaseBase58Btc ∨ base = multibaseBase16) :
    ¬ MultibaseLaw cryptoEncodingBase58EncodeInto moves base data ∧
      ∀ encode58, EncodesRight encode58 →
        (MultibaseLaw encode58 moves base data ↔ MultibaseFits encode58 moves base data) := by
  refine ⟨multibaseLaw_never moves data hbase, fun encode58 hright => ?_⟩
  rcases hbase with rfl | rfl
  · exact multibaseLaw_base58 hright
  · constructor
    · intro hlaw
      exact absurd hlaw (multibaseLaw_base16 encode58 moves data)
    · intro hfits
      exact absurd hfits.base58 base58_ne_base16

/-- an encoder that writes the text -/
def writeBase58 (data : List UInt8) (room : Nat) : Exec (Option (List UInt8)) :=
  .ok (if room ≤ (base58Text data).length then none else some (base58Text data))

/-- a zero byte comes back from an encoder that is right, and not from the one that is there -/
theorem multibase_oneByte :
    ¬ MultibaseLaw cryptoEncodingBase58EncodeInto true multibaseBase58Btc [0] ∧
      MultibaseLaw writeBase58 true multibaseBase58Btc [0] := by
  have htext : base58Text [0] = [49] := by decide
  have hsize : toUInt64 (multibaseEncodeSize multibaseBase58Btc 1) = 3 := by decide +kernel
  have hback : toUInt64 (multibaseDecodeSize multibaseBase58Btc 3) = 4 := by decide +kernel
  obtain ⟨hnever, hright⟩ := multibase_iff true [0] (.inl rfl)
  refine ⟨hnever, (hright writeBase58 fun data room out h => (Except.ok.inj h).symm).2 ?_⟩
  exact
    { base58 := rfl
      moves := rfl
      allocated := by rw [List.length_singleton, hsize]; decide
      returns := safe_ok _
      room := by rw [htext, List.length_singleton, List.length_singleton, hsize]; decide
      allocatedBack := by rw [htext, List.length_singleton, hback]; decide
      placed := .inr ⟨rfl, by rw [htext, List.length_singleton, List.length_singleton, hback]; decide⟩ }

theorem not_multibase : ¬ ∀ (base : UInt8) (data : List UInt8),
    base = multibaseBase58Btc ∨ base = multibaseBase16 →
      MultibaseLaw cryptoEncodingBase58EncodeInto true base data := by
  intro h
  exact multibaseLaw_base16 _ true [1] (h multibaseBase16 [1] (.inr rfl))

end Ipfs
