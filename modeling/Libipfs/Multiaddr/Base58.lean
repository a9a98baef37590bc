import Libipfs.Crypto.Base58

/-!
# Base58 of a multiaddress

The codec of `multiaddr/base58.c`.  The bytes of a number are written at the end of the buffer,
and the length leaves out as many as there are zeros in front of them: what is lost then are the
last bytes.

* `byteSize`, `numberBytes`   the bytes of a number, without zeros in front;
* `base58Decode_map`          **the decoder, on the characters of digits**;
* `base58Encode_eq`           **the encoder, on bytes that do not begin with zero**.
-/

namespace Libp2p
open CSem

/-! ## the bytes of a number -/

def byteSize (v : Nat) : Nat := Nat.clog 256 (v + 1)

/-- without zeros in front -/
def numberBytes (v : Nat) : List UInt8 := valueBytes (byteSize v) v

section
variable {n v : Nat} {bytes : List UInt8}

theorem byteSize_le_iff : byteSize v ≤ n ↔ v < 256 ^ n := by
  unfold byteSize
  rw [Nat.clog_le_iff_le_pow (by decide), Nat.succ_le_iff]

theorem lt_byteSize_iff : n < byteSize v ↔ 256 ^ n ≤ v := by
  rw [← not_le, byteSize_le_iff, not_lt]

theorem byteSize_eq_iff : byteSize v = n + 1 ↔ 256 ^ n ≤ v ∧ v < 256 ^ (n + 1) := by
  rw [← lt_byteSize_iff, ← byteSize_le_iff]
  omega

theorem valueBytes_length (n v : Nat) : (valueBytes n v).length = n := by
  rw [valueBytes, List.length_map, toDigits_length]

theorem numberBytes_length (v : Nat) : (numberBytes v).length = byteSize v := valueBytes_length _ _

theorem map_toNat_valueBytes (n v : Nat) :
    (valueBytes n v).map UInt8.toNat = toDigits 256 n v := by
  have hsmall := toDigits_lt (b := 256) (by decide) n v
  rw [valueBytes, List.map_map]
  refine (List.map_congr_left fun d hd => ?_).trans (List.map_id _)
  exact UInt8.toNat_ofNat_of_lt (hsmall d hd)

theorem bytesValue_valueBytes (h : v < 256 ^ n) : bytesValue (valueBytes n v) = v := by
  rw [bytesValue, map_toNat_valueBytes, ofDigits_toDigits h]

theorem bytesValue_cons (b : UInt8) (bytes : List UInt8) :
    bytesValue (b :: bytes) = b.toNat * 256 ^ bytes.length + bytesValue bytes := by
  rw [bytesValue, List.map_cons, ofDigits_cons, List.length_map]
  rfl

/-- the bytes of a buffer: zeros, and the bytes of the number -/
theorem valueBytes_eq_append (h : byteSize v ≤ n) :
    valueBytes n v = List.replicate (n - byteSize v) 0 ++ numberBytes v := by
  obtain ⟨k, rfl⟩ : ∃ k, n = k + byteSize v := ⟨n - byteSize v, by omega⟩
  have hlt : v < 256 ^ byteSize v := byteSize_le_iff.1 (Nat.le_refl _)
  rw [valueBytes, toDigits_add (by decide) k hlt, List.map_append, List.map_replicate,
    Nat.add_sub_cancel]
  rfl

/-- bytes that do not begin with zero are those of their number -/
theorem byteSize_bytesValue (hne : bytes ≠ []) (h0 : bytes.head? ≠ some 0) :
    byteSize (bytesValue bytes) = bytes.length := by
  cases bytes with
  | nil => exact absurd rfl hne
  | cons b bytes =>
    have hb : b.toNat ≠ 0 := fun h => h0 (congrArg some (UInt8.toNat_inj.1 h))
    have hlow : 256 ^ bytes.length ≤ bytesValue (b :: bytes) := by
      rw [bytesValue_cons]
      calc 256 ^ bytes.length ≤ b.toNat * 256 ^ bytes.length :=
            Nat.le_mul_of_pos_left _ (Nat.pos_of_ne_zero hb)
        _ ≤ _ := Nat.le_add_right _ _
    exact byteSize_eq_iff.2 ⟨hlow, bytesValue_lt (b :: bytes)⟩

theorem numberBytes_bytesValue (hne : bytes ≠ []) (h0 : bytes.head? ≠ some 0) :
    numberBytes (bytesValue bytes) = bytes := by
  rw [numberBytes, byteSize_bytesValue hne h0, valueBytes_bytesValue]

theorem bytesValue_numberBytes (v : Nat) : bytesValue (numberBytes v) = v :=
  bytesValue_valueBytes (byteSize_le_iff.1 (Nat.le_refl _))

theorem head_numberBytes (v : Nat) : (numberBytes v).head? ≠ some 0 := by
  intro h0
  cases hbytes : numberBytes v with
  | nil => rw [hbytes] at h0; cases h0
  | cons b bytes =>
    rw [hbytes] at h0
    obtain rfl : b = 0 := Option.some.inj h0
    have hv := bytesValue_numberBytes v
    have hlen := numberBytes_length v
    rw [hbytes, bytesValue_cons, UInt8.toNat_zero, Nat.zero_mul, Nat.zero_add] at hv
    rw [hbytes, List.length_cons] at hlen
    have hlow : 256 ^ bytes.length ≤ v := lt_byteSize_iff.1 (by omega)
    have hlt := bytesValue_lt bytes
    omega

/-- the zeros that the decoder counts -/
theorem takeWhile_valueBytes (h : byteSize v ≤ n) :
    ((valueBytes n v).takeWhile fun b => b = 0).length = n - byteSize v := by
  have hzeros : ∀ b ∈ List.replicate (n - byteSize v) (0 : UInt8), decide (b = 0) = true :=
    fun b hb => decide_eq_true (List.eq_of_mem_replicate hb)
  have hhead := head_numberBytes v
  rw [valueBytes_eq_append h, List.takeWhile_append_of_pos hzeros, List.length_append,
    List.length_replicate]
  cases hbytes : numberBytes v with
  | nil => rfl
  | cons b bytes =>
    rw [hbytes] at hhead
    have hb : ¬ b = 0 := fun hb => hhead (congrArg some hb)
    rw [List.takeWhile_cons, decide_eq_false hb]
    rfl

end

/-! ## the codec -/

/-- `ceil(string_length * log2(58) / 8)` -/
def multiaddrEncodingBase58DecodeMaxSize (base58String : List UInt8) : Nat :=
  Nat.clog 256 (58 ^ base58String.length)

/-- the buffer, and the length of what is decoded; the map of the digits has a place for ASCII
only, and is read at the characters up to the first that is not `1` -/
def multiaddrEncodingBase58Decode (b58 : List UInt8) (binsz : Nat) :
    Exec (Option (List UInt8 × Nat)) := do
  let zerocount := (b58.takeWhile fun c => c = 49).length
  require .outOfBounds ((b58.drop zerocount).head?.all fun c => c < 128)
  match b58.mapM base58Digit with
  | none => .ok none
  | some digits =>
    let value := ofDigits 58 digits
    if 256 ^ binsz ≤ value then .ok none
    else
      let bin := valueBytes binsz value
      let zeros := (bin.takeWhile fun b => b = 0).length
      .ok (some (bin, binsz - zeros + zerocount))

/-- leading zeros would be written over the pointer to the results -/
def multiaddrEncodingBase58Encode (data : List UInt8) (b58sz : Nat) :
    Exec (Option (List UInt8)) := do
  let zcount := (data.takeWhile fun b => b = 0).length
  let size := (data.length - zcount) * 138 / 100 + 1
  let digits := (toDigits 58 size (bytesValue data)).dropWhile fun d => d = 0
  if b58sz ≤ zcount + digits.length then .ok none
  else
    require .outOfBounds (zcount = 0)
    .ok (some (digits.map base58Char))

/-! ### without zeros in front -/

section
variable {ds : List Nat} {data : List UInt8} {d n : Nat}

theorem base58Char_eq_one_iff (h : d < 58) : base58Char d = 49 ↔ d = 0 := by
  have hall : ∀ d < 58, base58Char d = 49 ↔ d = 0 := by decide
  exact hall d h

theorem base58Char_lt (d : Nat) : base58Char d < 128 := by
  by_cases hd : d < 58
  · have hall : ∀ d < 58, base58Char d < 128 := by decide
    exact hall d hd
  · have hnone : base58Alphabet[d]? = none := List.getElem?_eq_none (Nat.not_lt.1 hd)
    unfold base58Char
    rw [List.getD_eq_getElem?_getD, hnone]
    decide

/-- there are enough digits -/
theorem pow_256_lt (n : Nat) : 256 ^ n < 58 ^ (n * 138 / 100 + 1) := by
  have hbase : 256 ^ 100 ≤ 58 ^ 138 := by norm_num
  have hsize : 138 * n < 100 * (n * 138 / 100 + 1) := by omega
  refine lt_of_pow_lt_pow_left₀ 100 (Nat.zero_le _) ?_
  calc (256 ^ n) ^ 100 = (256 ^ 100) ^ n := pow_right_comm 256 n 100
    _ ≤ (58 ^ 138) ^ n := Nat.pow_le_pow_left hbase n
    _ = 58 ^ (138 * n) := (pow_mul 58 138 n).symm
    _ < 58 ^ (100 * (n * 138 / 100 + 1)) := Nat.pow_lt_pow_right (by decide) hsize
    _ = (58 ^ (n * 138 / 100 + 1)) ^ 100 := by rw [Nat.mul_comm, pow_mul]

/-- what a number of so many digits takes has room in the buffer -/
theorem byteSize_ofDigits_le (h : ∀ d ∈ ds, d < 58) :
    byteSize (ofDigits 58 ds) ≤ Nat.clog 256 (58 ^ ds.length) :=
  byteSize_le_iff.2 (Nat.lt_of_lt_of_le (ofDigits_lt h) (Nat.le_pow_clog (by decide) _))

/-- the decoder, into a buffer of any size -/
theorem multiaddrEncodingBase58Decode_map (h : ∀ d ∈ ds, d < 58) (binsz : Nat) :
    multiaddrEncodingBase58Decode (ds.map base58Char) binsz =
      .ok (if byteSize (ofDigits 58 ds) ≤ binsz then some (valueBytes binsz (ofDigits 58 ds),
        byteSize (ofDigits 58 ds) + ((ds.map base58Char).takeWhile fun c => c = 49).length)
      else none) := by
  unfold multiaddrEncodingBase58Decode
  rw [mapM_base58Digit h]
  dsimp only
  have hascii : (((ds.map base58Char).drop
      ((ds.map base58Char).takeWhile fun c => c = 49).length).head?.all fun c => c < 128) := by
    refine (Option.all_eq_true _ _).2 fun c hc => ?_
    have hmem := List.mem_of_mem_drop (List.mem_of_mem_head? hc)
    obtain ⟨d, -, rfl⟩ := List.mem_map.1 hmem
    exact decide_eq_true (base58Char_lt d)
  rw [require_pos hascii, ok_bind]
  by_cases hle : byteSize (ofDigits 58 ds) ≤ binsz
  · rw [if_neg (Nat.not_le.2 (byteSize_le_iff.1 hle)), if_pos hle, takeWhile_valueBytes hle,
      Nat.sub_sub_self hle]
  · rw [if_pos (lt_byteSize_iff.1 (Nat.not_le.1 hle)), if_neg hle]

/-- **the decoder**: each `1` in front counts as a byte of the result -/
theorem base58Decode_map (h : ∀ d ∈ ds, d < 58) :
    multiaddrEncodingBase58Decode (ds.map base58Char)
        (multiaddrEncodingBase58DecodeMaxSize (ds.map base58Char)) =
      .ok (some (valueBytes (Nat.clog 256 (58 ^ ds.length)) (ofDigits 58 ds),
        byteSize (ofDigits 58 ds) + ((ds.map base58Char).takeWhile fun c => c = 49).length)) := by
  unfold multiaddrEncodingBase58DecodeMaxSize
  rw [multiaddrEncodingBase58Decode_map h, List.length_map, if_pos (byteSize_ofDigits_le h)]

theorem ofDigits_dropWhile (ds : List Nat) :
    ofDigits 58 (ds.dropWhile fun d => d = 0) = ofDigits 58 ds := by
  induction ds with
  | nil => rfl
  | cons d ds ih =>
    by_cases hd : d = 0
    · rw [List.dropWhile_cons, if_pos (decide_eq_true hd), ih, ofDigits_cons, hd, Nat.zero_mul,
        Nat.zero_add]
    · rw [List.dropWhile_cons, if_neg (by rwa [decide_eq_true_eq])]

/-- digits that begin with none that is zero -/
theorem dropWhile_toDigits (h : ∀ d ∈ ds, d < 58) (h0 : ds.head? ≠ some 0) (hn : ds.length ≤ n) :
    (toDigits 58 n (ofDigits 58 ds)).dropWhile (fun d => d = 0) = ds := by
  have hzeros : ∀ d ∈ List.replicate (n - ds.length) 0, decide (d = 0) = true :=
    fun d hd => decide_eq_true (List.eq_of_mem_replicate hd)
  rw [toDigits_ofDigits_of_le (by decide) h hn, List.dropWhile_append_of_pos hzeros]
  cases ds with
  | nil => rfl
  | cons d ds =>
    have hd : ¬ d = 0 := fun hd => h0 (congrArg some hd)
    rw [List.dropWhile_cons, if_neg (by rwa [decide_eq_true_eq])]

/-- the digits of the number of the bytes, without zeros in front -/
theorem exists_digits (data : List UInt8) :
    ∃ ds : List Nat, ds = (toDigits 58 (data.length * 138 / 100 + 1) (bytesValue data)).dropWhile
        (fun d => d = 0) ∧
      (∀ d ∈ ds, d < 58) ∧ ds.head? ≠ some 0 ∧ ofDigits 58 ds = bytesValue data ∧
      ds.length ≤ data.length * 138 / 100 + 1 := by
  refine ⟨_, rfl, fun d hd => ?_, fun hhead => ?_, ?_, ?_⟩
  · exact toDigits_lt (by decide) _ _ d (List.dropWhile_subset _ hd)
  · have hfalse := List.head?_dropWhile_not (fun d => decide (d = 0))
      (toDigits 58 (data.length * 138 / 100 + 1) (bytesValue data))
    rw [hhead] at hfalse
    exact absurd hfalse (by decide)
  · rw [ofDigits_dropWhile,
      ofDigits_toDigits (Nat.lt_trans (bytesValue_lt data) (pow_256_lt data.length))]
  · exact (List.dropWhile_sublist _).length_le.trans_eq (toDigits_length _ _)

/-- **the encoder**, on bytes that do not begin with zero: the digits of their number -/
theorem base58Encode_eq (h0 : data.head? ≠ some 0) {b58sz : Nat} :
    ∃ ds : List Nat, (∀ d ∈ ds, d < 58) ∧ ds.head? ≠ some 0 ∧
      ofDigits 58 ds = bytesValue data ∧
      multiaddrEncodingBase58Encode data b58sz =
        .ok (if b58sz ≤ ds.length then none else some (ds.map base58Char)) := by
  have hzcount : data.takeWhile (fun b => decide (b = 0)) = [] := by
    cases data with
    | nil => rfl
    | cons b data =>
      have hb : ¬ b = 0 := fun hb => h0 (congrArg some hb)
      rw [List.takeWhile_cons, decide_eq_false hb]
      rfl
  obtain ⟨_, rfl, hlt, hhead, hvalue, -⟩ := exists_digits data
  refine ⟨_, hlt, hhead, hvalue, ?_⟩
  unfold multiaddrEncodingBase58Encode
  rw [hzcount]
  dsimp only [List.length_nil]
  rw [Nat.sub_zero, Nat.zero_add, require_pos rfl, ok_bind]
  split <;> rfl

end

end Libp2p
