import Libipfs.Lib.ByteOrder
import Libipfs.Lib.Region
import Mathlib.Data.List.Induction

/-!
# The points of ephemeral keys

A point is a 4 and its two coordinates, each at the end of a field that is as wide as the curve.
The reader takes the two coordinates from the first sixteen bytes, whatever the curve is.

* `serializeUint64`, `unserializeUint64`   eight bytes, the highest first;
* `cryptoEphemeralPointMarshal`, `cryptoEphemeralPointUnmarshal`   the two functions;
* `replicate_of_take`     what begins with itself moved on is all padding;
* `marshal_eq_ok`         what is written, for fields of eight bytes or more;
* `pointRoundTrips_iff`   **a point comes back** on a curve of 64 bits, or when it is zero.
-/

namespace Libp2p
open CSem

/-! ## coordinates -/

def serializeUint64 (x : UInt64) : List UInt8 :=
  [(x >>> 56).toUInt8, (x >>> 48).toUInt8, (x >>> 40).toUInt8, (x >>> 32).toUInt8,
   (x >>> 24).toUInt8, (x >>> 16).toUInt8, (x >>> 8).toUInt8, x.toUInt8]

def unserializeUint64 (bytes : List UInt8) : UInt64 :=
  bytes.foldl (fun out b => out <<< 8 ||| b.toUInt64) 0

/-! ## points -/

/-- the bytes of a coordinate; the size is an `int` -/
def pointByteLen (bitSize : Int) : Exec Int := do
  require .overflow (bitSize + 7 < 2 ^ 31)
  .ok ((bitSize + 7) / 8)

/-- `memcpy` to a place that is an `int` -/
def storeAt (buffer : Region) (pos : Int) (bytes : List UInt8) : Exec Region := do
  require .outOfBounds (0 ≤ pos)
  buffer.store pos.toNat bytes

/-- the bytes of a point -/
def cryptoEphemeralPointMarshal (bitSize : Int) (x y : UInt64) : Exec Region := do
  let byteLen ← pointByteLen bitSize
  let results ← deref (Region.malloc (toUInt64 (2 * byteLen + 1)))
  -- uncompressed point
  let results ← storeAt results 0 [4]
  let results ← storeAt results (1 + byteLen - 8) (serializeUint64 x)
  storeAt results (1 + 2 * byteLen - 8) (serializeUint64 y)

/-- `none` when the function returns 0 -/
def cryptoEphemeralPointUnmarshal (bitSize : Int) (buffer : Region) :
    Exec (Option (UInt64 × UInt64)) := do
  let byteLen ← pointByteLen bitSize
  if buffer.length ≠ toUInt64 (2 * byteLen + 1) then .ok none
  else do
    let first ← buffer.load 0 1
    if first ≠ [4] then .ok none
    else do
      let x ← buffer.load 1 8
      let y ← buffer.load 9 8
      .ok (some (unserializeUint64 x, unserializeUint64 y))

/-- an `int` from 64 on -/
abbrev CurveSize : Type := { bitSize : Int // 64 ≤ bitSize ∧ bitSize < 2 ^ 31 }

/-- the point comes back from its bytes -/
def PointRoundTrips (bitSize : CurveSize) (x y : UInt64) : Prop :=
  ∃ bytes, cryptoEphemeralPointMarshal bitSize.1 x y = .ok bytes ∧
    cryptoEphemeralPointUnmarshal bitSize.1 bytes = .ok (some (x, y))

/-! ## eight bytes -/

section
variable {x y : UInt64} {bytes : List UInt8}

theorem toUInt8_shiftRight (x : UInt64) (k : Nat) (hk : 8 * k < 64) :
    (x >>> UInt64.ofNat (8 * k)).toUInt8 = UInt8.ofNat (x.toNat / 256 ^ k) := by
  apply UInt8.toNat_inj.1
  rw [UInt64.toNat_toUInt8, UInt64.toNat_shiftRight, UInt64.toNat_ofNat', UInt8.toNat_ofNat',
    Nat.mod_eq_of_lt (lt_trans hk (by norm_num)), Nat.mod_eq_of_lt hk, Nat.shiftRight_eq_div_pow,
    pow_mul]
  norm_num

/-- **eight bytes** in the order of the network -/
theorem serializeUint64_eq (x : UInt64) : serializeUint64 x = (leBytes 8 x.toNat).reverse := by
  have hbyte := toUInt8_shiftRight x
  have h7 : (x >>> 56).toUInt8 = _ := hbyte 7 (by norm_num)
  have h6 : (x >>> 48).toUInt8 = _ := hbyte 6 (by norm_num)
  have h5 : (x >>> 40).toUInt8 = _ := hbyte 5 (by norm_num)
  have h4 : (x >>> 32).toUInt8 = _ := hbyte 4 (by norm_num)
  have h3 : (x >>> 24).toUInt8 = _ := hbyte 3 (by norm_num)
  have h2 : (x >>> 16).toUInt8 = _ := hbyte 2 (by norm_num)
  have h1 : (x >>> 8).toUInt8 = _ := hbyte 1 (by norm_num)
  have h0 : x.toUInt8 = UInt8.ofNat x.toNat := by
    apply UInt8.toNat_inj.1
    rw [UInt64.toNat_toUInt8, UInt8.toNat_ofNat']
  unfold serializeUint64
  rw [h7, h6, h5, h4, h3, h2, h1, h0]
  simp only [leBytes_succ, leBytes_zero, Nat.div_div_eq_div_mul]
  rfl

@[simp] theorem length_serializeUint64 (x : UInt64) : (serializeUint64 x).length = 8 := rfl

theorem unserializeUint64_concat (bytes : List UInt8) (b : UInt8) :
    unserializeUint64 (bytes ++ [b]) = unserializeUint64 bytes <<< 8 ||| b.toUInt64 := by
  unfold unserializeUint64
  rw [List.foldl_append]
  rfl

/-- the number that the bytes are -/
theorem toNat_unserializeUint64 (h : bytes.length ≤ 8) :
    (unserializeUint64 bytes).toNat = ofLeBytes bytes.reverse := by
  induction bytes using List.reverseRecOn with
  | nil => rfl
  | append_singleton bytes b ih =>
    have hlen : bytes.length + 1 ≤ 8 := by rwa [List.length_append] at h
    have hlt := ofLeBytes_lt bytes.reverse
    rw [List.length_reverse] at hlt
    have hseven : ofLeBytes bytes.reverse < 2 ^ 56 :=
      calc ofLeBytes bytes.reverse < 256 ^ bytes.length := hlt
        _ ≤ 256 ^ 7 := Nat.pow_le_pow_right (by norm_num) (by omega)
        _ = 2 ^ 56 := by norm_num
    have hb := b.toNat_lt
    have hshift : (8 : UInt64).toNat % 64 = 8 := rfl
    rw [unserializeUint64_concat, List.reverse_append, List.reverse_singleton, List.singleton_append,
      ofLeBytes_cons, UInt64.toNat_or, UInt64.toNat_shiftLeft, UInt8.toNat_toUInt64, hshift,
      ih (by omega), Nat.mod_eq_of_lt (by rw [Nat.shiftLeft_eq]; omega), Nat.shiftLeft_eq,
      Nat.mul_comm, ← Nat.two_pow_add_eq_or_of_lt hb]
    omega

theorem unserializeUint64_serializeUint64 (x : UInt64) :
    unserializeUint64 (serializeUint64 x) = x := by
  apply UInt64.toNat_inj.1
  rw [toNat_unserializeUint64 (le_refl _), serializeUint64_eq, List.reverse_reverse,
    ofLeBytes_leBytes (lt_of_lt_of_eq x.toNat_lt (by norm_num))]

theorem serializeUint64_unserializeUint64 (h : bytes.length = 8) :
    serializeUint64 (unserializeUint64 bytes) = bytes := by
  have hlen : bytes.reverse.length = 8 := by rw [List.length_reverse, h]
  rw [serializeUint64_eq, toNat_unserializeUint64 h.le, ← hlen, leBytes_ofLeBytes,
    List.reverse_reverse]

/-- eight bytes are those of one number -/
theorem unserializeUint64_eq_iff (h : bytes.length = 8) :
    unserializeUint64 bytes = x ↔ bytes = serializeUint64 x := by
  constructor
  · rintro rfl
    exact (serializeUint64_unserializeUint64 h).symm
  · rintro rfl
    exact unserializeUint64_serializeUint64 x

theorem serializeUint64_eq_replicate : serializeUint64 x = List.replicate 8 0 ↔ x = 0 := by
  constructor
  · intro h
    rw [← unserializeUint64_serializeUint64 x, h]
    rfl
  · rintro rfl
    rfl

end

/-! ## what a point is written as -/

/-- **what begins with itself moved on** is all padding -/
theorem replicate_of_take {α : Type} {a : α} {k : Nat} {s : List α} (hk : 0 < k)
    (h : (List.replicate k a ++ s).take s.length = s) : s = List.replicate s.length a := by
  have hget : ∀ i < s.length, s[i]? = some a := by
    intro i
    induction i using Nat.strong_induction_on with
    | _ i ih =>
      intro hi
      rw [← h, List.getElem?_take_of_lt hi]
      by_cases hik : i < k
      · rw [List.getElem?_append_left (by rwa [List.length_replicate]), List.getElem?_replicate,
          if_pos hik]
      · rw [List.getElem?_append_right (by rw [List.length_replicate]; omega), List.length_replicate]
        exact ih (i - k) (by omega) (by omega)
  refine List.ext_getElem? fun i => ?_
  by_cases hi : i < s.length
  · rw [hget i hi, List.getElem?_replicate, if_pos hi]
  · rw [List.getElem?_eq_none (by omega), List.getElem?_eq_none (by rw [List.length_replicate]; omega)]

section
variable {k : Nat} {x y : UInt64} {bitSize : Int}

/-- the bytes of a point whose fields are `k` bytes wider than a coordinate -/
def pointBytes (k : Nat) (x y : UInt64) : List UInt8 :=
  4 :: (List.replicate k 0 ++ serializeUint64 x ++ (List.replicate k 0 ++ serializeUint64 y))

theorem length_pointBytes (k : Nat) (x y : UInt64) : (pointBytes k x y).length = 2 * (8 + k) + 1 := by
  unfold pointBytes
  simp only [List.length_cons, List.length_append, List.length_replicate, length_serializeUint64]
  omega

theorem pointByteLen_eq_ok {byteLen : Int} : pointByteLen bitSize = .ok byteLen ↔
    bitSize + 7 < 2 ^ 31 ∧ (bitSize + 7) / 8 = byteLen := by
  unfold pointByteLen
  rw [require_bind_eq_ok, Except.ok.injEq]

theorem storeAt_natCast {buffer : Region} (pos : Nat) {bytes : List UInt8}
    (h : pos + bytes.length ≤ buffer.length) : storeAt buffer pos bytes =
      .ok (buffer.take pos ++ bytes ++ buffer.drop (pos + bytes.length)) := by
  unfold storeAt
  rw [require_pos (Int.natCast_nonneg pos), ok_bind, Int.toNat_natCast, Region.store_pos h]

/-- **what is written** -/
theorem marshal_eq_ok (h : pointByteLen bitSize = .ok ((8 + k : Nat) : Int)) :
    cryptoEphemeralPointMarshal bitSize x y = .ok (pointBytes k x y) := by
  obtain ⟨hint, hbyteLen⟩ := pointByteLen_eq_ok.1 h
  have hx : (serializeUint64 x).length = 8 := length_serializeUint64 x
  have hy : (serializeUint64 y).length = 8 := length_serializeUint64 y
  have hsize : toUInt64 (2 * ((8 + k : Nat) : Int) + 1) = 2 * (8 + k) + 1 := by
    have hcast : 2 * ((8 + k : Nat) : Int) + 1 = ((2 * (8 + k) + 1 : Nat) : Int) := by omega
    rw [hcast, toUInt64_natCast_of_lt (by omega)]
  have hroom : 2 * (8 + k) + 1 ≤ ptrdiffMax := by
    unfold ptrdiffMax
    omega
  have hplace : (1 : Int) + ((8 + k : Nat) : Int) - 8 = ((1 + k : Nat) : Int) := by omega
  have hplace' : (1 : Int) + 2 * ((8 + k : Nat) : Int) - 8 = ((9 + 2 * k : Nat) : Int) := by omega
  have hzeros : List.replicate (2 * (8 + k) + 1) (0 : UInt8) = 0 ::
      (List.replicate k 0 ++ (List.replicate 8 0 ++ (List.replicate k 0 ++ List.replicate 8 0))) := by
    rw [List.replicate_append_replicate, List.replicate_append_replicate,
      List.replicate_append_replicate, ← List.replicate_succ]
    congr 1
    omega
  -- the three pieces that are written
  have hfour : storeAt (List.replicate (2 * (8 + k) + 1) 0) 0 [4] = .ok (4 ::
      (List.replicate k 0 ++ (List.replicate 8 0 ++ (List.replicate k 0 ++ List.replicate 8 0)))) := by
    rw [hzeros]
    exact storeAt_natCast 0 (Nat.succ_le_succ (Nat.zero_le _))
  have hcoordinate : ∀ (front back : List UInt8) (n : Nat) (v : UInt64), front.length = n →
      storeAt (front ++ (List.replicate 8 0 ++ back)) n (serializeUint64 v) =
        .ok (front ++ (serializeUint64 v ++ back)) := by
    intro front back n v hn
    have hv : (serializeUint64 v).length = 8 := length_serializeUint64 v
    rw [storeAt_natCast n (by simp only [List.length_append, List.length_replicate]; omega), hv]
    subst hn
    rw [List.take_left, List.drop_append, List.drop_of_length_le (by omega), List.nil_append,
      Nat.add_sub_cancel_left, List.drop_left' (List.length_replicate), List.append_assoc]
  unfold cryptoEphemeralPointMarshal
  rw [h, ok_bind, hsize, Region.malloc_pos hroom, deref_some, ok_bind, hfour, ok_bind, hplace,
    hplace']
  have hfirst := hcoordinate (4 :: List.replicate k 0) (List.replicate k 0 ++ List.replicate 8 0)
    (1 + k) x (by rw [List.length_cons, List.length_replicate]; omega)
  have hsecond := hcoordinate
    (4 :: (List.replicate k 0 ++ (serializeUint64 x ++ List.replicate k 0))) [] (9 + 2 * k) y
    (by simp only [List.length_cons, List.length_append, List.length_replicate, hx]; omega)
  rw [List.append_nil, List.append_nil] at hsecond
  rw [List.cons_append] at hfirst hsecond
  rw [hfirst, ok_bind]
  refine Eq.trans (congrArg (fun buffer => storeAt buffer _ _) ?_) (hsecond.trans ?_)
  · simp only [List.append_assoc, List.cons_append]
  · unfold pointBytes
    simp only [List.append_assoc, List.cons_append]

/-- **what is read**: the sixteen bytes behind the first -/
theorem unmarshal_pointBytes (h : pointByteLen bitSize = .ok ((8 + k : Nat) : Int)) :
    cryptoEphemeralPointUnmarshal bitSize (pointBytes k x y) =
      .ok (some (unserializeUint64 (((pointBytes k x y).drop 1).take 8),
        unserializeUint64 (((pointBytes k x y).drop 9).take 8))) := by
  obtain ⟨hint, hbyteLen⟩ := pointByteLen_eq_ok.1 h
  have hlen := length_pointBytes k x y
  have hsize : (pointBytes k x y).length = toUInt64 (2 * ((8 + k : Nat) : Int) + 1) := by
    have hcast : 2 * ((8 + k : Nat) : Int) + 1 = ((2 * (8 + k) + 1 : Nat) : Int) := by omega
    rw [hlen, hcast, toUInt64_natCast_of_lt (by omega)]
  unfold cryptoEphemeralPointUnmarshal
  rw [h, ok_bind, if_neg (not_not.2 hsize), Region.load_pos (by omega), ok_bind]
  rw [if_neg (not_not.2 (show ((pointBytes k x y).drop 0).take 1 = [4] from rfl)),
    Region.load_pos (by omega), ok_bind, Region.load_pos (by omega), ok_bind]

/-- the coordinates stand in the first sixteen bytes when there is no padding, or they are zero -/
theorem coordinates_iff : (((pointBytes k x y).drop 1).take 8 = serializeUint64 x ∧
    ((pointBytes k x y).drop 9).take 8 = serializeUint64 y) ↔ k = 0 ∨ (x = 0 ∧ y = 0) := by
  have hx : (serializeUint64 x).length = 8 := length_serializeUint64 x
  have hy : (serializeUint64 y).length = 8 := length_serializeUint64 y
  constructor
  · rintro ⟨hfirst, hsecond⟩
    by_contra hnot
    obtain ⟨hk, hne⟩ := not_or.1 hnot
    have hk : 0 < k := Nat.pos_of_ne_zero hk
    have hzero : x = 0 := by
      apply serializeUint64_eq_replicate.1
      rw [← hx]
      refine replicate_of_take hk ?_
      rw [hx]
      refine Eq.trans ?_ hfirst
      exact (List.take_append_of_le_length (by rw [List.length_append, hx]; omega)).symm
    refine hne ⟨hzero, ?_⟩
    apply serializeUint64_eq_replicate.1
    rw [← hy]
    refine replicate_of_take (show 0 < 2 * k by omega) ?_
    rw [hy]
    refine Eq.trans ?_ hsecond
    have hzeros : (pointBytes k x y).drop 9 = List.replicate (2 * k) 0 ++ serializeUint64 y := by
      rw [hzero]
      unfold pointBytes
      rw [serializeUint64_eq_replicate.2 rfl, List.replicate_append_replicate, ← List.append_assoc,
        List.replicate_append_replicate]
      show (List.replicate (k + 8 + k) 0 ++ serializeUint64 y).drop 8 = _
      rw [List.drop_append_of_le_length (by rw [List.length_replicate]; omega), List.drop_replicate]
      congr 2
      omega
    rw [hzeros]
  · rintro (rfl | ⟨rfl, rfl⟩)
    · exact ⟨rfl, rfl⟩
    · have hzeros : pointBytes k 0 0 = 4 :: List.replicate (16 + 2 * k) 0 := by
        unfold pointBytes
        rw [serializeUint64_eq_replicate.2 rfl, List.replicate_append_replicate,
          List.replicate_append_replicate]
        congr 2
        omega
      rw [hzeros, serializeUint64_eq_replicate.2 rfl]
      constructor
      · show (List.replicate (16 + 2 * k) 0).take 8 = _
        rw [List.take_replicate]
        congr 1
        omega
      · show ((List.replicate (16 + 2 * k) 0).drop 8).take 8 = _
        rw [List.drop_replicate, List.take_replicate]
        congr 1
        omega

end

/-- **a point comes back** on a curve of 64 bits, and on any other when both coordinates are zero;
with seven more bits the size has to be an `int` -/
theorem pointRoundTrips_iff (bitSize : CurveSize) (x y : UInt64) : PointRoundTrips bitSize x y ↔
    bitSize.1 + 7 < 2 ^ 31 ∧ (bitSize.1 = 64 ∨ x = 0 ∧ y = 0) := by
  obtain ⟨bitSize, hlow, hhigh⟩ := bitSize
  unfold PointRoundTrips
  dsimp only
  by_cases hint : bitSize + 7 < 2 ^ 31
  · obtain ⟨k, hk⟩ : ∃ k : Nat, (bitSize + 7) / 8 = ((8 + k : Nat) : Int) :=
      ⟨((bitSize + 7) / 8 - 8).toNat, by omega⟩
    have hbyteLen : pointByteLen bitSize = .ok ((8 + k : Nat) : Int) :=
      pointByteLen_eq_ok.2 ⟨hint, hk⟩
    have hcurve : bitSize = 64 ↔ k = 0 := by omega
    have hlen := length_pointBytes k x y
    rw [marshal_eq_ok hbyteLen, hcurve, ← coordinates_iff,
      ← unserializeUint64_eq_iff (by rw [List.length_take, List.length_drop]; omega),
      ← unserializeUint64_eq_iff (by rw [List.length_take, List.length_drop]; omega)]
    constructor
    · rintro ⟨bytes, hbytes, h⟩
      cases hbytes
      rw [unmarshal_pointBytes hbyteLen] at h
      exact ⟨hint, Prod.mk.inj (Option.some.inj (Except.ok.inj h))⟩
    · rintro ⟨-, hxc, hyc⟩
      refine ⟨_, rfl, ?_⟩
      rw [unmarshal_pointBytes hbyteLen, hxc, hyc]
  · refine iff_of_false ?_ fun h => hint h.1
    rintro ⟨bytes, h, -⟩
    obtain ⟨byteLen, hbyteLen, -⟩ := bind_eq_ok.1 h
    exact hint (pointByteLen_eq_ok.1 hbyteLen).1

/-- a point of P-256 -/
theorem not_pointRoundTrips : ¬ PointRoundTrips ⟨256, by decide⟩ 1 2 := by
  rintro ⟨bytes, hbytes, h⟩
  have hmarshal : cryptoEphemeralPointMarshal 256 1 2 = .ok (pointBytes 24 1 2) := by decide +kernel
  rw [hmarshal] at hbytes
  cases hbytes
  revert h
  decide +kernel

end Libp2p
