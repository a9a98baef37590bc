import Libipfs.Blocks.Cid
import Mathlib.Data.Set.Basic

/-!
# Comparing content identifiers

`ipfs_cid_compare` returns a difference: of the versions, of the codecs, of the lengths of the
hashes, or of the first two bytes that differ.  The first two are subtracted as `int`, the third as
`size_t` and cut down to an `int`.

* `Cid.order`          what the differences are to be the signs of: CIDs in lexicographic order;
* `cidDifference`      the difference `cidCompare` cuts down to an `int`;
* `compare_cidDifference`   its sign is the order;
* `cidCompare_iff`     when the comparison of a set of CIDs is an order whose zero is equality.
-/

namespace Ipfs
open CSem Libp2p

/-! ## the order -/

/-- by version, then by codec, then by the length of the hash, then by the hash -/
def Cid.order : Cid → Cid → Ordering :=
  compareLex (compareOn fun cid => cid.version.toInt) <|
    compareLex (compareOn fun cid => cid.codec.toInt) <|
      compareLex (compareOn fun cid => cid.hash.length) (compareOn fun cid => cid.hash)

instance : Ord Cid := ⟨Cid.order⟩

instance : Std.TransOrd Cid := inferInstanceAs (Std.TransCmp (compareLex _ _))

theorem Cid.compare_eq (a b : Cid) : compare a b =
    (compare a.version.toInt b.version.toInt).then ((compare a.codec.toInt b.codec.toInt).then
      ((compare a.hash.length b.hash.length).then (compare a.hash b.hash))) := rfl

instance : Std.LawfulEqOrd Cid where
  compare_self {a} := by
    rw [Cid.compare_eq]
    simp
  eq_of_compare {a b} h := by
    rw [Cid.compare_eq] at h
    simp only [Ordering.then_eq_eq, Std.LawfulEqOrd.compare_eq_iff_eq] at h
    obtain ⟨hv, hc, -, hh⟩ := h
    cases a
    cases b
    cases Int32.toInt.inj hv
    cases Int32.toInt.inj hc
    cases hh
    rfl

/-! ## the difference -/

/-- what `ipfs_cid_compare` subtracts, as a whole number -/
def cidDifference (a b : Option Cid) : Int :=
  match a, b with
  | none, none => 0
  | some _, none => -1
  | none, some _ => 1
  | some a, some b =>
    if a.version ≠ b.version then b.version.toInt - a.version.toInt
    else if a.codec ≠ b.codec then b.codec.toInt - a.codec.toInt
    else if a.hash.length ≠ b.hash.length then b.hash.length - a.hash.length
    else bytesCompare unsignedChar a.hash b.hash

theorem unsignedChar_bounds (b : UInt8) : 0 ≤ unsignedChar b ∧ unsignedChar b < 256 := by
  have h := b.toNat_lt
  unfold unsignedChar
  omega

theorem bytesCompare_bounds (a b : List UInt8) :
    -256 < bytesCompare unsignedChar a b ∧ bytesCompare unsignedChar a b < 256 := by
  induction a generalizing b with
  | nil => simp [bytesCompare]
  | cons x a ih =>
    cases b with
    | nil => simp [bytesCompare]
    | cons y b =>
      rw [bytesCompare]
      have hx := unsignedChar_bounds x
      have hy := unsignedChar_bounds y
      by_cases hxy : x ≠ y
      · rw [if_pos hxy]
        omega
      · rw [if_neg hxy]
        exact ih b

theorem cidCompare_eq (a b : Option Cid) : cidCompare a b = toInt32 (cidDifference a b) := by
  cases a with
  | none =>
    cases b with
    | none => exact (@toInt32_of_lt 0 (by decide) (by decide)).symm
    | some b => exact (@toInt32_of_lt 1 (by decide) (by decide)).symm
  | some a =>
    cases b with
    | none => exact (@toInt32_of_lt (-1) (by decide) (by decide)).symm
    | some b =>
      have hb := bytesCompare_bounds a.hash b.hash
      have e : toInt32 (bytesCompare unsignedChar a.hash b.hash) = _ :=
        toInt32_of_lt (by omega) (by omega)
      unfold cidCompare cidDifference
      simp only [apply_ite toInt32, e]

theorem compare_zero_sub (x y : Int) : compare 0 (y - x) = compare x y := by
  rcases Int.lt_trichotomy x y with h | h | h
  · rw [compare_lt_iff_lt.2 h, compare_lt_iff_lt.2 (by omega)]
  · rw [compare_eq_iff_eq.2 h, compare_eq_iff_eq.2 (by omega)]
  · rw [compare_gt_iff_gt.2 h, compare_gt_iff_gt.2 (by omega)]

theorem compare_unsignedChar (x y : UInt8) :
    compare (unsignedChar x) (unsignedChar y) = compare x y := by
  show compareOfLessAndEq _ _ = compareOfLessAndEq _ _
  unfold compareOfLessAndEq unsignedChar
  simp only [UInt8.lt_iff_toNat_lt, ← UInt8.toNat_inj, Int.ofNat_lt, Int.ofNat_inj]

theorem compare_natCast (m n : Nat) : compare (m : Int) n = compare m n := by
  show compareOfLessAndEq _ _ = compareOfLessAndEq _ _
  unfold compareOfLessAndEq
  simp only [Int.ofNat_lt, Int.ofNat_inj]

/-- a first comparison that decides -/
theorem then_of_ne_eq {o o' : Ordering} (h : o ≠ .eq) : o.then o' = o := by
  cases o with
  | eq => exact absurd rfl h
  | lt => rfl
  | gt => rfl

theorem compare_bytesCompare {a b : List UInt8} (hl : a.length = b.length) :
    compare 0 (bytesCompare unsignedChar a b) = compare a b := by
  induction a generalizing b with
  | nil =>
    cases List.eq_nil_of_length_eq_zero hl.symm
    rfl
  | cons x a ih =>
    cases b with
    | nil => cases hl
    | cons y b =>
      rw [bytesCompare, List.compare_cons_cons]
      by_cases hxy : x = y
      · have e : compare x y = .eq := Std.LawfulEqOrd.compare_eq_iff_eq.2 hxy
        rw [if_neg (not_not.2 hxy), ih (Nat.succ.inj hl), e]
        rfl
      · have hne : compare x y ≠ .eq := fun h => hxy (Std.LawfulEqOrd.compare_eq_iff_eq.1 h)
        rw [if_pos hxy, compare_zero_sub, compare_unsignedChar, then_of_ne_eq hne]

theorem compare_int32_ne_eq {x y : Int32} (h : x ≠ y) : compare x.toInt y.toInt ≠ .eq :=
  fun e => h (Int32.toInt.inj (compare_eq_iff_eq.1 e))

/-- **the sign of the difference** is the order -/
theorem compare_cidDifference (a b : Option Cid) :
    compare 0 (cidDifference a b) = compare a b := by
  cases a with
  | none => cases b <;> rfl
  | some a =>
    cases b with
    | none => rfl
    | some b =>
      show compare 0 (ite _ _ _) = compare a b
      rw [Cid.compare_eq]
      by_cases hv : a.version = b.version
      · have ev : compare a.version.toInt b.version.toInt = .eq :=
          compare_eq_iff_eq.2 (congrArg Int32.toInt hv)
        rw [if_neg (not_not.2 hv), ev]
        by_cases hc : a.codec = b.codec
        · have ec : compare a.codec.toInt b.codec.toInt = .eq :=
            compare_eq_iff_eq.2 (congrArg Int32.toInt hc)
          rw [if_neg (not_not.2 hc), ec]
          by_cases hl : a.hash.length = b.hash.length
          · have el : compare a.hash.length b.hash.length = .eq := compare_eq_iff_eq.2 hl
            rw [if_neg (not_not.2 hl), el]
            exact compare_bytesCompare hl
          · have hne : compare a.hash.length b.hash.length ≠ .eq :=
              fun h => hl (compare_eq_iff_eq.1 h)
            rw [if_pos hl, compare_zero_sub, then_of_ne_eq hne]
            exact compare_natCast ..
        · rw [if_pos hc, compare_zero_sub, then_of_ne_eq (compare_int32_ne_eq hc)]
          rfl
      · rw [if_pos hv, compare_zero_sub, then_of_ne_eq (compare_int32_ne_eq hv)]

/-! ## when the difference keeps its sign -/

/-- the subtractions the source makes in `int` do not overflow -/
structure IntDifferencesFit (a b : Cid) : Prop where
  version : a.version ≠ b.version → -2 ^ 31 ≤ b.version.toInt - a.version.toInt ∧
    b.version.toInt - a.version.toInt < 2 ^ 31
  codec : a.version = b.version → a.codec ≠ b.codec →
    -2 ^ 31 ≤ b.codec.toInt - a.codec.toInt ∧ b.codec.toInt - a.codec.toInt < 2 ^ 31

/-- **the law of a comparison** on a set of CIDs; the null pointer may be one of them -/
structure CidCompareLaw (cids : Set (Option Cid)) : Prop where
  fit : ∀ a b, some a ∈ cids → some b ∈ cids → IntDifferencesFit a b
  sign : ∀ a ∈ cids, ∀ b ∈ cids, (cidCompare a b).sign = (cidDifference a b).sign
  antisymm : ∀ a ∈ cids, ∀ b ∈ cids, (cidCompare b a).sign = -(cidCompare a b).sign
  trans : ∀ a ∈ cids, ∀ b ∈ cids, ∀ c ∈ cids,
    cidCompare a b ≤ 0 → cidCompare b c ≤ 0 → cidCompare a c ≤ 0
  eq_zero : ∀ a ∈ cids, ∀ b ∈ cids, cidCompare a b = 0 ↔ a = b

/-- versions, and then codecs, less than `2 ^ 31` apart, and then lengths of hashes whose
difference keeps its sign in an `int` -/
structure Comparable (a b : Cid) : Prop where
  version : (b.version.toInt - a.version.toInt).natAbs < 2 ^ 31
  codec : a.version = b.version → (b.codec.toInt - a.codec.toInt).natAbs < 2 ^ 31
  hash : a.version = b.version → a.codec = b.codec → a.hash.length ≠ b.hash.length →
    0 < ((b.hash.length : Int) - a.hash.length).natAbs % 2 ^ 32 ∧
      ((b.hash.length : Int) - a.hash.length).natAbs % 2 ^ 32 < 2 ^ 31

theorem sign_toInt32_of_natAbs_lt {z : Int} (h : z.natAbs < 2 ^ 31) :
    (toInt32 z).sign = z.sign := by
  rw [toInt32_of_lt (by omega) (by omega)]

theorem toInt32_signs_iff (n : Nat) :
    (0 < toInt32 n ∧ toInt32 (-n) < 0) ↔ 0 < n % 2 ^ 32 ∧ n % 2 ^ 32 < 2 ^ 31 := by
  unfold toInt32 Int.bmod
  norm_num
  omega

/-- a whole number and its negative keep their signs -/
theorem sign_toInt32_iff {z : Int} (h : z ≠ 0) :
    ((toInt32 z).sign = z.sign ∧ (toInt32 (-z)).sign = (-z).sign) ↔
      0 < z.natAbs % 2 ^ 32 ∧ z.natAbs % 2 ^ 32 < 2 ^ 31 := by
  rw [← toInt32_signs_iff]
  rcases Int.lt_or_gt_of_ne h with hz | hz
  · have e : z = -z.natAbs := by omega
    have e' : (-z : Int) = z.natAbs := by omega
    rw [Int.sign_eq_neg_one_of_neg hz, Int.sign_eq_one_of_pos (by omega : 0 < -z), e', ← e,
      Int.sign_eq_neg_one_iff_neg, Int.sign_eq_one_iff_pos]
    exact and_comm
  · have e : (z.natAbs : Int) = z := by omega
    rw [Int.sign_eq_one_of_pos hz, Int.sign_eq_neg_one_of_neg (by omega : -z < 0), e,
      Int.sign_eq_neg_one_iff_neg, Int.sign_eq_one_iff_pos]

theorem cidDifference_lengths {a b : Cid} (hv : a.version = b.version) (hc : a.codec = b.codec)
    (hl : a.hash.length ≠ b.hash.length) :
    cidDifference (some a) (some b) = b.hash.length - a.hash.length := by
  show (ite _ _ _ : Int) = _
  rw [if_neg (not_not.2 hv), if_neg (not_not.2 hc), if_pos hl]

theorem Comparable.sign {a b : Cid} (h : Comparable a b) :
    (cidCompare (some a) (some b)).sign = (cidDifference (some a) (some b)).sign := by
  rw [cidCompare_eq]
  show (toInt32 (ite _ _ _)).sign = (ite _ _ _ : Int).sign
  by_cases hv : a.version = b.version
  · rw [if_neg (not_not.2 hv)]
    by_cases hc : a.codec = b.codec
    · rw [if_neg (not_not.2 hc)]
      by_cases hl : a.hash.length = b.hash.length
      · have hb := bytesCompare_bounds a.hash b.hash
        rw [if_neg (not_not.2 hl)]
        exact sign_toInt32_of_natAbs_lt (by omega)
      · rw [if_pos hl]
        exact ((sign_toInt32_iff (by omega)).2 (h.hash hv hc hl)).1
    · rw [if_pos hc]
      exact sign_toInt32_of_natAbs_lt (h.codec hv)
  · rw [if_pos hv]
    exact sign_toInt32_of_natAbs_lt h.version

theorem compare_zero_of_sign {x y : Int} (h : x.sign = y.sign) : compare 0 x = compare 0 y := by
  rcases Int.lt_trichotomy 0 y with hy | hy | hy
  · rw [Int.sign_eq_one_of_pos hy] at h
    rw [compare_lt_iff_lt.2 hy, compare_lt_iff_lt.2 (Int.sign_eq_one_iff_pos.1 h)]
  · rw [← hy] at h ⊢
    rw [Int.sign_eq_zero_iff_zero.1 h]
  · rw [Int.sign_eq_neg_one_of_neg hy] at h
    rw [compare_gt_iff_gt.2 hy, compare_gt_iff_gt.2 (Int.sign_eq_neg_one_iff_neg.1 h)]

theorem compare_zero_eq_swap {x y : Int} (h : compare 0 y = (compare 0 x).swap) :
    y.sign = -x.sign := by
  rcases Int.lt_trichotomy 0 x with hx | hx | hx
  · rw [compare_lt_iff_lt.2 hx] at h
    rw [Int.sign_eq_one_of_pos hx, Int.sign_eq_neg_one_of_neg (compare_gt_iff_gt.1 h)]
  · rw [compare_eq_iff_eq.2 hx] at h
    rw [← hx, ← compare_eq_iff_eq.1 h]
    rfl
  · rw [compare_gt_iff_gt.2 hx] at h
    rw [Int.sign_eq_neg_one_of_neg hx, Int.sign_eq_one_of_pos (compare_lt_iff_lt.1 h)]
    rfl

theorem isGE_compare_zero {z : Int} : (compare 0 z).isGE ↔ z ≤ 0 := by
  rw [Ordering.isGE_iff_ne_lt, compare_lt_iff_lt, Int.not_lt]

variable {cids : Set (Option Cid)}

/-- a comparison with the signs of the differences is the order -/
theorem CidCompareLaw.of_sign
    (hfit : ∀ a b, some a ∈ cids → some b ∈ cids → IntDifferencesFit a b)
    (hsign : ∀ a ∈ cids, ∀ b ∈ cids, (cidCompare a b).sign = (cidDifference a b).sign) :
    CidCompareLaw cids := by
  have hcompare : ∀ a ∈ cids, ∀ b ∈ cids, compare 0 (cidCompare a b) = compare a b := by
    intro a ha b hb
    rw [compare_zero_of_sign (hsign a ha b hb), compare_cidDifference]
  refine { fit := hfit, sign := hsign, antisymm := ?_, trans := ?_, eq_zero := ?_ }
  · intro a ha b hb
    apply compare_zero_eq_swap
    rw [hcompare a ha b hb, hcompare b hb a ha]
    exact Std.OrientedOrd.eq_swap
  · intro a ha b hb c hc hab hbc
    rw [← isGE_compare_zero, hcompare a ha b hb] at hab
    rw [← isGE_compare_zero, hcompare b hb c hc] at hbc
    rw [← isGE_compare_zero, hcompare a ha c hc]
    exact Std.TransCmp.isGE_trans hab hbc
  · intro a ha b hb
    rw [← Std.LawfulEqOrd.compare_eq_iff_eq (a := a), ← hcompare a ha b hb, compare_eq_iff_eq]
    exact eq_comm

/-! ## the law -/

/-- **comparing CIDs** is a total preorder whose zero is equality, with no difference overflowing
or changing its sign, iff any two of the CIDs are comparable -/
theorem cidCompare_iff (cids : Set (Option Cid)) : CidCompareLaw cids ↔
    ∀ a b, some a ∈ cids → some b ∈ cids → Comparable a b := by
  constructor
  · intro h a b ha hb
    have hfit := h.fit a b ha hb
    refine { version := ?_, codec := fun hv => ?_, hash := fun hv hc hl => ?_ }
    · by_cases hv : a.version = b.version
      · rw [hv]
        omega
      · have h1 := hfit.version hv
        have h2 := (h.fit b a hb ha).version (Ne.symm hv)
        omega
    · by_cases hc : a.codec = b.codec
      · rw [hc]
        omega
      · have h1 := hfit.codec hv hc
        have h2 := (h.fit b a hb ha).codec hv.symm (Ne.symm hc)
        omega
    · rw [← sign_toInt32_iff (by omega)]
      have hab := h.sign _ ha _ hb
      have hba := h.sign _ hb _ ha
      rw [cidCompare_eq, cidDifference_lengths hv hc hl] at hab
      rw [cidCompare_eq, cidDifference_lengths hv.symm hc.symm (Ne.symm hl)] at hba
      rw [Int.neg_sub]
      exact ⟨hab, hba⟩
  · intro h
    apply CidCompareLaw.of_sign
    · intro a b ha hb
      have hc := h a b ha hb
      refine { version := fun _ => ?_, codec := fun hv _ => ?_ }
      · have := hc.version
        omega
      · have := hc.codec hv
        omega
    · intro a ha b hb
      cases a with
      | none =>
        cases b with
        | none => rfl
        | some b => rfl
      | some a =>
        cases b with
        | none => rfl
        | some b => exact (h a b ha hb).sign

/-- what the decoders can produce -/
def Decodable (cid : Option Cid) : Prop :=
  (∃ buffer, cidProtobufDecode buffer = .ok (some cid)) ∨
    (∃ incoming, cidCast incoming = .ok cid ∧ cid ≠ none) ∨
      (∃ incoming, cidDecodeHashFromBase58 incoming = cid ∧ cid ≠ none)

/-- the largest version and `-1`, as a peer sends them, are `2 ^ 31` apart -/
theorem not_cidCompare : ¬ CidCompareLaw Decodable := by
  have hdecodes : ∀ version : Int32,
      Decodable (some { version := version, codec := 0, hash := [] }) := by
    intro version
    refine .inl ⟨_, cidProtobufDecode_cidBytes { version := version, codec := 0, hash := [] } ?_⟩
    have h := cidBytes_length_le (some { version := version, codec := 0, hash := [] })
    exact Nat.lt_of_le_of_lt h (by norm_num [cidProtobufEncodeSize])
  intro h
  have hfit := (h.fit _ _ (hdecodes (-1)) (hdecodes 2147483647)).version (by decide)
  exact absurd hfit (by decide)

end Ipfs
