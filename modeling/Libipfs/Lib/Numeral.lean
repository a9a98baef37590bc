import Libipfs.Lib.Exec
import Mathlib.Data.Nat.Digits.Defs

/-!
# Numbers in text

What `%u` and `%x` print and what `strtol` reads.  `strtol` stops at the first character that is
no digit, so that the buffer has to hold one.

* `numeral`               a number in a base of up to 16;
* `leadingDigits`         the digits a text begins with;
* `digits_numeral`        the digits of a numeral are those of the number;
* `strtol`                the number, and how many characters it takes;
* `strtol_numeral`        **what is printed is read**, up to `LONG_MAX`;
* `exists_strtol`         a string is read to an end, whatever it is;
* `atoi`                  a number in base ten, cut down to an `int`;
* `zeroPadded`            what `%09d` and the like print (`zeroPadded_eq`);
* `strtol_fixedDigits`    **it is read** as well, zeros in front or not.
-/

namespace CSem

/-! ## digits -/

/-- a digit, or a letter that stands for one -/
def digitOf (c : UInt8) : Option Nat :=
  if 48 ≤ c ∧ c ≤ 57 then some (c.toNat - 48)
  else if 97 ≤ c ∧ c ≤ 122 then some (c.toNat - 87)
  else if 65 ≤ c ∧ c ≤ 90 then some (c.toNat - 55)
  else none

def digitIn (base : Nat) (c : UInt8) : Option Nat := (digitOf c).filter fun d => decide (d < base)

/-- the character of a digit, a small letter from ten on -/
def digitByte (d : Nat) : UInt8 := UInt8.ofNat d.digitChar.toNat

/-- a number without leading zeros -/
def numeral (base n : Nat) : List UInt8 :=
  (Nat.toDigits base n).map fun c => UInt8.ofNat c.toNat

/-- the digits in front -/
def leadingDigits (base : Nat) : List UInt8 → List Nat
  | [] => []
  | c :: text =>
    match digitIn base c with
    | none => []
    | some d => d :: leadingDigits base text

section
variable {base n d : Nat} {c : UInt8} {text rest : List UInt8} {digits : List Nat}

theorem digitOf_digitByte : ∀ d < 16, digitOf (digitByte d) = some d := by decide

theorem digitIn_digitByte (h16 : base ≤ 16) (hd : d < base) :
    digitIn base (digitByte d) = some d := by
  unfold digitIn
  rw [digitOf_digitByte d (by omega), Option.filter_some, if_pos (decide_eq_true hd)]

theorem lt_of_digitIn (h : digitIn base c = some d) : 48 ≤ c := by
  unfold digitIn digitOf at h
  by_contra hlt
  have h48 : ¬ (48 : UInt8) ≤ c := hlt
  have h97 : ¬ (97 : UInt8) ≤ c := fun h => hlt (UInt8.le_trans (by decide) h)
  have h65 : ¬ (65 : UInt8) ≤ c := fun h => hlt (UInt8.le_trans (by decide) h)
  rw [if_neg fun h => h48 h.1, if_neg fun h => h97 h.1, if_neg fun h => h65 h.1] at h
  cases h

theorem numeral_of_lt (h : n < base) : numeral base n = [digitByte n] := by
  rw [numeral, Nat.toDigits_of_lt_base h]
  rfl

theorem numeral_append (hbase : 1 < base) (hn : 0 < n) (hd : d < base) :
    numeral base (base * n + d) = numeral base n ++ [digitByte d] := by
  rw [numeral, ← Nat.toDigits_append_toDigits hbase hn hd, List.map_append,
    Nat.toDigits_of_lt_base hd]
  rfl

theorem length_numeral_pos : 0 < (numeral base n).length := by
  rw [numeral, List.length_map]
  exact Nat.length_toDigits_pos

theorem length_numeral_le_iff {k : Nat} (hbase : 1 < base) (hk : 0 < k) :
    (numeral base n).length ≤ k ↔ n < base ^ k := by
  rw [numeral, List.length_map, Nat.length_toDigits_le_iff hbase hk]

/-- **the digits of a numeral** -/
theorem digits_numeral (hbase : 1 < base) (h16 : base ≤ 16) (n : Nat) :
    ∃ digits : List Nat, (numeral base n).map (digitIn base) = digits.map some ∧
      Nat.ofDigits base digits.reverse = n := by
  induction n using Nat.base_induction base hbase with
  | single m hm =>
    refine ⟨[m], ?_, ?_⟩
    · rw [numeral_of_lt hm, List.map_singleton, digitIn_digitByte h16 hm]
      rfl
    · exact Nat.ofDigits_singleton
  | digit m k hk hm ih =>
    obtain ⟨digits, hdigits, hvalue⟩ := ih
    refine ⟨digits ++ [k], ?_, ?_⟩
    · rw [numeral_append hbase hm hk, List.map_append, List.map_append, hdigits,
        List.map_singleton, digitIn_digitByte h16 hk]
      rfl
    · rw [List.reverse_append, List.reverse_singleton, List.singleton_append, Nat.ofDigits_cons,
        hvalue, Nat.add_comm]

theorem leadingDigits_append (h : text.map (digitIn base) = digits.map some) :
    leadingDigits base (text ++ rest) = digits ++ leadingDigits base rest := by
  induction text generalizing digits with
  | nil =>
    obtain rfl : digits = [] := List.map_eq_nil_iff.1 h.symm
    rfl
  | cons c text ih =>
    cases digits with
    | nil => cases h
    | cons d digits =>
      rw [List.map_cons, List.map_cons] at h
      obtain ⟨hc, h⟩ := List.cons.inj h
      rw [List.cons_append, leadingDigits, hc, List.cons_append, ← ih h]

theorem leadingDigits_of_none (h : digitIn base c = none) :
    leadingDigits base (c :: text) = [] := by
  rw [leadingDigits, h]

/-- digits, and behind them what is none -/
theorem leadingDigits_numeral (hbase : 1 < base) (h16 : base ≤ 16) (hc : digitIn base c = none) :
    Nat.ofDigits base (leadingDigits base (numeral base n ++ c :: rest)).reverse = n ∧
      (leadingDigits base (numeral base n ++ c :: rest)).length = (numeral base n).length := by
  obtain ⟨digits, hdigits, hvalue⟩ := digits_numeral hbase h16 n
  have hlen := congrArg List.length hdigits
  rw [List.length_map, List.length_map] at hlen
  rw [leadingDigits_append hdigits, leadingDigits_of_none hc, List.append_nil]
  exact ⟨hvalue, hlen.symm⟩

theorem numeral_injective {m : Nat} (hbase : 1 < base) (h16 : base ≤ 16)
    (h : numeral base m = numeral base n) : m = n := by
  obtain ⟨ds, hds, hm⟩ := digits_numeral hbase h16 m
  obtain ⟨es, hes, hn⟩ := digits_numeral hbase h16 n
  rw [h, hes] at hds
  have heq : es = ds := (List.map_inj_right fun _ _ => Option.some.inj).1 hds
  rw [← hm, ← hn, heq]

/-- each character of a numeral is a digit -/
theorem exists_digit_of_mem_numeral (hbase : 1 < base) (h16 : base ≤ 16) (h : c ∈ numeral base n) :
    ∃ d, digitIn base c = some d := by
  obtain ⟨digits, hdigits, -⟩ := digits_numeral hbase h16 n
  have hmem : digitIn base c ∈ digits.map some := by
    rw [← hdigits]
    exact List.mem_map_of_mem h
  obtain ⟨d, -, hd⟩ := List.mem_map.1 hmem
  exact ⟨d, hd.symm⟩

end

/-! ## strtol -/

def isSpace (c : UInt8) : Bool := c = 32 ∨ (9 ≤ c ∧ c ≤ 13)

def signLength : List UInt8 → Nat
  | c :: _ => if c = 43 ∨ c = 45 then 1 else 0
  | [] => 0

/-- `0x` in front of a digit -/
def hexLength (base : Nat) : List UInt8 → Nat
  | zero :: x :: digit :: _ =>
    if base = 16 ∧ zero = 48 ∧ (x = 120 ∨ x = 88) ∧ digitIn base digit ≠ none then 2 else 0
  | _ => 0

/-- cut down to a `long` -/
def toLong (z : Int) : Int := max (-2 ^ 63) (min z (2 ^ 63 - 1))

/-- the number, and the place of the character behind it; without a digit the place is 0 -/
def strtol (base : Nat) (buf : List UInt8) : Exec (Int × Nat) := do
  let spaces := (buf.takeWhile isSpace).length
  let signed := buf.drop spaces
  let start := spaces + signLength signed
  let start := start + hexLength base (buf.drop start)
  let digits := leadingDigits base (buf.drop start)
  require .outOfBounds (start + digits.length < buf.length)
  if digits = [] then .ok (0, 0)
  else
    let value : Nat := Nat.ofDigits base digits.reverse
    .ok (toLong (if signed.head? = some 45 then -(value : Int) else value), start + digits.length)

section
variable {base n : Nat} {c : UInt8} {spaces rest : List UInt8}

theorem not_isSpace_of_le (h : 48 ≤ c) : isSpace c = false := by
  unfold isSpace
  refine decide_eq_false fun hor => ?_
  rcases hor with rfl | ⟨-, h13⟩
  · exact absurd h (by decide)
  · exact absurd (UInt8.le_trans h h13) (by decide)

theorem takeWhile_isSpace (hspaces : ∀ s ∈ spaces, isSpace s = true) (hc : isSpace c = false) :
    (spaces ++ c :: rest).takeWhile isSpace = spaces := by
  rw [List.takeWhile_append_of_pos hspaces, List.takeWhile_cons, hc]
  exact List.append_nil _

/-- **what is printed is read**, with spaces in front of it -/
theorem strtol_numeral (hbase : 1 < base) (h16 : base ≤ 16)
    (hspaces : ∀ s ∈ spaces, isSpace s = true) (hc : digitIn base c = none)
    (hx : c ≠ 120 ∧ c ≠ 88) :
    strtol base (spaces ++ (numeral base n ++ c :: rest)) =
      .ok (toLong n, spaces.length + (numeral base n).length) := by
  obtain ⟨hvalue, hlen⟩ := @leadingDigits_numeral base n c rest hbase h16 hc
  have hmem := @exists_digit_of_mem_numeral base n
  have hpos : 0 < (numeral base n).length := length_numeral_pos
  -- the first character is a digit, and so no space and no sign
  obtain ⟨first, others, hnum⟩ : ∃ first others, numeral base n = first :: others :=
    List.exists_cons_of_length_pos hpos
  have hfirst : ∃ d, digitIn base first = some d :=
    hmem hbase h16 (by rw [hnum]; exact List.mem_cons_self)
  obtain ⟨d, hd⟩ := hfirst
  have h48 := lt_of_digitIn hd
  have hsign : ¬ (first = 43 ∨ first = 45) := by
    rintro (rfl | rfl)
    · exact absurd h48 (by decide)
    · exact absurd h48 (by decide)
  have htake : (spaces ++ (numeral base n ++ c :: rest)).takeWhile isSpace = spaces := by
    rw [hnum, List.cons_append]
    exact takeWhile_isSpace hspaces (not_isSpace_of_le h48)
  have hdrop : (spaces ++ (numeral base n ++ c :: rest)).drop spaces.length =
      numeral base n ++ c :: rest := List.drop_left
  have hsigned : signLength (numeral base n ++ c :: rest) = 0 := by
    rw [hnum, List.cons_append]
    exact if_neg hsign
  -- no character is an `x`
  have hhex : hexLength base (numeral base n ++ c :: rest) = 0 := by
    have hnot : ∀ x ∈ numeral base n ++ [c], base = 16 → ¬ (x = 120 ∨ x = 88) := by
      intro x hxmem hb hor
      rcases List.mem_append.1 hxmem with hxn | hxc
      · obtain ⟨e, he⟩ := hmem hbase h16 hxn
        subst hb
        rcases hor with rfl | rfl
        · exact absurd he (by decide +revert)
        · exact absurd he (by decide +revert)
      · obtain rfl := List.mem_singleton.1 hxc
        exact hor.elim hx.1 hx.2
    cases hothers : others with
    | nil =>
      rw [hnum, hothers] at hnot ⊢
      cases rest with
      | nil => rfl
      | cons r rest =>
        exact if_neg fun h => hnot c (by simp) h.1 h.2.2.1
    | cons second others =>
      rw [hnum, hothers] at hnot ⊢
      cases hmore : others ++ c :: rest with
      | nil => exact absurd hmore (by simp)
      | cons e more =>
        have hshape : (first :: second :: others) ++ c :: rest = first :: second :: e :: more := by
          rw [List.cons_append, List.cons_append, hmore]
        rw [hshape]
        exact if_neg fun h => hnot second (by simp) h.1 h.2.2.1
  unfold strtol
  simp only [htake, hdrop, hsigned, Nat.add_zero, hhex, hvalue, hlen]
  have hbuf : (spaces ++ (numeral base n ++ c :: rest)).length =
      spaces.length + ((numeral base n).length + (rest.length + 1)) := by
    simp only [List.length_append, List.length_cons]
  rw [require_pos (by omega), ok_bind]
  have hne : leadingDigits base (numeral base n ++ c :: rest) ≠ [] := by
    intro hnil
    rw [hnil, List.length_nil] at hlen
    omega
  have hminus : ¬ (numeral base n ++ c :: rest).head? = some 45 := by
    rw [hnum, List.cons_append, List.head?_cons]
    exact fun h => hsign (.inr (Option.some.inj h))
  rw [if_neg hne, if_neg hminus]

theorem toLong_natCast_of_lt (h : n < 2 ^ 63) : toLong n = n := by
  unfold toLong
  omega

/-! ### in front of a zero byte -/

theorem digitIn_zero (base : Nat) : digitIn base 0 = none := by
  have hzero : digitOf 0 = none := by decide
  rw [digitIn, hzero]
  rfl

theorem length_leadingDigits_le (text : List UInt8) :
    (leadingDigits base (text ++ [0])).length ≤ text.length := by
  induction text with
  | nil =>
    rw [List.nil_append, leadingDigits_of_none (digitIn_zero base)]
    exact Nat.le_refl 0
  | cons c text ih =>
    rw [List.cons_append, leadingDigits]
    cases digitIn base c with
    | none => exact Nat.zero_le _
    | some d => exact Nat.succ_le_succ ih

theorem length_spaces_le (text : List UInt8) :
    ((text ++ [0]).takeWhile isSpace).length ≤ text.length := by
  induction text with
  | nil => exact Nat.le_refl 0
  | cons c text ih =>
    rw [List.cons_append, List.takeWhile_cons]
    split
    · exact Nat.succ_le_succ ih
    · exact Nat.zero_le _

theorem signLength_le (text : List UInt8) : signLength (text ++ [0]) ≤ text.length := by
  cases text with
  | nil => exact Nat.le_refl 0
  | cons c text =>
    rw [List.cons_append, signLength, List.length_cons]
    split
    · omega
    · omega

/-- the zero byte is no digit behind `0x` -/
theorem hexLength_le (text : List UInt8) : hexLength base (text ++ [0]) ≤ text.length := by
  match text with
  | [] => exact Nat.le_refl 0
  | [c] => exact Nat.zero_le _
  | [c, d] =>
    have hnot : hexLength base ([c, d] ++ [0]) = 0 := if_neg fun h => h.2.2.2 (digitIn_zero base)
    rw [hnot]
    exact Nat.zero_le _
  | c :: d :: e :: text =>
    rw [List.cons_append, List.cons_append, List.cons_append, hexLength, List.length_cons,
      List.length_cons]
    split
    · omega
    · omega

/-- **a string** is always read to an end -/
theorem exists_strtol (base : Nat) (text : List UInt8) :
    ∃ value length, strtol base (text ++ [0]) = .ok (value, length) := by
  -- each step stays in front of the zero byte
  have hstep : ∀ (f : List UInt8 → Nat), (∀ text, f (text ++ [0]) ≤ text.length) →
      ∀ k ≤ text.length, k + f ((text ++ [0]).drop k) ≤ text.length := by
    intro f hf k hk
    have hle := hf (text.drop k)
    rw [List.length_drop] at hle
    rw [List.drop_append_of_le_length hk]
    omega
  have hsign := hstep signLength signLength_le _ (length_spaces_le text)
  have hhex := hstep (hexLength base) hexLength_le _ hsign
  have hdigits := hstep (fun text => (leadingDigits base text).length) length_leadingDigits_le _ hhex
  unfold strtol
  dsimp only at hdigits ⊢
  rw [require_pos (by rw [List.length_append, List.length_singleton]; omega), ok_bind]
  split
  · exact ⟨0, 0, rfl⟩
  · exact ⟨_, _, rfl⟩

end

/-! ## atoi -/

/-- the number a string begins with, 0 where there is none -/
def atoi (text : List UInt8) : Exec Int := do
  let (value, _) ← strtol 10 (text ++ [0])
  .ok (toInt32 value)

theorem exists_atoi (text : List UInt8) : ∃ value, atoi text = .ok value := by
  obtain ⟨value, length, h⟩ := exists_strtol 10 text
  unfold atoi
  rw [h, ok_bind]
  exact ⟨_, rfl⟩

theorem strtol_numeral_nil {n : Nat} (h : n < 2 ^ 63) :
    strtol 10 (numeral 10 n ++ [0]) = .ok ((n : Int), (numeral 10 n).length) := by
  have hspaces : ∀ s ∈ ([] : List UInt8), isSpace s = true := fun s hs => by cases hs
  have hread := @strtol_numeral 10 n 0 [] [] (by decide) (by decide) hspaces (by decide) (by decide)
  rwa [List.nil_append, List.length_nil, Nat.zero_add, toLong_natCast_of_lt h] at hread

theorem atoi_numeral {n : Nat} (h : n < 2 ^ 31) : atoi (numeral 10 n) = .ok n := by
  unfold atoi
  rw [strtol_numeral_nil (by omega), ok_bind]
  exact congrArg Except.ok (toInt32_natCast_of_lt h)

/-! ## so many digits -/

/-- zeros in front, up to so many characters -/
def zeroPadded (width n : Nat) : List UInt8 :=
  List.replicate (width - (numeral 10 n).length) 48 ++ numeral 10 n

/-- the last `k` digits -/
def fixedDigits : Nat → Nat → List UInt8
  | 0, _ => []
  | k + 1, n => digitByte (n / 10 ^ k % 10) :: fixedDigits k n

section
variable {k n d : Nat} {c : UInt8} {text rest : List UInt8} {digits : List Nat}

theorem length_fixedDigits (k n : Nat) : (fixedDigits k n).length = k := by
  induction k with
  | zero => rfl
  | succ k ih => rw [fixedDigits, List.length_cons, ih]

theorem fixedDigits_succ (k n : Nat) :
    fixedDigits (k + 1) n = fixedDigits k (n / 10) ++ [digitByte (n % 10)] := by
  induction k with
  | zero =>
    show [digitByte (n / 10 ^ 0 % 10)] = [digitByte (n % 10)]
    rw [pow_zero, Nat.div_one]
  | succ k ih =>
    rw [fixedDigits, ih, fixedDigits, List.cons_append, Nat.div_div_eq_div_mul, ← pow_succ']

/-- **a number of at most so many digits** -/
theorem zeroPadded_eq (h : n < 10 ^ (k + 1)) : zeroPadded (k + 1) n = fixedDigits (k + 1) n := by
  induction k generalizing n with
  | zero =>
    have hlt : n < 10 := h
    rw [zeroPadded, numeral_of_lt hlt, fixedDigits, pow_zero, Nat.div_one, Nat.mod_eq_of_lt hlt]
    rfl
  | succ k ih =>
    have hdiv : n / 10 < 10 ^ (k + 1) := by
      rw [Nat.div_lt_iff_lt_mul (by norm_num), ← pow_succ]
      exact h
    rw [fixedDigits_succ, ← ih hdiv, zeroPadded, zeroPadded]
    by_cases hlt : n < 10
    · have hzero : n / 10 = 0 := Nat.div_eq_of_lt hlt
      rw [hzero, numeral_of_lt hlt, numeral_of_lt (by norm_num), Nat.mod_eq_of_lt hlt,
        List.length_singleton, List.length_singleton, Nat.add_sub_cancel, Nat.add_sub_cancel,
        List.replicate_succ']
      rfl
    · have hsplit : numeral 10 n = numeral 10 (n / 10) ++ [digitByte (n % 10)] := by
        rw [← numeral_append (by norm_num) (by omega) (Nat.mod_lt n (by norm_num)), Nat.div_add_mod]
      rw [hsplit, List.length_append, List.length_singleton, Nat.add_sub_add_right, List.append_assoc]

/-- the digits, and the number that they are -/
theorem digits_fixedDigits (k n : Nat) : ∃ digits : List Nat,
    (fixedDigits k n).map (digitIn 10) = digits.map some ∧
      Nat.ofDigits 10 digits.reverse = n % 10 ^ k := by
  induction k generalizing n with
  | zero => exact ⟨[], rfl, by rw [pow_zero, Nat.mod_one]; rfl⟩
  | succ k ih =>
    obtain ⟨digits, hdigits, hvalue⟩ := ih (n / 10)
    refine ⟨digits ++ [n % 10], ?_, ?_⟩
    · rw [fixedDigits_succ, List.map_append, hdigits, List.map_append, List.map_singleton,
        digitIn_digitByte (by norm_num) (Nat.mod_lt n (by norm_num))]
      rfl
    · rw [List.reverse_append, List.reverse_singleton, List.singleton_append, Nat.ofDigits_cons, hvalue,
        pow_succ', Nat.mod_mul]

/-- digits in front of what is none -/
theorem strtol_digits (h : text.map (digitIn 10) = digits.map some) (hne : text ≠ [])
    (hc : digitIn 10 c = none) :
    strtol 10 (text ++ c :: rest) =
      .ok (toLong (Nat.ofDigits 10 digits.reverse : Nat), text.length) := by
  have hlen := congrArg List.length h
  rw [List.length_map, List.length_map] at hlen
  have hleading : leadingDigits 10 (text ++ c :: rest) = digits := by
    rw [leadingDigits_append h, leadingDigits_of_none hc, List.append_nil]
  obtain ⟨first, others, rfl⟩ := List.exists_cons_of_ne_nil hne
  obtain ⟨d, ds, rfl⟩ : ∃ d ds, digits = d :: ds :=
    List.exists_cons_of_ne_nil (List.ne_nil_of_length_pos (by rw [← hlen]; exact Nat.succ_pos _))
  rw [List.map_cons, List.map_cons] at h
  have h48 := lt_of_digitIn (List.cons.inj h).1
  have hsign : ¬ (first = 43 ∨ first = 45) := by
    rintro (rfl | rfl)
    · exact absurd h48 (by decide)
    · exact absurd h48 (by decide)
  have hhex (text : List UInt8) : hexLength 10 text = 0 := by
    unfold hexLength
    split
    · exact if_neg fun h => absurd h.1 (by decide)
    · rfl
  have hspace : ((first :: others) ++ c :: rest).takeWhile isSpace = [] := by
    rw [List.cons_append, List.takeWhile_cons, not_isSpace_of_le h48]
    rfl
  have hsigned : signLength ((first :: others) ++ c :: rest) = 0 := if_neg hsign
  have hminus : ¬ ((first :: others) ++ c :: rest).head? = some 45 :=
    fun h => hsign (.inr (Option.some.inj h))
  unfold strtol
  simp only [hspace, List.length_nil, List.drop_zero, hsigned, Nat.add_zero, hhex, hleading, ← hlen,
    Nat.zero_add]
  rw [require_pos (by rw [List.length_append, List.length_cons, List.length_cons]; omega), ok_bind,
    if_neg (List.cons_ne_nil d ds), if_neg hminus]

/-- **so many digits** in front of what is none -/
theorem strtol_fixedDigits (hk : 0 < k) (hn : n < 10 ^ k) (hc : digitIn 10 c = none) :
    strtol 10 (fixedDigits k n ++ c :: rest) = .ok (toLong n, k) := by
  obtain ⟨digits, hdigits, hvalue⟩ := digits_fixedDigits k n
  have hne : fixedDigits k n ≠ [] := List.ne_nil_of_length_pos (by rw [length_fixedDigits]; exact hk)
  rw [strtol_digits hdigits hne hc, hvalue, Nat.mod_eq_of_lt hn, length_fixedDigits]

end

end CSem
