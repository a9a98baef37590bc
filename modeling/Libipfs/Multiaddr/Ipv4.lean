import Libipfs.Lib.Words
import Libipfs.Multiaddr.ProtoUtils

/-!
# The validator of IPv4 addresses

`is_valid_ipv4` goes on to the next word only behind a number from 0 to 255.  What is between two
dots is a word only if there is something.

* `Ipv4Address`         four decimal numbers up to 255 with dots between them;
* `isValidIpv4_eq_ok`   when the validator ends, and with what;
* `inRange_iff`         a word of digits is in range if its number is;
* `ipv4Decided_iff`     **when the validator decides the grammar**.
-/

namespace Libp2p
open CSem

/-! ## the grammar -/

/-- the number that decimal digits stand for -/
def decimalValue (word : List UInt8) : Nat := Nat.ofDigits 10 (leadingDigits 10 word).reverse

/-- decimal digits, and a number up to 255 -/
structure IsOctet (word : List UInt8) : Prop where
  nonempty : word ≠ []
  digits : validDigit word = true
  small : decimalValue word ≤ 255

/-- four numbers with single dots between them, and nothing else -/
def Ipv4Address (text : List UInt8) : Prop :=
  ∃ a b c d, text = a ++ 46 :: (b ++ 46 :: (c ++ 46 :: d)) ∧
    IsOctet a ∧ IsOctet b ∧ IsOctet c ∧ IsOctet d

/-- a string in which the numbers fit an `int` -/
structure NumberText where
  text : List UInt8
  noZero : 0 ∉ text
  fits : ∀ word ∈ strtok 46 text, ∃ value length, strtol 10 (word ++ [0]) = .ok (value, length) ∧
    -2 ^ 31 ≤ value ∧ value < 2 ^ 31

/-- it ends and says whether the string is an address -/
def Ipv4Decided (text : List UInt8) : Prop :=
  ∃ fuel ret, isValidIpv4 fuel text = .ok ret ∧ (ret = true ↔ Ipv4Address text)

/-- the number a word begins with is from 0 to 255 -/
def InRange (word : List UInt8) : Prop := ∃ num, atoi word = .ok num ∧ 0 ≤ num ∧ num ≤ 255

/-! ## when the loop ends -/

section
variable {s' : Ipv4State} {text word next : List UInt8} {words rest : List (List UInt8)}
  {fuel dots : Nat} {err ret : Bool}

/-- **behind a number in range** the loop is at the next word -/
theorem ipv4Loop_next (h : InRange word) : ipv4Loop (fuel + 1) ⟨word :: next :: rest, err, dots⟩ =
    require .overflow (dots + 1 < 2 ^ 31) >>= fun _ =>
      ipv4Loop fuel ⟨next :: rest, err || !validDigit word, dots + 1⟩ := by
  obtain ⟨num, hnum, hrange⟩ := h
  rw [ipv4Loop]
  unfold ipv4Pass
  dsimp only
  rw [hnum, ok_bind, if_pos hrange, if_pos (List.cons_ne_nil _ _)]
  by_cases hroom : dots + 1 < 2 ^ 31
  · rw [require_pos hroom]
    rfl
  · rw [require_neg hroom]
    rfl

/-- the last word is no dot more -/
theorem ipv4Loop_last (h : InRange word) : ipv4Loop (fuel + 1) ⟨[word], err, dots⟩ =
    ipv4Loop fuel ⟨[], err || !validDigit word, dots⟩ := by
  obtain ⟨num, hnum, hrange⟩ := h
  rw [ipv4Loop]
  unfold ipv4Pass
  dsimp only
  rw [hnum, ok_bind, if_pos hrange, if_neg (not_not_intro rfl), ok_bind]

/-- **behind any other number** it is where it was -/
theorem ipv4Loop_stuck (h : ¬ InRange word) : ipv4Loop (fuel + 1) ⟨word :: rest, err, dots⟩ =
    ipv4Loop fuel ⟨word :: rest, true, dots⟩ := by
  obtain ⟨num, hnum⟩ := exists_atoi word
  have hrange : ¬ (0 ≤ num ∧ num ≤ 255) := fun hr => h ⟨num, hnum, hr⟩
  rw [ipv4Loop]
  unfold ipv4Pass
  dsimp only
  rw [hnum, ok_bind, if_neg hrange, ok_bind]

theorem ipv4Loop_nil : ipv4Loop (fuel + 1) ⟨[], err, dots⟩ = .ok ⟨[], err, dots⟩ := rfl

/-- behind all words -/
def ipv4End (words : List (List UInt8)) (err : Bool) (dots : Nat) : Ipv4State where
  words := []
  err := err || words.any fun word => !validDigit word
  dots := dots + (words.length - 1)

theorem ipv4End_nil : ipv4End [] err dots = ⟨[], err, dots⟩ := by
  unfold ipv4End
  rw [List.any_nil, Bool.or_false]
  rfl

theorem ipv4End_last : ipv4End [word] err dots = ⟨[], err || !validDigit word, dots⟩ := by
  unfold ipv4End
  rw [List.any_cons, List.any_nil, Bool.or_false]
  rfl

theorem ipv4End_next : ipv4End (word :: next :: rest) err dots =
    ipv4End (next :: rest) (err || !validDigit word) (dots + 1) := by
  unfold ipv4End
  rw [List.any_cons, Bool.or_assoc, List.length_cons, List.length_cons]
  congr 1
  omega

/-- a loop that has ended has seen numbers in range only -/
theorem of_ipv4Loop (h : ipv4Loop fuel ⟨words, err, dots⟩ = .ok s') :
    (∀ word ∈ words, InRange word) ∧ (2 ≤ words.length → dots + (words.length - 1) < 2 ^ 31) ∧
      s' = ipv4End words err dots := by
  induction fuel generalizing words err dots with
  | zero => cases h
  | succ fuel ih =>
    cases words with
    | nil =>
      cases h
      exact ⟨fun word hword => (nomatch hword), fun h => absurd h (Nat.not_succ_le_zero 1),
        ipv4End_nil.symm⟩
    | cons word rest =>
      by_cases hrange : InRange word
      · cases rest with
        | nil =>
          rw [ipv4Loop_last hrange] at h
          obtain ⟨-, -, rfl⟩ := ih h
          refine ⟨List.forall_mem_cons.2 ⟨hrange, fun w hw => (nomatch hw)⟩,
            fun h => absurd h (Nat.lt_irrefl 1), ?_⟩
          rw [ipv4End_nil, ipv4End_last]
        | cons next rest =>
          rw [ipv4Loop_next hrange] at h
          obtain ⟨hroom, h⟩ := require_bind_eq_ok.1 h
          obtain ⟨hall, hlen, rfl⟩ := ih h
          refine ⟨List.forall_mem_cons.2 ⟨hrange, hall⟩, fun _ => ?_, ipv4End_next.symm⟩
          rw [List.length_cons] at hlen ⊢
          rw [List.length_cons]
          omega
      · -- the next pass is at the same word
        rw [ipv4Loop_stuck hrange] at h
        exact absurd ((ih h).1 word List.mem_cons_self) hrange

/-- a loop over numbers in range ends, if their number is an `int` -/
theorem exists_ipv4Loop (hall : ∀ word ∈ words, InRange word)
    (hlen : 2 ≤ words.length → dots + (words.length - 1) < 2 ^ 31) :
    ∃ fuel, ipv4Loop fuel ⟨words, err, dots⟩ = .ok (ipv4End words err dots) := by
  induction words generalizing err dots with
  | nil => exact ⟨1, by rw [ipv4Loop_nil, ipv4End_nil]⟩
  | cons word rest ih =>
    obtain ⟨hrange, hall⟩ := List.forall_mem_cons.1 hall
    cases rest with
    | nil => exact ⟨2, by rw [ipv4Loop_last hrange, ipv4Loop_nil, ipv4End_last]⟩
    | cons next rest =>
      rw [List.length_cons, List.length_cons] at hlen
      have hroom := hlen (by omega)
      obtain ⟨fuel, hfuel⟩ := @ih (dots + 1) (err || !validDigit word) hall (by
        rw [List.length_cons]
        omega)
      exact ⟨fuel + 1, by rw [ipv4Loop_next hrange, require_pos (by omega), ok_bind, hfuel,
        ipv4End_next]⟩

/-- **what the validator returns**, when it does -/
theorem isValidIpv4_eq_ok : (∃ fuel, isValidIpv4 fuel text = .ok ret) ↔
    (∀ word ∈ strtok 46 text, InRange word) ∧ (strtok 46 text).length ≤ 2 ^ 31 ∧
      (ret = true ↔ (strtok 46 text).length = 4 ∧ ∀ word ∈ strtok 46 text, validDigit word = true) := by
  -- the two errors, and the number of dots
  have hret : ∀ s, s = ipv4End (strtok 46 text) (strtok 46 text = []) 0 →
      ((decide ((if s.dots ≠ 3 then true else s.err) = false) = true) ↔
        (strtok 46 text).length = 4 ∧ ∀ word ∈ strtok 46 text, validDigit word = true) := by
    rintro s rfl
    generalize strtok 46 text = words
    unfold ipv4End
    dsimp only
    rw [Nat.zero_add, decide_eq_true_iff]
    by_cases hdots : words.length - 1 ≠ 3
    · rw [if_pos hdots]
      exact iff_of_false Bool.noConfusion fun h => hdots (by omega)
    · have hlen : words.length = 4 := by omega
      have hne : ¬ words = [] := by
        rintro rfl
        cases hlen
      rw [if_neg hdots, decide_eq_false hne, Bool.false_or, List.any_eq_false]
      constructor
      · intro h
        refine ⟨hlen, fun word hword => ?_⟩
        have := h word hword
        simpa using this
      · rintro ⟨-, h⟩ word hword
        rw [h word hword]
        decide
  constructor
  · rintro ⟨fuel, h⟩
    obtain ⟨s, hs, h⟩ := bind_eq_ok.1 h
    obtain ⟨hall, hlen, hs'⟩ := of_ipv4Loop hs
    refine ⟨hall, by omega, ?_⟩
    rw [← Except.ok.inj h]
    exact hret s hs'
  · rintro ⟨hall, hlen, h⟩
    obtain ⟨fuel, hfuel⟩ := @exists_ipv4Loop (strtok 46 text) 0 (strtok 46 text = []) hall
      fun _ => by omega
    have hstart : ipv4Loop fuel (ipv4Start text) =
        .ok (ipv4End (strtok 46 text) (strtok 46 text = []) 0) := hfuel
    refine ⟨fuel, ?_⟩
    unfold isValidIpv4
    rw [hstart, ok_bind]
    exact congrArg Except.ok (Bool.eq_iff_iff.2 ((hret _ rfl).trans h.symm))

end

/-! ## words of digits -/

section
variable {text word : List UInt8} {words : List (List UInt8)} {c : UInt8}

theorem digitIn_of_digit (h : 48 ≤ c ∧ c ≤ 57) : digitIn 10 c = some (c.toNat - 48) := by
  have hle : c.toNat ≤ 57 := UInt8.le_iff_toNat_le.1 h.2
  unfold digitIn digitOf
  rw [if_pos h, Option.filter_some, if_pos (decide_eq_true (by omega))]

theorem leadingDigits_concat_zero (word : List UInt8) :
    leadingDigits 10 (word ++ [0]) = leadingDigits 10 word := by
  induction word with
  | nil => exact leadingDigits_of_none (digitIn_zero 10)
  | cons c word ih =>
    rw [List.cons_append, leadingDigits, leadingDigits, ih]

theorem length_leadingDigits (h : validDigit word = true) :
    (leadingDigits 10 word).length = word.length := by
  induction word with
  | nil => rfl
  | cons c word ih =>
    unfold validDigit at h
    rw [List.all_cons, Bool.and_eq_true, decide_eq_true_iff] at h
    rw [leadingDigits, digitIn_of_digit h.1]
    exact congrArg Nat.succ (ih h.2)

theorem hexLength_ten (text : List UInt8) : hexLength 10 text = 0 := by
  match text with
  | [] => rfl
  | [c] => rfl
  | [c, d] => rfl
  | c :: d :: e :: text =>
    rw [hexLength]
    exact if_neg fun h => absurd h.1 (by decide)

/-- **a word of digits** is read whole -/
theorem strtol_digits (hne : word ≠ []) (h : validDigit word = true) :
    strtol 10 (word ++ [0]) = .ok (toLong (decimalValue word), word.length) := by
  have hlen := length_leadingDigits h
  have hpos := List.length_pos_iff.2 hne
  obtain ⟨first, rest, rfl⟩ := List.exists_cons_of_ne_nil hne
  -- the first character is no space and no sign
  have hfirst : 48 ≤ first ∧ first ≤ 57 := by
    unfold validDigit at h
    rw [List.all_cons, Bool.and_eq_true, decide_eq_true_iff] at h
    exact h.1
  have hsign : ¬ (first = 43 ∨ first = 45) := by
    rintro (rfl | rfl)
    · exact absurd hfirst.1 (by decide)
    · exact absurd hfirst.1 (by decide)
  have hspaces : (first :: rest ++ [0]).takeWhile isSpace = [] := by
    rw [List.cons_append, List.takeWhile_cons, not_isSpace_of_le hfirst.1]
    rfl
  have hsigned : signLength (first :: rest ++ [0]) = 0 := if_neg hsign
  have hminus : ¬ (first :: rest ++ [0]).head? = some 45 := fun h =>
    hsign (.inr (Option.some.inj h))
  have hne' : leadingDigits 10 (first :: rest) ≠ [] := by
    intro hnil
    rw [hnil] at hlen
    cases hlen
  unfold strtol
  simp only [hspaces, List.length_nil, List.drop_zero, hsigned, hexLength_ten, Nat.zero_add,
    leadingDigits_concat_zero, hlen]
  rw [require_pos (by rw [List.length_append, List.length_singleton]; omega), ok_bind, if_neg hne',
    if_neg hminus]
  rfl

/-- the number that is looked at is the one in the text -/
theorem inRange_iff (hne : word ≠ []) (h : validDigit word = true) {value : Int} {length : Nat}
    (hread : strtol 10 (word ++ [0]) = .ok (value, length)) (h0 : -2 ^ 31 ≤ value)
    (hfits : value < 2 ^ 31) : InRange word ↔ decimalValue word ≤ 255 := by
  have hatoi : atoi word = .ok value := by
    unfold atoi
    rw [hread, ok_bind]
    exact congrArg Except.ok (toInt32_of_lt h0 hfits)
  rw [strtol_digits hne h] at hread
  obtain ⟨rfl, -⟩ := Prod.mk.inj (Except.ok.inj hread)
  unfold InRange
  rw [hatoi]
  unfold toLong at hfits ⊢
  constructor
  · rintro ⟨num, hnum, hrange⟩
    cases hnum
    omega
  · exact fun hsmall => ⟨_, rfl, by omega⟩

end

/-! ## the words of an address -/

section
variable {text word a b c d : List UInt8}

theorem not_mem_of_validDigit (h : validDigit word = true) : 46 ∉ word := fun hmem =>
  absurd (of_decide_eq_true (List.all_eq_true.1 h 46 hmem)).1 (by decide)

/-- the pieces between the dots -/
theorem splitOn_four (ha : 46 ∉ a) (hb : 46 ∉ b) (hc : 46 ∉ c) (hd : 46 ∉ d) :
    (a ++ 46 :: (b ++ 46 :: (c ++ 46 :: d))).splitOn 46 = [a, b, c, d] := by
  rw [List.splitOn_append_cons_self, List.splitOn_append_cons_self, List.splitOn_append_cons_self,
    List.splitOn_eq_singleton ha, List.splitOn_eq_singleton hb, List.splitOn_eq_singleton hc,
    List.splitOn_eq_singleton hd]
  rfl

/-- four pieces, none of them empty, are the words -/
theorem ipv4Address_iff :
    Ipv4Address text ↔ (strtok 46 text).length = 4 ∧ (∀ word ∈ strtok 46 text, IsOctet word) ∧
      [] ∉ text.splitOn 46 := by
  constructor
  · rintro ⟨a, b, c, d, rfl, ha, hb, hc, hd⟩
    have hsplit := splitOn_four (not_mem_of_validDigit ha.digits) (not_mem_of_validDigit hb.digits)
      (not_mem_of_validDigit hc.digits) (not_mem_of_validDigit hd.digits)
    have hall : ∀ word ∈ [a, b, c, d], IsOctet word := by
      simp only [List.forall_mem_cons]
      exact ⟨ha, hb, hc, hd, fun w hw => (nomatch hw)⟩
    have hwords : [a, b, c, d].filter (· ≠ []) = [a, b, c, d] :=
      List.filter_eq_self.2 fun word hword => decide_eq_true (hall word hword).nonempty
    unfold strtok
    rw [hsplit, hwords]
    exact ⟨rfl, hall, fun hnil => (hall [] hnil).nonempty rfl⟩
  · rintro ⟨hfour, hall, hnil⟩
    have hwords : strtok 46 text = text.splitOn 46 :=
      List.filter_eq_self.2 fun word hword => decide_eq_true fun h => hnil (h ▸ hword)
    rw [hwords] at hfour hall
    obtain ⟨a, b, c, d, hsplit⟩ := List.length_eq_four.1 hfour
    have htext : [46].intercalate (text.splitOn 46) = text := List.intercalate_splitOn 46
    rw [hsplit] at hall htext
    simp only [List.intercalate_cons_cons, List.intercalate_singleton, List.append_assoc,
      List.singleton_append] at htext
    simp only [List.forall_mem_cons] at hall
    obtain ⟨ha, hb, hc, hd, -⟩ := hall
    exact ⟨a, b, c, d, htext.symm, ha, hb, hc, hd⟩

/-- **the words decide** when all of them are read to an end -/
theorem ipv4Decided_iff_words : Ipv4Decided text ↔
    (∀ word ∈ strtok 46 text, InRange word) ∧ (strtok 46 text).length ≤ 2 ^ 31 ∧
      (((strtok 46 text).length = 4 ∧ ∀ word ∈ strtok 46 text, validDigit word = true) ↔
        Ipv4Address text) := by
  constructor
  · rintro ⟨fuel, ret, h, hiff⟩
    obtain ⟨hall, hlen, hret⟩ := isValidIpv4_eq_ok.1 ⟨fuel, h⟩
    exact ⟨hall, hlen, hret.symm.trans hiff⟩
  · rintro ⟨hall, hlen, hiff⟩
    obtain ⟨fuel, h⟩ := (@isValidIpv4_eq_ok text (decide ((strtok 46 text).length = 4 ∧
      ∀ word ∈ strtok 46 text, validDigit word = true))).2 ⟨hall, hlen, decide_eq_true_iff⟩
    exact ⟨fuel, _, h, decide_eq_true_iff.trans hiff⟩

/-- **when the validator decides the grammar**: each word begins with a number in range, and of
four numbers no more than one dot is between two -/
theorem ipv4Decided_iff (t : NumberText) : Ipv4Decided t.text ↔
    (∀ word ∈ strtok 46 t.text, InRange word) ∧ (strtok 46 t.text).length ≤ 2 ^ 31 ∧
      ((strtok 46 t.text).length = 4 → (∀ word ∈ strtok 46 t.text, validDigit word = true) →
        [] ∉ t.text.splitOn 46) := by
  rw [ipv4Decided_iff_words]
  refine and_congr_right fun hall => and_congr_right fun _ => ?_
  -- digits in range are a decimal number up to 255
  have hoctet : ∀ word ∈ strtok 46 t.text, validDigit word = true → IsOctet word := by
    intro word hword hdigits
    have hne : word ≠ [] := of_decide_eq_true (List.mem_filter.1 hword).2
    obtain ⟨value, length, hread, h0, hfits⟩ := t.fits word hword
    exact ⟨hne, hdigits, (inRange_iff hne hdigits hread h0 hfits).1 (hall word hword)⟩
  rw [ipv4Address_iff]
  constructor
  · exact fun h hfour hdigits => (h.1 ⟨hfour, hdigits⟩).2.2
  · intro h
    constructor
    · exact fun ⟨hfour, hdigits⟩ =>
        ⟨hfour, fun word hword => hoctet word hword (hdigits word hword), h hfour hdigits⟩
    · exact fun ⟨hfour, hoctets, _⟩ => ⟨hfour, fun word hword => (hoctets word hword).digits⟩

end

/-! ## a number too large, and two dots -/

/-- `256.0.0.1` -/
def largeOctet : NumberText where
  text := asciiBytes "256.0.0.1"
  noZero := by decide
  fits := by
    have hwords : strtok 46 (asciiBytes "256.0.0.1") = [[50, 53, 54], [48], [48], [49]] := by decide
    rw [hwords]
    simp only [List.forall_mem_cons]
    exact ⟨⟨256, 3, by decide, by decide⟩, ⟨0, 1, by decide, by decide⟩,
      ⟨0, 1, by decide, by decide⟩, ⟨1, 1, by decide, by decide⟩, fun w hw => (nomatch hw)⟩

/-- `1..2.3.4` -/
def emptyOctet : NumberText where
  text := asciiBytes "1..2.3.4"
  noZero := by decide
  fits := by
    have hwords : strtok 46 (asciiBytes "1..2.3.4") = [[49], [50], [51], [52]] := by decide
    rw [hwords]
    simp only [List.forall_mem_cons]
    exact ⟨⟨1, 1, by decide, by decide⟩, ⟨2, 1, by decide, by decide⟩,
      ⟨3, 1, by decide, by decide⟩, ⟨4, 1, by decide, by decide⟩, fun w hw => (nomatch hw)⟩

/-- the one is looked at forever, the other is an address -/
theorem not_ipv4Decided : (∀ fuel ret, isValidIpv4 fuel largeOctet.text ≠ .ok ret) ∧
    isValidIpv4 5 emptyOctet.text = .ok true ∧ ¬ Ipv4Address emptyOctet.text ∧
      ¬ Ipv4Decided largeOctet.text ∧ ¬ Ipv4Decided emptyOctet.text := by
  have hlarge : ∀ fuel ret, isValidIpv4 fuel largeOctet.text ≠ .ok ret := by
    intro fuel ret h
    obtain ⟨hall, -, -⟩ := isValidIpv4_eq_ok.1 ⟨fuel, h⟩
    obtain ⟨num, hnum, -, hle⟩ := hall [50, 53, 54] (by decide)
    have hread : atoi [50, 53, 54] = .ok 256 := by decide +kernel
    rw [hread] at hnum
    cases hnum
    exact absurd hle (by decide)
  have hvalid : isValidIpv4 5 emptyOctet.text = .ok true := by decide +kernel
  have hnot : ¬ Ipv4Address emptyOctet.text := fun h =>
    absurd (ipv4Address_iff.1 h).2.2 (by decide)
  refine ⟨hlarge, hvalid, hnot, fun ⟨fuel, ret, h, _⟩ => hlarge fuel ret h, fun h => ?_⟩
  obtain ⟨-, -, hiff⟩ := ipv4Decided_iff_words.1 h
  exact hnot (hiff.1 (by decide))

end Libp2p
