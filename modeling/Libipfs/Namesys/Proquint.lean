import Libipfs.Lib.CString
import Libipfs.Lib.Region
import Mathlib.Data.List.GetD

/-!
# Proquints

Two bytes are spelt as five letters, consonants and vowels in turn; the words are separated by
`-`.  The check, the encoder and the decoder each know the places of the letters by themselves.

* `Proquint`            the texts that are proquints;
* `proquintIsProquint`, `proquintEncode`, `proquintDecode`   the functions;
* `checkFrom_iff`       the check by places is the one by words;
* `proquintDecode_encoded`   what was encoded is decoded;
* `proquint_iff`        for which bytes, and for which strings, the three agree.
-/

namespace Ipfs
open CSem

/-! ## the functions -/

/-- `"bdfghjklmnprstvz"` -/
def conse : List UInt8 :=
  [98, 100, 102, 103, 104, 106, 107, 108, 109, 110, 112, 114, 115, 116, 118, 122]

/-- `"aiou"` -/
def vowse : List UInt8 := [97, 105, 111, 117]

/-- 0 for what is no consonant -/
def consd (c : UInt8) : Nat := (conse.idxOf? c).getD 0

/-- 0 for what is no vowel -/
def vowsd (c : UInt8) : Nat := (vowse.idxOf? c).getD 0

def conseAt (i : Nat) : UInt8 := conse.getD i 0
def vowseAt (i : Nat) : UInt8 := vowse.getD i 0

/-- the loop of `ipfs_proquint_is_proquint` from place `i` on -/
def checkFrom : Nat → List UInt8 → Bool
  | _, [] => true
  | i, c :: str =>
    if (i + 1) % 6 = 0 then if c ≠ 45 then false else checkFrom (i + 1) str
    else if (i + 1) % 2 = 0 then if c ≠ vowseAt (vowsd c) then false else checkFrom (i + 1) str
    else if c ≠ conseAt (consd c) then false else checkFrom (i + 1) str

/-- `l` is an `int` -/
def proquintIsProquint (str : List UInt8) : Exec Bool := do
  let l := toInt32 str.length
  require .overflow (l + 1 < 2 ^ 31)
  if (l + 1).tmod 6 ≠ 0 then .ok false
  else .ok (checkFrom 0 (str.take l.toNat))

/-- the five letters of a 16-bit number -/
def proquintWord (n : Nat) : List UInt8 :=
  [conseAt (n >>> 12 &&& 0x0f), vowseAt (n >>> 10 &&& 0x03), conseAt (n >>> 6 &&& 0x0f),
   vowseAt (n >>> 4 &&& 0x03), conseAt (n &&& 0x0f)]

/-- the words of so many pairs of bytes, each with a `-` behind it -/
def encodeWords : Nat → List UInt8 → Exec (List UInt8)
  | 0, _ => .ok []
  | n + 1, hi :: lo :: buf => do
    let ret ← encodeWords n buf
    .ok (proquintWord (hi.toNat <<< 8 ||| lo.toNat) ++ 45 :: ret)
  | _ + 1, _ => .error .outOfBounds

/-- the last `-` becomes the zero behind the text -/
def proquintEncode (buf : List UInt8) (size : Int) : Exec (Option (List UInt8)) :=
  if size.tmod 2 ≠ 0 then .ok none
  else do
    require .overflow (-2 ^ 31 ≤ size * 3 ∧ size * 3 < 2 ^ 31)
    if ptrdiffMax < toUInt64 (size * 3) then .ok none
    else do
      let ret ← encodeWords (size / 2).toNat buf
      require .outOfBounds (ret ≠ [])
      .ok (some ret.dropLast)

/-- the number of the five letters at place `i` -/
def proquintNumber (str : List UInt8) (i : Nat) : Nat :=
  consd (str.getD i 0) <<< 12 ||| vowsd (str.getD (i + 1) 0) <<< 10 |||
    consd (str.getD (i + 2) 0) <<< 6 ||| vowsd (str.getD (i + 3) 0) <<< 4 |||
    consd (str.getD (i + 4) 0)

/-- so many words from place `i` on; `c` is the place in the buffer -/
def decodeWords (str : List UInt8) : Nat → Nat → Nat → Region → Exec Region
  | 0, _, _, ret => .ok ret
  | n + 1, i, c, ret => do
    -- the zero behind the string may be read
    require .outOfBounds (i + 4 ≤ str.length)
    let x := proquintNumber str i
    let ret ← ret.store c [UInt8.ofNat (x >>> 8), UInt8.ofNat (x &&& 0xff)]
    decodeWords str n (i + 6) (c + 2) ret

/-- the string is refused if it is no proquint *and* its length is right for three letters a byte -/
def proquintDecode (str : List UInt8) : Exec (Option (List UInt8)) := do
  let l := toInt32 str.length
  let isProquint ← proquintIsProquint str
  if isProquint = false ∧ (l + 1).tmod 3 = 0 then .ok none
  else
    match Region.malloc (toUInt64 ((l + 1).tdiv 3)) with
    | none => .ok none
    | some ret => do
      let ret ← decodeWords str ((l.toNat + 5) / 6) 0 0 ret
      .ok (some ret)

/-! ## words -/

/-- consonant, vowel, consonant, vowel, consonant -/
inductive ProquintGroup : List UInt8 → Prop
  | mk {c1 v1 c2 v2 c3 : UInt8} : c1 ∈ conse → v1 ∈ vowse → c2 ∈ conse → v2 ∈ vowse → c3 ∈ conse →
      ProquintGroup [c1, v1, c2, v2, c3]

/-- **a proquint**: groups separated by `-` -/
inductive Proquint : List UInt8 → Prop
  | group {word : List UInt8} : ProquintGroup word → Proquint word
  | cons {word str : List UInt8} : ProquintGroup word → Proquint str →
      Proquint (word ++ 45 :: str)

section
variable {c : UInt8} {n : Nat} {word str bytes : List UInt8}

/-- a letter is the one found for it iff it is in the alphabet -/
theorem eq_getD_idxOf_iff {alphabet : List UInt8} (h0 : alphabet.getD 0 0 ∈ alphabet) :
    c = alphabet.getD ((alphabet.idxOf? c).getD 0) 0 ↔ c ∈ alphabet := by
  cases hidx : alphabet.idxOf? c with
  | none =>
    have hc : c ∉ alphabet := List.idxOf?_eq_none_iff.1 hidx
    exact iff_of_false (fun e => hc (e ▸ h0)) hc
  | some i =>
    obtain ⟨hi, hc, -⟩ := List.idxOf?_eq_some_iff.1 hidx
    rw [Option.getD_some, List.getD_eq_getElem _ _ hi, hc]
    exact iff_of_true rfl (hc ▸ List.getElem_mem hi)

theorem eq_conseAt_iff (c : UInt8) : c = conseAt (consd c) ↔ c ∈ conse :=
  eq_getD_idxOf_iff (by decide)

theorem eq_vowseAt_iff (c : UInt8) : c = vowseAt (vowsd c) ↔ c ∈ vowse :=
  eq_getD_idxOf_iff (by decide)

theorem consd_conseAt (h : n < 16) : consd (conseAt n) = n := by
  have hall : ∀ n < 16, consd (conseAt n) = n := by decide
  exact hall n h

theorem vowsd_vowseAt (h : n < 4) : vowsd (vowseAt n) = n := by
  have hall : ∀ n < 4, vowsd (vowseAt n) = n := by decide
  exact hall n h

theorem conseAt_mem (h : n < 16) : conseAt n ∈ conse := by
  have hall : ∀ n < 16, conseAt n ∈ conse := by decide
  exact hall n h

theorem vowseAt_mem (h : n < 4) : vowseAt n ∈ vowse := by
  have hall : ∀ n < 4, vowseAt n ∈ vowse := by decide
  exact hall n h

theorem exists_conseAt (h : c ∈ conse) : ∃ n, n < 16 ∧ conseAt n = c := by
  have hall : (conse.all fun c => consd c < 16 ∧ conseAt (consd c) = c) = true := by decide
  exact ⟨consd c, of_decide_eq_true (List.all_eq_true.1 hall c h)⟩

theorem exists_vowseAt (h : c ∈ vowse) : ∃ n, n < 4 ∧ vowseAt n = c := by
  have hall : (vowse.all fun c => vowsd c < 4 ∧ vowseAt (vowsd c) = c) = true := by decide
  exact ⟨vowsd c, of_decide_eq_true (List.all_eq_true.1 hall c h)⟩

/-- the letters, by division -/
theorem proquintWord_eq (n : Nat) : proquintWord n =
    [conseAt (n / 4096 % 16), vowseAt (n / 1024 % 4), conseAt (n / 64 % 16),
     vowseAt (n / 16 % 4), conseAt (n % 16)] := by
  have h15 : ∀ m, m &&& 0x0f = m % 16 := fun m => Nat.and_two_pow_sub_one_eq_mod m 4
  have h3 : ∀ m, m &&& 0x03 = m % 4 := fun m => Nat.and_two_pow_sub_one_eq_mod m 2
  unfold proquintWord
  simp only [h15, h3, Nat.shiftRight_eq_div_pow]

/-- bits that are put behind others -/
theorem shiftLeft_or_shiftLeft {x y i : Nat} (hy : y < 2 ^ i) (j : Nat) :
    x <<< (i + j) ||| y <<< j = (x * 2 ^ i + y) <<< j := by
  have hlt : y <<< j < 2 ^ (i + j) := by
    rw [Nat.shiftLeft_eq, Nat.pow_add]
    exact Nat.mul_lt_mul_of_pos_right hy (Nat.two_pow_pos j)
  rw [← Nat.shiftLeft_add_eq_or_of_lt hlt, Nat.shiftLeft_eq, Nat.shiftLeft_eq, Nat.shiftLeft_eq,
    Nat.pow_add]
  ring

/-- five numbers are put together -/
theorem digits_eq {a b c d e : Nat} (hb : b < 4) (hc : c < 16) (hd : d < 4) (he : e < 16) :
    a <<< 12 ||| b <<< 10 ||| c <<< 6 ||| d <<< 4 ||| e =
      a * 4096 + b * 1024 + c * 64 + d * 16 + e := by
  have h1 : a <<< 12 ||| b <<< 10 = (a * 4 + b) <<< 10 := shiftLeft_or_shiftLeft hb 10
  have h2 : (a * 4 + b) <<< 10 ||| c <<< 6 = ((a * 4 + b) * 16 + c) <<< 6 :=
    @shiftLeft_or_shiftLeft _ _ 4 hc 6
  have h3 : ((a * 4 + b) * 16 + c) <<< 6 ||| d <<< 4 = (((a * 4 + b) * 16 + c) * 4 + d) <<< 4 :=
    @shiftLeft_or_shiftLeft _ _ 2 hd 4
  have h4 : (((a * 4 + b) * 16 + c) * 4 + d) <<< 4 ||| e =
      (((a * 4 + b) * 16 + c) * 4 + d) * 16 + e := @shiftLeft_or_shiftLeft _ _ 4 he 0
  rw [h1, h2, h3, h4]
  omega

/-- **the five letters of a number** are read back -/
theorem proquintNumber_word (hn : n < 65536) (front back : List UInt8) :
    proquintNumber (front ++ (proquintWord n ++ back)) front.length = n := by
  have hget : ∀ k, (front ++ (proquintWord n ++ back)).getD (front.length + k) 0 =
      (proquintWord n ++ back).getD k 0 := by
    intro k
    rw [List.getD_append_right _ _ _ _ (Nat.le_add_right _ _), Nat.add_sub_cancel_left]
  have h0 := hget 0
  rw [Nat.add_zero] at h0
  unfold proquintNumber
  rw [h0, hget, hget, hget, hget, proquintWord_eq]
  show consd (conseAt _) <<< 12 ||| vowsd (vowseAt _) <<< 10 ||| consd (conseAt _) <<< 6 |||
    vowsd (vowseAt _) <<< 4 ||| consd (conseAt _) = n
  rw [consd_conseAt (by omega), vowsd_vowseAt (by omega), consd_conseAt (by omega),
    vowsd_vowseAt (by omega), consd_conseAt (by omega),
    digits_eq (by omega) (by omega) (by omega) (by omega)]
  omega

theorem proquintWord_group (n : Nat) : ProquintGroup (proquintWord n) := by
  rw [proquintWord_eq]
  exact .mk (conseAt_mem (by omega)) (vowseAt_mem (by omega)) (conseAt_mem (by omega))
    (vowseAt_mem (by omega)) (conseAt_mem (by omega))

/-- **a group is the word of a number** -/
theorem exists_proquintWord (h : ProquintGroup word) : ∃ n, n < 65536 ∧ word = proquintWord n := by
  cases h with
  | mk h1 h2 h3 h4 h5 =>
    obtain ⟨a, ha, rfl⟩ := exists_conseAt h1
    obtain ⟨b, hb, rfl⟩ := exists_vowseAt h2
    obtain ⟨c, hc, rfl⟩ := exists_conseAt h3
    obtain ⟨d, hd, rfl⟩ := exists_vowseAt h4
    obtain ⟨e, he, rfl⟩ := exists_conseAt h5
    refine ⟨a * 4096 + b * 1024 + c * 64 + d * 16 + e, by omega, ?_⟩
    have e1 : (a * 4096 + b * 1024 + c * 64 + d * 16 + e) / 4096 % 16 = a := by omega
    have e2 : (a * 4096 + b * 1024 + c * 64 + d * 16 + e) / 1024 % 4 = b := by omega
    have e3 : (a * 4096 + b * 1024 + c * 64 + d * 16 + e) / 64 % 16 = c := by omega
    have e4 : (a * 4096 + b * 1024 + c * 64 + d * 16 + e) / 16 % 4 = d := by omega
    have e5 : (a * 4096 + b * 1024 + c * 64 + d * 16 + e) % 16 = e := by omega
    rw [proquintWord_eq, e1, e2, e3, e4, e5]

/-- two bytes make a number, and are made of it -/
theorem word_of_bytes (hi lo : UInt8) : hi.toNat <<< 8 ||| lo.toNat < 65536 ∧
    UInt8.ofNat ((hi.toNat <<< 8 ||| lo.toNat) >>> 8) = hi ∧
    UInt8.ofNat ((hi.toNat <<< 8 ||| lo.toNat) &&& 0xff) = lo := by
  have hhi := hi.toNat_lt
  have hlo := lo.toNat_lt
  have h255 : ∀ m, m &&& 0xff = m % 256 := fun m => Nat.and_two_pow_sub_one_eq_mod m 8
  have e : hi.toNat <<< 8 ||| lo.toNat = hi.toNat * 256 + lo.toNat :=
    @shiftLeft_or_shiftLeft _ _ 8 hlo 0
  have ehi : (hi.toNat * 256 + lo.toNat) / 2 ^ 8 = hi.toNat := by omega
  have elo : (hi.toNat * 256 + lo.toNat) % 256 = lo.toNat := by omega
  rw [e, h255, Nat.shiftRight_eq_div_pow, ehi, elo, UInt8.ofNat_toNat, UInt8.ofNat_toNat]
  exact ⟨by omega, rfl, rfl⟩

theorem exists_bytes (hn : n < 65536) : ∃ hi lo : UInt8, hi.toNat <<< 8 ||| lo.toNat = n := by
  refine ⟨UInt8.ofNat (n / 256), UInt8.ofNat (n % 256), ?_⟩
  have hhi : (UInt8.ofNat (n / 256)).toNat = n / 256 := 
    UInt8.toNat_ofNat_of_lt (Nat.div_lt_of_lt_mul hn)
  have hlo : (UInt8.ofNat (n % 256)).toNat = n % 256 := 
    UInt8.toNat_ofNat_of_lt (Nat.mod_lt n (by decide))
  have e : (n / 256) <<< 8 ||| n % 256 = n / 256 * 256 + n % 256 :=
    @shiftLeft_or_shiftLeft (n / 256) (n % 256) 8 (by omega) 0
  rw [hhi, hlo, e]
  omega

end

/-! ## the check -/

section
variable {c : UInt8} {i n : Nat} {word str text : List UInt8}

theorem checked_iff {c' : UInt8} {rest : Bool} :
    (if c ≠ c' then false else rest) = true ↔ c = c' ∧ rest = true := by
  by_cases hc : c = c'
  · rw [if_neg (not_not.2 hc), and_iff_right hc]
  · rw [if_pos hc]
    exact iff_of_false Bool.false_ne_true fun hs => hc hs.1

theorem checkFrom_dash (h : (i + 1) % 6 = 0) :
    checkFrom i (c :: str) = true ↔ c = 45 ∧ checkFrom (i + 1) str = true := by
  rw [checkFrom, if_pos h, checked_iff]

theorem checkFrom_vowel (h6 : (i + 1) % 6 ≠ 0) (h2 : (i + 1) % 2 = 0) :
    checkFrom i (c :: str) = true ↔ c ∈ vowse ∧ checkFrom (i + 1) str = true := by
  rw [checkFrom, if_neg h6, if_pos h2, ← eq_vowseAt_iff, checked_iff]

theorem checkFrom_consonant (h6 : (i + 1) % 6 ≠ 0) (h2 : (i + 1) % 2 ≠ 0) :
    checkFrom i (c :: str) = true ↔ c ∈ conse ∧ checkFrom (i + 1) str = true := by
  rw [checkFrom, if_neg h6, if_neg h2, ← eq_conseAt_iff, checked_iff]

/-- the five places of a word -/
theorem checkFrom_word {a b d e : UInt8} (hi : i % 6 = 0) :
    checkFrom i (a :: b :: c :: d :: e :: str) = true ↔
      ProquintGroup [a, b, c, d, e] ∧ checkFrom (i + 5) str = true := by
  rw [checkFrom_consonant (by omega) (by omega), checkFrom_vowel (by omega) (by omega),
    checkFrom_consonant (by omega) (by omega), checkFrom_vowel (by omega) (by omega),
    checkFrom_consonant (by omega) (by omega)]
  constructor
  · rintro ⟨h1, h2, h3, h4, h5, hs⟩
    exact ⟨.mk h1 h2 h3 h4 h5, hs⟩
  · rintro ⟨⟨h1, h2, h3, h4, h5⟩, hs⟩
    exact ⟨h1, h2, h3, h4, h5, hs⟩

theorem ProquintGroup.length (h : ProquintGroup word) : word.length = 5 := by
  cases h
  rfl

theorem Proquint.length (h : Proquint text) : (text.length + 1) % 6 = 0 := by
  induction h with
  | group hw => rw [hw.length]
  | cons hw _ ih =>
    rw [List.length_append, hw.length, List.length_cons]
    omega

/-- one word -/
theorem proquint_word_iff (h : text.length = 5) : Proquint text ↔ ProquintGroup text := by
  refine ⟨fun hp => ?_, .group⟩
  cases hp with
  | group hw => exact hw
  | cons hw _ =>
    rw [List.length_append, hw.length, List.length_cons] at h
    omega

/-- a word and the next one -/
theorem proquint_cons_iff (hword : word.length = 5) :
    Proquint (word ++ c :: str) ↔ ProquintGroup word ∧ c = 45 ∧ Proquint str := by
  constructor
  · intro hp
    generalize htext : word ++ c :: str = text at hp
    cases hp with
    | group hw =>
      have hlen := congrArg List.length htext
      rw [hw.length, List.length_append, List.length_cons] at hlen
      omega
    | cons hw hs =>
      obtain ⟨rfl, h⟩ := List.append_inj htext (hword.trans hw.length.symm)
      obtain ⟨rfl, rfl⟩ := List.cons.inj h
      exact ⟨hw, rfl, hs⟩
  · rintro ⟨hw, rfl, hs⟩
    exact .cons hw hs

theorem exists_five (h : 5 ≤ text.length) :
    ∃ a b c d e rest, text = a :: b :: c :: d :: e :: rest := by
  rcases text with _ | ⟨a, _ | ⟨b, _ | ⟨c, _ | ⟨d, _ | ⟨e, rest⟩⟩⟩⟩⟩
  · exact absurd h (by decide)
  · exact absurd h (by simp)
  · exact absurd h (by simp)
  · exact absurd h (by simp)
  · exact absurd h (by simp)
  · exact ⟨a, b, c, d, e, rest, rfl⟩

/-- **the check by places** is the one by words -/
theorem checkFrom_iff (hi : i % 6 = 0) (hlen : (text.length + 1) % 6 = 0) :
    checkFrom i text = true ↔ Proquint text := by
  induction hn : text.length using Nat.strongRecOn generalizing i text with
  | _ n ih =>
    obtain ⟨a, b, c, d, e, rest, rfl⟩ := exists_five (by omega : 5 ≤ text.length)
    rw [checkFrom_word hi]
    cases rest with
    | nil =>
      rw [proquint_word_iff rfl]
      exact and_iff_left rfl
    | cons f rest =>
      have hsplit : a :: b :: c :: d :: e :: f :: rest = [a, b, c, d, e] ++ f :: rest := rfl
      have hrest : rest.length + 6 = n := hn
      have hlen : (rest.length + 6 + 1) % 6 = 0 := hlen
      rw [checkFrom_dash (by omega), hsplit, proquint_cons_iff rfl,
        ih rest.length (by omega) (by omega) (by omega) rfl]

/-- **what the check says**, whatever has become of the length -/
theorem proquintIsProquint_eq_ok {b : Bool} : proquintIsProquint str = .ok b ↔
    toInt32 str.length + 1 < 2 ^ 31 ∧
      (b = true ↔ 6 ∣ toInt32 str.length + 1 ∧
        (0 ≤ toInt32 str.length → Proquint (str.take (toInt32 str.length).toNat))) := by
  have hle := toInt32_le_natCast str.length
  unfold proquintIsProquint
  rw [require_bind_eq_ok]
  refine and_congr_right fun _ => ?_
  by_cases h6 : (toInt32 str.length + 1).tmod 6 = 0
  · have hdvd : 6 ∣ toInt32 str.length + 1 := Int.dvd_iff_tmod_eq_zero.2 h6
    rw [if_neg (not_not.2 h6), Except.ok.injEq, and_iff_right hdvd, eq_comm]
    have hcheck : checkFrom 0 (str.take (toInt32 str.length).toNat) = true ↔
        (0 ≤ toInt32 str.length → Proquint (str.take (toInt32 str.length).toNat)) := by
      by_cases h0 : 0 ≤ toInt32 str.length
      · have hlen : (str.take (toInt32 str.length).toNat).length = (toInt32 str.length).toNat :=
          List.length_take_of_le (by omega)
        rw [checkFrom_iff (by decide) (by rw [hlen]; omega)]
        exact ⟨fun h _ => h, fun h => h h0⟩
      · have hnil : str.take (toInt32 str.length).toNat = [] := by
          rw [Int.toNat_of_nonpos (by omega), List.take_zero]
        rw [hnil]
        exact iff_of_true rfl fun h => absurd h h0
    rw [← hcheck, Bool.eq_iff_iff]
  · have hdvd : ¬ 6 ∣ toInt32 str.length + 1 := fun h => h6 (Int.dvd_iff_tmod_eq_zero.1 h)
    rw [if_pos h6, Except.ok.injEq, eq_comm]
    cases b with
    | false => exact iff_of_true rfl (iff_of_false Bool.false_ne_true fun h => hdvd h.1)
    | true => exact iff_of_false (by decide) fun h => hdvd (h.1 rfl).1

end

/-! ## encoding and decoding -/

/-- the text of an even number of bytes -/
def encodedText : List UInt8 → List UInt8
  | [hi, lo] => proquintWord (hi.toNat <<< 8 ||| lo.toNat)
  | hi :: lo :: buf => proquintWord (hi.toNat <<< 8 ||| lo.toNat) ++ 45 :: encodedText buf
  | _ => []

section
variable {n : Nat} {bytes str text : List UInt8}

theorem exists_pair (h : bytes.length = 2 * (n + 1)) :
    ∃ hi lo buf, bytes = hi :: lo :: buf ∧ buf.length = 2 * n := by
  rcases bytes with _ | ⟨hi, _ | ⟨lo, buf⟩⟩
  · exact absurd h (by simp)
  · exact absurd h (by simp; omega)
  · refine ⟨hi, lo, buf, rfl, ?_⟩
    rw [List.length_cons, List.length_cons] at h
    omega

theorem encodedText_cons (hi lo : UInt8) {buf : List UInt8} (h : buf ≠ []) :
    encodedText (hi :: lo :: buf) =
      proquintWord (hi.toNat <<< 8 ||| lo.toNat) ++ 45 :: encodedText buf := by
  cases buf with
  | nil => exact absurd rfl h
  | cons b buf => rfl

theorem ne_nil_of_length {k : Nat} (h : bytes.length = 2 * (k + 1)) : bytes ≠ [] := by
  rintro rfl
  rw [List.length_nil] at h
  omega

theorem length_encodedText (h : bytes.length = 2 * (n + 1)) :
    (encodedText bytes).length + 1 = 6 * (n + 1) := by
  induction n generalizing bytes with
  | zero =>
    obtain ⟨hi, lo, buf, rfl, hbuf⟩ := exists_pair h
    cases List.eq_nil_of_length_eq_zero hbuf
    rfl
  | succ n ih =>
    obtain ⟨hi, lo, buf, rfl, hbuf⟩ := exists_pair h
    have hrest := ih hbuf
    rw [encodedText_cons hi lo (ne_nil_of_length hbuf), List.length_append, List.length_cons,
      (proquintWord_group _).length]
    omega

/-- **what is encoded is a proquint** -/
theorem proquint_encodedText (h : bytes.length = 2 * (n + 1)) : Proquint (encodedText bytes) := by
  induction n generalizing bytes with
  | zero =>
    obtain ⟨hi, lo, buf, rfl, hbuf⟩ := exists_pair h
    cases List.eq_nil_of_length_eq_zero hbuf
    exact .group (proquintWord_group _)
  | succ n ih =>
    obtain ⟨hi, lo, buf, rfl, hbuf⟩ := exists_pair h
    rw [encodedText_cons hi lo (ne_nil_of_length hbuf)]
    exact .cons (proquintWord_group _) (ih hbuf)

/-- **every proquint is encoded** from some bytes -/
theorem Proquint.exists_encodedText (h : Proquint text) :
    ∃ n bytes, bytes.length = 2 * (n + 1) ∧ text = encodedText bytes := by
  induction h with
  | group hw =>
    obtain ⟨n, hn, rfl⟩ := exists_proquintWord hw
    obtain ⟨hi, lo, rfl⟩ := exists_bytes hn
    exact ⟨0, [hi, lo], rfl, rfl⟩
  | cons hw _ ih =>
    obtain ⟨n, hn, rfl⟩ := exists_proquintWord hw
    obtain ⟨hi, lo, rfl⟩ := exists_bytes hn
    obtain ⟨k, bytes, hbytes, rfl⟩ := ih
    refine ⟨k + 1, hi :: lo :: bytes, ?_, (encodedText_cons hi lo (ne_nil_of_length hbytes)).symm⟩
    rw [List.length_cons, List.length_cons, hbytes]
    omega

theorem encodeWords_eq (h : bytes.length = 2 * (n + 1)) (more : List UInt8) :
    encodeWords (n + 1) (bytes ++ more) = .ok (encodedText bytes ++ [45]) := by
  induction n generalizing bytes with
  | zero =>
    obtain ⟨hi, lo, buf, rfl, hbuf⟩ := exists_pair h
    cases List.eq_nil_of_length_eq_zero hbuf
    rfl
  | succ n ih =>
    obtain ⟨hi, lo, buf, rfl, hbuf⟩ := exists_pair h
    rw [encodedText_cons hi lo (ne_nil_of_length hbuf), List.append_assoc, List.cons_append]
    show (encodeWords (n + 1) (buf ++ more) >>= _) = _
    rw [ih hbuf]
    rfl

/-- **as long as the size of the text is an `int`** the bytes are encoded -/
theorem proquintEncode_eq (h : bytes.length = 2 * (n + 1)) (hsize : 6 * (n + 1) < 2 ^ 31)
    (more : List UInt8) :
    proquintEncode (bytes ++ more) bytes.length = .ok (some (encodedText bytes)) := by
  have heven : ((bytes.length : Nat) : Int).tmod 2 = 0 := by
    rw [h]
    exact Int.tmod_eq_zero_of_dvd ⟨(n + 1 : Nat), by push_cast; ring⟩
  have hwords : ((bytes.length : Int) / 2).toNat = n + 1 := by omega
  have htriple : (bytes.length : Int) * 3 = (bytes.length * 3 : Nat) := by push_cast; ring
  unfold proquintEncode
  rw [if_neg (not_not.2 heven), require_pos (by omega), ok_bind, htriple,
    toUInt64_natCast_of_lt (by omega), if_neg (by unfold ptrdiffMax; omega), hwords,
    encodeWords_eq h more, ok_bind, require_pos (by simp), ok_bind, List.dropLast_concat]

/-- a word is decoded into the next two bytes -/
theorem decodeWords_word (hi lo : UInt8) (front back done rest : List UInt8) :
    decodeWords (front ++ (proquintWord (hi.toNat <<< 8 ||| lo.toNat) ++ back)) (n + 1)
        front.length done.length (done ++ 0 :: 0 :: rest) =
      decodeWords (front ++ (proquintWord (hi.toNat <<< 8 ||| lo.toNat) ++ back)) n
        (front.length + 6) (done.length + 2) (done ++ hi :: lo :: rest) := by
  obtain ⟨hlt, hhi, hlo⟩ := word_of_bytes hi lo
  have hread : front.length + 4 ≤
      (front ++ (proquintWord (hi.toNat <<< 8 ||| lo.toNat) ++ back)).length := by
    rw [List.length_append, List.length_append, (proquintWord_group _).length]
    omega
  have hstore : Region.store (done ++ 0 :: 0 :: rest) done.length [hi, lo] =
      .ok (done ++ hi :: lo :: rest) := by
    have hroom : done.length + [hi, lo].length ≤ (done ++ 0 :: 0 :: rest).length := by
      rw [List.length_append, List.length_cons, List.length_cons]
      simp
    rw [Region.store_pos hroom, List.take_left, ← List.drop_drop, List.drop_left, List.append_assoc]
    rfl
  rw [decodeWords, require_pos hread, ok_bind]
  dsimp only
  rw [proquintNumber_word hlt, hhi, hlo, hstore]
  rfl

/-- **the bytes come back** -/
theorem decodeWords_eq (h : bytes.length = 2 * (n + 1)) (front done : List UInt8) :
    decodeWords (front ++ encodedText bytes) (n + 1) front.length done.length
      (done ++ List.replicate (2 * (n + 1)) 0) = .ok (done ++ bytes) := by
  induction n generalizing bytes front done with
  | zero =>
    obtain ⟨hi, lo, buf, rfl, hbuf⟩ := exists_pair h
    cases List.eq_nil_of_length_eq_zero hbuf
    have hstep := @decodeWords_word 0 hi lo front [] done []
    rw [List.append_nil] at hstep
    exact hstep
  | succ n ih =>
    obtain ⟨hi, lo, buf, rfl, hbuf⟩ := exists_pair h
    have hzeros : List.replicate (2 * (n + 1 + 1)) (0 : UInt8) =
        0 :: 0 :: List.replicate (2 * (n + 1)) 0 := rfl
    have hfront : front ++ (proquintWord (hi.toNat <<< 8 ||| lo.toNat) ++ 45 :: encodedText buf) =
        (front ++ proquintWord (hi.toNat <<< 8 ||| lo.toNat) ++ [45]) ++ encodedText buf := by
      simp
    have hlength : (front ++ proquintWord (hi.toNat <<< 8 ||| lo.toNat) ++ [45]).length =
        front.length + 6 := by
      rw [List.length_append, List.length_append, (proquintWord_group _).length]
      rfl
    have hdone : done ++ hi :: lo :: List.replicate (2 * (n + 1)) 0 =
        (done ++ [hi, lo]) ++ List.replicate (2 * (n + 1)) 0 := by
      simp
    have hlength' : (done ++ [hi, lo]).length = done.length + 2 := List.length_append
    rw [encodedText_cons hi lo (ne_nil_of_length hbuf), hzeros, decodeWords_word, hfront, hdone,
      ← hlength, ← hlength', ih hbuf, List.append_assoc]
    rfl

/-- **what was encoded is decoded** -/
theorem proquintDecode_encoded (h : bytes.length = 2 * (n + 1)) (hsize : 6 * (n + 1) < 2 ^ 31) :
    proquintIsProquint (encodedText bytes) = .ok true ∧
      proquintDecode (encodedText bytes) = .ok (some bytes) := by
  have hlen := length_encodedText h
  have hl : toInt32 (encodedText bytes).length = (encodedText bytes).length :=
    toInt32_natCast_of_lt (by omega)
  have htake : (encodedText bytes).take (toInt32 (encodedText bytes).length).toNat =
      encodedText bytes := by
    rw [hl, Int.toNat_natCast, List.take_length]
  have hcheck : proquintIsProquint (encodedText bytes) = .ok true := by
    rw [proquintIsProquint_eq_ok, htake, hl]
    refine ⟨by omega, iff_of_true rfl ⟨by omega, fun _ => proquint_encodedText h⟩⟩
  refine ⟨hcheck, ?_⟩
  have hthird : ((encodedText bytes).length + 1 : Int).tdiv 3 = (2 * (n + 1) : Nat) := by
    have e : ((encodedText bytes).length + 1 : Int) = (2 * (n + 1) : Nat) * 3 := by omega
    rw [e, Int.mul_tdiv_cancel _ (by decide)]
  have hwords : ((encodedText bytes).length + 5) / 6 = n + 1 := by omega
  have hdecode := decodeWords_eq h [] []
  rw [List.nil_append, List.nil_append, List.nil_append] at hdecode
  unfold proquintDecode
  rw [hl]
  show (proquintIsProquint (encodedText bytes) >>= _) = _
  rw [hcheck, ok_bind, if_neg (by simp), hthird, toUInt64_natCast_of_lt (by omega),
    Region.malloc_pos (by unfold ptrdiffMax; omega)]
  show (decodeWords _ (((encodedText bytes).length + 5) / 6) 0 0 _ >>= _) = _
  rw [hwords]
  have hdecode : decodeWords (encodedText bytes) (n + 1) 0 0 (List.replicate (2 * (n + 1)) 0) =
    .ok bytes := hdecode
  rw [hdecode]
  rfl

end

/-! ## when the three agree -/

/-- **the law of bytes**: they are encoded as a proquint, and come back -/
def ProquintBytesLaw (bytes : List UInt8) : Prop :=
  ∃ text, proquintEncode bytes (toInt32 bytes.length) = .ok (some text) ∧
    proquintIsProquint text = .ok true ∧ proquintDecode text = .ok (some bytes)

/-- **the law of strings**: the proquints are accepted, and what they stand for is encoded as
them; all others are not decoded -/
structure ProquintLaw (str : CString) : Prop where
  accepts : ∃ b, proquintIsProquint str.text = .ok b ∧ (b = true ↔ Proquint str.text)
  rejects : ¬ Proquint str.text → proquintDecode str.text = .ok none
  inverse : Proquint str.text → ∃ bytes, proquintDecode str.text = .ok (some bytes) ∧
    proquintEncode bytes (toInt32 bytes.length) = .ok (some str.text)

/-- **the condition** on a string, whose length becomes an `int`: a proquint that is not too long
for one; of the others, those that the check does not take for a proquint, and whose length is
one less than a multiple of 3, or negative -/
inductive ProquintFits (str : CString) : Prop
  | proquint : Proquint str.text → str.text.length < 2 ^ 31 → ProquintFits str
  | other : ¬ Proquint str.text → toInt32 str.text.length + 1 < 2 ^ 31 →
      (6 ∣ toInt32 str.text.length + 1 → 0 ≤ toInt32 str.text.length ∧
        ¬ Proquint (str.text.take (toInt32 str.text.length).toNat)) →
      (3 ∣ toInt32 str.text.length + 1 ∨ toInt32 str.text.length < -3) → ProquintFits str

section
variable {n : Nat} {bytes text : List UInt8} {str : CString} {size : Int}

theorem length_encodeWords {buf ret : List UInt8} (h : encodeWords n buf = .ok ret) :
    ret.length = 6 * n := by
  induction n generalizing buf ret with
  | zero =>
    cases h
    rfl
  | succ n ih =>
    rcases buf with _ | ⟨hi, _ | ⟨lo, buf⟩⟩
    · cases h
    · cases h
    · obtain ⟨rest, hrest, h⟩ := bind_eq_ok.1 h
      cases h
      rw [List.length_append, List.length_cons, (proquintWord_group _).length, ih hrest]
      omega

/-- an encoding that succeeds is of a positive, even number of bytes, whose text has a size that
is an `int` -/
theorem proquintEncode_eq_some (h : proquintEncode bytes size = .ok (some text)) :
    ∃ n : Nat, size = 2 * (n + 1) ∧ 6 * (n + 1) < 2 ^ 31 ∧ text.length + 1 = 6 * (n + 1) := by
  unfold proquintEncode at h
  by_cases heven : size.tmod 2 = 0
  · rw [if_neg (not_not.2 heven)] at h
    obtain ⟨k, rfl⟩ := Int.dvd_of_tmod_eq_zero heven
    obtain ⟨⟨hlow, hhigh⟩, h⟩ := require_bind_eq_ok.1 h
    by_cases hnull : ptrdiffMax < toUInt64 (2 * k * 3)
    · rw [if_pos hnull] at h
      cases h
    · rw [if_neg hnull] at h
      obtain ⟨ret, hret, h⟩ := bind_eq_ok.1 h
      obtain ⟨hne, h⟩ := require_bind_eq_ok.1 h
      cases h
      have hlen := length_encodeWords hret
      have hpos := List.length_pos_iff.2 hne
      have hk : (2 * k / 2).toNat = k.toNat := by omega
      rw [hk] at hlen
      refine ⟨k.toNat - 1, by omega, by omega, ?_⟩
      rw [List.length_dropLast]
      omega
  · rw [if_pos heven] at h
    cases h

theorem length_decodeWords {str : List UInt8} {i c : Nat} {ret out : Region}
    (h : decodeWords str n i c ret = .ok out) : out.length = ret.length := by
  induction n generalizing i c ret with
  | zero =>
    cases h
    rfl
  | succ n ih =>
    obtain ⟨-, h⟩ := require_bind_eq_ok.1 h
    obtain ⟨next, hnext, h⟩ := bind_eq_ok.1 h
    rw [ih h, Region.length_store hnext]

/-- **bytes** are encoded and decoded iff the size of the text is an `int` -/
theorem proquintBytesLaw_iff (heven : bytes.length % 2 = 0) (hne : bytes ≠ []) :
    ProquintBytesLaw bytes ↔ 3 * bytes.length < 2 ^ 31 := by
  have hpos := List.length_pos_iff.2 hne
  constructor
  · rintro ⟨text, hencode, -, hdecode⟩
    obtain ⟨n, hsize, hlt, -⟩ := proquintEncode_eq_some hencode
    have hle := toInt32_le_natCast bytes.length
    have hfront : (bytes.take (2 * (n + 1))).length = 2 * (n + 1) :=
      List.length_take_of_le (by omega)
    have hencode' := proquintEncode_eq hfront hlt (bytes.drop (2 * (n + 1)))
    have hint : toInt32 bytes.length = ((bytes.take (2 * (n + 1))).length : Nat) := by
      rw [hfront, hsize]
      push_cast
      ring
    rw [List.take_append_drop, ← hint, hencode] at hencode'
    cases hencode'
    rw [(proquintDecode_encoded hfront hlt).2, Except.ok.injEq, Option.some.injEq] at hdecode
    rw [← hdecode, hfront]
    omega
  · intro hlt
    obtain ⟨n, hn⟩ : ∃ n, bytes.length = 2 * (n + 1) := ⟨bytes.length / 2 - 1, by omega⟩
    have hencode := proquintEncode_eq hn (by omega) []
    rw [List.append_nil] at hencode
    refine ⟨encodedText bytes, ?_, proquintDecode_encoded hn (by omega)⟩
    rw [toInt32_natCast_of_lt (by omega), hencode]

theorem exists_third {l : Int} (hlow : -3 ≤ l) (hhigh : l < 2 ^ 31) :
    ∃ k : Nat, (l + 1).tdiv 3 = k ∧ k < 2 ^ 31 := by
  by_cases hneg : l + 1 < 0
  · have hcases : l = -3 ∨ l = -2 := by omega
    rcases hcases with rfl | rfl
    · exact ⟨0, rfl, by decide⟩
    · exact ⟨0, rfl, by decide⟩
  · refine ⟨((l + 1) / 3).toNat, ?_, by omega⟩
    rw [Int.tdiv_eq_ediv_of_nonneg (by omega)]
    omega

/-- a length that is negative enough leaves no memory for the bytes -/
theorem malloc_third {l : Int} (hlow : -2 ^ 31 ≤ l) (hhigh : l < 2 ^ 31) :
    Region.malloc (toUInt64 ((l + 1).tdiv 3)) = none ↔ l < -3 := by
  have hmax : ptrdiffMax = 9223372036854775807 := rfl
  by_cases hneg : l < -3
  · have e : (l + 1).tdiv 3 = -(-(l + 1) / 3) := by
      rw [← Int.tdiv_eq_ediv_of_nonneg (by omega), Int.neg_tdiv, Int.neg_neg]
    have hsize : ¬ toUInt64 (-(-(l + 1) / 3)) ≤ ptrdiffMax := by
      unfold toUInt64
      omega
    rw [e, Region.malloc, if_neg hsize]
    exact iff_of_true rfl hneg
  · obtain ⟨k, hk, hlt⟩ := exists_third (Int.not_lt.1 hneg) hhigh
    rw [hk, toUInt64_natCast_of_lt (by omega), Region.malloc_pos (by omega)]
    exact iff_of_false (by simp) hneg

/-- **a string is refused** when the check and its length say so, or for want of memory -/
theorem proquintDecode_eq_none {str : List UInt8} : proquintDecode str = .ok none ↔
    ∃ b, proquintIsProquint str = .ok b ∧
      ((b = false ∧ 3 ∣ toInt32 str.length + 1) ∨ toInt32 str.length < -3) := by
  obtain ⟨hlow, hhigh⟩ := toInt32_bounds str.length
  have hmalloc := malloc_third hlow hhigh
  unfold proquintDecode
  constructor
  · intro h
    obtain ⟨b, hb, h⟩ := bind_eq_ok.1 h
    refine ⟨b, hb, ?_⟩
    by_cases hrefuse : b = false ∧ (toInt32 str.length + 1).tmod 3 = 0
    · exact .inl ⟨hrefuse.1, Int.dvd_of_tmod_eq_zero hrefuse.2⟩
    · rw [if_neg hrefuse] at h
      cases hret : Region.malloc (toUInt64 ((toInt32 str.length + 1).tdiv 3)) with
      | none => exact .inr (hmalloc.1 hret)
      | some ret =>
        rw [hret] at h
        obtain ⟨out, -, h⟩ := bind_eq_ok.1 h
        cases h
  · rintro ⟨b, hb, h⟩
    show (proquintIsProquint str >>= _) = _
    rw [hb, ok_bind]
    by_cases hrefuse : b = false ∧ (toInt32 str.length + 1).tmod 3 = 0
    · rw [if_pos hrefuse]
    · have hnone : toInt32 str.length < -3 := by
        rcases h with ⟨hfalse, h3⟩ | h
        · exact absurd ⟨hfalse, Int.dvd_iff_tmod_eq_zero.1 h3⟩ hrefuse
        · exact h
      rw [if_neg hrefuse, hmalloc.2 hnone]

/-- **a decoding that succeeds** gives a third of the length -/
theorem length_proquintDecode {str : List UInt8} (h : proquintDecode str = .ok (some bytes)) :
    -3 ≤ toInt32 str.length ∧ (bytes.length : Int) = (toInt32 str.length + 1).tdiv 3 := by
  obtain ⟨hlow, hhigh⟩ := toInt32_bounds str.length
  have hsome : -3 ≤ toInt32 str.length := by
    by_contra hneg
    obtain ⟨b, hb, -⟩ := bind_eq_ok.1 h
    have hnone := proquintDecode_eq_none.2 ⟨b, hb, .inr (by omega)⟩
    rw [h] at hnone
    cases hnone
  obtain ⟨k, hk, hlt⟩ := exists_third hsome hhigh
  obtain ⟨b, -, h⟩ := bind_eq_ok.1 h
  refine ⟨hsome, ?_⟩
  by_cases hrefuse : b = false ∧ (toInt32 str.length + 1).tmod 3 = 0
  · rw [if_pos hrefuse] at h
    cases h
  · rw [if_neg hrefuse, hk, toUInt64_natCast_of_lt (by omega),
      Region.malloc_pos (by unfold ptrdiffMax; omega)] at h
    obtain ⟨out, hout, h⟩ := bind_eq_ok.1 h
    cases h
    rw [length_decodeWords hout, List.length_replicate, hk]

/-- a proquint whose length is no `int` is not encoded again -/
theorem length_lt_of_proquintLaw (h : ProquintLaw str) (hproquint : Proquint str.text) :
    str.text.length < 2 ^ 31 := by
  obtain ⟨hlow, hhigh⟩ := toInt32_bounds str.text.length
  obtain ⟨b, hb, hiff⟩ := h.accepts
  have h6 := ((proquintIsProquint_eq_ok.1 hb).2.1 (hiff.2 hproquint)).1
  obtain ⟨bytes, hdecode, hencode⟩ := h.inverse hproquint
  obtain ⟨hthree, hbytes⟩ := length_proquintDecode hdecode
  obtain ⟨n, hsize, hlt, hlen⟩ := proquintEncode_eq_some hencode
  obtain ⟨k, hk, hklt⟩ := exists_third hthree hhigh
  have hint : toInt32 bytes.length = bytes.length := toInt32_natCast_of_lt (by omega)
  obtain ⟨j, hj⟩ := h6
  have hthird : (toInt32 str.text.length + 1).tdiv 3 = 2 * j := by
    rw [hj]
    have e : (6 : Int) * j = 2 * j * 3 := by ring
    rw [e, Int.mul_tdiv_cancel _ (by decide)]
  omega

/-- **strings** keep their law iff the condition is met -/
theorem proquintLaw_iff : ProquintLaw str ↔ ProquintFits str := by
  constructor
  · intro h
    by_cases hproquint : Proquint str.text
    · exact .proquint hproquint (length_lt_of_proquintLaw h hproquint)
    · obtain ⟨b, hb, hiff⟩ := h.accepts
      have hfalse : b = false := by
        cases b with
        | false => rfl
        | true => exact absurd (hiff.1 rfl) hproquint
      obtain ⟨hint, hcheck⟩ := proquintIsProquint_eq_ok.1 hb
      refine .other hproquint hint (fun h6 => ?_) ?_
      · by_contra hnot
        have htrue := hcheck.2 ⟨h6, fun h0 => ?_⟩
        · rw [hfalse] at htrue
          cases htrue
        · by_contra htake
          exact hnot ⟨h0, htake⟩
      · obtain ⟨b', -, hrefuse⟩ := proquintDecode_eq_none.1 (h.rejects hproquint)
        rcases hrefuse with ⟨-, h3⟩ | hneg
        · exact .inl h3
        · exact .inr hneg
  · rintro (⟨hproquint, hlt⟩ | ⟨hproquint, hint, hcheck, hrefuse⟩)
    · obtain ⟨n, bytes, hbytes, htext⟩ := hproquint.exists_encodedText
      have hlen := length_encodedText hbytes
      have hsize : 6 * (n + 1) < 2 ^ 31 := by
        rw [← htext] at hlen
        omega
      obtain ⟨haccept, hdecode⟩ := proquintDecode_encoded hbytes hsize
      have hencode := proquintEncode_eq hbytes hsize []
      rw [List.append_nil] at hencode
      refine { accepts := ⟨true, ?_, iff_of_true rfl hproquint⟩,
               rejects := fun hnot => absurd hproquint hnot, inverse := fun _ => ⟨bytes, ?_, ?_⟩ }
      · rw [htext, haccept]
      · rw [htext, hdecode]
      · rw [toInt32_natCast_of_lt (by omega), hencode, htext]
    · have hfalse : proquintIsProquint str.text = .ok false := by
        rw [proquintIsProquint_eq_ok]
        refine ⟨hint, iff_of_false Bool.false_ne_true ?_⟩
        rintro ⟨h6, htake⟩
        exact (hcheck h6).2 (htake (hcheck h6).1)
      refine { accepts := ⟨false, hfalse, iff_of_false Bool.false_ne_true hproquint⟩,
               rejects := fun _ => proquintDecode_eq_none.2 ⟨false, hfalse, ?_⟩,
               inverse := fun h => absurd h hproquint }
      rcases hrefuse with h3 | hneg
      · exact .inl ⟨rfl, h3⟩
      · exact .inr hneg

/-- **the check, the encoder and the decoder agree** on bytes iff the size of their text is an
`int`, and on a string iff its length lets the decoder refuse it -/
theorem proquint_iff (bytes : List UInt8) (str : CString) :
    (bytes.length % 2 = 0 → bytes ≠ [] →
      (ProquintBytesLaw bytes ↔ 3 * bytes.length < 2 ^ 31)) ∧
      (ProquintLaw str ↔ ProquintFits str) :=
  ⟨fun heven hne => proquintBytesLaw_iff heven hne, proquintLaw_iff⟩

/-- two bytes, and a string whose last letter is wrong -/
theorem proquint_fits : ProquintBytesLaw [0x7f, 0x00] ∧
    ProquintLaw { text := [98, 97, 98, 97, 120], noZero := by decide, fits := by decide } := by
  have hiff := proquint_iff [0x7f, 0x00]
    { text := [98, 97, 98, 97, 120], noZero := by decide, fits := by decide }
  refine ⟨(hiff.1 rfl (by decide)).2 (by decide), hiff.2.2 ?_⟩
  have hnot : ¬ Proquint [98, 97, 98, 97, 120] := by
    rw [proquint_word_iff rfl]
    rintro ⟨-, -, -, -, h⟩
    exact absurd h (by decide)
  have hl : toInt32 (([98, 97, 98, 97, 120] : List UInt8).length : Nat) = 5 :=
    toInt32_natCast_of_lt (by decide)
  refine .other hnot ?_ (fun _ => ?_) ?_
  · rw [hl]
    decide
  · rw [hl]
    exact ⟨by decide, hnot⟩
  · rw [hl]
    exact .inl (by decide)

/-- `"xxxxxx"` is no proquint, and is decoded to two bytes -/
theorem not_proquint : ¬ ∀ str, ProquintLaw str := by
  intro h
  have hl : toInt32 (([120, 120, 120, 120, 120, 120] : List UInt8).length : Nat) = 6 :=
    toInt32_natCast_of_lt (by decide)
  have hfits := proquintLaw_iff.1
    (h { text := [120, 120, 120, 120, 120, 120], noZero := by decide, fits := by decide })
  cases hfits with
  | proquint hp => exact absurd hp.length (by decide)
  | other _ _ _ hrefuse =>
    dsimp only at hrefuse
    rw [hl] at hrefuse
    exact absurd hrefuse (by decide)

end

end Ipfs
