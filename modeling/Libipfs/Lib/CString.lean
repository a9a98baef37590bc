import Libipfs.Lib.Exec
import Mathlib.Data.List.Infix

/-!
# Comparing and searching in buffers

`strncmp` and a `strnstr` that cuts the needle down to the haystack.  Both read a buffer that
need not end in a zero byte, so each read is one of the list.

* `strncmpZero`           whether `strncmp` returns 0;
* `strncmpZero_eq`        it does for a prefix, and reads past the end of what is one itself;
* `strnstr`               the place of the needle, counted by an `int`;
* `strnstr_eq_some_zero`  when that is the beginning of the haystack;
* `safe_strnstr`          when the count does not overflow;
* `cutAt`                 a string cut in two at a character;
* `strtok`                the pieces of a string that `strtok` finds, one after the other;
* `strcat`, `strcpy`      into a buffer that may be too small;
* `CString`, `cstr`       a string in memory, and the one at a place of a buffer.
-/

namespace CSem

/-- the text of a string literal -/
def asciiBytes (text : String) : List UInt8 := text.toList.map fun c => UInt8.ofNat c.toNat

/-- what is true of each byte -/
theorem forall_byte {P : UInt8 → Prop} (h : ∀ k < 256, P (UInt8.ofNat k)) (c : UInt8) : P c := by
  have hc := h c.toNat c.toNat_lt
  rwa [UInt8.ofNat_toNat] at hc

/-! ## strncmp -/

/-- at most `n` characters are compared, up to the first that differ or are zero -/
def strncmpZero : Nat → List UInt8 → List UInt8 → Exec Bool
  | 0, _, _ => .ok true
  | n + 1, a :: as, b :: bs =>
    if a ≠ b then .ok false
    else if a = 0 then .ok true
    else strncmpZero n as bs
  | _ + 1, _, _ => .error .outOfBounds

section
variable {text buf : List UInt8} {n : Nat}

/-- **comparing** with the beginning of a text that has no zero in it -/
theorem strncmpZero_eq (h0 : 0 ∉ text) (hn : n ≤ text.length) :
    strncmpZero n text buf =
      if text.take n <+: buf then .ok true
      else if buf <+: text.take n then .error .outOfBounds
      else .ok false := by
  induction text generalizing n buf with
  | nil =>
    obtain rfl := Nat.le_zero.1 hn
    rw [List.take_zero, if_pos List.nil_prefix]
    rfl
  | cons a as ih =>
    cases n with
    | zero =>
      rw [List.take_zero, if_pos List.nil_prefix]
      rfl
    | succ n =>
      have ha : a ≠ 0 := fun h => h0 (by rw [h]; exact List.mem_cons_self)
      have has : 0 ∉ as := fun h => h0 (List.mem_cons_of_mem _ h)
      rw [List.take_succ_cons]
      cases buf with
      | nil =>
        have hnot : ¬ a :: as.take n <+: [] := fun h => nomatch List.prefix_nil.1 h
        rw [if_neg hnot, if_pos List.nil_prefix]
        rfl
      | cons b bs =>
        by_cases hab : a = b
        · subst hab
          have hstep : strncmpZero (n + 1) (a :: as) (a :: bs) = strncmpZero n as bs := by
            rw [strncmpZero, if_neg (not_not_intro rfl), if_neg ha]
          rw [hstep, ih has (Nat.le_of_succ_le_succ hn)]
          simp only [List.cons_prefix_cons, true_and]
        · have h1 : ¬ a :: as.take n <+: b :: bs := fun h => hab (List.cons_prefix_cons.1 h).1
          have h2 : ¬ b :: bs <+: a :: as.take n := fun h =>
            hab (List.cons_prefix_cons.1 h).1.symm
          rw [if_neg h1, if_neg h2, strncmpZero, if_pos hab]

/-- in a buffer that is long enough -/
theorem strncmpZero_eq_of_le (h0 : 0 ∉ text) (hn : n ≤ text.length) (hbuf : n ≤ buf.length) :
    strncmpZero n text buf = .ok (decide (text.take n <+: buf)) := by
  rw [strncmpZero_eq h0 hn]
  by_cases h : text.take n <+: buf
  · rw [if_pos h, decide_eq_true h]
  · have hnot : ¬ buf <+: text.take n := by
      intro hb
      have hle := hb.length_le
      rw [List.length_take, Nat.min_eq_left hn] at hle
      have heq := hb.eq_of_length_le (by rw [List.length_take, Nat.min_eq_left hn]; exact hbuf)
      exact h (by rw [heq])
    rw [if_neg h, if_neg hnot, decide_eq_false h]

/-! ## strnstr -/

/-- the needle is at the front of what is left of the haystack -/
def strnstrHere (needle : List UInt8) (needleLen : Nat) : List UInt8 → Exec Bool
  | [] => .error .outOfBounds
  | c :: haystack =>
    if needle.head? = some c then strncmpZero needleLen needle (c :: haystack) else .ok false

/-- the loop counts with an `int` -/
def strnstrFrom (needle : List UInt8) (needleLen : Nat) (last : Int) :
    List UInt8 → Nat → Exec (Option Nat)
  | [], i => if (i : Int) ≤ last then .error .outOfBounds else .ok none
  | c :: haystack, i =>
    if (i : Int) ≤ last then do
      let found ← strnstrHere needle needleLen (c :: haystack)
      if found then .ok (some i)
      else do
        require .overflow (i + 1 < 2 ^ 31)
        strnstrFrom needle needleLen last haystack (i + 1)
    else .ok none

/-- the length of the needle is that of the haystack, if that is less -/
def strnstr (haystack needle : List UInt8) : Exec (Option Nat) :=
  let needleLen := min needle.length haystack.length
  if needleLen = 0 then .ok (some 0)
  else strnstrFrom needle needleLen (toInt32 (haystack.length - needleLen : Nat)) haystack 0

variable {needle haystack : List UInt8} {last : Int} {i : Nat}

theorem strnstrHere_eq (h0 : 0 ∉ needle) (hpos : 0 < n) (hn : n ≤ needle.length)
    (hlen : n ≤ haystack.length) :
    strnstrHere needle n haystack = .ok (decide (needle.take n <+: haystack)) := by
  cases haystack with
  | nil => exact absurd hlen (Nat.not_le.2 hpos)
  | cons c haystack =>
    obtain ⟨a, as, rfl⟩ : ∃ a as, needle = a :: as := by
      cases needle with
      | nil => exact absurd hn (Nat.not_le.2 hpos)
      | cons a as => exact ⟨a, as, rfl⟩
    obtain ⟨n, rfl⟩ : ∃ m, n = m + 1 := ⟨n - 1, by omega⟩
    show (if some a = some c then _ else _) = _
    by_cases hac : a = c
    · rw [if_pos (by rw [hac])]
      exact strncmpZero_eq_of_le h0 hn hlen
    · have hnot : ¬ (a :: as).take (n + 1) <+: c :: haystack := by
        rw [List.take_succ_cons]
        exact fun h => hac (List.cons_prefix_cons.1 h).1
      rw [if_neg fun h => hac (Option.some.inj h), decide_eq_false hnot]

/-- a pass of the loop -/
theorem strnstrFrom_eq (h0 : 0 ∉ needle) (hpos : 0 < n) (hn : n ≤ needle.length)
    (hlast : last + n ≤ i + haystack.length) (hi : (i : Int) ≤ last) :
    strnstrFrom needle n last haystack i =
      if needle.take n <+: haystack then .ok (some i)
      else require .overflow (i + 1 < 2 ^ 31) >>= fun _ =>
        strnstrFrom needle n last (haystack.drop 1) (i + 1) := by
  have hlen : n ≤ haystack.length := by omega
  have hhere := strnstrHere_eq h0 hpos hn hlen
  cases haystack with
  | nil => exact absurd hlen (Nat.not_le.2 hpos)
  | cons c haystack =>
    rw [strnstrFrom, if_pos hi, hhere, ok_bind]
    by_cases h : needle.take n <+: c :: haystack
    · rw [decide_eq_true h, if_pos h]
      rfl
    · rw [decide_eq_false h, if_neg h]
      rfl

theorem strnstrFrom_done (hi : ¬ (i : Int) ≤ last) :
    strnstrFrom needle n last haystack i = .ok none := by
  cases haystack with
  | nil => rw [strnstrFrom, if_neg hi]
  | cons c haystack => rw [strnstrFrom, if_neg hi]

theorem le_of_strnstrFrom {k : Nat} (h : strnstrFrom needle n last haystack i = .ok (some k)) :
    i ≤ k := by
  induction haystack generalizing i with
  | nil =>
    rw [strnstrFrom] at h
    split at h
    · cases h
    · cases h
  | cons c haystack ih =>
    rw [strnstrFrom] at h
    split at h
    · obtain ⟨found, -, h⟩ := bind_eq_ok.1 h
      cases found with
      | true =>
        cases h
        exact Nat.le_refl _
      | false =>
        obtain ⟨-, h⟩ := require_bind_eq_ok.1 h
        exact Nat.le_of_succ_le (ih h)
    · cases h

/-- the place the loop is at -/
theorem strnstrFrom_eq_some_self (h0 : 0 ∉ needle) (hpos : 0 < n) (hn : n ≤ needle.length)
    (hlast : last + n ≤ i + haystack.length) :
    strnstrFrom needle n last haystack i = .ok (some i) ↔
      (i : Int) ≤ last ∧ needle.take n <+: haystack := by
  by_cases hi : (i : Int) ≤ last
  · rw [strnstrFrom_eq h0 hpos hn hlast hi]
    by_cases h : needle.take n <+: haystack
    · rw [if_pos h]
      exact ⟨fun _ => ⟨hi, h⟩, fun _ => rfl⟩
    · rw [if_neg h]
      refine ⟨fun hk => ?_, fun hk => absurd hk.2 h⟩
      obtain ⟨-, hk⟩ := require_bind_eq_ok.1 hk
      exact absurd (le_of_strnstrFrom hk) (Nat.not_succ_le_self i)
  · rw [strnstrFrom_done hi]
    refine ⟨fun hk => ?_, fun hk => absurd hk.1 hi⟩
    cases hk

/-- the loop counts beyond an `int` when it may go on for so long and finds nothing -/
theorem safe_strnstrFrom (h0 : 0 ∉ needle) (hpos : 0 < n) (hn : n ≤ needle.length)
    (hlast : last + n ≤ i + haystack.length) (hint : last < 2 ^ 31) :
    Safe (strnstrFrom needle n last haystack i) ↔
      ((i : Int) ≤ last → last = 2 ^ 31 - 1 →
        ∃ j : Nat, (i + j : Int) ≤ last ∧ needle.take n <+: haystack.drop j) := by
  induction haystack generalizing i with
  | nil =>
    have hi : ¬ (i : Int) ≤ last := by
      rw [List.length_nil] at hlast
      omega
    rw [strnstrFrom_done hi]
    exact ⟨fun _ h => absurd h hi, fun _ => safe_ok _⟩
  | cons c haystack ih =>
    by_cases hi : (i : Int) ≤ last
    · rw [strnstrFrom_eq h0 hpos hn hlast hi]
      by_cases h : needle.take n <+: c :: haystack
      · rw [if_pos h]
        exact ⟨fun _ _ _ => ⟨0, by omega, h⟩, fun _ => safe_ok _⟩
      · rw [if_neg h, List.drop_one, List.tail_cons]
        rw [List.length_cons] at hlast
        have hlater := @ih (i + 1) (by push_cast at hlast ⊢; omega)
        -- an occurrence is none of the first place
        have hshift : (∃ j : Nat, (i + j : Int) ≤ last ∧ needle.take n <+: (c :: haystack).drop j) ↔
            ∃ j : Nat, ((i + 1 : Nat) + j : Int) ≤ last ∧ needle.take n <+: haystack.drop j := by
          constructor
          · rintro ⟨j, hj, hp⟩
            cases j with
            | zero => exact absurd hp h
            | succ j => exact ⟨j, by push_cast at hj ⊢; omega, hp⟩
          · rintro ⟨j, hj, hp⟩
            exact ⟨j + 1, by push_cast at hj ⊢; omega, hp⟩
        rw [safe_bind, hshift]
        constructor
        · rintro ⟨u, hu, hsafe⟩ - hmax
          have hroom : i + 1 < 2 ^ 31 := require_eq_ok.1 hu
          exact hlater.1 hsafe (by omega) hmax
        · intro hocc
          have hroom : i + 1 < 2 ^ 31 := by
            by_contra hge
            have hmax : last = 2 ^ 31 - 1 := by omega
            obtain ⟨j, hj, -⟩ := hocc hi hmax
            omega
          exact ⟨(), require_pos hroom, hlater.2 fun _ hmax => hocc hi hmax⟩
    · rw [strnstrFrom_done hi]
      exact ⟨fun _ h => absurd h hi, fun _ => safe_ok _⟩

/-- the last place the loop looks at -/
def strnstrLast (haystack needle : List UInt8) : Int :=
  toInt32 (haystack.length - min needle.length haystack.length : Nat)

private theorem strnstr_eq (hneedle : needle ≠ []) (hhaystack : haystack ≠ []) :
    strnstr haystack needle = strnstrFrom needle (min needle.length haystack.length)
      (strnstrLast haystack needle) haystack 0 := by
  have h1 := List.length_pos_iff.2 hneedle
  have h2 := List.length_pos_iff.2 hhaystack
  show (if _ then _ else _) = _
  rw [if_neg (by omega)]
  rfl

private theorem strnstrLast_add :
    strnstrLast haystack needle + (min needle.length haystack.length : Nat) ≤
      (0 : Nat) + haystack.length := by
  have h := toInt32_le_natCast (haystack.length - min needle.length haystack.length)
  unfold strnstrLast
  omega

theorem take_min_length : needle.take (min needle.length haystack.length) =
    needle.take haystack.length := by
  rw [List.take_eq_take_iff]
  omega

/-- **the needle is found at the beginning** when what there is room for of it is there, unless
the loop never runs -/
theorem strnstr_eq_some_zero (h0 : 0 ∉ needle) (hneedle : needle ≠ []) (hhaystack : haystack ≠ []) :
    strnstr haystack needle = .ok (some 0) ↔
      0 ≤ strnstrLast haystack needle ∧ needle.take haystack.length <+: haystack := by
  have h1 := List.length_pos_iff.2 hneedle
  have h2 := List.length_pos_iff.2 hhaystack
  rw [strnstr_eq hneedle hhaystack,
    strnstrFrom_eq_some_self h0 (by omega) (Nat.min_le_left _ _) strnstrLast_add, take_min_length]
  rfl

theorem safe_strnstr (h0 : 0 ∉ needle) (hneedle : needle ≠ []) (hhaystack : haystack ≠ []) :
    Safe (strnstr haystack needle) ↔ (strnstrLast haystack needle = 2 ^ 31 - 1 →
      ∃ j : Nat, (j : Int) ≤ strnstrLast haystack needle ∧
        needle.take haystack.length <+: haystack.drop j) := by
  have h1 := List.length_pos_iff.2 hneedle
  have h2 := List.length_pos_iff.2 hhaystack
  have hint : strnstrLast haystack needle < 2 ^ 31 := (toInt32_bounds _).2
  rw [strnstr_eq hneedle hhaystack,
    safe_strnstrFrom h0 (by omega) (Nat.min_le_left _ _) strnstrLast_add hint, take_min_length]
  simp only [Nat.cast_zero, zero_add]
  constructor
  · intro h hmax
    exact h (by omega) hmax
  · intro h _ hmax
    exact h hmax

end

/-! ## strchr -/

/-- a string cut at the first `c`, by a zero byte where `strchr` finds it: what is before, and what
is behind it -/
def cutAt (c : UInt8) : List UInt8 → List UInt8 × Option (List UInt8)
  | [] => ([], none)
  | b :: text =>
    if b = c then ([], some text)
    else (b :: (cutAt c text).1, (cutAt c text).2)

/-- the two halves with the character between them -/
def joinAt (c : UInt8) (front : List UInt8) : Option (List UInt8) → List UInt8
  | none => front
  | some back => front ++ c :: back

section
variable {c : UInt8} {text back : List UInt8}

theorem cutAt_of_not_mem (h : c ∉ text) : cutAt c text = (text, none) := by
  induction text with
  | nil => rfl
  | cons b text ih =>
    have hb : b ≠ c := fun e => h (by rw [e]; exact List.mem_cons_self)
    rw [cutAt, if_neg hb, ih fun ht => h (List.mem_cons_of_mem _ ht)]

theorem cutAt_append (h : c ∉ text) : cutAt c (text ++ c :: back) = (text, some back) := by
  induction text with
  | nil => rw [List.nil_append, cutAt, if_pos rfl]
  | cons b text ih =>
    have hb : b ≠ c := fun e => h (by rw [e]; exact List.mem_cons_self)
    rw [List.cons_append, cutAt, if_neg hb, ih fun ht => h (List.mem_cons_of_mem _ ht)]

theorem cutAt_append_left (h : c ∉ text) :
    cutAt c (text ++ back) = (text ++ (cutAt c back).1, (cutAt c back).2) := by
  induction text with
  | nil => rfl
  | cons b text ih =>
    have hb : b ≠ c := (List.ne_of_not_mem_cons h).symm
    rw [List.cons_append, cutAt, if_neg hb, ih (List.not_mem_of_not_mem_cons h)]
    rfl

theorem cutAt_joinAt {rest : Option (List UInt8)} (h : c ∉ text) :
    cutAt c (joinAt c text rest) = (text, rest) := by
  cases rest with
  | none => exact cutAt_of_not_mem h
  | some back => exact cutAt_append h

theorem joinAt_cutAt (c : UInt8) (text : List UInt8) :
    joinAt c (cutAt c text).1 (cutAt c text).2 = text := by
  induction text with
  | nil => rfl
  | cons b text ih =>
    rw [cutAt]
    split
    · next hb => rw [hb]; rfl
    · show joinAt c (b :: (cutAt c text).1) (cutAt c text).2 = _
      cases hr : (cutAt c text).2 with
      | none =>
        rw [hr] at ih
        exact congrArg (List.cons b) ih
      | some back =>
        rw [hr] at ih
        exact congrArg (List.cons b) ih

theorem not_mem_cutAt (c : UInt8) (text : List UInt8) : c ∉ (cutAt c text).1 := by
  induction text with
  | nil => exact List.not_mem_nil
  | cons b text ih =>
    rw [cutAt]
    split
    · exact List.not_mem_nil
    · next hb =>
      intro h
      rcases List.mem_cons.1 h with h | h
      · exact hb h.symm
      · exact ih h

theorem cutAt_fst_length_le (c : UInt8) (text : List UInt8) :
    (cutAt c text).1.length ≤ text.length := by
  have h := congrArg List.length (joinAt_cutAt c text)
  cases hr : (cutAt c text).2 with
  | none =>
    rw [hr] at h
    exact Nat.le_of_eq h
  | some back =>
    rw [hr, joinAt, List.length_append] at h
    omega

/-- what is cut off of what the character is in -/
theorem cutAt_append_of_mem {more : List UInt8} (h : c ∈ text) :
    (cutAt c (text ++ more)).1 = (cutAt c text).1 ∧ (cutAt c text).1.length < text.length := by
  induction text with
  | nil => cases h
  | cons b text ih =>
    rw [List.cons_append, cutAt, cutAt]
    split
    · exact ⟨rfl, Nat.succ_pos _⟩
    · next hb =>
      have hm : c ∈ text := by
        rcases List.mem_cons.1 h with hbc | hm
        · exact absurd hbc.symm hb
        · exact hm
      obtain ⟨h1, h2⟩ := ih hm
      exact ⟨congrArg (List.cons b) h1, Nat.succ_lt_succ h2⟩

/-- the characters of the pieces are those of the string but for the one it is cut at -/
theorem length_splitOn (c : UInt8) (text : List UInt8) :
    ((text.splitOn c).map fun piece => piece.length + 1).sum = text.length + 1 := by
  induction text with
  | nil => rfl
  | cons b text ih =>
    rw [List.splitOn_eq_splitOnP, List.splitOnP_cons_eq_if_modifyHead,
      ← List.splitOn_eq_splitOnP]
    split
    · rw [List.map_cons, List.sum_cons, ih, List.length_nil, List.length_cons]
      omega
    · cases hs : text.splitOn c with
      | nil => exact absurd hs (List.splitOn_ne_nil c text)
      | cons piece pieces =>
        rw [hs, List.map_cons, List.sum_cons] at ih
        rw [List.modifyHead_cons, List.map_cons, List.sum_cons, List.length_cons, List.length_cons]
        omega

/-- the first piece -/
theorem head_splitOn (c : UInt8) (text : List UInt8) :
    (text.splitOn c).head? = some (cutAt c text).1 := by
  induction text with
  | nil => rfl
  | cons b text ih =>
    rw [List.splitOn_eq_splitOnP, List.splitOnP_cons_eq_if_modifyHead,
      ← List.splitOn_eq_splitOnP, cutAt]
    by_cases hb : b = c
    · rw [if_pos hb, if_pos (beq_iff_eq.2 hb)]
      rfl
    · rw [if_neg hb, if_neg fun h => hb (beq_iff_eq.1 h)]
      cases hs : text.splitOn c with
      | nil => exact absurd hs (List.splitOn_ne_nil c text)
      | cons piece pieces =>
        rw [hs] at ih
        exact congrArg (Option.map (List.cons b)) ih

end

/-! ## strtok -/

/-- what is between the delimiters, where there is something -/
def strtok (delim : UInt8) (text : List UInt8) : List (List UInt8) :=
  (text.splitOn delim).filter fun piece => piece ≠ []

section
variable {delim : UInt8} {word rest : List UInt8}

theorem strtok_nil (delim : UInt8) : strtok delim [] = [] := rfl

theorem strtok_append (text rest : List UInt8) :
    strtok delim (text ++ delim :: rest) = strtok delim text ++ strtok delim rest := by
  unfold strtok
  rw [List.splitOn_append_cons_self, List.filter_append]

/-- a delimiter in front is passed over -/
theorem strtok_cons_self (rest : List UInt8) : strtok delim (delim :: rest) = strtok delim rest :=
  strtok_append [] rest

/-- and so is one at the end -/
theorem strtok_concat_self (text : List UInt8) :
    strtok delim (text ++ [delim]) = strtok delim text := by
  rw [strtok_append, strtok_nil, List.append_nil]

theorem strtok_of_not_mem (hne : word ≠ []) (h : delim ∉ word) : strtok delim word = [word] := by
  unfold strtok
  rw [List.splitOn_eq_singleton h, List.filter_singleton, decide_eq_true hne]
  rfl

/-- a word, and what a delimiter begins -/
theorem strtok_word (hne : word ≠ []) (h : delim ∉ word) (rest : List UInt8) :
    strtok delim (word ++ delim :: rest) = word :: strtok delim rest := by
  rw [strtok_append, strtok_of_not_mem hne h]
  rfl

end

/-! ## copying -/

/-- into a buffer of `size` bytes -/
def strcat (size : Nat) (dest src : List UInt8) : Exec (List UInt8) := do
  require .overflow (dest.length + src.length < size)
  .ok (dest ++ src)

/-- the zero byte takes a place too -/
def strcpy (size : Nat) (src : List UInt8) : Exec (List UInt8) := strcat size [] src

section
variable {size : Nat} {dest src text : List UInt8}

theorem strcat_eq_ok :
    strcat size dest src = .ok text ↔ dest.length + src.length < size ∧ dest ++ src = text := by
  unfold strcat
  rw [require_bind_eq_ok, Except.ok.injEq]

theorem strcat_pos (h : dest.length + src.length < size) :
    strcat size dest src = .ok (dest ++ src) := strcat_eq_ok.2 ⟨h, rfl⟩

theorem strcpy_pos (h : src.length < size) : strcpy size src = .ok src :=
  strcat_pos (by rwa [List.length_nil, Nat.zero_add])

end

/-! ## strings in memory -/

/-- no zero but the one behind it, which is in the same object -/
structure CString where
  text : List UInt8
  noZero : 0 ∉ text
  fits : text.length < ptrdiffMax
  deriving DecidableEq, Repr

/-- the string at a place of a buffer -/
def cstr (buffer : List UInt8) (place : Nat) : List UInt8 :=
  (buffer.drop place).takeWhile (· ≠ 0)

theorem cstr_append {text : List UInt8} (h0 : 0 ∉ text) (front back : List UInt8) :
    cstr (front ++ (text ++ 0 :: back)) front.length = text := by
  have hall : ∀ b ∈ text, decide (b ≠ 0) = true :=
    fun b hb => decide_eq_true fun e => h0 (e ▸ hb)
  unfold cstr
  rw [List.drop_left, List.takeWhile_append_of_pos hall, List.takeWhile_cons_of_neg (by decide),
    List.append_nil]

end CSem
