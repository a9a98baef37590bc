import Mathlib.Data.List.Infix

/-!
# Cutting a list at the occurrences of another

The occurrences are taken from the left, and do not overlap.  A delimiter that is empty is found
at once, so the results ask for one that is not.

* `findSub`            the place of the first occurrence;
* `firstPieces`        at most so many pieces, what is behind them left out;
* `piecesUpTo`         at most so many cuts, what is behind them the last piece;
* `intercalate_piecesUpTo`   joining the pieces with the delimiter;
* `firstPieces_eq_piecesUpTo`, `length_firstPieces`   pieces that are enough, and too few;
* `piecesUpTo_singleton`      a delimiter of one element: the pieces of `List.splitOn`.
-/

set_option linter.unusedSectionVars false

namespace CSem

variable {α : Type} [DecidableEq α]

/-- the place of the first occurrence -/
def findSub (delim : List α) : List α → Option Nat
  | [] => if delim = [] then some 0 else none
  | a :: text => if delim <+: a :: text then some 0 else (findSub delim text).map (· + 1)

/-- at most `n` pieces -/
def firstPieces (delim : List α) : Nat → List α → List (List α)
  | 0, _ => []
  | n + 1, text =>
    match findSub delim text with
    | none => [text]
    | some i => text.take i :: firstPieces delim n (text.drop (i + delim.length))

/-- at most `n` cuts: the last piece is what is left -/
def piecesUpTo (delim : List α) : Nat → List α → List (List α)
  | 0, text => [text]
  | n + 1, text =>
    match findSub delim text with
    | none => [text]
    | some i => text.take i :: piecesUpTo delim n (text.drop (i + delim.length))

/-- the occurrences, counted up to `n` -/
def occurrencesUpTo (delim : List α) : Nat → List α → Nat
  | 0, _ => 0
  | n + 1, text =>
    match findSub delim text with
    | none => 0
    | some i => occurrencesUpTo delim n (text.drop (i + delim.length)) + 1

/-- there are no more of them than there are elements -/
def occurrences (delim text : List α) : Nat := occurrencesUpTo delim text.length text

section
variable {delim text : List α} {n i : Nat}

theorem findSub_cons_pos {a : α} (h : delim <+: a :: text) : findSub delim (a :: text) = some 0 := if_pos h

theorem findSub_cons_neg {a : α} (h : ¬ delim <+: a :: text) :
    findSub delim (a :: text) = (findSub delim text).map (· + 1) := if_neg h

theorem findSub_le (h : findSub delim text = some i) : i + delim.length ≤ text.length := by
  induction text generalizing i with
  | nil =>
    by_cases hd : delim = []
    · rw [findSub, if_pos hd] at h
      cases h
      rw [hd]
      exact Nat.le_refl 0
    · rw [findSub, if_neg hd] at h
      cases h
  | cons a text ih =>
    by_cases hp : delim <+: a :: text
    · rw [findSub_cons_pos hp] at h
      cases h
      rw [Nat.zero_add]
      exact hp.length_le
    · rw [findSub_cons_neg hp, Option.map_eq_some_iff] at h
      obtain ⟨j, hj, rfl⟩ := h
      have := ih hj
      rw [List.length_cons]
      omega

/-- **the text around the first occurrence** -/
theorem eq_of_findSub (h : findSub delim text = some i) :
    text = text.take i ++ delim ++ text.drop (i + delim.length) := by
  induction text generalizing i with
  | nil =>
    by_cases hd : delim = []
    · rw [hd]
      simp
    · rw [findSub, if_neg hd] at h
      cases h
  | cons a text ih =>
    by_cases hp : delim <+: a :: text
    · rw [findSub_cons_pos hp] at h
      cases h
      obtain ⟨rest, hrest⟩ := hp
      rw [Nat.zero_add, List.take_zero, List.nil_append, ← hrest, List.drop_left]
    · rw [findSub_cons_neg hp, Option.map_eq_some_iff] at h
      obtain ⟨j, hj, rfl⟩ := h
      have e : j + 1 + delim.length = j + delim.length + 1 := by omega
      rw [e, List.take_succ_cons, List.drop_succ_cons, List.cons_append, List.cons_append, ← ih hj]

/-- nothing is found where there is nothing -/
theorem findSub_eq_none : findSub delim text = none ↔ ¬ delim <:+: text := by
  induction text with
  | nil =>
    by_cases hd : delim = []
    · rw [findSub, if_pos hd, hd]
      simp
    · rw [findSub, if_neg hd, List.infix_nil]
      exact iff_of_true rfl hd
  | cons a text ih =>
    by_cases hp : delim <+: a :: text
    · rw [findSub_cons_pos hp]
      exact iff_of_false (by simp) (not_not.2 hp.isInfix)
    · rw [findSub_cons_neg hp, Option.map_eq_none_iff, ih, List.infix_cons_iff, not_or]
      exact ⟨fun h => ⟨hp, h⟩, fun h => h.2⟩

/-- the occurrence that is found is the first -/
theorem findSub_drop {c : Nat} (h : findSub delim text = some i) (hc : c ≤ i) :
    findSub delim (text.drop c) = some (i - c) := by
  induction c generalizing i text with
  | zero => rw [List.drop_zero, Nat.sub_zero, h]
  | succ c ih =>
    cases text with
    | nil =>
      have := findSub_le h
      rw [List.length_nil] at this
      omega
    | cons a text =>
      by_cases hp : delim <+: a :: text
      · rw [findSub_cons_pos hp] at h
        cases h
        omega
      · rw [findSub_cons_neg hp, Option.map_eq_some_iff] at h
        obtain ⟨j, hj, rfl⟩ := h
        rw [List.drop_succ_cons, ih hj (by omega), Nat.add_sub_add_right]

theorem prefix_drop_of_findSub (h : findSub delim text = some i) : delim <+: text.drop i := by
  have hle := findSub_le h
  have htext := eq_of_findSub h
  refine ⟨text.drop (i + delim.length), ?_⟩
  conv_rhs => rw [htext]
  rw [List.append_assoc, List.drop_left' (List.length_take_of_le (by omega))]

/-- where there is an occurrence, the first one is not behind it -/
theorem exists_findSub_le {d : Nat} (h : delim <+: text.drop d) : ∃ i ≤ d, findSub delim text = some i := by
  induction text generalizing d with
  | nil =>
    rw [List.drop_nil, List.prefix_nil] at h
    exact ⟨0, Nat.zero_le d, if_pos h⟩
  | cons a text ih =>
    by_cases hp : delim <+: a :: text
    · exact ⟨0, Nat.zero_le d, findSub_cons_pos hp⟩
    · cases d with
      | zero => exact absurd h hp
      | succ d =>
        obtain ⟨i, hi, hfind⟩ := ih h
        exact ⟨i + 1, Nat.succ_le_succ hi, by rw [findSub_cons_neg hp, hfind, Option.map_some]⟩

theorem append_prefix_iff {more : List α} : delim ++ more <+: text ↔
    delim <+: text ∧ more <+: text.drop delim.length := by
  constructor
  · rintro ⟨rest, rfl⟩
    rw [List.append_assoc, List.drop_left]
    exact ⟨List.prefix_append _ _, List.prefix_append _ _⟩
  · rintro ⟨⟨rest, rfl⟩, hmore⟩
    rw [List.drop_left] at hmore
    exact (List.prefix_append_right_inj delim).2 hmore

/-- elements that cannot begin an occurrence are passed over -/
theorem findSub_drop_of_ne {a : α} {k : Nat} (h : ∀ x ∈ text.take k, x ≠ a) (hk : k ≤ text.length) :
    findSub (a :: delim) text = (findSub (a :: delim) (text.drop k)).map (· + k) := by
  induction k generalizing text with
  | zero =>
    rw [List.drop_zero]
    cases findSub (a :: delim) text <;> rfl
  | succ k ih =>
    cases text with
    | nil => exact absurd hk (Nat.not_succ_le_zero k)
    | cons x text =>
      rw [List.take_succ_cons] at h
      obtain ⟨hx, hrest⟩ := List.forall_mem_cons.1 h
      have hp : ¬ a :: delim <+: x :: text := fun hp => hx (List.cons_prefix_cons.1 hp).1.symm
      rw [findSub_cons_neg hp, List.drop_succ_cons, ih hrest (Nat.succ_le_succ_iff.1 hk), Option.map_map]
      rfl

/-- there is none in front of it -/
theorem not_infix_take (hd : delim ≠ []) (h : findSub delim text = some i) :
    ¬ delim <:+: text.take i := by
  induction text generalizing i with
  | nil =>
    rw [List.take_nil, List.infix_nil]
    exact hd
  | cons a text ih =>
    by_cases hp : delim <+: a :: text
    · rw [findSub_cons_pos hp] at h
      cases h
      rw [List.take_zero, List.infix_nil]
      exact hd
    · rw [findSub_cons_neg hp, Option.map_eq_some_iff] at h
      obtain ⟨j, hj, rfl⟩ := h
      rw [List.take_succ_cons, List.infix_cons_iff, not_or]
      refine ⟨fun hpre => hp (hpre.trans ?_), ih hj⟩
      exact List.prefix_cons_inj a |>.2 (List.take_prefix j text)

theorem firstPieces_none (h : findSub delim text = none) :
    firstPieces delim (n + 1) text = [text] := by
  rw [firstPieces, h]

theorem firstPieces_some (h : findSub delim text = some i) : firstPieces delim (n + 1) text =
    text.take i :: firstPieces delim n (text.drop (i + delim.length)) := by
  rw [firstPieces, h]

theorem piecesUpTo_none (h : findSub delim text = none) : piecesUpTo delim n text = [text] := by
  cases n with
  | zero => rfl
  | succ n => rw [piecesUpTo, h]

theorem piecesUpTo_some (h : findSub delim text = some i) : piecesUpTo delim (n + 1) text =
    text.take i :: piecesUpTo delim n (text.drop (i + delim.length)) := by
  rw [piecesUpTo, h]

theorem occurrencesUpTo_none (h : findSub delim text = none) : occurrencesUpTo delim n text = 0 := by
  cases n with
  | zero => rfl
  | succ n => rw [occurrencesUpTo, h]

theorem occurrencesUpTo_some (h : findSub delim text = some i) : occurrencesUpTo delim (n + 1) text =
    occurrencesUpTo delim n (text.drop (i + delim.length)) + 1 := by
  rw [occurrencesUpTo, h]

/-- what is behind an occurrence is shorter -/
theorem length_drop_findSub_lt (hd : delim ≠ []) (h : findSub delim text = some i) :
    (text.drop (i + delim.length)).length < text.length := by
  have hle := findSub_le h
  have hpos := List.length_pos_iff.2 hd
  rw [List.length_drop]
  omega

/-- counting further finds no more -/
theorem occurrencesUpTo_eq (hd : delim ≠ []) (hn : text.length ≤ n) :
    occurrencesUpTo delim n text = occurrences delim text := by
  have hmore : ∀ n m (text : List α), text.length ≤ n → text.length ≤ m →
      occurrencesUpTo delim n text = occurrencesUpTo delim m text := by
    intro n
    induction n with
    | zero =>
      intro m text hn hm
      have hnil : text = [] := List.eq_nil_of_length_eq_zero (Nat.le_zero.1 hn)
      have hnone : findSub delim text = none := by
        rw [hnil, findSub, if_neg hd]
      rw [occurrencesUpTo_none hnone, occurrencesUpTo_none hnone]
    | succ n ih =>
      intro m text hn hm
      cases hfind : findSub delim text with
      | none => rw [occurrencesUpTo_none hfind, occurrencesUpTo_none hfind]
      | some i =>
        have hlt := length_drop_findSub_lt hd hfind
        obtain ⟨m, rfl⟩ : ∃ k, m = k + 1 := ⟨m - 1, by omega⟩
        rw [occurrencesUpTo_some hfind, occurrencesUpTo_some hfind,
          ih m _ (by omega) (by omega)]
  exact hmore n text.length text hn (Nat.le_refl _)

theorem occurrences_none (h : findSub delim text = none) : occurrences delim text = 0 :=
  occurrencesUpTo_none h

theorem occurrences_some (hd : delim ≠ []) (h : findSub delim text = some i) :
    occurrences delim text = occurrences delim (text.drop (i + delim.length)) + 1 := by
  have hlt := length_drop_findSub_lt hd h
  rw [← @occurrencesUpTo_eq _ _ delim text (text.length + 1) hd (Nat.le_succ _),
    occurrencesUpTo_some h, occurrencesUpTo_eq hd (Nat.le_of_lt hlt)]

/-- there is an element for each of them -/
theorem occurrences_le (hd : delim ≠ []) (text : List α) :
    occurrences delim text ≤ text.length := by
  induction hlen : text.length using Nat.strongRecOn generalizing text with
  | _ len ih =>
    cases hfind : findSub delim text with
    | none =>
      rw [occurrences_none hfind]
      exact Nat.zero_le _
    | some i =>
      have hlt := length_drop_findSub_lt hd hfind
      have := ih _ (hlen ▸ hlt) _ rfl
      rw [occurrences_some hd hfind]
      omega

/-- **joining** the pieces -/
theorem intercalate_piecesUpTo (delim : List α) (n : Nat) (text : List α) :
    delim.intercalate (piecesUpTo delim n text) = text := by
  induction n generalizing text with
  | zero => exact List.intercalate_singleton
  | succ n ih =>
    cases hfind : findSub delim text with
    | none =>
      rw [piecesUpTo_none hfind]
      exact List.intercalate_singleton
    | some i =>
      have hne : piecesUpTo delim n (text.drop (i + delim.length)) ≠ [] := by
        cases n with
        | zero => exact List.cons_ne_nil _ _
        | succ n =>
          rw [piecesUpTo]
          split <;> exact List.cons_ne_nil _ _
      rw [piecesUpTo_some hfind, List.intercalate_cons_of_ne_nil hne, ih]
      exact (eq_of_findSub hfind).symm

/-- **as many cuts** as there are occurrences, or as are allowed -/
theorem length_piecesUpTo (hd : delim ≠ []) (n : Nat) (text : List α) :
    (piecesUpTo delim n text).length = min n (occurrences delim text) + 1 := by
  induction n generalizing text with
  | zero =>
    rw [Nat.zero_min]
    rfl
  | succ n ih =>
    cases hfind : findSub delim text with
    | none =>
      rw [piecesUpTo_none hfind, occurrences_none hfind, Nat.min_zero]
      rfl
    | some i =>
      rw [piecesUpTo_some hfind, occurrences_some hd hfind, List.length_cons, ih]
      omega

/-- **pieces that are enough**: nothing is left out -/
theorem firstPieces_eq_piecesUpTo (hd : delim ≠ []) (h : occurrences delim text ≤ n) :
    firstPieces delim (n + 1) text = piecesUpTo delim n text := by
  induction n generalizing text with
  | zero =>
    cases hfind : findSub delim text with
    | none => exact firstPieces_none hfind
    | some i =>
      rw [occurrences_some hd hfind] at h
      omega
  | succ n ih =>
    cases hfind : findSub delim text with
    | none => rw [firstPieces_none hfind, piecesUpTo_none hfind]
    | some i =>
      rw [occurrences_some hd hfind] at h
      rw [firstPieces_some hfind, piecesUpTo_some hfind, ih (by omega)]

/-- a limit that is not reached -/
theorem piecesUpTo_eq {m : Nat} (hd : delim ≠ []) (hn : occurrences delim text ≤ n)
    (hm : occurrences delim text ≤ m) : piecesUpTo delim n text = piecesUpTo delim m text := by
  induction n generalizing m text with
  | zero =>
    cases hfind : findSub delim text with
    | none => rw [piecesUpTo_none hfind, piecesUpTo_none hfind]
    | some i =>
      rw [occurrences_some hd hfind] at hn
      omega
  | succ n ih =>
    cases hfind : findSub delim text with
    | none => rw [piecesUpTo_none hfind, piecesUpTo_none hfind]
    | some i =>
      rw [occurrences_some hd hfind] at hn hm
      obtain ⟨m, rfl⟩ : ∃ k, m = k + 1 := ⟨m - 1, by omega⟩
      rw [piecesUpTo_some hfind, piecesUpTo_some hfind, @ih _ m (by omega) (by omega)]

/-- **too few pieces**: they are as many as are asked for -/
theorem length_firstPieces (hd : delim ≠ []) (h : n ≤ occurrences delim text) :
    (firstPieces delim n text).length = n := by
  induction n generalizing text with
  | zero => rfl
  | succ n ih =>
    cases hfind : findSub delim text with
    | none =>
      rw [occurrences_none hfind] at h
      omega
    | some i =>
      rw [occurrences_some hd hfind] at h
      rw [firstPieces_some hfind, List.length_cons, ih (by omega)]

/-! ## a delimiter of one element -/

theorem splitOn_of_findSub_none {a : α} (h : findSub [a] text = none) : text.splitOn a = [text] := by
  apply List.splitOn_eq_singleton
  rw [← List.singleton_infix_iff]
  exact findSub_eq_none.1 h

theorem splitOn_of_findSub_some {a : α} (h : findSub [a] text = some i) :
    text.splitOn a = text.take i :: (text.drop (i + 1)).splitOn a := by
  have hfront : a ∉ text.take i := by
    rw [← List.singleton_infix_iff]
    exact not_infix_take (List.cons_ne_nil _ _) h
  have e := eq_of_findSub h
  rw [List.append_assoc, List.singleton_append] at e
  conv_lhs => rw [e, List.splitOn_append_cons_self_of_not_mem hfront]
  rfl

/-- **all of them**, where there is a cut for each occurrence -/
theorem piecesUpTo_singleton {a : α} (h : occurrences [a] text ≤ n) :
    piecesUpTo [a] n text = text.splitOn a := by
  induction n generalizing text with
  | zero =>
    cases hfind : findSub [a] text with
    | none => rw [piecesUpTo_none hfind, splitOn_of_findSub_none hfind]
    | some i =>
      rw [occurrences_some (List.cons_ne_nil _ _) hfind] at h
      omega
  | succ n ih =>
    cases hfind : findSub [a] text with
    | none => rw [piecesUpTo_none hfind, splitOn_of_findSub_none hfind]
    | some i =>
      rw [occurrences_some (List.cons_ne_nil _ _) hfind] at h
      rw [piecesUpTo_some hfind, splitOn_of_findSub_some hfind, ih (by omega)]
      rfl

/-- what is in a piece is in the text, and is not the delimiter -/
theorem of_mem_splitOn {a b : α} {piece : List α} (h : piece ∈ text.splitOn a) (hb : b ∈ piece) :
    b ∈ text ∧ b ≠ a := by
  induction text generalizing piece with
  | nil =>
    rw [List.splitOn_eq_singleton List.not_mem_nil, List.mem_singleton] at h
    exact absurd (h ▸ hb) List.not_mem_nil
  | cons c text ih =>
    have hrest : ∀ piece ∈ text.splitOn a, b ∈ piece → b ∈ c :: text ∧ b ≠ a :=
      fun piece hp hb => ⟨List.mem_cons_of_mem c (ih hp hb).1, (ih hp hb).2⟩
    rw [List.splitOn_cons_eq_if_modifyHead] at h
    split at h
    · rcases List.mem_cons.1 h with rfl | h
      · exact absurd hb List.not_mem_nil
      · exact hrest piece h hb
    · rename_i hc
      cases hs : text.splitOn a with
      | nil => exact absurd hs (List.splitOn_ne_nil a text)
      | cons first pieces =>
        rw [hs, List.modifyHead_cons] at h
        rcases List.mem_cons.1 h with rfl | h
        · rcases List.mem_cons.1 hb with rfl | hb
          · exact ⟨List.mem_cons_self, fun e => hc (beq_iff_eq.2 e)⟩
          · exact hrest first (hs ▸ List.mem_cons_self) hb
        · exact hrest piece (hs ▸ List.mem_cons_of_mem first h) hb

theorem not_mem_of_mem_splitOn {a : α} {piece : List α} (h : piece ∈ text.splitOn a) :
    a ∉ piece := fun ha => (of_mem_splitOn h ha).2 rfl

end

end CSem
