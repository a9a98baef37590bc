import Libipfs.Lib.Exec

/-!
# Transfers in parts

Whoever may be served less than they ask for asks again for the rest.  `amount i` is the most that
the turn `i` gives.

* `through`               how much of the whole is through after so many turns;
* `exists_first_through`  all of it is, when the turns go on giving;
* `gathered`              what the turns have brought, one after the other;
* `gathered_eq_take_iff`  **it is the beginning of a text** iff each piece is the one that is due;
* `runFor`                a machine that is fed by a sequence, for so many turns.
-/

namespace CSem

/-! ## how much is through -/

section
variable (amount : Nat → Nat) (total : Nat)

def through : Nat → Nat
  | 0 => 0
  | i + 1 => min total (through i + amount i)

@[simp] theorem through_zero : through amount total 0 = 0 := rfl
theorem through_succ (i : Nat) :
    through amount total (i + 1) = min total (through amount total i + amount i) := rfl

theorem through_le (i : Nat) : through amount total i ≤ total := by
  cases i with
  | zero => exact Nat.zero_le total
  | succ i => exact Nat.min_le_left _ _

/-- a turn brings what it gives, or all that is left -/
theorem through_succ_eq (i : Nat) : through amount total (i + 1) =
    through amount total i + min (amount i) (total - through amount total i) := by
  have hle := through_le amount total i
  rw [through_succ]
  omega

theorem through_le_succ (i : Nat) : through amount total i ≤ through amount total (i + 1) := by
  rw [through_succ_eq]
  exact Nat.le_add_right _ _

theorem through_mono {i j : Nat} (h : i ≤ j) : through amount total i ≤ through amount total j :=
  monotone_nat_of_le_succ (through_le_succ amount total) h

/-- what is through stays through -/
theorem through_eq_of_le {i j : Nat} (h : through amount total i = total) (hij : i ≤ j) :
    through amount total j = total := by
  have hmono := through_mono amount total hij
  have hle := through_le amount total j
  omega

variable {amount}

/-- **all of it is through** at last -/
theorem exists_through_eq (h : ∀ i, ∃ j, i ≤ j ∧ 0 < amount j) :
    ∃ i, through amount total i = total := by
  have hreach : ∀ k ≤ total, ∃ i, k ≤ through amount total i := by
    intro k
    induction k with
    | zero => exact fun _ => ⟨0, Nat.zero_le _⟩
    | succ k ih =>
      intro hk
      obtain ⟨i, hi⟩ := ih (Nat.le_of_succ_le hk)
      obtain ⟨j, hij, hj⟩ := h i
      refine ⟨j + 1, ?_⟩
      have hmono := through_mono amount total hij
      rw [through_succ]
      omega
  obtain ⟨i, hi⟩ := hreach total (Nat.le_refl total)
  exact ⟨i, Nat.le_antisymm (through_le amount total i) hi⟩

/-- the turn that brings the last of it -/
theorem exists_first_through (htotal : 0 < total) (h : ∀ i, ∃ j, i ≤ j ∧ 0 < amount j) :
    ∃ i, through amount total (i + 1) = total ∧ ∀ j ≤ i, through amount total j < total := by
  classical
  have hex := exists_through_eq total h
  have hspec := Nat.find_spec hex
  cases hfind : Nat.find hex with
  | zero =>
    rw [hfind, through_zero] at hspec
    omega
  | succ i =>
    rw [hfind] at hspec
    refine ⟨i, hspec, fun j hj => ?_⟩
    have hmin : ¬ through amount total j = total := Nat.find_min hex (by omega)
    exact Nat.lt_of_le_of_ne (through_le amount total j) hmin

end

/-! ## what has come -/

section
variable {α : Type} (piece : Nat → List α)

def gathered : Nat → List α
  | 0 => []
  | i + 1 => gathered i ++ piece i

variable {piece} {amount : Nat → Nat} {total i : Nat} {text : List α}

theorem length_gathered (h : ∀ j, (piece j).length =
    through amount total (j + 1) - through amount total j) (i : Nat) :
    (gathered piece i).length = through amount total i := by
  induction i with
  | zero => rfl
  | succ i ih =>
    have hle := through_le_succ amount total i
    rw [gathered, List.length_append, ih, h]
    omega

/-- **each piece is the one that is due** when the text comes in order -/
theorem gathered_eq_take_iff (h : ∀ j, (piece j).length =
    through amount total (j + 1) - through amount total j) (htotal : total ≤ text.length) (i : Nat) :
    gathered piece i = text.take (through amount total i) ↔ ∀ j < i, piece j =
      (text.drop (through amount total j)).take
        (through amount total (j + 1) - through amount total j) := by
  induction i with
  | zero => exact iff_of_true rfl fun j hj => absurd hj (Nat.not_lt_zero j)
  | succ i ih =>
    have hle := through_le_succ amount total i
    have hsplit : text.take (through amount total (i + 1)) = text.take (through amount total i) ++
        (text.drop (through amount total i)).take
          (through amount total (i + 1) - through amount total i) := by
      rw [← List.take_add, Nat.add_sub_cancel' hle]
    have hlen : (gathered piece i).length = (text.take (through amount total i)).length := by
      have hthrough := through_le amount total i
      rw [length_gathered h, List.length_take]
      omega
    rw [gathered, hsplit]
    constructor
    · intro heq j hj
      obtain ⟨hfront, hback⟩ := List.append_inj heq hlen
      rcases Nat.lt_succ_iff_lt_or_eq.1 hj with hlt | rfl
      · exact ih.1 hfront j hlt
      · exact hback
    · intro hall
      rw [ih.2 fun j hj => hall j (Nat.lt_succ_of_lt hj), ← hall i (Nat.lt_succ_self i)]

end

/-! ## a machine fed by a sequence -/

section
variable {α : Type} {σ : Type} (step : α → σ → Exec σ) (events : Nat → α)

def runFor : Nat → σ → Exec σ
  | 0, s => .ok s
  | n + 1, s => runFor n s >>= step (events n)

variable {step} {events}

theorem runFor_succ_eq_ok {n : Nat} {s s' : σ} :
    runFor step events (n + 1) s = .ok s' ↔
      ∃ t, runFor step events n s = .ok t ∧ step (events n) t = .ok s' := bind_eq_ok

/-- the turns from one on, with the sequence from there on -/
theorem runFor_add {m n : Nat} {s t : σ} (h : runFor step events m s = .ok t) :
    runFor step events (m + n) s = runFor step (fun i => events (m + i)) n t := by
  induction n with
  | zero => exact h
  | succ n ih =>
    show runFor step events (m + n) s >>= step (events (m + n)) = _
    rw [ih]
    rfl

/-- what each step keeps is there at every turn -/
theorem runFor_keeps {P : σ → Prop} (hstep : ∀ a s s', P s → step a s = .ok s' → P s') {n : Nat}
    {s s' : σ} (hs : P s) (h : runFor step events n s = .ok s') : P s' := by
  induction n generalizing s' with
  | zero =>
    cases h
    exact hs
  | succ n ih =>
    obtain ⟨t, ht, hlast⟩ := runFor_succ_eq_ok.1 h
    exact hstep _ t s' (ih ht) hlast

end

end CSem
