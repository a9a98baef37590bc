import Mathlib.Data.List.Perm.Basic
import Mathlib.Algebra.BigOperators.Group.List.Basic
import Mathlib.Tactic.Abel

/-!
# Threads that are counted, and threads that sleep

Many threads, each at some place of its program.  What can be said of them together is said by
adding up what each of them counts; when one thread goes on, the sum changes by what that one
counts.  Then the threads that sleep on a condition variable, and the two ways to wake them.

* `tally f threads`       the sum of `f` over the threads;
* `tally_set`             one thread goes on;
* `tally_eq_zero`, `tally_pos`   nobody counts, and somebody does;
* `signal`, `broadcast`   one of the sleepers is woken, and all of them;
* `signal_cases`, `tally_broadcast`   what it changes.
-/

namespace CSem

section
variable {α M : Type} [AddCommMonoid M]

def tally (f : α → M) (threads : List α) : M := (threads.map f).sum

variable {f g : α → M} {threads : List α} {i : Nat} {a b : α}

@[simp] theorem tally_nil : tally f [] = 0 := rfl
@[simp] theorem tally_cons : tally f (a :: threads) = f a + tally f threads := List.sum_cons

theorem tally_perm {threads' : List α} (h : threads.Perm threads') :
    tally f threads = tally f threads' :=
  (h.map f).sum_eq

theorem tally_congr (h : ∀ a ∈ threads, f a = g a) : tally f threads = tally g threads :=
  congrArg List.sum (List.map_congr_left h)

theorem tally_map {β : Type} {f : β → M} {move : α → β} :
    tally f (threads.map move) = tally (fun a => f (move a)) threads := by
  rw [tally, List.map_map]
  rfl

theorem tally_zero (h : ∀ a ∈ threads, f a = 0) : tally f threads = 0 := by
  induction threads with
  | nil => rfl
  | cons a threads ih =>
    rw [tally_cons, h a List.mem_cons_self, ih fun b hb => h b (List.mem_cons_of_mem _ hb), add_zero]

/-- **one thread goes on** -/
theorem tally_set (f : α → M) (h : threads[i]? = some a) (b : α) :
    tally f (threads.set i b) + f a = tally f threads + f b := by
  obtain ⟨hi, rfl⟩ := List.getElem?_eq_some_iff.1 h
  rw [tally_perm (List.set_perm_cons_eraseIdx hi b),
    ← tally_perm (List.getElem_cons_eraseIdx_perm hi), tally_cons, tally_cons]
  abel

end

section
variable {α : Type} {f g : α → Nat} {threads : List α} {a : α}

theorem tally_eq_zero : tally f threads = 0 ↔ ∀ a ∈ threads, f a = 0 := by
  induction threads with
  | nil => simp
  | cons a threads ih => rw [tally_cons, Nat.add_eq_zero_iff, ih, List.forall_mem_cons]

theorem tally_pos : 0 < tally f threads ↔ ∃ a ∈ threads, 0 < f a := by
  rw [Nat.pos_iff_ne_zero, Ne, tally_eq_zero]
  push Not
  simp only [Nat.pos_iff_ne_zero]

theorem le_tally (h : a ∈ threads) : f a ≤ tally f threads := by
  obtain ⟨before, after, rfl⟩ := List.append_of_mem h
  rw [tally_perm List.perm_middle, tally_cons]
  exact Nat.le_add_right _ _

/-- two at different places -/
theorem add_le_tally {i j : Nat} {b : α} (hi : threads[i]? = some a) (hj : threads[j]? = some b)
    (hij : i ≠ j) : f a + f b ≤ tally f threads := by
  obtain ⟨hlt, rfl⟩ := List.getElem?_eq_some_iff.1 hi
  rw [← tally_perm (List.getElem_cons_eraseIdx_perm hlt), tally_cons]
  exact Nat.add_le_add_left (le_tally (List.mem_eraseIdx_iff_getElem?.2 ⟨j, Ne.symm hij, hj⟩)) _

theorem tally_le (h : ∀ a ∈ threads, f a ≤ g a) : tally f threads ≤ tally g threads := by
  induction threads with
  | nil => exact Nat.le_refl _
  | cons a threads ih =>
    have hrest := ih fun b hb => h b (List.mem_cons_of_mem _ hb)
    have hfirst := h a List.mem_cons_self
    rw [tally_cons, tally_cons]
    omega

theorem tally_add : tally (fun a => f a + g a) threads = tally f threads + tally g threads := by
  induction threads with
  | nil => rfl
  | cons a threads ih =>
    rw [tally_cons, tally_cons, tally_cons, ih]
    omega

theorem tally_one : tally (fun _ => 1) threads = threads.length := by
  induction threads with
  | nil => rfl
  | cons a threads ih => rw [tally_cons, ih, List.length_cons, Nat.add_comm]

end

/-! ## a condition variable -/

section
variable {α : Type} (sleeps : α → Bool) (awake : α)

/-- the scheduler has the `k`-th thread woken, or the first when that one does not sleep -/
def signal (k : Nat) (threads : List α) : List α :=
  match threads.findIdx? sleeps with
  | none => threads
  | some first => threads.set (if (threads[k]?).any sleeps then k else first) awake

def broadcast (threads : List α) : List α :=
  threads.map fun a => if sleeps a then awake else a

variable {sleeps awake} {k : Nat} {threads : List α}

/-- **a signal** wakes one thread when there is one to be woken -/
theorem signal_cases (sleeps : α → Bool) (awake : α) (k : Nat) (threads : List α) :
    (∀ a ∈ threads, sleeps a = false) ∧ signal sleeps awake k threads = threads ∨
      ∃ j a, threads[j]? = some a ∧ sleeps a = true ∧
        signal sleeps awake k threads = threads.set j awake := by
  unfold signal
  cases hfirst : threads.findIdx? sleeps with
  | none => exact .inl ⟨List.findIdx?_eq_none_iff.1 hfirst, rfl⟩
  | some first =>
    refine .inr ?_
    by_cases hk : (threads[k]?).any sleeps = true
    · obtain ⟨a, ha, hs⟩ := (Option.any_eq_true _ _).1 hk
      exact ⟨k, a, ha, hs, by simp only [if_pos hk]⟩
    · obtain ⟨hlt, hs, -⟩ := List.findIdx?_eq_some_iff_getElem.1 hfirst
      exact ⟨first, threads[first], List.getElem?_eq_getElem hlt, hs, by simp only [if_neg hk]⟩

theorem signal_length : (signal sleeps awake k threads).length = threads.length := by
  rcases signal_cases sleeps awake k threads with ⟨-, h⟩ | ⟨j, a, -, -, h⟩
  · rw [h]
  · rw [h, List.length_set]

/-- who does not sleep stays where it is -/
theorem signal_getElem? {i : Nat} {a : α} (h : threads[i]? = some a) (ha : sleeps a = false) :
    (signal sleeps awake k threads)[i]? = some a := by
  rcases signal_cases sleeps awake k threads with ⟨-, hs⟩ | ⟨j, b, hb, hsb, hs⟩
  · rw [hs, h]
  · rw [hs, List.getElem?_set_ne, h]
    rintro rfl
    rw [hb] at h
    obtain rfl := Option.some.inj h
    rw [hsb] at ha
    cases ha

theorem broadcast_awake (hawake : sleeps awake = false) :
    ∀ a ∈ broadcast sleeps awake threads, sleeps a = false := by
  intro a ha
  obtain ⟨b, -, rfl⟩ := List.mem_map.1 ha
  by_cases hb : sleeps b = true
  · rw [if_pos hb, hawake]
  · rw [if_neg hb]
    exact Bool.eq_false_iff.2 hb

/-- **a broadcast** does not change what sleepers and woken ones count alike -/
theorem tally_broadcast {M : Type} [AddCommMonoid M] {f : α → M}
    (h : ∀ a ∈ threads, sleeps a = true → f awake = f a) :
    tally f (broadcast sleeps awake threads) = tally f threads := by
  unfold broadcast
  rw [tally_map]
  refine tally_congr fun a ha => ?_
  by_cases hs : sleeps a = true
  · rw [if_pos hs, h a ha hs]
  · rw [if_neg hs]

end

end CSem
