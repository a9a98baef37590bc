import Libipfs.Lib.Exec
import Mathlib.Data.List.Basic

/-!
# The first entry of a table with a property

A loop over the entries of a table that stops at the first one it accepts; looking at an entry may
fault.

* `scan p xs`            the index of the first entry that `p` accepts;
* `scan_eq_none`, `scan_eq_some`   what a finished loop has seen;
* `safe_scan`            no entry in front of the one it stops at may fault;
* `FirstYields f xs b`   the first entry of which `f` makes something makes `b` of it;
* `findSomeM?_eq_none`, `findSomeM?_eq_some`   the loop that looks for it.
-/

namespace CSem

section
variable {α : Type} {p : α → Exec Bool} {x : α} {xs : List α}

def scan (p : α → Exec Bool) : List α → Exec (Option Nat)
  | [] => .ok none
  | x :: xs => p x >>= fun accepted =>
      if accepted then .ok (some 0) else scan p xs >>= fun i => .ok (i.map Nat.succ)

@[simp] theorem scan_nil : scan p [] = .ok none := rfl

theorem scan_cons_true (h : p x = .ok true) : scan p (x :: xs) = .ok (some 0) := by
  rw [scan, h]
  rfl

theorem scan_cons_false (h : p x = .ok false) :
    scan p (x :: xs) = scan p xs >>= fun i => .ok (i.map Nat.succ) := by
  rw [scan, h]
  rfl

theorem scan_cons_error {e : Fault} (h : p x = .error e) : scan p (x :: xs) = .error e := by
  rw [scan, h]
  rfl

/-- a loop that accepts nothing has looked at every entry -/
theorem scan_eq_none : scan p xs = .ok none ↔ ∀ x ∈ xs, p x = .ok false := by
  induction xs with
  | nil => simp
  | cons x xs ih =>
    cases hp : p x with
    | error e => simp [scan_cons_error hp, hp]
    | ok accepted =>
      cases accepted with
      | true => simp [scan_cons_true hp, hp]
      | false =>
        rw [scan_cons_false hp, bind_eq_ok]
        constructor
        · intro h
          obtain ⟨i, hi, h⟩ := h
          have hnone : i = none := by
            have := Except.ok.inj h
            rwa [Option.map_eq_none_iff] at this
          rw [hnone] at hi
          intro y hy
          rcases List.mem_cons.1 hy with rfl | hy
          · exact hp
          · exact ih.1 hi y hy
        · intro h
          exact ⟨none, ih.2 fun y hy => h y (List.mem_cons_of_mem x hy), rfl⟩

/-- a loop that stops at `i` has passed over every entry in front of it -/
theorem scan_eq_some {i : Nat} : scan p xs = .ok (some i) ↔
    ∃ x, xs[i]? = some x ∧ p x = .ok true ∧ ∀ y ∈ xs.take i, p y = .ok false := by
  induction xs generalizing i with
  | nil => simp
  | cons x xs ih =>
    cases hp : p x with
    | error e =>
      rw [scan_cons_error hp]
      cases i <;> simp [hp]
    | ok accepted =>
      cases accepted with
      | true =>
        rw [scan_cons_true hp]
        cases i <;> simp [hp]
      | false =>
        rw [scan_cons_false hp, bind_eq_ok]
        cases i with
        | zero =>
          simp [hp]
        | succ i =>
          have hsucc : (∃ j, scan p xs = .ok j ∧
              (.ok (j.map Nat.succ) : Exec (Option Nat)) = .ok (some (i + 1))) ↔
              scan p xs = .ok (some i) := by
            constructor
            · intro h
              obtain ⟨j, hj, h⟩ := h
              obtain ⟨k, hk, hki⟩ := Option.map_eq_some_iff.1 (Except.ok.inj h)
              rw [hj, hk, Nat.succ.inj hki]
            · intro h
              exact ⟨some i, h, rfl⟩
          rw [hsucc, ih]
          simp [hp]

/-- **a loop is safe when no entry that it looks at faults** -/
theorem safe_scan : Safe (scan p xs) ↔
    ∀ i x, xs[i]? = some x → (∀ y ∈ xs.take i, p y = .ok false) → Safe (p x) := by
  induction xs with
  | nil => simp
  | cons x xs ih =>
    cases hp : p x with
    | error e =>
      rw [scan_cons_error hp]
      constructor
      · intro h
        exact absurd h (not_safe_error e)
      · intro h
        have hx := h 0 x rfl (by simp)
        rw [hp] at hx
        exact absurd hx (not_safe_error e)
    | ok accepted =>
      cases accepted with
      | true =>
        rw [scan_cons_true hp]
        constructor
        · intro _ i y hy hbefore
          cases i with
          | zero =>
            cases hy
            exact ⟨true, hp⟩
          | succ i =>
            have hfalse := hbefore x (by simp)
            rw [hp] at hfalse
            cases hfalse
        · intro _
          exact safe_ok _
      | false =>
        rw [scan_cons_false hp]
        have hbind : Safe (scan p xs >>= fun i => .ok (i.map Nat.succ)) ↔ Safe (scan p xs) := by
          cases scan p xs <;> simp
        rw [hbind, ih]
        constructor
        · intro h i y hy hbefore
          cases i with
          | zero =>
            cases hy
            exact ⟨false, hp⟩
          | succ i =>
            apply h i y hy
            intro z hz
            exact hbefore z (List.mem_cons_of_mem x hz)
        · intro h i y hy hbefore
          apply h (i + 1) y hy
          intro z hz
          rcases List.mem_cons.1 hz with rfl | hz
          · exact hp
          · exact hbefore z hz

/-- an entry at the end that does not fault does not matter -/
theorem safe_scan_concat {y : α} (hy : Safe (p y)) :
    Safe (scan p (xs ++ [y])) ↔ Safe (scan p xs) := by
  rw [safe_scan, safe_scan]
  constructor
  · intro h i x hx hbefore
    have hi : i < xs.length := (List.getElem?_eq_some_iff.1 hx).1
    apply h i x
    · rw [List.getElem?_append_left hi, hx]
    · rwa [List.take_append_of_le_length hi.le]
  · intro h i x hx hbefore
    by_cases hi : i < xs.length
    · rw [List.getElem?_append_left hi] at hx
      rw [List.take_append_of_le_length hi.le] at hbefore
      exact h i x hx hbefore
    · rw [List.getElem?_append_right (by omega)] at hx
      obtain ⟨hlt, hxy⟩ := List.getElem?_eq_some_iff.1 hx
      rw [List.getElem_singleton] at hxy
      rwa [← hxy]

end

/-! ## the first entry that yields something -/

section
variable {α : Type} {β : Type} {f : α → Exec (Option β)} {x : α} {xs : List α} {b : β}

/-- nothing comes of those in front of it -/
def FirstYields (f : α → Exec (Option β)) (xs : List α) (b : β) : Prop :=
  ∃ front x back, xs = front ++ x :: back ∧ f x = .ok (some b) ∧ ∀ y ∈ front, f y = .ok none

theorem findSomeM?_cons_none (h : f x = .ok none) : (x :: xs).findSomeM? f = xs.findSomeM? f := by
  rw [List.findSomeM?_cons, h, ok_bind]

theorem findSomeM?_cons_some (h : f x = .ok (some b)) : (x :: xs).findSomeM? f = .ok (some b) := by
  rw [List.findSomeM?_cons, h, ok_bind]
  rfl

theorem findSomeM?_cons_error {e : Fault} (h : f x = .error e) :
    (x :: xs).findSomeM? f = .error e := by
  rw [List.findSomeM?_cons, h, error_bind]

/-- a loop that finds nothing has looked at every entry -/
theorem findSomeM?_eq_none : xs.findSomeM? f = .ok none ↔ ∀ x ∈ xs, f x = .ok none := by
  induction xs with
  | nil => exact iff_of_true rfl fun x hx => by cases hx
  | cons x xs ih =>
    rw [List.forall_mem_cons]
    cases hx : f x with
    | error e =>
      rw [findSomeM?_cons_error hx]
      exact iff_of_false (fun h => by cases h) fun h => by cases h.1
    | ok found =>
      cases found with
      | some b =>
        rw [findSomeM?_cons_some hx]
        exact iff_of_false (fun h => by cases h) fun h => by cases h.1
      | none =>
        rw [findSomeM?_cons_none hx, ih]
        exact ⟨fun h => ⟨rfl, h⟩, fun h => h.2⟩

/-- **a loop that finds something** has it from the first entry that yields any -/
theorem findSomeM?_eq_some : xs.findSomeM? f = .ok (some b) ↔ FirstYields f xs b := by
  induction xs with
  | nil =>
    refine iff_of_false (fun h => by cases h) ?_
    rintro ⟨front, x, back, h, -⟩
    cases front with
    | nil => cases h
    | cons y front => cases h
  | cons x xs ih =>
    have hlater : ∀ front y back, x :: xs = front ++ y :: back →
        (front = [] ∧ x = y) ∨ ∃ front', front = x :: front' ∧ xs = front' ++ y :: back := by
      intro front y back h
      cases front with
      | nil => exact .inl ⟨rfl, (List.cons.inj h).1⟩
      | cons z front =>
        obtain ⟨hz, hxs⟩ := List.cons.inj h
        exact .inr ⟨front, by rw [hz], hxs⟩
    cases hx : f x with
    | error e =>
      rw [findSomeM?_cons_error hx]
      refine iff_of_false (fun h => by cases h) ?_
      rintro ⟨front, y, back, h, hy, hfront⟩
      rcases hlater front y back h with ⟨-, rfl⟩ | ⟨front', rfl, -⟩
      · rw [hx] at hy
        cases hy
      · have hfirst := hfront x List.mem_cons_self
        rw [hx] at hfirst
        cases hfirst
    | ok found =>
      cases found with
      | some c =>
        rw [findSomeM?_cons_some hx]
        constructor
        · intro h
          cases h
          exact ⟨[], x, xs, rfl, hx, fun y hy => by cases hy⟩
        · rintro ⟨front, y, back, h, hy, hfront⟩
          rcases hlater front y back h with ⟨-, rfl⟩ | ⟨front', rfl, -⟩
          · rw [← hy, hx]
          · have hfirst := hfront x List.mem_cons_self
            rw [hx] at hfirst
            cases hfirst
      | none =>
        rw [findSomeM?_cons_none hx, ih]
        constructor
        · rintro ⟨front, y, back, rfl, hy, hfront⟩
          exact ⟨x :: front, y, back, rfl, hy, List.forall_mem_cons.2 ⟨hx, hfront⟩⟩
        · rintro ⟨front, y, back, h, hy, hfront⟩
          rcases hlater front y back h with ⟨-, rfl⟩ | ⟨front', rfl, hxs⟩
          · rw [hx] at hy
            cases hy
          · exact ⟨front', y, back, hxs, hy, (List.forall_mem_cons.1 hfront).2⟩

end

end CSem
