import Libipfs.Lib.Exec

/-!
# Vectors of pointers

The first `total` slots of a `struct Libp2pVector`.  The loop of the deletion starts at the
first slot whatever the index is: the slot named by the index is cleared, and then everything
moves down by one, so that the FIRST item is lost and the cleared slot stays in the vector.

* `utilsVectorDelete_eq`        what a deletion leaves;
* `utilsVectorDelete_zero`      a deletion at the front is one.
-/

namespace Libp2p
open CSem

section
variable {α : Type}

def utilsVectorAdd (items : List (Option α)) (item : Option α) : List (Option α) := items ++ [item]

/-- null outside the vector -/
def utilsVectorGet (items : List (Option α)) (index : Nat) : Option α := (items[index]?).join

/-- one pass of the loop of the deletion -/
def shiftSlot (items : List (Option α)) (i : Nat) : List (Option α) :=
  (items.set i (utilsVectorGet items (i + 1))).set (i + 1) none

def utilsVectorDelete (items : List (Option α)) (index : Nat) : List (Option α) :=
  if items.length ≤ index then items
  else ((List.range (items.length - 1)).foldl shiftSlot (items.set index none)).take
    (items.length - 1)

@[simp] theorem utilsVectorAdd_length (items : List (Option α)) (item : Option α) :
    (utilsVectorAdd items item).length = items.length + 1 := by
  simp [utilsVectorAdd]

private theorem shiftSlot_append (pre rest : List (Option α)) (x y : Option α) :
    shiftSlot (pre ++ x :: y :: rest) pre.length = (pre ++ [y]) ++ none :: rest := by
  have h : utilsVectorGet (pre ++ x :: y :: rest) (pre.length + 1) = y := by
    simp [utilsVectorGet]
  unfold shiftSlot
  rw [h, List.set_append_right _ _ (Nat.le_refl _), Nat.sub_self, List.set_cons_zero,
    List.set_append_right _ _ (Nat.le_add_right pre.length 1), Nat.add_sub_cancel_left]
  simp

/-- after `k` passes the first `k` slots are moved down -/
private theorem foldl_shiftSlot (x : Option α) (items : List (Option α)) (k : Nat)
    (h : k ≤ items.length) :
    ∃ y, (List.range k).foldl shiftSlot (x :: items) = items.take k ++ y :: items.drop k := by
  induction k with
  | zero => exact ⟨x, rfl⟩
  | succ k ih =>
    obtain ⟨y, hy⟩ := ih (by omega)
    refine ⟨none, ?_⟩
    have hk : (items.take k).length = k := by rw [List.length_take]; omega
    rw [List.range_succ, List.foldl_append, hy, List.foldl_cons, List.foldl_nil,
      List.drop_eq_getElem_cons (by omega)]
    have hs := shiftSlot_append (items.take k) (items.drop (k + 1)) y items[k]
    rw [hk] at hs
    rw [hs, List.take_append_getElem]

/-- **what a deletion leaves**: all but the first slot, with the named one cleared -/
theorem utilsVectorDelete_eq {items : List (Option α)} {index : Nat} (h : index < items.length) :
    utilsVectorDelete items index = (items.set index none).tail := by
  unfold utilsVectorDelete
  rw [if_neg (by omega)]
  cases hs : items.set index none with
  | nil =>
    have := congrArg List.length hs
    rw [List.length_set, List.length_nil] at this
    omega
  | cons x rest =>
    have hl := congrArg List.length hs
    rw [List.length_set, List.length_cons] at hl
    obtain ⟨y, hy⟩ := foldl_shiftSlot x rest rest.length (Nat.le_refl _)
    rw [hl, Nat.add_sub_cancel, hy, List.take_length, List.drop_length, List.tail_cons,
      List.take_left]

theorem utilsVectorDelete_zero (x : Option α) (items : List (Option α)) :
    utilsVectorDelete (x :: items) 0 = items := by
  rw [utilsVectorDelete_eq (by simp)]
  rfl

theorem utilsVectorDelete_length {items : List (Option α)} {index : Nat}
    (h : index < items.length) : (utilsVectorDelete items index).length + 1 = items.length := by
  rw [utilsVectorDelete_eq h, List.length_tail, List.length_set]
  omega

end

end Libp2p
