import Mathlib.Data.List.Basic
import Mathlib.Tactic.Linarith

/-!
# Cutting a list into pieces

Whoever reads `n` elements at a time until a read comes back short has read `chunks n`: pieces of
length `n`, and at the end a shorter one, which is empty when the length is a multiple of `n`.

* `chunks_of_lt`, `chunks_of_le`   the next piece;
* `flatten_chunks`                 the pieces are the list;
* `length_chunks`                  their number;
* `length_le_of_mem_chunks`        no piece is longer than `n`.
-/

namespace CSem

variable {α : Type} {n : Nat}

def chunks (hn : 0 < n) (xs : List α) : List (List α) :=
  if xs.length < n then [xs] else xs.take n :: chunks hn (xs.drop n)
termination_by xs.length
decreasing_by
  rw [List.length_drop]
  omega

theorem chunks_of_lt (hn : 0 < n) {xs : List α} (h : xs.length < n) : chunks hn xs = [xs] := by
  rw [chunks, if_pos h]

theorem chunks_of_le (hn : 0 < n) {xs : List α} (h : n ≤ xs.length) :
    chunks hn xs = xs.take n :: chunks hn (xs.drop n) := by
  rw [chunks, if_neg (by omega)]

theorem chunks_ne_nil (hn : 0 < n) (xs : List α) : chunks hn xs ≠ [] := by
  rw [chunks]
  split <;> exact List.cons_ne_nil _ _

/-- **the pieces are the list** -/
theorem flatten_chunks (hn : 0 < n) (xs : List α) : (chunks hn xs).flatten = xs := by
  induction xs using chunks.induct hn with
  | case1 xs h => rw [chunks_of_lt hn h, List.flatten_singleton]
  | case2 xs h ih =>
    rw [chunks_of_le hn (by omega), List.flatten_cons, ih, List.take_append_drop]

theorem length_chunks (hn : 0 < n) (xs : List α) :
    (chunks hn xs).length = xs.length / n + 1 := by
  induction xs using chunks.induct hn with
  | case1 xs h => rw [chunks_of_lt hn h, List.length_singleton, Nat.div_eq_of_lt h]
  | case2 xs h ih =>
    have hge : n ≤ xs.length := Nat.le_of_not_lt h
    rw [chunks_of_le hn hge, List.length_cons, ih, List.length_drop,
      Nat.div_eq_sub_div hn hge]

theorem length_le_of_mem_chunks (hn : 0 < n) {xs c : List α} (h : c ∈ chunks hn xs) :
    c.length ≤ n := by
  induction xs using chunks.induct hn with
  | case1 xs hlt =>
    rw [chunks_of_lt hn hlt, List.mem_singleton] at h
    rw [h]
    omega
  | case2 xs hge ih =>
    rw [chunks_of_le hn (by omega), List.mem_cons] at h
    rcases h with rfl | h
    · exact List.length_take_le n xs
    · exact ih h

end CSem
