import Mathlib.Data.List.Basic
import Mathlib.Data.List.Infix

/-!
# First in, first out

What a queue has done is a list of events, the latest one first: writes, and reads and peeks with
the size that was asked for.

* `written`, `taken`   what has gone in, and what has come out;
* `peeks`              the peeks since the last read;
* `PeeksAhead R`       each read is related by `R` to every peek since the read before it;
* `Fifo log held`      what has come out followed by what is held is what has gone in, every read
                       and every peek gave as much as there was, and they agree;
* `Fifo.write`, `Fifo.take`, `Fifo.peek`   it stays so.
-/

namespace CSem

inductive FifoEvent (α : Type) where
  | wrote (items : List α)
  | took (asked : Nat) (items : List α)
  | peeked (asked : Nat) (items : List α)

section
variable {α : Type}

def written : List (FifoEvent α) → List α
  | [] => []
  | .wrote items :: log => written log ++ items
  | .took _ _ :: log => written log
  | .peeked _ _ :: log => written log

def taken : List (FifoEvent α) → List α
  | [] => []
  | .wrote _ :: log => taken log
  | .took _ items :: log => taken log ++ items
  | .peeked _ _ :: log => taken log

def peeks : List (FifoEvent α) → List (Nat × List α)
  | [] => []
  | .wrote _ :: log => peeks log
  | .took _ _ :: _ => []
  | .peeked asked items :: log => (asked, items) :: peeks log

def PeeksAhead (R : Nat × List α → Nat × List α → Prop) : List (FifoEvent α) → Prop
  | [] => True
  | .wrote _ :: log => PeeksAhead R log
  | .took asked items :: log => (∀ p ∈ peeks log, R p (asked, items)) ∧ PeeksAhead R log
  | .peeked _ _ :: log => PeeksAhead R log

/-- as much as was asked for, or all there was -/
def Served : List (FifoEvent α) → Prop
  | [] => True
  | .wrote _ :: log => Served log
  | .took asked items :: log =>
    items.length = min asked ((written log).length - (taken log).length) ∧ Served log
  | .peeked asked items :: log =>
    items.length = min asked ((written log).length - (taken log).length) ∧ Served log

/-- one of the two begins with the other: a read of at least the size of the peek with what the peek
gave -/
def Agree (p t : Nat × List α) : Prop :=
  (p.2 <+: t.2 ∨ t.2 <+: p.2) ∧ (p.1 ≤ t.1 → p.2 <+: t.2)

structure Fifo (log : List (FifoEvent α)) (held : List α) : Prop where
  conserved : taken log ++ held = written log
  served : Served log
  ahead : PeeksAhead Agree log
  pending : ∀ p ∈ peeks log, p.2 <+: held ∧ p.2.length ≤ p.1

variable {log : List (FifoEvent α)} {held items : List α}

theorem Fifo.nil : Fifo ([] : List (FifoEvent α)) [] where
  conserved := rfl
  served := trivial
  ahead := trivial
  pending := fun p hp => by cases hp

/-- what is held is counted by what has gone in and out -/
theorem Fifo.length_held (h : Fifo log held) :
    held.length = (written log).length - (taken log).length := by
  rw [← h.conserved, List.length_append, Nat.add_sub_cancel_left]

theorem Fifo.write (h : Fifo log held) (items : List α) :
    Fifo (.wrote items :: log) (held ++ items) where
  conserved := by
    show taken log ++ (held ++ items) = written log ++ items
    rw [← List.append_assoc, h.conserved]
  served := h.served
  ahead := h.ahead
  pending p hp := ⟨(h.pending p hp).1.trans (List.prefix_append held items), (h.pending p hp).2⟩

theorem Fifo.peek (h : Fifo log held) (n : Nat) :
    Fifo (.peeked n (held.take n) :: log) held where
  conserved := h.conserved
  served := ⟨by rw [List.length_take, h.length_held], h.served⟩
  ahead := h.ahead
  pending p hp := by
    rcases List.mem_cons.1 hp with rfl | hp
    · exact ⟨List.take_prefix n held, List.length_take_le n held⟩
    · exact h.pending p hp

/-- what a peek gave, and what a read gives of the same -/
theorem agree_take {p : Nat × List α} (hp : p.2 <+: held) (hle : p.2.length ≤ p.1) (n : Nat) :
    Agree p (n, held.take n) := by
  refine ⟨List.prefix_or_prefix_of_prefix hp (List.take_prefix n held), fun hn => ?_⟩
  obtain ⟨rest, rfl⟩ := hp
  show p.2 <+: (p.2 ++ rest).take n
  rw [List.take_append, List.take_of_length_le (Nat.le_trans hle hn)]
  exact List.prefix_append _ _

theorem Fifo.take (h : Fifo log held) (n : Nat) :
    Fifo (.took n (held.take n) :: log) (held.drop n) where
  conserved := by
    show taken log ++ held.take n ++ held.drop n = written log
    rw [List.append_assoc, List.take_append_drop, h.conserved]
  served := ⟨by rw [List.length_take, h.length_held], h.served⟩
  ahead := ⟨fun p hp => agree_take (h.pending p hp).1 (h.pending p hp).2 n, h.ahead⟩
  pending p hp := by cases hp

end

end CSem
