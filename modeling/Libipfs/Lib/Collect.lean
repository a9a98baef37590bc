import Mathlib.Data.List.Nodup

/-!
# Distinct elements up to a capacity

What arrives is kept in the order of its arrival, once, as long as there is room.

* `collect cap kept a`      one more element arrives;
* `Collected cap arrived kept`   `kept` holds what has arrived, up to the capacity, and nothing
                            twice;
* `Collected.arrive`       an arrival keeps it;
* `Collected.append_iff`    arrivals that nobody looks at keep it iff they are nothing new or there
                            is no room for them.
-/

set_option linter.unusedSectionVars false

namespace CSem

section
variable {α : Type} [DecidableEq α]

def collect (cap : Nat) (kept : List α) (a : α) : List α :=
  if kept.length = cap ∨ a ∈ kept then kept else kept ++ [a]

structure Collected (cap : Nat) (arrived kept : List α) : Prop where
  once : kept.Nodup
  room : kept.length ≤ cap
  heard : ∀ a ∈ kept, a ∈ arrived
  whole : kept.length = cap ∨ ∀ a ∈ arrived, a ∈ kept

variable {cap : Nat} {arrived more kept : List α} {a : α}

theorem Collected.nil : Collected cap ([] : List α) [] where
  once := List.nodup_nil
  room := Nat.zero_le cap
  heard := fun _ h => h
  whole := .inr fun _ h => h

theorem collect_of_full (h : kept.length = cap) : collect cap kept a = kept := if_pos (.inl h)

theorem collect_of_mem (h : a ∈ kept) : collect cap kept a = kept := if_pos (.inr h)

theorem collect_of_not_mem (hroom : kept.length ≠ cap) (h : a ∉ kept) :
    collect cap kept a = kept ++ [a] := if_neg fun hor => hor.elim hroom h

/-- **an arrival** -/
theorem Collected.arrive (h : Collected cap arrived kept) (a : α) :
    Collected cap (arrived ++ [a]) (collect cap kept a) := by
  have hold : ∀ b ∈ kept, b ∈ arrived ++ [a] :=
    fun b hb => List.mem_append_left _ (h.heard b hb)
  by_cases hfull : kept.length = cap
  · rw [collect_of_full hfull]
    exact { once := h.once, room := h.room, heard := hold, whole := .inl hfull }
  · have hall := h.whole.resolve_left hfull
    by_cases hmem : a ∈ kept
    · rw [collect_of_mem hmem]
      refine { once := h.once, room := h.room, heard := hold, whole := .inr fun b hb => ?_ }
      obtain hb | hb := List.mem_append.1 hb
      · exact hall b hb
      · rw [List.mem_singleton.1 hb]
        exact hmem
    · rw [collect_of_not_mem hfull hmem]
      refine
        { once := by rw [← List.concat_eq_append]; exact h.once.concat hmem
          room := ?_
          heard := fun b hb => ?_
          whole := .inr fun b hb => ?_ }
      · rw [List.length_append, List.length_singleton]
        exact Nat.lt_of_le_of_ne h.room hfull
      · obtain hb | hb := List.mem_append.1 hb
        · exact hold b hb
        · exact List.mem_append_right _ hb
      · obtain hb | hb := List.mem_append.1 hb
        · exact List.mem_append_left _ (hall b hb)
        · exact List.mem_append_right _ hb

/-- **arrivals that nobody looks at** -/
theorem Collected.append_iff (h : Collected cap arrived kept) :
    Collected cap (arrived ++ more) kept ↔ kept.length = cap ∨ ∀ a ∈ more, a ∈ kept := by
  constructor
  · intro hmore
    exact hmore.whole.imp_right fun hall a ha => hall a (List.mem_append_right _ ha)
  · intro hmore
    refine
      { once := h.once
        room := h.room
        heard := fun a ha => List.mem_append_left _ (h.heard a ha)
        whole := ?_ }
    obtain hfull | hold := h.whole
    · exact .inl hfull
    · refine hmore.imp_right fun hnew a ha => ?_
      obtain ha | ha := List.mem_append.1 ha
      · exact hold a ha
      · exact hnew a ha

end

end CSem
