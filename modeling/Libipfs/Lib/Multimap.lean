import Mathlib.Data.List.Sort
import Mathlib.Data.List.Lex
import Mathlib.Data.Prod.Lex
import Mathlib.Order.Lex

/-!
# Sorted multimaps

Pairs of a key and a value, in the order of the keys and, for one key, of its values; no pair is
there twice.

* `Multimap κ ν`   the pairs, with their order;
* `values t k`     the values of a key, the least one first; `get t k` is that one;
* `insert t k v`   the pair put where it belongs, or nothing when it is there already;
* `values_insert_of_ne`, `values_insert_perm`   what an insertion does to the values of a key;
* `filter_insert_of_neg`   what it leaves alone.
-/

namespace CSem

structure Multimap (κ ν : Type) [LinearOrder κ] [LinearOrder ν] where
  pairs : List (κ ×ₗ ν)
  sorted : pairs.Pairwise (· ≤ ·)
  nodup : pairs.Nodup

namespace Multimap

section
variable {κ ν : Type} [LinearOrder κ] [LinearOrder ν]

def empty : Multimap κ ν := ⟨[], List.Pairwise.nil, List.nodup_nil⟩

/-- the values of a key, in their order -/
def values (t : Multimap κ ν) (k : κ) : List ν :=
  (t.pairs.filter (fun p => (ofLex p).1 = k)).map (fun p => (ofLex p).2)

def get (t : Multimap κ ν) (k : κ) : Option ν := (t.values k).head?

def insert (t : Multimap κ ν) (k : κ) (v : ν) : Multimap κ ν :=
  if h : toLex (k, v) ∈ t.pairs then t
  else
    { pairs := t.pairs.orderedInsert (· ≤ ·) (toLex (k, v))
      sorted := t.sorted.orderedInsert _ _
      nodup := (List.perm_orderedInsert _ _ _).nodup_iff.2 (List.nodup_cons.2 ⟨h, t.nodup⟩) }

variable {t : Multimap κ ν} {k k' : κ} {v v' : ν}

@[simp] theorem pairs_empty : (empty : Multimap κ ν).pairs = [] := rfl
@[simp] theorem values_empty : (empty : Multimap κ ν).values k = [] := rfl

theorem mem_values : v ∈ t.values k ↔ toLex (k, v) ∈ t.pairs := by
  unfold values
  rw [List.mem_map]
  constructor
  · rintro ⟨p, hp, rfl⟩
    obtain ⟨hp, hk⟩ := List.mem_filter.1 hp
    have hk' : (ofLex p).1 = k := of_decide_eq_true hk
    rw [← hk']
    exact hp
  · intro h
    refine ⟨toLex (k, v), List.mem_filter.2 ⟨h, ?_⟩, rfl⟩
    exact decide_eq_true rfl

theorem get_eq_none : t.get k = none ↔ t.values k = [] := List.head?_eq_none_iff

theorem mem_values_of_get (h : t.get k = some v) : v ∈ t.values k := List.mem_of_mem_head? h

/-- the value a key is read with is its least one -/
theorem le_of_get (h : t.get k = some v) (h' : v' ∈ t.values k) : v ≤ v' := by
  obtain ⟨vs, hvs⟩ := List.head?_eq_some_iff.1 h
  have hsorted : (t.values k).Pairwise (· ≤ ·) := by
    unfold values
    refine List.Pairwise.map _ (fun p q hpq => hpq) (List.Pairwise.imp_of_mem ?_
      (t.sorted.sublist List.filter_sublist))
    intro p q hp hq hpq
    have hpk : (ofLex p).1 = k := of_decide_eq_true (List.mem_filter.1 hp).2
    have hqk : (ofLex q).1 = k := of_decide_eq_true (List.mem_filter.1 hq).2
    rcases Prod.Lex.le_iff.1 hpq with hlt | ⟨-, hle⟩
    · rw [hpk, hqk] at hlt
      exact absurd hlt (lt_irrefl k)
    · exact hle
  rw [hvs] at hsorted h'
  rcases List.mem_cons.1 h' with rfl | h'
  · exact le_refl _
  · exact (List.pairwise_cons.1 hsorted).1 v' h'

/-! ## insertion -/

theorem insert_of_mem (h : v ∈ t.values k) : t.insert k v = t := by
  unfold insert
  exact dif_pos (mem_values.1 h)

theorem pairs_insert (h : v ∉ t.values k) :
    (t.insert k v).pairs = t.pairs.orderedInsert (· ≤ ·) (toLex (k, v)) := by
  unfold insert
  rw [dif_neg (fun hm => h (mem_values.2 hm))]

theorem pairs_insert_perm (h : v ∉ t.values k) :
    (t.insert k v).pairs.Perm (toLex (k, v) :: t.pairs) := by
  rw [pairs_insert h]
  exact List.perm_orderedInsert _ _ _

theorem mem_pairs_insert {p : κ ×ₗ ν} :
    p ∈ (t.insert k v).pairs ↔ p = toLex (k, v) ∨ p ∈ t.pairs := by
  by_cases h : v ∈ t.values k
  · rw [insert_of_mem h]
    refine ⟨.inr, fun hp => ?_⟩
    rcases hp with rfl | hp
    · exact mem_values.1 h
    · exact hp
  · rw [(pairs_insert_perm h).mem_iff]
    exact List.mem_cons

theorem mem_values_insert_self : v ∈ (t.insert k v).values k :=
  mem_values.2 (mem_pairs_insert.2 (.inl rfl))

/-- the pairs among which the new one does not count stay as they are, in their order -/
theorem filter_insert_of_neg {f : κ ×ₗ ν → Bool} (hf : f (toLex (k, v)) = false) :
    (t.insert k v).pairs.filter f = t.pairs.filter f := by
  by_cases h : v ∈ t.values k
  · rw [insert_of_mem h]
  · rw [pairs_insert h, List.orderedInsert_eq_take_drop, List.filter_append,
      List.filter_cons_of_neg (by rw [hf]; exact Bool.false_ne_true), ← List.filter_append,
      List.takeWhile_append_dropWhile]

theorem values_insert_of_ne (hk : k' ≠ k) : (t.insert k v).values k' = t.values k' := by
  unfold values
  rw [filter_insert_of_neg]
  exact decide_eq_false (fun h => hk h.symm)

theorem values_insert_perm (h : v ∉ t.values k) :
    ((t.insert k v).values k).Perm (v :: t.values k) := by
  have hcons : (toLex (k, v) :: t.pairs).filter (fun p => (ofLex p).1 = k) =
      toLex (k, v) :: t.pairs.filter (fun p => (ofLex p).1 = k) :=
    List.filter_cons_of_pos (decide_eq_true rfl)
  unfold values
  refine (((pairs_insert_perm h).filter _).map _).trans ?_
  rw [hcons]
  exact List.Perm.refl _

/-- the new value is the first one of the key, or it changes nothing there -/
theorem get_insert (t : Multimap κ ν) (k : κ) (v : ν) :
    (t.insert k v).get k = some v ∨ (t.insert k v).get k = t.get k := by
  by_cases h : v ∈ t.values k
  · rw [insert_of_mem h]
    exact .inr rfl
  · cases hget : (t.insert k v).get k with
    | none =>
      have hnil := (values_insert_perm h).symm
      rw [get_eq_none.1 hget, List.perm_nil] at hnil
      cases hnil
    | some first =>
      have hmem := (values_insert_perm h).mem_iff.1 (mem_values_of_get hget)
      rcases List.mem_cons.1 hmem with rfl | hold
      · exact .inl rfl
      · right
        cases hold' : t.get k with
        | none =>
          rw [get_eq_none.1 hold'] at hold
          cases hold
        | some old =>
          have hin : old ∈ (t.insert k v).values k :=
            (values_insert_perm h).mem_iff.2 (List.mem_cons_of_mem _ (mem_values_of_get hold'))
          rw [le_antisymm (le_of_get hget hin) (le_of_get hold' hold)]

theorem length_values_insert (h : v ∉ t.values k) :
    ((t.insert k v).values k).length = (t.values k).length + 1 :=
  (values_insert_perm h).length_eq

end

end Multimap

end CSem
