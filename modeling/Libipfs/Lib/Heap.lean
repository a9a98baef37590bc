import Libipfs.Lib.Exec
import Mathlib.Logic.Function.Basic
import Mathlib.Data.List.Nodup
import Mathlib.Data.List.Perm.Subperm

/-!
# A heap of cells, and chains of cells in it

A heap of cells of one kind, with `malloc`, `free` and access through a pointer; following a
pointer to a cell that has been freed is a fault.  Then doubly linked chains: cells with a link
forward and a link back.

* `Heap`            the cells, and the address the next allocation returns;
* `Seg h p ids`     the cells `ids` in this order are linked forward one to the next, the last one
                    to nothing, and back to their predecessors, the first one to `p`;
* `Chain h first last ids`   the whole chain: every allocated cell is in it, exactly once;
* `Seg.unique`      the links determine the chain;
* `Seg.findFrom`    walking a chain comes to an end, with the first match.
-/

namespace CSem

/-! ## cells -/

/-- `fresh` bounds the addresses in use -/
structure Heap (α : Type) where
  cells : Nat → Option α
  fresh : Nat
  bounded : ∀ i, fresh ≤ i → cells i = none

section
variable {α : Type}

def Heap.empty : Heap α := ⟨fun _ => none, 0, fun _ _ => rfl⟩

/-- the heap after `malloc`; the cell's address is `h.fresh` -/
def Heap.alloc (h : Heap α) (a : α) : Heap α where
  cells := Function.update h.cells h.fresh (some a)
  fresh := h.fresh + 1
  bounded i hi := by
    rw [Function.update_of_ne (by omega)]
    exact h.bounded i (by omega)

def Heap.get (h : Heap α) (i : Nat) : Exec α :=
  match h.cells i with
  | none => .error .freed
  | some a => .ok a

/-- store into a cell -/
def Heap.set (h : Heap α) (i : Nat) (a : α) : Heap α where
  cells := if (h.cells i).isSome then Function.update h.cells i (some a) else h.cells
  fresh := h.fresh
  bounded j hj := by
    split
    · by_cases hij : j = i
      · subst hij
        simp_all [h.bounded j hj]
      · rw [Function.update_of_ne hij]
        exact h.bounded j hj
    · exact h.bounded j hj

def Heap.free (h : Heap α) (i : Nat) : Heap α where
  cells := Function.update h.cells i none
  fresh := h.fresh
  bounded j hj := by
    by_cases hij : j = i
    · rw [hij, Function.update_self]
    · rw [Function.update_of_ne hij]
      exact h.bounded j hj

variable {h : Heap α} {i j : Nat} {a : α}

@[simp] theorem Heap.empty_cells : (Heap.empty : Heap α).cells i = none := rfl
@[simp] theorem Heap.alloc_cells_fresh : (h.alloc a).cells h.fresh = some a :=
  Function.update_self _ _ _
theorem Heap.alloc_cells_ne (hi : i ≠ h.fresh) : (h.alloc a).cells i = h.cells i :=
  Function.update_of_ne hi _ _
@[simp] theorem Heap.alloc_fresh : (h.alloc a).fresh = h.fresh + 1 := rfl
@[simp] theorem Heap.set_fresh : (h.set i a).fresh = h.fresh := rfl
@[simp] theorem Heap.free_fresh : (h.free i).fresh = h.fresh := rfl
@[simp] theorem Heap.free_cells_self : (h.free i).cells i = none := Function.update_self _ _ _
theorem Heap.free_cells_ne (hj : j ≠ i) : (h.free i).cells j = h.cells j :=
  Function.update_of_ne hj _ _

theorem Heap.set_cells_self (hi : (h.cells i).isSome) : (h.set i a).cells i = some a := by
  simp [Heap.set, hi]

theorem Heap.set_cells_ne (hj : j ≠ i) : (h.set i a).cells j = h.cells j := by
  unfold Heap.set
  simp only
  split
  · exact Function.update_of_ne hj _ _
  · rfl

@[simp] theorem Heap.set_cells_isSome : ((h.set i a).cells j).isSome = (h.cells j).isSome := by
  by_cases hj : j = i
  · subst hj
    by_cases hi : (h.cells j).isSome
    · rw [Heap.set_cells_self hi, hi]
      rfl
    · simp [Heap.set, hi]
  · rw [Heap.set_cells_ne hj]

theorem Heap.get_eq_ok : h.get i = .ok a ↔ h.cells i = some a := by
  unfold Heap.get
  cases h.cells i <;> simp

theorem Heap.cells_fresh : h.cells h.fresh = none := h.bounded _ (Nat.le_refl _)

theorem Heap.lt_fresh (hi : (h.cells i).isSome) : i < h.fresh := by
  by_contra hlt
  rw [h.bounded i (by omega)] at hi
  cases hi

end

/-! ## chains -/

structure Node (R : Type) where
  prior : Option Nat
  current : R
  next : Option Nat

section
variable {R : Type}

/-- linked forward to the end, and back to `p` -/
def Seg (h : Heap (Node R)) : Option Nat → List Nat → Prop
  | _, [] => True
  | p, i :: is => (∃ n, h.cells i = some n ∧ n.prior = p ∧ n.next = is.head?) ∧ Seg h (some i) is

structure Chain (h : Heap (Node R)) (first last : Option Nat) (ids : List Nat) : Prop where
  seg : Seg h none ids
  first_eq : first = ids.head?
  last_eq : last = ids.getLast?
  nodup : ids.Nodup
  live : ∀ i, i ∈ ids ↔ (h.cells i).isSome

variable {h h' : Heap (Node R)} {p : Option Nat} {ids : List Nat} {i : Nat}

@[simp] theorem seg_nil : Seg h p [] := trivial

/-- a segment depends on its own cells only -/
theorem Seg.congr (hc : ∀ j ∈ ids, h'.cells j = h.cells j) (hs : Seg h p ids) : Seg h' p ids := by
  induction ids generalizing p with
  | nil => trivial
  | cons i ids ih =>
    obtain ⟨hn, hs⟩ := hs
    refine ⟨?_, ih (fun j hj => hc j (List.mem_cons_of_mem _ hj)) hs⟩
    rw [hc i List.mem_cons_self]
    exact hn

/-- **the links determine the chain** -/
theorem Seg.unique {q : Option Nat} {js : List Nat} (hi : Seg h p ids) (hj : Seg h q js)
    (e : ids.head? = js.head?) : ids = js := by
  induction ids generalizing p q js with
  | nil => exact (List.head?_eq_none_iff.1 e.symm).symm
  | cons i ids ih =>
    cases js with
    | nil => cases e
    | cons j js =>
      obtain rfl : i = j := Option.some.inj e
      obtain ⟨⟨n, hn, -, hnext⟩, hi⟩ := hi
      obtain ⟨⟨m, hm, -, hnext'⟩, hj⟩ := hj
      cases hn.symm.trans hm
      rw [ih hi hj (hnext.symm.trans hnext')]

/-- the back link of a cell that has a predecessor -/
theorem Seg.prior_of_append {is js : List Nat} {k : Nat} (hs : Seg h p (is ++ k :: i :: js)) :
    ∃ n, h.cells i = some n ∧ n.prior = some k := by
  induction is generalizing p with
  | nil =>
    obtain ⟨-, ⟨n, hn, hp, -⟩, -⟩ := hs
    exact ⟨n, hn, hp⟩
  | cons j is ih => exact ih hs.2

theorem Seg.next_last {is : List Nat} (hs : Seg h p (is ++ [i])) :
    ∃ n, h.cells i = some n ∧ n.next = none := by
  induction is generalizing p with
  | nil =>
    obtain ⟨⟨n, hn, -, hnext⟩, -⟩ := hs
    exact ⟨n, hn, hnext⟩
  | cons j is ih => exact ih hs.2

/-- **linking a cell behind the last one** -/
theorem Seg.snoc {is : List Nat} {l : Nat} {n : Node R} {r : R} (hs : Seg h p (is ++ [l]))
    (hn : h.cells l = some n) (hd : (is ++ [l]).Nodup) (hi : i ∉ is ++ [l])
    (hl : h'.cells l = some { n with next := some i })
    (hnew : h'.cells i = some { prior := some l, current := r, next := none })
    (hc : ∀ j ∈ is, h'.cells j = h.cells j) : Seg h' p (is ++ [l] ++ [i]) := by
  induction is generalizing p with
  | nil =>
    obtain ⟨⟨m, hm, hp, -⟩, -⟩ := hs
    cases hn.symm.trans hm
    exact ⟨⟨_, hl, hp, rfl⟩, ⟨_, hnew, rfl, rfl⟩, trivial⟩
  | cons k is ih =>
    obtain ⟨⟨m, hm, hp, hnext⟩, hs⟩ := hs
    have hd := (List.nodup_cons.1 hd).2
    have hi : i ∉ is ++ [l] := fun hi' => hi (List.mem_cons_of_mem _ hi')
    refine ⟨⟨m, ?_, hp, ?_⟩, ih hs hd hi fun j hj => hc j (List.mem_cons_of_mem _ hj)⟩
    · rw [hc k List.mem_cons_self, hm]
    · rw [hnext]
      cases is <;> rfl

/-! ### walking -/

/-- follow `next` until a cell matches; more cells than the fuel are a circle -/
def findFrom (h : Heap (Node R)) (f : R → Bool) : Nat → Option Nat → Exec (Option Nat)
  | _, none => .ok none
  | 0, some _ => .error .diverges
  | k + 1, some i => do
    let n ← h.get i
    if f n.current then .ok (some i) else findFrom h f k n.next

/-- the cell matches -/
def matchesAt (h : Heap (Node R)) (f : R → Bool) (i : Nat) : Bool :=
  (h.cells i).any fun n => f n.current

theorem findFrom_none (f : R → Bool) (k : Nat) : findFrom h f k none = .ok none := by
  cases k <;> rfl

/-- **walking a chain** comes to an end, with the first match -/
theorem Seg.findFrom {f : R → Bool} {k : Nat} (hs : Seg h p ids) (hk : ids.length ≤ k) :
    CSem.findFrom h f k ids.head? = .ok (ids.find? (matchesAt h f)) := by
  induction ids generalizing p k with
  | nil => exact findFrom_none f k
  | cons i ids ih =>
    obtain ⟨⟨n, hn, -, hnext⟩, hs⟩ := hs
    obtain ⟨k, rfl⟩ : ∃ j, k = j + 1 := ⟨k - 1, by simp at hk; omega⟩
    have hget : h.get i = .ok n := Heap.get_eq_ok.2 hn
    have hm : matchesAt h f i = f n.current := by simp [matchesAt, hn]
    rw [List.head?_cons, CSem.findFrom, hget, ok_bind, List.find?_cons, hm]
    cases f n.current with
    | true => rfl
    | false =>
      simp only [Bool.false_eq_true, if_false]
      rw [hnext]
      exact ih hs (by simpa using hk)

theorem Chain.length_le {first last : Option Nat} (hc : Chain h first last ids) :
    ids.length ≤ h.fresh := by
  have hsub : ids ⊆ List.range h.fresh := fun i hi =>
    List.mem_range.2 (Heap.lt_fresh ((hc.live i).1 hi))
  simpa using (List.Nodup.subperm hc.nodup hsub).length_le

/-! ### building chains -/

theorem chain_empty : Chain (Heap.empty : Heap (Node R)) none none [] where
  seg := trivial
  first_eq := rfl
  last_eq := rfl
  nodup := List.nodup_nil
  live i := by simp

theorem Chain.ids_eq_nil {last : Option Nat} (hc : Chain h none last ids) : ids = [] :=
  List.head?_eq_none_iff.1 hc.first_eq.symm

/-- the first cell of a chain -/
theorem Chain.alloc {last : Option Nat} (r : R) (hc : Chain h none last ids) :
    Chain (h.alloc { prior := none, current := r, next := none }) (some h.fresh) (some h.fresh)
      [h.fresh] where
  seg := ⟨⟨_, Heap.alloc_cells_fresh, rfl, rfl⟩, trivial⟩
  first_eq := rfl
  last_eq := rfl
  nodup := List.nodup_singleton _
  live i := by
    by_cases hi : i = h.fresh
    · simp [hi]
    · have hlive := hc.live i
      rw [hc.ids_eq_nil] at hlive
      rw [Heap.alloc_cells_ne hi, ← hlive]
      simp [hi]

/-- **a cell behind the last one** -/
theorem Chain.snoc {first : Option Nat} {l : Nat} {n : Node R} (r : R)
    (hc : Chain h first (some l) ids) (hn : h.cells l = some n) :
    Chain ((h.set l { n with next := some h.fresh }).alloc
        { prior := some l, current := r, next := none }) first (some h.fresh)
      (ids ++ [h.fresh]) := by
  obtain ⟨is, rfl⟩ : ∃ is, ids = is ++ [l] := by
    obtain ⟨is, e⟩ := List.getLast?_eq_some_iff.1 hc.last_eq.symm
    exact ⟨is, e⟩
  have hfresh : h.fresh ∉ is ++ [l] := fun hm => by
    have := (hc.live _).1 hm
    rw [Heap.cells_fresh] at this
    cases this
  have hl : l ≠ h.fresh := fun e => hfresh (by simp [e])
  have hdis := List.nodup_append.1 hc.nodup
  have hcells : ∀ {a b : Node R} {j : Nat}, j ≠ h.fresh →
      ((h.set l a).alloc b).cells j = (h.set l a).cells j := fun hj => Heap.alloc_cells_ne hj
  refine ⟨?_, ?_, by simp, ?_, fun j => ?_⟩
  · apply Seg.snoc hc.seg hn hc.nodup hfresh
    · rw [hcells hl, Heap.set_cells_self (by simp [hn])]
    · exact Heap.alloc_cells_fresh
    · intro j hj
      have hjl : j ≠ l := hdis.2.2 j hj l (by simp)
      have hjf : j ≠ h.fresh := fun e => hfresh (by simp [← e, hj])
      rw [hcells hjf, Heap.set_cells_ne hjl]
  · rw [hc.first_eq]
    cases is <;> rfl
  · refine List.nodup_append.2 ⟨hc.nodup, List.nodup_singleton _, fun a ha b hb e => ?_⟩
    rw [List.mem_singleton.1 hb] at e
    exact hfresh (e ▸ ha)
  · by_cases hj : j = h.fresh
    · rw [hj]
      simp only [List.mem_append, List.mem_singleton, or_true, true_iff]
      exact congrArg Option.isSome Heap.alloc_cells_fresh
    · rw [hcells hj, Heap.set_cells_isSome, ← hc.live j]
      simp [hj]

/-- the contents of a cell do not matter -/
theorem Seg.set_current {r : R} {n : Node R} (hs : Seg h p ids) (hn : h.cells i = some n) :
    Seg (h.set i { n with current := r }) p ids := by
  induction ids generalizing p with
  | nil => trivial
  | cons j ids ih =>
    obtain ⟨⟨m, hm, hp, hnext⟩, hs⟩ := hs
    refine ⟨?_, ih hs⟩
    by_cases hj : j = i
    · subst hj
      cases hn.symm.trans hm
      exact ⟨_, Heap.set_cells_self (by simp [hn]), hp, hnext⟩
    · exact ⟨m, by rw [Heap.set_cells_ne hj, hm], hp, hnext⟩

theorem Chain.set_current {first last : Option Nat} {n : Node R} (r : R)
    (hc : Chain h first last ids) (hn : h.cells i = some n) :
    Chain (h.set i { n with current := r }) first last ids where
  seg := hc.seg.set_current hn
  first_eq := hc.first_eq
  last_eq := hc.last_eq
  nodup := hc.nodup
  live j := by rw [Heap.set_cells_isSome, hc.live]

/-! ### where the links of a chain lead -/

/-- a link back leads to a cell of the chain -/
theorem Seg.prior_mem {k : Nat} {n : Node R} (hs : Seg h p ids) (hi : i ∈ ids)
    (hn : h.cells i = some n) (hp : n.prior = some k) : p = some k ∨ k ∈ ids := by
  induction ids generalizing p with
  | nil => cases hi
  | cons j ids ih =>
    obtain ⟨⟨m, hm, hpm, -⟩, hs⟩ := hs
    rcases List.mem_cons.1 hi with rfl | hi
    · cases hn.symm.trans hm
      exact .inl (hpm.symm.trans hp)
    · rcases ih hs hi with e | hk
      · cases e
        exact .inr List.mem_cons_self
      · exact .inr (List.mem_cons_of_mem _ hk)

theorem Chain.prior_isSome {first last : Option Nat} {k : Nat} {n : Node R}
    (hc : Chain h first last ids) (hn : h.cells i = some n) (hp : n.prior = some k) :
    (h.cells k).isSome := by
  have hi : i ∈ ids := (hc.live i).2 (by simp [hn])
  rcases hc.seg.prior_mem hi hn hp with e | hk
  · cases e
  · exact (hc.live k).1 hk

theorem Chain.last_isSome {first : Option Nat} {l : Nat} (hc : Chain h first (some l) ids) :
    (h.cells l).isSome :=
  (hc.live l).1 (List.mem_of_getLast? hc.last_eq.symm)

theorem Chain.last_next {first : Option Nat} {l : Nat} {n : Node R}
    (hc : Chain h first (some l) ids) (hn : h.cells l = some n) : n.next = none := by
  obtain ⟨is, rfl⟩ := List.getLast?_eq_some_iff.1 hc.last_eq.symm
  obtain ⟨m, hm, hnext⟩ := hc.seg.next_last
  cases hn.symm.trans hm
  exact hnext

theorem Chain.first_eq_none_iff {first last : Option Nat} (hc : Chain h first last ids) :
    first = none ↔ last = none := by
  rw [hc.first_eq, hc.last_eq, List.head?_eq_none_iff, List.getLast?_eq_none_iff]

end

end CSem
