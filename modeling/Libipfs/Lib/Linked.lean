import Libipfs.Lib.Heap

/-!
# Singly linked lists in a heap

Cells with a link forward only.  A list is given by what is in its cells and where they are.

* `Segment h p cells q`   the cells from `p` on, the last one linked to `q`;
* `Linked h p cells`      the same to the end of the list;
* `Linked.unique`, `Linked.nodup`   the links determine the list, and no cell is in it twice;
* `Linked.reaches_iff`    what can be reached is in the list, and so has not been freed;
* `findWithPrevious`      the walk of a deletion, which remembers the cell before;
* `Linked.findWithPrevious_cases`   it gets to the first that matches, or to the end;
* `Linked.set`, `Linked.snoc`, `Linked.link`, `Linked.unlink`   a cell is filled, a new one and one
                          that is there are linked behind the last one, and one is taken out.
-/

set_option linter.unusedVariables false

namespace CSem

structure Cell (R : Type) where
  current : R
  next : Option Nat

section
variable {R : Type}

def Segment (h : Heap (Cell R)) : Option Nat → List (Nat × R) → Option Nat → Prop
  | p, [], q => p = q
  | p, (i, r) :: cells, q =>
    p = some i ∧ ∃ next, h.cells i = some { current := r, next := next } ∧ Segment h next cells q

def Linked (h : Heap (Cell R)) (p : Option Nat) (cells : List (Nat × R)) : Prop :=
  Segment h p cells none

/-- the cells that can be got to from `p` -/
inductive Reaches (h : Heap (Cell R)) : Option Nat → Nat → Prop
  | here (i : Nat) : Reaches h (some i) i
  | next {i j : Nat} {c : Cell R} (hc : h.cells i = some c) (hj : Reaches h c.next j) :
      Reaches h (some i) j

/-- nothing that can be got to has been freed -/
def Intact (h : Heap (Cell R)) (p : Option Nat) : Prop :=
  ∀ i, Reaches h p i → (h.cells i).isSome

variable {h h' : Heap (Cell R)} {p q : Option Nat} {pre post cells cells' : List (Nat × R)}
variable {i j : Nat} {r r' : R}

theorem fst_mem {c : Nat × R} (hc : c ∈ cells) : c.1 ∈ cells.map Prod.fst := List.mem_map_of_mem hc

theorem segment_append :
    Segment h p (pre ++ post) q ↔ ∃ m, Segment h p pre m ∧ Segment h m post q := by
  induction pre generalizing p with
  | nil =>
    constructor
    · intro hs
      exact ⟨p, rfl, hs⟩
    · rintro ⟨m, rfl, hs⟩
      exact hs
  | cons c pre ih =>
    constructor
    · rintro ⟨hp, next, hc, hs⟩
      obtain ⟨m, hpre, hpost⟩ := ih.1 hs
      exact ⟨m, ⟨hp, next, hc, hpre⟩, hpost⟩
    · rintro ⟨m, ⟨hp, next, hc, hpre⟩, hpost⟩
      exact ⟨hp, next, hc, ih.2 ⟨m, hpre, hpost⟩⟩

/-- a segment depends on its own cells only -/
theorem Segment.congr (hc : ∀ c ∈ cells, h'.cells c.1 = h.cells c.1) (hs : Segment h p cells q) :
    Segment h' p cells q := by
  induction cells generalizing p with
  | nil => exact hs
  | cons c cells ih =>
    obtain ⟨hp, next, hcell, hs⟩ := hs
    refine ⟨hp, next, ?_, ih (fun d hd => hc d (List.mem_cons_of_mem _ hd)) hs⟩
    rw [hc c List.mem_cons_self]
    exact hcell

/-- where a segment in front of a cell leads -/
theorem Segment.last {k : Nat} {rk : R} (hs : Segment h p (pre ++ [(k, rk)]) q) :
    h.cells k = some { current := rk, next := q } := by
  obtain ⟨m, -, -, next, hc, hq⟩ := segment_append.1 hs
  cases hq
  exact hc

theorem Linked.cons (hs : Linked h p ((i, r) :: cells)) :
    p = some i ∧ ∃ next, h.cells i = some { current := r, next := next } ∧ Linked h next cells := hs

/-- the cell in the middle of a list -/
theorem Linked.split (hs : Linked h p (pre ++ (i, r) :: post)) :
    Segment h p pre (some i) ∧
      ∃ next, h.cells i = some { current := r, next := next } ∧ Linked h next post := by
  obtain ⟨m, hpre, rfl, hpost⟩ := segment_append.1 hs
  exact ⟨hpre, hpost⟩

theorem Linked.join {next : Option Nat} (hpre : Segment h p pre (some i))
    (hc : h.cells i = some { current := r, next := next }) (hpost : Linked h next post) :
    Linked h p (pre ++ (i, r) :: post) :=
  segment_append.2 ⟨some i, hpre, rfl, next, hc, hpost⟩

/-- **the links determine the list** -/
theorem Linked.unique (hs : Linked h p cells) (hs' : Linked h p cells') : cells = cells' := by
  induction cells generalizing p cells' with
  | nil =>
    cases cells' with
    | nil => rfl
    | cons c cells' => cases hs.symm.trans hs'.1
  | cons c cells ih =>
    cases cells' with
    | nil => cases hs'.symm.trans hs.1
    | cons c' cells' =>
      obtain ⟨i, r⟩ := c
      obtain ⟨i', r'⟩ := c'
      obtain ⟨rfl, next, hc, hs⟩ := hs
      obtain ⟨hp, next', hc', hs'⟩ := hs'
      cases hp
      cases hc.symm.trans hc'
      rw [ih hs hs']

/-- **no cell is in a list twice** -/
theorem Linked.nodup (hs : Linked h p cells) : (cells.map Prod.fst).Nodup := by
  induction cells generalizing p with
  | nil => exact List.nodup_nil
  | cons c cells ih =>
    obtain ⟨i, r⟩ := c
    have hwhole := hs
    obtain ⟨rfl, next, hc, hs⟩ := hs
    refine List.nodup_cons.2 ⟨fun hi => ?_, ih hs⟩
    obtain ⟨⟨i', r'⟩, hmem, rfl⟩ := List.mem_map.1 hi
    -- the list from there on is the whole list
    obtain ⟨pre, post, rfl⟩ := List.append_of_mem hmem
    obtain ⟨-, next', hc', hpost⟩ := Linked.split hs
    have hthere : Linked h (some i') ([] ++ (i', r') :: post) := Linked.join rfl hc' hpost
    have hlen := congrArg List.length (hwhole.unique hthere)
    rw [List.nil_append] at hlen
    rw [List.length_cons, List.length_cons, List.length_append, List.length_cons] at hlen
    omega

theorem Segment.isSome (hs : Segment h p cells q) {c : Nat × R} (hc : c ∈ cells) :
    (h.cells c.1).isSome := by
  induction cells generalizing p with
  | nil => cases hc
  | cons d cells ih =>
    obtain ⟨-, next, hd, hs⟩ := hs
    rcases List.mem_cons.1 hc with rfl | hc
    · rw [hd]
      rfl
    · exact ih hs hc

theorem Linked.length_le (hs : Linked h p cells) : cells.length ≤ h.fresh := by
  have hsub : cells.map Prod.fst ⊆ List.range h.fresh := by
    intro i hi
    obtain ⟨c, hc, rfl⟩ := List.mem_map.1 hi
    exact List.mem_range.2 (Heap.lt_fresh (Segment.isSome hs hc))
  simpa using (List.Nodup.subperm hs.nodup hsub).length_le

theorem Linked.fresh_not_mem (hs : Linked h p cells) {c : Nat × R} (hc : c ∈ cells) :
    c.1 ≠ h.fresh :=
  Nat.ne_of_lt (Heap.lt_fresh (Segment.isSome hs hc))

/-- **what can be reached** is in the list -/
theorem Linked.reaches_iff (hs : Linked h p cells) : Reaches h p j ↔ j ∈ cells.map Prod.fst := by
  induction cells generalizing p with
  | nil =>
    obtain rfl : p = none := hs
    simp only [List.map_nil, List.not_mem_nil, iff_false]
    rintro ⟨⟩
  | cons c cells ih =>
    obtain ⟨i, r⟩ := c
    obtain ⟨rfl, next, hc, hs⟩ := hs
    rw [List.map_cons, List.mem_cons, ← ih hs]
    constructor
    · intro hr
      cases hr with
      | here => exact .inl rfl
      | next hc' hj =>
        cases hc.symm.trans hc'
        exact .inr hj
    · rintro (rfl | hj)
      · exact .here _
      · exact .next hc hj

theorem Segment.reaches (hs : Segment h p cells (some i)) : Reaches h p i := by
  induction cells generalizing p with
  | nil =>
    cases hs
    exact .here i
  | cons c cells ih =>
    obtain ⟨rfl, next, hc, hs⟩ := hs
    exact .next hc (ih hs)

theorem Linked.intact (hs : Linked h p cells) : Intact h p := by
  intro i hi
  obtain ⟨c, hc, rfl⟩ := List.mem_map.1 (hs.reaches_iff.1 hi)
  exact Segment.isSome hs hc

/-! ## walking -/

/-- the cell before the first that matches, and that one; looking at a cell may fault, and more
cells than the fuel are a circle -/
def findWithPrevious (h : Heap (Cell R)) (f : Nat → R → Exec Bool) :
    Nat → Option Nat → Option Nat → Exec (Option Nat × Option Nat)
  | _, previous, none => .ok (previous, none)
  | 0, _, some _ => .error .diverges
  | k + 1, previous, some i => do
    let c ← h.get i
    let found ← f i c.current
    if found then .ok (previous, some i) else findWithPrevious h f k (some i) c.next

/-- the last of some cells, `previous` when there are none -/
def lastOf (previous : Option Nat) (cells : List (Nat × R)) : Option Nat :=
  (cells.getLast?.map Prod.fst).or previous

variable {f : Nat → R → Exec Bool} {k : Nat} {previous : Option Nat}

@[simp] theorem lastOf_nil : lastOf previous ([] : List (Nat × R)) = previous := rfl

@[simp] theorem lastOf_concat : lastOf previous (cells ++ [(i, r)]) = some i := by
  simp [lastOf]

theorem lastOf_cons : lastOf previous ((i, r) :: cells) = lastOf (some i) cells := by
  unfold lastOf
  rw [List.getLast?_cons]
  cases cells.getLast? <;> rfl

/-- **cells that do not match** are passed over -/
theorem Segment.findWithPrevious (hs : Segment h p cells q)
    (hf : ∀ c ∈ cells, f c.1 c.2 = .ok false) (hk : cells.length ≤ k) :
    CSem.findWithPrevious h f k previous p =
      CSem.findWithPrevious h f (k - cells.length) (lastOf previous cells) q := by
  induction cells generalizing p k previous with
  | nil =>
    obtain rfl : p = q := hs
    rfl
  | cons c cells ih =>
    obtain ⟨i, r⟩ := c
    obtain ⟨rfl, next, hc, hs⟩ := hs
    obtain ⟨k, rfl⟩ : ∃ m, k = m + 1 := ⟨k - 1, by rw [List.length_cons] at hk; omega⟩
    rw [List.length_cons] at hk ⊢
    rw [CSem.findWithPrevious, Heap.get_eq_ok.2 hc, ok_bind, hf (i, r) List.mem_cons_self, ok_bind,
      if_neg Bool.false_ne_true, lastOf_cons, Nat.add_sub_add_right]
    exact ih hs (fun d hd => hf d (List.mem_cons_of_mem _ hd)) (by omega)

/-- a list without a match -/
theorem Linked.findWithPrevious_none (hs : Linked h p cells)
    (hf : ∀ c ∈ cells, f c.1 c.2 = .ok false) :
    findWithPrevious h f h.fresh previous p = .ok (lastOf previous cells, none) := by
  rw [Segment.findWithPrevious hs hf hs.length_le]
  cases h.fresh - cells.length <;> rfl

/-- the walk gets to the first cell that is not passed over -/
theorem Linked.findWithPrevious_split (hs : Linked h p (pre ++ (i, r) :: post))
    (hf : ∀ c ∈ pre, f c.1 c.2 = .ok false) :
    ∃ k next, findWithPrevious h f h.fresh previous p = f i r >>= fun found =>
      if found then .ok (lastOf previous pre, some i)
      else findWithPrevious h f k (some i) next := by
  have hlen := hs.length_le
  rw [List.length_append, List.length_cons] at hlen
  obtain ⟨hpre, next, hc, -⟩ := hs.split
  rw [Segment.findWithPrevious hpre hf (by omega)]
  obtain ⟨m, hm⟩ : ∃ m, h.fresh - pre.length = m + 1 := ⟨h.fresh - pre.length - 1, by omega⟩
  refine ⟨m, next, ?_⟩
  rw [hm, CSem.findWithPrevious, Heap.get_eq_ok.2 hc]
  rfl

/-- the first match -/
theorem Linked.findWithPrevious_some (hs : Linked h p (pre ++ (i, r) :: post))
    (hf : ∀ c ∈ pre, f c.1 c.2 = .ok false) (hfound : f i r = .ok true) :
    findWithPrevious h f h.fresh previous p = .ok (lastOf previous pre, some i) := by
  obtain ⟨k, next, hwalk⟩ := hs.findWithPrevious_split hf
  rw [hwalk, hfound]
  rfl

/-- a cell that cannot be compared -/
theorem Linked.findWithPrevious_error {e : Fault} (hs : Linked h p (pre ++ (i, r) :: post))
    (hf : ∀ c ∈ pre, f c.1 c.2 = .ok false) (hfault : f i r = .error e) :
    findWithPrevious h f h.fresh previous p = .error e := by
  obtain ⟨k, next, hwalk⟩ := hs.findWithPrevious_split hf
  rw [hwalk, hfault]
  rfl

/-- **the walk** to the first cell that matches, or to the end -/
theorem Linked.findWithPrevious_cases {g : Nat × R → Bool} (hs : Linked h p cells)
    (hf : ∀ c ∈ cells, f c.1 c.2 = .ok (g c)) (previous : Option Nat) :
    ((∀ c ∈ cells, g c = false) ∧
        findWithPrevious h f h.fresh previous p = .ok (lastOf previous cells, none)) ∨
      ∃ pre i r post, cells = pre ++ (i, r) :: post ∧ (∀ c ∈ pre, g c = false) ∧
        g (i, r) = true ∧
        findWithPrevious h f h.fresh previous p = .ok (lastOf previous pre, some i) := by
  cases hfind : cells.find? g with
  | none =>
    have hall : ∀ c ∈ cells, g c = false := fun c hc =>
      Bool.eq_false_iff.2 (List.find?_eq_none.1 hfind c hc)
    exact .inl ⟨hall, hs.findWithPrevious_none fun c hc => by rw [hf c hc, hall c hc]⟩
  | some c =>
    obtain ⟨hg, pre, post, rfl, hpre⟩ := List.find?_eq_some_iff_append.1 hfind
    obtain ⟨i, r⟩ := c
    have hpre : ∀ c ∈ pre, g c = false := fun c hc => by simpa using hpre c hc
    refine .inr ⟨pre, i, r, post, rfl, hpre, hg, ?_⟩
    have hfound : f i r = .ok true := by rw [← hg]; exact hf (i, r) (by simp)
    exact hs.findWithPrevious_some
      (fun c hc => by rw [hf c (List.mem_append_left _ hc), hpre c hc]) hfound

/-! ## changing a list -/

/-- **another value in a cell** -/
theorem Linked.set {next : Option Nat} (hs : Linked h p (pre ++ (i, r) :: post))
    (hc : h.cells i = some { current := r, next := next }) :
    Linked (h.set i { current := r', next := next }) p (pre ++ (i, r') :: post) := by
  have hd := hs.nodup
  rw [List.map_append, List.map_cons] at hd
  obtain ⟨-, hdpost, hdis⟩ := List.nodup_append.1 hd
  obtain ⟨hpre, next', hc', hpost⟩ := hs.split
  cases hc.symm.trans hc'
  refine Linked.join (Segment.congr (fun c hcm => ?_) hpre)
    (Heap.set_cells_self (by rw [hc]; rfl)) (Segment.congr (fun c hcm => ?_) hpost)
  · exact Heap.set_cells_ne (hdis c.1 (fst_mem hcm) i List.mem_cons_self)
  · apply Heap.set_cells_ne
    intro e
    have hmem := fst_mem hcm
    rw [e] at hmem
    exact (List.nodup_cons.1 hdpost).1 hmem

/-- **a cell behind the last one** -/
theorem Linked.snoc (hs : Linked h p (pre ++ [(i, r)])) (r' : R) :
    Linked ((h.alloc { current := r', next := none }).set i
      { current := r, next := some h.fresh }) p (pre ++ [(i, r)] ++ [(h.fresh, r')]) := by
  have hne : i ≠ h.fresh := hs.fresh_not_mem (c := (i, r)) (by simp)
  have hcell : (h.alloc { current := r', next := none }).cells i =
      some { current := r, next := none } := by
    rw [Heap.alloc_cells_ne hne]
    exact Segment.last hs
  have hd := hs.nodup
  rw [List.map_append] at hd
  have hdis := (List.nodup_append.1 hd).2.2
  rw [List.append_assoc]
  refine @Linked.join _ _ _ _ _ _ _ (some h.fresh)
    (Segment.congr (fun c hcm => ?_) hs.split.1) ?_ ?_
  · have hci : c.1 ≠ i := hdis c.1 (fst_mem hcm) i (by simp)
    rw [Heap.set_cells_ne hci,
      Heap.alloc_cells_ne (hs.fresh_not_mem (List.mem_append_left _ hcm))]
  · exact Heap.set_cells_self (by rw [hcell]; rfl)
  · refine ⟨rfl, none, ?_, rfl⟩
    rw [Heap.set_cells_ne hne.symm]
    exact Heap.alloc_cells_fresh

/-- the same for a cell that is there -/
theorem Linked.link (hs : Linked h p (pre ++ [(i, r)]))
    (hj : h.cells j = some { current := r', next := none })
    (hmem : j ∉ (pre ++ [(i, r)]).map Prod.fst) :
    Linked (h.set i { current := r, next := some j }) p (pre ++ [(i, r)] ++ [(j, r')]) := by
  have hne : j ≠ i := by
    rintro rfl
    exact hmem (by simp)
  have hd := hs.nodup
  rw [List.map_append] at hd
  have hdis := (List.nodup_append.1 hd).2.2
  rw [List.append_assoc]
  refine @Linked.join _ _ _ _ _ _ _ (some j)
    (Segment.congr (fun c hcm => ?_) hs.split.1) ?_ ?_
  · exact Heap.set_cells_ne (hdis c.1 (fst_mem hcm) i (by simp))
  · exact Heap.set_cells_self (by rw [Segment.last hs]; rfl)
  · refine ⟨rfl, none, ?_, rfl⟩
    rw [Heap.set_cells_ne hne]
    exact hj

/-- a cell that is in no list -/
theorem Linked.free (hs : Linked h p cells) (hi : i ∉ cells.map Prod.fst) :
    Linked (h.free i) p cells :=
  Segment.congr (fun c hc => Heap.free_cells_ne fun e => hi (e ▸ fst_mem hc)) hs

/-- **a cell behind another is taken out** -/
theorem Linked.unlink {k : Nat} {rk : R} {next : Option Nat}
    (hs : Linked h p (pre ++ (k, rk) :: (i, r) :: post))
    (hc : h.cells i = some { current := r, next := next }) :
    Linked ((h.set k { current := rk, next := next }).free i) p (pre ++ (k, rk) :: post) := by
  have hd := hs.nodup
  rw [List.map_append, List.map_cons, List.map_cons] at hd
  obtain ⟨-, hdk, hdis⟩ := List.nodup_append.1 hd
  obtain ⟨hk, hdi⟩ := List.nodup_cons.1 hdk
  obtain ⟨hpre, m, hck, rfl, next', hc', hpost⟩ := hs.split
  cases hc.symm.trans hc'
  refine Linked.free (Linked.join (Segment.congr (fun c hcm => ?_) hpre)
    (Heap.set_cells_self (by rw [hck]; rfl)) (Segment.congr (fun c hcm => ?_) hpost)) ?_
  · exact Heap.set_cells_ne (hdis c.1 (fst_mem hcm) k List.mem_cons_self)
  · apply Heap.set_cells_ne
    intro e
    have hmem := fst_mem hcm
    rw [e] at hmem
    exact hk (List.mem_cons_of_mem _ hmem)
  · rw [List.map_append, List.map_cons]
    intro hi
    rcases List.mem_append.1 hi with hi | hi
    · exact hdis i hi i (List.mem_cons_of_mem _ List.mem_cons_self) rfl
    · rcases List.mem_cons.1 hi with rfl | hi
      · exact hk List.mem_cons_self
      · exact (List.nodup_cons.1 hdi).1 hi

end

end CSem
