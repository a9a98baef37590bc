import Libipfs.Lib.Run
import Libipfs.Libp2p.Vector
import Mathlib.Data.List.Basic

/-!
# Vectors as they grow and shrink

The whole `struct Libp2pVector`: the slots that are allocated, how many they are and how many are in
use.  A vector that is full is doubled, one that is down to a quarter is halved.

* `Libp2pVector.add`, `.get`, `.delete`   the functions;
* `Libp2pVector.slots_delete`   what a deletion does to the slots in use is `utilsVectorDelete`;
* `Refines`           the slots in use are the items of a list, from which deletions take what they
                      name;
* `tail_set_eq_eraseIdx`   a deletion takes what it names when all in front of it is null;
* `vector_iff`        **the vector is that list** along a run iff no deletion names anything behind
                      an item, and nothing is added to a full vector of 2^30 slots or more.
-/

namespace Libp2p
open CSem

/-- `items` has a slot for each that is allocated -/
structure Libp2pVector (α : Type) where
  items : List (Option α)
  capacity : Nat
  total : Nat

section
variable {α : Type}

def Libp2pVector.new (α : Type) (initialSize : Nat) : Libp2pVector α where
  items := List.replicate initialSize none
  capacity := initialSize
  total := 0

/-- a pointer has eight bytes -/
def Libp2pVector.resize (v : Libp2pVector α) (capacity : Nat) : Libp2pVector α :=
  if 8 * capacity ≤ ptrdiffMax then
    { v with items := v.items.take capacity ++ List.replicate (capacity - v.items.length) none,
             capacity := capacity }
  else v

/-- the capacity is an `int` -/
def Libp2pVector.add (v : Libp2pVector α) (item : Option α) : Exec (Libp2pVector α) := do
  let v ←
    if v.capacity = v.total then do
      require .overflow (v.capacity * 2 < 2 ^ 31)
      .ok (v.resize (v.capacity * 2))
    else .ok v
  require .outOfBounds (v.total < v.items.length)
  .ok { v with items := v.items.set v.total item, total := v.total + 1 }

def Libp2pVector.get (v : Libp2pVector α) (index : Int) : Exec (Option α) :=
  if 0 ≤ index ∧ index < v.total then do
    require .outOfBounds (index.toNat < v.items.length)
    .ok (utilsVectorGet v.items index.toNat)
  else .ok none

def Libp2pVector.delete (v : Libp2pVector α) (index : Int) : Exec (Libp2pVector α) :=
  if index < 0 ∨ v.total ≤ index then .ok v
  else do
    require .outOfBounds (v.total ≤ v.items.length)
    let items := (List.range (v.total - 1)).foldl shiftSlot (v.items.set index.toNat none)
    let v := { v with items := items, total := v.total - 1 }
    if 0 < v.total ∧ v.total = v.capacity / 4 then .ok (v.resize (v.capacity / 2))
    else .ok v

/-! ## the slots in use -/

def Libp2pVector.slots (v : Libp2pVector α) : List (Option α) := v.items.take v.total

structure Libp2pVector.WellFormed (v : Libp2pVector α) : Prop where
  allocated : v.items.length = v.capacity
  room : v.total ≤ v.capacity
  pos : 1 ≤ v.capacity
  int : v.capacity < 2 ^ 31

variable {v v' : Libp2pVector α} {item : Option α} {index : Int} {capacity n : Nat}
variable {items rest : List (Option α)}

theorem Libp2pVector.WellFormed.new (hpos : 1 ≤ n) (hint : n < 2 ^ 31) :
    (Libp2pVector.new α n).WellFormed where
  allocated := List.length_replicate
  room := Nat.zero_le _
  pos := hpos
  int := hint

theorem Libp2pVector.WellFormed.slots_length (h : v.WellFormed) : v.slots.length = v.total := by
  have hroom := h.room
  rw [Libp2pVector.slots, List.length_take, h.allocated]
  omega

/-- there is memory for every `int` number of pointers -/
theorem Libp2pVector.resize_eq (hint : capacity < 2 ^ 31) :
    v.resize capacity = { v with
      items := v.items.take capacity ++ List.replicate (capacity - v.items.length) none,
      capacity := capacity } :=
  if_pos (by unfold ptrdiffMax; omega)

theorem Libp2pVector.WellFormed.resize (h : v.WellFormed) (hroom : v.total ≤ capacity)
    (hpos : 1 ≤ capacity) (hint : capacity < 2 ^ 31) :
    (v.resize capacity).WellFormed ∧ (v.resize capacity).slots = v.slots := by
  have hallocated := h.allocated
  have hlen : v.total ≤ v.items.length := hallocated ▸ h.room
  rw [Libp2pVector.resize_eq hint]
  constructor
  · refine { allocated := ?_, room := hroom, pos := hpos, int := hint }
    show (v.items.take capacity ++ List.replicate (capacity - v.items.length) none).length = capacity
    rw [List.length_append, List.length_take, List.length_replicate]
    omega
  · show (v.items.take capacity ++ _).take v.total = v.items.take v.total
    rw [List.take_append_of_le_length (by rw [List.length_take]; omega), List.take_take,
      Nat.min_eq_left hroom]

/-- **an addition**, where it does not have to double too many -/
theorem Libp2pVector.WellFormed.add (h : v.WellFormed) (item : Option α)
    (hfull : v.capacity = v.total → v.capacity < 2 ^ 30) :
    ∃ v', v.add item = .ok v' ∧ v'.WellFormed ∧ v'.slots = utilsVectorAdd v.slots item := by
  -- the vector has room for one more, once it has been resized
  have hput : ∀ w : Libp2pVector α, w.WellFormed → w.total < w.capacity →
      ∃ v', (require .outOfBounds (w.total < w.items.length) >>= fun _ =>
        (.ok { w with items := w.items.set w.total item, total := w.total + 1 } : Exec _)) = .ok v' ∧
          v'.WellFormed ∧ v'.slots = utilsVectorAdd w.slots item := by
    intro w hw hlt
    have hlen : w.total < w.items.length := hw.allocated ▸ hlt
    rw [require_pos hlen, ok_bind]
    refine ⟨_, rfl, ?_, ?_⟩
    · exact { allocated := (List.length_set).trans hw.allocated, room := hlt, pos := hw.pos,
              int := hw.int }
    · show (w.items.set w.total item).take (w.total + 1) = w.items.take w.total ++ [item]
      rw [List.take_add_one, List.take_set_of_le (Nat.le_refl _), List.getElem?_set_self hlen]
      rfl
  have hroom := h.room
  have hpos := h.pos
  unfold Libp2pVector.add
  by_cases hc : v.capacity = v.total
  · have hsmall := hfull hc
    obtain ⟨hw, hslots⟩ := @h.resize _ _ (v.capacity * 2) (by omega) (by omega) (by omega)
    rw [if_pos hc, require_pos (by omega), ok_bind, ok_bind, ← hslots]
    apply hput _ hw
    rw [Libp2pVector.resize_eq (by omega)]
    show v.total < v.capacity * 2
    omega
  · rw [if_neg hc, ok_bind]
    exact hput v h (by omega)

theorem Libp2pVector.add_full (hc : v.capacity = v.total) (hlarge : 2 ^ 30 ≤ v.capacity) :
    v.add item = .error .overflow := by
  unfold Libp2pVector.add
  rw [if_pos hc, require_neg (by omega)]
  rfl

/-! ### deletions -/

theorem shiftSlot_append_right {i : Nat} (hi : i + 1 < items.length) :
    shiftSlot (items ++ rest) i = shiftSlot items i ++ rest := by
  unfold shiftSlot utilsVectorGet
  rw [List.getElem?_append_left hi, List.set_append_left _ _ (by omega),
    List.set_append_left _ _ (by rw [List.length_set]; omega)]

theorem shiftSlot_length (items : List (Option α)) (i : Nat) :
    (shiftSlot items i).length = items.length := by
  unfold shiftSlot
  rw [List.length_set, List.length_set]

/-- the loop of a deletion leaves alone what is behind the slots in use -/
theorem foldl_shiftSlot_append {k : Nat} (rest : List (Option α)) (hk : k < items.length) :
    (List.range k).foldl shiftSlot (items ++ rest) =
        (List.range k).foldl shiftSlot items ++ rest ∧
      ((List.range k).foldl shiftSlot items).length = items.length := by
  induction k with
  | zero => exact ⟨rfl, rfl⟩
  | succ k ih =>
    obtain ⟨hfold, hlen⟩ := ih (by omega)
    rw [List.range_succ, List.foldl_append, List.foldl_append, hfold]
    refine ⟨shiftSlot_append_right (by omega), ?_⟩
    exact (shiftSlot_length _ _).trans hlen

theorem Libp2pVector.delete_out (h : index < 0 ∨ v.total ≤ index) : v.delete index = .ok v :=
  if_pos h

/-- **a deletion** does to the slots in use what `utilsVectorDelete` says -/
theorem Libp2pVector.WellFormed.delete (h : v.WellFormed) (index : Nat) (hlt : index < v.total) :
    ∃ v', v.delete index = .ok v' ∧ v'.WellFormed ∧
      v'.slots = utilsVectorDelete v.slots index := by
  have hroom := h.room
  have hint := h.int
  have hallocated := h.allocated
  have hslots := h.slots_length
  have hsplit : v.items.set index none = v.slots.set index none ++ v.items.drop v.total := by
    rw [← List.set_append_left _ _ (by omega), Libp2pVector.slots, List.take_append_drop]
  have hset : (v.slots.set index none).length = v.total := List.length_set.trans hslots
  have hk : v.total - 1 < (v.slots.set index none).length := by omega
  obtain ⟨hfold, hlen⟩ := foldl_shiftSlot_append (v.items.drop v.total) hk
  have hdelete : utilsVectorDelete v.slots index =
      ((List.range (v.total - 1)).foldl shiftSlot (v.slots.set index none)).take (v.total - 1) := by
    unfold utilsVectorDelete
    rw [if_neg (by omega), hslots]
  -- the vector before it is resized
  have hw : Libp2pVector.WellFormed { v with
      items := (List.range (v.total - 1)).foldl shiftSlot (v.items.set index none),
      total := v.total - 1 } := by
    refine { allocated := ?_, room := ?_, pos := h.pos, int := hint }
    · show ((List.range (v.total - 1)).foldl shiftSlot (v.items.set index none)).length = v.capacity
      rw [hsplit, hfold, List.length_append, hlen, hset, List.length_drop]
      omega
    · show v.total - 1 ≤ v.capacity
      omega
  have hws : Libp2pVector.slots { v with
      items := (List.range (v.total - 1)).foldl shiftSlot (v.items.set index none),
      total := v.total - 1 } = utilsVectorDelete v.slots index := by
    show ((List.range (v.total - 1)).foldl shiftSlot (v.items.set index none)).take
      (v.total - 1) = _
    rw [hdelete, hsplit, hfold, List.take_append_of_le_length (by omega)]
  have hin : ¬ ((index : Int) < 0 ∨ (v.total : Int) ≤ index) := by omega
  unfold Libp2pVector.delete
  rw [if_neg hin, require_pos (by omega), ok_bind, Int.toNat_natCast]
  dsimp only
  by_cases hquarter : 0 < v.total - 1 ∧ v.total - 1 = v.capacity / 4
  · rw [if_pos hquarter]
    have hhalf : v.total - 1 ≤ v.capacity / 2 := by omega
    obtain ⟨hw', hs'⟩ := hw.resize hhalf (by omega) (by omega)
    exact ⟨_, rfl, hw', hs'.trans hws⟩
  · rw [if_neg hquarter]
    exact ⟨_, rfl, hw, hws⟩

/-- every call that returns leaves a vector -/
theorem Libp2pVector.WellFormed.add_ok (h : v.WellFormed) (hadd : v.add item = .ok v') :
    v'.WellFormed ∧ v'.slots = utilsVectorAdd v.slots item := by
  have hfull : v.capacity = v.total → v.capacity < 2 ^ 30 := by
    intro hc
    by_contra hlarge
    rw [Libp2pVector.add_full hc (by omega)] at hadd
    cases hadd
  obtain ⟨w, hw, hgood⟩ := h.add item hfull
  rw [hw] at hadd
  cases hadd
  exact hgood

/-! ## the list -/

/-- **a deletion takes what it names** when all in front of it is null -/
theorem tail_set_eq_eraseIdx {index : Nat} (h : index < items.length) :
    (items.set index none).tail = items.eraseIdx index ↔ ∀ x ∈ items.take index, x = none := by
  cases items with
  | nil => cases h
  | cons x items =>
    cases index with
    | zero => simp
    | succ index =>
      rw [List.set_cons_succ, List.tail_cons, List.eraseIdx_cons_succ, List.take_succ_cons,
        List.forall_mem_cons]
      have hlt : index < items.length := Nat.lt_of_succ_lt_succ h
      clear h
      -- the null moves to the front of the rest
      induction items generalizing x index with
      | nil => cases hlt
      | cons y items ih =>
        cases index with
        | zero => simp [eq_comm]
        | succ index =>
          have hrest : items.set index none = y :: items.eraseIdx index ↔
              y = none ∧ ∀ x ∈ items.take index, x = none :=
            ih y index (Nat.lt_of_succ_lt_succ hlt)
          rw [List.set_cons_succ, List.eraseIdx_cons_succ, List.cons.injEq, List.take_succ_cons,
            List.forall_mem_cons, hrest]
          constructor
          · rintro ⟨rfl, hy, hall⟩
            exact ⟨hy, hy, hall⟩
          · rintro ⟨hx, hy, hall⟩
            exact ⟨hy.trans hx.symm, hy, hall⟩

inductive VectorOp (α : Type) where
  | add (item : Option α)
  | delete (index : Int)

/-- what the operation is for -/
def listStep : VectorOp α → List (Option α) → List (Option α)
  | .add item, list => list ++ [item]
  | .delete index, list => if index < 0 then list else list.eraseIdx index.toNat

structure VectorRun (α : Type) where
  vector : Libp2pVector α
  list : List (Option α) := []

def VectorOp.call : VectorOp α → Libp2pVector α → Exec (Libp2pVector α)
  | .add item, v => v.add item
  | .delete index, v => v.delete index

def vectorStep (op : VectorOp α) (s : VectorRun α) : Exec (VectorRun α) := do
  let vector ← op.call s.vector
  .ok { vector := vector, list := listStep op s.list }

/-- the items are found at their places, in slots that are allocated; none is null that was not
added so -/
structure Refines (s : VectorRun α) : Prop where
  total : s.vector.total = s.list.length
  get : ∀ i : Nat, i < s.vector.total → s.vector.get i = .ok (s.list[i]?).join
  noHoles : none ∉ s.list → ∀ i : Nat, i < s.vector.total → s.vector.get i ≠ .ok none
  room : s.vector.total ≤ s.vector.items.length ∧ s.vector.items.length = s.vector.capacity

/-- nothing is added to a full vector of 2^30 slots or more, and a deletion finds nothing but nulls
in front of the item it names -/
def Deletable (op : VectorOp α) (s : VectorRun α) : Prop :=
  match op with
  | .add _ => s.vector.capacity = s.vector.total → s.vector.capacity < 2 ^ 30
  | .delete index => 0 ≤ index → index < s.vector.total → ∀ x ∈ s.vector.slots.take index.toNat, x = none

variable {s s' : VectorRun α} {op : VectorOp α}

theorem Libp2pVector.WellFormed.get_eq (h : v.WellFormed) {i : Nat} (hi : i < v.total) :
    v.get i = .ok (v.slots[i]?).join := by
  have hlen : i < v.items.length := by
    have := h.room
    have := h.allocated
    omega
  have hin : (0 : Int) ≤ i ∧ (i : Int) < v.total := by omega
  unfold Libp2pVector.get
  rw [if_pos hin, Int.toNat_natCast, require_pos hlen, ok_bind, Libp2pVector.slots,
    List.getElem?_take_of_lt hi]
  rfl

/-- a vector is a list iff its slots in use are -/
theorem Libp2pVector.WellFormed.refines_iff (h : s.vector.WellFormed) :
    Refines s ↔ s.vector.slots = s.list := by
  have hlen := h.slots_length
  constructor
  · intro hr
    apply List.ext_getElem?
    intro i
    by_cases hi : i < s.vector.total
    · have hget := (h.get_eq hi).symm.trans (hr.get i hi)
      have hl : i < s.list.length := hr.total ▸ hi
      rw [List.getElem?_eq_getElem (hlen.symm ▸ hi), List.getElem?_eq_getElem hl] at hget ⊢
      exact congrArg some (Except.ok.inj hget)
    · rw [List.getElem?_eq_none (by omega), List.getElem?_eq_none (by rw [← hr.total]; omega)]
  · intro hs
    have htotal : s.vector.total = s.list.length := by rw [← hs, hlen]
    have hget : ∀ i : Nat, i < s.vector.total → s.vector.get i = .ok (s.list[i]?).join :=
      fun i hi => hs ▸ h.get_eq hi
    refine { total := htotal, get := hget, noHoles := fun hnone i hi hnull => ?_,
             room := ⟨h.allocated ▸ h.room, h.allocated⟩ }
    have hl : i < s.list.length := htotal ▸ hi
    rw [hget i hi, List.getElem?_eq_getElem hl] at hnull
    have hmem : s.list[i] = none := Except.ok.inj hnull
    exact hnone (hmem ▸ List.getElem_mem hl)

/-- **what a deletion leaves** in a vector that is a list -/
theorem delete_keeps (h : s.vector.WellFormed) (hr : s.vector.slots = s.list) (index : Int) :
    ∃ v, s.vector.delete index = .ok v ∧ v.WellFormed ∧
      (v.slots = listStep (.delete index) s.list ↔ Deletable (.delete index) s) := by
  by_cases hout : index < 0 ∨ (s.vector.total : Int) ≤ index
  · refine ⟨s.vector, Libp2pVector.delete_out hout, h, ?_⟩
    have hlist : listStep (.delete index) s.list = s.list := by
      show (if index < 0 then s.list else s.list.eraseIdx index.toNat) = s.list
      split
      · rfl
      · have hlen := h.slots_length
        rw [hr] at hlen
        exact List.eraseIdx_of_length_le (by omega)
    rw [hlist]
    exact ⟨fun _ h0 hlt => absurd hout (by omega), fun _ => hr⟩
  · obtain ⟨i, rfl⟩ : ∃ i : Nat, index = i := ⟨index.toNat, by omega⟩
    have hlt : i < s.vector.total := by omega
    obtain ⟨v, hv, hw, hslots⟩ := h.delete i hlt
    refine ⟨v, hv, hw, ?_⟩
    have hlen : i < s.vector.slots.length := h.slots_length.symm ▸ hlt
    have hlist : listStep (.delete (i : Int)) s.list = s.vector.slots.eraseIdx i := by
      show (if (i : Int) < 0 then s.list else s.list.eraseIdx (i : Int).toNat) = _
      rw [if_neg (by omega), Int.toNat_natCast, hr]
    rw [hslots, utilsVectorDelete_eq hlen, hlist, tail_set_eq_eraseIdx hlen]
    exact ⟨fun hall _ _ => hall, fun hall => hall (by omega) (by omega)⟩

/-- **one call** -/
theorem vectorStep_keeps (h : s.vector.WellFormed) (hr : s.vector.slots = s.list) :
    Deletable op s ↔
      ∃ s', vectorStep op s = .ok s' ∧ s'.vector.WellFormed ∧ s'.vector.slots = s'.list := by
  cases op with
  | add item =>
    constructor
    · intro hfull
      obtain ⟨v, hv, hw, hslots⟩ := h.add item hfull
      refine ⟨{ vector := v, list := s.list ++ [item] }, ?_, hw, ?_⟩
      · show (s.vector.add item >>= _) = _
        rw [hv]
        rfl
      · exact hslots.trans (congrArg (· ++ [item]) hr)
    · rintro ⟨s', hs', -⟩ hc
      obtain ⟨v, hv, -⟩ := bind_eq_ok.1 hs'
      by_contra hlarge
      have herror : s.vector.add item = .error .overflow :=
        Libp2pVector.add_full hc (by omega)
      cases herror.symm.trans hv
  | delete index =>
    obtain ⟨v, hv, hw, hiff⟩ := delete_keeps h hr index
    have hstep : vectorStep (.delete index) s =
        .ok { vector := v, list := listStep (.delete index) s.list } := by
      show (s.vector.delete index >>= _) = _
      rw [hv]
      rfl
    rw [hstep, ← hiff]
    constructor
    · intro hslots
      exact ⟨_, rfl, hw, hslots⟩
    · rintro ⟨s', hs', -, hslots⟩
      cases hs'
      exact hslots

theorem wellFormed_of_vectorStep (h : s.vector.WellFormed) (hstep : vectorStep op s = .ok s') :
    s'.vector.WellFormed := by
  obtain ⟨v, hv, hs'⟩ := bind_eq_ok.1 hstep
  cases hs'
  cases op with
  | add item => exact (h.add_ok hv).1
  | delete index =>
    by_cases hout : index < 0 ∨ (s.vector.total : Int) ≤ index
    · cases (Libp2pVector.delete_out hout).symm.trans hv
      exact h
    · obtain ⟨i, rfl⟩ : ∃ i : Nat, index = i := ⟨index.toNat, by omega⟩
      obtain ⟨w, hw, hgood, -⟩ := h.delete i (by omega)
      cases hw.symm.trans hv
      exact hgood

end

/-- **a vector is the list** of its items along a run iff no deletion names what is behind an item,
and nothing is added to a full vector of 2^30 slots or more -/
theorem vector_iff {α : Type} (initialSize : Nat) (hpos : 1 ≤ initialSize)
    (hint : initialSize < 2 ^ 31) (ops : List (VectorOp α)) :
    HoldsAlong vectorStep Refines ops { vector := Libp2pVector.new α initialSize } ↔
      Guarded vectorStep Deletable ops { vector := Libp2pVector.new α initialSize } := by
  have hnew := Libp2pVector.WellFormed.new (α := α) hpos hint
  have hslots : (Libp2pVector.new α initialSize).slots = [] := List.take_zero
  rw [← holdsAlong_iff_of_step
    (I := fun s : VectorRun α => s.vector.WellFormed ∧ s.vector.slots = s.list)
    (fun op s hs => vectorStep_keeps hs.1 hs.2) ⟨hnew, hslots⟩]
  constructor
  · intro h
    have hboth := h.and_of_step (fun op s s' hw hstep => wellFormed_of_vectorStep hw hstep) hnew
    exact hboth.mono fun s hs => ⟨hs.1, hs.1.refines_iff.1 hs.2⟩
  · intro h
    exact h.mono fun s hs => hs.1.refines_iff.2 hs.2

/-- one slot, grown for two more items, and one of them taken out at the front -/
theorem vector_iff_threeItems : HoldsAlong vectorStep Refines
    [.add (some 1), .add (some 2), .add (some 3), .delete 0]
    { vector := Libp2pVector.new Nat 1 } := by
  refine (vector_iff 1 (by norm_num) (by norm_num) _).2 ?_
  refine ⟨?_, fun s1 h1 => ?_⟩
  · intro _
    decide
  cases h1
  refine ⟨?_, fun s2 h2 => ?_⟩
  · intro _
    decide
  cases h2
  refine ⟨?_, fun s3 h3 => ?_⟩
  · intro _
    decide
  cases h3
  refine ⟨?_, fun s4 h4 => trivial⟩
  intro _ _ x hx
  cases hx

/-- two items, and the second one taken out: the first is lost, and a null is left -/
theorem not_vector : ¬ ∀ (initialSize : Nat) (ops : List (VectorOp Nat)), 1 ≤ initialSize →
    initialSize < 2 ^ 31 →
      HoldsAlong vectorStep Refines ops { vector := Libp2pVector.new Nat initialSize } := by
  intro h
  obtain ⟨s, hrun, hs⟩ :=
    (h 2 [.add (some 1), .add (some 2), .delete 1] (by norm_num) (by norm_num)).last
  cases hrun
  have hget := hs.get 0 (by decide)
  cases hget

end Libp2p
