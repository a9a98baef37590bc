import Libipfs.Blocks.Cid
import Libipfs.Lib.Linked
import Libipfs.Lib.Run
import Mathlib.Data.Finset.Card

/-!
# Sets of CIDs

A `struct CidSet` is a list of CIDs whose first node is the set itself: it is never freed, and has a
null CID while the set is empty.  A CID belongs to the node that points to it.

* `cidSetAdd`, `cidSetHas`, `cidSetRemove`, `cidSetLen`, `cidSetKeys`   the functions;
* `hashesOf`           the hashes in the nodes;
* `CidSetLaw`          the set is a finite set of hashes, and no freed node can be reached;
* `CidSetRun.Good`     the nodes have CIDs of different hashes, or there is only the empty one;
* `cidSet_iff`         **the law holds along a run** iff the first of several members is never
                       removed, the keys are asked for of an empty set only, and there are never
                       2^31 members.
-/

namespace Ipfs
open CSem

abbrev CidSetHeap : Type := Heap (Cell (Option Cid))

/-! ## the functions -/

/-- the lengths and then the bytes -/
def sameHash (cid : Cid) (current : Option Cid) : Exec Bool := do
  let other ← deref current
  .ok (decide (other.hash = cid.hash))

/-- the walk of the three functions that look for a hash -/
def cidSetFind (h : CidSetHeap) (set : Nat) (cid : Cid) : Exec (Option Nat × Option Nat) :=
  findWithPrevious h (fun _ current => sameHash cid current) h.fresh none (some set)

/-- a member that is there already is replaced unless it is only visited -/
def cidSetAdd (h : CidSetHeap) (set : Nat) (cid : Cid) (visit : Bool) : Exec CidSetHeap := do
  let first ← h.get set
  if first.current.isNone then .ok (h.set set { first with current := some cid })
  else
    match ← cidSetFind h set cid with
    | (_, some i) => do
      let c ← h.get i
      if visit then .ok h else .ok (h.set i { c with current := some cid })
    | (some last, none) => do
      let c ← h.get last
      .ok ((h.alloc { current := some cid, next := none }).set last
        { c with next := some h.fresh })
    | (none, none) => .ok h

def cidSetHas (h : CidSetHeap) (set : Nat) (cid : Cid) : Exec Bool := do
  let first ← h.get set
  if first.current.isNone then .ok false
  else do
    let found ← cidSetFind h set cid
    .ok found.2.isSome

/-- the first node takes over the CID of the second, which is freed; it stays linked to it -/
def cidSetRemove (h : CidSetHeap) (set : Nat) (cid : Cid) : Exec (Bool × CidSetHeap) := do
  let first ← h.get set
  if first.current.isNone then .ok (false, h)
  else
    match ← cidSetFind h set cid with
    | (_, none) => .ok (false, h)
    | (none, some i) => do
      let c ← h.get i
      match c.next with
      | none => .ok (true, h.set i { c with current := none })
      | some next => do
        let n ← h.get next
        .ok (true, (h.set i { c with current := n.current }).free next)
    | (some previous, some i) => do
      let p ← h.get previous
      let c ← h.get i
      .ok (true, (h.set previous { p with next := c.next }).free i)

/-- the nodes are counted by an `int` -/
def countCells (h : CidSetHeap) : Nat → Option Nat → Nat → Exec Nat
  | _, none, len => .ok len
  | 0, some _, _ => .error .diverges
  | k + 1, some i, len => do
    let c ← h.get i
    require .overflow (len + 1 < 2 ^ 31)
    countCells h k c.next (len + 1)

def cidSetLen (h : CidSetHeap) (set : Nat) : Exec Nat := do
  let first ← h.get set
  if first.current.isNone then .ok 0 else countCells h h.fresh (some set) 0

/-- every pass increases the length and not the index -/
def keysLoop (h : CidSetHeap) : Nat → Option Nat → Nat → List (Option (List UInt8)) →
    Exec (List (Option (List UInt8)))
  | 0, _, _, _ => .error .diverges
  | k + 1, set, len, ret =>
    if 0 < len then do
      let i ← deref set
      let c ← h.get i
      let ret :=
        match c.current with
        | none => ret
        | some cid => ret.set 0 (some (cid.hash ++ [0]))
      require .overflow (len + 1 < 2 ^ 31)
      keysLoop h k c.next (len + 1) ret
    else .ok ret

def cidSetKeys (h : CidSetHeap) (set : Nat) : Exec (List (Option (List UInt8))) := do
  let len ← cidSetLen h set
  require .overflow (len + 1 < 2 ^ 31)
  keysLoop h (h.fresh + 1) (some set) len (List.replicate (len + 1) none)

/-! ## the nodes -/

def hashesOf (cells : List (Nat × Option Cid)) : List (List UInt8) :=
  cells.filterMap fun c => c.2.map Cid.hash

/-- the set has no CID, or every node has one -/
def Filled (cells : List (Nat × Option Cid)) : Prop :=
  (∃ i, cells = [(i, none)]) ∨ ∀ c ∈ cells, c.2 ≠ none

section
variable {h h' : CidSetHeap} {set i : Nat} {cid old : Cid} {cells pre post : List (Nat × Option Cid)}

theorem hashesOf_append : hashesOf (pre ++ post) = hashesOf pre ++ hashesOf post :=
  List.filterMap_append

theorem hashesOf_cons : hashesOf ((i, some cid) :: cells) = cid.hash :: hashesOf cells := rfl

@[simp] theorem hashesOf_none : hashesOf [(i, none)] = [] := rfl

theorem hashesOf_length (hsome : ∀ c ∈ cells, c.2 ≠ none) :
    (hashesOf cells).length = cells.length := by
  induction cells with
  | nil => rfl
  | cons c cells ih =>
    obtain ⟨i, current⟩ := c
    cases current with
    | none => exact absurd rfl (hsome (i, none) List.mem_cons_self)
    | some cid =>
      rw [hashesOf_cons, List.length_cons, List.length_cons,
        ih fun c hc => hsome c (List.mem_cons_of_mem _ hc)]

/-- **the walk** gets to the node of the hash, if there is one -/
theorem cidSetFind_cases (hl : Linked h (some set) cells) (hsome : ∀ c ∈ cells, c.2 ≠ none)
    (cid : Cid) :
    (cid.hash ∉ hashesOf cells ∧ cidSetFind h set cid = .ok (lastOf none cells, none)) ∨
      ∃ pre i old post, cells = pre ++ (i, some old) :: post ∧ old.hash = cid.hash ∧
        cid.hash ∉ hashesOf pre ∧ cidSetFind h set cid = .ok (lastOf none pre, some i) := by
  have hf : ∀ c ∈ cells, sameHash cid c.2 = .ok (decide (c.2.map Cid.hash = some cid.hash)) := by
    rintro ⟨i, current⟩ hc
    cases current with
    | none => exact absurd rfl (hsome _ hc)
    | some old => simp [sameHash]
  have hnot : ∀ {cells : List (Nat × Option Cid)},
      (∀ c ∈ cells, decide (c.2.map Cid.hash = some cid.hash) = false) →
        cid.hash ∉ hashesOf cells := by
    intro cells hall hmem
    obtain ⟨c, hc, hhash⟩ := List.mem_filterMap.1 hmem
    exact of_decide_eq_false (hall c hc) hhash
  have hfinds := hl.findWithPrevious_cases (f := fun _ current => sameHash cid current)
    (g := fun c => decide (c.2.map Cid.hash = some cid.hash)) hf none
  rcases hfinds with
    ⟨hnone, hwalk⟩ | ⟨pre, i, current, post, rfl, hpre, hm, hwalk⟩
  · exact .inl ⟨hnot hnone, hwalk⟩
  · obtain ⟨old, rfl, hhash⟩ := Option.map_eq_some_iff.1 (of_decide_eq_true hm)
    exact .inr ⟨pre, i, old, post, rfl, hhash, hnot hpre, hwalk⟩

/-- the set itself is the first node -/
theorem get_set {current : Option Cid} (hl : Linked h (some set) ((i, current) :: cells)) :
    i = set ∧ ∃ next, h.get set = .ok { current := current, next := next } ∧
      Linked h next cells := by
  obtain ⟨hi, next, hc, hcells⟩ := hl.cons
  obtain rfl := Option.some.inj hi
  exact ⟨rfl, next, Heap.get_eq_ok.2 hc, hcells⟩

/-- the empty set, or one whose first node has a CID -/
theorem filled_cases (hl : Linked h (some set) cells) (hfilled : Filled cells) :
    (cells = [(set, none)] ∧ ∃ next, h.get set = .ok { current := none, next := next }) ∨
      (∀ c ∈ cells, c.2 ≠ none) ∧ ∃ first next,
        h.get set = .ok { current := some first, next := next } := by
  rcases hfilled with ⟨i, rfl⟩ | hsome
  · obtain ⟨rfl, next, hget, -⟩ := get_set hl
    exact .inl ⟨rfl, next, hget⟩
  · refine .inr ⟨hsome, ?_⟩
    cases cells with
    | nil => cases hl
    | cons c cells =>
      obtain ⟨i, current⟩ := c
      obtain ⟨rfl, next, hget, -⟩ := get_set hl
      cases current with
      | none => exact absurd rfl (hsome (i, none) List.mem_cons_self)
      | some first => exact ⟨first, next, hget⟩

/-! ## each of the functions -/

theorem cidSetHas_eq (hl : Linked h (some set) cells) (hfilled : Filled cells) (cid : Cid) :
    cidSetHas h set cid = .ok (decide (cid.hash ∈ hashesOf cells)) := by
  unfold cidSetHas
  rcases filled_cases hl hfilled with ⟨rfl, next, hget⟩ | ⟨hsome, first, next, hget⟩
  · rw [hget]
    simp
  · rw [hget, ok_bind]
    rcases cidSetFind_cases hl hsome cid with
      ⟨hnot, hwalk⟩ | ⟨pre, i, old, post, rfl, hhash, hnot, hwalk⟩
    · rw [hwalk, decide_eq_false hnot]
      rfl
    · have hmem : cid.hash ∈ hashesOf (pre ++ (i, some old) :: post) := by
        rw [hashesOf_append, hashesOf_cons, hhash]
        simp
      rw [hwalk, decide_eq_true hmem]
      rfl

/-- **an addition** -/
theorem cidSetAdd_eq (hl : Linked h (some set) cells) (hfilled : Filled cells) (cid : Cid)
    (visit : Bool) : ∃ h' cells', cidSetAdd h set cid visit = .ok h' ∧
      Linked h' (some set) cells' ∧ Filled cells' ∧ hashesOf cells' =
        if cid.hash ∈ hashesOf cells then hashesOf cells else hashesOf cells ++ [cid.hash] := by
  unfold cidSetAdd
  rcases filled_cases hl hfilled with ⟨rfl, next, hget⟩ | ⟨hsome, first, next, hget⟩
  · -- the first item
    have hl' : Linked h (some set) ([] ++ (set, none) :: []) := hl
    rw [hget, ok_bind]
    refine ⟨_, _, rfl, hl'.set (Heap.get_eq_ok.1 hget), .inr fun c hc => ?_, rfl⟩
    rw [List.mem_singleton.1 hc]
    exact Option.some_ne_none cid
  · rw [hget, ok_bind, if_neg (by simp)]
    rcases cidSetFind_cases hl hsome cid with
      ⟨hnot, hwalk⟩ | ⟨pre, i, old, post, rfl, hhash, hnot, hwalk⟩
    · rw [if_neg hnot]
      rcases List.eq_nil_or_concat cells with rfl | ⟨pre, ⟨last, current⟩, rfl⟩
      · cases hl
      rw [List.concat_eq_append] at hl hsome hwalk ⊢
      have hlast := Heap.get_eq_ok.2 (Segment.last hl)
      refine ⟨_, _, ?_, hl.snoc (some cid), .inr fun c hc => ?_, ?_⟩
      · rw [hwalk, ok_bind, lastOf_concat]
        dsimp only
        rw [hlast]
        rfl
      · rcases List.mem_append.1 hc with hc | hc
        · exact hsome c hc
        · rw [List.mem_singleton.1 hc]
          exact Option.some_ne_none cid
      · exact hashesOf_append
    · -- already added
      have hmem : cid.hash ∈ hashesOf (pre ++ (i, some old) :: post) := by
        rw [hashesOf_append, hashesOf_cons, hhash]
        simp
      obtain ⟨-, next', hc, -⟩ := hl.split
      rw [if_pos hmem, hwalk, ok_bind]
      dsimp only
      rw [Heap.get_eq_ok.2 hc, ok_bind]
      cases visit with
      | true => exact ⟨h, _, rfl, hl, .inr hsome, rfl⟩
      | false =>
        refine ⟨_, _, rfl, hl.set hc, .inr fun c hcm => ?_, ?_⟩
        · rcases List.mem_append.1 hcm with hcm | hcm
          · exact hsome c (List.mem_append_left _ hcm)
          · rcases List.mem_cons.1 hcm with rfl | hcm
            · exact Option.some_ne_none cid
            · exact hsome c (List.mem_append_right _ (List.mem_cons_of_mem _ hcm))
        · rw [hashesOf_append, hashesOf_append, hashesOf_cons, hashesOf_cons, hhash]

/-- **a removal** of what is not the first of several -/
theorem cidSetRemove_eq (hl : Linked h (some set) cells) (hfilled : Filled cells) (cid : Cid)
    (hfirst : (hashesOf cells).head? = some cid.hash → (hashesOf cells).length ≤ 1) :
    ∃ removed h' cells', cidSetRemove h set cid = .ok (removed, h') ∧
      Linked h' (some set) cells' ∧ Filled cells' ∧
        hashesOf cells' = (hashesOf cells).erase cid.hash := by
  unfold cidSetRemove
  rcases filled_cases hl hfilled with ⟨rfl, next, hget⟩ | ⟨hsome, first, next, hget⟩
  · rw [hget]
    exact ⟨_, _, _, rfl, hl, hfilled, rfl⟩
  · rw [hget, ok_bind, if_neg (by simp)]
    rcases cidSetFind_cases hl hsome cid with
      ⟨hnot, hwalk⟩ | ⟨pre, i, old, post, rfl, hhash, hnot, hwalk⟩
    · rw [hwalk, ok_bind, List.erase_of_not_mem hnot]
      exact ⟨_, _, _, rfl, hl, hfilled, rfl⟩
    · obtain ⟨hseg, next', hc, hpost⟩ := hl.split
      have herase : (hashesOf (pre ++ (i, some old) :: post)).erase cid.hash =
          hashesOf pre ++ hashesOf post := by
        rw [hashesOf_append, hashesOf_cons, List.erase_append_right _ hnot, hhash,
          List.erase_cons_head]
      rw [hwalk, ok_bind, herase]
      rcases List.eq_nil_or_concat pre with rfl | ⟨pre, ⟨k, current⟩, rfl⟩
      · -- the only item
        have hpostnil : post = [] := by
          have hhead : (hashesOf ([] ++ (i, some old) :: post)).head? = some cid.hash := by
            rw [List.nil_append, hashesOf_cons, hhash, List.head?_cons]
          have hlen := hfirst hhead
          rw [hashesOf_length hsome, List.nil_append, List.length_cons] at hlen
          exact List.eq_nil_of_length_eq_zero (by omega)
        subst hpostnil
        obtain rfl : next' = none := hpost
        refine ⟨true, h.set i { current := none, next := none }, [(i, none)], ?_, hl.set hc,
          .inl ⟨i, rfl⟩, rfl⟩
        show (h.get i >>= _) = _
        rw [Heap.get_eq_ok.2 hc]
        rfl
      · rw [List.concat_eq_append] at hl hsome ⊢
        rw [List.append_assoc] at hl
        obtain ⟨-, m, hck, -⟩ := hl.split
        refine ⟨true, _, _, ?_, hl.unlink hc, .inr fun c hcm => ?_, ?_⟩
        · rw [lastOf_concat]
          show (h.get k >>= _) = _
          rw [Heap.get_eq_ok.2 hck, ok_bind, Heap.get_eq_ok.2 hc]
          rfl
        · refine hsome c ?_
          rcases List.mem_append.1 hcm with hcm | hcm
          · simp [hcm]
          · rcases List.mem_cons.1 hcm with rfl | hcm
            · simp
            · simp [hcm]
        · have hcons : hashesOf ((k, current) :: post) = hashesOf [(k, current)] ++ hashesOf post :=
            @hashesOf_append [(k, current)] post
          rw [hashesOf_append, hashesOf_append, List.append_assoc, hcons]

/-- **the first of several** leaves a link to a node that is freed -/
theorem cidSetRemove_first (hl : Linked h (some set) cells) (hfilled : Filled cells)
    (hhead : (hashesOf cells).head? = some cid.hash) (hlen : 1 < (hashesOf cells).length) :
    ∃ removed h', cidSetRemove h set cid = .ok (removed, h') ∧ ¬ Intact h' (some set) := by
  unfold cidSetRemove
  rcases filled_cases hl hfilled with ⟨rfl, -⟩ | ⟨hsome, first, hnext, hget⟩
  · exact absurd hlen (by simp)
  · rw [hget, ok_bind, if_neg (by simp)]
    obtain ⟨⟨i, current⟩, rest, rfl⟩ : ∃ c rest, cells = c :: rest := by
      cases cells with
      | nil => cases hl
      | cons c rest => exact ⟨c, rest, rfl⟩
    obtain ⟨rfl, next, hfirst, hrest⟩ := get_set hl
    obtain ⟨⟨j, second⟩, rest, rfl⟩ : ∃ c tail, rest = c :: tail := by
      cases rest with
      | nil =>
        rw [hashesOf_length hsome] at hlen
        exact absurd hlen (by simp)
      | cons c tail => exact ⟨c, tail, rfl⟩
    obtain ⟨rfl, next', hc, -⟩ := hrest.cons
    cases current with
    | none => exact absurd rfl (hsome (i, none) List.mem_cons_self)
    | some old =>
      have hhash : old.hash = cid.hash := Option.some.inj hhead
      have hwalk : cidSetFind h i cid = .ok (none, some i) := by
        have hl' : Linked h (some i) ([] ++ (i, some old) :: (j, second) :: rest) := hl
        refine hl'.findWithPrevious_some (fun c hc => by cases hc) ?_
        simp [sameHash, hhash]
      refine ⟨true, (h.set i { current := second, next := some j }).free j, ?_, fun hintact => ?_⟩
      · rw [hwalk, ok_bind]
        dsimp only
        rw [hfirst, ok_bind]
        dsimp only
        rw [Heap.get_eq_ok.2 hc]
        rfl
      · have hij : i ≠ j := by
          have hd := hl.nodup
          rw [List.map_cons, List.map_cons] at hd
          intro e
          exact (List.nodup_cons.1 hd).1 (by rw [e]; exact List.mem_cons_self)
        have hcell : ((h.set i { current := second, next := some j }).free j).cells i =
            some { current := second, next := some j } := by
          rw [Heap.free_cells_ne hij, Heap.set_cells_self]
          rw [Heap.get_eq_ok.1 hfirst]
          rfl
        have halive := hintact j (.next hcell (.here j))
        rw [Heap.free_cells_self] at halive
        cases halive

theorem countCells_eq {k : Nat} {p : Option Nat} (hl : Linked h p cells) (hk : cells.length ≤ k)
    {len n : Nat} : countCells h k p len = .ok n ↔
      n = len + cells.length ∧ (cells = [] ∨ len + cells.length < 2 ^ 31) := by
  induction cells generalizing p k len with
  | nil =>
    obtain rfl : p = none := hl
    have hnone : countCells h k none len = .ok len := by cases k <;> rfl
    rw [hnone]
    simp [eq_comm]
  | cons c cells ih =>
    obtain ⟨i, current⟩ := c
    obtain ⟨rfl, next, hc, hl⟩ := hl.cons
    rw [List.length_cons] at hk
    obtain ⟨k, rfl⟩ : ∃ m, k = m + 1 := ⟨k - 1, by omega⟩
    rw [countCells, Heap.get_eq_ok.2 hc, ok_bind, require_bind_eq_ok, ih hl (by omega),
      List.length_cons]
    constructor
    · rintro ⟨hlt, rfl, hroom⟩
      refine ⟨by omega, .inr ?_⟩
      rcases hroom with rfl | hroom
      · exact hlt
      · omega
    · rintro ⟨rfl, hroom⟩
      have hlt : len + (cells.length + 1) < 2 ^ 31 := hroom.resolve_left (List.cons_ne_nil _ _)
      exact ⟨by omega, by omega, .inr (by omega)⟩

/-- **the length** is that of the set, as long as it is an `int` -/
theorem cidSetLen_eq (hl : Linked h (some set) cells) (hfilled : Filled cells) {n : Nat} :
    cidSetLen h set = .ok n ↔ n = (hashesOf cells).length ∧ n < 2 ^ 31 := by
  unfold cidSetLen
  rcases filled_cases hl hfilled with ⟨rfl, next, hget⟩ | ⟨hsome, first, next, hget⟩
  · rw [hget]
    show Except.ok 0 = Except.ok n ↔ n = 0 ∧ n < 2 ^ 31
    rw [Except.ok.injEq]
    omega
  · have hne : cells ≠ [] := by
      rintro rfl
      cases hl
    rw [hget, ok_bind, if_neg (by simp), countCells_eq hl hl.length_le, hashesOf_length hsome,
      Nat.zero_add, or_iff_right hne]
    constructor
    · rintro ⟨rfl, hlt⟩
      exact ⟨rfl, hlt⟩
    · rintro ⟨rfl, hlt⟩
      exact ⟨rfl, hlt⟩

/-- the loop goes on until it follows the null pointer at the end -/
theorem keysLoop_ne_ok {p : Option Nat} {k len : Nat} {ret out : List (Option (List UInt8))}
    (hl : Linked h p cells) (hlen : 0 < len) : keysLoop h k p len ret ≠ .ok out := by
  induction cells generalizing p k len ret with
  | nil =>
    obtain rfl : p = none := hl
    cases k with
    | zero => simp [keysLoop]
    | succ k =>
      rw [keysLoop, if_pos hlen]
      simp
  | cons c cells ih =>
    obtain ⟨i, current⟩ := c
    obtain ⟨rfl, next, hc, hl⟩ := hl.cons
    cases k with
    | zero => simp [keysLoop]
    | succ k =>
      rw [keysLoop, if_pos hlen, deref_some, ok_bind, Heap.get_eq_ok.2 hc, ok_bind]
      intro hok
      obtain ⟨-, hok⟩ := require_bind_eq_ok.1 hok
      exact ih hl (Nat.succ_pos len) hok

/-- **the keys** of the empty set are none, those of any other are not returned -/
theorem cidSetKeys_eq (hl : Linked h (some set) cells) (hfilled : Filled cells)
    {ret : List (Option (List UInt8))} :
    cidSetKeys h set = .ok ret ↔ hashesOf cells = [] ∧ ret = [none] := by
  unfold cidSetKeys
  constructor
  · intro hok
    obtain ⟨len, hlen, hok⟩ := bind_eq_ok.1 hok
    obtain ⟨-, hok⟩ := require_bind_eq_ok.1 hok
    obtain ⟨rfl, -⟩ := (cidSetLen_eq hl hfilled).1 hlen
    rcases Nat.eq_zero_or_pos (hashesOf cells).length with h0 | hpos
    · rw [h0] at hok
      cases hok
      exact ⟨List.eq_nil_of_length_eq_zero h0, rfl⟩
    · exact absurd hok (keysLoop_ne_ok hl hpos)
  · rintro ⟨hnil, rfl⟩
    have hlen : cidSetLen h set = .ok 0 :=
      (cidSetLen_eq hl hfilled).2 ⟨by rw [hnil]; rfl, by norm_num⟩
    rw [hlen]
    rfl

end

/-! ## runs -/

/-- a set, the hashes that were added and not removed since, and the array of the last call of
`ipfs_cid_set_keys` when nothing has changed since -/
structure CidSetRun where
  heap : CidSetHeap
  set : Nat
  members : Finset (List UInt8) := ∅
  listed : Option (List (Option (List UInt8))) := none

/-- `ipfs_cid_set_new` -/
def CidSetRun.new : CidSetRun where
  heap := Heap.empty.alloc { current := none, next := none }
  set := 0

inductive CidSetOp where
  | add (cid : Cid) (visit : Bool)
  | remove (cid : Cid)
  | keys

def cidSetStep (op : CidSetOp) (s : CidSetRun) : Exec CidSetRun :=
  match op with
  | .add cid visit => do
    let heap ← cidSetAdd s.heap s.set cid visit
    .ok { s with heap := heap, members := insert cid.hash s.members, listed := none }
  | .remove cid => do
    let (_, heap) ← cidSetRemove s.heap s.set cid
    .ok { s with heap := heap, members := s.members.erase cid.hash, listed := none }
  | .keys => do
    let ret ← cidSetKeys s.heap s.set
    .ok { s with listed := some ret }

/-- each member once, a zero byte behind it, and null at the end -/
def Lists (members : Finset (List UInt8)) (ret : List (Option (List UInt8))) : Prop :=
  ∃ hashes : List (List UInt8), hashes.Nodup ∧ hashes.toFinset = members ∧
    ret = hashes.map (fun hash => some (hash ++ [0])) ++ [none]

/-- the set is that of its members -/
structure CidSetLaw (s : CidSetRun) : Prop where
  has : ∀ cid, cidSetHas s.heap s.set cid = .ok (decide (cid.hash ∈ s.members))
  once : ∀ cells, Linked s.heap (some s.set) cells → (hashesOf cells).Nodup
  len : cidSetLen s.heap s.set = .ok s.members.card
  keys : ∀ ret, s.listed = some ret → Lists s.members ret
  intact : Intact s.heap (some s.set)

/-- the CID of the set itself -/
def CidSetRun.first (s : CidSetRun) : Option Cid := (s.heap.cells s.set).bind Cell.current

/-- the first of several members is not removed, the keys are asked for of an empty set, and there
are no 2^31 members -/
def CidSetAllowed (op : CidSetOp) (s : CidSetRun) : Prop :=
  match op with
  | .add cid _ => cid.hash ∈ s.members ∨ s.members.card + 1 < 2 ^ 31
  | .remove cid => s.first.map Cid.hash = some cid.hash → s.members.card ≤ 1
  | .keys => s.members = ∅

structure CidSetRun.Good (s : CidSetRun) (cells : List (Nat × Option Cid)) : Prop where
  linked : Linked s.heap (some s.set) cells
  filled : Filled cells
  nodup : (hashesOf cells).Nodup
  members : s.members = (hashesOf cells).toFinset
  int : s.members.card < 2 ^ 31
  listed : ∀ ret, s.listed = some ret → Lists s.members ret

section
variable {s s' : CidSetRun} {cells : List (Nat × Option Cid)} {cid : Cid} {op : CidSetOp}

theorem CidSetRun.Good.card (h : s.Good cells) : s.members.card = (hashesOf cells).length := by
  rw [h.members, List.toFinset_card_of_nodup h.nodup]

theorem CidSetRun.Good.mem_iff (h : s.Good cells) {hash : List UInt8} :
    hash ∈ s.members ↔ hash ∈ hashesOf cells := by
  rw [h.members, List.mem_toFinset]

theorem CidSetRun.Good.first_eq (h : s.Good cells) :
    s.first.map Cid.hash = (hashesOf cells).head? := by
  unfold CidSetRun.first
  rcases filled_cases h.linked h.filled with ⟨rfl, next, hget⟩ | ⟨hsome, first, next, hget⟩
  · rw [Heap.get_eq_ok.1 hget]
    rfl
  · have hl := h.linked
    cases cells with
    | nil => cases hl
    | cons c cells =>
      obtain ⟨i, current⟩ := c
      obtain ⟨rfl, next', hget', -⟩ := get_set hl
      cases hget.symm.trans hget'
      rw [Heap.get_eq_ok.1 hget]
      rfl

theorem CidSetRun.Good.new : CidSetRun.new.Good [(0, none)] where
  linked := ⟨rfl, none, rfl, rfl⟩
  filled := .inl ⟨0, rfl⟩
  nodup := List.nodup_nil
  members := rfl
  int := by decide
  listed := fun ret h => by cases h

theorem CidSetRun.Good.law (h : s.Good cells) : CidSetLaw s where
  has cid := by
    rw [cidSetHas_eq h.linked h.filled]
    exact congrArg Except.ok (decide_eq_decide.2 h.mem_iff.symm)
  once cells' hl := by
    rw [hl.unique h.linked]
    exact h.nodup
  len := (cidSetLen_eq h.linked h.filled).2 ⟨h.card, h.int⟩
  keys := h.listed
  intact := h.linked.intact

theorem CidSetRun.Good.add {visit : Bool} (h : s.Good cells)
    (hallowed : CidSetAllowed (.add cid visit) s) :
    ∃ s', cidSetStep (.add cid visit) s = .ok s' ∧ ∃ cells', s'.Good cells' := by
  obtain ⟨h', cells', hadd, hl, hfilled, hhashes⟩ := cidSetAdd_eq h.linked h.filled cid visit
  refine ⟨{ s with heap := h', members := insert cid.hash s.members, listed := none }, ?_,
    cells', ?_⟩
  · show (cidSetAdd s.heap s.set cid visit >>= _) = _
    rw [hadd]
    rfl
  · by_cases hmem : cid.hash ∈ hashesOf cells
    · rw [if_pos hmem] at hhashes
      have hmembers : insert cid.hash s.members = s.members :=
        Finset.insert_eq_of_mem (h.mem_iff.2 hmem)
      refine { linked := hl, filled := hfilled, nodup := hhashes ▸ h.nodup, members := ?_,
               int := ?_, listed := fun ret e => by cases e }
      · show insert cid.hash s.members = _
        rw [hmembers, hhashes, h.members]
      · show (insert cid.hash s.members).card < 2 ^ 31
        rw [hmembers]
        exact h.int
    · rw [if_neg hmem] at hhashes
      have hnew : cid.hash ∉ s.members := fun hm => hmem (h.mem_iff.1 hm)
      have hroom : s.members.card + 1 < 2 ^ 31 := hallowed.resolve_left hnew
      refine { linked := hl, filled := hfilled, nodup := ?_, members := ?_, int := ?_,
               listed := fun ret e => by cases e }
      · rw [hhashes, ← List.concat_eq_append]
        exact h.nodup.concat hmem
      · show insert cid.hash s.members = _
        rw [hhashes, h.members, List.toFinset_append]
        ext hash
        simp
      · show (insert cid.hash s.members).card < 2 ^ 31
        rw [Finset.card_insert_of_notMem hnew]
        exact hroom

theorem CidSetRun.Good.remove (h : s.Good cells) (hallowed : CidSetAllowed (.remove cid) s) :
    ∃ s', cidSetStep (.remove cid) s = .ok s' ∧ ∃ cells', s'.Good cells' := by
  have hfirst : (hashesOf cells).head? = some cid.hash → (hashesOf cells).length ≤ 1 := by
    rw [← h.first_eq, ← h.card]
    exact hallowed
  obtain ⟨removed, h', cells', hremove, hl, hfilled, hhashes⟩ :=
    cidSetRemove_eq h.linked h.filled cid hfirst
  refine ⟨{ s with heap := h', members := s.members.erase cid.hash, listed := none }, ?_,
    cells', { linked := hl, filled := hfilled, nodup := ?_, members := ?_, int := ?_,
              listed := fun ret e => by cases e }⟩
  · show (cidSetRemove s.heap s.set cid >>= _) = _
    rw [hremove]
    rfl
  · rw [hhashes]
    exact h.nodup.erase _
  · show s.members.erase cid.hash = _
    rw [hhashes, h.members]
    ext hash
    rw [Finset.mem_erase, List.mem_toFinset, List.mem_toFinset, h.nodup.mem_erase_iff]
  · exact Nat.lt_of_le_of_lt (Finset.card_le_card (Finset.erase_subset _ _)) h.int

theorem CidSetRun.Good.keys (h : s.Good cells) (hallowed : CidSetAllowed .keys s) :
    ∃ s', cidSetStep .keys s = .ok s' ∧ ∃ cells', s'.Good cells' := by
  have hempty : s.members = ∅ := hallowed
  have hnil : hashesOf cells = [] := by
    rw [h.members] at hempty
    exact List.toFinset_eq_empty_iff _ |>.1 hempty
  refine ⟨{ s with listed := some [none] }, ?_, cells,
    { linked := h.linked, filled := h.filled, nodup := h.nodup, members := h.members,
      int := h.int, listed := fun ret e => ?_ }⟩
  · show (cidSetKeys s.heap s.set >>= _) = _
    rw [(cidSetKeys_eq h.linked h.filled).2 ⟨hnil, rfl⟩]
    rfl
  · cases e
    exact ⟨[], List.nodup_nil, hempty.symm, rfl⟩

/-- **an allowed call** -/
theorem CidSetRun.Good.step (h : s.Good cells) (hallowed : CidSetAllowed op s) :
    ∃ s', cidSetStep op s = .ok s' ∧ ∃ cells', s'.Good cells' := by
  cases op with
  | add cid visit => exact h.add hallowed
  | remove cid => exact h.remove hallowed
  | keys => exact h.keys hallowed

/-- **any other call** breaks the law, or does not return -/
theorem CidSetRun.Good.break (h : s.Good cells) (hnot : ¬ CidSetAllowed op s)
    (hstep : cidSetStep op s = .ok s') : ¬ CidSetLaw s' := by
  cases op with
  | add cid visit =>
    obtain ⟨hnew, hfull⟩ := not_or.1 hnot
    have hmem : cid.hash ∉ hashesOf cells := fun hm => hnew (h.mem_iff.2 hm)
    obtain ⟨h', cells', hadd, hl, hfilled, hhashes⟩ := cidSetAdd_eq h.linked h.filled cid visit
    rw [if_neg hmem] at hhashes
    obtain ⟨heap, hheap, hs'⟩ := bind_eq_ok.1 hstep
    cases hadd.symm.trans hheap
    cases hs'
    intro hlaw
    obtain ⟨hcard, hint⟩ := (cidSetLen_eq hl hfilled).1 hlaw.len
    rw [hcard, hhashes, List.length_append, List.length_singleton, ← h.card] at hint
    exact hfull hint
  | remove cid =>
    have hhead : (hashesOf cells).head? = some cid.hash ∧ 1 < (hashesOf cells).length := by
      rw [← h.first_eq, ← h.card]
      have hboth := Classical.not_imp.1 hnot
      exact ⟨hboth.1, Nat.lt_of_not_le hboth.2⟩
    obtain ⟨removed, h', hremove, hfreed⟩ :=
      cidSetRemove_first h.linked h.filled hhead.1 hhead.2
    obtain ⟨r, hr, hs'⟩ := bind_eq_ok.1 hstep
    cases hremove.symm.trans hr
    cases hs'
    exact fun hlaw => hfreed hlaw.intact
  | keys =>
    obtain ⟨ret, hret, -⟩ := bind_eq_ok.1 hstep
    obtain ⟨hnil, -⟩ := (cidSetKeys_eq h.linked h.filled).1 hret
    refine absurd ?_ hnot
    show s.members = ∅
    rw [h.members, hnil]
    rfl

end

theorem cidSet_holdsAlong_iff (ops : List CidSetOp) :
    HoldsAlong cidSetStep CidSetLaw ops CidSetRun.new ↔
      Guarded cidSetStep CidSetAllowed ops CidSetRun.new := by
  apply holdsAlong_iff_guarded (I := fun s => ∃ cells, s.Good cells)
  · rintro s ⟨cells, hs⟩
    exact hs.law
  · rintro op s ⟨cells, hs⟩ hallowed
    exact hs.step hallowed
  · rintro op s s' ⟨cells, hs⟩ hnot hstep
    exact hs.break hnot hstep
  · exact ⟨_, CidSetRun.Good.new⟩

/-- **the law of a set** holds along a run iff the first of several members is never removed, the
keys are asked for of an empty set only, and there are never 2^31 members -/
theorem cidSet_iff (ops : List CidSetOp) :
    HoldsAlong cidSetStep CidSetLaw ops CidSetRun.new ↔
      Guarded cidSetStep CidSetAllowed ops CidSetRun.new := cidSet_holdsAlong_iff ops

/-- two members, and the first one removed: the second is freed, and the set still leads to it -/
theorem not_cidSet : ¬ ∀ ops, HoldsAlong cidSetStep CidSetLaw ops CidSetRun.new := by
  intro h
  have hguarded := (cidSet_holdsAlong_iff [.add { version := 0, codec := 0x70, hash := [1] } false,
    .add { version := 0, codec := 0x70, hash := [2] } false,
    .remove { version := 0, codec := 0x70, hash := [1] }]).1 (h _)
  obtain ⟨-, hguarded⟩ := hguarded
  obtain ⟨-, hguarded⟩ := hguarded _ rfl
  obtain ⟨hremove, -⟩ := hguarded _ rfl
  exact absurd (hremove rfl) (by decide)

end Ipfs
