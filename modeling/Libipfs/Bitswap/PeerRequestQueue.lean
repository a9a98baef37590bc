import Libipfs.Lib.Run
import Libipfs.Lib.Heap
import Libipfs.Bitswap.PeerRequest

/-!
# The queue of peer requests

A doubly linked list of entries, one for each peer.  `peerRequestQueueAdd` does not link the old
last entry forward, `peerRequestQueueRemove` unlinks in one direction only, and
`peerRequestQueuePop` moves the head to the end without cutting it from its successor; only
`peerRequestQueueFindPeer` keeps the list a list.

* `WellFormed`      every entry in use is on the chain from `first` to `last`, once; the lookups
                    come to an end and find every peer; no peer has two entries;
* `peerRequestQueueStep_iff`   the operations that keep it so;
* `wellFormed_iff_allowed`   the runs along which it holds.
-/

namespace Ipfs
open CSem Libp2p

structure PeerRequestQueue where
  heap : Heap (Node PeerRequest)
  first : Option Nat
  last : Option Nat

def peerRequestQueueNew : PeerRequestQueue := ⟨Heap.empty, none, none⟩

/-! ## operations -/

def samePeer (peer : Option Peer) (request : PeerRequest) : Bool :=
  peerCompare request.peer peer == 0

/-- more entries than there are in use are a circle -/
def peerRequestQueueSearch (queue : PeerRequestQueue) (peer : Option Peer) : Exec (Option Nat) :=
  findFrom queue.heap (samePeer peer) queue.heap.fresh queue.first

def peerRequestQueueFindEntry (queue : PeerRequestQueue) (peer : Option Peer) : Exec (Option Nat) :=
  if peer.isSome then peerRequestQueueSearch queue peer else .ok none

def peerRequestQueueAdd (queue : PeerRequestQueue) (request : Option PeerRequest) :
    Bool × PeerRequestQueue :=
  match request with
  | none => (false, queue)
  | some r =>
    let entry := queue.heap.fresh
    (true, {
      heap := queue.heap.alloc { prior := queue.last, current := r, next := none }
      first := if queue.first = none then some entry else queue.first
      last := some entry })

def peerRequestQueueRemove (queue : PeerRequestQueue) (request : Option PeerRequest) :
    Exec (Bool × PeerRequestQueue) :=
  match request with
  | none => .ok (false, queue)
  | some r => do
    match ← peerRequestQueueFindEntry queue r.peer with
    | none => .ok (false, queue)
    | some entry => do
      let n ← queue.heap.get entry
      let prior ← deref n.prior
      let p ← queue.heap.get prior
      .ok (true, { queue with heap := (queue.heap.set prior { p with next := n.next }).free entry })

/-- the entry whose request is handed out -/
def peerRequestQueuePop (peek : Int) (queue : PeerRequestQueue) :
    Exec (Option Nat × PeerRequestQueue) :=
  match queue.first with
  | none => .ok (none, queue)
  | some entry => do
    let n ← queue.heap.get entry
    let (r, request) ← peerRequestSomethingToDo peek n.current
    let heap := queue.heap.set entry { n with current := request }
    if r = 0 then .ok (none, { queue with heap := heap })
    else
      match n.next with
      | none => .ok (some entry, { queue with heap := heap })
      | some next => do
        -- to the end of the queue; `entry->next` keeps its value
        let last ← deref queue.last
        let l ← heap.get last
        .ok (some entry, {
          heap := heap.set last { l with next := some entry }
          first := some next
          last := some entry })

/-- the entry of the peer, appended when there is none -/
def peerRequestQueueFindPeer (queue : PeerRequestQueue) (peer : Option Peer) :
    Exec (Nat × PeerRequestQueue) := do
  match ← peerRequestQueueSearch queue peer with
  | some entry => .ok (entry, queue)
  | none =>
    let entry := queue.heap.fresh
    let request := { peerRequestNew with peer := peer }
    match queue.first with
    | none =>
      .ok (entry, {
        heap := queue.heap.alloc { prior := none, current := request, next := none }
        first := some entry
        last := some entry })
    | some first => do
      let last ← deref queue.last
      let l ← queue.heap.get last
      .ok (entry, {
        heap := (queue.heap.set last { l with next := some entry }).alloc
          { prior := some last, current := request, next := none }
        first := some first
        last := some entry })

/-- what else happens to an entry: the callers fill and empty the lists of its request, and the
peer is connected or loses its connection -/
structure Change where
  cidsTheyWant : List (Option CidEntry)
  cidsWeWant : List (Option CidEntry)
  blocksWeWantToSend : List (Option Block)
  connectionType : UInt32
  hasSession : Bool

def Change.apply (c : Change) (request : PeerRequest) : PeerRequest where
  peer := request.peer.map fun p =>
    { p with connectionType := c.connectionType, hasSession := c.hasSession }
  cidsTheyWant := c.cidsTheyWant
  cidsWeWant := c.cidsWeWant
  blocksWeWantToSend := c.blocksWeWantToSend

def peerRequestQueueChange (queue : PeerRequestQueue) (entry : Nat) (c : Change) :
    Exec PeerRequestQueue := do
  let n ← queue.heap.get entry
  .ok { queue with heap := queue.heap.set entry { n with current := c.apply n.current } }

/-! ## runs -/

inductive QueueOp where
  | findPeer (peer : Option Peer)
  | add (request : Option PeerRequest)
  | pop (peek : Int)
  | remove (request : Option PeerRequest)
  | change (entry : Nat) (c : Change)

def peerRequestQueueStep (op : QueueOp) (queue : PeerRequestQueue) : Exec PeerRequestQueue :=
  match op with
  | .findPeer peer => Prod.snd <$> peerRequestQueueFindPeer queue peer
  | .add request => .ok (peerRequestQueueAdd queue request).2
  | .pop peek => Prod.snd <$> peerRequestQueuePop peek queue
  | .remove request => Prod.snd <$> peerRequestQueueRemove queue request
  | .change entry c => peerRequestQueueChange queue entry c

/-- no two entries are of one peer -/
def OncePerPeer (heap : Heap (Node PeerRequest)) : Prop :=
  ∀ i j n m, heap.cells i = some n → heap.cells j = some m →
    peerCompare n.current.peer m.current.peer = 0 → i = j

structure WellFormed (queue : PeerRequestQueue) : Prop where
  chain : ∃ ids, Chain queue.heap queue.first queue.last ids
  ends : queue.first = none ↔ queue.last = none
  findEntry_safe : ∀ peer, Safe (peerRequestQueueFindEntry queue peer)
  findPeer_safe : ∀ peer, Safe (peerRequestQueueFindPeer queue peer)
  findEntry_finds : ∀ i n, queue.heap.cells i = some n → n.current.peer.isSome →
    peerRequestQueueFindEntry queue n.current.peer = .ok (some i)
  once : OncePerPeer queue.heap

/-! ## lookups in a chain -/

section
variable {queue : PeerRequestQueue} {ids : List Nat} {peer : Option Peer}

theorem peerRequestQueueSearch_eq (hc : Chain queue.heap queue.first queue.last ids) :
    peerRequestQueueSearch queue peer = .ok (ids.find? (matchesAt queue.heap (samePeer peer))) := by
  unfold peerRequestQueueSearch
  rw [hc.first_eq]
  exact hc.seg.findFrom hc.length_le

theorem matchesAt_samePeer {i : Nat} {n : Node PeerRequest} (hn : queue.heap.cells i = some n) :
    matchesAt queue.heap (samePeer peer) i = true ↔ peerCompare n.current.peer peer = 0 := by
  simp [matchesAt, hn, samePeer]

/-- the search finds nothing iff no entry is of the peer -/
theorem peerRequestQueueSearch_eq_none (hc : Chain queue.heap queue.first queue.last ids) :
    peerRequestQueueSearch queue peer = .ok none ↔
      ∀ i n, queue.heap.cells i = some n → peerCompare n.current.peer peer ≠ 0 := by
  rw [peerRequestQueueSearch_eq hc, Except.ok.injEq, List.find?_eq_none]
  refine ⟨fun h i n hn h0 => ?_, fun h i hi hm => ?_⟩
  · exact h i ((hc.live i).2 (by simp [hn])) ((matchesAt_samePeer hn).2 h0)
  · obtain ⟨n, hn⟩ := Option.isSome_iff_exists.1 ((hc.live i).1 hi)
    exact h i n hn ((matchesAt_samePeer hn).1 hm)

/-- what the search finds is an entry of the peer -/
theorem peerRequestQueueSearch_eq_some (hc : Chain queue.heap queue.first queue.last ids) {i : Nat}
    (h : peerRequestQueueSearch queue peer = .ok (some i)) :
    ∃ n, queue.heap.cells i = some n ∧ peerCompare n.current.peer peer = 0 := by
  rw [peerRequestQueueSearch_eq hc] at h
  have hf := Except.ok.inj h
  obtain ⟨n, hn⟩ := Option.isSome_iff_exists.1 ((hc.live i).1 (List.mem_of_find?_eq_some hf))
  exact ⟨n, hn, (matchesAt_samePeer hn).1 (List.find?_some hf)⟩

theorem peerRequestQueueSearch_finds (hc : Chain queue.heap queue.first queue.last ids)
    (ho : OncePerPeer queue.heap) {i : Nat} {n : Node PeerRequest}
    (hn : queue.heap.cells i = some n) :
    peerRequestQueueSearch queue n.current.peer = .ok (some i) := by
  cases hs : ids.find? (matchesAt queue.heap (samePeer n.current.peer)) with
  | none =>
    have h : peerRequestQueueSearch queue n.current.peer = .ok none := by
      rw [peerRequestQueueSearch_eq hc, hs]
    rw [peerRequestQueueSearch_eq_none hc] at h
    exact absurd (peerCompare_self _) (h i n hn)
  | some j =>
    have h : peerRequestQueueSearch queue n.current.peer = .ok (some j) := by
      rw [peerRequestQueueSearch_eq hc, hs]
    obtain ⟨m, hm, h0⟩ := peerRequestQueueSearch_eq_some hc h
    rw [h, ho j i m n hm hn h0]

end

/-! ## one entry for each peer -/

section
variable {heap : Heap (Node PeerRequest)} {i : Nat} {n m : Node PeerRequest}

/-- peers are compared by their ids -/
theorem peerCompare_congr {a a' b b' : Option Peer} (ha : a.map Peer.id = a'.map Peer.id)
    (hb : b.map Peer.id = b'.map Peer.id) : peerCompare a b = peerCompare a' b' := by
  cases a <;> cases a' <;> cases b <;> cases b' <;> simp_all [peerCompare]

theorem OncePerPeer.set (ho : OncePerPeer heap) (hn : heap.cells i = some n)
    (hm : m.current.peer.map Peer.id = n.current.peer.map Peer.id) :
    OncePerPeer (heap.set i m) := by
  have hback : ∀ {j a}, (heap.set i m).cells j = some a →
      ∃ b, heap.cells j = some b ∧ a.current.peer.map Peer.id = b.current.peer.map Peer.id := by
    intro j a ha
    by_cases hj : j = i
    · subst hj
      rw [Heap.set_cells_self (by simp [hn])] at ha
      cases ha
      exact ⟨n, hn, hm⟩
    · rw [Heap.set_cells_ne hj] at ha
      exact ⟨a, ha, rfl⟩
  intro j k a b ha hb h0
  obtain ⟨a', ha', ea⟩ := hback ha
  obtain ⟨b', hb', eb⟩ := hback hb
  rw [peerCompare_congr ea eb] at h0
  exact ho j k a' b' ha' hb' h0

theorem OncePerPeer.alloc (ho : OncePerPeer heap)
    (hnew : ∀ j a, heap.cells j = some a → peerCompare a.current.peer m.current.peer ≠ 0) :
    OncePerPeer (heap.alloc m) := by
  intro j k a b ha hb h0
  by_cases hj : j = heap.fresh
  · by_cases hk : k = heap.fresh
    · rw [hj, hk]
    · rw [hj, Heap.alloc_cells_fresh] at ha
      rw [Heap.alloc_cells_ne hk] at hb
      cases ha
      exact absurd ((peerCompare_symm _ _).1 h0) (hnew k b hb)
  · rw [Heap.alloc_cells_ne hj] at ha
    by_cases hk : k = heap.fresh
    · rw [hk, Heap.alloc_cells_fresh] at hb
      cases hb
      exact absurd h0 (hnew j a ha)
    · rw [Heap.alloc_cells_ne hk] at hb
      exact ho j k a b ha hb h0

end

/-! ## what an operation keeps -/

section
variable {queue queue' : PeerRequestQueue} {ids : List Nat}

/-- **the lookup** finds the entry or appends one, and keeps the chain -/
theorem peerRequestQueueFindPeer_chain (peer : Option Peer)
    (hc : Chain queue.heap queue.first queue.last ids) (ho : OncePerPeer queue.heap) :
    ∃ entry queue' ids', peerRequestQueueFindPeer queue peer = .ok (entry, queue') ∧
      Chain queue'.heap queue'.first queue'.last ids' ∧ OncePerPeer queue'.heap := by
  unfold peerRequestQueueFindPeer
  cases hf : ids.find? (matchesAt queue.heap (samePeer peer)) with
  | some entry =>
    rw [peerRequestQueueSearch_eq hc, hf]
    exact ⟨entry, queue, ids, rfl, hc, ho⟩
  | none =>
    have hs : peerRequestQueueSearch queue peer = .ok none := by
      rw [peerRequestQueueSearch_eq hc, hf]
    have hnew := (peerRequestQueueSearch_eq_none hc).1 hs
    rw [hs, ok_bind]
    cases hfirst : queue.first with
    | none =>
      rw [hfirst] at hc
      exact ⟨_, _, _, rfl, hc.alloc _, ho.alloc hnew⟩
    | some first =>
      have hlast : queue.last ≠ none := fun e => by
        rw [← hc.first_eq_none_iff, hfirst] at e
        cases e
      obtain ⟨last, hlast⟩ := Option.ne_none_iff_exists'.1 hlast
      rw [hfirst, hlast] at hc
      obtain ⟨l, hl⟩ := Option.isSome_iff_exists.1 hc.last_isSome
      have hget : queue.heap.get last = .ok l := Heap.get_eq_ok.2 hl
      simp only [hlast, deref_some, ok_bind, hget]
      have hset : OncePerPeer (queue.heap.set last { l with next := some queue.heap.fresh }) :=
        ho.set hl rfl
      refine ⟨_, _, _, rfl, hc.snoc _ hl, hset.alloc fun j a ha => ?_⟩
      by_cases hj : j = last
      · subst hj
        rw [Heap.set_cells_self (by simp [hl])] at ha
        cases ha
        exact hnew j l hl
      · rw [Heap.set_cells_ne hj] at ha
        exact hnew j a ha

/-- a chain with one entry for each peer is all there is to it -/
theorem wellFormed_of_chain (hc : Chain queue.heap queue.first queue.last ids)
    (ho : OncePerPeer queue.heap) : WellFormed queue where
  chain := ⟨ids, hc⟩
  ends := hc.first_eq_none_iff
  findEntry_safe peer := by
    unfold peerRequestQueueFindEntry
    split
    · exact ⟨_, peerRequestQueueSearch_eq hc⟩
    · exact safe_ok _
  findPeer_safe peer := by
    obtain ⟨entry, queue', -, h, -⟩ := peerRequestQueueFindPeer_chain peer hc ho
    exact ⟨_, h⟩
  findEntry_finds i n hn hp := by
    unfold peerRequestQueueFindEntry
    rw [if_pos hp]
    exact peerRequestQueueSearch_finds hc ho hn
  once := ho

theorem wellFormed_new : WellFormed peerRequestQueueNew :=
  wellFormed_of_chain chain_empty fun i j n m hn => by
    rw [show peerRequestQueueNew.heap.cells i = none from rfl] at hn
    cases hn

/-! ## which operations keep the queue well formed -/

def Allowed (op : QueueOp) (queue : PeerRequestQueue) : Prop :=
  match op with
  | .findPeer _ => True
  | .add request => request = none ∨ queue.first = none
  | .pop peek => ∀ entry n, queue.first = some entry → queue.heap.cells entry = some n →
      Quiet peek n.current ∨ CanLook n.current ∧ n.next = none
  | .remove request => ∀ r, request = some r → r.peer.isSome →
      ∀ i n, queue.heap.cells i = some n → peerCompare n.current.peer r.peer ≠ 0
  | .change entry _ => (queue.heap.cells entry).isSome

theorem peerRequestQueueFindPeer_wellFormed (peer : Option Peer) (hw : WellFormed queue) :
    ∃ queue', peerRequestQueueStep (.findPeer peer) queue = .ok queue' ∧ WellFormed queue' := by
  obtain ⟨ids, hc⟩ := hw.chain
  obtain ⟨entry, queue', ids', h, hc', ho⟩ := peerRequestQueueFindPeer_chain peer hc hw.once
  refine ⟨queue', ?_, wellFormed_of_chain hc' ho⟩
  show Prod.snd <$> peerRequestQueueFindPeer queue peer = _
  rw [h]
  rfl

/-- **only the first entry can be added**: a later one is not linked to -/
theorem peerRequestQueueAdd_wellFormed_iff (request : Option PeerRequest)
    (hw : WellFormed queue) :
    WellFormed (peerRequestQueueAdd queue request).2 ↔ request = none ∨ queue.first = none := by
  obtain ⟨ids, hc⟩ := hw.chain
  cases request with
  | none => simpa [peerRequestQueueAdd] using hw
  | some r =>
    simp only [peerRequestQueueAdd, reduceCtorEq, false_or]
    by_cases hfirst : queue.first = none
    · have hlast := hc.first_eq_none_iff.1 hfirst
      rw [if_pos hfirst, hlast]
      simp only [hfirst, iff_true]
      have hids : ids = [] := by
        rw [hfirst] at hc
        exact hc.ids_eq_nil
      rw [hfirst, hlast] at hc
      refine wellFormed_of_chain (hc.alloc r) (hw.once.alloc fun j a ha => ?_)
      have hj := (hc.live j).2 (by simp [ha])
      rw [hids] at hj
      cases hj
    · rw [if_neg hfirst]
      simp only [hfirst, iff_false]
      intro hw'
      obtain ⟨ids', hc'⟩ := hw'.chain
      -- the old entries are what is reached from `first`, and the new one is not among them
      have hfresh : queue.heap.fresh ∉ ids := fun hm => by
        have := (hc.live _).1 hm
        rw [Heap.cells_fresh] at this
        cases this
      have hseg : Seg (queue.heap.alloc { prior := queue.last, current := r, next := none }) none
          ids := hc.seg.congr fun j hj => Heap.alloc_cells_ne fun e => hfresh (e ▸ hj)
      have hids : ids' = ids := hc'.seg.unique hseg (hc'.first_eq.symm.trans hc.first_eq)
      have hlast : queue.heap.fresh ∈ ids' := List.mem_of_getLast? hc'.last_eq.symm
      exact hfresh (hids ▸ hlast)

/-- **a removal breaks the queue** whenever there is something to remove -/
theorem peerRequestQueueRemove_wellFormed_iff (request : Option PeerRequest)
    (hw : WellFormed queue) :
    (∃ queue', peerRequestQueueStep (.remove request) queue = .ok queue' ∧ WellFormed queue') ↔
      Allowed (.remove request) queue := by
  obtain ⟨ids, hc⟩ := hw.chain
  show (∃ queue', Prod.snd <$> peerRequestQueueRemove queue request = _ ∧ _) ↔ _
  simp only [Allowed]
  cases request with
  | none =>
    refine ⟨fun _ r hr => ?_, fun _ => ⟨queue, rfl, hw⟩⟩
    cases hr
  | some r =>
    simp only [Option.some.injEq, forall_eq', peerRequestQueueRemove, peerRequestQueueFindEntry]
    by_cases hp : r.peer.isSome
    swap
    · simp only [hp, Bool.false_eq_true, if_false, false_implies, iff_true, ok_bind]
      exact ⟨queue, rfl, hw⟩
    simp only [hp, if_true, true_implies]
    rw [← peerRequestQueueSearch_eq_none hc, peerRequestQueueSearch_eq hc]
    cases hf : ids.find? (matchesAt queue.heap (samePeer r.peer)) with
    | none =>
      simp only [ok_bind, iff_true]
      exact ⟨queue, rfl, hw⟩
    | some i =>
      simp only [ok_bind, Except.ok.injEq, reduceCtorEq, iff_false]
      intro h
      obtain ⟨queue', hq, hw'⟩ := h
      obtain ⟨ids', hc'⟩ := hw'.chain
      have hi : i ∈ ids := List.mem_of_find?_eq_some hf
      obtain ⟨n, hn⟩ := Option.isSome_iff_exists.1 ((hc.live i).1 hi)
      have hget : queue.heap.get i = .ok n := Heap.get_eq_ok.2 hn
      rw [hget, ok_bind] at hq
      cases hprior : n.prior with
      | none =>
        rw [hprior] at hq
        cases hq
      | some k =>
        obtain ⟨p, hpk⟩ := Option.isSome_iff_exists.1 (hc.prior_isSome hn hprior)
        have hgetk : queue.heap.get k = .ok p := Heap.get_eq_ok.2 hpk
        rw [hprior, deref_some, ok_bind, hgetk, ok_bind] at hq
        obtain rfl := Except.ok.inj hq
        have hfreed : ¬ ((((queue.heap.set k { p with next := n.next }).free i).cells i).isSome) := by
          simp
        obtain ⟨is, js, rfl⟩ := List.append_of_mem hi
        cases js with
        | nil =>
          -- the last entry: `last` still leads to it
          have hlast : queue.last = some i := by rw [hc.last_eq]; simp
          have hc' := hc'
          simp only [hlast] at hc'
          exact hfreed hc'.last_isSome
        | cons j js =>
          -- an entry in the middle: its successor still leads back to it
          obtain ⟨m, hm, hback⟩ := hc.seg.prior_of_append
          have hji : j ≠ i := fun e => by
            have := (List.nodup_append.1 hc.nodup).2.1
            simp [e] at this
          have hm' : ∃ m', ((queue.heap.set k { p with next := n.next }).free i).cells j = some m' ∧
              m'.prior = some i := by
            rw [Heap.free_cells_ne hji]
            by_cases hjk : j = k
            · subst hjk
              cases hm.symm.trans hpk
              exact ⟨_, Heap.set_cells_self (by simp [hpk]), hback⟩
            · exact ⟨m, by rw [Heap.set_cells_ne hjk, hm], hback⟩
          obtain ⟨m', hm', hback'⟩ := hm'
          exact hfreed (hc'.prior_isSome hm' hback')

/-- what looking at the head leaves is still well formed -/
theorem wellFormed_set_current {i : Nat} {n : Node PeerRequest} {request : PeerRequest}
    (hw : WellFormed queue) (hn : queue.heap.cells i = some n)
    (hr : request.peer.map Peer.id = n.current.peer.map Peer.id) :
    WellFormed { queue with heap := queue.heap.set i { n with current := request } } := by
  obtain ⟨ids, hc⟩ := hw.chain
  have ho : OncePerPeer (queue.heap.set i { n with current := request }) := hw.once.set hn hr
  exact wellFormed_of_chain (hc.set_current request hn) ho

theorem peerRequestSomethingToDo_cases {peek : Int} {request : PeerRequest}
    (h : CanLook request) (hq : ¬ Quiet peek request) :
    ∃ r request', peerRequestSomethingToDo peek request = .ok (r, request') ∧ r ≠ 0 := by
  obtain ⟨⟨r, request'⟩, hr⟩ := safe_peerRequestSomethingToDo.2 h
  refine ⟨r, request', hr, fun e => hq ?_⟩
  subst e
  exact peerRequestSomethingToDo_eq_zero.1 ⟨request', hr⟩

/-- **a pop breaks the queue** whenever it moves the head -/
theorem peerRequestQueuePop_wellFormed_iff (peek : Int) (hw : WellFormed queue) :
    (∃ queue', peerRequestQueueStep (.pop peek) queue = .ok queue' ∧ WellFormed queue') ↔
      Allowed (.pop peek) queue := by
  obtain ⟨ids, hc⟩ := hw.chain
  show (∃ queue', Prod.snd <$> peerRequestQueuePop peek queue = _ ∧ _) ↔ _
  simp only [Allowed]
  cases hfirst : queue.first with
  | none =>
    refine ⟨fun _ entry n he => ?_, fun _ => ⟨queue, ?_, hw⟩⟩
    · cases he
    · unfold peerRequestQueuePop
      rw [hfirst]
      rfl
  | some entry =>
    have hhead : ids.head? = some entry := hc.first_eq.symm.trans hfirst
    have hmem : entry ∈ ids := List.mem_of_head? hhead
    obtain ⟨n, hn⟩ := Option.isSome_iff_exists.1 ((hc.live entry).1 hmem)
    have hget : queue.heap.get entry = .ok n := Heap.get_eq_ok.2 hn
    simp only [peerRequestQueuePop, hfirst, hget, ok_bind]
    have hall : (∀ entry' n', some entry = some entry' → queue.heap.cells entry' = some n' →
        Quiet peek n'.current ∨ CanLook n'.current ∧ n'.next = none) ↔
        Quiet peek n.current ∨ CanLook n.current ∧ n.next = none := by
      refine ⟨fun h => h entry n rfl hn, fun h entry' n' he hn' => ?_⟩
      cases he
      cases hn.symm.trans hn'
      exact h
    rw [hall]
    by_cases hq : Quiet peek n.current
    · obtain ⟨request, hr⟩ := peerRequestSomethingToDo_eq_zero.2 hq
      simp only [hq, true_or, iff_true, hr, ok_bind, if_true]
      have h := wellFormed_set_current hw hn (peerRequestSomethingToDo_same hr)
      rw [hfirst] at h
      exact ⟨_, rfl, h⟩
    by_cases hl : CanLook n.current
    swap
    · simp only [hq, hl, false_and, or_self, iff_false]
      intro h
      obtain ⟨queue', h, -⟩ := h
      cases hs : peerRequestSomethingToDo peek n.current with
      | error e =>
        rw [hs] at h
        cases h
      | ok a => exact hl (safe_peerRequestSomethingToDo.1 ⟨a, hs⟩)
    obtain ⟨r, request, hr, h0⟩ := peerRequestSomethingToDo_cases hl hq
    simp only [hq, hl, true_and, false_or, hr, ok_bind, h0, if_false]
    cases hnext : n.next with
    | none =>
      simp only [iff_true]
      refine ⟨_, rfl, ?_⟩
      have h := wellFormed_set_current hw hn (peerRequestSomethingToDo_same hr)
      rw [hnext, hfirst] at h
      exact h
    | some next =>
      simp only [reduceCtorEq, iff_false]
      intro h
      obtain ⟨queue', h, hw'⟩ := h
      cases hlast : queue.last with
      | none =>
        rw [← hc.first_eq_none_iff, hfirst] at hlast
        cases hlast
      | some last =>
        rw [hlast, deref_some, ok_bind] at h
        cases hget' : (queue.heap.set entry ⟨n.prior, request, some next⟩).get last with
        | error e =>
          rw [hget'] at h
          cases h
        | ok l =>
          rw [hget', ok_bind] at h
          obtain rfl := Except.ok.inj h
          obtain ⟨ids', hc'⟩ := hw'.chain
          -- the head is not the last one, so its link forward is what it was
          have hne : entry ≠ last := fun e => by
            rw [hlast] at hc
            have h' := hc.last_next (e ▸ hn)
            rw [hnext] at h'
            cases h'
          have hcell : ((queue.heap.set entry ⟨n.prior, request, some next⟩).set last
              ⟨l.prior, l.current, some entry⟩).cells entry =
              some ⟨n.prior, request, some next⟩ := by
            rw [Heap.set_cells_ne hne, Heap.set_cells_self (by simp [hn])]
          have h' := hc'.last_next hcell
          cases h'

theorem peerRequestQueueChange_wellFormed_iff (entry : Nat) (c : Change) (hw : WellFormed queue) :
    (∃ queue', peerRequestQueueStep (.change entry c) queue = .ok queue' ∧ WellFormed queue') ↔
      Allowed (.change entry c) queue := by
  show (∃ queue', peerRequestQueueChange queue entry c = _ ∧ _) ↔
    ((queue.heap.cells entry).isSome : Prop)
  unfold peerRequestQueueChange
  cases hn : queue.heap.cells entry with
  | none => simp [Heap.get, hn]
  | some n =>
    have hget : queue.heap.get entry = .ok n := Heap.get_eq_ok.2 hn
    rw [hget, ok_bind]
    simp only [Option.isSome_some, iff_true]
    refine ⟨_, rfl, wellFormed_set_current hw hn ?_⟩
    simp only [Change.apply, Option.map_map]
    rfl

/-- **the operations that keep the queue well formed** -/
theorem peerRequestQueueStep_iff (op : QueueOp) (queue : PeerRequestQueue)
    (hw : WellFormed queue) :
    Allowed op queue ↔
      ∃ queue', peerRequestQueueStep op queue = .ok queue' ∧ WellFormed queue' := by
  cases op with
  | findPeer peer =>
    simp only [Allowed, true_iff]
    exact peerRequestQueueFindPeer_wellFormed peer hw
  | add request =>
    simp only [Allowed]
    rw [← peerRequestQueueAdd_wellFormed_iff request hw]
    simp [peerRequestQueueStep]
  | pop peek => exact (peerRequestQueuePop_wellFormed_iff peek hw).symm
  | remove request => exact (peerRequestQueueRemove_wellFormed_iff request hw).symm
  | change entry c => exact (peerRequestQueueChange_wellFormed_iff entry c hw).symm

end

/-- **the runs along which the queue is well formed**: nothing is added behind another entry, no
entry is removed, and the head is moved only when it is alone -/
theorem wellFormed_iff_allowed (ops : List QueueOp) :
    HoldsAlong peerRequestQueueStep WellFormed ops peerRequestQueueNew ↔
      Guarded peerRequestQueueStep Allowed ops peerRequestQueueNew :=
  holdsAlong_iff_of_step peerRequestQueueStep_iff wellFormed_new

/-! ### a pop that leaves a circle -/

/-- a peer that is connected -/
def connectedPeer (id : List UInt8) : Option Peer :=
  some { id := id, connectionType := connectionTypeConnected, hasSession := true }

/-- two peers are looked up, there is something to read from the first one, and it is popped -/
def popOfTwo : List QueueOp :=
  [.findPeer (connectedPeer [1]), .findPeer (connectedPeer [2]), .pop 5]

/-- each request is added when its peer has no entry -/
def AddsNew (op : QueueOp) (queue : PeerRequestQueue) : Prop :=
  match op with
  | .add request => ∀ r, request = some r →
      ∀ i n, queue.heap.cells i = some n → peerCompare n.current.peer r.peer ≠ 0
  | _ => True

theorem not_wellFormed_popOfTwo : ¬ ∀ ops,
    Guarded peerRequestQueueStep AddsNew ops peerRequestQueueNew →
      HoldsAlong peerRequestQueueStep WellFormed ops peerRequestQueueNew := by
  intro h
  have hnew : Guarded peerRequestQueueStep AddsNew popOfTwo peerRequestQueueNew :=
    ⟨trivial, fun _ _ => ⟨trivial, fun _ _ => ⟨trivial, fun _ _ => trivial⟩⟩⟩
  obtain ⟨queue, hrun, hw⟩ := (h popOfTwo hnew).last
  have hlost : (runOps peerRequestQueueStep popOfTwo peerRequestQueueNew >>= fun queue =>
      peerRequestQueueFindEntry queue (connectedPeer [3])) = .error .diverges := by
    decide
  rw [hrun, ok_bind] at hlost
  obtain ⟨entry, hfound⟩ := hw.findEntry_safe (connectedPeer [3])
  rw [hlost] at hfound
  cases hfound

end Ipfs
