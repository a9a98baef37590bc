import Libipfs.Lib.Heap
import Libipfs.Lib.Run
import Mathlib.Data.List.Count

/-!
# The peerstore

A list of peers, the local one first.  An entry has its own copy of the id it was added with, so
the ids live in a heap: those of the callers and those of the entries.  Sessions, connection types
and the text of an address are left out.

* `peerstoreAddPeer`, `peerstoreGetPeer`, `peerstoreGetOrAddPeer`, `peerstoreGetOrAddPeerById`
                          the operations;
* `Traced`                a store, and what has been added to it;
* `PeerstoreLaw`          one entry for each id that was added, the addresses that were supplied
                          for it, and no id lost;
* `peerstoreLaw_along`    **the law holds along a run** in which nobody is looked up or added by
                          an id alone that is not there yet, since that id is freed.
-/

namespace Libp2p
open CSem

/-- a peer of a caller: where its id is, and its addresses, of which some may be null -/
structure GivenPeer where
  id : Option Nat
  idSize : Nat
  addrs : List (Option (List UInt8)) := []

/-- the addresses that are not null -/
def GivenPeer.given (peer : GivenPeer) : List (List UInt8) := peer.addrs.filterMap fun addr => addr

/-- an entry and its peer; `none` is an address whose size was never set -/
structure PeerEntry where
  id : Nat
  idSize : Nat
  addrs : List (Option (List UInt8))

structure Peerstore where
  heap : Heap (List UInt8)
  entries : List PeerEntry

/-! ## looking up -/

/-- `size` bytes at an address -/
def readId (heap : Heap (List UInt8)) (id : Option Nat) (size : Nat) : Exec (List UInt8) := do
  let p ← deref id
  let bytes ← heap.get p
  require .outOfBounds (size ≤ bytes.length)
  .ok (bytes.take size)

/-- the place of the first entry with this id -/
def findEntry (heap : Heap (List UInt8)) (id : Option Nat) (size : Nat) :
    List PeerEntry → Exec (Option Nat)
  | [] => .ok none
  | entry :: entries =>
    if entry.idSize = size then do
      let bytes ← readId heap id size
      let bytes' ← readId heap (some entry.id) size
      if bytes = bytes' then .ok (some 0)
      else do
        let k ← findEntry heap id size entries
        .ok (k.map (· + 1))
    else do
      let k ← findEntry heap id size entries
      .ok (k.map (· + 1))

def peerstoreGetPeerEntry (store : Peerstore) (id : Option Nat) (size : Nat) :
    Exec (Option Nat) :=
  if size = 0 ∨ id = none then .ok none else findEntry store.heap id size store.entries

def peerstoreGetPeer (store : Peerstore) (id : Option Nat) (size : Nat) :
    Exec (Option PeerEntry) := do
  let k ← peerstoreGetPeerEntry store id size
  .ok (k.bind fun k => store.entries[k]?)

/-! ## addresses -/

/-- the size is copied when there are bytes -/
def multiaddressCopy (addr : List UInt8) : Option (List UInt8) :=
  if addr = [] then none else some addr

/-- as many bytes as the second has -/
def multiaddressCompareBytes : List UInt8 → List UInt8 → Exec Int
  | _, [] => .ok 0
  | [], _ :: _ => .error .outOfBounds
  | a :: as, b :: bs =>
    if (b.toNat : Int) - a.toNat ≠ 0 then .ok (b.toNat - a.toNat)
    else multiaddressCompareBytes as bs

/-- the difference of the sizes is an `int` -/
def multiaddressCompare (a b : List UInt8) : Exec Int :=
  if toInt32 (b.length - a.length) ≠ 0 then .ok (toInt32 (b.length - a.length))
  else multiaddressCompareBytes a b

/-- some address of the list equals this one -/
def hasAddress (incoming : List UInt8) : List (Option (List UInt8)) → Exec Bool
  | [] => .ok false
  | none :: _ => .error .uninitialized
  | some existing :: addrs => do
    let total ← multiaddressCompare incoming existing
    if total = 0 then .ok true else hasAddress incoming addrs

/-- an address that is not there is put in front -/
def peerstoreUpdateAddresses :
    List (Option (List UInt8)) → List (Option (List UInt8)) → Exec (List (Option (List UInt8)))
  | [], existing => .ok existing
  | none :: incoming, existing => peerstoreUpdateAddresses incoming existing
  | some addr :: incoming, existing => do
    let found ← hasAddress addr existing
    if found then peerstoreUpdateAddresses incoming existing
    else peerstoreUpdateAddresses incoming (multiaddressCopy addr :: existing)

/-! ## adding -/

/-- the id is written into a string of 100 characters for the log -/
def peerIdToString (heap : Heap (List UInt8)) (peer : GivenPeer) : Exec (List UInt8) := do
  let id ← readId heap peer.id peer.idSize
  require .outOfBounds (peer.idSize < 100)
  .ok id

/-- a copy of the id, and of the addresses that are not null -/
def peerCopy (heap : Heap (List UInt8)) (peer : GivenPeer) :
    Exec (Heap (List UInt8) × PeerEntry) := do
  let id ← readId heap peer.id peer.idSize
  .ok (heap.alloc id,
    { id := heap.fresh
      idSize := peer.idSize
      addrs := peer.given.map multiaddressCopy })

def peerstoreAddPeer (store : Peerstore) (peer : GivenPeer) : Exec (Bool × Peerstore) := do
  match ← peerstoreGetPeerEntry store peer.id peer.idSize with
  | some k => do
    let entry ← deref store.entries[k]?
    let addrs ← peerstoreUpdateAddresses peer.addrs entry.addrs
    .ok (true, { store with entries := store.entries.set k { entry with addrs := addrs } })
  | none =>
    if 0 < peer.idSize then do
      let _ ← peerIdToString store.heap peer
      let (heap, entry) ← peerCopy store.heap peer
      .ok (true, { heap := heap, entries := store.entries ++ [entry] })
    else .ok (false, store)

def peerstoreNew (heap : Heap (List UInt8)) (localPeer : GivenPeer) : Exec Peerstore := do
  let (_, store) ← peerstoreAddPeer { heap := heap, entries := [] } localPeer
  .ok store

/-- a peer that is there is left as it is -/
def peerstoreGetOrAddPeer (store : Peerstore) (peer : GivenPeer) :
    Exec (Option PeerEntry × Peerstore) := do
  match ← peerstoreGetPeer store peer.id peer.idSize with
  | some entry => .ok (some entry, store)
  | none => do
    let (added, store) ← peerstoreAddPeer store peer
    if added then do
      let out ← peerstoreGetPeer store peer.id peer.idSize
      .ok (out, store)
    else .ok (none, store)

/-- the peer that is added and freed again has the caller's id, which is then read once more -/
def peerstoreGetOrAddPeerById (store : Peerstore) (id : Option Nat) (size : Nat) :
    Exec (Option PeerEntry × Peerstore) :=
  if size = 0 then .ok (none, store)
  else do
    match ← peerstoreGetPeer store id size with
    | some entry => .ok (some entry, store)
    | none => do
      let (_, store) ← peerstoreAddPeer store { id := id, idSize := size }
      let store :=
        match id with
        | none => store
        | some p => { store with heap := store.heap.free p }
      let out ← peerstoreGetPeer store id size
      .ok (out, store)

/-! ## runs -/

inductive PeerstoreOp where
  | addPeer (peer : GivenPeer)
  | getPeer (id : Option Nat) (size : Nat)
  | getOrAddPeer (peer : GivenPeer)
  | getOrAddPeerById (id : Option Nat) (size : Nat)

def PeerstoreOp.run (store : Peerstore) : PeerstoreOp → Exec Peerstore
  | .addPeer peer => do
    let (_, store) ← peerstoreAddPeer store peer
    .ok store
  | .getPeer id size => do
    let _ ← peerstoreGetPeer store id size
    .ok store
  | .getOrAddPeer peer => do
    let (_, store) ← peerstoreGetOrAddPeer store peer
    .ok store
  | .getOrAddPeerById id size => do
    let (_, store) ← peerstoreGetOrAddPeerById store id size
    .ok store

/-- an id, and the addresses supplied with it -/
abbrev Addition : Type := List UInt8 × List (List UInt8)

/-- a store, and what has been added to it -/
structure Traced where
  store : Peerstore
  added : List Addition

/-- the bytes of an id; there are none without an address -/
def Traced.bytes (traced : Traced) (id : Option Nat) : List UInt8 :=
  (id.bind traced.store.heap.cells).getD []

def Traced.Known (traced : Traced) (id : List UInt8) : Prop := id ∈ traced.added.map Prod.fst

instance (traced : Traced) (id : List UInt8) : Decidable (traced.Known id) :=
  inferInstanceAs (Decidable (id ∈ traced.added.map Prod.fst))

/-- what an operation adds: nothing without an id, and only `add_peer` adds to a peer that is
there -/
def PeerstoreOp.supplies (traced : Traced) : PeerstoreOp → List Addition
  | .addPeer peer =>
    if traced.bytes peer.id = [] then []
    else [(traced.bytes peer.id, peer.given)]
  | .getPeer _ _ => []
  | .getOrAddPeer peer =>
    if traced.bytes peer.id = [] ∨ traced.Known (traced.bytes peer.id) then []
    else [(traced.bytes peer.id, peer.given)]
  | .getOrAddPeerById peerId _ =>
    if traced.bytes peerId = [] ∨ traced.Known (traced.bytes peerId) then []
    else [(traced.bytes peerId, [])]

def PeerstoreOp.step (op : PeerstoreOp) (traced : Traced) : Exec Traced := do
  let store ← op.run traced.store
  .ok { store := store, added := traced.added ++ op.supplies traced }

/-! ## the law -/

/-- an address was supplied in an addition for an id -/
def Supplied (added : List Addition) (id addr : List UInt8) : Prop :=
  ∃ addition ∈ added, addition.1 = id ∧ addr ∈ addition.2

/-- it was, twice in one addition -/
def Repeated (added : List Addition) (id addr : List UInt8) : Prop :=
  ∃ addition ∈ added, addition.1 = id ∧ 2 ≤ addition.2.count addr

/-- the ids of the entries, `none` for one that has been freed -/
def Peerstore.ids (store : Peerstore) : List (Option (List UInt8)) :=
  store.entries.map fun entry => store.heap.cells entry.id

/-- `heap` is what the callers had when the store was made -/
structure PeerstoreLaw (heap : Heap (List UInt8)) (localId : List UInt8) (traced : Traced) :
    Prop where
  once : traced.store.ids.Nodup
  first : traced.store.ids.head? = some (some localId)
  get : ∀ p id, traced.store.heap.cells p = some id →
    ∃ found, peerstoreGetPeer traced.store (some p) id.length = .ok found ∧
      (found.isSome ↔ traced.Known id) ∧
      ∀ entry ∈ found, traced.store.heap.cells entry.id = some id
  addrs : ∀ entry ∈ traced.store.entries, ∀ id, traced.store.heap.cells entry.id = some id →
    (∀ addr, addr ∈ entry.addrs ↔ ∃ bytes, addr = some bytes ∧ Supplied traced.added id bytes) ∧
    ∀ bytes, 2 ≤ entry.addrs.count (some bytes) → Repeated traced.added id bytes
  callers : ∀ p id, heap.cells p = some id → traced.store.heap.cells p = some id
  own : ∀ entry ∈ traced.store.entries,
    ∃ id, traced.store.heap.cells entry.id = some id ∧ id.length = entry.idSize

/-! ## what may be called -/

/-- an id of this size, or none -/
def Traced.Live (traced : Traced) (id : Option Nat) (size : Nat) : Prop :=
  (id = none ∧ size = 0) ∨
    ∃ p bytes, id = some p ∧ traced.store.heap.cells p = some bytes ∧ bytes.length = size

instance (traced : Traced) (id : Option Nat) (size : Nat) : Decidable (traced.Live id size) :=
  match id with
  | none => decidable_of_iff (size = 0)
      ⟨fun h => .inl ⟨rfl, h⟩, fun h => h.elim And.right fun ⟨_, _, hid, _⟩ => by cases hid⟩
  | some p =>
    match hp : traced.store.heap.cells p with
    | none => isFalse fun h => h.elim (fun h => by cases h.1) fun ⟨_, _, hid, hcell, _⟩ => by
        cases hid
        cases hp.symm.trans hcell
    | some bytes => decidable_of_iff (bytes.length = size)
        ⟨fun h => .inr ⟨p, bytes, rfl, hp, h⟩,
          fun h => h.elim (fun h => by cases h.1) fun ⟨_, _, hid, hcell, hsize⟩ => by
            cases hid
            cases hp.symm.trans hcell
            exact hsize⟩

/-- an address as the constructors make it -/
def ProperAddr (addr : List UInt8) : Prop := addr ≠ [] ∧ addr.length < 2 ^ 31

instance (addr : List UInt8) : Decidable (ProperAddr addr) :=
  inferInstanceAs (Decidable (_ ∧ _))

/-- an id of less than 100 bytes, and proper addresses -/
structure Traced.Addable (traced : Traced) (peer : GivenPeer) : Prop where
  live : traced.Live peer.id peer.idSize
  size : peer.idSize < 100
  addrs : ∀ addr ∈ peer.given, ProperAddr addr

instance (traced : Traced) (peer : GivenPeer) : Decidable (traced.Addable peer) :=
  decidable_of_iff (traced.Live peer.id peer.idSize ∧ peer.idSize < 100 ∧
      ∀ addr ∈ peer.given, ProperAddr addr)
    ⟨fun ⟨hlive, hsize, haddrs⟩ => ⟨hlive, hsize, haddrs⟩, fun h => ⟨h.live, h.size, h.addrs⟩⟩

/-- **no peer is added by its id alone** -/
def PeerstoreOp.Allowed (op : PeerstoreOp) (traced : Traced) : Prop :=
  match op with
  | .addPeer peer => traced.Addable peer
  | .getPeer id size => traced.Live id size
  | .getOrAddPeer peer =>
    traced.Addable peer ∨ (traced.Live peer.id peer.idSize ∧ traced.Known (traced.bytes peer.id))
  | .getOrAddPeerById id size =>
    traced.Live id size ∧ (size = 0 ∨ traced.Known (traced.bytes id))

instance PeerstoreOp.decidableAllowed (op : PeerstoreOp) (traced : Traced) :
    Decidable (op.Allowed traced) :=
  match op with
  | .addPeer _ => inferInstanceAs (Decidable (Traced.Addable _ _))
  | .getPeer _ _ => inferInstanceAs (Decidable (Traced.Live _ _ _))
  | .getOrAddPeer _ => inferInstanceAs (Decidable (_ ∨ _ ∧ _))
  | .getOrAddPeerById _ _ => inferInstanceAs (Decidable (_ ∧ (_ ∨ _)))

section
variable {heap : Heap (List UInt8)} {store : Peerstore} {p : Nat} {bytes id : List UInt8}
  {entry : PeerEntry} {entries : List PeerEntry} {added : List Addition} {peer : GivenPeer}

/-! ## looking up an id -/

theorem readId_eq (h : heap.cells p = some bytes) :
    readId heap (some p) bytes.length = .ok bytes := by
  unfold readId
  rw [deref_some, ok_bind, Heap.get_eq_ok.2 h, ok_bind, require_pos (Nat.le_refl _), ok_bind,
    List.take_length]

/-- the entry has an id of its own -/
def PeerEntry.Own (heap : Heap (List UInt8)) (entry : PeerEntry) : Prop :=
  ∃ id, heap.cells entry.id = some id ∧ id.length = entry.idSize

theorem findEntry_eq (hown : ∀ entry ∈ entries, entry.Own heap) (h : heap.cells p = some bytes) :
    findEntry heap (some p) bytes.length entries =
      .ok (entries.findIdx? fun entry => decide (heap.cells entry.id = some bytes)) := by
  induction entries with
  | nil => rfl
  | cons entry entries ih =>
    obtain ⟨id, hid, hsize⟩ := hown entry List.mem_cons_self
    have ih := ih fun e he => hown e (List.mem_cons_of_mem _ he)
    have hread := readId_eq hid
    rw [findEntry, List.findIdx?_cons, hid, readId_eq h, ih]
    by_cases hsame : id = bytes
    · subst hsame
      rw [if_pos hsize.symm, hread]
      simp only [ok_bind, if_true, decide_true]
    · have hne : decide (some id = some bytes) = false :=
        decide_eq_false fun e => hsame (Option.some.inj e)
      rw [hne]
      by_cases hlen : entry.idSize = bytes.length
      · rw [hsize, hlen] at hread
        rw [if_pos hlen, hread]
        simp only [ok_bind, if_neg (Ne.symm hsame), Bool.false_eq_true, if_false]
      · rw [if_neg hlen]
        rfl

theorem peerstoreGetPeerEntry_eq (hown : ∀ entry ∈ store.entries, entry.Own store.heap)
    (h : store.heap.cells p = some bytes) (hne : bytes ≠ []) :
    peerstoreGetPeerEntry store (some p) bytes.length =
      .ok (store.entries.findIdx? fun entry =>
        decide (store.heap.cells entry.id = some bytes)) := by
  have hpos := List.length_pos_iff.2 hne
  unfold peerstoreGetPeerEntry
  rw [if_neg (by rintro (h | h); omega; cases h)]
  exact findEntry_eq hown h

/-! ## merging addresses -/

theorem multiaddressCompareBytes_eq_zero {a b : List UInt8} (hlen : a.length = b.length) :
    ∃ total, multiaddressCompareBytes a b = .ok total ∧ (total = 0 ↔ a = b) := by
  induction a generalizing b with
  | nil =>
    obtain rfl := List.eq_nil_of_length_eq_zero hlen.symm
    exact ⟨0, rfl, fun _ => rfl, fun _ => rfl⟩
  | cons x a ih =>
    cases b with
    | nil => cases hlen
    | cons y b =>
      rw [multiaddressCompareBytes]
      by_cases hxy : (y.toNat : Int) - x.toNat ≠ 0
      · rw [if_pos hxy]
        refine ⟨_, rfl, fun h => absurd h hxy, fun h => ?_⟩
        rw [(List.cons.inj h).1] at hxy
        exact absurd (sub_self _) hxy
      · rw [if_neg hxy]
        obtain ⟨total, htotal, hzero⟩ := ih (Nat.succ.inj hlen)
        have heq : x = y := UInt8.toNat_inj.1 (by omega)
        refine ⟨total, htotal, ?_⟩
        rw [hzero, heq]
        exact ⟨fun h => by rw [h], fun h => (List.cons.inj h).2⟩

theorem multiaddressCompare_eq_zero {a b : List UInt8} (ha : ProperAddr a) (hb : ProperAddr b) :
    ∃ total, multiaddressCompare a b = .ok total ∧ (total = 0 ↔ a = b) := by
  have hal := ha.2
  have hbl := hb.2
  have hint : toInt32 (b.length - a.length) = b.length - a.length :=
    toInt32_of_lt (by omega) (by omega)
  unfold multiaddressCompare
  rw [hint]
  by_cases hlen : (b.length : Int) - a.length ≠ 0
  · rw [if_pos hlen]
    refine ⟨_, rfl, fun h => absurd h hlen, fun h => ?_⟩
    rw [h] at hlen
    exact absurd (sub_self _) hlen
  · rw [if_neg hlen]
    exact multiaddressCompareBytes_eq_zero (by omega)

theorem hasAddress_eq {a : List UInt8} {addrs : List (List UInt8)} (ha : ProperAddr a)
    (haddrs : ∀ b ∈ addrs, ProperAddr b) :
    hasAddress a (addrs.map some) = .ok (decide (a ∈ addrs)) := by
  induction addrs with
  | nil => rfl
  | cons b addrs ih =>
    obtain ⟨total, htotal, hzero⟩ :=
      multiaddressCompare_eq_zero ha (haddrs b List.mem_cons_self)
    rw [List.map_cons, hasAddress, htotal, ok_bind,
      ih fun c hc => haddrs c (List.mem_cons_of_mem _ hc)]
    by_cases hab : a = b
    · rw [if_pos (hzero.2 hab), hab, decide_eq_true List.mem_cons_self]
    · have hmem : a ∈ b :: addrs ↔ a ∈ addrs :=
        ⟨fun h => (List.mem_cons.1 h).resolve_left hab, fun h => List.mem_cons_of_mem _ h⟩
      rw [if_neg fun h => hab (hzero.1 h), decide_eq_decide.2 hmem]

/-- each address that is not there is put in front -/
def mergeAddrs {α : Type} [BEq α] (given addrs : List α) : List α :=
  given.foldl (fun addrs a => addrs.insert a) addrs

theorem mem_mergeAddrs {α : Type} [BEq α] [LawfulBEq α] {given addrs : List α} {a : α} :
    a ∈ mergeAddrs given addrs ↔ a ∈ addrs ∨ a ∈ given := by
  induction given generalizing addrs with
  | nil => exact ⟨.inl, fun h => h.resolve_right List.not_mem_nil⟩
  | cons b given ih =>
    show a ∈ mergeAddrs given (addrs.insert b) ↔ _
    rw [ih, List.mem_insert_iff, List.mem_cons]
    tauto

/-- merging repeats nothing -/
theorem count_mergeAddrs {given addrs : List (List UInt8)} {a : List UInt8}
    (h : 2 ≤ (mergeAddrs given addrs).count a) : 2 ≤ addrs.count a := by
  induction given generalizing addrs with
  | nil => exact h
  | cons b given ih =>
    have h : 2 ≤ (mergeAddrs given (addrs.insert b)).count a := h
    have h := ih h
    by_cases hb : b ∈ addrs
    · rwa [List.insert_of_mem hb] at h
    rw [List.insert_of_not_mem hb] at h
    by_cases hab : b = a
    · subst hab
      rw [List.count_cons_self, List.count_eq_zero_of_not_mem hb] at h
      omega
    · rwa [List.count_cons_of_ne hab] at h

theorem multiaddressCopy_eq {a : List UInt8} (ha : ProperAddr a) :
    multiaddressCopy a = some a := if_neg ha.1

theorem peerstoreUpdateAddresses_eq {incoming : List (Option (List UInt8))}
    {addrs : List (List UInt8)}
    (hgiven : ∀ a ∈ incoming.filterMap fun addr => addr, ProperAddr a)
    (haddrs : ∀ a ∈ addrs, ProperAddr a) :
    peerstoreUpdateAddresses incoming (addrs.map some) =
      .ok ((mergeAddrs (incoming.filterMap fun addr => addr) addrs).map some) := by
  induction incoming generalizing addrs with
  | nil => rfl
  | cons addr incoming ih =>
    cases addr with
    | none => exact ih hgiven haddrs
    | some a =>
      have hgiven : ∀ b ∈ a :: incoming.filterMap fun addr => addr, ProperAddr b := hgiven
      have ha := hgiven a List.mem_cons_self
      have hrest := fun b hb => hgiven b (List.mem_cons_of_mem _ hb)
      show peerstoreUpdateAddresses (some a :: incoming) _ =
        .ok ((mergeAddrs (incoming.filterMap fun addr => addr) (addrs.insert a)).map some)
      rw [peerstoreUpdateAddresses, hasAddress_eq ha haddrs, ok_bind]
      by_cases hmem : a ∈ addrs
      · rw [decide_eq_true hmem, if_pos rfl, List.insert_of_mem hmem]
        exact ih hrest haddrs
      · rw [decide_eq_false hmem, if_neg Bool.false_ne_true, List.insert_of_not_mem hmem,
          multiaddressCopy_eq ha]
        refine @ih (a :: addrs) hrest fun b hb => ?_
        rcases List.mem_cons.1 hb with rfl | hb
        · exact ha
        · exact haddrs b hb

/-! ## the invariant -/

/-- what an entry with this id keeps of what was added -/
structure Kept (heap : Heap (List UInt8)) (added : List Addition) (entry : PeerEntry)
    (id : List UInt8) (addrs : List (List UInt8)) : Prop where
  cell : heap.cells entry.id = some id
  size : id.length = entry.idSize
  addrs_eq : entry.addrs = addrs.map some
  proper : ∀ a ∈ addrs, ProperAddr a
  supplied : ∀ a, a ∈ addrs ↔ Supplied added id a
  repeated : ∀ a, 2 ≤ addrs.count a → Repeated added id a

structure Invariant (heap : Heap (List UInt8)) (localId : List UInt8) (traced : Traced) :
    Prop where
  once : traced.store.ids.Nodup
  first : traced.store.ids.head? = some (some localId)
  known : ∀ id, some id ∈ traced.store.ids ↔ traced.Known id
  named : ¬ traced.Known []
  kept : ∀ entry ∈ traced.store.entries,
    ∃ id addrs, Kept traced.store.heap traced.added entry id addrs
  callers : ∀ p id, heap.cells p = some id → traced.store.heap.cells p = some id

theorem supplied_append {new : List Addition} {a : List UInt8} :
    Supplied (added ++ new) id a ↔ Supplied added id a ∨ Supplied new id a := by
  unfold Supplied
  constructor
  · rintro ⟨addition, hmem, h⟩
    rcases List.mem_append.1 hmem with hmem | hmem
    · exact .inl ⟨addition, hmem, h⟩
    · exact .inr ⟨addition, hmem, h⟩
  · rintro (⟨addition, hmem, h⟩ | ⟨addition, hmem, h⟩)
    · exact ⟨addition, List.mem_append_left _ hmem, h⟩
    · exact ⟨addition, List.mem_append_right _ hmem, h⟩

theorem supplied_singleton {given : List (List UInt8)} {id' a : List UInt8} :
    Supplied [(id', given)] id a ↔ id' = id ∧ a ∈ given := by
  unfold Supplied
  constructor
  · rintro ⟨addition, hmem, h⟩
    obtain rfl := List.mem_singleton.1 hmem
    exact h
  · exact fun h => ⟨_, List.mem_singleton_self _, h⟩

theorem Repeated.append {new : List Addition} {a : List UInt8} (h : Repeated added id a) :
    Repeated (added ++ new) id a := by
  obtain ⟨addition, hmem, h⟩ := h
  exact ⟨addition, List.mem_append_left _ hmem, h⟩

/-- an addition for another id changes nothing, nor does a heap with the same ids in it -/
theorem Kept.mono {heap' : Heap (List UInt8)} {new : List Addition}
    {addrs : List (List UInt8)} (h : Kept heap added entry id addrs)
    (hcell : heap'.cells entry.id = heap.cells entry.id)
    (hnew : ∀ addition ∈ new, addition.1 ≠ id) : Kept heap' (added ++ new) entry id addrs where
  cell := hcell.trans h.cell
  size := h.size
  addrs_eq := h.addrs_eq
  proper := h.proper
  supplied a := by
    rw [h.supplied, supplied_append]
    refine ⟨.inl, fun hor => hor.resolve_right ?_⟩
    rintro ⟨addition, hmem, heq, -⟩
    exact hnew addition hmem heq
  repeated a ha := (h.repeated a ha).append

/-- **merging** the addresses of an addition -/
theorem Kept.merge {given addrs : List (List UInt8)} (h : Kept heap added entry id addrs)
    (hgiven : ∀ a ∈ given, ProperAddr a) :
    Kept heap (added ++ [(id, given)]) { entry with addrs := (mergeAddrs given addrs).map some } id
      (mergeAddrs given addrs) where
  cell := h.cell
  size := h.size
  addrs_eq := rfl
  proper a ha := by
    rcases mem_mergeAddrs.1 ha with ha | ha
    · exact h.proper a ha
    · exact hgiven a ha
  supplied a := by
    rw [mem_mergeAddrs, h.supplied, supplied_append, supplied_singleton]
    exact ⟨fun hor => hor.imp_right fun ha => ⟨rfl, ha⟩, fun hor => hor.imp_right And.right⟩
  repeated a ha := (h.repeated a (count_mergeAddrs ha)).append

/-- a new entry -/
theorem Kept.new {given : List (List UInt8)} (hgiven : ∀ a ∈ given, ProperAddr a)
    (hnot : id ∉ added.map Prod.fst) :
    Kept (heap.alloc id) (added ++ [(id, given)])
      { id := heap.fresh, idSize := id.length, addrs := given.map multiaddressCopy } id given where
  cell := Heap.alloc_cells_fresh
  size := rfl
  addrs_eq := List.map_congr_left fun a ha => multiaddressCopy_eq (hgiven a ha)
  proper := hgiven
  supplied a := by
    rw [supplied_append, supplied_singleton]
    refine ⟨fun ha => .inr ⟨rfl, ha⟩, ?_⟩
    rintro (⟨addition, hmem, rfl, -⟩ | ⟨-, ha⟩)
    · exact absurd (List.mem_map_of_mem hmem) hnot
    · exact ha
  repeated a ha := ⟨(id, given), List.mem_append_right _ (List.mem_singleton_self _), rfl, ha⟩

theorem Kept.own {addrs : List (List UInt8)} (h : Kept heap added entry id addrs) :
    entry.Own heap := ⟨id, h.cell, h.size⟩

theorem Kept.addrs_law {addrs : List (List UInt8)} (h : Kept heap added entry id addrs) :
    (∀ addr, addr ∈ entry.addrs ↔ ∃ bytes, addr = some bytes ∧ Supplied added id bytes) ∧
      ∀ bytes, 2 ≤ entry.addrs.count (some bytes) → Repeated added id bytes := by
  rw [h.addrs_eq]
  refine ⟨fun addr => ?_, fun bytes hcount => ?_⟩
  · rw [List.mem_map]
    constructor
    · rintro ⟨a, ha, rfl⟩
      exact ⟨a, rfl, (h.supplied a).1 ha⟩
    · rintro ⟨bytes, rfl, hsup⟩
      exact ⟨bytes, (h.supplied bytes).2 hsup, rfl⟩
  · rw [List.count_map_of_injective _ _ (Option.some_injective _)] at hcount
    exact h.repeated bytes hcount

variable {localId : List UInt8} {traced : Traced}

theorem Invariant.own (h : Invariant heap localId traced) :
    ∀ entry ∈ traced.store.entries, entry.Own traced.store.heap := by
  intro entry hentry
  obtain ⟨id, addrs, hkept⟩ := h.kept entry hentry
  exact hkept.own

/-- the store with a new entry -/
def Peerstore.push (store : Peerstore) (id : List UInt8) (given : List (List UInt8)) :
    Peerstore where
  heap := store.heap.alloc id
  entries := store.entries ++ [{
    id := store.heap.fresh
    idSize := id.length
    addrs := given.map multiaddressCopy }]

/-- an entry is found when the id is known, and it is the one with the id -/
theorem Invariant.find (h : Invariant heap localId traced)
    (hp : traced.store.heap.cells p = some bytes) (hne : bytes ≠ []) :
    (¬ traced.Known bytes ∧
      peerstoreGetPeerEntry traced.store (some p) bytes.length = .ok none) ∨
    ∃ pre entry post, traced.store.entries = pre ++ entry :: post ∧
      traced.store.heap.cells entry.id = some bytes ∧
      peerstoreGetPeerEntry traced.store (some p) bytes.length = .ok (some pre.length) := by
  have hget := peerstoreGetPeerEntry_eq h.own hp hne
  cases hfind : traced.store.entries.findIdx? fun entry =>
      decide (traced.store.heap.cells entry.id = some bytes) with
  | none =>
    refine .inl ⟨fun hknown => ?_, hfind ▸ hget⟩
    obtain ⟨entry, hentry, hid⟩ := List.mem_map.1 ((h.known bytes).2 hknown)
    have hnot := List.findIdx?_eq_none_iff.1 hfind entry hentry
    exact of_decide_eq_false hnot hid
  | some k =>
    obtain ⟨hk, hat, -⟩ := List.findIdx?_eq_some_iff_getElem.1 hfind
    refine .inr ⟨traced.store.entries.take k, traced.store.entries[k],
      traced.store.entries.drop (k + 1), ?_, of_decide_eq_true hat, ?_⟩
    · rw [List.getElem_cons_drop, List.take_append_drop]
    · rw [hget, hfind, List.length_take, Nat.min_eq_left (Nat.le_of_lt hk)]

theorem Invariant.law (h : Invariant heap localId traced) : PeerstoreLaw heap localId traced where
  once := h.once
  first := h.first
  get p id hp := by
    unfold peerstoreGetPeer
    by_cases hne : id = []
    · subst hne
      refine ⟨none, rfl, ⟨fun hsome => (nomatch hsome), fun hknown => absurd hknown h.named⟩, ?_⟩
      intro entry hentry
      cases hentry
    · rcases h.find hp hne with ⟨hnot, hget⟩ | ⟨pre, entry, post, hentries, hid, hget⟩
      · rw [hget]
        refine ⟨none, rfl, ⟨fun hsome => (nomatch hsome), fun hknown => absurd hknown hnot⟩, ?_⟩
        intro entry hentry
        cases hentry
      · have hat : traced.store.entries[pre.length]? = some entry := by
          rw [hentries, List.getElem?_append_right (Nat.le_refl _), Nat.sub_self]
          rfl
        rw [hget]
        refine ⟨some entry, congrArg Except.ok hat, ⟨fun _ => (h.known id).1 ?_, fun _ => rfl⟩, ?_⟩
        · refine List.mem_map.2 ⟨entry, ?_, hid⟩
          rw [hentries]
          exact List.mem_append_right _ List.mem_cons_self
        · intro found hfound
          obtain rfl := Option.some.inj hfound
          exact hid
  addrs entry hentry id hid := by
    obtain ⟨id', addrs, hkept⟩ := h.kept entry hentry
    obtain rfl := Option.some.inj (hid.symm.trans hkept.cell)
    exact hkept.addrs_law
  callers := h.callers
  own := h.own

/-! ## adding -/

theorem Traced.bytes_some (hp : traced.store.heap.cells p = some bytes) :
    traced.bytes (some p) = bytes := by
  unfold Traced.bytes
  rw [Option.bind_some, hp]
  rfl

/-- a live id has no bytes, or is in the heap -/
theorem Traced.Live.cases {peerId : Option Nat} {size : Nat} (h : traced.Live peerId size) :
    (size = 0 ∧ traced.bytes peerId = []) ∨
      ∃ p bytes, peerId = some p ∧ traced.store.heap.cells p = some bytes ∧ bytes ≠ [] ∧
        bytes.length = size ∧ traced.bytes peerId = bytes := by
  rcases h with ⟨rfl, rfl⟩ | ⟨p, bytes, rfl, hp, rfl⟩
  · exact .inl ⟨rfl, rfl⟩
  · by_cases hne : bytes = []
    · exact .inl ⟨by rw [hne]; rfl, by rw [bytes_some hp, hne]⟩
    · exact .inr ⟨p, bytes, rfl, hp, hne, rfl, bytes_some hp⟩

theorem peerstoreAddPeer_empty (hsize : peer.idSize = 0) :
    peerstoreAddPeer store peer = .ok (false, store) := by
  have hget : peerstoreGetPeerEntry store peer.id peer.idSize = .ok none := if_pos (.inl hsize)
  unfold peerstoreAddPeer
  rw [hget, ok_bind]
  exact if_neg (by omega)

theorem peerstoreAddPeer_new (hid : peer.id = some p) (hp : store.heap.cells p = some bytes)
    (hsize : bytes.length = peer.idSize) (hpos : 0 < peer.idSize) (hlong : peer.idSize < 100)
    (hget : peerstoreGetPeerEntry store peer.id peer.idSize = .ok none) :
    peerstoreAddPeer store peer = .ok (true, store.push bytes peer.given) := by
  have hread := readId_eq hp
  unfold peerstoreAddPeer peerIdToString peerCopy
  rw [hget, ok_bind]
  simp only
  rw [if_pos hpos, hid, ← hsize, hread, ok_bind, require_pos (by omega)]
  rfl

/-- **a new entry** keeps the invariant -/
theorem Invariant.new {given : List (List UInt8)} (h : Invariant heap localId traced)
    (hne : bytes ≠ []) (hnot : ¬ traced.Known bytes) (hgiven : ∀ a ∈ given, ProperAddr a) :
    Invariant heap localId
      { store := traced.store.push bytes given, added := traced.added ++ [(bytes, given)] } := by
  -- the ids that are there stay where they are
  have hsame : ∀ q id, traced.store.heap.cells q = some id →
      (traced.store.heap.alloc bytes).cells q = some id := by
    intro q id hq
    have hlt : q < traced.store.heap.fresh := Heap.lt_fresh (by rw [hq]; rfl)
    rw [Heap.alloc_cells_ne (by omega), hq]
  have hids : (traced.store.push bytes given).ids = traced.store.ids ++ [some bytes] := by
    unfold Peerstore.ids Peerstore.push
    rw [List.map_append, List.map_singleton, Heap.alloc_cells_fresh]
    refine congrArg (· ++ [some bytes]) (List.map_congr_left fun entry hentry => ?_)
    obtain ⟨id, hid, -⟩ := h.own entry hentry
    rw [hid]
    exact hsame _ _ hid
  have hnew : some bytes ∉ traced.store.ids := fun hmem => hnot ((h.known bytes).1 hmem)
  refine ⟨?_, ?_, fun id => ?_, ?_, ?_, fun q id hq => hsame q id (h.callers q id hq)⟩
  · show (traced.store.push bytes given).ids.Nodup
    rw [hids, List.nodup_append]
    refine ⟨h.once, List.nodup_singleton _, fun a ha b hb hab => ?_⟩
    rw [List.mem_singleton.1 hb] at hab
    exact hnew (hab ▸ ha)
  · show (traced.store.push bytes given).ids.head? = _
    rw [hids, List.head?_append, h.first]
    rfl
  · show some id ∈ (traced.store.push bytes given).ids ↔
      id ∈ List.map Prod.fst (traced.added ++ [(bytes, given)])
    rw [hids, List.map_append, List.mem_append, List.mem_append, h.known, List.map_singleton,
      List.mem_singleton, List.mem_singleton]
    exact or_congr Iff.rfl ⟨fun e => Option.some.inj e, fun e => congrArg some e⟩
  · show [] ∉ List.map Prod.fst (traced.added ++ [(bytes, given)])
    rw [List.map_append, List.mem_append]
    rintro (hmem | hmem)
    · exact h.named hmem
    · exact hne (List.mem_singleton.1 hmem).symm
  · intro entry hentry
    rcases List.mem_append.1 hentry with hold | hlast
    · obtain ⟨id, addrs, hkept⟩ := h.kept entry hold
      have hid : id ≠ bytes := by
        intro heq
        exact hnew (List.mem_map.2 ⟨entry, hold, hkept.cell.trans (congrArg some heq)⟩)
      refine ⟨id, addrs, hkept.mono ?_ fun addition hmem => ?_⟩
      · rw [hkept.cell]
        exact hsame _ _ hkept.cell
      · rw [List.mem_singleton.1 hmem]
        exact Ne.symm hid
    · obtain rfl := List.mem_singleton.1 hlast
      exact ⟨bytes, given, Kept.new hgiven hnot⟩

/-- **merging into an entry** keeps the invariant -/
theorem Invariant.merge {given : List (List UInt8)} {pre post : List PeerEntry}
    (h : Invariant heap localId traced) (hgiven : ∀ a ∈ given, ProperAddr a)
    (hentries : traced.store.entries = pre ++ entry :: post)
    (hid : traced.store.heap.cells entry.id = some bytes) :
    ∃ addrs, (∀ a ∈ addrs, ProperAddr a) ∧ entry.addrs = addrs.map some ∧
      Invariant heap localId {
        store := { traced.store with
          entries := pre ++ { entry with addrs := (mergeAddrs given addrs).map some } :: post }
        added := traced.added ++ [(bytes, given)] } := by
  have hmem : entry ∈ traced.store.entries := by
    rw [hentries]
    exact List.mem_append_right _ List.mem_cons_self
  obtain ⟨id, addrs, hkept⟩ := h.kept entry hmem
  obtain rfl : id = bytes := Option.some.inj (hkept.cell.symm.trans hid)
  refine ⟨addrs, hkept.proper, hkept.addrs_eq, ?_⟩
  have hids : (pre ++ { entry with addrs := (mergeAddrs given addrs).map some } :: post).map
      (fun entry => traced.store.heap.cells entry.id) = traced.store.ids := by
    unfold Peerstore.ids
    rw [hentries, List.map_append, List.map_append]
    rfl
  have hknown : traced.Known id := (h.known id).1 (List.mem_map.2 ⟨entry, hmem, hid⟩)
  -- the other entries have other ids
  have hother : ∀ other ∈ pre ++ post, ∀ id', traced.store.heap.cells other.id = some id' →
      id ≠ id' := by
    intro other hother id' hid' heq
    have honce := h.once
    unfold Peerstore.ids at honce
    rw [hentries, List.map_append, List.map_cons, List.nodup_middle, List.nodup_cons,
      ← List.map_append] at honce
    refine honce.1 (List.mem_map.2 ⟨other, hother, ?_⟩)
    rw [hid, hid', heq]
  refine ⟨?_, ?_, fun id' => ?_, ?_, ?_, h.callers⟩
  · show (List.map _ _).Nodup
    rw [hids]
    exact h.once
  · show (List.map _ _).head? = _
    rw [hids]
    exact h.first
  · show some id' ∈ List.map _ _ ↔ id' ∈ List.map Prod.fst (traced.added ++ [(id, given)])
    rw [hids, h.known, List.map_append, List.mem_append, List.map_singleton, List.mem_singleton]
    refine ⟨.inl, ?_⟩
    rintro (hmem | rfl)
    · exact hmem
    · exact hknown
  · show [] ∉ List.map Prod.fst (traced.added ++ [(id, given)])
    rw [List.map_append, List.mem_append]
    rintro (hmem | hmem)
    · exact h.named hmem
    · have heq : [] = id := List.mem_singleton.1 hmem
      refine h.named ?_
      rw [heq]
      exact hknown
  · intro other hmem
    have hcases : other = { entry with addrs := (mergeAddrs given addrs).map some } ∨
        other ∈ pre ++ post := by
      rcases List.mem_append.1 hmem with hmem | hmem
      · exact .inr (List.mem_append_left _ hmem)
      · rcases List.mem_cons.1 hmem with hmem | hmem
        · exact .inl hmem
        · exact .inr (List.mem_append_right _ hmem)
    rcases hcases with rfl | hmem
    · exact ⟨id, mergeAddrs given addrs, hkept.merge hgiven⟩
    · have hold : other ∈ traced.store.entries := by
        rw [hentries]
        rcases List.mem_append.1 hmem with hmem | hmem
        · exact List.mem_append_left _ hmem
        · exact List.mem_append_right _ (List.mem_cons_of_mem _ hmem)
      obtain ⟨id', addrs', hkept'⟩ := h.kept other hold
      refine ⟨id', addrs', hkept'.mono rfl fun addition hadd => ?_⟩
      rw [List.mem_singleton.1 hadd]
      exact hother other hmem id' hkept'.cell

/-- **a step of adding** -/
theorem Invariant.addPeer (h : Invariant heap localId traced) (hadd : traced.Addable peer) :
    ∃ done store, peerstoreAddPeer traced.store peer = .ok (done, store) ∧
      Invariant heap localId
        { store := store, added := traced.added ++ (PeerstoreOp.addPeer peer).supplies traced } ∧
      ∀ p id, traced.store.heap.cells p = some id → store.heap.cells p = some id := by
  rcases hadd.live.cases with ⟨hsize, hbytes⟩ | ⟨p, bytes, hid, hp, hne, hsize, hbytes⟩
  · refine ⟨false, traced.store, peerstoreAddPeer_empty hsize, ?_, fun p id hp => hp⟩
    have hnone : (PeerstoreOp.addPeer peer).supplies traced = [] := if_pos hbytes
    rw [hnone, List.append_nil]
    exact h
  · have hsup : (PeerstoreOp.addPeer peer).supplies traced = [(bytes, peer.given)] := by
      unfold PeerstoreOp.supplies
      simp only
      rw [hbytes, if_neg hne]
    have hpos := List.length_pos_iff.2 hne
    have hfind := h.find hp hne
    rw [hsize, ← hid] at hfind
    rw [hsup]
    rcases hfind with ⟨hnot, hget⟩ | ⟨pre, entry, post, hentries, hcell, hget⟩
    · refine ⟨true, _, peerstoreAddPeer_new hid hp hsize (by omega) hadd.size hget,
        h.new hne hnot hadd.addrs, fun q id hq => ?_⟩
      have hlt : q < traced.store.heap.fresh := Heap.lt_fresh (by rw [hq]; rfl)
      show (traced.store.heap.alloc bytes).cells q = some id
      rw [Heap.alloc_cells_ne (by omega), hq]
    · obtain ⟨addrs, hproper, haddrs, hinv⟩ := h.merge hadd.addrs hentries hcell
      have hupdate := peerstoreUpdateAddresses_eq hadd.addrs hproper
      rw [← haddrs] at hupdate
      have hat : traced.store.entries[pre.length]? = some entry := by
        rw [hentries, List.getElem?_append_right (Nat.le_refl _), Nat.sub_self]
        rfl
      have hset : ∀ other, traced.store.entries.set pre.length other = pre ++ other :: post := by
        intro other
        rw [hentries, List.set_append_right _ _ (Nat.le_refl _), Nat.sub_self]
        rfl
      refine ⟨true, _, ?_, hinv, fun q id hq => hq⟩
      unfold peerstoreAddPeer
      rw [hget, ok_bind]
      simp only
      rw [hat, deref_some, ok_bind, hupdate, ok_bind, hset]
      rfl

/-- looking up a live id comes to an end -/
theorem Invariant.getPeer {peerId : Option Nat} {size : Nat} (h : Invariant heap localId traced)
    (hlive : traced.Live peerId size) :
    ∃ found, peerstoreGetPeer traced.store peerId size = .ok found ∧
      (found.isSome ↔ traced.Known (traced.bytes peerId)) := by
  rcases hlive.cases with ⟨rfl, hbytes⟩ | ⟨p, bytes, rfl, hp, -, rfl, hbytes⟩
  · rw [hbytes]
    have hget : peerstoreGetPeerEntry traced.store peerId 0 = .ok none := if_pos (.inl rfl)
    refine ⟨none, ?_, ⟨fun hsome => (nomatch hsome), fun hknown => absurd hknown h.named⟩⟩
    unfold peerstoreGetPeer
    rw [hget]
    rfl
  · rw [hbytes]
    obtain ⟨found, hfound, hsome, -⟩ := h.law.get p bytes hp
    exact ⟨found, hfound, hsome⟩

theorem Invariant.getOrAddPeer (h : Invariant heap localId traced)
    (hallowed : (PeerstoreOp.getOrAddPeer peer).Allowed traced) :
    ∃ out store, peerstoreGetOrAddPeer traced.store peer = .ok (out, store) ∧
      Invariant heap localId {
        store := store
        added := traced.added ++ (PeerstoreOp.getOrAddPeer peer).supplies traced } := by
  have hlive : traced.Live peer.id peer.idSize := by
    rcases hallowed with hadd | ⟨hlive, -⟩
    · exact hadd.live
    · exact hlive
  obtain ⟨found, hfound, hsome⟩ := h.getPeer hlive
  unfold peerstoreGetOrAddPeer
  rw [hfound, ok_bind]
  cases found with
  | some entry =>
    have hsup : (PeerstoreOp.getOrAddPeer peer).supplies traced = [] :=
      if_pos (.inr (hsome.1 rfl))
    refine ⟨some entry, traced.store, rfl, ?_⟩
    rw [hsup, List.append_nil]
    exact h
  | none =>
    have hnot : ¬ traced.Known (traced.bytes peer.id) := fun hknown => (nomatch hsome.2 hknown)
    have hadd := hallowed.resolve_right fun hknown => hnot hknown.2
    obtain ⟨done, store, hdone, hinv, hsame⟩ := h.addPeer hadd
    have hsup : (PeerstoreOp.getOrAddPeer peer).supplies traced =
        (PeerstoreOp.addPeer peer).supplies traced := by
      unfold PeerstoreOp.supplies
      simp only
      by_cases hbytes : traced.bytes peer.id = []
      · rw [if_pos (.inl hbytes), if_pos hbytes]
      · rw [if_neg fun hor => hor.elim hbytes hnot, if_neg hbytes]
    rw [hsup]
    simp only
    rw [hdone, ok_bind]
    cases done with
    | false => exact ⟨none, store, rfl, hinv⟩
    | true =>
      -- the id is looked up once more
      obtain ⟨out, hout⟩ : ∃ out, peerstoreGetPeer store peer.id peer.idSize = .ok out := by
        rcases hlive with ⟨hid, hsize⟩ | ⟨p, bytes, hid, hp, hsize⟩
        · obtain ⟨out, hout, -⟩ := hinv.getPeer (.inl ⟨hid, hsize⟩)
          exact ⟨out, hout⟩
        · obtain ⟨out, hout, -⟩ := hinv.getPeer (.inr ⟨p, bytes, hid, hsame p bytes hp, hsize⟩)
          exact ⟨out, hout⟩
      refine ⟨out, store, ?_, hinv⟩
      simp only [if_true]
      rw [hout]
      rfl

theorem Invariant.getOrAddPeerById {peerId : Option Nat} {size : Nat}
    (h : Invariant heap localId traced)
    (hallowed : (PeerstoreOp.getOrAddPeerById peerId size).Allowed traced) :
    ∃ out, peerstoreGetOrAddPeerById traced.store peerId size = .ok (out, traced.store) ∧
      (PeerstoreOp.getOrAddPeerById peerId size).supplies traced = [] := by
  obtain ⟨hlive, hknown⟩ := hallowed
  by_cases hsize : size = 0
  · refine ⟨none, if_pos hsize, if_pos (.inl ?_)⟩
    rcases hlive.cases with ⟨-, hbytes⟩ | ⟨p, bytes, -, -, hne, hlen, -⟩
    · exact hbytes
    · rw [hsize] at hlen
      exact absurd (List.eq_nil_of_length_eq_zero hlen) hne
  · have hknown := hknown.resolve_left hsize
    obtain ⟨found, hfound, hsome⟩ := h.getPeer hlive
    cases found with
    | none => exact nomatch hsome.2 hknown
    | some entry =>
      refine ⟨some entry, ?_, if_pos (.inr hknown)⟩
      unfold peerstoreGetOrAddPeerById
      rw [if_neg hsize, hfound]
      rfl

/-- **a step** that is allowed keeps the invariant -/
theorem Invariant.step {op : PeerstoreOp} (h : Invariant heap localId traced)
    (hallowed : op.Allowed traced) :
    ∃ traced', op.step traced = .ok traced' ∧ Invariant heap localId traced' := by
  unfold PeerstoreOp.step PeerstoreOp.run
  cases op with
  | addPeer peer =>
    obtain ⟨done, store, hdone, hinv, -⟩ := h.addPeer hallowed
    simp only
    rw [hdone]
    exact ⟨_, rfl, hinv⟩
  | getPeer peerId size =>
    obtain ⟨found, hfound, -⟩ := h.getPeer hallowed
    simp only
    rw [hfound]
    refine ⟨_, rfl, ?_⟩
    show Invariant heap localId { store := traced.store, added := traced.added ++ [] }
    rw [List.append_nil]
    exact h
  | getOrAddPeer peer =>
    obtain ⟨out, store, hout, hinv⟩ := h.getOrAddPeer hallowed
    simp only
    rw [hout]
    exact ⟨_, rfl, hinv⟩
  | getOrAddPeerById peerId size =>
    obtain ⟨out, hout, hsup⟩ := h.getOrAddPeerById hallowed
    simp only
    rw [hout, hsup]
    refine ⟨_, rfl, ?_⟩
    show Invariant heap localId { store := traced.store, added := traced.added ++ [] }
    rw [List.append_nil]
    exact h

end

/-! ## runs from a new store -/

/-- a local peer with an id of 1 to 99 bytes -/
structure LocalPeer (heap : Heap (List UInt8)) (localPeer : GivenPeer) (localId : List UInt8) :
    Prop where
  id : ∃ p, localPeer.id = some p ∧ heap.cells p = some localId
  size : localId.length = localPeer.idSize
  pos : 0 < localPeer.idSize
  short : localPeer.idSize < 100
  addrs : ∀ addr ∈ localPeer.given, ProperAddr addr

section
variable {heap : Heap (List UInt8)} {localPeer : GivenPeer} {localId : List UInt8}

/-- **a new store** has the local peer in it -/
theorem LocalPeer.invariant (h : LocalPeer heap localPeer localId) :
    ∃ store, peerstoreNew heap localPeer = .ok store ∧
      Invariant heap localId { store := store, added := [(localId, localPeer.given)] } := by
  obtain ⟨p, hid, hp⟩ := h.id
  have hget : peerstoreGetPeerEntry { heap := heap, entries := [] } localPeer.id localPeer.idSize =
      .ok none := by
    unfold peerstoreGetPeerEntry
    split
    · rfl
    · rfl
  have hadd := @peerstoreAddPeer_new { heap := heap, entries := [] } p localId localPeer hid hp
    h.size h.pos h.short hget
  refine ⟨_, by unfold peerstoreNew; rw [hadd]; rfl, ?_⟩
  have hids : (Peerstore.push { heap := heap, entries := [] } localId localPeer.given).ids =
      [some localId] := by
    unfold Peerstore.ids Peerstore.push
    rw [List.nil_append, List.map_singleton, Heap.alloc_cells_fresh]
  have hne : localId ≠ [] := by
    have hpos := h.pos
    rw [← h.size] at hpos
    exact List.length_pos_iff.1 hpos
  refine ⟨?_, ?_, fun id => ?_, ?_, ?_, fun q id hq => ?_⟩
  · show (Peerstore.push _ _ _).ids.Nodup
    rw [hids]
    exact List.nodup_singleton _
  · show (Peerstore.push _ _ _).ids.head? = _
    rw [hids]
    rfl
  · show some id ∈ (Peerstore.push _ _ _).ids ↔ id ∈ [localId]
    rw [hids, List.mem_singleton, List.mem_singleton]
    exact ⟨fun e => Option.some.inj e, fun e => congrArg some e⟩
  · exact fun hmem => hne (List.mem_singleton.1 hmem).symm
  · intro entry hentry
    obtain rfl := List.mem_singleton.1 hentry
    exact ⟨localId, localPeer.given, @Kept.new heap localId [] _ h.addrs List.not_mem_nil⟩
  · have hlt : q < heap.fresh := Heap.lt_fresh (by rw [hq]; rfl)
    show (heap.alloc localId).cells q = some id
    rw [Heap.alloc_cells_ne (by omega), hq]

/-- **the law holds along every run** that adds no peer by its id alone -/
theorem peerstoreLaw_along (h : LocalPeer heap localPeer localId) :
    ∃ store, peerstoreNew heap localPeer = .ok store ∧
      ∀ ops, Guarded PeerstoreOp.step PeerstoreOp.Allowed ops
          { store := store, added := [(localId, localPeer.given)] } →
        HoldsAlong PeerstoreOp.step (PeerstoreLaw heap localId) ops
          { store := store, added := [(localId, localPeer.given)] } := by
  obtain ⟨store, hstore, hinv⟩ := h.invariant
  refine ⟨store, hstore, fun ops hguard => ?_⟩
  have hstep : ∀ (op : PeerstoreOp) (traced : Traced), Invariant heap localId traced →
      op.Allowed traced → ∃ traced', op.step traced = .ok traced' ∧
        Invariant heap localId traced' := fun op traced hinv hallowed => hinv.step hallowed
  exact HoldsAlong.mono (fun traced hinv => hinv.law) (holdsAlong_of_step hstep hinv hguard)

end

/-- the ids of two peers -/
def twoIds : Heap (List UInt8) := (Heap.empty.alloc [1]).alloc [2]

def firstPeer : GivenPeer := { id := some 0, idSize := 1, addrs := [some [4, 127, 0, 0, 1]] }

theorem localPeer_firstPeer : LocalPeer twoIds firstPeer [1] where
  id := ⟨0, rfl, rfl⟩
  size := rfl
  pos := by decide
  short := by decide
  addrs := by
    intro addr haddr
    obtain rfl := List.mem_singleton.1 haddr
    exact ⟨List.cons_ne_nil _ _, by decide⟩

def secondPeer : GivenPeer :=
  { id := some 1, idSize := 1, addrs := [some [4, 127, 0, 0, 2], none, some [4, 127, 0, 0, 3]] }

/-- a second peer is added, looked up, and added with one more address; the first is added again -/
theorem peerstoreLaw_along_firstPeer :
    ∃ store, peerstoreNew twoIds firstPeer = .ok store ∧
      HoldsAlong PeerstoreOp.step (PeerstoreLaw twoIds [1])
        [.addPeer secondPeer, .getPeer (some 1) 1,
          .addPeer { secondPeer with addrs := [some [4, 127, 0, 0, 4]] },
          .getOrAddPeerById (some 1) 1, .getOrAddPeer firstPeer]
        { store := store, added := [([1], [[4, 127, 0, 0, 1]])] } := by
  obtain ⟨store, hstore, hruns⟩ := peerstoreLaw_along localPeer_firstPeer
  refine ⟨store, hstore, hruns _ ?_⟩
  have hnew : peerstoreNew twoIds firstPeer =
      .ok (Peerstore.push { heap := twoIds, entries := [] } [1] [[4, 127, 0, 0, 1]]) := rfl
  obtain rfl := Except.ok.inj (hstore.symm.trans hnew)
  decide +kernel

/-- the arguments are live, and what is added is proper -/
def PeerstoreOp.Callable (op : PeerstoreOp) (traced : Traced) : Prop :=
  match op with
  | .addPeer peer => traced.Addable peer
  | .getPeer id size => traced.Live id size
  | .getOrAddPeer peer => traced.Addable peer
  | .getOrAddPeerById id size => traced.Live id size

/-- **the id of a peer that is added by it** is freed, and read once more -/
theorem not_peerstoreLaw_along :
    ¬ ∀ (heap : Heap (List UInt8)) (localPeer : GivenPeer) (localId : List UInt8),
      LocalPeer heap localPeer localId →
        ∃ store, peerstoreNew heap localPeer = .ok store ∧
          ∀ ops, Guarded PeerstoreOp.step PeerstoreOp.Callable ops
              { store := store, added := [(localId, localPeer.given)] } →
            HoldsAlong PeerstoreOp.step (PeerstoreLaw heap localId) ops
              { store := store, added := [(localId, localPeer.given)] } := by
  intro h
  obtain ⟨store, hstore, hruns⟩ := h twoIds firstPeer [1] localPeer_firstPeer
  have hnew : peerstoreNew twoIds firstPeer =
      .ok (Peerstore.push { heap := twoIds, entries := [] } [1] [[4, 127, 0, 0, 1]]) := rfl
  rw [hnew] at hstore
  cases hstore
  have hfault : PeerstoreOp.step (.getOrAddPeerById (some 1) 1) {
      store := Peerstore.push { heap := twoIds, entries := [] } [1] [[4, 127, 0, 0, 1]]
      added := [([1], firstPeer.given)] } = .error .freed := rfl
  have halong := hruns [.getOrAddPeerById (some 1) 1]
    ⟨.inr ⟨1, [2], rfl, rfl, rfl⟩, fun traced htraced => trivial⟩
  obtain ⟨-, traced, htraced, -⟩ := holdsAlong_cons.1 halong
  rw [hfault] at htraced
  cases htraced

end Libp2p
