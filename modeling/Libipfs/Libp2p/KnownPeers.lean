import Libipfs.Libp2p.Peer
import Libipfs.Libp2p.Peerstore
import Libipfs.Multiaddr.ProtoUtils
import Mathlib.Data.List.Basic

/-!
# Known peers and their sessions

The peerstore again, with what the protocols read of a peer: its id by value, its addresses, the
mark that says whether it is connected, and its session.  A session is an address in a heap of
sessions; the mark and the session are fields of their own.

* `multiaddressNewFromBytes`, `multiaddressNewFromString`   an address, or a null pointer;
* `peerstoreGetPeerEntry`, `peerstoreAddPeer`   of `KnownPeers`, the operations;
* `updateAddresses_eq`    what merging addresses comes to, whatever they are;
* `peerstoreAddPeer_cases`   **all that adding a peer can do**;
* `peerstoreAddPeer_kept`, `peerstoreAddPeer_mem`, `peerstoreAddPeer_found`   whom the peerstore
                          holds then, and where.
-/

namespace Libp2p
open CSem

/-! ## addresses -/

instance (addr : List UInt8) : Decidable (ProperAddr addr) :=
  inferInstanceAs (Decidable (addr ≠ [] ∧ addr.length < 2 ^ 31))

/-- the bytes of an address: there are some, and their number is an `int` -/
abbrev Multiaddress : Type := { addr : List UInt8 // ProperAddr addr }

/-- `none` for a null pointer; the digits of no bytes are read behind their end -/
def multiaddressNewFromBytes (bytes : List UInt8) : Exec (Option Multiaddress) :=
  if h : ProperAddr bytes then do
    let text ← bytesToString bytes
    .ok (text.map fun _ => ⟨bytes, h⟩)
  else .error .outOfBounds

/-- `none` for a null pointer -/
def multiaddressNewFromString (straddress : List UInt8) : Exec (Option Multiaddress) := do
  match ← stringToBytes straddress straddress.length with
  | none => .ok none
  | some bytes =>
    if h : ProperAddr bytes then .ok (some ⟨bytes, h⟩)
    else .error .uninitialized

/-- some address of the list equals this one -/
def findAddress (incoming : Multiaddress) : List Multiaddress → Exec Bool
  | [] => .ok false
  | existing :: addrs => do
    let total ← multiaddressCompare incoming.1 existing.1
    if total = 0 then .ok true else findAddress incoming addrs

/-- an address that is not there is put in front; null ones are passed over -/
def updateAddresses : List (Option Multiaddress) → List Multiaddress → Exec (List Multiaddress)
  | [], existing => .ok existing
  | none :: incoming, existing => updateAddresses incoming existing
  | some addr :: incoming, existing => do
    let found ← findAddress addr existing
    if found then updateAddresses incoming existing
    else updateAddresses incoming (addr :: existing)

/-! ## peers -/

/-- `addrs` are null or not in a peer that was received, and never null in the peerstore -/
structure PeerWith (A : Type) where
  id : List UInt8 := []
  addrs : List A := []
  connectionType : UInt32 := connectionTypeNotConnected
  sessionContext : Option Nat := none
  isLocal : Bool := false
  deriving DecidableEq, Repr

abbrev GivenOrNull : Type := PeerWith (Option Multiaddress)

abbrev KnownPeer : Type := PeerWith Multiaddress

abbrev KnownPeers : Type := List KnownPeer

/-- the addresses that are not null; the pointer to the session is copied too -/
def peerCopyGiven (peer : GivenOrNull) : KnownPeer where
  id := peer.id
  addrs := peer.addrs.filterMap fun addr => addr
  connectionType := peer.connectionType
  sessionContext := peer.sessionContext
  isLocal := peer.isLocal

namespace KnownPeers

/-- the place of the first peer with this id, which no peer has that is empty -/
def peerstoreGetPeerEntry (peers : KnownPeers) (id : List UInt8) : Option Nat :=
  if id = [] then none else peers.findIdx? fun peer => peer.id = id

def peerstoreGetPeer (peers : KnownPeers) (id : List UInt8) : Option KnownPeer :=
  (peers.peerstoreGetPeerEntry id).bind fun k => peers[k]?

/-- the id is written into a string of 100 characters for the log -/
def peerstoreAddPeer (peers : KnownPeers) (peer : GivenOrNull) : Exec (Bool × KnownPeers) := do
  match peers.peerstoreGetPeerEntry peer.id with
  | some k => do
    let entry ← deref peers[k]?
    let addrs ← updateAddresses peer.addrs entry.addrs
    .ok (true, peers.set k { entry with addrs := addrs })
  | none =>
    if peer.id ≠ [] then do
      require .outOfBounds (peer.id.length < 100)
      .ok (true, peers ++ [peerCopyGiven peer])
    else .ok (false, peers)

end KnownPeers

/-! ## merging addresses -/

section
variable {given : List (Option Multiaddress)} {addrs : List Multiaddress} {a : Multiaddress}

theorem findAddress_eq (a : Multiaddress) (addrs : List Multiaddress) :
    findAddress a addrs = .ok (decide (a ∈ addrs)) := by
  induction addrs with
  | nil => rfl
  | cons b addrs ih =>
    obtain ⟨total, htotal, hzero⟩ := multiaddressCompare_eq_zero a.2 b.2
    rw [findAddress, htotal, ok_bind, ih]
    by_cases hab : a = b
    · rw [if_pos (hzero.2 (congrArg Subtype.val hab)), hab, decide_eq_true List.mem_cons_self]
    · have hmem : a ∈ b :: addrs ↔ a ∈ addrs :=
        ⟨fun h => (List.mem_cons.1 h).resolve_left hab, fun h => List.mem_cons_of_mem _ h⟩
      rw [if_neg fun h => hab (Subtype.ext (hzero.1 h)), decide_eq_decide.2 hmem]

/-- **merging** cannot fail -/
theorem updateAddresses_eq (given : List (Option Multiaddress)) (addrs : List Multiaddress) :
    updateAddresses given addrs =
      .ok (mergeAddrs (given.filterMap fun addr => addr) addrs) := by
  induction given generalizing addrs with
  | nil => rfl
  | cons addr given ih =>
    cases addr with
    | none => exact ih addrs
    | some a =>
      show updateAddresses (some a :: given) addrs =
        .ok (mergeAddrs (given.filterMap fun addr => addr) (addrs.insert a))
      rw [updateAddresses, findAddress_eq, ok_bind]
      by_cases hmem : a ∈ addrs
      · rw [decide_eq_true hmem, if_pos rfl, List.insert_of_mem hmem]
        exact ih addrs
      · rw [decide_eq_false hmem, if_neg Bool.false_ne_true, List.insert_of_not_mem hmem]
        exact ih (a :: addrs)

end

/-! ## looking up and adding -/

namespace KnownPeers

variable {peers peers' : KnownPeers} {peer : GivenOrNull} {id : List UInt8} {k : Nat}
  {added : Bool}

theorem peerstoreGetPeerEntry_eq_some (h : peers.peerstoreGetPeerEntry id = some k) :
    ∃ entry, peers[k]? = some entry ∧ entry.id = id ∧ id ≠ [] := by
  unfold peerstoreGetPeerEntry at h
  split at h
  · cases h
  · next hid =>
    obtain ⟨hk, hp, -⟩ := List.findIdx?_eq_some_iff_getElem.1 h
    exact ⟨peers[k], List.getElem?_eq_getElem hk, of_decide_eq_true hp, hid⟩

theorem peerstoreGetPeerEntry_eq_none :
    peers.peerstoreGetPeerEntry id = none ↔ id = [] ∨ ∀ entry ∈ peers, entry.id ≠ id := by
  unfold peerstoreGetPeerEntry
  by_cases hid : id = []
  · rw [if_pos hid]
    exact ⟨fun _ => .inl hid, fun _ => rfl⟩
  · rw [if_neg hid, List.findIdx?_eq_none_iff]
    constructor
    · intro h
      exact .inr fun entry hentry => of_decide_eq_false (h entry hentry)
    · rintro (h | h) entry hentry
      · exact absurd h hid
      · exact decide_eq_false (h entry hentry)

theorem peerstoreGetPeer_eq_some {there : KnownPeer} (h : peers.peerstoreGetPeer id = some there) :
    there ∈ peers ∧ there.id = id := by
  obtain ⟨k, hk, hthere⟩ := Option.bind_eq_some_iff.1 h
  obtain ⟨entry, hentry, hid, -⟩ := peerstoreGetPeerEntry_eq_some hk
  obtain rfl : entry = there := Option.some.inj (hentry.symm.trans hthere)
  exact ⟨List.mem_of_getElem? hentry, hid⟩

theorem peerstoreGetPeer_eq_none :
    peers.peerstoreGetPeer id = none ↔ id = [] ∨ ∀ entry ∈ peers, entry.id ≠ id := by
  rw [← peerstoreGetPeerEntry_eq_none]
  unfold peerstoreGetPeer
  cases hk : peers.peerstoreGetPeerEntry id with
  | none => exact ⟨fun _ => rfl, fun _ => rfl⟩
  | some k =>
    obtain ⟨entry, hentry, -, -⟩ := peerstoreGetPeerEntry_eq_some hk
    rw [Option.bind_some, hentry]
    exact ⟨(nomatch ·), (nomatch ·)⟩

/-- **all that adding a peer can do** -/
theorem peerstoreAddPeer_cases (h : peers.peerstoreAddPeer peer = .ok (added, peers')) :
    (∃ k entry, peers.peerstoreGetPeerEntry peer.id = some k ∧ peers[k]? = some entry ∧
      entry.id = peer.id ∧ added = true ∧
      peers' = peers.set k { entry with
        addrs := mergeAddrs (peer.addrs.filterMap fun addr => addr) entry.addrs }) ∨
    (peers.peerstoreGetPeerEntry peer.id = none ∧ peer.id ≠ [] ∧ peer.id.length < 100 ∧
      added = true ∧ peers' = peers ++ [peerCopyGiven peer]) ∨
    (peer.id = [] ∧ added = false ∧ peers' = peers) := by
  unfold peerstoreAddPeer at h
  cases hk : peers.peerstoreGetPeerEntry peer.id with
  | some k =>
    obtain ⟨entry, hentry, hid, -⟩ := peerstoreGetPeerEntry_eq_some hk
    rw [hk] at h
    dsimp only at h
    rw [hentry, deref_some, ok_bind, updateAddresses_eq, ok_bind] at h
    cases h
    exact .inl ⟨k, entry, rfl, hentry, hid, rfl, rfl⟩
  | none =>
    rw [hk] at h
    dsimp only at h
    split at h
    · next hid =>
      obtain ⟨hlen, h⟩ := require_bind_eq_ok.1 h
      cases h
      exact .inr (.inl ⟨rfl, hid, hlen, rfl, rfl⟩)
    · next hid =>
      cases h
      exact .inr (.inr ⟨not_not.1 hid, rfl, rfl⟩)

/-- a peer stays where it is, and loses no address -/
theorem peerstoreAddPeer_kept (h : peers.peerstoreAddPeer peer = .ok (added, peers'))
    {entry : KnownPeer} (hentry : peers[k]? = some entry) :
    ∃ addrs, peers'[k]? = some { entry with addrs := addrs } ∧ ∀ a ∈ entry.addrs, a ∈ addrs := by
  obtain ⟨j, there, -, hthere, -, -, rfl⟩ | ⟨-, -, -, -, rfl⟩ | ⟨-, -, rfl⟩ :=
    peerstoreAddPeer_cases h
  · by_cases hkj : j = k
    · subst hkj
      obtain rfl : there = entry := Option.some.inj (hthere.symm.trans hentry)
      obtain ⟨hj, -⟩ := List.getElem?_eq_some_iff.1 hentry
      exact ⟨_, List.getElem?_set_self hj, fun a ha => mem_mergeAddrs.2 (.inl ha)⟩
    · exact ⟨entry.addrs, (List.getElem?_set_ne hkj).trans hentry, fun a ha => ha⟩
  · obtain ⟨hk, -⟩ := List.getElem?_eq_some_iff.1 hentry
    exact ⟨entry.addrs, (List.getElem?_append_left hk).trans hentry, fun a ha => ha⟩
  · exact ⟨entry.addrs, hentry, fun a ha => ha⟩

/-- who is there was there before, or is the new one -/
theorem peerstoreAddPeer_mem (h : peers.peerstoreAddPeer peer = .ok (added, peers'))
    {entry' : KnownPeer} (hentry' : entry' ∈ peers') :
    (∃ entry ∈ peers, ∃ addrs, entry' = { entry with addrs := addrs }) ∨
      entry' = peerCopyGiven peer ∧ peers.peerstoreGetPeerEntry peer.id = none ∧
        peer.id ≠ [] ∧ peer.id.length < 100 := by
  obtain ⟨j, there, -, hthere, -, -, rfl⟩ | ⟨hnone, hne, hlen, -, rfl⟩ | ⟨-, -, rfl⟩ :=
    peerstoreAddPeer_cases h
  · obtain hmem | rfl := List.mem_or_eq_of_mem_set hentry'
    · exact .inl ⟨entry', hmem, entry'.addrs, rfl⟩
    · exact .inl ⟨there, List.mem_of_getElem? hthere, _, rfl⟩
  · obtain hmem | hmem := List.mem_append.1 hentry'
    · exact .inl ⟨entry', hmem, entry'.addrs, rfl⟩
    · exact .inr ⟨List.mem_singleton.1 hmem, hnone, hne, hlen⟩
  · exact .inl ⟨entry', hentry', entry'.addrs, rfl⟩

theorem peerstoreGetPeerEntry_set {entry entry' : KnownPeer} (hentry : peers[k]? = some entry)
    (hid : entry'.id = entry.id) :
    KnownPeers.peerstoreGetPeerEntry (peers.set k entry') id = peers.peerstoreGetPeerEntry id := by
  have hids : (peers.set k entry').map PeerWith.id = peers.map PeerWith.id := by
    obtain ⟨hk, hget⟩ := List.getElem?_eq_some_iff.1 hentry
    have hlt : k < (peers.map PeerWith.id).length := by rwa [List.length_map]
    have hthere : (peers.map PeerWith.id).get ⟨k, hlt⟩ = entry.id := by
      rw [List.get_eq_getElem, List.getElem_map, hget]
    rw [List.map_set, hid, ← hthere, List.get_eq_getElem, List.set_getElem_self]
  have hfind : ∀ peers : KnownPeers, peers.findIdx? (fun peer => peer.id = id) =
      (peers.map PeerWith.id).findIdx? fun there => there = id := by
    intro peers
    rw [List.findIdx?_map]
    rfl
  unfold peerstoreGetPeerEntry
  rw [hfind, hids, ← hfind]

theorem peerstoreGetPeerEntry_append (h : peers.peerstoreGetPeerEntry id = some k)
    (more : KnownPeers) :
    KnownPeers.peerstoreGetPeerEntry (peers ++ more) id = some k := by
  unfold peerstoreGetPeerEntry at h ⊢
  split at h
  · cases h
  · next hid => rw [if_neg hid, List.findIdx?_append, h, Option.some_or]

/-- the place of a peer stays what it is -/
theorem peerstoreAddPeer_place (h : peers.peerstoreAddPeer peer = .ok (added, peers'))
    (hk : peers.peerstoreGetPeerEntry id = some k) :
    peers'.peerstoreGetPeerEntry id = some k := by
  obtain ⟨j, there, -, hthere, -, -, rfl⟩ | ⟨-, -, -, -, rfl⟩ | ⟨-, -, rfl⟩ :=
    peerstoreAddPeer_cases h
  · exact Eq.trans (peerstoreGetPeerEntry_set hthere rfl) hk
  · exact peerstoreGetPeerEntry_append hk _
  · exact hk

/-- who was found is found, with the addresses of before -/
theorem peerstoreAddPeer_getPeer (h : peers.peerstoreAddPeer peer = .ok (added, peers'))
    {entry : KnownPeer} (hentry : peers.peerstoreGetPeer id = some entry) :
    ∃ addrs, peers'.peerstoreGetPeer id = some { entry with addrs := addrs } ∧
      ∀ a ∈ entry.addrs, a ∈ addrs := by
  obtain ⟨k, hk, hget⟩ := Option.bind_eq_some_iff.1 hentry
  obtain ⟨addrs, hkept, hsub⟩ := peerstoreAddPeer_kept h hget
  exact ⟨addrs, Option.bind_eq_some_iff.2 ⟨k, peerstoreAddPeer_place h hk, hkept⟩, hsub⟩

/-- **a peer that was added is found** with all its addresses -/
theorem peerstoreAddPeer_found (h : peers.peerstoreAddPeer peer = .ok (true, peers')) :
    ∃ entry, peers'.peerstoreGetPeer peer.id = some entry ∧
      ∀ a, some a ∈ peer.addrs → a ∈ entry.addrs := by
  have hgiven : ∀ a, some a ∈ peer.addrs → a ∈ peer.addrs.filterMap fun addr => addr :=
    fun a ha => List.mem_filterMap.2 ⟨some a, ha, rfl⟩
  obtain ⟨k, there, hk, hthere, hid, -, rfl⟩ | ⟨hnone, hne, -, -, rfl⟩ | ⟨-, hfalse, -⟩ :=
    peerstoreAddPeer_cases h
  · obtain ⟨hlt, -⟩ := List.getElem?_eq_some_iff.1 hthere
    refine ⟨_, Option.bind_eq_some_iff.2 ⟨k, ?_, List.getElem?_set_self hlt⟩, fun a ha => ?_⟩
    · exact Eq.trans (peerstoreGetPeerEntry_set hthere rfl) hk
    · exact mem_mergeAddrs.2 (.inr (hgiven a ha))
  · refine ⟨peerCopyGiven peer,
      Option.bind_eq_some_iff.2 ⟨peers.length, ?_, List.getElem?_concat_length⟩, hgiven⟩
    have hnone' : peers.findIdx? (fun there => there.id = peer.id) = none := by
      unfold peerstoreGetPeerEntry at hnone
      rwa [if_neg hne] at hnone
    unfold peerstoreGetPeerEntry
    rw [if_neg hne, List.findIdx?_append, hnone', Option.none_or]
    have hhere : [peerCopyGiven peer].findIdx? (fun there => there.id = peer.id) = some 0 := by
      have hid : decide ((peerCopyGiven peer).id = peer.id) = true := decide_eq_true rfl
      rw [List.findIdx?_cons, if_pos hid]
    rw [hhere, Option.map_some, Nat.zero_add]
  · cases hfalse

end KnownPeers

end Libp2p
