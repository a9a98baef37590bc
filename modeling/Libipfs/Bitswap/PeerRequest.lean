import Libipfs.Libp2p.Peer
import Libipfs.Libp2p.Vector
import Libipfs.Blocks.Block

/-!
# Requests of a peer

What is owed to one peer and what it owes: the CIDs it wants, the CIDs wanted from it, and the
blocks that wait to be sent to it.

* `peerRequestCidsWaiting`, `peerRequestWeWantCids`   is there something to look up, something
                        to ask for;
* `peerRequestSomethingToDo`   is the request worth handling; asks the connection when the lists
                        are idle;
* `Quiet`, `CanLook`    nothing to do, found out without a fault; no fault in finding out.
-/

namespace Ipfs
open CSem Libp2p

structure CidEntry where
  cid : Option Cid := none
  cancel : Bool := false
  cancelHasBeenSent : Bool := false
  requestHasBeenSent : Bool := false
  deriving DecidableEq, Repr

def peerRequestCidEntryNew : CidEntry := {}

structure PeerRequest where
  peer : Option Peer := none
  cidsTheyWant : List (Option CidEntry) := []
  cidsWeWant : List (Option CidEntry) := []
  blocksWeWantToSend : List (Option Block) := []
  deriving DecidableEq, Repr

def peerRequestNew : PeerRequest := {}

/-- is there a CID in the list that is not cancelled -/
def peerRequestCidsWaiting (cidEntries : List (Option CidEntry)) : Bool :=
  cidEntries.any fun entry => entry.any fun e => !e.cancel

/-- is there a want or a cancel that has not been sent; every entry is followed -/
def peerRequestWeWantCids : List (Option CidEntry) → Exec Bool
  | [] => .ok false
  | entry :: entries => do
    let e ← deref entry
    if e.cancel && !e.cancelHasBeenSent then .ok true
    else if !e.cancel && !e.requestHasBeenSent then .ok true
    else peerRequestWeWantCids entries

/-! ## something to do -/

def peerHandleConnectionError (peer : Peer) : Peer :=
  { peer with connectionType := connectionTypeNotConnected, hasSession := false }

/-- `peek` is what the stream of the connection answers; a negative answer marks the peer as not
connected -/
def peerRequestSomethingToDo (peek : Int) (request : PeerRequest) : Exec (Int × PeerRequest) :=
  if 0 < request.blocksWeWantToSend.length then .ok (1, request)
  else if 0 < request.cidsWeWant.length then .ok (1, request)
  else if peerRequestCidsWaiting request.cidsTheyWant then .ok (1, request)
  else do
    let peer ← deref request.peer
    if peer.connectionType = connectionTypeConnected then
      require .null peer.hasSession
      if peek < 0 then .ok (0, { request with peer := some (peerHandleConnectionError peer) })
      else .ok (peek, request)
    else .ok (0, request)

/-- the request is looked at without a fault and there is nothing to do -/
def Quiet (peek : Int) (request : PeerRequest) : Prop :=
  request.blocksWeWantToSend = [] ∧ request.cidsWeWant = [] ∧
    peerRequestCidsWaiting request.cidsTheyWant = false ∧
    ∃ peer, request.peer = some peer ∧
      (peer.connectionType = connectionTypeConnected → peer.hasSession = true ∧ peek ≤ 0)

/-- the peer is looked at only when the lists are idle -/
def CanLook (request : PeerRequest) : Prop :=
  request.blocksWeWantToSend = [] → request.cidsWeWant = [] →
    peerRequestCidsWaiting request.cidsTheyWant = false →
    ∃ peer, request.peer = some peer ∧
      (peer.connectionType = connectionTypeConnected → peer.hasSession = true)

/-- nothing waits in the lists -/
def ListsIdle (request : PeerRequest) : Prop :=
  request.blocksWeWantToSend = [] ∧ request.cidsWeWant = [] ∧
    peerRequestCidsWaiting request.cidsTheyWant = false

section
variable {peek : Int} {request request' : PeerRequest} {r : Int}

theorem peerRequestSomethingToDo_busy (h : ¬ ListsIdle request) :
    peerRequestSomethingToDo peek request = .ok (1, request) := by
  unfold peerRequestSomethingToDo
  by_cases hb : request.blocksWeWantToSend = []
  · by_cases hw : request.cidsWeWant = []
    · have ht : peerRequestCidsWaiting request.cidsTheyWant = true :=
        Bool.of_not_eq_false fun ht => h ⟨hb, hw, ht⟩
      rw [if_pos ht, ite_self, ite_self]
    · rw [if_pos (List.length_pos_iff.2 hw), ite_self]
  · rw [if_pos (List.length_pos_iff.2 hb)]

theorem peerRequestSomethingToDo_idle (h : ListsIdle request) :
    peerRequestSomethingToDo peek request = deref request.peer >>= fun peer =>
      if peer.connectionType = connectionTypeConnected then
        require .null peer.hasSession >>= fun _ =>
          if peek < 0 then .ok (0, { request with peer := some (peerHandleConnectionError peer) })
          else .ok (peek, request)
      else .ok (0, request) := by
  obtain ⟨hb, hw, ht⟩ := h
  have hb' : ¬ 0 < request.blocksWeWantToSend.length := by rw [hb]; exact Nat.lt_irrefl 0
  have hw' : ¬ 0 < request.cidsWeWant.length := by rw [hw]; exact Nat.lt_irrefl 0
  unfold peerRequestSomethingToDo
  rw [if_neg hb', if_neg hw', if_neg (Bool.not_eq_true _ ▸ ht)]

/-- looking at a request changes the connection of its peer at most -/
theorem peerRequestSomethingToDo_same
    (h : peerRequestSomethingToDo peek request = .ok (r, request')) :
    request'.peer.map Peer.id = request.peer.map Peer.id := by
  by_cases hidle : ListsIdle request
  · rw [peerRequestSomethingToDo_idle hidle] at h
    obtain ⟨peer, hp, h⟩ := bind_eq_ok.1 h
    rw [deref_eq_ok] at hp
    split at h
    · obtain ⟨-, h⟩ := require_bind_eq_ok.1 h
      split at h
      · cases h
        rw [hp]
        rfl
      · cases h
        rfl
    · cases h
      rfl
  · rw [peerRequestSomethingToDo_busy hidle] at h
    cases h
    rfl

theorem safe_peerRequestSomethingToDo :
    Safe (peerRequestSomethingToDo peek request) ↔ CanLook request := by
  by_cases hidle : ListsIdle request
  · have hlook : CanLook request ↔ ∃ peer, request.peer = some peer ∧
        (peer.connectionType = connectionTypeConnected → peer.hasSession = true) :=
      ⟨fun h => h hidle.1 hidle.2.1 hidle.2.2, fun h _ _ _ => h⟩
    rw [peerRequestSomethingToDo_idle hidle, safe_bind, hlook]
    refine exists_congr fun peer => and_congr deref_eq_ok ?_
    by_cases hc : peer.connectionType = connectionTypeConnected
    · rw [if_pos hc]
      constructor
      · intro h _
        obtain ⟨u, hu⟩ := h.of_bind
        exact require_eq_ok.1 hu
      · intro h
        rw [require_pos (h hc), ok_bind]
        split <;> exact safe_ok _
    · rw [if_neg hc]
      exact ⟨fun _ h => absurd h hc, fun _ => safe_ok _⟩
  · rw [peerRequestSomethingToDo_busy hidle]
    exact ⟨fun _ hb hw ht => absurd ⟨hb, hw, ht⟩ hidle, fun _ => safe_ok _⟩

/-- **nothing to do** -/
theorem peerRequestSomethingToDo_eq_zero :
    (∃ request', peerRequestSomethingToDo peek request = .ok (0, request')) ↔
      Quiet peek request := by
  by_cases hidle : ListsIdle request
  · rw [peerRequestSomethingToDo_idle hidle]
    constructor
    · intro h
      obtain ⟨request', h⟩ := h
      obtain ⟨peer, hp, h⟩ := bind_eq_ok.1 h
      refine ⟨hidle.1, hidle.2.1, hidle.2.2, peer, deref_eq_ok.1 hp, fun hc => ?_⟩
      rw [if_pos hc] at h
      obtain ⟨hs, h⟩ := require_bind_eq_ok.1 h
      refine ⟨hs, ?_⟩
      split at h
      · omega
      · cases h
        exact le_rfl
    · intro h
      obtain ⟨-, -, -, peer, hp, hpeer⟩ := h
      rw [hp, deref_some, ok_bind]
      by_cases hc : peer.connectionType = connectionTypeConnected
      · obtain ⟨hs, hpeek⟩ := hpeer hc
        rw [if_pos hc, require_pos hs, ok_bind]
        by_cases h0 : peek < 0
        · exact ⟨_, if_pos h0⟩
        · obtain rfl : peek = 0 := by omega
          exact ⟨request, if_neg h0⟩
      · exact ⟨request, if_neg hc⟩
  · rw [peerRequestSomethingToDo_busy hidle]
    constructor
    · intro h
      obtain ⟨request', h⟩ := h
      cases h
    · intro h
      exact absurd ⟨h.1, h.2.1, h.2.2.1⟩ hidle

end

end Ipfs
