import Libipfs.Lib.Run
import Libipfs.Routing.Announcements
import Libipfs.Secio.Handshake

/-!
# Searching and announcing over the peers that are connected

A search asks the peers that are marked as connected one after the other, and an announcement is
sent to all of them.  The mark is all that is looked at; the session is a field of its own, and is
followed without a look.

* `onlineFindRemoteProviders`, `onlineProvide`   a search, and an announcement; `use` is what
                        following a session comes to;
* `OnlineOp`, `onlineStep`   messages that are handled, and searches;
* `Grown`               what the peerstore may become: no entry loses its mark or its session, and
                        none is marked that was not;
* `SessionsKept`        whoever is marked has a session, and searches and announcements never
                        follow one that is not there;
* `OnlineOp.Unmarked`   nobody who is new comes with the mark;
* `sessionsKept_along`  **the mark means a session** along a run of such operations.
-/

namespace Libp2p
open CSem

/-! ## searches and announcements -/

/-- the session is followed, and its default stream -/
def useSession (sessions : Heap PeerSession) (session : Option Nat) : Exec Unit := do
  let s ← deref session
  let context ← sessions.get s
  require .null (context.hasDefaultStream = true)

section
variable (use : Option Nat → Exec Unit) (msg : DhtMessage)

/-- `reply` is what is read when the message could be sent; `none` when nothing comes back or it
can not be decoded -/
def onlineSendReceiveMessage (session : Option Nat) (reply : Option (List UInt8)) :
    Exec (Option DhtMessage) := do
  let size := messageProtobufEncodeSize msg
  require .null (size ≤ ptrdiffMax)
  let _ ← messageProtobufEncode msg size
  use session
  dhtReceived reply

def returnedProviders : Option DhtMessage → List GivenOrNull
  | none => []
  | some returned => returned.providerPeers

/-- the places of the peers to which the message is sent, and the providers in the first reply that
names any; `replies n` is that of the n-th peer -/
def askConnected :
    List KnownPeer → (Nat → Option (List UInt8)) → Exec (List Nat × List GivenOrNull)
  | [], _ => .ok ([], [])
  | peer :: peers, replies =>
    if peer.connectionType = connectionTypeConnected then do
      let returned ← onlineSendReceiveMessage use msg peer.sessionContext (replies 0)
      if returnedProviders returned ≠ [] then .ok ([0], returnedProviders returned)
      else do
        let (asked, providers) ← askConnected peers fun n => replies (n + 1)
        .ok (0 :: asked.map (· + 1), providers)
    else do
      let (asked, providers) ← askConnected peers fun n => replies (n + 1)
      .ok (asked.map (· + 1), providers)

/-- whoever is not in the peerstore is added -/
def learnProvider (peers : KnownPeers) (provider : GivenOrNull) : Exec KnownPeers :=
  match peers.peerstoreGetPeer provider.id with
  | some _ => .ok peers
  | none => do
    let (_, peers) ← peers.peerstoreAddPeer provider
    .ok peers

/-- the providers as the peerstore has them, and the peerstore -/
def learnProviders : List GivenOrNull → KnownPeers → Exec (List (Option KnownPeer) × KnownPeers)
  | [], peers => .ok ([], peers)
  | provider :: providers, peers => do
    let peers ← learnProvider peers provider
    let (found, after) ← learnProviders providers peers
    .ok (peers.peerstoreGetPeer provider.id :: found, after)

/-- the key is written into 100 characters -/
def logKey (watching : Bool) (key : List UInt8) : Exec Unit :=
  if watching then do
    let _ ← cryptoEncodingBase58EncodeInto key 100
    .ok ()
  else .ok ()

def providersRequest (key : List UInt8) : DhtMessage where
  messageType := 3
  key := some key

/-- the places of the peers to which the request is sent, and `none` when no providers are found -/
def onlineFindRemoteProviders (watching : Bool) (key : List UInt8)
    (replies : Nat → Option (List UInt8)) (peers : KnownPeers) :
    Exec (List Nat × Option (List (Option KnownPeer)) × KnownPeers) := do
  logKey watching key
  let (asked, providers) ← askConnected use (providersRequest key) peers replies
  if providers ≠ [] then do
    let (found, peers) ← learnProviders providers peers
    .ok (asked, some found, peers)
  else .ok (asked, none, peers)

/-- the announcement of the local peer, who calls himself connected -/
def onlineProvideMessage (localPeer : KnownPeer) (addr : Multiaddress) (key : List UInt8) :
    DhtMessage where
  messageType := 2
  key := some key
  providerPeers :=
    [{ peerCopyKnown localPeer with
        connectionType := connectionTypeConnected
        addrs := [some addr] }]

/-- everybody who is connected is told, and what they reply is dropped -/
def tellConnected : List KnownPeer → (Nat → Option (List UInt8)) → Exec Unit
  | [], _ => .ok ()
  | peer :: peers, replies =>
    if peer.isLocal = false ∧ peer.connectionType = connectionTypeConnected then do
      let _ ← onlineSendReceiveMessage use msg peer.sessionContext (replies 0)
      tellConnected peers fun n => replies (n + 1)
    else tellConnected peers fun n => replies (n + 1)

def onlineProvide (localPeer : KnownPeer) (addr : Multiaddress) (key : List UInt8)
    (replies : Nat → Option (List UInt8)) (peers : KnownPeers) : Exec Unit :=
  tellConnected use (onlineProvideMessage localPeer addr key) peers replies

end

/-! ## a node, and what happens to it -/

/-- a node that handles messages, and the sessions of its peers -/
structure OnlineNode (D : Type) where
  dht : DhtNode D
  sessions : Heap PeerSession

/-- a message is handled, or the providers of a key are searched -/
inductive OnlineOp where
  | handled (buf : Option (List UInt8))
  | searched (key : List UInt8) (replies : Nat → Option (List UInt8))

def onlineStep {D : Type} (ctx : DhtContext D) (watching : Bool) :
    OnlineOp → OnlineNode D → Exec (OnlineNode D)
  | .handled buf, node => do
    let (_, dht) ← dhtHandleMessage ctx node.dht buf
    .ok { node with dht := dht }
  | .searched key replies, node => do
    let (_, _, peers) ← onlineFindRemoteProviders (useSession node.sessions) watching key replies
      node.dht.peerStore
    .ok { node with dht := { node.dht with peerStore := peers } }

/-! ## marks and sessions -/

def HasSession (sessions : Heap PeerSession) (peer : KnownPeer) : Prop :=
  ∃ session context, peer.sessionContext = some session ∧
    sessions.cells session = some context ∧ context.hasDefaultStream = true

/-- each entry that is marked as connected has a session with a default stream -/
def ConnectedHaveSessions (sessions : Heap PeerSession) (peers : KnownPeers) : Prop :=
  ∀ peer ∈ peers, peer.connectionType = connectionTypeConnected → HasSession sessions peer

/-- the entries of the start are where they were with the sessions that they had, the sessions are
what they were, and whatever is searched or announced next, no session is missed -/
structure SessionsKept {D : Type} (start node : OnlineNode D) : Prop where
  connected : ConnectedHaveSessions node.sessions node.dht.peerStore
  entries : ∀ (k : Nat) peer, start.dht.peerStore[k]? = some peer →
    ∃ addrs, node.dht.peerStore[k]? = some { peer with addrs := addrs }
  sessions : node.sessions = start.sessions
  searches : ∀ watching key replies,
    onlineFindRemoteProviders (useSession node.sessions) watching key replies node.dht.peerStore =
      onlineFindRemoteProviders (fun _ => .ok ()) watching key replies node.dht.peerStore
  announcements : ∀ localPeer addr key replies,
    onlineProvide (useSession node.sessions) localPeer addr key replies node.dht.peerStore =
      onlineProvide (fun _ => .ok ()) localPeer addr key replies node.dht.peerStore

/-- one who would be added to the peerstore does not come with the mark -/
def NotMarked (peers : KnownPeers) (peer : GivenOrNull) : Prop :=
  peer.id ≠ [] → peers.peerstoreGetPeerEntry peer.id = none →
    peer.connectionType ≠ connectionTypeConnected

/-- the provider of an announcement, or those in the replies to a search -/
def OnlineOp.Unmarked {D : Type} : OnlineOp → OnlineNode D → Prop
  | .handled buf, node => ∀ msg peer, dhtReceived buf = .ok (some msg) →
    msg.messageType.toNat = 2 → msg.providerPeers.head? = some peer →
    peer.given.any multiaddressIsIp = true → NotMarked node.dht.peerStore peer
  | .searched _ replies, node => ∀ n msg, dhtReceived (replies n) = .ok (some msg) →
    ∀ peer ∈ msg.providerPeers, NotMarked node.dht.peerStore peer

/-! ## whoever is marked can be asked -/

section
variable {use : Option Nat → Exec Unit} {msg : DhtMessage} {sessions : Heap PeerSession}
  {peers : KnownPeers} {replies : Nat → Option (List UInt8)}

theorem useSession_eq {peer : KnownPeer} (h : HasSession sessions peer) :
    useSession sessions peer.sessionContext = .ok () := by
  obtain ⟨session, context, hsession, hcontext, hstream⟩ := h
  have hget : sessions.get session = .ok context := by
    unfold Heap.get
    rw [hcontext]
  unfold useSession
  rw [hsession, deref_some, ok_bind, hget, ok_bind]
  exact require_pos hstream

theorem onlineSendReceiveMessage_congr {session : Option Nat} (h : use session = .ok ())
    (reply : Option (List UInt8)) :
    onlineSendReceiveMessage use msg session reply =
      onlineSendReceiveMessage (fun _ => .ok ()) msg session reply := by
  unfold onlineSendReceiveMessage
  rw [h]

/-- a search follows the sessions of those who are marked, and no others -/
theorem askConnected_congr
    (h : ∀ peer ∈ peers, peer.connectionType = connectionTypeConnected →
      use peer.sessionContext = .ok ()) :
    askConnected use msg peers replies = askConnected (fun _ => .ok ()) msg peers replies := by
  induction peers generalizing replies with
  | nil => rfl
  | cons peer peers ih =>
    have hrest := @ih (fun n => replies (n + 1)) fun peer' hpeer' => h peer' (List.mem_cons_of_mem _ hpeer')
    unfold askConnected
    by_cases hmark : peer.connectionType = connectionTypeConnected
    · rw [if_pos hmark, if_pos hmark,
        onlineSendReceiveMessage_congr (h peer List.mem_cons_self hmark)]
      simp only [hrest]
    · rw [if_neg hmark, if_neg hmark, hrest]

theorem tellConnected_congr
    (h : ∀ peer ∈ peers, peer.connectionType = connectionTypeConnected →
      use peer.sessionContext = .ok ()) :
    tellConnected use msg peers replies = tellConnected (fun _ => .ok ()) msg peers replies := by
  induction peers generalizing replies with
  | nil => rfl
  | cons peer peers ih =>
    have hrest := @ih (fun n => replies (n + 1)) fun peer' hpeer' => h peer' (List.mem_cons_of_mem _ hpeer')
    unfold tellConnected
    by_cases hmark : peer.isLocal = false ∧ peer.connectionType = connectionTypeConnected
    · rw [if_pos hmark, if_pos hmark,
        onlineSendReceiveMessage_congr (h peer List.mem_cons_self hmark.2)]
      simp only [hrest]
    · rw [if_neg hmark, if_neg hmark]
      exact hrest

/-- the providers that are found were in a reply -/
theorem askConnected_eq_ok {asked : List Nat} {providers : List GivenOrNull}
    (h : askConnected use msg peers replies = .ok (asked, providers)) (hne : providers ≠ []) :
    ∃ n returned, dhtReceived (replies n) = .ok (some returned) ∧
      providers = returned.providerPeers := by
  induction peers generalizing replies asked with
  | nil =>
    cases h
    exact absurd rfl hne
  | cons peer peers ih =>
    have hlater {later : List Nat}
        (hrest : askConnected use msg peers (fun n => replies (n + 1)) = .ok (later, providers)) :
        ∃ n returned, dhtReceived (replies n) = .ok (some returned) ∧
          providers = returned.providerPeers := by
      obtain ⟨n, returned, hreturned, hproviders⟩ := ih hrest
      exact ⟨n + 1, returned, hreturned, hproviders⟩
    unfold askConnected at h
    split at h
    · obtain ⟨returned, hreturned, h⟩ := bind_eq_ok.1 h
      split at h
      · next hsome =>
        cases h
        obtain ⟨-, hreturned⟩ := require_bind_eq_ok.1 hreturned
        obtain ⟨-, -, hreturned⟩ := bind_eq_ok.1 hreturned
        obtain ⟨-, -, hreturned⟩ := bind_eq_ok.1 hreturned
        cases returned with
        | none => exact absurd rfl hne
        | some returned => exact ⟨0, returned, hreturned, rfl⟩
      · obtain ⟨⟨later, _⟩, hrest, h⟩ := bind_eq_ok.1 h
        cases h
        exact hlater hrest
    · obtain ⟨⟨later, _⟩, hrest, h⟩ := bind_eq_ok.1 h
      cases h
      exact hlater hrest

end

/-! ## what the peerstore may become -/

section
variable {peers peers' peers'' : KnownPeers} {added : Bool} {provider : GivenOrNull}

/-- entries stay where they are with all but their addresses, they are found where they were, and
whoever is marked was there -/
structure Grown (peers peers' : KnownPeers) : Prop where
  kept : ∀ (k : Nat) peer, peers[k]? = some peer →
    ∃ addrs, peers'[k]? = some { peer with addrs := addrs }
  places : ∀ id k, peers.peerstoreGetPeerEntry id = some k →
    peers'.peerstoreGetPeerEntry id = some k
  marked : ∀ peer' ∈ peers', peer'.connectionType = connectionTypeConnected →
    ∃ peer ∈ peers, ∃ addrs, peer' = { peer with addrs := addrs }

theorem Grown.refl (peers : KnownPeers) : Grown peers peers where
  kept := fun _ peer h => ⟨peer.addrs, h⟩
  places := fun _ _ h => h
  marked := fun peer h _ => ⟨peer, h, peer.addrs, rfl⟩

theorem Grown.trans (h : Grown peers peers') (h' : Grown peers' peers'') : Grown peers peers'' where
  kept := by
    intro k peer hpeer
    obtain ⟨addrs, hpeer'⟩ := h.kept k peer hpeer
    obtain ⟨addrs', hpeer''⟩ := h'.kept k _ hpeer'
    exact ⟨addrs', hpeer''⟩
  places := fun id k hk => h'.places id k (h.places id k hk)
  marked := by
    intro peer'' hpeer'' hmark
    obtain ⟨peer', hpeer', addrs, rfl⟩ := h'.marked peer'' hpeer'' hmark
    obtain ⟨peer, hpeer, addrs', rfl⟩ := h.marked peer' hpeer' hmark
    exact ⟨peer, hpeer, addrs, rfl⟩

theorem NotMarked.grown (h : NotMarked peers provider) (hgrown : Grown peers peers') :
    NotMarked peers' provider := by
  intro hne hnone
  refine h hne ?_
  cases hk : peers.peerstoreGetPeerEntry provider.id with
  | none => rfl
  | some k =>
    rw [hgrown.places provider.id k hk] at hnone
    cases hnone

/-- **a peer is added** -/
theorem Grown.add (h : peers.peerstoreAddPeer provider = .ok (added, peers'))
    (hmark : NotMarked peers provider) : Grown peers peers' where
  kept := by
    intro k peer hpeer
    obtain ⟨addrs, hkept, -⟩ := KnownPeers.peerstoreAddPeer_kept h hpeer
    exact ⟨addrs, hkept⟩
  places := fun id k hk => KnownPeers.peerstoreAddPeer_place h hk
  marked := by
    intro peer' hpeer' hconnected
    obtain hold | ⟨rfl, hnone, hne, -⟩ := KnownPeers.peerstoreAddPeer_mem h hpeer'
    · exact hold
    · exact absurd hconnected (hmark hne hnone)

theorem grown_learnProvider (h : learnProvider peers provider = .ok peers')
    (hmark : NotMarked peers provider) : Grown peers peers' := by
  unfold learnProvider at h
  split at h
  · cases h
    exact Grown.refl peers
  · obtain ⟨⟨added, after⟩, hadd, h⟩ := bind_eq_ok.1 h
    cases h
    exact Grown.add hadd hmark

theorem grown_learnProviders {providers : List GivenOrNull} {found : List (Option KnownPeer)}
    (h : learnProviders providers peers = .ok (found, peers'))
    (hmark : ∀ provider ∈ providers, NotMarked peers provider) : Grown peers peers' := by
  induction providers generalizing peers found with
  | nil =>
    cases h
    exact Grown.refl _
  | cons provider providers ih =>
    obtain ⟨middle, hone, h⟩ := bind_eq_ok.1 h
    obtain ⟨⟨rest, after⟩, hrest, h⟩ := bind_eq_ok.1 h
    cases h
    have hfirst := grown_learnProvider hone (hmark provider List.mem_cons_self)
    exact hfirst.trans (ih hrest fun other hother =>
      (hmark other (List.mem_cons_of_mem _ hother)).grown hfirst)

end

/-! ## along a run -/

section
variable {D : Type} {ctx : DhtContext D} {watching : Bool} {start node node' : OnlineNode D}

theorem dhtFindPeerIpMultiaddress_some {addrs : List (Option Multiaddress)} {addr : Multiaddress}
    (h : dhtFindPeerIpMultiaddress addrs = .ok (some addr)) :
    (addrs.filterMap fun addr => addr).any multiaddressIsIp = true := by
  induction addrs with
  | nil => cases h
  | cons first addrs ih =>
    cases first with
    | none => cases h
    | some a =>
      show (a :: addrs.filterMap fun addr => addr).any multiaddressIsIp = true
      rw [dhtFindPeerIpMultiaddress] at h
      rw [List.any_cons]
      cases hip : multiaddressIsIp a with
      | true => rfl
      | false =>
        rw [hip, if_neg Bool.false_ne_true] at h
        exact ih h

/-- **one operation** -/
theorem grown_onlineStep {op : OnlineOp} (hop : op.Unmarked node)
    (h : onlineStep ctx watching op node = .ok node') :
    Grown node.dht.peerStore node'.dht.peerStore ∧ node'.sessions = node.sessions := by
  cases op with
  | handled buf =>
    obtain ⟨⟨reply, dht⟩, hdht, h⟩ := bind_eq_ok.1 h
    cases h
    obtain ⟨received, hreceived, hdht⟩ := bind_eq_ok.1 hdht
    cases received with
    | none =>
      cases hdht
      exact ⟨Grown.refl _, rfl⟩
    | some msg =>
      obtain ⟨repo, rfl⟩ | ⟨htype, peer, rest, addr, peers, hpeers, haddr, hadd, rfl⟩ :=
        dhtDispatch_cases hdht
      · exact ⟨Grown.refl _, rfl⟩
      · have hhead : msg.providerPeers.head? = some peer := by rw [hpeers, List.head?_cons]
        exact ⟨Grown.add hadd (hop msg peer hreceived htype hhead
          (dhtFindPeerIpMultiaddress_some haddr)), rfl⟩
  | searched key replies =>
    obtain ⟨⟨_, found, peers⟩, hfind, h⟩ := bind_eq_ok.1 h
    cases h
    obtain ⟨-, -, hfind⟩ := bind_eq_ok.1 hfind
    obtain ⟨⟨asked, providers⟩, hask, hfind⟩ := bind_eq_ok.1 hfind
    dsimp only at hfind
    split at hfind
    · next hne =>
      obtain ⟨⟨list, after⟩, hlearn, hfind⟩ := bind_eq_ok.1 hfind
      cases hfind
      obtain ⟨n, returned, hreturned, rfl⟩ := askConnected_eq_ok hask hne
      exact ⟨grown_learnProviders hlearn (hop n returned hreturned), rfl⟩
    · cases hfind
      exact ⟨Grown.refl _, rfl⟩

/-- what the peerstore may become keeps the law -/
theorem Grown.sessionsKept (hstart : ConnectedHaveSessions start.sessions start.dht.peerStore)
    (hgrown : Grown start.dht.peerStore node.dht.peerStore)
    (hsessions : node.sessions = start.sessions) : SessionsKept start node := by
  have hconnected : ConnectedHaveSessions node.sessions node.dht.peerStore := by
    intro peer hpeer hmark
    obtain ⟨old, hold, addrs, rfl⟩ := hgrown.marked peer hpeer hmark
    rw [hsessions]
    exact hstart old hold hmark
  have huse : ∀ peer ∈ node.dht.peerStore, peer.connectionType = connectionTypeConnected →
      useSession node.sessions peer.sessionContext = .ok () :=
    fun peer hpeer hmark => useSession_eq (hconnected peer hpeer hmark)
  exact
    { connected := hconnected
      entries := hgrown.kept
      sessions := hsessions
      searches := by
        intro watching key replies
        unfold onlineFindRemoteProviders
        rw [askConnected_congr huse]
      announcements := fun _ _ _ _ => tellConnected_congr huse }

/-- **the mark means a session** along a run in which nobody who is new comes with the mark -/
theorem sessionsKept_along {ops : List OnlineOp}
    (h : ConnectedHaveSessions start.sessions start.dht.peerStore)
    (hops : Guarded (onlineStep ctx watching) OnlineOp.Unmarked ops start) :
    HoldsReached (onlineStep ctx watching) (SessionsKept start) ops start := by
  have hstep : ∀ op (node node' : OnlineNode D),
      (Grown start.dht.peerStore node.dht.peerStore ∧ node.sessions = start.sessions) →
      OnlineOp.Unmarked op node → onlineStep ctx watching op node = .ok node' →
      Grown start.dht.peerStore node'.dht.peerStore ∧ node'.sessions = start.sessions := by
    rintro op node node' ⟨hgrown, hsessions⟩ hop hdone
    obtain ⟨hmore, hsame⟩ := grown_onlineStep hop hdone
    exact ⟨hgrown.trans hmore, hsame.trans hsessions⟩
  have hreached := holdsReached_of_step hstep ⟨Grown.refl _, rfl⟩ hops
  intro pre suf node he hrun
  obtain ⟨hgrown, hsessions⟩ := hreached pre suf node he hrun
  exact hgrown.sessionsKept h hsessions

end

/-! ### two runs -/

/-- the local peer `Ql` and a peer `Qb` that is connected, with its session -/
def onlineStart : OnlineNode Unit where
  dht :=
    { aloneTrace.node with
      peerStore := aloneTrace.node.peerStore ++
        [{ id := asciiBytes "Qb"
           connectionType := connectionTypeConnected
           sessionContext := some 0 }] }
  sessions := Heap.empty.alloc {}

theorem onlineStart_connected :
    ConnectedHaveSessions onlineStart.sessions onlineStart.dht.peerStore := by
  intro peer hpeer hmark
  obtain rfl | hpeer := List.mem_cons.1 hpeer
  · exact absurd hmark (by decide)
  · rw [List.mem_singleton.1 hpeer]
    exact ⟨0, {}, rfl, Heap.alloc_cells_fresh, rfl⟩

/-- `Qb` replies that `Qa` at 127.0.0.1 has the key `k` -/
def replyBytes : List UInt8 :=
  [8, 3, 18, 1, 107, 74, 16, 10, 2, 81, 97, 18, 8, 4, 127, 0, 0, 1, 6, 15, 161, 24, 0]

theorem replyBytes_received :
    dhtReceived (some replyBytes) = .ok (some { announceMessage with messageType := 3 }) := by
  decide +kernel

theorem notMarked_announcedPeerQa (peers : KnownPeers) : NotMarked peers announcedPeerQa :=
  fun _ _ => by decide

theorem sessionsKept_along_unmarked :
    HoldsReached (onlineStep (emptyContext false) false) (SessionsKept onlineStart)
      [.handled (some announceBytes),
       .searched (asciiBytes "k") fun n => if n = 1 then some replyBytes else none]
      onlineStart := by
  refine sessionsKept_along onlineStart_connected
    ⟨fun msg peer hmsg htype hpeer hip => ?_, fun node hnode => ⟨fun n msg hmsg peer hpeer => ?_,
      fun node' hnode' => trivial⟩⟩
  · cases announceBytes_received.symm.trans hmsg
    cases hpeer
    exact notMarked_announcedPeerQa _
  · dsimp only at hmsg
    by_cases hn : n = 1
    · rw [if_pos hn] at hmsg
      cases replyBytes_received.symm.trans hmsg
      rw [List.mem_singleton.1 hpeer]
      exact notMarked_announcedPeerQa _
    · rw [if_neg hn] at hmsg
      cases hmsg

/-- the announcement that `Qa` at 127.0.0.1 sends -/
def providedBytes : List UInt8 :=
  messageBytes (onlineProvideMessage { id := asciiBytes "Qa" } addressOfQa (asciiBytes "k"))

/-- the node when it was handled -/
def providedNode : DhtNode Unit :=
  { onlineStart.dht with
    peerStore := onlineStart.dht.peerStore ++
      [{ peerCopyGiven announcedPeerQa with connectionType := connectionTypeConnected }]
    providerStore := [{ hash := asciiBytes "k", peerId := asciiBytes "Qa" }] }

theorem providedBytes_node :
    (dhtHandleMessage (emptyContext false) onlineStart.dht (some providedBytes)).map Prod.snd =
      .ok providedNode := by
  decide +kernel

/-- **the mark is sent along**: the announcement of a peer that calls itself connected -/
theorem not_sessionsKept_along_provided :
    ConnectedHaveSessions onlineStart.sessions onlineStart.dht.peerStore ∧
      ¬ HoldsReached (onlineStep (emptyContext false) false) (SessionsKept onlineStart)
        [.handled (some providedBytes)] onlineStart := by
  refine ⟨onlineStart_connected, fun h => ?_⟩
  obtain ⟨reply, hhandled⟩ : ∃ reply,
      dhtHandleMessage (emptyContext false) onlineStart.dht (some providedBytes) =
        .ok (reply, providedNode) := by
    have hnode := providedBytes_node
    cases hdone : dhtHandleMessage (emptyContext false) onlineStart.dht (some providedBytes) with
    | error e =>
      rw [hdone] at hnode
      cases hnode
    | ok out =>
      rw [hdone] at hnode
      exact ⟨out.1, congrArg (fun dht => Except.ok (out.1, dht)) (Except.ok.inj hnode)⟩
  have hrun : runOps (onlineStep (emptyContext false) false) [.handled (some providedBytes)]
      onlineStart = .ok { onlineStart with dht := providedNode } := by
    rw [runOps_cons]
    unfold onlineStep
    dsimp only
    rw [hhandled]
    rfl
  have hkept := (h _ [] _ (List.append_nil _).symm hrun).connected
  have hmem : { peerCopyGiven announcedPeerQa with connectionType := connectionTypeConnected } ∈
      providedNode.peerStore := List.mem_append_right _ (List.mem_singleton.2 rfl)
  obtain ⟨session, -, hsession, -⟩ := hkept _ hmem rfl
  cases hsession

end Libp2p
