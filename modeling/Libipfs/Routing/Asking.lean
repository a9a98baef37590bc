import Libipfs.Lib.InTurn
import Libipfs.Routing.Online

/-!
# Asking the network

The providers of a key and the whereabouts of a peer are asked of the peers that are connected, one
after the other, until one of them replies with a list of providers.

* `onlineAskPeerForPeer`, `onlineFindPeer`   the search for a peer;
* `askOne`              what both ask: `f` is what they make of the reply;
* `HasTurn peers replies k peer`   nobody who is connected and in front of `peer` names a provider;
* `RemoteProvidersRight`, `FindPeerRight`   what the searches are to find;
* `KeepsProviders`, `NamesThePeer`   the replies for which they do;
* `askingNetwork_iff`   **exactly then** they find it.
-/

set_option linter.unusedVariables false

namespace Libp2p
open CSem

/-! ## the searches -/

section
variable (use : Option Nat → Exec Unit)

def nodeRequest (peerId : List UInt8) : DhtMessage where
  messageType := 4
  key := some peerId

/-- the first provider is copied, whatever its id is; who does not reply loses the mark -/
def onlineAskPeerForPeer (whoToAsk : KnownPeer) (peerId : List UInt8)
    (reply : Option (List UInt8)) : Exec (Option KnownPeer × KnownPeer) :=
  if whoToAsk.connectionType = connectionTypeConnected then do
    match ← onlineSendReceiveMessage use (nodeRequest peerId) whoToAsk.sessionContext reply with
    | none => .ok (none, { whoToAsk with connectionType := connectionTypeNotConnected })
    | some returned =>
      match returned.providerPeers with
      | [] => .ok (none, whoToAsk)
      | provider :: _ => .ok (some (peerCopyGiven provider), whoToAsk)
  else .ok (none, whoToAsk)

/-- the loop goes on until there is a result -/
def askSwarm (peerId : List UInt8) :
    List KnownPeer → (Nat → Option (List UInt8)) → Exec (Option KnownPeer × KnownPeers)
  | [], _ => .ok (none, [])
  | peer :: peers, replies => do
    let (result, peer) ← onlineAskPeerForPeer use peer peerId (replies 0)
    if result ≠ none then .ok (result, peer :: peers)
    else do
      let (result, peers) ← askSwarm peerId peers fun n => replies (n + 1)
      .ok (result, peer :: peers)

/-- the result, `none` when 0 is returned, and the peerstore -/
def onlineFindPeer (peerId : List UInt8) (replies : Nat → Option (List UInt8))
    (peers : KnownPeers) : Exec (Option KnownPeer × KnownPeers) :=
  match peers.peerstoreGetPeer peerId with
  | some peer => .ok (some peer, peers)
  | none => askSwarm use peerId peers replies

end

/-! ## what is to be found -/

/-- the mark of the peers that are asked -/
def Connected (peer : KnownPeer) : Prop := peer.connectionType = connectionTypeConnected

instance : DecidablePred Connected := fun peer =>
  inferInstanceAs (Decidable (peer.connectionType = connectionTypeConnected))

/-- a reply with a list of providers -/
def Answers (reply : Option (List UInt8)) : Prop :=
  ∃ msg, dhtReceived reply = .ok (some msg) ∧ msg.providerPeers ≠ []

/-- a reply with a provider of this id -/
def Names (reply : Option (List UInt8)) (id : List UInt8) : Prop :=
  ∃ msg, dhtReceived reply = .ok (some msg) ∧ ∃ provider ∈ msg.providerPeers, provider.id = id

/-- the peer at the place `k` is connected, and none in front of it answers that is -/
def HasTurn (peers : KnownPeers) (replies : Nat → Option (List UInt8)) (k : Nat)
    (peer : KnownPeer) : Prop :=
  InTurn Connected (fun j _ => Answers (replies j)) peers k peer

/-- somebody who is connected answers -/
def SomeoneAnswers (peers : KnownPeers) (replies : Nat → Option (List UInt8)) : Prop :=
  ∃ k peer, peers[k]? = some peer ∧ Connected peer ∧ Answers (replies k)

/-- the connected peers are asked in their order until one answers, and what is found are the
entries of the providers that it names, none of them absent -/
def RemoteProvidersRight (use : Option Nat → Exec Unit) (watching : Bool) (key : List UInt8)
    (replies : Nat → Option (List UInt8)) (peers : KnownPeers) : Prop :=
  ∃ asked found after,
    onlineFindRemoteProviders use watching key replies peers = .ok (asked, found, after) ∧
    asked.Pairwise (· < ·) ∧
    (∀ k, k ∈ asked ↔ ∃ peer, HasTurn peers replies k peer) ∧
    (found ≠ none ↔ SomeoneAnswers peers replies) ∧
    ∀ list, found = some list → none ∉ list ∧ ∃ k peer msg, HasTurn peers replies k peer ∧
      dhtReceived (replies k) = .ok (some msg) ∧ msg.providerPeers ≠ [] ∧
      list = msg.providerPeers.map fun provider => after.peerstoreGetPeer provider.id

/-- a peer is found iff it is in the peerstore or somebody who is connected names it, and it is the
one that was asked for -/
def FindPeerRight (use : Option Nat → Exec Unit) (peerId : List UInt8)
    (replies : Nat → Option (List UInt8)) (peers : KnownPeers) : Prop :=
  ∃ result after, onlineFindPeer use peerId replies peers = .ok (result, after) ∧
    (result ≠ none ↔ (∃ entry ∈ peers, entry.id = peerId) ∨
      ∃ k peer, peers[k]? = some peer ∧ Connected peer ∧ Names (replies k) peerId) ∧
    ∀ found, result = some found → found.id = peerId

/-! ## the replies for which it is found -/

/-- the message fits into a buffer of the size that is computed for it -/
def Sendable (msg : DhtMessage) : Prop :=
  messageProtobufEncodeSize msg ≤ ptrdiffMax ∧
    Safe (messageProtobufEncode msg (messageProtobufEncodeSize msg))

/-- the message can be sent if there is anybody to send it to, and the replies of those whose turn
comes can be read -/
structure AsksSafely (msg : DhtMessage) (peers : KnownPeers)
    (replies : Nat → Option (List UInt8)) : Prop where
  sendable : (∃ peer ∈ peers, Connected peer) → Sendable msg
  readable : ∀ k peer, HasTurn peers replies k peer → Safe (dhtReceived (replies k))

/-- a provider that has a place in the peerstore, or can be given one -/
def Keepable (peers : KnownPeers) (provider : GivenOrNull) : Prop :=
  provider.id ≠ [] ∧ (peers.peerstoreGetPeer provider.id = none → provider.id.length < 100)

structure KeepsProviders (watching : Bool) (key : List UInt8)
    (replies : Nat → Option (List UInt8)) (peers : KnownPeers) : Prop where
  printable : watching = true → Printable key
  asks : AsksSafely (providersRequest key) peers replies
  keepable : ∀ k peer msg, HasTurn peers replies k peer → dhtReceived (replies k) = .ok (some msg) →
    ∀ provider ∈ msg.providerPeers, Keepable peers provider

/-- the first provider of whoever answers has the id; an empty id, with which no peer is found in
the peerstore, is that of no entry unless somebody answers -/
structure NamesThePeer (peerId : List UInt8) (replies : Nat → Option (List UInt8))
    (peers : KnownPeers) : Prop where
  asks : AsksSafely (nodeRequest peerId) peers replies
  first : ∀ k peer msg provider, HasTurn peers replies k peer →
    dhtReceived (replies k) = .ok (some msg) → msg.providerPeers.head? = some provider →
    provider.id = peerId
  absent : ∀ entry ∈ peers, entry.id = peerId → SomeoneAnswers peers replies

/-! ## both searches ask alike -/

section
variable {β : Type} {use : Option Nat → Exec Unit} {msg : DhtMessage}
  {replies : Nat → Option (List UInt8)} {peers : KnownPeers} {k : Nat} {peer : KnownPeer}

/-- `f` is what is made of the reply -/
def askOne (use : Option Nat → Exec Unit) (msg : DhtMessage) (f : Option DhtMessage → Option β)
    (replies : Nat → Option (List UInt8)) (k : Nat) (peer : KnownPeer) : Exec (Option β) := do
  let returned ← onlineSendReceiveMessage use msg peer.sessionContext (replies k)
  .ok (f returned)

/-- the providers, when there are any -/
def namedProviders (returned : Option DhtMessage) : Option (List GivenOrNull) :=
  if returnedProviders returned ≠ [] then some (returnedProviders returned) else none

/-- a copy of the first provider -/
def firstProvider (returned : Option DhtMessage) : Option KnownPeer :=
  (returnedProviders returned).head?.map peerCopyGiven

section
variable {returned : Option DhtMessage}

theorem namedProviders_of_ne (h : returnedProviders returned ≠ []) :
    namedProviders returned = some (returnedProviders returned) := if_pos h

theorem namedProviders_of_eq (h : returnedProviders returned = []) :
    namedProviders returned = none := if_neg (not_not.2 h)

theorem firstProvider_of_cons {provider : GivenOrNull} {rest : List GivenOrNull}
    (h : returnedProviders returned = provider :: rest) :
    firstProvider returned = some (peerCopyGiven provider) := by
  rw [firstProvider, h, List.head?_cons, Option.map_some]

theorem firstProvider_of_eq (h : returnedProviders returned = []) :
    firstProvider returned = none := by
  rw [firstProvider, h, List.head?_nil, Option.map_none]

/-- something is made of the replies that name providers, and of no others -/
def OfProviders {β : Type} (f : Option DhtMessage → Option β) : Prop :=
  ∀ returned, f returned ≠ none ↔ returnedProviders returned ≠ []

theorem namedProviders_ne_none : OfProviders namedProviders := by
  intro returned
  constructor
  · intro h hnone
    exact h (namedProviders_of_eq hnone)
  · intro h hnone
    cases (namedProviders_of_ne h).symm.trans hnone

theorem firstProvider_ne_none : OfProviders firstProvider := by
  intro returned
  unfold firstProvider
  rw [Ne, Option.map_eq_none_iff, List.head?_eq_none_iff]

end

/-- **the search for providers** asks in turn -/
theorem askConnected_askInTurn :
    askConnected use msg peers replies =
      askInTurn Connected peers (askOne use msg namedProviders replies) >>= fun x =>
        .ok (x.1, x.2.getD []) := by
  induction peers generalizing replies with
  | nil => rfl
  | cons peer peers ih =>
    have hrest := @ih fun n => replies (n + 1)
    rw [askConnected, hrest]
    by_cases hmark : peer.connectionType = connectionTypeConnected
    · have hwants : Connected peer := hmark
      cases hsent : onlineSendReceiveMessage use msg peer.sessionContext (replies 0) with
      | error e =>
        have hask : askOne use msg namedProviders replies 0 peer = .error e := by
          rw [askOne, hsent, error_bind]
        rw [if_pos hmark, error_bind, askInTurn_fault hwants hask, error_bind]
      | ok returned =>
        have hask : askOne use msg namedProviders replies 0 peer =
            .ok (namedProviders returned) := by
          rw [askOne, hsent, ok_bind]
        rw [if_pos hmark, ok_bind]
        by_cases hne : returnedProviders returned ≠ []
        · rw [namedProviders_of_ne hne] at hask
          rw [if_pos hne, askInTurn_answered hwants hask]
          rfl
        · rw [namedProviders_of_eq (not_not.1 hne)] at hask
          rw [if_neg hne, askInTurn_next fun _ => hask, firstAsked, if_pos hwants, bind_assoc,
            bind_assoc]
          rfl
    · have hwants : ¬ Connected peer := hmark
      rw [if_neg hmark, askInTurn_next fun h => absurd h hwants, firstAsked, if_neg hwants,
        bind_assoc, bind_assoc]
      rfl

/-- what else is carried along does not matter -/
theorem map_bind_congr {α γ : Type} {x : Exec (Option β × α)} {y : Exec (γ × Option β)}
    (f : α → α) (g : γ → γ) (h : x.map Prod.fst = y.map Prod.snd) :
    (x >>= fun a => Except.ok (a.1, f a.2)).map Prod.fst =
      (y >>= fun b => Except.ok (g b.1, b.2)).map Prod.snd := by
  cases x with
  | error e =>
    cases y with
    | error e' =>
      cases h
      rfl
    | ok b => cases h
  | ok a =>
    cases y with
    | error e' => cases h
    | ok b => exact congrArg Except.ok (Except.ok.inj h)

/-- **the search for a peer** asks in turn, too: that a peer loses its mark comes too late for it -/
theorem askSwarm_fst {peerId : List UInt8} :
    (askSwarm use peerId peers replies).map Prod.fst =
      (askInTurn Connected peers (askOne use (nodeRequest peerId) firstProvider replies)).map
        Prod.snd := by
  induction peers generalizing replies with
  | nil => rfl
  | cons peer peers ih =>
    have hrest := @ih fun n => replies (n + 1)
    have hlater : ∀ (first : List Nat) (after : KnownPeer),
        (askSwarm use peerId peers (fun n => replies (n + 1)) >>= fun x =>
          Except.ok (x.1, after :: x.2)).map Prod.fst =
        (askInTurn Connected peers (fun k =>
            askOne use (nodeRequest peerId) firstProvider replies (k + 1)) >>= fun rest =>
          Except.ok (first ++ rest.1.map (· + 1), rest.2)).map Prod.snd :=
      fun first after =>
        map_bind_congr (after :: ·) (fun asked : List Nat => first ++ asked.map (· + 1)) hrest
    rw [askSwarm]
    unfold onlineAskPeerForPeer
    by_cases hmark : peer.connectionType = connectionTypeConnected
    · have hwants : Connected peer := hmark
      rw [if_pos hmark]
      cases hsent : onlineSendReceiveMessage use (nodeRequest peerId) peer.sessionContext
          (replies 0) with
      | error e =>
        have hask : askOne use (nodeRequest peerId) firstProvider replies 0 peer = .error e := by
          rw [askOne, hsent, error_bind]
        rw [askInTurn_fault hwants hask]
        rfl
      | ok returned =>
        have hask : askOne use (nodeRequest peerId) firstProvider replies 0 peer =
            .ok (firstProvider returned) := by
          rw [askOne, hsent, ok_bind]
        rw [ok_bind]
        cases returned with
        | none =>
          rw [firstProvider_of_eq rfl] at hask
          rw [askInTurn_next fun _ => hask]
          exact hlater _ _
        | some returned =>
          dsimp only
          cases hpeers : returned.providerPeers with
          | nil =>
            rw [@firstProvider_of_eq (some returned) hpeers] at hask
            rw [askInTurn_next fun _ => hask]
            exact hlater _ _
          | cons provider rest =>
            rw [@firstProvider_of_cons (some returned) _ _ hpeers] at hask
            rw [askInTurn_answered hwants hask]
            rfl
    · have hwants : ¬ Connected peer := hmark
      rw [if_neg hmark, askInTurn_next fun h => absurd h hwants]
      exact hlater _ _

/-! ### whose turn it is -/

variable {sessions : Heap PeerSession} {f : Option DhtMessage → Option β}

/-- asking whoever has a session is sending the message and reading the reply -/
theorem askOne_eq (hpeer : HasSession sessions peer) (hsend : Sendable msg) :
    askOne (useSession sessions) msg f replies k peer =
      dhtReceived (replies k) >>= fun returned => .ok (f returned) := by
  obtain ⟨hmem, out, hout⟩ := hsend
  unfold askOne onlineSendReceiveMessage
  dsimp only
  rw [require_pos hmem, ok_bind, hout, ok_bind, useSession_eq hpeer, ok_bind]

theorem sendable_of_safe (h : Safe (askOne use msg f replies k peer)) : Sendable msg := by
  obtain ⟨returned, hreturned⟩ := h.of_bind
  obtain ⟨hmem, hsent⟩ := require_bind_eq_ok.1 hreturned
  obtain ⟨out, hout, -⟩ := bind_eq_ok.1 hsent
  exact ⟨hmem, out, hout⟩

/-- whoever names a provider answers -/
theorem answered_askOne (hf : OfProviders f) (hpeer : HasSession sessions peer)
    (hsend : Sendable msg) :
    Answered (askOne (useSession sessions) msg f replies) k peer ↔ Answers (replies k) := by
  unfold Answered
  rw [askOne_eq hpeer hsend]
  constructor
  · rintro ⟨answer, h⟩
    obtain ⟨returned, hreturned, h⟩ := bind_eq_ok.1 h
    have hne : f returned ≠ none := by
      rw [Except.ok.inj h]
      exact Option.some_ne_none answer
    cases returned with
    | none => exact absurd rfl ((hf none).1 hne)
    | some returned => exact ⟨returned, hreturned, (hf (some returned)).1 hne⟩
  · rintro ⟨returned, hreturned, hne⟩
    obtain ⟨answer, hanswer⟩ := Option.ne_none_iff_exists'.1 ((hf (some returned)).2 hne)
    exact ⟨answer, by rw [hreturned, ok_bind, hanswer]⟩

theorem hasSession_of_item (h : ConnectedHaveSessions sessions peers)
    (hitem : peers[k]? = some peer) (hmark : Connected peer) : HasSession sessions peer :=
  h peer (List.mem_of_getElem? hitem) hmark

/-- **the turns** are those of the peers in front of which nobody names a provider -/
theorem inTurn_askOne (h : ConnectedHaveSessions sessions peers) (hf : OfProviders f)
    (hsend : Sendable msg) :
    InTurn Connected (Answered (askOne (useSession sessions) msg f replies)) peers k peer ↔
      HasTurn peers replies k peer :=
  inTurn_congr fun j other hitem hmark =>
    answered_askOne hf (hasSession_of_item h hitem hmark) hsend

/-- **when nothing faults** -/
theorem safe_ask (h : ConnectedHaveSessions sessions peers) (hf : OfProviders f) :
    Safe (askInTurn Connected peers (askOne (useSession sessions) msg f replies)) ↔
      AsksSafely msg peers replies := by
  rw [safe_askInTurn]
  constructor
  · intro hsafe
    have hsend : (∃ peer ∈ peers, Connected peer) → Sendable msg := by
      rintro ⟨peer, hpeer, hmark⟩
      obtain ⟨k, hk⟩ := List.mem_iff_getElem?.1 hpeer
      obtain ⟨j, first, hturn, -⟩ := exists_inTurn hk hmark
      exact sendable_of_safe (hsafe j first hturn)
    refine ⟨hsend, fun k peer hturn => ?_⟩
    have hsend := hsend ⟨peer, List.mem_of_getElem? hturn.item, hturn.wanted⟩
    have hask := hsafe k peer ((inTurn_askOne h hf hsend).2 hturn)
    rw [askOne_eq (hasSession_of_item h hturn.item hturn.wanted) hsend] at hask
    exact hask.of_bind
  · intro hasks k peer hturn
    have hsend := hasks.sendable ⟨peer, List.mem_of_getElem? hturn.item, hturn.wanted⟩
    obtain ⟨returned, hreturned⟩ := hasks.readable k peer ((inTurn_askOne h hf hsend).1 hturn)
    rw [askOne_eq (hasSession_of_item h hturn.item hturn.wanted) hsend, hreturned]
    exact safe_ok _

end

/-! ## the providers in the peerstore -/

namespace KnownPeers

section
variable {peers more : KnownPeers} {id : List UInt8} {there : KnownPeer}

theorem peerstoreGetPeer_append (h : peers.peerstoreGetPeer id = some there) (more : KnownPeers) :
    KnownPeers.peerstoreGetPeer (peers ++ more) id = some there := by
  obtain ⟨k, hk, hthere⟩ := Option.bind_eq_some_iff.1 h
  obtain ⟨hlt, -⟩ := List.getElem?_eq_some_iff.1 hthere
  exact Option.bind_eq_some_iff.2
    ⟨k, peerstoreGetPeerEntry_append hk more, (List.getElem?_append_left hlt).trans hthere⟩

theorem peerstoreGetPeer_append_eq_none : KnownPeers.peerstoreGetPeer (peers ++ more) id = none ↔
    peers.peerstoreGetPeer id = none ∧ more.peerstoreGetPeer id = none := by
  simp only [peerstoreGetPeer_eq_none, List.mem_append]
  grind

theorem peerstoreGetPeer_singleton : KnownPeers.peerstoreGetPeer [there] id = none ↔
    id = [] ∨ there.id ≠ id := by
  rw [peerstoreGetPeer_eq_none, List.forall_mem_singleton]

end

end KnownPeers

section
variable {peers peers' : KnownPeers} {provider : GivenOrNull} {providers : List GivenOrNull}
  {found : List (Option KnownPeer)}

/-- an id that is not too long for the log, if it has to be written there -/
def Loggable (peers : KnownPeers) (id : List UInt8) : Prop :=
  id ≠ [] → peers.peerstoreGetPeer id = none → id.length < 100

/-- **all that learning of a provider can do** -/
theorem learnProvider_cases (h : learnProvider peers provider = .ok peers') :
    Loggable peers provider.id ∧ (peers' = peers ∧
        (provider.id = [] ∨ peers.peerstoreGetPeer provider.id ≠ none) ∨
      peers' = peers ++ [peerCopyGiven provider] ∧ provider.id ≠ [] ∧
        provider.id.length < 100) := by
  unfold learnProvider at h
  cases hthere : peers.peerstoreGetPeer provider.id with
  | some there =>
    rw [hthere] at h
    cases h
    refine ⟨fun _ hnone => ?_, .inl ⟨rfl, .inr (Option.some_ne_none there)⟩⟩
    cases hthere.symm.trans hnone
  | none =>
    rw [hthere] at h
    obtain ⟨⟨added, after⟩, hadd, h⟩ := bind_eq_ok.1 h
    cases h
    obtain ⟨k, entry, hk, hentry, -⟩ | ⟨-, hne, hlen, -, rfl⟩ | ⟨hid, -, rfl⟩ :=
      KnownPeers.peerstoreAddPeer_cases hadd
    · unfold KnownPeers.peerstoreGetPeer at hthere
      rw [hk, Option.bind_some, hentry] at hthere
      cases hthere
    · exact ⟨fun _ _ => hlen, .inr ⟨rfl, hne, hlen⟩⟩
    · exact ⟨fun hne => absurd hid hne, .inl ⟨rfl, .inl hid⟩⟩

theorem safe_learnProvider :
    Safe (learnProvider peers provider) ↔ Loggable peers provider.id := by
  constructor
  · rintro ⟨peers', h⟩
    exact (learnProvider_cases h).1
  · intro h
    unfold learnProvider
    cases hthere : peers.peerstoreGetPeer provider.id with
    | some there => exact safe_ok _
    | none =>
      have hentry : peers.peerstoreGetPeerEntry provider.id = none :=
        KnownPeers.peerstoreGetPeerEntry_eq_none.2 (KnownPeers.peerstoreGetPeer_eq_none.1 hthere)
      unfold KnownPeers.peerstoreAddPeer
      dsimp only
      rw [hentry]
      by_cases hid : provider.id ≠ []
      · dsimp only
        rw [if_pos hid, require_pos (h hid hthere)]
        exact safe_ok _
      · dsimp only
        rw [if_neg hid]
        exact safe_ok _

/-- who is learnt of is found from now on, unless the id is empty -/
theorem learnProvider_found (h : learnProvider peers provider = .ok peers') :
    peers'.peerstoreGetPeer provider.id = none ↔ provider.id = [] := by
  obtain ⟨-, ⟨rfl, hid⟩ | ⟨rfl, hid, -⟩⟩ := learnProvider_cases h
  · refine ⟨fun hnone => hid.resolve_right fun hne => hne hnone, fun hempty => ?_⟩
    exact KnownPeers.peerstoreGetPeer_eq_none.2 (.inl hempty)
  · rw [KnownPeers.peerstoreGetPeer_append_eq_none, KnownPeers.peerstoreGetPeer_singleton]
    refine ⟨fun hnone => hnone.2.resolve_right fun hne => hne rfl, fun hempty => absurd hempty hid⟩

/-- what can be written to the log can be before and after -/
theorem learnProvider_loggable (h : learnProvider peers provider = .ok peers') {id : List UInt8} :
    Loggable peers' id ↔ Loggable peers id := by
  obtain ⟨-, ⟨rfl, -⟩ | ⟨rfl, -, hlen⟩⟩ := learnProvider_cases h
  · exact Iff.rfl
  · unfold Loggable
    rw [KnownPeers.peerstoreGetPeer_append_eq_none, KnownPeers.peerstoreGetPeer_singleton]
    constructor
    · intro hlog hne hnone
      by_cases hid : (peerCopyGiven provider).id = id
      · exact hid ▸ hlen
      · exact hlog hne ⟨hnone, .inr hid⟩
    · intro hlog hne hnone
      exact hlog hne hnone.1

theorem safe_learnProviders : Safe (learnProviders providers peers) ↔
    ∀ provider ∈ providers, Loggable peers provider.id := by
  induction providers generalizing peers with
  | nil => exact ⟨fun _ _ h => absurd h List.not_mem_nil, fun _ => safe_ok _⟩
  | cons provider providers ih =>
    rw [learnProviders, safe_bind, List.forall_mem_cons, ← safe_learnProvider]
    constructor
    · rintro ⟨middle, hmiddle, h⟩
      refine ⟨⟨middle, hmiddle⟩, fun other hother => ?_⟩
      exact (learnProvider_loggable hmiddle).1 (ih.1 h.of_bind other hother)
    · rintro ⟨⟨middle, hmiddle⟩, h⟩
      obtain ⟨rest, hrest⟩ := ih.2 fun other hother =>
        (learnProvider_loggable hmiddle).2 (h other hother)
      exact ⟨middle, hmiddle, by rw [hrest, ok_bind]; exact safe_ok _⟩

/-- entries are put behind those that are there -/
theorem learnProviders_append (h : learnProviders providers peers = .ok (found, peers')) :
    ∃ more, peers' = peers ++ more := by
  induction providers generalizing peers found with
  | nil =>
    cases h
    exact ⟨[], (List.append_nil _).symm⟩
  | cons provider providers ih =>
    obtain ⟨middle, hmiddle, h⟩ := bind_eq_ok.1 h
    obtain ⟨⟨rest, after⟩, hrest, h⟩ := bind_eq_ok.1 h
    cases h
    obtain ⟨more, rfl⟩ := ih hrest
    obtain ⟨-, ⟨rfl, -⟩ | ⟨rfl, -⟩⟩ := learnProvider_cases hmiddle
    · exact ⟨more, rfl⟩
    · exact ⟨_, List.append_assoc _ _ _⟩

/-- **the providers that are found** are their entries, and one that has no id is absent -/
theorem learnProviders_found (h : learnProviders providers peers = .ok (found, peers')) :
    found = (providers.map fun provider => peers'.peerstoreGetPeer provider.id) ∧
      (none ∈ found ↔ ∃ provider ∈ providers, provider.id = []) := by
  induction providers generalizing peers found with
  | nil =>
    cases h
    exact ⟨rfl, fun h => absurd h List.not_mem_nil, fun ⟨_, h, _⟩ => absurd h List.not_mem_nil⟩
  | cons provider providers ih =>
    obtain ⟨middle, hmiddle, h⟩ := bind_eq_ok.1 h
    obtain ⟨⟨rest, after⟩, hrest, h⟩ := bind_eq_ok.1 h
    cases h
    obtain ⟨hfound, habsent⟩ := ih hrest
    have hnone := learnProvider_found hmiddle
    have hsame : middle.peerstoreGetPeer provider.id = peers'.peerstoreGetPeer provider.id := by
      obtain ⟨more, rfl⟩ := learnProviders_append hrest
      cases hthere : middle.peerstoreGetPeer provider.id with
      | some there => exact (KnownPeers.peerstoreGetPeer_append hthere more).symm
      | none => exact (KnownPeers.peerstoreGetPeer_eq_none.2 (.inl (hnone.1 hthere))).symm
    refine ⟨?_, ?_⟩
    · rw [List.map_cons, ← hsame, ← hfound]
    · rw [List.mem_cons, habsent, eq_comm, hnone, List.exists_mem_cons_iff]

end

/-! ## asking is sound and complete -/

section
variable {sessions : Heap PeerSession} {watching : Bool} {key peerId : List UInt8}
  {replies : Nat → Option (List UInt8)} {peers : KnownPeers} {k : Nat} {peer : KnownPeer}
  {msg : DhtMessage}

theorem safe_logKey : Safe (logKey watching key) ↔ (watching = true → Printable key) := by
  unfold logKey
  cases watching with
  | false => exact ⟨fun _ h => absurd h Bool.false_ne_true, fun _ => safe_ok _⟩
  | true =>
    rw [if_pos rfl]
    constructor
    · intro h _
      obtain ⟨out, hout⟩ := h.of_bind
      unfold cryptoEncodingBase58EncodeInto at hout
      obtain ⟨text, htext, hout⟩ := bind_eq_ok.1 hout
      split at hout
      · next hroom =>
        refine .inr fun text' htext' => ?_
        obtain rfl : text = text' := Except.ok.inj (htext.symm.trans htext')
        exact hroom
      · exact .inl (require_bind_eq_ok.1 hout).1
    · intro h
      obtain ⟨text, htext⟩ := cryptoEncodingBase58EncodeInto_ok (h rfl)
      rw [htext]
      exact safe_ok _

/-- somebody answers iff somebody does when its turn comes -/
theorem someoneAnswers_iff : SomeoneAnswers peers replies ↔
    ∃ k peer, HasTurn peers replies k peer ∧ Answers (replies k) := by
  constructor
  · rintro ⟨k, peer, hitem, hmark, hanswers⟩
    obtain ⟨j, first, hturn, hfirst⟩ := exists_inTurn hitem hmark
    exact ⟨j, first, hturn, hfirst hanswers⟩
  · rintro ⟨k, peer, hturn, hanswers⟩
    exact ⟨k, peer, hturn.item, hturn.wanted, hanswers⟩

section
variable {β : Type} {f : Option DhtMessage → Option β} {asked : List Nat} {answer : Option β}
  (h : ConnectedHaveSessions sessions peers) (hf : OfProviders f)
  (hasks : AsksSafely msg peers replies)
  (hdone : askInTurn Connected peers (askOne (useSession sessions) msg f replies) =
    .ok (asked, answer))
include h hf hasks hdone

/-- **the answer to both** is what is made of the first reply that names a provider -/
theorem answer_iff (found : β) :
    answer = some found ↔ ∃ k peer returned, HasTurn peers replies k peer ∧
      dhtReceived (replies k) = .ok (some returned) ∧ f (some returned) = some found := by
  rw [(askedInTurn hdone).answer found]
  constructor
  · rintro ⟨k, peer, hturn, hask⟩
    have hsend := hasks.sendable ⟨peer, List.mem_of_getElem? hturn.item, hturn.wanted⟩
    rw [askOne_eq (hasSession_of_item h hturn.item hturn.wanted) hsend] at hask
    obtain ⟨returned, hreturned, hask⟩ := bind_eq_ok.1 hask
    have hfound : f returned = some found := Except.ok.inj hask
    cases returned with
    | none =>
      have hne : f none ≠ none := by
        rw [hfound]
        exact Option.some_ne_none found
      exact absurd rfl ((hf none).1 hne)
    | some returned =>
      exact ⟨k, peer, returned, (inTurn_askOne h hf hsend).1 hturn, hreturned, hfound⟩
  · rintro ⟨k, peer, returned, hturn, hreturned, hfound⟩
    have hsend := hasks.sendable ⟨peer, List.mem_of_getElem? hturn.item, hturn.wanted⟩
    refine ⟨k, peer, (inTurn_askOne h hf hsend).2 hturn, ?_⟩
    rw [askOne_eq (hasSession_of_item h hturn.item hturn.wanted) hsend, hreturned, ok_bind, hfound]

/-- **who is asked** -/
theorem mem_asked_iff : k ∈ asked ↔ ∃ peer, HasTurn peers replies k peer := by
  rw [(askedInTurn hdone).asked k]
  constructor
  · rintro ⟨peer, hturn⟩
    have hsend := hasks.sendable ⟨peer, List.mem_of_getElem? hturn.item, hturn.wanted⟩
    exact ⟨peer, (inTurn_askOne h hf hsend).1 hturn⟩
  · rintro ⟨peer, hturn⟩
    have hsend := hasks.sendable ⟨peer, List.mem_of_getElem? hturn.item, hturn.wanted⟩
    exact ⟨peer, (inTurn_askOne h hf hsend).2 hturn⟩

end

/-- **the search for providers** -/
theorem remoteProvidersRight_iff (h : ConnectedHaveSessions sessions peers) :
    RemoteProvidersRight (useSession sessions) watching key replies peers ↔
      KeepsProviders watching key replies peers := by
  constructor
  · rintro ⟨asked, found, after, hrun, -, -, -, hlist⟩
    obtain ⟨u, hlog, hrun⟩ := bind_eq_ok.1 hrun
    obtain ⟨⟨asked', providers⟩, hask, hrun⟩ := bind_eq_ok.1 hrun
    rw [askConnected_askInTurn] at hask
    obtain ⟨⟨asked'', answer⟩, hdone, hask⟩ := bind_eq_ok.1 hask
    cases hask
    have hasks : AsksSafely (providersRequest key) peers replies :=
      (safe_ask h namedProviders_ne_none).1 ⟨_, hdone⟩
    refine ⟨safe_logKey.1 ⟨u, hlog⟩, hasks, fun k peer msg hturn hmsg provider hprovider => ?_⟩
    have hne : msg.providerPeers ≠ [] := List.ne_nil_of_mem hprovider
    have hanswer : answer = some msg.providerPeers :=
      (answer_iff h namedProviders_ne_none hasks hdone _).2
        ⟨k, peer, msg, hturn, hmsg, namedProviders_of_ne hne⟩
    rw [hanswer] at hrun
    dsimp only [Option.getD_some] at hrun
    rw [if_pos hne] at hrun
    obtain ⟨⟨list, peers'⟩, hlearn, hrun⟩ := bind_eq_ok.1 hrun
    cases hrun
    have hid : provider.id ≠ [] := fun hempty =>
      (hlist list rfl).1 ((learnProviders_found hlearn).2.2 ⟨provider, hprovider, hempty⟩)
    exact ⟨hid, safe_learnProviders.1 ⟨_, hlearn⟩ provider hprovider hid⟩
  · rintro ⟨hprintable, hasks, hkeep⟩
    obtain ⟨u, hlog⟩ := safe_logKey.2 hprintable
    obtain ⟨⟨asked, answer⟩, hdone⟩ := (safe_ask h namedProviders_ne_none).2 hasks
    have hask : askConnected (useSession sessions) (providersRequest key) peers replies =
        .ok (asked, answer.getD []) := by
      rw [askConnected_askInTurn, hdone, ok_bind]
    have hanswer := answer_iff h namedProviders_ne_none hasks hdone
    have hordered : asked.Pairwise (· < ·) := (askedInTurn hdone).ordered
    have hmem : ∀ k, k ∈ asked ↔ ∃ peer, HasTurn peers replies k peer :=
      fun k => mem_asked_iff h namedProviders_ne_none hasks hdone
    cases answer with
    | none =>
      refine ⟨asked, none, peers, ?_, hordered, hmem, ?_, fun list hlist => nomatch hlist⟩
      · rw [onlineFindRemoteProviders, hlog, ok_bind, hask]
        rfl
      · refine ⟨fun hne => absurd rfl hne, fun hsome => ?_⟩
        obtain ⟨k, peer, hturn, msg, hmsg, hne⟩ := someoneAnswers_iff.1 hsome
        cases (hanswer _).2 ⟨k, peer, msg, hturn, hmsg, namedProviders_of_ne hne⟩
    | some providers =>
      obtain ⟨k, peer, msg, hturn, hmsg, hnamed⟩ := (hanswer providers).1 rfl
      have hne : msg.providerPeers ≠ [] :=
        (namedProviders_ne_none (some msg)).1 (hnamed ▸ Option.some_ne_none providers)
      obtain rfl : msg.providerPeers = providers :=
        Option.some.inj ((@namedProviders_of_ne (some msg) hne).symm.trans hnamed)
      have hkept := hkeep k peer msg hturn hmsg
      obtain ⟨⟨list, after⟩, hlearn⟩ : Safe (learnProviders msg.providerPeers peers) :=
        safe_learnProviders.2 fun provider hprovider _ => (hkept provider hprovider).2
      obtain ⟨hlist, habsent⟩ := learnProviders_found hlearn
      refine ⟨asked, some list, after, ?_, hordered, hmem, ?_, fun list' hlist' => ?_⟩
      · rw [onlineFindRemoteProviders, hlog, ok_bind, hask, ok_bind]
        dsimp only [Option.getD_some]
        rw [if_pos hne, hlearn, ok_bind]
      · refine ⟨fun _ => ?_, fun _ => Option.some_ne_none list⟩
        exact someoneAnswers_iff.2 ⟨k, peer, hturn, msg, hmsg, hne⟩
      · obtain rfl : list = list' := Option.some.inj hlist'
        refine ⟨fun hnone => ?_, k, peer, msg, hturn, hmsg, hne, hlist⟩
        obtain ⟨provider, hprovider, hempty⟩ := habsent.1 hnone
        exact (hkept provider hprovider).1 hempty

/-! ### the search for a peer -/

theorem onlineFindPeer_of_none {result : Option KnownPeer}
    (h : peers.peerstoreGetPeer peerId = none) :
    (∃ after, onlineFindPeer (useSession sessions) peerId replies peers = .ok (result, after)) ↔
      ∃ asked, askInTurn Connected peers
        (askOne (useSession sessions) (nodeRequest peerId) firstProvider replies) =
          .ok (asked, result) := by
  have hfst := @askSwarm_fst (useSession sessions) replies peers peerId
  unfold onlineFindPeer
  rw [h]
  dsimp only
  constructor
  · rintro ⟨after, hrun⟩
    rw [hrun] at hfst
    cases hdone : askInTurn Connected peers
        (askOne (useSession sessions) (nodeRequest peerId) firstProvider replies) with
    | error e =>
      rw [hdone] at hfst
      cases hfst
    | ok done =>
      rw [hdone] at hfst
      exact ⟨done.1, congrArg (fun answer => Except.ok (done.1, answer)) (Except.ok.inj hfst).symm⟩
  · rintro ⟨asked, hdone⟩
    rw [hdone] at hfst
    cases hrun : askSwarm (useSession sessions) peerId peers replies with
    | error e =>
      rw [hrun] at hfst
      cases hfst
    | ok done =>
      rw [hrun] at hfst
      exact ⟨done.2, congrArg (fun answer => Except.ok (answer, done.2)) (Except.ok.inj hfst)⟩

/-- a peer that is found in the peerstore is the one that was asked for -/
theorem findPeerRight_of_known (h : peers.peerstoreGetPeer peerId ≠ none) :
    FindPeerRight (useSession sessions) peerId replies peers := by
  obtain ⟨there, hthere⟩ := Option.ne_none_iff_exists'.1 h
  obtain ⟨hmem, hid⟩ := KnownPeers.peerstoreGetPeer_eq_some hthere
  refine ⟨some there, peers, ?_, ?_, fun found hfound => ?_⟩
  · unfold onlineFindPeer
    rw [hthere]
  · exact ⟨fun _ => .inl ⟨there, hmem, hid⟩, fun _ => Option.some_ne_none there⟩
  · obtain rfl : there = found := Option.some.inj hfound
    exact hid

theorem firstProvider_eq_some {found : KnownPeer} :
    firstProvider (some msg) = some found ↔
      ∃ provider, msg.providerPeers.head? = some provider ∧ peerCopyGiven provider = found :=
  Option.map_eq_some_iff

/-- **the search for a peer** -/
theorem findPeerRight_iff (h : ConnectedHaveSessions sessions peers) :
    FindPeerRight (useSession sessions) peerId replies peers ↔
      peers.peerstoreGetPeer peerId ≠ none ∨ NamesThePeer peerId replies peers := by
  by_cases hknown : peers.peerstoreGetPeer peerId ≠ none
  · exact ⟨fun _ => .inl hknown, fun _ => findPeerRight_of_known hknown⟩
  have hnone : peers.peerstoreGetPeer peerId = none := not_not.1 hknown
  rw [or_iff_right hknown]
  constructor
  · rintro ⟨result, after, hrun, hiff, hid⟩
    obtain ⟨asked, hdone⟩ := (onlineFindPeer_of_none hnone).1 ⟨after, hrun⟩
    have hasks : AsksSafely (nodeRequest peerId) peers replies :=
      (safe_ask h firstProvider_ne_none).1 ⟨_, hdone⟩
    have hanswer := answer_iff h firstProvider_ne_none hasks hdone
    refine ⟨hasks, fun k peer msg provider hturn hmsg hhead => ?_, fun entry hentry hentryId => ?_⟩
    · have hresult : result = some (peerCopyGiven provider) :=
        (hanswer _).2 ⟨k, peer, msg, hturn, hmsg, firstProvider_eq_some.2 ⟨provider, hhead, rfl⟩⟩
      exact hid _ hresult
    · obtain ⟨found, hfound⟩ :=
        Option.ne_none_iff_exists'.1 (hiff.2 (.inl ⟨entry, hentry, hentryId⟩))
      obtain ⟨k, peer, msg, hturn, hmsg, hfirst⟩ := (hanswer found).1 hfound
      exact someoneAnswers_iff.2 ⟨k, peer, hturn, msg, hmsg,
        (firstProvider_ne_none (some msg)).1 (hfirst ▸ Option.some_ne_none found)⟩
  · rintro ⟨hasks, hfirst, habsent⟩
    obtain ⟨⟨asked, result⟩, hdone⟩ := (safe_ask h firstProvider_ne_none).2 hasks
    obtain ⟨after, hrun⟩ := (onlineFindPeer_of_none hnone).2 ⟨asked, hdone⟩
    have hanswer := answer_iff h firstProvider_ne_none hasks hdone
    have hsome : SomeoneAnswers peers replies → result ≠ none := by
      intro hsome
      obtain ⟨k, peer, hturn, msg, hmsg, hne⟩ := someoneAnswers_iff.1 hsome
      obtain ⟨found, hfound⟩ :=
        Option.ne_none_iff_exists'.1 ((firstProvider_ne_none (some msg)).2 hne)
      rw [(hanswer found).2 ⟨k, peer, msg, hturn, hmsg, hfound⟩]
      exact Option.some_ne_none found
    have hthere : ∀ found, result = some found → ∃ k peer msg provider,
        HasTurn peers replies k peer ∧ dhtReceived (replies k) = .ok (some msg) ∧
          provider ∈ msg.providerPeers ∧ provider.id = peerId ∧ found = peerCopyGiven provider := by
      intro found hfound
      obtain ⟨k, peer, msg, hturn, hmsg, hnamed⟩ := (hanswer found).1 hfound
      obtain ⟨provider, hhead, hcopy⟩ := firstProvider_eq_some.1 hnamed
      exact ⟨k, peer, msg, provider, hturn, hmsg, List.mem_of_mem_head? hhead,
        hfirst k peer msg provider hturn hmsg hhead, hcopy.symm⟩
    refine ⟨result, after, hrun, ⟨fun hne => ?_, fun hright => hsome ?_⟩, fun found hfound => ?_⟩
    · obtain ⟨found, hfound⟩ := Option.ne_none_iff_exists'.1 hne
      obtain ⟨k, peer, msg, provider, hturn, hmsg, hmem, hid, -⟩ := hthere found hfound
      exact .inr ⟨k, peer, hturn.item, hturn.wanted, msg, hmsg, provider, hmem, hid⟩
    · obtain ⟨entry, hentry, hid⟩ | ⟨k, peer, hitem, hmark, msg, hmsg, provider, hmem, -⟩ := hright
      · exact habsent entry hentry hid
      · exact ⟨k, peer, hitem, hmark, msg, hmsg, List.ne_nil_of_mem hmem⟩
    · obtain ⟨k, peer, msg, provider, -, -, -, hid, rfl⟩ := hthere found hfound
      exact hid

/-- **asking the network** is sound and complete for these replies, and no others -/
theorem askingNetwork_iff (h : ConnectedHaveSessions sessions peers) :
    (RemoteProvidersRight (useSession sessions) watching key replies peers ↔
      KeepsProviders watching key replies peers) ∧
    (FindPeerRight (useSession sessions) peerId replies peers ↔
      peers.peerstoreGetPeer peerId ≠ none ∨ NamesThePeer peerId replies peers) :=
  ⟨remoteProvidersRight_iff h, findPeerRight_iff h⟩

end

/-! ### two searches -/

/-- `Qb` replies with a provider that has no id -/
def namelessBytes : List UInt8 := [8, 3, 18, 1, 107, 74, 2, 24, 0]

/-- `Qb` is the second of the peerstore -/
def repliesOfQb (reply : List UInt8) (n : Nat) : Option (List UInt8) :=
  if n = 1 then some reply else none

set_option synthInstance.maxSize 1000 in
/-- the peerstore has no entry for a provider without an id -/
theorem onlineFindRemoteProviders_nameless :
    onlineFindRemoteProviders (useSession onlineStart.sessions) false (asciiBytes "k")
      (repliesOfQb namelessBytes) onlineStart.dht.peerStore =
        .ok ([1], some [none], onlineStart.dht.peerStore) := by
  decide +kernel

/-- `Qa` is found although nobody asked for it -/
theorem onlineFindPeer_other :
    (onlineFindPeer (useSession onlineStart.sessions) (asciiBytes "Qz")
      (repliesOfQb replyBytes) onlineStart.dht.peerStore).map Prod.fst =
        .ok (some (peerCopyGiven announcedPeerQa)) := by
  decide +kernel

/-- **what is found** may be absent, and may be somebody else -/
theorem not_askingNetwork :
    ConnectedHaveSessions onlineStart.sessions onlineStart.dht.peerStore ∧
      ¬ RemoteProvidersRight (useSession onlineStart.sessions) false (asciiBytes "k")
        (repliesOfQb namelessBytes) onlineStart.dht.peerStore ∧
      ¬ FindPeerRight (useSession onlineStart.sessions) (asciiBytes "Qz") (repliesOfQb replyBytes)
        onlineStart.dht.peerStore := by
  refine ⟨onlineStart_connected, ?_, ?_⟩
  · rintro ⟨asked, found, after, hrun, -, -, -, hlist⟩
    cases onlineFindRemoteProviders_nameless.symm.trans hrun
    exact (hlist [none] rfl).1 (List.mem_singleton.2 rfl)
  · rintro ⟨result, after, hrun, -, hid⟩
    have hother := onlineFindPeer_other
    rw [hrun] at hother
    exact absurd (hid _ (Except.ok.inj hother)) (by decide)

/-- what `Qb` replies is what was asked for -/
theorem askingNetwork_iff_reply :
    (RemoteProvidersRight (useSession onlineStart.sessions) false (asciiBytes "k")
        (repliesOfQb replyBytes) onlineStart.dht.peerStore ↔
      KeepsProviders false (asciiBytes "k") (repliesOfQb replyBytes) onlineStart.dht.peerStore) ∧
    (FindPeerRight (useSession onlineStart.sessions) (asciiBytes "Qa") (repliesOfQb replyBytes)
        onlineStart.dht.peerStore ↔
      onlineStart.dht.peerStore.peerstoreGetPeer (asciiBytes "Qa") ≠ none ∨
        NamesThePeer (asciiBytes "Qa") (repliesOfQb replyBytes) onlineStart.dht.peerStore) :=
  askingNetwork_iff onlineStart_connected

end Libp2p
