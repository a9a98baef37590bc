import Libipfs.Lib.Run
import Libipfs.Routing.DhtProtocol

/-!
# Announcements and the replies to those who ask

A node handles one message after the other.  Kept with it are the announcements that were made, in
the order in which they came, and every exchange: the node as it was, the message, the reply.

* `announcementOf`   what a message announces, if anything;
* `dhtExchange`      a message is handled;
* `RightReply`       who asks for the providers of a key, or for a peer, is answered from what was
                     announced;
* `Servable`         the messages that no handler stumbles over;
* `dhtHandleAddProvider_eq`, `dhtHandleGetProviders_right`, `dhtHandleFindNode_right`   what the
                     handlers do with them;
* `AnnouncementsKept`   the stores hold what was announced;
* `rightReply_along`   **announcements are answered** along a run of such messages.
-/

namespace Libp2p
open CSem

/-! ## announcements -/

structure Announcement where
  key : List UInt8
  peerId : List UInt8
  addrs : List Multiaddress
  deriving DecidableEq, Repr

/-- a peer with an id and an IP address announces that it has the key -/
def announcementOf (msg : DhtMessage) : Option Announcement :=
  if msg.messageType.toNat = 2 then
    msg.providerPeers.head?.bind fun peer =>
      if peer.id ≠ [] ∧ peer.given.any multiaddressIsIp = true then
        some { key := msg.keyBytes, peerId := peer.id, addrs := peer.given }
      else none
  else none

def Announcement.entry (a : Announcement) : ProviderEntry where
  hash := a.key
  peerId := a.peerId

/-- the node and the announcements before a message, and the reply to it; `none` for what could
not be read or decoded -/
structure DhtExchange (D : Type) where
  before : DhtNode D
  announced : List Announcement
  msg : Option DhtMessage
  reply : Option (List UInt8)

structure DhtTrace (D : Type) where
  node : DhtNode D
  announced : List Announcement
  exchanges : List (DhtExchange D)

section
variable {D : Type} (ctx : DhtContext D)

def dhtExchange (buf : Option (List UInt8)) (t : DhtTrace D) : Exec (DhtTrace D) := do
  let msg ← dhtReceived buf
  let (reply, node) ← dhtHandleMessage ctx t.node buf
  .ok { node := node
        announced := t.announced ++ (msg.bind announcementOf).toList
        exchanges := t.exchanges ++
          [{ before := t.node, announced := t.announced, msg := msg, reply := reply }] }

/-! ## the right replies -/

/-- the message with this peer for its only provider -/
def DhtMessage.naming (msg : DhtMessage) (peer : KnownPeer) : DhtMessage :=
  { msg with providerPeers := [peerCopyKnown peer] }

/-- somebody who announced the key, with every address that he announced -/
def AnnouncedBy (announced : List Announcement) (key : List UInt8) (peer : KnownPeer) : Prop :=
  (∃ a ∈ announced, a.key = key ∧ a.peerId = peer.id) ∧
    ∀ a ∈ announced, a.peerId = peer.id → ∀ addr ∈ a.addrs, addr ∈ peer.addrs

/-- the local peer when the key is in the datastore, somebody who announced the key otherwise, and
no reply when there is neither -/
def RightProviders (x : DhtExchange D) (msg : DhtMessage) : Prop :=
  (ctx.datastoreGet x.before.repo msg.keyBytes = .ok true ∧
    ∃ peer ∈ x.before.peerStore, peer.id = x.before.localId ∧
      x.reply = some (messageBytes (msg.naming peer))) ∨
  (ctx.datastoreGet x.before.repo msg.keyBytes = .ok false ∧
    ∃ peer ∈ x.before.peerStore, AnnouncedBy x.announced msg.keyBytes peer ∧
      x.reply = some (messageBytes (msg.naming peer))) ∨
  (ctx.datastoreGet x.before.repo msg.keyBytes = .ok false ∧
    (∀ a ∈ x.announced, a.key ≠ msg.keyBytes) ∧ x.reply = none)

/-- the peer with this id when there is one, and no reply otherwise -/
def RightNode (x : DhtExchange D) (msg : DhtMessage) : Prop :=
  (∃ peer ∈ x.before.peerStore, peer.id = msg.keyBytes ∧
    x.reply = some (messageBytes (msg.naming peer))) ∨
  ((∀ peer ∈ x.before.peerStore, peer.id ≠ msg.keyBytes) ∧ x.reply = none)

def RightReply (x : DhtExchange D) : Prop :=
  ∀ msg, x.msg = some msg →
    (msg.messageType.toNat = 3 → RightProviders ctx x msg) ∧
    (msg.messageType.toNat = 4 → RightNode x msg)

/-! ## the messages that can be served -/

def ReplyFits (msg : DhtMessage) : Prop := messageEstimate msg < 2 ^ 31

/-- the leading zeros of a key, as far as its text is concerned -/
def zcount (key : List UInt8) : Nat := (key.takeWhile fun b => b = 0).length

/-- a key that can be written to the log: without a leading zero, or too long for it -/
def Printable (key : List UInt8) : Prop :=
  zcount key = 0 ∨ ∀ text, cryptoEncodingBase58Encode (key.drop (zcount key)) = .ok text →
    100 ≤ zcount key + text.length

/-- no address in front of the first IP address is null -/
def IpBeforeNull (addrs : List (Option Multiaddress)) : Prop :=
  none ∉ addrs.takeWhile fun addr => !addr.any multiaddressIsIp

variable (node : DhtNode D) (msg : DhtMessage)

def ServablePutValue : Prop :=
  ∀ record, msg.record = some record → ∃ put,
    ctx.datastorePut node.repo ((record.key.getD []).take record.keySize) record.value = .ok put

/-- the message with the value of its key -/
def DhtMessage.holding (data : List UInt8) : DhtMessage :=
  { msg with
    record := some { key := some msg.keyBytes, keySize := msg.keyBytes.length, value := data } }

def ServableGetValue : Prop :=
  ∃ found, ctx.nodeGet node.repo msg.keyBytes = .ok found ∧
    (found = none → Printable msg.keyBytes) ∧
    ∀ data, found = some data → ReplyFits (msg.holding data)

/-- when the log is watched there is a provider, and its id fits into 100 characters; so it does
when the provider is added -/
def ServableAddProvider : Prop :=
  (ctx.watching = true → ∃ peer, msg.providerPeers.head? = some peer ∧ peer.id.length < 100) ∧
  (∀ peer, msg.providerPeers.head? = some peer → IpBeforeNull peer.addrs) ∧
  ∀ a, announcementOf msg = some a →
    a.peerId.length < 100 ∧ a.key.length < 2 ^ 31 ∧ ReplyFits msg

/-- whom a reply names when the key is not in the datastore -/
def announcedPeer (key : List UInt8) : Option KnownPeer :=
  (node.providerStore.find? fun entry => entry.hash = key).bind fun entry =>
    node.peerStore.peerstoreGetPeer entry.peerId

/-- a key that nobody has can be written to the log -/
def ServableGetProviders : Prop :=
  ∃ here, ctx.datastoreGet node.repo msg.keyBytes = .ok here ∧
    (here = true → ∀ peer, node.peerStore.head? = some peer → ReplyFits (msg.naming peer)) ∧
    (here = false → msg.keyBytes.length < 2 ^ 31 ∧
      (∀ peer, announcedPeer node msg.keyBytes = some peer → ReplyFits (msg.naming peer)) ∧
      ((∀ entry ∈ node.providerStore, entry.hash ≠ msg.keyBytes) → Printable msg.keyBytes))

def ServableFindNode : Prop :=
  ∀ peer, node.peerStore.peerstoreGetPeer msg.keyBytes = some peer → ReplyFits (msg.naming peer)

def ServableMessage : Prop :=
  match msg.messageType.toNat with
  | 0 => ServablePutValue ctx node msg
  | 1 => ServableGetValue ctx node msg
  | 2 => ServableAddProvider ctx msg
  | 3 => ServableGetProviders ctx node msg
  | 4 => ServableFindNode node msg
  | 5 => ReplyFits msg
  | _ => True

/-- what is read can be decoded, or rejected, and then served -/
def Servable (buf : Option (List UInt8)) (t : DhtTrace D) : Prop :=
  ∃ received, dhtReceived buf = .ok received ∧
    ∀ msg, received = some msg → ServableMessage ctx t.node msg

end

/-! ## the handlers, of messages that can be served -/

section
variable {D : Type} {ctx : DhtContext D} {node : DhtNode D} {msg : DhtMessage}

theorem dhtProtobufMessage_eq (h : ReplyFits msg) :
    dhtProtobufMessage msg = .ok (some (messageBytes msg)) := by
  have hmem : messageProtobufEncodeSize msg ≤ ptrdiffMax := by
    have hfits : messageEstimate msg < 2 ^ 31 := h
    rw [messageProtobufEncodeSize_of_lt h]
    unfold ptrdiffMax
    omega
  unfold dhtProtobufMessage
  simp only
  rw [require_pos hmem, ok_bind, messageProtobufEncode_eq h, ok_bind]

theorem cryptoEncodingBase58EncodeInto_ok {key : List UInt8} (h : Printable key) :
    ∃ text, cryptoEncodingBase58EncodeInto key 100 = .ok text := by
  have hdrop : key.drop (zcount key) = key.dropWhile fun b => b = 0 := by
    have hsplit := @List.takeWhile_append_dropWhile UInt8 (fun b => b = 0) key
    exact (congrArg (List.drop (zcount key)) hsplit).symm.trans List.drop_left
  have hhead : (key.drop (zcount key)).head? ≠ some 0 := by
    intro hzero
    have hfalse := List.head?_dropWhile_not (fun b => decide (b = 0)) key
    rw [← hdrop, hzero] at hfalse
    exact absurd hfalse (by decide)
  obtain ⟨text, htext⟩ : ∃ text, cryptoEncodingBase58Encode (key.drop (zcount key)) = .ok text :=
    ⟨_, by unfold cryptoEncodingBase58Encode; rw [require_pos hhead, ok_bind]⟩
  unfold cryptoEncodingBase58EncodeInto
  show ∃ out, (cryptoEncodingBase58Encode (key.drop (zcount key)) >>= fun text =>
    if 100 ≤ zcount key + text.length then Except.ok none
    else require Fault.outOfBounds (zcount key = 0) >>= fun _ => Except.ok (some text)) = .ok out
  rw [htext, ok_bind]
  by_cases hroom : 100 ≤ zcount key + text.length
  · rw [if_pos hroom]
    exact ⟨none, rfl⟩
  · have hzero : zcount key = 0 := h.resolve_right fun hlong => hroom (hlong text htext)
    rw [if_neg hroom, require_pos hzero, ok_bind]
    exact ⟨some text, rfl⟩

/-- the first IP address that is given -/
theorem dhtFindPeerIpMultiaddress_eq {addrs : List (Option Multiaddress)} (h : IpBeforeNull addrs) :
    dhtFindPeerIpMultiaddress addrs =
      .ok ((addrs.filterMap fun addr => addr).find? multiaddressIsIp) := by
  induction addrs with
  | nil => rfl
  | cons addr addrs ih =>
    unfold IpBeforeNull at h
    rw [List.takeWhile_cons] at h
    cases addr with
    | none => exact absurd List.mem_cons_self h
    | some a =>
      show _ = Except.ok ((a :: addrs.filterMap fun addr => addr).find? multiaddressIsIp)
      rw [dhtFindPeerIpMultiaddress, List.find?_cons]
      cases hip : multiaddressIsIp a with
      | true => rfl
      | false =>
        have hnot : (!(some a).any multiaddressIsIp) = true := by
          rw [Option.any_some, hip, Bool.not_false]
        rw [if_pos hnot] at h
        exact ih fun hmem => h (List.mem_cons_of_mem _ hmem)

theorem dhtHandlePutValue_ok (h : ServablePutValue ctx node msg) :
    ∃ repo, dhtHandlePutValue ctx node msg = .ok { node with repo := repo } := by
  unfold dhtHandlePutValue
  cases hrecord : msg.record with
  | none => exact ⟨node.repo, rfl⟩
  | some record =>
    obtain ⟨⟨put, repo⟩, hput⟩ := h record hrecord
    exact ⟨repo, by dsimp only; rw [hput, ok_bind]⟩

theorem dhtHandleGetValue_ok (h : ServableGetValue ctx node msg) :
    ∃ reply, dhtHandleGetValue ctx node msg = .ok reply := by
  obtain ⟨found, hfound, hnone, hsome⟩ := h
  unfold dhtHandleGetValue
  rw [hfound, ok_bind]
  cases found with
  | none =>
    obtain ⟨text, htext⟩ := cryptoEncodingBase58EncodeInto_ok (hnone rfl)
    exact ⟨none, by dsimp only; rw [htext, ok_bind]⟩
  | some data => exact ⟨_, dhtProtobufMessage_eq (hsome data rfl)⟩

/-- an announcement is recorded, and any other such message is not -/
theorem dhtHandleAddProvider_eq (htype : msg.messageType.toNat = 2)
    (h : ServableAddProvider ctx msg) :
    (announcementOf msg = none ∧ dhtHandleAddProvider ctx node msg = .ok (none, node)) ∨
    ∃ peer a peers reply, announcementOf msg = some a ∧ a.key = msg.keyBytes ∧
      a.peerId = peer.id ∧ a.addrs = peer.given ∧
      node.peerStore.peerstoreAddPeer peer = .ok (true, peers) ∧
      dhtHandleAddProvider ctx node msg = .ok (reply, { node with
        peerStore := peers
        providerStore := node.providerStore ++ [a.entry] }) := by
  obtain ⟨hwatching, hnull, hannounce⟩ := h
  have hlog : dhtLogFirstPeer ctx msg = .ok () := by
    unfold dhtLogFirstPeer
    by_cases hw : ctx.watching = true
    · obtain ⟨first, hfirst, hlen⟩ := hwatching hw
      rw [if_pos hw, hfirst, deref_some, ok_bind]
      exact require_pos hlen
    · exact if_neg hw
  unfold announcementOf at hannounce ⊢
  unfold dhtHandleAddProvider
  rw [if_pos htype] at hannounce ⊢
  rw [hlog, ok_bind]
  cases hpeers : msg.providerPeers with
  | nil => exact .inl ⟨rfl, rfl⟩
  | cons peer rest =>
    rw [hpeers, List.head?_cons, Option.bind_some] at hannounce
    rw [hpeers, List.head?_cons] at hnull
    rw [List.head?_cons, Option.bind_some]
    dsimp only
    rw [dhtFindPeerIpMultiaddress_eq (hnull peer rfl), ok_bind]
    have hip : peer.given.any multiaddressIsIp = true ↔
        ((peer.addrs.filterMap fun addr => addr).find? multiaddressIsIp).isSome = true := by
      rw [List.find?_isSome, List.any_eq_true]
      rfl
    cases hfind : (peer.addrs.filterMap fun addr => addr).find? multiaddressIsIp with
    | none =>
      have hnot : ¬ (peer.id ≠ [] ∧ peer.given.any multiaddressIsIp = true) := by
        rintro ⟨-, hany⟩
        rw [hip, hfind] at hany
        cases hany
      rw [if_neg hnot]
      exact .inl ⟨rfl, rfl⟩
    | some addr =>
      have hany : peer.given.any multiaddressIsIp = true := hip.2 (by rw [hfind]; rfl)
      dsimp only
      by_cases hid : peer.id = []
      · have hnone : node.peerStore.peerstoreGetPeerEntry peer.id = none :=
          KnownPeers.peerstoreGetPeerEntry_eq_none.2 (.inl hid)
        have hadd : node.peerStore.peerstoreAddPeer peer = .ok (false, node.peerStore) := by
          unfold KnownPeers.peerstoreAddPeer
          rw [hnone]
          exact if_neg (not_not.2 hid)
        rw [if_neg fun hboth => hboth.1 hid, hadd, ok_bind]
        exact .inl ⟨rfl, rfl⟩
      · rw [if_pos ⟨hid, hany⟩] at hannounce ⊢
        obtain ⟨hlen, hkey, hfits⟩ := hannounce _ rfl
        obtain ⟨peers, hadd⟩ :
            ∃ peers, node.peerStore.peerstoreAddPeer peer = .ok (true, peers) := by
          unfold KnownPeers.peerstoreAddPeer
          cases hk : node.peerStore.peerstoreGetPeerEntry peer.id with
          | none => exact ⟨_, by dsimp only; rw [if_pos hid, require_pos hlen, ok_bind]⟩
          | some k =>
            obtain ⟨entry, hentry, -, -⟩ := KnownPeers.peerstoreGetPeerEntry_eq_some hk
            exact ⟨_, by dsimp only; rw [hentry, deref_some, ok_bind, updateAddresses_eq, ok_bind]⟩
        have hsizes : msg.keyBytes.length < 2 ^ 31 ∧ peer.id.length < 2 ^ 31 :=
          ⟨hkey, Nat.lt_trans hlen (by decide)⟩
        have hproviders : providerstoreAdd node.providerStore msg.keyBytes peer.id =
            .ok (node.providerStore ++ [{ hash := msg.keyBytes, peerId := peer.id }]) := by
          unfold providerstoreAdd
          rw [require_pos hsizes, ok_bind]
        refine .inr ⟨peer, _, peers, some (messageBytes msg), rfl, rfl, rfl, rfl, hadd, ?_⟩
        rw [hadd, ok_bind]
        dsimp only
        rw [if_pos rfl, hproviders, ok_bind, dhtProtobufMessage_eq hfits, ok_bind]
        rfl

end

/-! ## the stores hold what was announced -/

section
variable {D : Type} {ctx : DhtContext D} {t t' : DhtTrace D} {msg : DhtMessage}

/-- the first peer is the local one, and every id is one that the peerstore accepts -/
def Identified (node : DhtNode D) : Prop :=
  (∃ peer, node.peerStore.head? = some peer ∧ peer.id = node.localId) ∧
    ∀ peer ∈ node.peerStore, peer.id ≠ [] ∧ peer.id.length < 100

/-- nothing has been announced yet -/
structure Started (t : DhtTrace D) : Prop where
  identified : Identified t.node
  nobody : t.node.providerStore = []
  unannounced : t.announced = []
  unasked : t.exchanges = []

/-- the providers are those who announced, and each is known with what it announced -/
structure AnnouncementsKept (ctx : DhtContext D) (t : DhtTrace D) : Prop where
  identified : Identified t.node
  providers : t.node.providerStore = t.announced.map Announcement.entry
  known : ∀ a ∈ t.announced, ∃ peer, t.node.peerStore.peerstoreGetPeer a.peerId = some peer ∧
    ∀ addr ∈ a.addrs, addr ∈ peer.addrs
  right : ∀ x ∈ t.exchanges, RightReply ctx x

theorem Started.announcementsKept (h : Started t) : AnnouncementsKept ctx t where
  identified := h.identified
  providers := by rw [h.nobody, h.unannounced, List.map_nil]
  known := by
    rw [h.unannounced]
    exact fun a ha => absurd ha List.not_mem_nil
  right := by
    rw [h.unasked]
    exact fun x hx => absurd hx List.not_mem_nil

/-- the peer of an announcement has the addresses of all the announcements with its id -/
theorem AnnouncementsKept.announcedBy (hc : AnnouncementsKept ctx t) {a : Announcement}
    (ha : a ∈ t.announced) :
    ∃ peer, t.node.peerStore.peerstoreGetPeer a.peerId = some peer ∧ peer ∈ t.node.peerStore ∧
      AnnouncedBy t.announced a.key peer := by
  obtain ⟨peer, hpeer, -⟩ := hc.known a ha
  obtain ⟨hmem, hid⟩ := KnownPeers.peerstoreGetPeer_eq_some hpeer
  refine ⟨peer, hpeer, hmem, ⟨a, ha, rfl, hid.symm⟩, fun b hb hbid => ?_⟩
  obtain ⟨peer', hpeer', haddrs⟩ := hc.known b hb
  rw [hbid, hid, hpeer] at hpeer'
  obtain rfl := Option.some.inj hpeer'
  exact haddrs

/-- **who asks for providers** gets the right reply -/
theorem dhtHandleGetProviders_right (hc : AnnouncementsKept ctx t)
    (h : ServableGetProviders ctx t.node msg) :
    ∃ reply, dhtHandleGetProviders ctx t.node msg = .ok reply ∧
      RightProviders ctx
        { before := t.node, announced := t.announced, msg := some msg, reply := reply } msg := by
  obtain ⟨here, hhere, htrue, hfalse⟩ := h
  unfold dhtHandleGetProviders
  rw [hhere, ok_bind]
  cases here with
  | true =>
    obtain ⟨⟨peer, hhead, hid⟩, -⟩ := hc.identified
    have hmem : peer ∈ t.node.peerStore := List.mem_of_mem_head? hhead
    rw [if_pos rfl, hhead, deref_some, ok_bind]
    exact ⟨_, dhtProtobufMessage_eq (htrue rfl peer hhead), .inl ⟨hhere, peer, hmem, hid, rfl⟩⟩
  | false =>
    obtain ⟨hkey, hfits, hprintable⟩ := hfalse rfl
    have hget : providerstoreGet ctx t.node msg.keyBytes =
        .ok ((t.node.providerStore.find? fun entry => entry.hash = msg.keyBytes).map
          ProviderEntry.peerId) := by
      unfold providerstoreGet
      rw [require_pos hkey, ok_bind, hhere, ok_bind]
      rfl
    rw [if_neg Bool.false_ne_true, hget, ok_bind]
    cases hfind : t.node.providerStore.find? fun entry => entry.hash = msg.keyBytes with
    | some entry =>
      have hhash : entry.hash = msg.keyBytes := by
        have hdec := List.find?_some hfind
        exact of_decide_eq_true hdec
      have hentry := List.mem_of_find?_eq_some hfind
      rw [hc.providers] at hentry
      obtain ⟨a, ha, rfl⟩ := List.mem_map.1 hentry
      obtain ⟨peer, hpeer, hmem, hby⟩ := hc.announcedBy ha
      have hlen : peer.id.length < 100 := (hc.identified.2 peer hmem).2
      have hnamed : announcedPeer t.node msg.keyBytes = some peer := by
        unfold announcedPeer
        rw [hfind]
        exact hpeer
      have hkeyed : a.key = msg.keyBytes := hhash
      have hpeer' : t.node.peerStore.peerstoreGetPeer a.entry.peerId = some peer := hpeer
      rw [hkeyed] at hby
      rw [Option.map_some]
      dsimp only
      rw [hpeer']
      dsimp only
      rw [require_pos hlen, ok_bind]
      exact ⟨_, dhtProtobufMessage_eq (hfits peer hnamed),
        .inr (.inl ⟨hhere, peer, hmem, hby, rfl⟩)⟩
    | none =>
      have hnobody : ∀ entry ∈ t.node.providerStore, entry.hash ≠ msg.keyBytes := by
        intro entry hentry
        exact of_decide_eq_false (Bool.not_eq_true _ ▸ List.find?_eq_none.1 hfind entry hentry)
      obtain ⟨text, htext⟩ := cryptoEncodingBase58EncodeInto_ok (hprintable hnobody)
      rw [Option.map_none]
      dsimp only
      rw [htext, ok_bind]
      refine ⟨none, rfl, .inr (.inr ⟨hhere, fun a ha => ?_, rfl⟩)⟩
      rw [hc.providers] at hnobody
      exact hnobody a.entry (List.mem_map_of_mem ha)

/-- **who asks for a peer** gets the right reply -/
theorem dhtHandleFindNode_right (hc : AnnouncementsKept ctx t) (h : ServableFindNode t.node msg) :
    ∃ reply, dhtHandleFindNode t.node msg = .ok reply ∧
      RightNode { before := t.node, announced := t.announced, msg := some msg, reply := reply }
        msg := by
  unfold dhtHandleFindNode
  cases hpeer : t.node.peerStore.peerstoreGetPeer msg.keyBytes with
  | some peer =>
    obtain ⟨hmem, hid⟩ := KnownPeers.peerstoreGetPeer_eq_some hpeer
    exact ⟨_, dhtProtobufMessage_eq (h peer hpeer), .inl ⟨peer, hmem, hid, rfl⟩⟩
  | none =>
    refine ⟨none, rfl, .inr ⟨fun peer hmem => ?_, rfl⟩⟩
    obtain hempty | hother := KnownPeers.peerstoreGetPeer_eq_none.1 hpeer
    · rw [hempty]
      exact (hc.identified.2 peer hmem).1
    · exact hother peer hmem

/-- an exchange that leaves the peers and the providers alone -/
theorem AnnouncementsKept.exchange (hc : AnnouncementsKept ctx t) (repo : D) {x : DhtExchange D}
    (hx : RightReply ctx x) :
    AnnouncementsKept ctx
      { node := { t.node with repo := repo }
        announced := t.announced
        exchanges := t.exchanges ++ [x] } where
  identified := hc.identified
  providers := hc.providers
  known := hc.known
  right := by
    intro y hy
    obtain hy | hy := List.mem_append.1 hy
    · exact hc.right y hy
    · rw [List.mem_singleton.1 hy]
      exact hx

/-- an announcement -/
theorem AnnouncementsKept.announce (hc : AnnouncementsKept ctx t) {peer : GivenOrNull}
    {peers : KnownPeers} {a : Announcement}
    (hadd : t.node.peerStore.peerstoreAddPeer peer = .ok (true, peers))
    (hid : a.peerId = peer.id) (haddrs : a.addrs = peer.given) {x : DhtExchange D}
    (hx : RightReply ctx x) :
    AnnouncementsKept ctx
      { node :=
          { t.node with peerStore := peers, providerStore := t.node.providerStore ++ [a.entry] }
        announced := t.announced ++ [a]
        exchanges := t.exchanges ++ [x] } where
  identified := by
    obtain ⟨⟨first, hfirst, hlocal⟩, hids⟩ := hc.identified
    rw [List.head?_eq_getElem?] at hfirst
    obtain ⟨addrs, hkept, -⟩ := KnownPeers.peerstoreAddPeer_kept hadd hfirst
    refine ⟨⟨_, (List.head?_eq_getElem?).trans hkept, hlocal⟩, fun there hthere => ?_⟩
    obtain ⟨entry, hentry, addrs', rfl⟩ | ⟨rfl, -, hne, hlen⟩ :=
      KnownPeers.peerstoreAddPeer_mem hadd hthere
    · exact hids entry hentry
    · exact ⟨hne, hlen⟩
  providers := by
    show t.node.providerStore ++ [a.entry] = (t.announced ++ [a]).map Announcement.entry
    rw [List.map_append, hc.providers, List.map_singleton]
  known := by
    intro b hb
    obtain hb | hb := List.mem_append.1 hb
    · obtain ⟨there, hthere, hsub⟩ := hc.known b hb
      obtain ⟨addrs, hthere', hkept⟩ := KnownPeers.peerstoreAddPeer_getPeer hadd hthere
      exact ⟨_, hthere', fun addr haddr => hkept addr (hsub addr haddr)⟩
    · obtain rfl := List.mem_singleton.1 hb
      obtain ⟨there, hthere, hall⟩ := KnownPeers.peerstoreAddPeer_found hadd
      rw [hid, haddrs]
      refine ⟨there, hthere, fun addr haddr => hall addr ?_⟩
      obtain ⟨given, hgiven, hsome⟩ := List.mem_filterMap.1 haddr
      exact hsome ▸ hgiven
  right := by
    intro y hy
    obtain hy | hy := List.mem_append.1 hy
    · exact hc.right y hy
    · rw [List.mem_singleton.1 hy]
      exact hx

/-! ## along a run -/

theorem rightReply_of_type {x : DhtExchange D} {n : Nat} (hmsg : x.msg = some msg)
    (htype : msg.messageType.toNat = n) (h3 : n = 3 → RightProviders ctx x msg)
    (h4 : n = 4 → RightNode x msg) : RightReply ctx x := by
  intro m hm
  obtain rfl : msg = m := Option.some.inj (hmsg.symm.trans hm)
  exact ⟨fun h => h3 (htype.symm.trans h), fun h => h4 (htype.symm.trans h)⟩

/-- what the dispatcher makes of a message that can be served -/
theorem dhtDispatch_right (hc : AnnouncementsKept ctx t) (h : ServableMessage ctx t.node msg) :
    ∃ reply node, dhtDispatch ctx t.node msg = .ok (reply, node) ∧
      RightReply ctx
        { before := t.node, announced := t.announced, msg := some msg, reply := reply } ∧
      ((announcementOf msg = none ∧ ∃ repo, node = { t.node with repo := repo }) ∨
        ∃ peer a peers, announcementOf msg = some a ∧ a.peerId = peer.id ∧
          a.addrs = peer.given ∧ t.node.peerStore.peerstoreAddPeer peer = .ok (true, peers) ∧
          node = { t.node with
            peerStore := peers
            providerStore := t.node.providerStore ++ [a.entry] }) := by
  have hquiet : msg.messageType.toNat ≠ 2 → announcementOf msg = none := fun htype => if_neg htype
  unfold ServableMessage at h
  split at h
  · next htype =>
    obtain ⟨repo, hput⟩ := dhtHandlePutValue_ok h
    unfold dhtDispatch
    rw [htype, hput, ok_bind]
    exact ⟨none, _, rfl, rightReply_of_type rfl htype (by omega) (by omega),
      .inl ⟨hquiet (by omega), repo, rfl⟩⟩
  · next htype =>
    obtain ⟨reply, hreply⟩ := dhtHandleGetValue_ok h
    unfold dhtDispatch
    rw [htype, hreply, ok_bind]
    exact ⟨reply, t.node, rfl, rightReply_of_type rfl htype (by omega) (by omega),
      .inl ⟨hquiet (by omega), t.node.repo, rfl⟩⟩
  · next htype =>
    obtain ⟨hnone, hdone⟩ | ⟨peer, a, peers, reply, ha, -, hid, haddrs, hadd, hdone⟩ :=
      dhtHandleAddProvider_eq htype h
    all_goals
      unfold dhtDispatch
      rw [htype]
    · exact ⟨none, t.node, hdone, rightReply_of_type rfl htype (by omega) (by omega),
        .inl ⟨hnone, t.node.repo, rfl⟩⟩
    · exact ⟨reply, _, hdone, rightReply_of_type rfl htype (by omega) (by omega),
        .inr ⟨peer, a, peers, ha, hid, haddrs, hadd, rfl⟩⟩
  · next htype =>
    obtain ⟨reply, hreply, hright⟩ := dhtHandleGetProviders_right hc h
    unfold dhtDispatch
    rw [htype, hreply, ok_bind]
    exact ⟨reply, t.node, rfl, rightReply_of_type rfl htype (fun _ => hright) (by omega),
      .inl ⟨hquiet (by omega), t.node.repo, rfl⟩⟩
  · next htype =>
    obtain ⟨reply, hreply, hright⟩ := dhtHandleFindNode_right hc h
    unfold dhtDispatch
    rw [htype, hreply, ok_bind]
    exact ⟨reply, t.node, rfl, rightReply_of_type rfl htype (by omega) fun _ => hright,
      .inl ⟨hquiet (by omega), t.node.repo, rfl⟩⟩
  · next htype =>
    have hping : dhtHandlePing msg = .ok (some (messageBytes msg)) := dhtProtobufMessage_eq h
    unfold dhtDispatch
    rw [htype, hping, ok_bind]
    exact ⟨_, t.node, rfl, rightReply_of_type rfl htype (by omega) (by omega),
      .inl ⟨hquiet (by omega), t.node.repo, rfl⟩⟩
  · next h0 h1 h2 h3 h4 h5 =>
    refine ⟨none, t.node, ?_,
      rightReply_of_type rfl rfl (fun e => absurd e h3) fun e => absurd e h4,
      .inl ⟨hquiet h2, t.node.repo, rfl⟩⟩
    unfold dhtDispatch
    split
    · next e => exact absurd e h0
    · next e => exact absurd e h1
    · next e => exact absurd e h2
    · next e => exact absurd e h3
    · next e => exact absurd e h4
    · next e => exact absurd e h5
    · rfl

/-- **one message** -/
theorem AnnouncementsKept.step (buf : Option (List UInt8)) (t : DhtTrace D)
    (hc : AnnouncementsKept ctx t) (hs : Servable ctx buf t) :
    ∃ t', dhtExchange ctx buf t = .ok t' ∧ AnnouncementsKept ctx t' := by
  obtain ⟨received, hreceived, hserve⟩ := hs
  unfold dhtExchange dhtHandleMessage
  rw [hreceived, ok_bind, ok_bind]
  cases received with
  | none =>
    refine ⟨_, rfl, ?_⟩
    have hkept := hc.exchange t.node.repo
      (x := { before := t.node, announced := t.announced, msg := none, reply := none })
      fun m hm => (nomatch hm)
    rwa [Option.bind_none, Option.toList_none, List.append_nil]
  | some msg =>
    obtain ⟨reply, node, hdone, hright, ⟨hquiet, repo, rfl⟩ | hannounced⟩ :=
      dhtDispatch_right hc (hserve msg rfl)
    · dsimp only
      rw [hdone, ok_bind]
      refine ⟨_, rfl, ?_⟩
      rw [Option.bind_some, hquiet, Option.toList_none, List.append_nil]
      exact hc.exchange repo hright
    · obtain ⟨peer, a, peers, ha, hid, haddrs, hadd, rfl⟩ := hannounced
      dsimp only
      rw [hdone, ok_bind]
      refine ⟨_, rfl, ?_⟩
      rw [Option.bind_some, ha, Option.toList_some]
      exact hc.announce hadd hid haddrs hright

/-- **announcements are answered** along a run of messages that can be served -/
theorem rightReply_along {bufs : List (Option (List UInt8))} (h : Started t)
    (hserve : Guarded (dhtExchange ctx) (Servable ctx) bufs t) :
    HoldsAlong (dhtExchange ctx) (fun t => ∀ x ∈ t.exchanges, RightReply ctx x) bufs t :=
  HoldsAlong.mono (fun _ hc => hc.right)
    (holdsAlong_of_step AnnouncementsKept.step h.announcementsKept hserve)

end

/-! ### a run -/

/-- nothing is in the datastore; the log is watched or not -/
def emptyContext (watching : Bool) : DhtContext Unit where
  watching := watching
  datastoreGet := fun _ _ => .ok false
  datastorePut := fun _ _ _ => .ok (true, ())
  nodeGet := fun _ _ => .ok none

def aloneTrace : DhtTrace Unit where
  node :=
    { peerStore := [{ id := asciiBytes "Ql", isLocal := true }]
      providerStore := []
      localId := asciiBytes "Ql"
      repo := () }
  announced := []
  exchanges := []

theorem aloneTrace_started : Started aloneTrace where
  identified := by
    refine ⟨⟨_, rfl, rfl⟩, fun peer hpeer => ?_⟩
    rw [List.mem_singleton.1 hpeer]
    decide
  nobody := rfl
  unannounced := rfl
  unasked := rfl

def addressOfQa : Multiaddress := ⟨[4, 127, 0, 0, 1, 6, 15, 161], by decide⟩

/-- the peer `Qa` at 127.0.0.1 -/
def announcedPeerQa : GivenOrNull where
  id := asciiBytes "Qa"
  addrs := [some addressOfQa]

/-- it announces the key `k` -/
def announceMessage : DhtMessage where
  messageType := 2
  key := some (asciiBytes "k")
  providerPeers := [announcedPeerQa]

def announceBytes : List UInt8 :=
  [8, 2, 18, 1, 107, 74, 16, 10, 2, 81, 97, 18, 8, 4, 127, 0, 0, 1, 6, 15, 161, 24, 0]

theorem announceBytes_received : dhtReceived (some announceBytes) = .ok (some announceMessage) := by
  decide +kernel

/-- who has the key `k`? -/
def askMessage : DhtMessage where
  messageType := 3
  key := some (asciiBytes "k")

def askBytes : List UInt8 := [8, 3, 18, 1, 107]

theorem askBytes_received : dhtReceived (some askBytes) = .ok (some askMessage) := by
  decide +kernel

/-- the node when the announcement was recorded -/
def announcedNode : DhtNode Unit :=
  { aloneTrace.node with
    peerStore := aloneTrace.node.peerStore ++ [peerCopyGiven announcedPeerQa]
    providerStore := [{ hash := asciiBytes "k", peerId := asciiBytes "Qa" }] }

theorem announceBytes_node :
    (dhtExchange (emptyContext false) (some announceBytes) aloneTrace).map DhtTrace.node =
      .ok announcedNode := by
  decide +kernel

theorem rightReply_along_announced :
    HoldsAlong (dhtExchange (emptyContext false))
      (fun t => ∀ x ∈ t.exchanges, RightReply (emptyContext false) x)
      [some announceBytes, some askBytes] aloneTrace := by
  refine rightReply_along aloneTrace_started
    ⟨⟨_, announceBytes_received, ?_⟩, fun t ht => ⟨⟨_, askBytes_received, ?_⟩, fun _ _ => trivial⟩⟩
  · rintro msg ⟨⟩
    refine ⟨fun h => (nomatch h), fun peer hpeer => ?_, fun a ha => ?_⟩
    · cases hpeer
      unfold IpBeforeNull
      decide
    · cases ha
      unfold ReplyFits
      decide
  · rintro msg ⟨⟩
    have hnode : t.node = announcedNode := by
      have hmap := announceBytes_node
      rw [ht] at hmap
      exact Except.ok.inj hmap
    rw [hnode]
    refine ⟨false, rfl, fun h => (nomatch h), fun _ => ⟨by decide, ?_, ?_⟩⟩
    · rintro peer ⟨⟩
      unfold ReplyFits
      decide
    · intro h
      exact absurd rfl (h _ List.mem_cons_self)

/-- an announcement without a provider -/
def noProviderBytes : List UInt8 := [8, 2, 18, 1, 107]

theorem noProviderBytes_received : dhtReceived (some noProviderBytes) =
    .ok (some { messageType := 2, key := some (asciiBytes "k") }) := by
  decide +kernel

/-- **a watched log**: the provider that is not there is logged -/
theorem not_rightReply_along_watched :
    Started aloneTrace ∧
      ¬ HoldsAlong (dhtExchange (emptyContext true))
        (fun t => ∀ x ∈ t.exchanges, RightReply (emptyContext true) x)
        [some noProviderBytes] aloneTrace := by
  refine ⟨aloneTrace_started, fun h => ?_⟩
  obtain ⟨t, ht, -⟩ := h.last
  have hnull : dhtExchange (emptyContext true) (some noProviderBytes) aloneTrace =
      .error .null := by
    unfold dhtExchange dhtHandleMessage
    rw [noProviderBytes_received]
    rfl
  rw [runOps_cons, hnull] at ht
  cases ht

end Libp2p
