import Libipfs.Crypto.Base58
import Libipfs.Routing.Message

/-!
# The handlers of kademlia messages

A message is answered from three stores: the datastore, the list of providers that have been
announced, and the peerstore.  The datastore and the filestore are given by what their functions
do; the other two are lists.

* `dhtHandleGetProviders`, `dhtHandleAddProvider`, `dhtHandleFindNode`, `dhtHandleGetValue`,
  `dhtHandlePutValue`   the handlers;
* `dhtDispatch`, `dhtHandleMessage`   a message, and a message as it is read;
* `dhtDispatch_cases`   **all that a message can do** to the peerstore and the providers.
-/

namespace Libp2p
open CSem

/-! ## the stores -/

structure ProviderEntry where
  hash : List UInt8
  peerId : List UInt8
  deriving DecidableEq, Repr

/-- the functions of the datastore and of the filestore, whatever `D` these are; `watching` says
that the log of this module is watched -/
structure DhtContext (D : Type) where
  watching : Bool
  datastoreGet : D → List UInt8 → Exec Bool
  datastorePut : D → List UInt8 → List UInt8 → Exec (Bool × D)
  nodeGet : D → List UInt8 → Exec (Option (List UInt8))

/-- `localId` is that of the provider store -/
structure DhtNode (D : Type) where
  peerStore : KnownPeers
  providerStore : List ProviderEntry
  localId : List UInt8
  repo : D
  deriving DecidableEq

/-- an entry of a peerstore, copied into a message -/
def peerCopyKnown (peer : KnownPeer) : GivenOrNull where
  id := peer.id
  addrs := peer.addrs.map some
  connectionType := peer.connectionType
  sessionContext := peer.sessionContext
  isLocal := peer.isLocal

/-- a size is passed as an `int` -/
def providerstoreAdd (entries : List ProviderEntry) (hash peerId : List UInt8) :
    Exec (List ProviderEntry) := do
  require .overflow (hash.length < 2 ^ 31 ∧ peerId.length < 2 ^ 31)
  .ok (entries ++ [{ hash := hash, peerId := peerId }])

section
variable {D : Type} (ctx : DhtContext D) (node : DhtNode D) (msg : DhtMessage)

/-- the id of the first who announced the key -/
def providerstoreGet (hash : List UInt8) : Exec (Option (List UInt8)) := do
  require .overflow (hash.length < 2 ^ 31)
  let here ← ctx.datastoreGet node.repo hash
  if here then .ok (some node.localId)
  else .ok ((node.providerStore.find? fun entry => entry.hash = hash).map ProviderEntry.peerId)

/-! ## the handlers -/

/-- where the encoder returns 0 the buffer is freed and kept, and every caller frees it again -/
def dhtProtobufMessage : Exec (Option (List UInt8)) := do
  let size := messageProtobufEncodeSize msg
  require .null (size ≤ ptrdiffMax)
  match ← messageProtobufEncode msg size with
  | none => .error .freed
  | some bytes => .ok (some bytes)

def dhtHandlePing : Exec (Option (List UInt8)) := dhtProtobufMessage msg

/-- nothing is sent when the provider is in no store; the id and the key are written into strings
of 100 characters for the log -/
def dhtHandleGetProviders : Exec (Option (List UInt8)) := do
  let here ← ctx.datastoreGet node.repo msg.keyBytes
  if here then do
    let peer ← deref node.peerStore.head?
    dhtProtobufMessage { msg with providerPeers := [peerCopyKnown peer] }
  else do
    match ← providerstoreGet ctx node msg.keyBytes with
    | some peerId =>
      match node.peerStore.peerstoreGetPeer peerId with
      | some peer => do
        require .outOfBounds (peer.id.length < 100)
        dhtProtobufMessage { msg with providerPeers := [peerCopyKnown peer] }
      | none => .ok none
    | none => do
      let _ ← cryptoEncodingBase58EncodeInto msg.keyBytes 100
      .ok none

/-- IPv4 or IPv6 -/
def multiaddressIsIp (addr : Multiaddress) : Bool :=
  addr.1.head? = some 4 ∨ addr.1.head? = some 41

def dhtFindPeerIpMultiaddress : List (Option Multiaddress) → Exec (Option Multiaddress)
  | [] => .ok none
  | none :: _ => .error .null
  | some addr :: addrs =>
    if multiaddressIsIp addr then .ok (some addr) else dhtFindPeerIpMultiaddress addrs

/-- the first provider is written to the log before it is known that there is one -/
def dhtLogFirstPeer : Exec Unit :=
  if ctx.watching then do
    let first ← deref msg.providerPeers.head?
    require .outOfBounds (first.id.length < 100)
  else .ok ()

/-- nothing is sent when the function returns 0 -/
def dhtHandleAddProvider : Exec (Option (List UInt8) × DhtNode D) := do
  dhtLogFirstPeer ctx msg
  match msg.providerPeers with
  | [] => .ok (none, node)
  | peer :: _ => do
    match ← dhtFindPeerIpMultiaddress peer.addrs with
    | none => .ok (none, node)
    | some _ => do
      let (added, peers) ← node.peerStore.peerstoreAddPeer peer
      if added then do
        let providers ← providerstoreAdd node.providerStore msg.keyBytes peer.id
        let reply ← dhtProtobufMessage msg
        .ok (reply, { node with peerStore := peers, providerStore := providers })
      else .ok (none, { node with peerStore := peers })

def dhtHandleGetValue : Exec (Option (List UInt8)) := do
  match ← ctx.nodeGet node.repo msg.keyBytes with
  | none => do
    let _ ← cryptoEncodingBase58EncodeInto msg.keyBytes 100
    .ok none
  | some data =>
    let record : Record :=
      { key := some msg.keyBytes, keySize := msg.keyBytes.length, value := data }
    dhtProtobufMessage { msg with record := some record }

/-- whether the value was put is not told to anyone -/
def dhtHandlePutValue : Exec (DhtNode D) :=
  match msg.record with
  | none => .ok node
  | some record => do
    let (_, repo) ←
      ctx.datastorePut node.repo ((record.key.getD []).take record.keySize) record.value
    .ok { node with repo := repo }

def dhtHandleFindNode : Exec (Option (List UInt8)) :=
  match node.peerStore.peerstoreGetPeer msg.keyBytes with
  | none => .ok none
  | some peer => dhtProtobufMessage { msg with providerPeers := [peerCopyKnown peer] }

/-- by the type of the message: what is sent back, and the node -/
def dhtDispatch : Exec (Option (List UInt8) × DhtNode D) :=
  match msg.messageType.toNat with
  | 0 => do
    let node ← dhtHandlePutValue ctx node msg
    .ok (none, node)
  | 1 => do
    let reply ← dhtHandleGetValue ctx node msg
    .ok (reply, node)
  | 2 => dhtHandleAddProvider ctx node msg
  | 3 => do
    let reply ← dhtHandleGetProviders ctx node msg
    .ok (reply, node)
  | 4 => do
    let reply ← dhtHandleFindNode node msg
    .ok (reply, node)
  | 5 => do
    let reply ← dhtHandlePing msg
    .ok (reply, node)
  | _ => .ok (none, node)

end

/-- what was read, if anything could be, and decoded -/
def dhtReceived (buf : Option (List UInt8)) : Exec (Option DhtMessage) :=
  match buf with
  | none => .ok none
  | some bytes => kademliaDecode bytes

def dhtHandleMessage {D : Type} (ctx : DhtContext D) (node : DhtNode D)
    (buf : Option (List UInt8)) : Exec (Option (List UInt8) × DhtNode D) := do
  match ← dhtReceived buf with
  | none => .ok (none, node)
  | some msg => dhtDispatch ctx node msg

/-! ## what a message does to the stores -/

section
variable {D : Type} {ctx : DhtContext D} {node node' : DhtNode D} {msg : DhtMessage}
  {reply : Option (List UInt8)}

theorem providerstoreAdd_eq_ok {entries entries' : List ProviderEntry} {hash peerId : List UInt8}
    (h : providerstoreAdd entries hash peerId = .ok entries') :
    entries' = entries ++ [{ hash := hash, peerId := peerId }] := by
  obtain ⟨-, h⟩ := require_bind_eq_ok.1 h
  exact (Except.ok.inj h).symm

/-- the announcement is recorded -/
def AnnouncementRecorded (msg : DhtMessage) (node node' : DhtNode D) : Prop :=
  ∃ peer rest addr peers, msg.providerPeers = peer :: rest ∧
    dhtFindPeerIpMultiaddress peer.addrs = .ok (some addr) ∧
    node.peerStore.peerstoreAddPeer peer = .ok (true, peers) ∧
    node' = { node with
      peerStore := peers
      providerStore :=
        node.providerStore ++ [{ hash := msg.keyBytes, peerId := peer.id }] }

/-- an announcement is recorded, or nothing happens -/
theorem dhtHandleAddProvider_cases
    (h : dhtHandleAddProvider ctx node msg = .ok (reply, node')) :
    node' = node ∨ AnnouncementRecorded msg node node' := by
  obtain ⟨-, -, h⟩ := bind_eq_ok.1 h
  cases hpeers : msg.providerPeers with
  | nil =>
    rw [hpeers] at h
    cases h
    exact .inl rfl
  | cons peer rest =>
    rw [hpeers] at h
    obtain ⟨addr, haddr, h⟩ := bind_eq_ok.1 h
    cases addr with
    | none =>
      cases h
      exact .inl rfl
    | some addr =>
      obtain ⟨⟨added, peers⟩, hadd, h⟩ := bind_eq_ok.1 h
      cases added with
      | false =>
        cases h
        obtain ⟨k, entry, -, -, -, htrue, -⟩ | ⟨-, -, -, htrue, -⟩ | ⟨-, -, rfl⟩ :=
          KnownPeers.peerstoreAddPeer_cases hadd
        · cases htrue
        · cases htrue
        · exact .inl rfl
      | true =>
        obtain ⟨providers, hproviders, h⟩ := bind_eq_ok.1 h
        obtain ⟨bytes, -, h⟩ := bind_eq_ok.1 h
        cases h
        rw [providerstoreAdd_eq_ok hproviders]
        exact .inr ⟨peer, rest, addr, peers, hpeers, haddr, hadd, rfl⟩

/-- **all that a message can do**: an announcement is recorded, or only the datastore changes -/
theorem dhtDispatch_cases (h : dhtDispatch ctx node msg = .ok (reply, node')) :
    (∃ repo, node' = { node with repo := repo }) ∨
      msg.messageType.toNat = 2 ∧ AnnouncementRecorded msg node node' := by
  unfold dhtDispatch at h
  split at h
  · -- the only message that reaches the datastore
    obtain ⟨node₁, hput, h⟩ := bind_eq_ok.1 h
    cases h
    unfold dhtHandlePutValue at hput
    cases hrecord : msg.record with
    | none =>
      rw [hrecord] at hput
      cases hput
      exact .inl ⟨node.repo, rfl⟩
    | some record =>
      rw [hrecord] at hput
      obtain ⟨⟨put, repo⟩, -, hput⟩ := bind_eq_ok.1 hput
      cases hput
      exact .inl ⟨repo, rfl⟩
  · obtain ⟨reply', -, h⟩ := bind_eq_ok.1 h
    cases h
    exact .inl ⟨node.repo, rfl⟩
  · next htype =>
    obtain rfl | hrecorded := dhtHandleAddProvider_cases h
    · exact .inl ⟨node'.repo, rfl⟩
    · exact .inr ⟨htype, hrecorded⟩
  · obtain ⟨reply', -, h⟩ := bind_eq_ok.1 h
    cases h
    exact .inl ⟨node.repo, rfl⟩
  · obtain ⟨reply', -, h⟩ := bind_eq_ok.1 h
    cases h
    exact .inl ⟨node.repo, rfl⟩
  · obtain ⟨reply', -, h⟩ := bind_eq_ok.1 h
    cases h
    exact .inl ⟨node.repo, rfl⟩
  · cases h
    exact .inl ⟨node.repo, rfl⟩

end

end Libp2p
