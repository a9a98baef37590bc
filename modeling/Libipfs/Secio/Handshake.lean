import Libipfs.Crypto.PeerId
import Libipfs.Libp2p.KnownPeers
import Libipfs.Secio.Channel

/-!
# The whole handshake of a secure channel, and the peerstore

The handshake is a sequence of steps, each of which may end it.  After the first of them, when the
proposal of the remote has been read and nothing of it has been checked, the remote is looked up
in the peerstore or added to it.  The peerstore is kept with the events of the handshake: what is
written to it, the signature that verifies, the nonce that comes back.

* `secioReceivePropose`   the steps before the peerstore is consulted;
* `secioGetPeerOrAdd`     the peerstore is consulted;
* `secioFullHandshake`    the handshake;
* `StandingKept`          a handshake that fails leaves the peerstore as it was, and nobody gains
                          anything in it before the remote has proved who it is;
* `Undisturbed`           the peerstore is not written, and need not be;
* `standingKept_iff`      **when the standing is kept**.
-/

set_option linter.unusedVariables false

namespace Libp2p
open CSem Ipfs

/-! ## the messages -/

def supportedExchanges : List UInt8 := asciiBytes "P-256,P-384,P-521"
def supportedCiphers : List UInt8 := asciiBytes "AES-256,AES-128,Blowfish"
def supportedHashes : List UInt8 := asciiBytes "SHA256,SHA512"

/-- the key is an RSA key -/
def secioProposeBuild (nonce : List UInt8) (key : PublicKey) : Exec Propose := do
  let publicKey ← publicKeyProtobufEncode key (publicKeyProtobufEncodeSize key)
  .ok { rand := nonce
        publicKey := publicKey
        exchanges := supportedExchanges
        ciphers := supportedCiphers
        hashes := supportedHashes }

def secioProposeProtobufEncodeSize (p : Propose) : Nat :=
  11 + p.rand.length + (11 + p.publicKey.length) + (11 + p.ciphers.length) +
    (11 + p.exchanges.length) + (11 + p.hashes.length)

def secioProposeProtobufEncode (p : Propose) (maxBufferLength : Nat) : Exec (List UInt8) :=
  encodeAll
    [protobufEncodeLengthDelimited 1 .lengthDelimited p.rand,
     protobufEncodeLengthDelimited 2 .lengthDelimited p.publicKey,
     protobufEncodeLengthDelimited 3 .lengthDelimited p.exchanges,
     protobufEncodeLengthDelimited 4 .lengthDelimited p.ciphers,
     protobufEncodeLengthDelimited 5 .lengthDelimited p.hashes] maxBufferLength

/-- the proposal, and whether there was any field -/
def proposeFields (fieldNo : Int) : FieldCase (Propose × Bool) :=
  match fieldNo with
  | 1 => .bytes fun d p => .ok (some ({ p.1 with rand := d }, true))
  | 2 => .bytes fun d p => .ok (some ({ p.1 with publicKey := d }, true))
  | 3 => .bytes fun d p => .ok (some ({ p.1 with exchanges := d }, true))
  | 4 => .bytes fun d p => .ok (some ({ p.1 with ciphers := d }, true))
  | 5 => .bytes fun d p => .ok (some ({ p.1 with hashes := d }, true))
  | _ => .skip

/-- `none` when the decoder returns 0 -/
def secioProposeProtobufDecode (buf : List UInt8) : Exec (Option Propose) := do
  let decoded ← decodeFields proposeFields buf
    ({ rand := [], publicKey := [], exchanges := [], ciphers := [], hashes := [] }, false)
  .ok (decoded.bind fun (p, gotSomething) => if gotSomething then some p else none)

/-- a public key that was received: the type is whatever number it says -/
structure ReceivedKey where
  type : UInt32 := 2
  data : List UInt8 := []
  deriving DecidableEq, Repr

def publicKeyFields (fieldNo : Int) : FieldCase ReceivedKey :=
  match fieldNo with
  | 1 => .varint fun v key => .ok (some { key with type := UInt32.ofNat v })
  | 2 => .bytes fun d key => .ok (some { key with data := d })
  | _ => .skip

/-- `none` when the decoder returns 0 -/
def publicKeyProtobufDecode (buf : List UInt8) : Exec (Option ReceivedKey) :=
  decodeFields publicKeyFields buf {}

/-- as `publicKeyToPeerId`, for a key of any type -/
def receivedKeyToPeerId (sha256 : List UInt8 → Digest) (key : ReceivedKey) :
    Exec (Option (List UInt8)) := do
  let protobuf ← encodeAll
    [protobufEncodeVarint 1 .varint key.type.toNat,
     protobufEncodeLengthDelimited 2 .lengthDelimited key.data] (11 + 11 + key.data.length)
  prettyID 100 (sha256 protobuf).1

/-- `signature` is null when there was none -/
structure Exchange where
  epubkey : List UInt8 := []
  signature : Option (List UInt8) := none
  deriving DecidableEq, Repr

def secioExchangeProtobufEncode (epubkey signature : List UInt8) : Exec (List UInt8) :=
  encodeAll
    [protobufEncodeLengthDelimited 1 .lengthDelimited epubkey,
     protobufEncodeLengthDelimited 2 .lengthDelimited signature]
    (11 + epubkey.length + (11 + signature.length))

def exchangeFields (fieldNo : Int) : FieldCase Exchange :=
  match fieldNo with
  | 1 => .bytes fun d exchange => .ok (some { exchange with epubkey := d })
  | 2 => .bytes fun d exchange => .ok (some { exchange with signature := some d })
  | _ => .skip

/-- `none` when the decoder returns 0 -/
def secioExchangeProtobufDecode (buf : List UInt8) : Exec (Option Exchange) :=
  decodeFields exchangeFields buf {}

/-! ## the two sides -/

/-- the key and the nonce of this side, and the primitives; `rsaVerify` reads the signature from
a pointer, and `ephemeralKeypair` has the public key behind its first byte -/
structure SecioCrypto where
  sha256 : List UInt8 → Digest
  hmac : List UInt8 → List UInt8 → Digest
  aes : List UInt8 → List UInt8 → Vector UInt8 16
  rsaSign : List UInt8 → List UInt8
  rsaVerify : List UInt8 → List UInt8 → Option (List UInt8) → Exec Bool
  ephemeralKeypair : List UInt8 → Option (List UInt8)
  sharedSecret : List UInt8 → List UInt8 → Option (List UInt8)
  nonce : List UInt8
  key : PublicKey

/-- what the remote and the network do: how much of a message is written, and what is read -/
structure SecioRemote where
  proposeSent : List UInt8 → Nat
  proposeIn : Option (List UInt8)
  exchangeSent : List UInt8 → Nat
  exchangeIn : Option (List UInt8)
  nonceSent : List UInt8 → Int
  nonceIn : Option (List UInt8)

/-- the part of a session that the peerstore is concerned with -/
structure PeerSession where
  host : Option (List UInt8) := none
  port : Int := 0
  remotePeerId : Option (List UInt8) := none
  hasDefaultStream : Bool := true
  deriving DecidableEq, Repr

inductive HandshakeEvent where
  | peerstore (before after : KnownPeers)
  | signatureVerified
  | nonceEchoed
  deriving DecidableEq, Repr

/-- `peerstore` may be null -/
structure SecioNode where
  peerstore : Option KnownPeers
  sessions : Heap PeerSession
  events : List HandshakeEvent := []

namespace SecioNode

def note (node : SecioNode) (event : HandshakeEvent) : SecioNode :=
  { node with events := node.events ++ [event] }

def store (node : SecioNode) (before after : KnownPeers) : SecioNode :=
  { node with
    peerstore := some after
    events := node.events ++ [.peerstore before after] }

def freeing (node : SecioNode) (session : Nat) : SecioNode :=
  { node with sessions := node.sessions.free session }

/-- the stream is closed, and then all of the session is freed -/
def sessionContextFree (node : SecioNode) : Option Nat → Exec SecioNode
  | none => .ok node
  | some session => do
    let _ ← node.sessions.get session
    .ok (node.freeing session)

end SecioNode

/-! ## who the remote is -/

/-- `%d` -/
def intText (z : Int) : List UInt8 :=
  if z < 0 then 45 :: numeral 10 z.natAbs else numeral 10 z.natAbs

/-- the id is written into a string of 100 characters, and so is the url -/
def remoteUrl (context : PeerSession) (id : List UInt8) : Exec (List UInt8) := do
  require .outOfBounds (id.length < 100)
  let host ← deref context.host
  strcpy 100 (asciiBytes "/ip4/" ++ host ++ asciiBytes "/tcp/" ++ intText context.port ++
    asciiBytes "/ipfs/" ++ id)

def remoteAddress (context : PeerSession) (id : List UInt8) : Exec (Option Multiaddress) := do
  let url ← remoteUrl context id
  multiaddressNewFromString url

/-- the peer that `secioGetPeerOrAdd` returns: none, the one of an entry, or one that is not in
the peerstore and has this session -/
inductive RemotePeer where
  | missing
  | stored (k : Nat)
  | own (session : Nat)
  deriving DecidableEq, Repr

/-- what is added is a copy, made before the peer is marked -/
def secioAddPeer (node : SecioNode) (session : Nat) (id : List UInt8) (ma : Multiaddress) :
    Exec SecioNode :=
  match node.peerstore with
  | none => .ok node
  | some peers => do
    let (_, peers') ← peers.peerstoreAddPeer
      { id := id, addrs := [some ma], sessionContext := some session }
    .ok (node.store peers peers')

/-- the session that an entry had, if it is another one, is freed -/
def secioReplaceSession (node : SecioNode) (session : Nat) (old : Option Nat) : Exec SecioNode :=
  if old = some session then .ok node else node.sessionContextFree old

def secioGetPeerOrAdd (node : SecioNode) (session : Nat) : Exec (SecioNode × RemotePeer) := do
  let context ← node.sessions.get session
  -- `strlen`
  let id ← deref context.remotePeerId
  match node.peerstore.bind fun peers => peers.peerstoreGetPeerEntry id with
  | none => do
    match ← remoteAddress context id with
    | none => do
      -- the peer is freed, and its session with it
      let node ← node.sessionContextFree (some session)
      .ok (node, .missing)
    | some ma => do
      let node ← secioAddPeer node session id ma
      .ok (node, .own session)
  | some k => do
    let peers ← deref node.peerstore
    let peer ← deref peers[k]?
    let node ← secioReplaceSession node session peer.sessionContext
    .ok (node.store peers (peers.set k { peer with
          sessionContext := some session
          connectionType := connectionTypeConnected }),
      .stored k)

def peerHandleConnectionError (node : SecioNode) : RemotePeer → Exec SecioNode
  | .missing => .error .null
  | .own session => node.sessionContextFree (some session)
  | .stored k => do
    let peers ← deref node.peerstore
    let peer ← deref peers[k]?
    let node ← node.sessionContextFree peer.sessionContext
    .ok (node.store peers (peers.set k { peer with
      sessionContext := none
      connectionType := connectionTypeNotConnected }))

/-! ## the steps -/

/-- both proposals, as they were sent, and the key in that of the remote -/
structure Proposals where
  own : Propose
  ownBytes : List UInt8
  theirs : Propose
  theirBytes : List UInt8
  key : ReceivedKey

section
variable (crypto : SecioCrypto) (remote : SecioRemote)

/-- `none` when the handshake fails; what a decoder has freed is freed again -/
def secioReceivePropose : Exec (Option Proposals) := do
  let own ← secioProposeBuild crypto.nonce crypto.key
  let ownBytes ← secioProposeProtobufEncode own (secioProposeProtobufEncodeSize own)
  if remote.proposeSent ownBytes ≠ ownBytes.length then .ok none
  else
    match remote.proposeIn with
    | none => .ok none
    | some theirBytes => do
      match ← secioProposeProtobufDecode theirBytes with
      | none => .error .freed
      | some theirs =>
        if theirs.rand.length ≠ 16 then .ok none
        else do
          match ← publicKeyProtobufDecode theirs.publicKey with
          | none => .error .freed
          | some key =>
            .ok (some { own := own
                        ownBytes := ownBytes
                        theirs := theirs
                        theirBytes := theirBytes
                        key := key })

/-- the id stays what it was when there is none for the key -/
def remoteIdOf (key : ReceivedKey) (context : PeerSession) : Exec (Option (List UInt8)) := do
  let id ← receivedKeyToPeerId crypto.sha256 key
  .ok (id.or context.remotePeerId)

def secioRememberId (key : ReceivedKey) (node : SecioNode) (session : Nat) : Exec SecioNode := do
  let context ← node.sessions.get session
  let id ← remoteIdOf crypto key context
  .ok { node with sessions := node.sessions.set session { context with remotePeerId := id } }

/-- what both sides have chosen, and the order -/
structure Chosen where
  order : Int
  curve : List UInt8
  cipher : List UInt8
  hash : List UInt8
  deriving DecidableEq, Repr

/-- what is chosen is stored in the session, if it is still there -/
def secioChoose (list : Propose → List UInt8) (order : Int) (proposals : Proposals)
    (alive : Bool) : Exec (Option (List UInt8)) := do
  match ← selectFrom list order proposals.own proposals.theirs with
  | none => .ok none
  | some best => do
    require .freed (alive = true)
    .ok (some best)

/-- the signature is over the own proposal, that of the remote and the ephemeral key -/
def secioSendExchange (proposals : Proposals) (alive : Bool) : Exec (Option Chosen) := do
  let order ← secioDetermineOrder crypto.sha256 proposals.theirs proposals.own
  match ← secioChoose Propose.exchanges order proposals alive with
  | none => .ok none
  | some curve => do
    match ← secioChoose Propose.ciphers order proposals alive with
    | none => .ok none
    | some cipher => do
      match ← secioChoose Propose.hashes order proposals alive with
      | none => .ok none
      | some hash =>
        match crypto.ephemeralKeypair curve with
        | none => .ok none
        | some epubkey => do
          let signature :=
            crypto.rsaSign (proposals.ownBytes ++ proposals.theirBytes ++ epubkey)
          let bytes ← secioExchangeProtobufEncode epubkey signature
          if remote.exchangeSent bytes ≠ bytes.length then .ok none
          else .ok (some { order := order, curve := curve, cipher := cipher, hash := hash })

/-- `none` when the signature is refused, which that of a key of another type always is; the
result of the decoder is not looked at -/
def secioVerifyExchange (proposals : Proposals) (bytes : List UInt8) : Exec (Option Exchange) := do
  match ← secioExchangeProtobufDecode bytes with
  | none => .error .freed
  | some exchange =>
    if proposals.key.type ≠ 0 then .ok none
    else do
      let verified ← crypto.rsaVerify proposals.key.data
        (proposals.theirBytes ++ proposals.ownBytes ++ exchange.epubkey) exchange.signature
      .ok (if verified then some exchange else none)

/-- the keys are stretched from the shared secret -/
def secioFinish (chosen : Chosen) (exchange : Exchange) : Option Negotiated :=
  (crypto.sharedSecret chosen.curve
      (UInt8.ofNat exchange.epubkey.length :: exchange.epubkey)).bind fun secret =>
    finishHandshake crypto.hmac chosen.order chosen.curve chosen.cipher chosen.hash secret

/-- each side sends the nonce of the other, encrypted; `none` unless the own one comes back -/
def secioEchoNonces (proposals : Proposals) (negotiated : Negotiated) : Exec (Option Unit) := do
  let session := secioInitializeCrypto
    { localStretchedKey := negotiated.localStretchedKey
      remoteStretchedKey := negotiated.remoteStretchedKey
      aesEncode := freshStream
      aesDecode := freshStream }
  let (outgoing, session) ← secioEncrypt crypto.aes crypto.hmac session proposals.theirs.rand
  match outgoing with
  | none => .ok none
  | some bytes =>
    if remote.nonceSent bytes ≤ 0 then .ok none
    else
      match remote.nonceIn with
      | none => .ok none
      | some incoming => do
        let (opened, _) ← secioDecrypt crypto.aes crypto.hmac session incoming
        if opened.count ≤ 0 then .ok none
        else
          match opened with
          | .message data =>
            if data.length ≠ 16 then .ok none
            else do
              let total ← secioBytesCompare 16 data crypto.nonce
              .ok (if total ≠ 0 then none else some ())
          | _ => .ok none

/-! ## the handshake -/

/-- a step that leaves the node alone; the handshake fails when it yields `none` -/
def attempt {α : Type} (node : SecioNode) (step : Exec (Option α))
    (next : α → SecioNode × Exec Bool) : SecioNode × Exec Bool :=
  match step with
  | .error e => (node, .error e)
  | .ok none => (node, .ok false)
  | .ok (some a) => next a

/-- a step that does not fail -/
def perform {α : Type} (node : SecioNode) (step : Exec α) (next : α → SecioNode × Exec Bool) :
    SecioNode × Exec Bool :=
  attempt node (step.map some) next

/-- from the exchange packet of the remote on -/
def secioCompleteHandshake (proposals : Proposals) (chosen : Chosen) (bytes : List UInt8)
    (node : SecioNode) : SecioNode × Exec Bool :=
  attempt node (secioVerifyExchange crypto proposals bytes) fun exchange =>
    let node := node.note .signatureVerified
    attempt node (.ok (secioFinish crypto chosen exchange)) fun negotiated =>
      attempt node (secioEchoNonces crypto remote proposals negotiated) fun _ =>
        (node.note .nonceEchoed, .ok true)

/-- from the first list of the proposals on -/
def secioNegotiateWith (proposals : Proposals) (session : Nat) (remotePeer : RemotePeer)
    (node : SecioNode) : SecioNode × Exec Bool :=
  let alive := (node.sessions.cells session).isSome
  attempt node (secioSendExchange crypto remote proposals alive) fun chosen =>
    match remote.exchangeIn with
    | none =>
      perform node (peerHandleConnectionError node remotePeer) fun node => (node, .ok false)
    | some bytes => secioCompleteHandshake crypto remote proposals chosen bytes node

/-- `secioHandshake` is what the two sides come to of this -/
def secioFullHandshake (node : SecioNode) (session : Nat) : SecioNode × Exec Bool :=
  attempt node (secioReceivePropose crypto remote) fun proposals =>
    perform node (secioRememberId crypto proposals.key node session) fun node =>
      perform node (secioGetPeerOrAdd node session) fun (node, remotePeer) =>
        secioNegotiateWith crypto remote proposals session remotePeer node

end

/-! ## the standing of the peers -/

/-- the peers with their sessions and marks, and whether a session is still there -/
def SecioNode.standing (node : SecioNode) : List (List UInt8 × Option (Nat × Bool) × UInt32) :=
  (node.peerstore.getD []).map fun peer =>
    (peer.id, peer.sessionContext.map fun s => (s, (node.sessions.cells s).isSome),
      peer.connectionType)

/-- an entry is new, is marked connected or is given this session -/
def Gains (session : Nat) (before after : KnownPeers) : Prop :=
  ∃ (k : Nat) (peer : KnownPeer), after[k]? = some peer ∧
    ∀ old : KnownPeer, before[k]? = some old →
    (peer.connectionType = connectionTypeConnected ∧
      old.connectionType ≠ connectionTypeConnected) ∨
    (peer.sessionContext = some session ∧ old.sessionContext ≠ some session)

/-- the signature has verified and the nonce has come back before anything is gained -/
def OnlyAfterProof (session : Nat) (events : List HandshakeEvent) : Prop :=
  ∀ pre before after post, events = pre ++ .peerstore before after :: post →
    Gains session before after →
      HandshakeEvent.signatureVerified ∈ pre ∧ HandshakeEvent.nonceEchoed ∈ pre

/-- of a node, and what a handshake has made of it -/
structure StandingKeptBy (node : SecioNode) (session : Nat) (run : SecioNode × Exec Bool) :
    Prop where
  failed : run.2 ≠ .ok true → run.1.standing = node.standing
  proved : OnlyAfterProof session run.1.events

def StandingKept (crypto : SecioCrypto) (remote : SecioRemote) (node : SecioNode)
    (session : Nat) : Prop :=
  StandingKeptBy node session (secioFullHandshake crypto remote { node with events := [] } session)

/-- the sessions of the peers are there, and so is this one; the id it may have is not empty -/
structure SecioNode.WellFormed (node : SecioNode) (session : Nat) : Prop where
  alive : (node.sessions.cells session).isSome
  sessions : ∀ peers, node.peerstore = some peers → ∀ peer ∈ peers, ∀ s,
    peer.sessionContext = some s → (node.sessions.cells s).isSome
  remoteId : ∀ context, node.sessions.cells session = some context →
    context.remotePeerId ≠ some []

/-- the entry is marked and has this session, and the exchange packet comes if it is waited for -/
def EntryUndisturbed (crypto : SecioCrypto) (remote : SecioRemote) (proposals : Proposals)
    (session : Nat) (peer : KnownPeer) : Prop :=
  peer.sessionContext = some session ∧ peer.connectionType = connectionTypeConnected ∧
    ∀ chosen, secioSendExchange crypto remote proposals true = .ok (some chosen) →
      remote.exchangeIn ≠ none

/-- no entry can be made, and no entry has the session that is freed with the peer -/
def NoneUndisturbed (context : PeerSession) (id : List UInt8) (session : Nat)
    (peers : KnownPeers) : Prop :=
  (∀ ma, remoteAddress context id ≠ .ok (some ma)) ∧
    (remoteAddress context id = .ok none → ∀ peer ∈ peers, peer.sessionContext ≠ some session)

/-- whenever the remote comes to be looked up in a peerstore -/
def Undisturbed (crypto : SecioCrypto) (remote : SecioRemote) (node : SecioNode)
    (session : Nat) : Prop :=
  ∀ proposals context id peers, secioReceivePropose crypto remote = .ok (some proposals) →
    node.sessions.cells session = some context →
    remoteIdOf crypto proposals.key context = .ok (some id) →
    node.peerstore = some peers →
    (∀ k peer, peers.peerstoreGetPeerEntry id = some k → peers[k]? = some peer →
      EntryUndisturbed crypto remote proposals session peer) ∧
    (peers.peerstoreGetPeerEntry id = none → NoneUndisturbed context id session peers)

section
variable {crypto : SecioCrypto} {remote : SecioRemote} {node node' : SecioNode}
variable {session : Nat} {proposals : Proposals} {remotePeer : RemotePeer}
variable {run : SecioNode × Exec Bool} {peers peers' : KnownPeers} {peer : KnownPeer}
variable {events : List HandshakeEvent} {id : List UInt8} {k : Nat} {context : PeerSession}

/-! ## events -/

theorem not_gains_self (session : Nat) (peers : KnownPeers) : ¬ Gains session peers peers := by
  rintro ⟨k, peer, hk, h⟩
  rcases h peer hk with ⟨hnew, hold⟩ | ⟨hnew, hold⟩
  · exact hold hnew
  · exact hold hnew

/-- nobody gains anything -/
theorem onlyAfterProof_of_forall
    (h : ∀ before after, .peerstore before after ∈ events → ¬ Gains session before after) :
    OnlyAfterProof session events := by
  intro pre before after post he hgains
  refine absurd hgains (h before after ?_)
  rw [he]
  exact List.mem_append_right _ List.mem_cons_self

/-- somebody does at once -/
theorem not_onlyAfterProof (h : Gains session peers peers')
    (he : ∃ post, events = .peerstore peers peers' :: post) : ¬ OnlyAfterProof session events := by
  obtain ⟨post, rfl⟩ := he
  intro hproof
  exact List.not_mem_nil (hproof [] peers peers' post rfl h).1

/-- the events of a run that does not write to the peerstore -/
def Notes (events : List HandshakeEvent) : Prop :=
  ∀ before after, HandshakeEvent.peerstore before after ∉ events

theorem notes_nil : Notes [] := fun _ _ => List.not_mem_nil

/-- a run adds events to those of a node, and leaves all else -/
def OnlyNotes (node : SecioNode) (run : SecioNode × Exec Bool) : Prop :=
  ∃ notes, Notes notes ∧ run.1 = { node with events := node.events ++ notes }

theorem onlyNotes_self (result : Exec Bool) : OnlyNotes node (node, result) :=
  ⟨[], notes_nil, by rw [List.append_nil]⟩

theorem onlyNotes_note (event : HandshakeEvent) (hevent : Notes [event])
    (h : OnlyNotes (node.note event) run) : OnlyNotes node run := by
  obtain ⟨notes, hnotes, hrun⟩ := h
  refine ⟨event :: notes, fun before after hmem => ?_, ?_⟩
  · rcases List.mem_cons.1 hmem with hmem | hmem
    · exact hevent before after (hmem ▸ List.mem_cons_self)
    · exact hnotes before after hmem
  · rw [hrun]
    show { node with events := node.events ++ [event] ++ notes } = _
    rw [List.append_assoc]
    rfl

theorem onlyNotes_attempt {α : Type} {step : Exec (Option α)} {next : α → SecioNode × Exec Bool}
    (h : ∀ a, step = .ok (some a) → OnlyNotes node (next a)) :
    OnlyNotes node (attempt node step next) := by
  unfold attempt
  cases step with
  | error e => exact onlyNotes_self _
  | ok a =>
    cases a with
    | none => exact onlyNotes_self _
    | some a => exact h a rfl

theorem onlyNotes_completeHandshake {chosen : Chosen} {bytes : List UInt8} :
    OnlyNotes node (secioCompleteHandshake crypto remote proposals chosen bytes node) := by
  unfold secioCompleteHandshake
  refine onlyNotes_attempt fun exchange _ => ?_
  refine onlyNotes_note .signatureVerified (fun before after h => ?_) ?_
  · cases List.mem_singleton.1 h
  refine onlyNotes_attempt fun negotiated _ => ?_
  refine onlyNotes_attempt fun u _ => ?_
  refine onlyNotes_note .nonceEchoed (fun before after h => ?_) (onlyNotes_self _)
  cases List.mem_singleton.1 h

/-- the exchange packet is waited for in vain -/
def Abandoned (crypto : SecioCrypto) (remote : SecioRemote) (proposals : Proposals)
    (alive : Bool) : Prop :=
  remote.exchangeIn = none ∧
    ∃ chosen, secioSendExchange crypto remote proposals alive = .ok (some chosen)

theorem onlyNotes_negotiateWith
    (h : ¬ Abandoned crypto remote proposals (node.sessions.cells session).isSome) :
    OnlyNotes node (secioNegotiateWith crypto remote proposals session remotePeer node) := by
  unfold secioNegotiateWith
  refine onlyNotes_attempt fun chosen hchosen => ?_
  cases hin : remote.exchangeIn with
  | none => exact absurd ⟨hin, chosen, hchosen⟩ h
  | some bytes => exact onlyNotes_completeHandshake

theorem negotiateWith_of_abandoned
    (h : Abandoned crypto remote proposals (node.sessions.cells session).isSome) :
    secioNegotiateWith crypto remote proposals session remotePeer node =
      perform node (peerHandleConnectionError node remotePeer) fun node => (node, .ok false) := by
  obtain ⟨hin, chosen, hchosen⟩ := h
  unfold secioNegotiateWith
  dsimp only
  rw [hchosen, hin]
  rfl

/-- nothing can be chosen for a session that is freed -/
theorem not_abandoned_freed : ¬ Abandoned crypto remote proposals false := by
  rintro ⟨-, chosen, h⟩
  unfold secioSendExchange at h
  obtain ⟨order, -, h⟩ := bind_eq_ok.1 h
  obtain ⟨curve, hcurve, h⟩ := bind_eq_ok.1 h
  unfold secioChoose at hcurve
  obtain ⟨best, -, hcurve⟩ := bind_eq_ok.1 hcurve
  cases best with
  | none =>
    cases hcurve
    cases h
  | some best =>
    obtain ⟨hfalse, -⟩ := require_bind_eq_ok.1 hcurve
    exact Bool.false_ne_true hfalse

/-! ## what is kept -/

theorem standing_congr (hstore : node'.peerstore = node.peerstore)
    (hsessions : ∀ s, (node'.sessions.cells s).isSome = (node.sessions.cells s).isSome) :
    node'.standing = node.standing := by
  unfold SecioNode.standing
  rw [hstore]
  refine List.map_congr_left fun peer _ => ?_
  simp only [hsessions]

/-- a run that leaves all else, from a node with the same standing -/
theorem keptBy_of_onlyNotes (h : OnlyNotes node' run) (hstanding : node'.standing = node.standing)
    (hevents : ∀ before after, .peerstore before after ∈ node'.events →
      ¬ Gains session before after) : StandingKeptBy node session run := by
  obtain ⟨notes, hnotes, hrun⟩ := h
  constructor
  · intro _
    rw [hrun]
    exact hstanding
  · refine onlyAfterProof_of_forall fun before after hmem => ?_
    rw [hrun] at hmem
    rcases List.mem_append.1 hmem with hmem | hmem
    · exact hevents before after hmem
    · exact absurd hmem (hnotes before after)

/-- without a peerstore there is nothing to keep -/
theorem keptBy_of_null (hnode : node.peerstore = none) (hstore : run.1.peerstore = none)
    (hevents : Notes run.1.events) : StandingKeptBy node session run where
  failed _ := by
    unfold SecioNode.standing
    rw [hstore, hnode]
    rfl
  proved := onlyAfterProof_of_forall fun before after hmem => absurd hmem (hevents before after)

/-- what has been gained before any proof stays gained -/
theorem not_keptBy_of_gains (hgains : Gains session peers peers')
    (hevents : node'.events = [.peerstore peers peers'])
    (hrun : ∃ more, run.1.events = node'.events ++ more) : ¬ StandingKeptBy node session run := by
  intro h
  obtain ⟨more, hmore⟩ := hrun
  refine not_onlyAfterProof hgains ⟨more, ?_⟩ h.proved
  rw [hmore, hevents]
  rfl

/-! ## the steps -/

theorem sessionContextFree_eq_ok {pointer : Option Nat} :
    node.sessionContextFree pointer = .ok node' ↔
      (pointer = none ∧ node' = node) ∨ ∃ s, pointer = some s ∧
        (node.sessions.cells s).isSome ∧ node' = node.freeing s := by
  cases pointer with
  | none =>
    constructor
    · intro h
      exact .inl ⟨rfl, (Except.ok.inj h).symm⟩
    · rintro (⟨-, rfl⟩ | ⟨s, h, -⟩)
      · rfl
      · cases h
  | some s =>
    show (node.sessions.get s >>= fun _ => .ok (node.freeing s)) =
      .ok node' ↔ _
    rw [bind_eq_ok]
    constructor
    · rintro ⟨context, hcontext, h⟩
      refine .inr ⟨s, rfl, ?_, (Except.ok.inj h).symm⟩
      rw [Heap.get_eq_ok.1 hcontext]
      rfl
    · rintro (⟨h, -⟩ | ⟨s', h, hsome, rfl⟩)
      · cases h
      · obtain rfl := Option.some.inj h
        obtain ⟨context, hcontext⟩ := Option.isSome_iff_exists.1 hsome
        exact ⟨context, Heap.get_eq_ok.2 hcontext, rfl⟩

theorem sessionContextFree_events {pointer : Option Nat}
    (h : node.sessionContextFree pointer = .ok node') :
    node'.events = node.events ∧ node'.peerstore = node.peerstore := by
  rcases sessionContextFree_eq_ok.1 h with ⟨-, rfl⟩ | ⟨s, -, -, rfl⟩
  · exact ⟨rfl, rfl⟩
  · exact ⟨rfl, rfl⟩

/-- the error handler adds at most one event -/
theorem peerHandleConnectionError_events
    (h : peerHandleConnectionError node remotePeer = .ok node') :
    ∃ more, node'.events = node.events ++ more := by
  cases remotePeer with
  | missing => cases h
  | own s =>
    have h : node.sessionContextFree (some s) = .ok node' := h
    exact ⟨[], by rw [(sessionContextFree_events h).1, List.append_nil]⟩
  | stored k =>
    unfold peerHandleConnectionError at h
    obtain ⟨peers, -, h⟩ := bind_eq_ok.1 h
    obtain ⟨peer, -, h⟩ := bind_eq_ok.1 h
    obtain ⟨freed, hfreed, h⟩ := bind_eq_ok.1 h
    obtain rfl := Except.ok.inj h
    exact ⟨_, congrArg (· ++ _) (sessionContextFree_events hfreed).1⟩

/-- what comes after the lookup only adds events -/
theorem negotiateWith_events : ∃ more,
    (secioNegotiateWith crypto remote proposals session remotePeer node).1.events =
      node.events ++ more := by
  by_cases hgone : Abandoned crypto remote proposals (node.sessions.cells session).isSome
  · rw [negotiateWith_of_abandoned hgone]
    unfold perform attempt
    cases herr : peerHandleConnectionError node remotePeer with
    | error e => exact ⟨[], (List.append_nil _).symm⟩
    | ok node' => exact peerHandleConnectionError_events herr
  · have hnotes : OnlyNotes node
        (secioNegotiateWith crypto remote proposals session remotePeer node) :=
      onlyNotes_negotiateWith hgone
    obtain ⟨notes, -, h⟩ := hnotes
    exact ⟨notes, by rw [h]⟩

theorem remoteAddress_eq_ok_lt {ma : Option Multiaddress} (h : remoteAddress context id = .ok ma) :
    id.length < 100 := by
  unfold remoteAddress remoteUrl at h
  obtain ⟨url, hurl, -⟩ := bind_eq_ok.1 h
  exact (require_bind_eq_ok.1 hurl).1

/-- the id that is made of a key is not empty -/
theorem remoteIdOf_ne_nil {key : ReceivedKey} (hcontext : context.remotePeerId ≠ some [])
    (h : remoteIdOf crypto key context = .ok (some id)) : id ≠ [] := by
  unfold remoteIdOf receivedKeyToPeerId at h
  obtain ⟨made, hmade, h⟩ := bind_eq_ok.1 h
  obtain ⟨protobuf, -, hmade⟩ := bind_eq_ok.1 hmade
  obtain ⟨text, henc, hid⟩ := prettyID_eq (crypto.sha256 protobuf).2
  rw [hid] at hmade
  obtain rfl := Except.ok.inj hmade
  obtain rfl : text = id := Option.some.inj (Except.ok.inj h)
  rintro rfl
  obtain ⟨ds, -, hvalue, -, hds⟩ := base58Encode_digits
    (show (0x12 :: 0x20 :: cString (crypto.sha256 protobuf).1).head? ≠ some 0 by simp)
  rw [henc] at hds
  have hnil : ds = [] := List.map_eq_nil_iff.1 (Except.ok.inj hds).symm
  rw [hnil, bytesValue_cons] at hvalue
  have hpos :
      0 < (0x12 : UInt8).toNat * 256 ^ (0x20 :: cString (crypto.sha256 protobuf).1).length :=
    Nat.mul_pos (by decide) (Nat.pow_pos (by decide))
  have hzero : ofDigits 58 [] = 0 := rfl
  omega

/-! ## the lookup -/

/-- the node at the lookup -/
def SecioNode.remembering (node : SecioNode) (session : Nat) (context : PeerSession)
    (id : List UInt8) : SecioNode :=
  { node with
    sessions := node.sessions.set session { context with remotePeerId := some id }
    events := [] }

theorem remembering_isSome (s : Nat) :
    ((node.remembering session context id).sessions.cells s).isSome =
      (node.sessions.cells s).isSome :=
  Heap.set_cells_isSome

theorem remembering_standing :
    (node.remembering session context id).standing = node.standing :=
  standing_congr rfl remembering_isSome

theorem remembering_get (h : node.sessions.cells session = some context) :
    (node.remembering session context id).sessions.get session =
      .ok { context with remotePeerId := some id } := by
  refine Heap.get_eq_ok.2 (Heap.set_cells_self ?_)
  rw [h]
  rfl

theorem getPeerOrAdd_entry (h : node.sessions.get session = .ok context)
    (hid : context.remotePeerId = some id) (hstore : node.peerstore = some peers)
    (hk : peers.peerstoreGetPeerEntry id = some k) (hpeer : peers[k]? = some peer)
    (hfree : secioReplaceSession node session peer.sessionContext = .ok node') :
    secioGetPeerOrAdd node session =
      .ok (node'.store peers (peers.set k { peer with
          sessionContext := some session
          connectionType := connectionTypeConnected }),
        .stored k) := by
  unfold secioGetPeerOrAdd
  rw [h, ok_bind, hid, deref_some, ok_bind, hstore, Option.bind_some, hk]
  dsimp only
  rw [deref_some, ok_bind, hpeer, deref_some, ok_bind, hfree, ok_bind]

/-- the address decides when there is no entry -/
theorem getPeerOrAdd_new (h : node.sessions.get session = .ok context)
    (hid : context.remotePeerId = some id) (hstore : node.peerstore = some peers)
    (hk : peers.peerstoreGetPeerEntry id = none) (hne : id ≠ []) :
    (∀ e, remoteAddress context id = .error e → secioGetPeerOrAdd node session = .error e) ∧
    (remoteAddress context id = .ok none → secioGetPeerOrAdd node session =
      .ok (node.freeing session, .missing)) ∧
    (∀ ma, remoteAddress context id = .ok (some ma) → secioGetPeerOrAdd node session =
      .ok (node.store peers (peers ++
          [{ id := id, addrs := [ma], sessionContext := some session }]),
        .own session)) := by
  unfold secioGetPeerOrAdd
  rw [h, ok_bind, hid, deref_some, ok_bind, hstore, Option.bind_some, hk]
  dsimp only
  refine ⟨fun e he => ?_, fun hnone => ?_, fun ma hma => ?_⟩
  · rw [he, error_bind]
  · have hfree : node.sessionContextFree (some session) =
        .ok (node.freeing session) := by
      refine sessionContextFree_eq_ok.2 (.inr ⟨session, rfl, ?_, rfl⟩)
      rw [Heap.get_eq_ok.1 h]
      rfl
    rw [hnone, ok_bind]
    dsimp only
    rw [hfree, ok_bind]
  · have hadd : peers.peerstoreAddPeer
        { id := id, addrs := [some ma], sessionContext := some session } =
        .ok (true, peers ++ [{ id := id, addrs := [ma], sessionContext := some session }]) := by
      unfold KnownPeers.peerstoreAddPeer
      rw [hk]
      dsimp only
      rw [if_pos hne, require_pos (remoteAddress_eq_ok_lt hma), ok_bind]
      rfl
    rw [hma, ok_bind]
    dsimp only
    unfold secioAddPeer
    rw [hstore]
    dsimp only
    rw [hadd, ok_bind]
    rfl

/-! ## who gains -/

theorem gains_set (hk : peers[k]? = some peer)
    (h : peer.sessionContext ≠ some session ∨ peer.connectionType ≠ connectionTypeConnected) :
    Gains session peers (peers.set k { peer with
      sessionContext := some session
      connectionType := connectionTypeConnected }) := by
  obtain ⟨hlt, -⟩ := List.getElem?_eq_some_iff.1 hk
  refine ⟨k, _, List.getElem?_set_self hlt, fun old hold => ?_⟩
  obtain rfl := Option.some.inj (hk.symm.trans hold)
  rcases h with h | h
  · exact .inr ⟨rfl, h⟩
  · exact .inl ⟨rfl, h⟩

theorem gains_append (peer : KnownPeer) : Gains session peers (peers ++ [peer]) := by
  refine ⟨peers.length, peer, ?_, fun old hold => ?_⟩
  · rw [List.getElem?_append_right (Nat.le_refl _), Nat.sub_self]
    rfl
  · rw [List.getElem?_eq_none (Nat.le_refl _)] at hold
    cases hold

/-! ## the two cases -/

/-- the run from the lookup on -/
def secioFromLookup (crypto : SecioCrypto) (remote : SecioRemote) (proposals : Proposals)
    (session : Nat) (node : SecioNode) : SecioNode × Exec Bool :=
  perform node (secioGetPeerOrAdd node session) fun (node, remotePeer) =>
    secioNegotiateWith crypto remote proposals session remotePeer node

theorem fromLookup_of_ok (h : secioGetPeerOrAdd node session = .ok (node', remotePeer)) :
    secioFromLookup crypto remote proposals session node =
      secioNegotiateWith crypto remote proposals session remotePeer node' := by
  unfold secioFromLookup perform
  rw [h]
  rfl

/-- an entry that has lost its session -/
theorem not_keptBy_of_connectionError (hstore : node'.peerstore = some peers)
    (hpeers : node.peerstore = some peers) (hk : peers[k]? = some peer)
    (hsession : peer.sessionContext = some session)
    (halive : (node'.sessions.cells session).isSome) :
    ¬ StandingKeptBy node session
      (perform node' (peerHandleConnectionError node' (.stored k)) fun node =>
        (node, .ok false)) := by
  intro hkept
  have hfree : node'.sessionContextFree peer.sessionContext =
      .ok (node'.freeing session) :=
    sessionContextFree_eq_ok.2 (.inr ⟨session, hsession, halive, rfl⟩)
  have herror : peerHandleConnectionError node' (.stored k) =
      .ok ((node'.freeing session).store peers
        (peers.set k { peer with
          sessionContext := none
          connectionType := connectionTypeNotConnected })) := by
    unfold peerHandleConnectionError
    dsimp only
    rw [hstore, deref_some, ok_bind, hk, deref_some, ok_bind, hfree, ok_bind]
  rw [herror] at hkept
  obtain ⟨hlt, -⟩ := List.getElem?_eq_some_iff.1 hk
  have hsame := congrArg (fun standing => standing[k]?)
    (hkept.failed (show Except.ok false ≠ Except.ok true by decide))
  unfold SecioNode.standing at hsame
  rw [hpeers] at hsame
  have hafter : (List.map (fun peer : KnownPeer =>
      (peer.id,
        peer.sessionContext.map fun s => (s, ((node'.sessions.free session).cells s).isSome),
        peer.connectionType)) (peers.set k { peer with
          sessionContext := none
          connectionType := connectionTypeNotConnected }))[k]? =
      some (peer.id, none, connectionTypeNotConnected) := by
    rw [List.getElem?_map, List.getElem?_set_self hlt]
    rfl
  have hbefore : (List.map (fun peer : KnownPeer =>
      (peer.id, peer.sessionContext.map fun s => (s, (node.sessions.cells s).isSome),
        peer.connectionType)) peers)[k]? =
      some (peer.id, some (session, (node.sessions.cells session).isSome),
        peer.connectionType) := by
    rw [List.getElem?_map, hk, Option.map_some, hsession]
    rfl
  have h := hafter.symm.trans (hsame.trans hbefore)
  cases h

/-- **the remote has an entry** -/
theorem keptBy_entry_iff (hw : node.WellFormed session)
    (hcontext : node.sessions.cells session = some context) (hstore : node.peerstore = some peers)
    (hk : peers.peerstoreGetPeerEntry id = some k) (hpeer : peers[k]? = some peer) :
    StandingKeptBy node session (secioFromLookup crypto remote proposals session
        (node.remembering session context id)) ↔
      EntryUndisturbed crypto remote proposals session peer := by
  have hget : (node.remembering session context id).sessions.get session =
      .ok { context with remotePeerId := some id } := remembering_get hcontext
  have halive : ((node.remembering session context id).sessions.cells session).isSome = true :=
    (remembering_isSome session).trans hw.alive
  by_cases hsession : peer.sessionContext = some session
  · rw [fromLookup_of_ok (getPeerOrAdd_entry hget rfl hstore hk hpeer (if_pos hsession))]
    by_cases hmark : peer.connectionType = connectionTypeConnected
    · -- the entry is written back as it was
      have hsame : peers.set k { peer with
          sessionContext := some session
          connectionType := connectionTypeConnected } = peers := by
        rw [← hsession, ← hmark]
        obtain ⟨hlt, rfl⟩ := List.getElem?_eq_some_iff.1 hpeer
        exact List.set_getElem_self hlt
      rw [hsame]
      by_cases hgone : Abandoned crypto remote proposals true
      · refine iff_of_false ?_ fun h => ?_
        · rw [negotiateWith_of_abandoned (by rw [← halive] at hgone; exact hgone)]
          exact not_keptBy_of_connectionError rfl hstore hpeer hsession halive
        · obtain ⟨hin, chosen, hchosen⟩ := hgone
          exact h.2.2 chosen hchosen hin
      · refine iff_of_true ?_ ⟨hsession, hmark, fun chosen hchosen hin =>
          hgone ⟨hin, chosen, hchosen⟩⟩
        have hnotes : OnlyNotes ((node.remembering session context id).store peers peers)
            (secioNegotiateWith crypto remote proposals session (.stored k)
              ((node.remembering session context id).store peers peers)) :=
          onlyNotes_negotiateWith (by rw [← halive] at hgone; exact hgone)
        refine keptBy_of_onlyNotes hnotes ?_ fun before after hmem => ?_
        · exact standing_congr hstore.symm remembering_isSome
        · cases List.mem_singleton.1 hmem
          exact not_gains_self session peers
    · refine iff_of_false ?_ fun h => hmark h.2.1
      exact not_keptBy_of_gains (gains_set hpeer (.inr hmark)) rfl negotiateWith_events
  · refine iff_of_false ?_ fun h => hsession h.1
    have hfree : ∃ node', secioReplaceSession (node.remembering session context id) session
        peer.sessionContext = .ok node' ∧ node'.events = [] := by
      unfold secioReplaceSession
      rw [if_neg hsession]
      cases hold : peer.sessionContext with
      | none => exact ⟨_, rfl, rfl⟩
      | some s =>
        have hs := hw.sessions peers hstore peer (List.mem_of_getElem? hpeer) s hold
        exact ⟨_, sessionContextFree_eq_ok.2
          (.inr ⟨s, rfl, (remembering_isSome s).trans hs, rfl⟩), rfl⟩
    obtain ⟨node', hnode', hevents⟩ := hfree
    rw [fromLookup_of_ok (getPeerOrAdd_entry hget rfl hstore hk hpeer hnode')]
    refine not_keptBy_of_gains (gains_set hpeer (.inl hsession)) ?_ negotiateWith_events
    show node'.events ++ [_] = [_]
    rw [hevents]
    rfl

/-- freeing a session is seen by the peers that have it -/
theorem standing_freeing_iff (halive : (node.sessions.cells session).isSome)
    (hstore : node.peerstore = some peers) (hstore' : node'.peerstore = some peers)
    (hsessions : ∀ s, (node'.sessions.cells s).isSome = (node.sessions.cells s).isSome) :
    (node'.freeing session).standing = node.standing ↔
      ∀ peer ∈ peers, peer.sessionContext ≠ some session := by
  unfold SecioNode.standing SecioNode.freeing
  dsimp only
  rw [hstore', hstore, Option.getD_some, List.map_inj_left]
  constructor
  · intro h peer hpeer hs
    have hentry := h peer hpeer
    rw [hs, Option.map_some, Option.map_some, Heap.free_cells_self, halive] at hentry
    cases hentry
  · intro h peer hpeer
    cases hs : peer.sessionContext with
    | none => rfl
    | some s =>
      have hne : s ≠ session := fun e => h peer hpeer (hs.trans (congrArg some e))
      rw [Option.map_some, Option.map_some, Heap.free_cells_ne hne, hsessions]

/-- a handshake does not succeed with a session that is freed -/
theorem negotiateWith_freed (hfreed : (node.sessions.cells session).isSome = false) :
    (secioNegotiateWith crypto remote proposals session remotePeer node).2 ≠ .ok true := by
  unfold secioNegotiateWith
  dsimp only
  rw [hfreed]
  unfold attempt
  cases hsend : secioSendExchange crypto remote proposals false with
  | error e => exact fun h => nomatch h
  | ok chosen =>
    cases chosen with
    | none => exact fun h => nomatch h
    | some chosen =>
      have hgone : Abandoned crypto { remote with exchangeIn := none } proposals false :=
        ⟨rfl, chosen, hsend⟩
      exact absurd hgone not_abandoned_freed

/-- **the remote has no entry** -/
theorem keptBy_new_iff (hw : node.WellFormed session)
    (hcontext : node.sessions.cells session = some context) (hstore : node.peerstore = some peers)
    (hk : peers.peerstoreGetPeerEntry id = none) (hne : id ≠ []) :
    StandingKeptBy node session (secioFromLookup crypto remote proposals session
        (node.remembering session context id)) ↔ NoneUndisturbed context id session peers := by
  have hget : (node.remembering session context id).sessions.get session =
      .ok { context with remotePeerId := some id } := remembering_get hcontext
  obtain ⟨herror, hnull, hnew⟩ := getPeerOrAdd_new hget rfl hstore hk hne
  cases haddr : remoteAddress context id with
  | error e =>
    have hrun : secioFromLookup crypto remote proposals session
        (node.remembering session context id) =
        (node.remembering session context id, .error e) := by
      unfold secioFromLookup perform
      rw [herror e haddr]
      rfl
    rw [hrun]
    refine iff_of_true ?_ ⟨fun ma h => ?_, fun h => ?_⟩
    · exact keptBy_of_onlyNotes (onlyNotes_self _) remembering_standing
        fun before after hmem => absurd hmem List.not_mem_nil
    · rw [haddr] at h
      cases h
    · rw [haddr] at h
      cases h
  | ok ma =>
    cases ma with
    | none =>
      rw [fromLookup_of_ok (hnull haddr)]
      have hfreed : (((node.remembering session context id).freeing session).sessions.cells
          session).isSome = false := by
        unfold SecioNode.freeing
        rw [Heap.free_cells_self]
        rfl
      have hnotes : OnlyNotes ((node.remembering session context id).freeing session)
          (secioNegotiateWith crypto remote proposals session .missing
            ((node.remembering session context id).freeing session)) :=
        onlyNotes_negotiateWith (by rw [hfreed]; exact not_abandoned_freed)
      have hstanding : ((node.remembering session context id).freeing session).standing =
          node.standing ↔ ∀ peer ∈ peers, peer.sessionContext ≠ some session :=
        standing_freeing_iff hw.alive hstore hstore remembering_isSome
      constructor
      · intro hkept
        refine ⟨fun ma h => ?_, fun _ => hstanding.1 ?_⟩
        · rw [haddr] at h
          cases h
        · obtain ⟨notes, -, hrun⟩ := hnotes
          have hsame := hkept.failed (negotiateWith_freed hfreed)
          rw [hrun] at hsame
          exact hsame
      · rintro ⟨-, hothers⟩
        exact keptBy_of_onlyNotes hnotes (hstanding.2 (hothers haddr))
          fun before after hmem => absurd hmem List.not_mem_nil
    | some ma =>
      rw [fromLookup_of_ok (hnew ma haddr)]
      refine iff_of_false ?_ fun h => h.1 ma haddr
      exact not_keptBy_of_gains (gains_append _) rfl negotiateWith_events

/-! ## no peerstore -/

theorem getPeerOrAdd_null (hstore : node.peerstore = none)
    (h : secioGetPeerOrAdd node session = .ok (node', remotePeer)) :
    node'.peerstore = none ∧ node'.events = node.events ∧
      (remotePeer = .missing ∨ remotePeer = .own session) := by
  unfold secioGetPeerOrAdd at h
  obtain ⟨context, -, h⟩ := bind_eq_ok.1 h
  obtain ⟨id, -, h⟩ := bind_eq_ok.1 h
  rw [hstore, Option.bind_none] at h
  obtain ⟨ma, -, h⟩ := bind_eq_ok.1 h
  cases ma with
  | none =>
    obtain ⟨freed, hfreed, h⟩ := bind_eq_ok.1 h
    cases h
    obtain ⟨hevents, hpeers⟩ := sessionContextFree_events hfreed
    exact ⟨hpeers.trans hstore, hevents, .inl rfl⟩
  | some ma =>
    obtain ⟨added, hadded, h⟩ := bind_eq_ok.1 h
    cases h
    unfold secioAddPeer at hadded
    rw [hstore] at hadded
    cases hadded
    exact ⟨hstore, rfl, .inr rfl⟩

theorem connectionError_null (hpeer : remotePeer = .missing ∨ remotePeer = .own session)
    (h : peerHandleConnectionError node remotePeer = .ok node') :
    node'.events = node.events ∧ node'.peerstore = node.peerstore := by
  rcases hpeer with rfl | rfl
  · cases h
  · have h : node.sessionContextFree (some session) = .ok node' := h
    exact sessionContextFree_events h

/-- there is nothing to keep -/
theorem keptBy_fromLookup_null (hnode : node.peerstore = none) (hstore : node'.peerstore = none)
    (hevents : node'.events = []) :
    StandingKeptBy node session (secioFromLookup crypto remote proposals session node') := by
  cases hlookup : secioGetPeerOrAdd node' session with
  | error e =>
    have hrun : secioFromLookup crypto remote proposals session node' = (node', .error e) := by
      unfold secioFromLookup perform
      rw [hlookup]
      rfl
    rw [hrun]
    exact keptBy_of_null hnode hstore (hevents ▸ notes_nil)
  | ok found =>
    obtain ⟨looked, remotePeer⟩ := found
    obtain ⟨hpeers, hnone, hremote⟩ := getPeerOrAdd_null hstore hlookup
    rw [hevents] at hnone
    rw [fromLookup_of_ok hlookup]
    by_cases hgone : Abandoned crypto remote proposals (looked.sessions.cells session).isSome
    · rw [negotiateWith_of_abandoned hgone]
      unfold perform attempt
      cases herror : peerHandleConnectionError looked remotePeer with
      | error e => exact keptBy_of_null hnode hpeers (hnone ▸ notes_nil)
      | ok left =>
        obtain ⟨hsame, hleft⟩ := connectionError_null hremote herror
        exact keptBy_of_null hnode (hleft.trans hpeers)
          (show Notes left.events from (hsame.trans hnone) ▸ notes_nil)
    · obtain ⟨notes, hnotes, hrun⟩ := onlyNotes_negotiateWith hgone
      refine keptBy_of_null hnode ?_ ?_
      · rw [hrun]
        exact hpeers
      · rw [hrun]
        show Notes (looked.events ++ notes)
        rw [hnone]
        exact hnotes

/-! ## the handshake -/

theorem keptBy_untouched (result : Exec Bool) :
    StandingKeptBy node session ({ node with events := [] }, result) :=
  keptBy_of_onlyNotes (onlyNotes_self _) rfl fun before after hmem => absurd hmem List.not_mem_nil

/-- the id of the remote is known: the lookup comes next -/
theorem fullHandshake_eq_fromLookup
    (hpropose : secioReceivePropose crypto remote = .ok (some proposals))
    (hcontext : node.sessions.cells session = some context)
    (hid : remoteIdOf crypto proposals.key context = .ok (some id)) :
    secioFullHandshake crypto remote { node with events := [] } session =
      secioFromLookup crypto remote proposals session (node.remembering session context id) := by
  have hremember : secioRememberId crypto proposals.key { node with events := [] } session =
      .ok (node.remembering session context id) := by
    unfold secioRememberId
    rw [Heap.get_eq_ok.2 hcontext, ok_bind, hid, ok_bind]
    rfl
  unfold secioFullHandshake perform
  rw [hpropose]
  dsimp only [attempt]
  rw [hremember]
  rfl

/-- the handshake ends before the lookup -/
theorem keptBy_before (hcontext : node.sessions.cells session = some context)
    (h : ∀ proposals id, secioReceivePropose crypto remote = .ok (some proposals) →
      remoteIdOf crypto proposals.key context ≠ .ok (some id)) :
    StandingKept crypto remote node session := by
  unfold StandingKept secioFullHandshake perform
  cases hpropose : secioReceivePropose crypto remote with
  | error e => exact keptBy_untouched _
  | ok proposals =>
    cases proposals with
    | none => exact keptBy_untouched _
    | some proposals =>
      dsimp only [attempt]
      unfold secioRememberId
      rw [Heap.get_eq_ok.2 hcontext, ok_bind]
      cases hid : remoteIdOf crypto proposals.key context with
      | error e => exact keptBy_untouched _
      | ok id =>
        cases id with
        | some id => exact absurd hid (h proposals id hpropose)
        | none =>
          rw [ok_bind]
          dsimp only [Except.map]
          have hlookup : ∀ context' : PeerSession, context'.remotePeerId = none →
              secioGetPeerOrAdd { node with
                sessions := node.sessions.set session context'
                events := [] } session = .error .null := by
            intro context' hnull
            have hget : (node.sessions.set session context').get session = .ok context' :=
              Heap.get_eq_ok.2 (Heap.set_cells_self (by rw [hcontext]; rfl))
            unfold secioGetPeerOrAdd
            rw [hget, ok_bind, hnull]
            rfl
          rw [hlookup _ rfl]
          refine keptBy_of_onlyNotes (onlyNotes_self _) ?_
            fun before after hmem => absurd hmem List.not_mem_nil
          exact standing_congr rfl fun s => Heap.set_cells_isSome

end

/-- **when the standing is kept**: the peerstore is not consulted, or consulting it leaves it as
it is and it need not be written later -/
theorem standingKept_iff (crypto : SecioCrypto) (remote : SecioRemote) (node : SecioNode)
    (session : Nat) (hw : node.WellFormed session) :
    StandingKept crypto remote node session ↔ Undisturbed crypto remote node session := by
  obtain ⟨context, hcontext⟩ := Option.isSome_iff_exists.1 hw.alive
  by_cases h : ∃ proposals id, secioReceivePropose crypto remote = .ok (some proposals) ∧
      remoteIdOf crypto proposals.key context = .ok (some id)
  · obtain ⟨proposals, id, hpropose, hid⟩ := h
    have hrun := fullHandshake_eq_fromLookup hpropose hcontext hid
    have hne := remoteIdOf_ne_nil (hw.remoteId context hcontext) hid
    unfold StandingKept
    rw [hrun]
    -- the condition speaks of this proposal, this id and this peerstore
    have hsame : ∀ proposals' context' id',
        secioReceivePropose crypto remote = .ok (some proposals') →
        node.sessions.cells session = some context' →
        remoteIdOf crypto proposals'.key context' = .ok (some id') →
        proposals' = proposals ∧ context' = context ∧ id' = id := by
      intro proposals' context' id' hpropose' hcontext' hid'
      obtain rfl : proposals = proposals' :=
        Option.some.inj (Except.ok.inj (hpropose.symm.trans hpropose'))
      obtain rfl : context = context' := Option.some.inj (hcontext.symm.trans hcontext')
      exact ⟨rfl, rfl, Option.some.inj (Except.ok.inj (hid'.symm.trans hid))⟩
    cases hstore : node.peerstore with
    | none =>
      refine iff_of_true (keptBy_fromLookup_null hstore hstore rfl) ?_
      intro proposals' context' id' peers _ _ _ hpeers
      rw [hstore] at hpeers
      cases hpeers
    | some peers =>
      cases hk : peers.peerstoreGetPeerEntry id with
      | some k =>
        obtain ⟨peer, hpeer, -, -⟩ := KnownPeers.peerstoreGetPeerEntry_eq_some hk
        rw [keptBy_entry_iff hw hcontext hstore hk hpeer]
        constructor
        · intro hentry proposals' context' id' peers' hpropose' hcontext' hid' hpeers'
          obtain ⟨rfl, rfl, rfl⟩ := hsame _ _ _ hpropose' hcontext' hid'
          obtain rfl := Option.some.inj (hstore.symm.trans hpeers')
          refine ⟨fun k' peer' hk' hpeer' => ?_, fun hnone => ?_⟩
          · obtain rfl := Option.some.inj (hk.symm.trans hk')
            obtain rfl := Option.some.inj (hpeer.symm.trans hpeer')
            exact hentry
          · rw [hk] at hnone
            cases hnone
        · intro hall
          exact (hall proposals context id peers hpropose hcontext hid hstore).1 k peer hk hpeer
      | none =>
        rw [keptBy_new_iff hw hcontext hstore hk hne]
        constructor
        · intro hnew proposals' context' id' peers' hpropose' hcontext' hid' hpeers'
          obtain ⟨rfl, rfl, rfl⟩ := hsame _ _ _ hpropose' hcontext' hid'
          obtain rfl := Option.some.inj (hstore.symm.trans hpeers')
          refine ⟨fun k' peer' hk' hpeer' => ?_, fun _ => hnew⟩
          rw [hk] at hk'
          cases hk'
        · intro hall
          exact (hall proposals context id peers hpropose hcontext hid hstore).2 hk
  · refine iff_of_true (keptBy_before hcontext fun proposals id hpropose hid =>
      h ⟨proposals, id, hpropose, hid⟩) ?_
    intro proposals context' id peers hpropose hcontext' hid _
    obtain rfl : context = context' := Option.some.inj (hcontext.symm.trans hcontext')
    exact absurd ⟨proposals, id, hpropose, hid⟩ h

/-! ## a stranger -/

/-- the protobuf of the key of the stranger, and of the own one -/
def strangerKey : List UInt8 := [8, 0, 0x12, 1, 1]
def ownKey : PublicKey := ⟨.rsa, [2], by decide⟩

/-- the hash of the stranger's key, that of it with the own nonce, and that of the own key with
the stranger's nonce -/
def threeHashes (input : List UInt8) : Digest :=
  if input = strangerKey then
    ⟨[253, 231, 82, 112, 167, 5, 130, 7, 108, 142, 212, 221, 146, 40, 83, 28, 190, 225, 90, 50, 55,
      97, 235, 249, 65, 177, 247, 139, 118, 233, 189, 120], rfl⟩
  else if input = strangerKey ++ List.replicate 16 7 then
    ⟨[253, 23, 239, 153, 170, 70, 8, 35, 60, 86, 162, 84, 189, 242, 126, 164, 221, 22, 90, 154, 196,
      132, 32, 53, 171, 154, 1, 3, 183, 59, 111, 27], rfl⟩
  else
    ⟨[122, 31, 86, 59, 69, 232, 10, 113, 254, 58, 24, 212, 129, 227, 213, 32, 43, 252, 64, 186, 9,
      61, 7, 69, 41, 169, 18, 103, 101, 76, 88, 43], rfl⟩

/-- no other primitive is used -/
def strangerCrypto : SecioCrypto where
  sha256 := threeHashes
  hmac _ _ := threeHashes []
  aes _ block := Vector.replicate 16 0
  rsaSign _ := []
  rsaVerify _ _ _ := .ok false
  ephemeralKeypair _ := none
  sharedSecret _ _ := none
  nonce := List.replicate 16 7
  key := ownKey

/-- a proposal with a nonce and a key, and without exchanges, ciphers and hashes -/
def stranger : SecioRemote where
  proposeSent := List.length
  proposeIn := some ([0x0a, 16] ++ List.replicate 16 9 ++ [0x12, 5] ++ strangerKey)
  exchangeSent := List.length
  exchangeIn := none
  nonceSent _ := 0
  nonceIn := none

/-- the peer whose key it is, connected with the session 0; the stranger comes with the session
1 -/
def connectedNode : SecioNode where
  peerstore := some [
    { id := asciiBytes "QmfRnSSZMqwyGJHBFrPrwVYV6YCJ1sws7ZarDXXZD3qcZm"
      connectionType := connectionTypeConnected
      sessionContext := some 0 }]
  sessions := ((Heap.empty.alloc {}).alloc {})

theorem wellFormed_connectedNode : connectedNode.WellFormed 1 where
  alive := rfl
  sessions := by
    intro peers hpeers peer hpeer s hs
    obtain rfl := Option.some.inj hpeers
    obtain rfl := List.mem_singleton.1 hpeer
    obtain rfl := Option.some.inj hs
    rfl
  remoteId := by
    intro context hcontext
    have hempty : connectedNode.sessions.cells 1 = some {} := rfl
    obtain rfl := Option.some.inj (hempty.symm.trans hcontext)
    exact fun h => nomatch h

theorem standingKept_iff_stranger :
    StandingKept strangerCrypto stranger connectedNode 1 ↔
      Undisturbed strangerCrypto stranger connectedNode 1 :=
  standingKept_iff strangerCrypto stranger connectedNode 1 wellFormed_connectedNode

/-- **a stranger** who shows the key of a peer, and proves nothing, has the session of that peer -/
theorem not_standingKept_stranger : ¬ StandingKept strangerCrypto stranger connectedNode 1 := by
  intro h
  have hfailed : (secioFullHandshake strangerCrypto stranger
      { connectedNode with events := [] } 1).2 = .ok false := by decide +kernel
  have hsessions : (secioFullHandshake strangerCrypto stranger
      { connectedNode with events := [] } 1).1.standing.map (fun peer => peer.2.1) =
        [some (1, true)] := by decide +kernel
  have hbefore : connectedNode.standing.map (fun peer => peer.2.1) = [some (0, true)] := rfl
  rw [h.failed (by rw [hfailed]; decide), hbefore] at hsessions
  cases hsessions

end Libp2p
