import Libipfs.Lib.Run
import Libipfs.Bitswap.RoundTrip
import Libipfs.Bitswap.UsefulMessages

/-!
# The exchange of two nodes

A wants CIDs from B over two streams.  A want is put into A's request for B, which is processed at
once; B processes its request for A when its engine gets to it; each message is handled by the node
that it is delivered to.

* `wantlistGetBlockRemote`   the providers of a CID are asked for its block;
* `exchangeStep`     what the two nodes and the streams between them do;
* `Quiescent`, `Delivers`   nothing is on its way any more; then A has what it wanted;
* `peerRequestQueueFindPeer_queueOf`   the queue of a node that deals with one peer;
* `peerRequestProcessEntry_inTouch`   a request of a connected peer, as it is processed;
* `handleMessage_wireBytes`   a message is handled as it was sent.
-/

namespace Ipfs
open CSem Libp2p

/-! ## asking for a block -/

def BitswapNode.setRequest (node : BitswapNode) (entry : Nat) (n : Node PeerRequest) :
    BitswapNode :=
  { node with peerRequestQueue :=
    { node.peerRequestQueue with heap := node.peerRequestQueue.heap.set entry n } }

def entryOf (cid : Cid) : CidEntry := { peerRequestCidEntryNew with cid := some cid }

/-- the CID is put behind those that are wanted -/
def PeerRequest.wanting (request : PeerRequest) (cid : Cid) : PeerRequest :=
  { request with cidsWeWant := utilsVectorAdd request.cidsWeWant (some (entryOf cid)) }

section
variable (net : PeerNet)

/-- the request of an entry is processed -/
def processRequest (entry : Nat) (node : BitswapNode) : Exec (Option Sent × BitswapNode) := do
  let n ← node.peerRequestQueue.heap.get entry
  let (sent, request) ← peerRequestProcessEntry net node.repo.files n.current
  .ok (sent, node.setRequest entry { n with current := request })

/-- the turn of a peer in `ipfs_bitswap_engine_peer_request_processor_start` -/
def enginePeerRequestProcessor (peer : Option Peer) (node : BitswapNode) :
    Exec (Option Sent × BitswapNode) := do
  match ← peerRequestQueueFindEntry node.peerRequestQueue peer with
  | none => .ok (none, node)
  | some entry => processRequest net entry node

/-- the messages that are sent to the providers -/
def askProviders (cid : Option Cid) :
    List (Option Peer) → BitswapNode → Exec (List Sent × BitswapNode)
  | [], node => .ok ([], node)
  | current :: providers, node => do
    let (entry, queue) ← peerRequestQueueFindPeer node.peerRequestQueue current
    let copy ← cidCopy cid
    let n ← queue.heap.get entry
    let node := { node with peerRequestQueue := queue }.setRequest entry
      { n with current := n.current.wanting copy }
    let (sent, node) ← processRequest net entry node
    let (rest, node) ← askProviders cid providers node
    .ok (sent.toList ++ rest, node)

/-- `findProviders` is the routing's; `none` when it finds nobody -/
def wantlistGetBlockRemote (findProviders : List UInt8 → Option (List (Option Peer)))
    (cid : Option Cid) (node : BitswapNode) : Exec (Bool × List Sent × BitswapNode) := do
  let c ← deref cid
  match findProviders c.hash with
  | none => .ok (false, [], node)
  | some providers => do
    let (sent, node) ← askProviders net cid providers node
    .ok (true, sent, node)

end

/-! ## two nodes -/

/-- `peerA` is what B knows of A, `peerB` what A knows of B; `opensA` and `opensB` say which files
they can open for writing, `junk` is what a field of a new entry holds -/
structure Link where
  net : PeerNet
  peerA : Peer
  peerB : Peer
  opensA : List UInt8 → Bool
  opensB : List UInt8 → Bool
  junk : UInt8

/-- the streams keep the order of the messages; `wanted` are the CIDs that A has asked for -/
structure BitswapExchange where
  a : BitswapNode
  b : BitswapNode
  toA : List (List UInt8) := []
  toB : List (List UInt8) := []
  wanted : List Cid := []

inductive ExchangeOp where
  | want (cid : Cid)
  | add (block : Block)
  | processA
  | processB
  | deliverA
  | deliverB

def exchangeStep (link : Link) (op : ExchangeOp) (s : BitswapExchange) : Exec BitswapExchange :=
  match op with
  | .want cid => do
    let (_, sent, a) ←
      wantlistGetBlockRemote link.net (fun _ => some [some link.peerB]) (some cid) s.a
    .ok { s with a := a, toB := s.toB ++ sent.map Sent.bytes, wanted := s.wanted ++ [cid] }
  | .add block => do
    let (_, files) ← blockstorePut link.opensB block s.b.repo.files
    .ok { s with b := { s.b with repo := { s.b.repo with files := files } } }
  | .processA => do
    let (sent, a) ← enginePeerRequestProcessor link.net (some link.peerB) s.a
    .ok { s with a := a, toB := s.toB ++ sent.toList.map Sent.bytes }
  | .processB => do
    let (sent, b) ← enginePeerRequestProcessor link.net (some link.peerA) s.b
    .ok { s with b := b, toA := s.toA ++ sent.toList.map Sent.bytes }
  | .deliverA =>
    match s.toA with
    | [] => .ok s
    | bytes :: rest => do
      let (_, a) ←
        bitswapNetworkHandleMessage link.opensA link.junk (some link.peerB.id) bytes s.a
      .ok { s with a := a, toA := rest }
  | .deliverB =>
    match s.toB with
    | [] => .ok s
    | bytes :: rest => do
      let (_, b) ←
        bitswapNetworkHandleMessage link.opensB link.junk (some link.peerA.id) bytes s.b
      .ok { s with b := b, toB := rest }

/-- a peer with a session, and with an id that is the text it is looked up by and fits the log -/
structure InTouch (peer : Peer) : Prop where
  connected : peer.connectionType = connectionTypeConnected
  session : peer.hasSession = true
  id : peer.id ≠ []
  text : 0 ∉ peer.id
  log : peer.id.length < 100

/-- the streams take every message, and the nodes know each other -/
structure Reliable (link : Link) (s : BitswapExchange) : Prop where
  write : ∀ bytes, bytes ≠ [] → 0 < link.net.write bytes
  peerA : InTouch link.peerA
  peerB : InTouch link.peerB
  known : s.b.peerstore.find? (fun peer => peer.id = link.peerA.id) = some link.peerA

/-- nothing has been asked for, and nothing sent -/
structure Fresh (s : BitswapExchange) : Prop where
  a : s.a.peerRequestQueue = peerRequestQueueNew
  b : s.b.peerRequestQueue = peerRequestQueueNew
  toA : s.toA = []
  toB : s.toB = []
  wanted : s.wanted = []

/-- no message is in flight, and to process the requests once more sends no want, cancel or block -/
structure Quiescent (link : Link) (s : BitswapExchange) : Prop where
  toA : s.toA = []
  toB : s.toB = []
  a : ∀ sent a, enginePeerRequestProcessor link.net (some link.peerB) s.a = .ok (some sent, a) →
    ¬ Useful sent.message
  b : ∀ sent b, enginePeerRequestProcessor link.net (some link.peerA) s.b = .ok (some sent, b) →
    ¬ Useful sent.message

/-- the data is in the store under the CID, and in the block of the want list entry of the CID -/
structure Has (node : BitswapNode) (cid : Cid) (data : List UInt8) : Prop where
  stored : ∃ block, blockstoreGet (some cid) node.repo.files = .ok (some block) ∧
    block.data = data
  attached : ∀ i entry, findEntryOf (some cid) node.localWantlist.entries = some i →
    utilsVectorGet node.localWantlist.entries i = some entry →
      ∃ block, entry.block = some block ∧ block.data = data

/-- when all is quiet, A has each of the CIDs it wanted whose block B holds -/
def Delivers (link : Link) (s : BitswapExchange) : Prop :=
  Quiescent link s → ∀ cid ∈ s.wanted, ∀ block,
    blockstoreGet (some cid) s.b.repo.files = .ok (some block) → Has s.a cid block.data

/-! ## the queue of a node that deals with one peer -/

def queueOf : Option PeerRequest → PeerRequestQueue
  | none => peerRequestQueueNew
  | some request => ⟨Heap.empty.alloc ⟨none, request, none⟩, some 0, some 0⟩

section
variable {request request' : PeerRequest} {peer : Peer} {node : BitswapNode} {net : PeerNet}
  {sent : Option Sent}

theorem queueOf_get : (queueOf (some request)).heap.get 0 = .ok ⟨none, request, none⟩ := rfl

theorem samePeer_self (h : request.peer = some peer) : samePeer (some peer) request = true := by
  unfold samePeer
  rw [h, peerCompare_self]
  rfl

theorem peerRequestQueueSearch_queueOf (h : request.peer = some peer) :
    peerRequestQueueSearch (queueOf (some request)) (some peer) = .ok (some 0) := by
  show findFrom (queueOf (some request)).heap (samePeer (some peer)) 1 (some 0) = _
  rw [findFrom, queueOf_get, ok_bind, if_pos (samePeer_self h)]

theorem peerRequestQueueFindPeer_queueOf (h : request.peer = some peer) :
    peerRequestQueueFindPeer (queueOf (some request)) (some peer) =
      .ok (0, queueOf (some request)) := by
  unfold peerRequestQueueFindPeer
  rw [peerRequestQueueSearch_queueOf h]
  rfl

/-- a peer without an entry gets one -/
theorem peerRequestQueueFindPeer_new : peerRequestQueueFindPeer (queueOf none) (some peer) =
    .ok (0, queueOf (some { peerRequestNew with peer := some peer })) := rfl

theorem setRequest_queueOf (h : node.peerRequestQueue = queueOf (some request)) :
    node.setRequest 0 ⟨none, request', none⟩ =
      { node with peerRequestQueue := queueOf (some request') } := by
  have hset : (queueOf (some request)).heap.set 0 ⟨none, request', none⟩ =
      (queueOf (some request')).heap := by
    unfold queueOf Heap.set Heap.alloc
    congr 1
    exact Function.update_idem _ _ _
  unfold BitswapNode.setRequest
  rw [h, hset]
  rfl

theorem processRequest_queueOf (h : node.peerRequestQueue = queueOf (some request))
    (hprocess : peerRequestProcessEntry net node.repo.files request = .ok (sent, request')) :
    processRequest net 0 node =
      .ok (sent, { node with peerRequestQueue := queueOf (some request') }) := by
  unfold processRequest
  rw [h, queueOf_get, ok_bind]
  show (peerRequestProcessEntry net node.repo.files request >>= _) = _
  rw [hprocess, ok_bind]
  exact congrArg (fun node => Except.ok (sent, node)) (setRequest_queueOf h)

theorem enginePeerRequestProcessor_new (h : node.peerRequestQueue = queueOf none) :
    enginePeerRequestProcessor net (some peer) node = .ok (none, node) := by
  unfold enginePeerRequestProcessor
  rw [h]
  rfl

theorem enginePeerRequestProcessor_queueOf
    (h : node.peerRequestQueue = queueOf (some request)) (hpeer : request.peer = some peer)
    (hprocess : peerRequestProcessEntry net node.repo.files request = .ok (sent, request')) :
    enginePeerRequestProcessor net (some peer) node =
      .ok (sent, { node with peerRequestQueue := queueOf (some request') }) := by
  have hfind : peerRequestQueueFindEntry node.peerRequestQueue (some peer) = .ok (some 0) := by
    rw [h]
    exact peerRequestQueueSearch_queueOf hpeer
  unfold enginePeerRequestProcessor
  rw [hfind]
  exact processRequest_queueOf h hprocess

/-- a want is put into the request, which is processed -/
theorem wantlistGetBlockRemote_queueOf {cid : Cid}
    (h : peerRequestQueueFindPeer node.peerRequestQueue (some peer) =
      .ok (0, queueOf (some request)))
    (hprocess : peerRequestProcessEntry net node.repo.files (request.wanting cid) =
      .ok (sent, request')) :
    wantlistGetBlockRemote net (fun _ => some [some peer]) (some cid) node =
      .ok (true, sent.toList, { node with peerRequestQueue := queueOf (some request') }) := by
  have hput : BitswapNode.setRequest { node with peerRequestQueue := queueOf (some request) } 0
      ⟨none, request.wanting cid, none⟩ =
        { node with peerRequestQueue := queueOf (some (request.wanting cid)) } :=
    setRequest_queueOf rfl
  have hrun : processRequest net 0
      { node with peerRequestQueue := queueOf (some (request.wanting cid)) } =
        .ok (sent, { node with peerRequestQueue := queueOf (some request') }) :=
    processRequest_queueOf rfl hprocess
  have hone : askProviders net (some cid) [some peer] node =
      .ok (sent.toList, { node with peerRequestQueue := queueOf (some request') }) := by
    unfold askProviders
    rw [h, ok_bind]
    show (processRequest net 0 (BitswapNode.setRequest { node with
      peerRequestQueue := queueOf (some request) } 0 ⟨none, request.wanting cid, none⟩) >>= _) = _
    rw [hput, hrun, ok_bind]
    show Except.ok (sent.toList ++ [], _) = _
    rw [List.append_nil]
  unfold wantlistGetBlockRemote
  rw [deref_some, ok_bind]
  simp only
  rw [hone]
  rfl

end

/-! ## a request of a connected peer -/

section
variable {net : PeerNet} {files : Files} {request built : PeerRequest} {peer : Peer}
  {payload : List Block} {wants : List Want}

/-- a message as it is on the wire -/
def wireBytes (payload : List Block) (wants : List Want) : List UInt8 :=
  bitswapProtocolHeader ++ messageBytes payload wants

theorem peerIdToString_inTouch (hpeer : InTouch peer) : peerIdToString peer = .ok peer.id := by
  unfold peerIdToString
  rw [require_pos hpeer.log]
  rfl

theorem bitswapNetworkSendMessage_inTouch (hwrite : ∀ bytes, bytes ≠ [] → 0 < net.write bytes)
    (hpeer : InTouch peer) (hsize : messageSize payload wants < 2 ^ 31) :
    bitswapNetworkSendMessage net peer (outgoing payload wants) =
      .ok (some (wireBytes payload wants), peer) := by
  have hsame : connectionToPeer net peer = .ok peer := by
    unfold connectionToPeer
    rw [if_neg (by simp [hpeer.connected, hpeer.session])]
  have hpos : 0 < net.write (wireBytes payload wants) := hwrite _ (List.cons_ne_nil _ _)
  unfold bitswapNetworkSendMessage
  rw [peerIdToString_inTouch hpeer, ok_bind, hsame, ok_bind,
    if_neg (not_not_intro hpeer.connected), bitswapMessageProtobufEncodeSize_outgoing, ok_bind,
    bitswapMessageProtobufEncode_outgoing hsize, ok_bind, require_pos hpeer.session, ok_bind]
  show Except.ok (if 0 < net.write (wireBytes payload wants) then _ else _, peer) = _
  rw [if_pos hpos]
  rfl

/-- **something is due**: the message goes out -/
theorem peerRequestProcessEntry_inTouch (hwrite : ∀ bytes, bytes ≠ [] → 0 < net.write bytes)
    (hpeer : InTouch peer) (hrequest : request.peer = some peer)
    (hneed : needToConnect request = .ok true)
    (hbuild : buildMessage files request = .ok (outgoing payload wants, built))
    (hsize : messageSize payload wants < 2 ^ 31) :
    peerRequestProcessEntry net files request =
      .ok (some ⟨outgoing payload wants, wireBytes payload wants⟩,
        { built with peer := some peer }) := by
  have hreach : Reaches net request peer := by
    refine ⟨peer, hrequest, ?_, hneed, ?_⟩
    · unfold hasEnoughInformation
      simp [hpeer.connected]
    · unfold ensureConnected
      rw [if_pos (by simp [hpeer.connected])]
  exact peerRequestProcessEntry_of_reaches hreach hbuild
    (bitswapNetworkSendMessage_inTouch hwrite hpeer hsize)

/-- nothing is due -/
theorem peerRequestProcessEntry_idle (hneed : needToConnect request = .ok false) :
    peerRequestProcessEntry net files request = .ok (none, request) := by
  unfold peerRequestProcessEntry
  cases request.peer with
  | none => rfl
  | some peer =>
    simp only
    rw [hneed]
    split
    · rfl
    · rfl

end

/-! ## a message that is delivered -/

section
variable {opens : List UInt8 → Bool} {junk : UInt8} {node : BitswapNode} {peer : Peer}
  {payload : List Block} {wants : List Want}

theorem stripHeader_wireBytes :
    stripHeader (wireBytes payload wants) = .ok (some (messageBytes payload wants)) := by
  have hfind : (wireBytes payload wants).findIdx? (fun b => b = 10) = some 19 := by
    unfold wireBytes bitswapProtocolHeader
    rfl
  unfold stripHeader
  rw [hfind]
  simp only
  rw [require_pos (by norm_num)]
  rfl

/-- **what a node does** with a message depends on what was put into it -/
theorem handleMessage_wireBytes (hsize : messageSize payload wants < 2 ^ 31)
    (remotePeerId : Option (List UInt8)) :
    bitswapNetworkHandleMessage opens junk remotePeerId (wireBytes payload wants) node =
      handleDecoded opens junk remotePeerId (some (incoming payload wants)) node := by
  unfold bitswapNetworkHandleMessage
  rw [stripHeader_wireBytes, ok_bind]
  simp only
  rw [bitswapMessageProtobufDecode_messageBytes hsize, ok_bind]

end

end Ipfs
