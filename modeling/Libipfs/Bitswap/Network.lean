import Libipfs.Bitswap.Message
import Libipfs.Bitswap.PeerRequestQueue
import Libipfs.Bitswap.WantlistQueue
import Libipfs.Merkledag.Merkledag

/-!
# Incoming messages

A message is a line of text, the protocol header, and a protobuf.  Its blocks are stored and
attached to the want list; its want list is merged into what the peer wants.  The loop that looks
a CID up there advances the pointer to the vector instead of the index: it sees the first entry
and then leaves the vector.

* `bitswapNetworkHandleMessage`   what is done with the bytes;
* `bitswapHasBlock_eq_ok`   a block that is taken in, taken apart once;
* `safe_hasBlocks`, `safe_handleEntries`   when the blocks and the entries are processed;
* `neverCrashes_iff`    when the whole message is.
-/

namespace Ipfs
open CSem Libp2p

/-- the parts of `struct IpfsNode` and of its `struct BitswapContext` that the exchange uses -/
structure BitswapNode where
  repo : Repo
  localWantlist : WantListQueue
  peerRequestQueue : PeerRequestQueue
  peerstore : List Peer

/-- a node that has done nothing yet -/
def bitswapNodeNew (peerstore : List Peer) : BitswapNode :=
  ⟨Repo.empty, wantlistQueueNew, peerRequestQueueNew, peerstore⟩

/-- `/ipfs/bitswap/1.1.0` and the end of the line -/
def bitswapProtocolHeader : List UInt8 :=
  [47, 105, 112, 102, 115, 47, 98, 105, 116, 115, 119, 97, 112, 47, 49, 46, 49, 46, 48, 10]

/-! ## blocks -/

section
variable (opens : List UInt8 → Bool)

/-- neither the result of `Put` nor that of the datastore is looked at -/
def bitswapHasBlock (block : Block) (node : BitswapNode) : Exec BitswapNode := do
  let (_, files) ← blockstorePut opens block node.repo.files
  let (_, datastore) ← addBlockToDatastore block node.repo.datastore
  let found ← wantlistQueueFind node.localWantlist block.cid
  let node := { node with repo := ⟨files, datastore⟩ }
  match found with
  | none => .ok node
  | some i =>
    .ok { node with localWantlist :=
      { queue := node.localWantlist.queue.map fun items =>
          updateEntry items i fun entry => { entry with block := some block } } }

def hasBlocks : List Block → BitswapNode → Exec BitswapNode
  | [], node => .ok node
  | blk :: payload, node => do
    let block ← blockCopy (some blk)
    let node ← bitswapHasBlock opens block node
    hasBlocks payload node

end

/-! ## wants -/

/-- behind the first entry there is nothing that the loop may read -/
def bitswapNetworkAdjustCidQueue (collection : List (Option CidEntry)) (cid : Cid)
    (cancel : Bool) : Exec (List (Option CidEntry)) :=
  match collection with
  | [] =>
    .ok (if cancel then []
      else utilsVectorAdd [] (some { peerRequestCidEntryNew with cid := some cid }))
  | current :: _ => do
    let current ← deref current
    require .outOfBounds (cidCompare current.cid (some cid) = 0)
    .ok (if cancel then utilsVectorDelete collection 0 else collection)

/-- `false` when the message has an invalid CID; `junk` is what a field of a new entry holds -/
def handleEntries (junk : UInt8) :
    List (Option WantlistEntry) → List (Option CidEntry) → Exec (Bool × List (Option CidEntry))
  | [], cids => .ok (true, cids)
  | entry :: entries, cids => do
    let entry ← deref entry
    let block ← stored entry.block
    match ← cidProtobufDecode block with
    | none => .ok (false, cids)
    | some cid => do
      let cid ← deref cid
      if cid.hash.length = 0 then .ok (false, cids)
      else do
        let cids ← bitswapNetworkAdjustCidQueue cids cid (entry.cancel.getD junk ≠ 0)
        handleEntries junk entries cids

/-- the entries of the want list of a message -/
def BitswapMessage.wanted (message : BitswapMessage) : List (Option WantlistEntry) :=
  (message.wantlist.bind BitswapWantlist.entries).getD []

/-- the pointers of the entries are followed -/
def bitswapMessageFree (message : BitswapMessage) : Exec Unit :=
  require .uninitialized (∀ entry ∈ message.wanted, entry.all fun e => e.block.isSome)

/-- a peer that is not known is added; its id, which the caller owns, is freed and looked up -/
def peerstoreGetOrAddPeerById (peerstore : List Peer) (peerId : List UInt8) :
    Exec (Option Peer) :=
  if peerId.length = 0 then .ok none
  else
    match peerstore.find? fun peer => peer.id = peerId with
    | some peer => .ok (some peer)
    | none => .error .freed

/-! ## messages -/

/-- what is behind the first end of a line; the index is an `int` -/
def stripHeader (bytes : List UInt8) : Exec (Option (List UInt8)) :=
  match bytes.findIdx? fun b => b = 10 with
  | none => do
    require .overflow (bytes.length < 2 ^ 31)
    .ok none
  | some i => do
    require .overflow (i + 1 < 2 ^ 31)
    .ok (some (bytes.drop (i + 1)))

section
variable (opens : List UInt8 → Bool) (junk : UInt8) (remotePeerId : Option (List UInt8))

/-- the wants of a known peer -/
def mergeWanted (message : BitswapMessage) (peer : Peer) (node : BitswapNode) :
    Exec (Bool × BitswapNode) := do
  let (entry, queue) ← peerRequestQueueFindPeer node.peerRequestQueue (some peer)
  let n ← queue.heap.get entry
  let (result, cids) ← handleEntries junk message.wanted n.current.cidsTheyWant
  bitswapMessageFree message
  let n := { n with current := { n.current with cidsTheyWant := cids } }
  .ok (result, { node with
    peerRequestQueue := { queue with heap := queue.heap.set entry n } })

/-- the wants of a message that has some -/
def handleWanted (message : BitswapMessage) (node : BitswapNode) : Exec (Bool × BitswapNode) :=
  match remotePeerId with
  | none => do
    bitswapMessageFree message
    .ok (false, node)
  | some remotePeerId => do
    match ← peerstoreGetOrAddPeerById node.peerstore (cString remotePeerId) with
    | none => do
      bitswapMessageFree message
      .ok (false, node)
    | some peer => mergeWanted junk message peer node

def handleDecoded (message : Option BitswapMessage) (node : BitswapNode) :
    Exec (Bool × BitswapNode) := do
  let message ← deref message
  let node ← hasBlocks opens (message.payload.getD []) node
  if message.wanted = [] then do
    bitswapMessageFree message
    .ok (true, node)
  else handleWanted junk remotePeerId message node

def bitswapNetworkHandleMessage (bytes : List UInt8) (node : BitswapNode) :
    Exec (Bool × BitswapNode) := do
  match ← stripHeader bytes with
  | none => .ok (false, node)
  | some rest => do
    match ← bitswapMessageProtobufDecode rest with
    | none => .ok (false, node)
    | some message => handleDecoded opens junk remotePeerId message node

end

/-! ## what is kept of a block -/

/-- the want list with the block attached to the entry of its CID -/
def attachBlock (block : Block) (items : List (Option WantListQueueEntry)) :
    List (Option WantListQueueEntry) :=
  match findEntryOf block.cid items with
  | none => items
  | some i => updateEntry items i fun entry => { entry with block := some block }

section
variable {opens : List UInt8 → Bool} {block : Block} {node node' : BitswapNode}

/-- **a block is taken in**: stored, recorded and attached -/
theorem bitswapHasBlock_eq_ok : bitswapHasBlock opens block node = .ok node' ↔
    ∃ r files recorded datastore items,
      blockstorePut opens block node.repo.files = .ok (r, files) ∧
      addBlockToDatastore block node.repo.datastore = .ok (recorded, datastore) ∧
      node.localWantlist.queue = some items ∧
      node' = { node with
        repo := ⟨files, datastore⟩
        localWantlist := { queue := some (attachBlock block items) } } := by
  unfold bitswapHasBlock wantlistQueueFind attachBlock
  refine ⟨fun h => ?_, fun h => ?_⟩
  · obtain ⟨⟨r, files⟩, hput, h⟩ := bind_eq_ok.1 h
    obtain ⟨⟨recorded, datastore⟩, hadd, h⟩ := bind_eq_ok.1 h
    obtain ⟨found, hfind, h⟩ := bind_eq_ok.1 h
    obtain ⟨items, hitems, hfind⟩ := bind_eq_ok.1 hfind
    rw [deref_eq_ok] at hitems
    refine ⟨r, files, recorded, datastore, items, hput, hadd, hitems, ?_⟩
    cases hfind
    cases hf : findEntryOf block.cid items with
    | none =>
      rw [hf] at h
      cases h
      obtain ⟨repo, ⟨queue⟩, requests, peers⟩ := node
      obtain rfl : queue = some items := hitems
      rfl
    | some i =>
      rw [hf] at h
      cases h
      simp only [hitems, Option.map_some]
  · obtain ⟨r, files, recorded, datastore, items, hput, hadd, hitems, rfl⟩ := h
    rw [hput, ok_bind]
    simp only
    rw [hadd, ok_bind, hitems]
    simp only [deref_some, ok_bind]
    cases hf : findEntryOf block.cid items with
    | none =>
      obtain ⟨repo, ⟨queue⟩, requests, peers⟩ := node
      obtain rfl : queue = some items := hitems
      rfl
    | some i => rfl

/-- taking in a block changes the repository and the want list -/
theorem bitswapHasBlock_same (h : bitswapHasBlock opens block node = .ok node') :
    node'.peerRequestQueue = node.peerRequestQueue ∧ node'.peerstore = node.peerstore ∧
      node'.localWantlist.queue.isSome = node.localWantlist.queue.isSome := by
  obtain ⟨r, files, recorded, datastore, items, -, -, hitems, rfl⟩ := bitswapHasBlock_eq_ok.1 h
  exact ⟨rfl, rfl, by rw [hitems]; rfl⟩

theorem hasBlocks_same {payload : List Block} (h : hasBlocks opens payload node = .ok node') :
    node'.peerRequestQueue = node.peerRequestQueue ∧ node'.peerstore = node.peerstore ∧
      node'.localWantlist.queue.isSome = node.localWantlist.queue.isSome := by
  induction payload generalizing node with
  | nil =>
    cases h
    exact ⟨rfl, rfl, rfl⟩
  | cons blk payload ih =>
    obtain ⟨block, -, h⟩ := bind_eq_ok.1 h
    obtain ⟨next, hnext, h⟩ := bind_eq_ok.1 h
    obtain ⟨h1, h2, h3⟩ := bitswapHasBlock_same hnext
    obtain ⟨h4, h5, h6⟩ := ih h
    exact ⟨h4.trans h1, h5.trans h2, h6.trans h3⟩

/-! ## messages that are processed -/

/-- what `HasBlock` follows is there, and the file of the block can be written -/
structure CanKeep (opens : List UInt8 → Bool) (wantlist : WantListQueue) (block : Block) :
    Prop where
  cid : block.cid.isSome
  file : ∀ key, cidToBase32 block.cid = .ok (some key) →
    Safe (blocksBlockProtobufEncode block (blocksBlockProtobufEncodeSize block)) ∧
      opens key = true
  wantlist : wantlist.queue.isSome

theorem hashToBase32_total (hash : List UInt8) : ∃ key, hashToBase32 hash = .ok key := by
  unfold hashToBase32
  simp only
  split
  · exact ⟨none, rfl⟩
  · exact ⟨_, dsKeyFromBinary_eq (Nat.le_refl _)⟩

theorem addBlockToDatastore_total {cid : Cid} (hcid : block.cid = some cid)
    (datastore : Datastore) : Safe (addBlockToDatastore block datastore) := by
  unfold addBlockToDatastore
  rw [hcid, deref_some, ok_bind]
  by_cases hsize : cryptoEncodingBase32EncodeSize cid.hash.length ≤ fsKeyLength
  · rw [dsKeyFromBinary_eq hsize]
    exact safe_ok _
  · rw [dsKeyFromBinary_eq_none (by omega)]
    exact safe_ok _

theorem safe_blockstorePut {cid : Cid} {files : Files} (hcid : block.cid = some cid) :
    Safe (blockstorePut opens block files) ↔
      ∀ key, cidToBase32 block.cid = .ok (some key) →
        Safe (blocksBlockProtobufEncode block (blocksBlockProtobufEncodeSize block)) ∧
          opens key = true := by
  obtain ⟨key, hkey⟩ := hashToBase32_total cid.hash
  have hname : cidToBase32 block.cid = .ok key := by
    rw [hcid, cidToBase32_some, hkey]
  unfold blockstorePut
  rw [hname, ok_bind]
  cases key with
  | none => simp
  | some key =>
    simp only [Except.ok.injEq, Option.some.injEq, forall_eq']
    rw [safe_bind]
    refine ⟨fun h => ?_, fun h => ?_⟩
    · obtain ⟨protobuf, henc, h⟩ := h
      obtain ⟨r, hr⟩ := h
      exact ⟨⟨protobuf, henc⟩, (require_bind_eq_ok.1 hr).1⟩
    · obtain ⟨⟨protobuf, henc⟩, hopen⟩ := h
      refine ⟨protobuf, henc, ?_⟩
      rw [require_pos hopen]
      exact safe_ok _

theorem safe_bitswapHasBlock {cid : Cid} (hcid : block.cid = some cid) :
    Safe (bitswapHasBlock opens block node) ↔ CanKeep opens node.localWantlist block := by
  refine ⟨fun h => ?_, fun h => ?_⟩
  · obtain ⟨node', h⟩ := h
    obtain ⟨r, files, recorded, datastore, items, hput, -, hitems, -⟩ :=
      bitswapHasBlock_eq_ok.1 h
    exact ⟨by rw [hcid]; rfl, (safe_blockstorePut hcid).1 ⟨_, hput⟩, by rw [hitems]; rfl⟩
  · obtain ⟨⟨r, files⟩, hput⟩ := (safe_blockstorePut hcid).2 h.file
    obtain ⟨⟨recorded, datastore⟩, hadd⟩ := addBlockToDatastore_total hcid node.repo.datastore
    obtain ⟨items, hitems⟩ := Option.isSome_iff_exists.1 h.wantlist
    exact ⟨_, bitswapHasBlock_eq_ok.2 ⟨r, files, recorded, datastore, items, hput, hadd, hitems, rfl⟩⟩

/-- **the blocks of a message** are taken in iff each of them can be kept -/
theorem safe_hasBlocks {payload : List Block} :
    Safe (hasBlocks opens payload node) ↔
      ∀ block ∈ payload, CanKeep opens node.localWantlist block := by
  induction payload generalizing node with
  | nil => simp [hasBlocks]
  | cons blk payload ih =>
    rw [List.forall_mem_cons, hasBlocks, safe_bind]
    -- a node with another repository and want list keeps the same blocks
    have hsame : ∀ next, bitswapHasBlock opens blk node = .ok next →
        ((∀ block ∈ payload, CanKeep opens next.localWantlist block) ↔
          ∀ block ∈ payload, CanKeep opens node.localWantlist block) := by
      intro next hnext
      have hqueue := (bitswapHasBlock_same hnext).2.2
      refine forall₂_congr fun block _ => ⟨fun h => ?_, fun h => ?_⟩
      · exact ⟨h.cid, h.file, hqueue ▸ h.wantlist⟩
      · exact ⟨h.cid, h.file, hqueue ▸ h.wantlist⟩
    refine ⟨fun h => ?_, fun h => ?_⟩
    · obtain ⟨block, hcopy, h⟩ := h
      obtain ⟨heq, hcid⟩ := blockCopy_eq_ok.1 hcopy
      obtain rfl := Option.some.inj heq
      obtain ⟨cid, hcid⟩ := Option.isSome_iff_exists.1 hcid
      obtain ⟨next, hnext, h⟩ := safe_bind.1 h
      exact ⟨(safe_bitswapHasBlock hcid).1 ⟨_, hnext⟩, (hsame next hnext).1 (ih.1 h)⟩
    · obtain ⟨hfirst, hrest⟩ := h
      obtain ⟨cid, hcid⟩ := Option.isSome_iff_exists.1 hfirst.cid
      obtain ⟨next, hnext⟩ := (safe_bitswapHasBlock hcid).2 hfirst
      refine ⟨blk, blockCopy_eq_ok.2 ⟨rfl, hfirst.cid⟩, ?_⟩
      rw [hnext]
      exact ih.2 ((hsame next hnext).2 hrest)

end

/-- the list is empty, or the CID is that of its first entry -/
def FitsHead (cid : Cid) : List (Option CidEntry) → Prop
  | [] => True
  | entry :: _ => ∃ current, entry = some current ∧ cidCompare current.cid (some cid) = 0

/-- the list after a want, or a cancel, that fits -/
def cidsAfter (cid : Cid) (cancel : Bool) : List (Option CidEntry) → List (Option CidEntry)
  | [] => if cancel then [] else [some { peerRequestCidEntryNew with cid := some cid }]
  | entry :: entries => if cancel then entries else entry :: entries

/-- every entry, up to the first one without a valid CID, is there, has a CID that is not absent,
and fits what the peer wants by then -/
def EntriesFit (junk : UInt8) : List (Option WantlistEntry) → List (Option CidEntry) → Prop
  | [], _ => True
  | entry :: entries, cids => ∃ e block decoded, entry = some e ∧ e.block = some block ∧
    cidProtobufDecode block = .ok decoded ∧
    ∀ found, decoded = some found → ∃ cid, found = some cid ∧
      (cid.hash ≠ [] → FitsHead cid cids ∧
        EntriesFit junk entries (cidsAfter cid (e.cancel.getD junk ≠ 0) cids))

section
variable {cids cids' : List (Option CidEntry)} {cid : Cid} {cancel : Bool} {junk : UInt8}

/-- **a want is merged** without leaving the vector -/
theorem bitswapNetworkAdjustCidQueue_eq_ok :
    bitswapNetworkAdjustCidQueue cids cid cancel = .ok cids' ↔
      FitsHead cid cids ∧ cids' = cidsAfter cid cancel cids := by
  cases cids with
  | nil =>
    show Except.ok _ = Except.ok cids' ↔ True ∧ _
    rw [true_and, Except.ok.injEq, eq_comm]
    rfl
  | cons entry entries =>
    unfold bitswapNetworkAdjustCidQueue cidsAfter FitsHead
    rw [utilsVectorDelete_zero]
    refine ⟨fun h => ?_, fun h => ?_⟩
    · obtain ⟨current, hcurrent, h⟩ := bind_eq_ok.1 h
      obtain ⟨heq, h⟩ := require_bind_eq_ok.1 h
      exact ⟨⟨current, deref_eq_ok.1 hcurrent, heq⟩, (Except.ok.inj h).symm⟩
    · obtain ⟨⟨current, rfl, heq⟩, rfl⟩ := h
      simp only [deref_some, ok_bind]
      rw [require_pos heq, ok_bind]

/-- **the entries of a want list** are processed iff they fit -/
theorem safe_handleEntries {entries : List (Option WantlistEntry)} :
    Safe (handleEntries junk entries cids) ↔ EntriesFit junk entries cids := by
  induction entries generalizing cids with
  | nil => exact ⟨fun _ => trivial, fun _ => safe_ok _⟩
  | cons entry entries ih =>
    rw [handleEntries, EntriesFit]
    refine ⟨fun h => ?_, fun h => ?_⟩
    · obtain ⟨e, he, h⟩ := safe_bind.1 h
      obtain ⟨block, hblock, h⟩ := safe_bind.1 h
      obtain ⟨decoded, hdecoded, h⟩ := safe_bind.1 h
      refine ⟨e, block, decoded, deref_eq_ok.1 he, stored_eq_ok.1 hblock, hdecoded, ?_⟩
      rintro found rfl
      obtain ⟨cid, hcid, h⟩ := safe_bind.1 h
      refine ⟨cid, deref_eq_ok.1 hcid, fun hhash => ?_⟩
      have hlen : cid.hash.length ≠ 0 := fun e => hhash (List.eq_nil_of_length_eq_zero e)
      rw [if_neg hlen] at h
      obtain ⟨after, hafter, h⟩ := safe_bind.1 h
      obtain ⟨hfits, rfl⟩ := bitswapNetworkAdjustCidQueue_eq_ok.1 hafter
      exact ⟨hfits, ih.1 h⟩
    · obtain ⟨e, block, decoded, rfl, hblock, hdecoded, h⟩ := h
      rw [deref_some, ok_bind, hblock]
      show Safe (cidProtobufDecode block >>= _)
      rw [hdecoded, ok_bind]
      cases decoded with
      | none => exact safe_ok _
      | some found =>
        obtain ⟨cid, rfl, hcid⟩ := h found rfl
        simp only [deref_some, ok_bind]
        by_cases hhash : cid.hash.length = 0
        · rw [if_pos hhash]
          exact safe_ok _
        · have hne : cid.hash ≠ [] := fun e => hhash (by rw [e]; rfl)
          obtain ⟨hfits, hrest⟩ := hcid hne
          rw [if_neg hhash, bitswapNetworkAdjustCidQueue_eq_ok.2 ⟨hfits, rfl⟩, ok_bind]
          exact ih.2 hrest

end

/-! ### the whole message -/

/-- what the peer wants, by the request of the peer in the queue -/
def cidsTheyWantOf (queue : PeerRequestQueue) (peer : Peer) :
    Exec (List (Option CidEntry)) := do
  let (entry, queue) ← peerRequestQueueFindPeer queue (some peer)
  let n ← queue.heap.get entry
  .ok n.current.cidsTheyWant

/-- every entry that is there has had its CID stored -/
def CanFree (message : BitswapMessage) : Prop :=
  ∀ entry ∈ message.wanted, entry.all fun e => e.block.isSome

/-- the message is there; its blocks can be kept; and when it wants something of a sender that has
an id, the sender is a known peer, the queue can be searched for it, and the entries fit -/
structure Digestible (opens : List UInt8 → Bool) (junk : UInt8) (remotePeerId : Option (List UInt8))
    (node : BitswapNode) (message : BitswapMessage) : Prop where
  payload : ∀ block ∈ message.payload.getD [], CanKeep opens node.localWantlist block
  free : CanFree message
  wanted : message.wanted ≠ [] → ∀ id, remotePeerId = some id → cString id ≠ [] →
    ∃ peer cids, peerstoreGetOrAddPeerById node.peerstore (cString id) = .ok (some peer) ∧
      cidsTheyWantOf node.peerRequestQueue peer = .ok cids ∧ EntriesFit junk message.wanted cids

section
variable {opens : List UInt8 → Bool} {junk : UInt8} {remotePeerId : Option (List UInt8)}
  {node : BitswapNode} {message : BitswapMessage}

theorem safe_bitswapMessageFree_bind {α : Type} {f : Unit → Exec α} :
    Safe (bitswapMessageFree message >>= f) ↔ CanFree message ∧ Safe (f ()) := by
  unfold bitswapMessageFree CanFree
  refine ⟨fun h => ?_, fun h => ?_⟩
  · obtain ⟨u, hu, h⟩ := safe_bind.1 h
    exact ⟨require_eq_ok.1 hu, h⟩
  · rw [require_pos h.1]
    exact h.2

theorem peerstoreGetOrAddPeerById_isSome {peerstore : List Peer} {id : List UInt8}
    {found : Option Peer} (hid : id ≠ [])
    (h : peerstoreGetOrAddPeerById peerstore id = .ok found) : ∃ peer, found = some peer := by
  unfold peerstoreGetOrAddPeerById at h
  rw [if_neg (fun e => hid (List.eq_nil_of_length_eq_zero e))] at h
  cases hf : peerstore.find? fun peer => peer.id = id with
  | none =>
    rw [hf] at h
    cases h
  | some peer =>
    rw [hf] at h
    cases h
    exact ⟨peer, rfl⟩

theorem safe_mergeWanted {peer : Peer} : Safe (mergeWanted junk message peer node) ↔
    CanFree message ∧ ∃ cids, cidsTheyWantOf node.peerRequestQueue peer = .ok cids ∧
      EntriesFit junk message.wanted cids := by
  unfold mergeWanted cidsTheyWantOf
  refine ⟨fun h => ?_, fun h => ?_⟩
  · obtain ⟨⟨entry, queue⟩, hfind, h⟩ := safe_bind.1 h
    obtain ⟨n, hget, h⟩ := safe_bind.1 h
    obtain ⟨⟨result, cids⟩, hentries, h⟩ := safe_bind.1 h
    refine ⟨(safe_bitswapMessageFree_bind.1 h).1, n.current.cidsTheyWant, ?_,
      safe_handleEntries.1 ⟨_, hentries⟩⟩
    rw [hfind, ok_bind]
    simp only
    rw [hget, ok_bind]
  · obtain ⟨hfree, cids, hcids, hfit⟩ := h
    obtain ⟨⟨entry, queue⟩, hfind, hcids⟩ := bind_eq_ok.1 hcids
    obtain ⟨n, hget, hcids⟩ := bind_eq_ok.1 hcids
    cases hcids
    obtain ⟨⟨result, cids⟩, hentries⟩ := safe_handleEntries.2 hfit
    rw [hfind, ok_bind]
    simp only
    rw [hget, ok_bind, hentries, ok_bind]
    exact safe_bitswapMessageFree_bind.2 ⟨hfree, safe_ok _⟩

theorem safe_handleWanted : Safe (handleWanted junk remotePeerId message node) ↔
    CanFree message ∧ ∀ id, remotePeerId = some id → cString id ≠ [] →
      ∃ peer cids, peerstoreGetOrAddPeerById node.peerstore (cString id) = .ok (some peer) ∧
        cidsTheyWantOf node.peerRequestQueue peer = .ok cids ∧
          EntriesFit junk message.wanted cids := by
  unfold handleWanted
  cases remotePeerId with
  | none =>
    simp only
    rw [safe_bitswapMessageFree_bind]
    simp
  | some id =>
    simp only [Option.some.injEq, forall_eq']
    rw [safe_bind]
    by_cases hid : cString id = []
    · have hget : peerstoreGetOrAddPeerById node.peerstore (cString id) = .ok none := by
        unfold peerstoreGetOrAddPeerById
        rw [if_pos (by rw [hid]; rfl)]
      rw [hget]
      simp only [Except.ok.injEq, exists_eq_left']
      rw [safe_bitswapMessageFree_bind]
      simp [hid]
    · refine ⟨fun h => ?_, fun h => ?_⟩
      · obtain ⟨found, hfound, h⟩ := h
        obtain ⟨peer, rfl⟩ := peerstoreGetOrAddPeerById_isSome hid hfound
        obtain ⟨hfree, cids, hcids, hfit⟩ := safe_mergeWanted.1 h
        exact ⟨hfree, fun _ => ⟨peer, cids, hfound, hcids, hfit⟩⟩
      · obtain ⟨hfree, h⟩ := h
        obtain ⟨peer, cids, hfound, hcids, hfit⟩ := h hid
        exact ⟨some peer, hfound, safe_mergeWanted.2 ⟨hfree, cids, hcids, hfit⟩⟩

/-- **a message is processed** without a fault iff it is digestible -/
theorem safe_handleDecoded {found : Option BitswapMessage} :
    Safe (handleDecoded opens junk remotePeerId found node) ↔
      ∃ message, found = some message ∧ Digestible opens junk remotePeerId node message := by
  unfold handleDecoded
  cases found with
  | none => simp
  | some message =>
    simp only [deref_some, ok_bind, Option.some.injEq, exists_eq_left']
    rw [safe_bind]
    -- the blocks leave the queue and the peers as they are
    have hrest : ∀ next, hasBlocks opens (message.payload.getD []) node = .ok next →
        (Safe (if message.wanted = [] then bitswapMessageFree message >>= fun _ => .ok (true, next)
          else handleWanted junk remotePeerId message next) ↔
          CanFree message ∧ (message.wanted ≠ [] → ∀ id, remotePeerId = some id → cString id ≠ [] →
            ∃ peer cids, peerstoreGetOrAddPeerById node.peerstore (cString id) = .ok (some peer) ∧
              cidsTheyWantOf node.peerRequestQueue peer = .ok cids ∧
                EntriesFit junk message.wanted cids)) := by
      intro next hnext
      obtain ⟨hqueue, hpeers, -⟩ := hasBlocks_same hnext
      by_cases hnil : message.wanted = []
      · rw [if_pos hnil, safe_bitswapMessageFree_bind]
        simp [hnil]
      · rw [if_neg hnil, safe_handleWanted, hqueue, hpeers]
        simp [hnil]
    refine ⟨fun h => ?_, fun h => ?_⟩
    · obtain ⟨next, hnext, h⟩ := h
      obtain ⟨hfree, hwanted⟩ := (hrest next hnext).1 h
      exact ⟨safe_hasBlocks.1 ⟨_, hnext⟩, hfree, hwanted⟩
    · obtain ⟨next, hnext⟩ := safe_hasBlocks.2 h.payload
      exact ⟨next, hnext, (hrest next hnext).2 ⟨h.free, h.wanted⟩⟩

/-- whenever the decoder yields a message, or a null pointer for one, it is processed -/
def NeverCrashes (opens : List UInt8 → Bool) (junk : UInt8) (remotePeerId : Option (List UInt8))
    (bytes : List UInt8) (node : BitswapNode) : Prop :=
  ∀ rest found, stripHeader bytes = .ok (some rest) →
    bitswapMessageProtobufDecode rest = .ok (some found) →
      Safe (bitswapNetworkHandleMessage opens junk remotePeerId bytes node)

/-- **when an incoming message does not crash** the node -/
theorem neverCrashes_iff (bytes : List UInt8) :
    NeverCrashes opens junk remotePeerId bytes node ↔
      ∀ rest found, stripHeader bytes = .ok (some rest) →
        bitswapMessageProtobufDecode rest = .ok (some found) →
          ∃ message, found = some message ∧
            Digestible opens junk remotePeerId node message := by
  refine forall₂_congr fun rest found => forall₂_congr fun hstrip hdecode => ?_
  rw [← safe_handleDecoded]
  unfold bitswapNetworkHandleMessage
  rw [hstrip, ok_bind]
  simp only
  rw [hdecode, ok_bind]

end

/-- nothing behind the header: the message is a null pointer -/
theorem not_neverCrashes_header : ¬ ∀ opens junk remotePeerId bytes node,
    NeverCrashes opens junk remotePeerId bytes node := by
  intro h
  have hstrip : stripHeader bitswapProtocolHeader = .ok (some []) := by decide
  have hsafe := h (fun _ => true) 0 none bitswapProtocolHeader (bitswapNodeNew []) [] none hstrip rfl
  unfold bitswapNetworkHandleMessage at hsafe
  rw [hstrip, ok_bind] at hsafe
  exact not_safe_error _ hsafe

end Ipfs
