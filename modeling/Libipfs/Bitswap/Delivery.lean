import Libipfs.Bitswap.Exchange
import Libipfs.Bitswap.Engine
import Libipfs.Bitswap.Integrity
import Libipfs.Bitswap.PeerWants
import Libipfs.Bitswap.RoundTrip

/-!
# Delivery

A want travels from A to B, waits there for the block, and the block travels back.  As long as A
asks for one CID, which may be as often as it likes, the block arrives.

* `AllowedExchange`   the operations that reach none of the defects;
* `Waiting`, `Owing`, `Answering`   where the want is;
* `exchanging_of_step`    what one operation makes of it;
* `delivers_of_allowed`   **A gets what it wanted**;
* `not_delivers`          two CIDs, and a CID whose codec is not a `char`.
-/

namespace Ipfs
open CSem Libp2p

/-! ## the operations that are allowed -/

/-- what A says when it wants the CID -/
def wantOf (cid : Cid) : Want := (entryOf cid).want

/-- there is a file name for the CID, and a message has room for it -/
structure Askable (cid : Cid) : Prop where
  name : 5 ≤ cid.hash.length
  size : messageSize [] [wantOf cid] < 2 ^ 31

/-- the block has a CID, and if there is a file name for it the block is not too large and the file
can be opened -/
structure Storable (opens : List UInt8 → Bool) (block : Block) : Prop where
  cid : block.cid.isSome
  file : ∀ key, cidToBase32 block.cid = .ok (some key) →
    blocksBlockProtobufEncodeSize block < 2 ^ 31 ∧ opens key = true

/-- what is in the store under the CID, if anything, can be read and fits a message -/
def CanSend (files : Files) (cid : Cid) : Prop :=
  ∃ found, blockstoreGet (some cid) files = .ok found ∧
    ∀ block, found = some block → messageSize [block] [] < 2 ^ 31

/-- the CID, as it is read, is marked in a request of B: its block has been sent -/
def HasSent (s : BitswapExchange) (cid : Cid) : Prop :=
  ∃ i n e, s.b.peerRequestQueue.heap.cells i = some n ∧ some e ∈ n.current.cidsTheyWant ∧
    e.cid = some cid.decoded ∧ e.cancel = true

/-- there is a block in the message -/
def CarriesBlock (bytes : List UInt8) : Prop :=
  ∃ rest message, stripHeader bytes = .ok (some rest) ∧
    bitswapMessageProtobufDecode rest = .ok (some (some message)) ∧ message.payload.getD [] ≠ []

/-- A wants no second CID, and none that is read as another one while an entry waits for it; B adds
no block that cannot be stored or sent, and replaces none that it has sent; a block that is
delivered can be stored, and the want list is there -/
def AllowedExchange (link : Link) (op : ExchangeOp) (s : BitswapExchange) : Prop :=
  match op with
  | .want cid => (∀ c ∈ s.wanted, c.decoded = cid.decoded) ∧ Askable cid ∧
    (cid.CharCodec ∨ findEntryOf (some cid) s.a.localWantlist.entries = none) ∧
      CanSend s.b.repo.files cid
  | .add block => Storable link.opensB block ∧
    ∀ cid ∈ s.wanted, cidToBase32 block.cid = cidToBase32 (some cid) →
      messageSize [{ block with cid := some cid }] [] < 2 ^ 31 ∧
      (HasSent s cid → ∀ old, blockstoreGet (some cid) s.b.repo.files = .ok (some old) →
        block.data = old.data)
  | .deliverA => ∀ bytes rest, s.toA = bytes :: rest → CarriesBlock bytes →
    s.a.localWantlist.queue.isSome ∧
      ∀ cid ∈ s.wanted, ∀ key, cidToBase32 (some cid) = .ok (some key) → link.opensA key = true
  | _ => True

/-! ## the store -/

section
variable {opens : List UInt8 → Bool} {block : Block} {cid : Cid} {files files' : Files}
  {key : List UInt8} {r : Option Nat}

theorem Askable.encodeSize_lt (h : Askable cid) : cidProtobufEncodeSize (some cid) < 2 ^ 31 := by
  have hmem : Item.bytes 3 .lengthDelimited cid.hash ∈ cidItems cid :=
    List.mem_cons_of_mem _ (List.mem_cons_of_mem _ List.mem_cons_self)
  have hle : cid.hash.length ≤ (cidBytes (some cid)).length := length_le_itemsBytes hmem
  have hsize : messageSize [] [wantOf cid] = 0 + (33 + (cidBytes (some cid)).length + 0 + 11 + 12 +
      11) + (11 + 12 + 11) := rfl
  have := h.size
  show 11 + 12 + cid.hash.length + 11 < 2 ^ 31
  omega

theorem Askable.fileName (h : Askable cid) : ∃ key, cidToBase32 (some cid) = .ok (some key) := by
  have hlt : 11 + 12 + cid.hash.length + 11 < 2 ^ 31 := h.encodeSize_lt
  have h5 := h.name
  have hmax : cid.hash.length ≤ ptrdiffMax := by
    unfold ptrdiffMax
    omega
  have hsize := encodeSize_of_le h5 hmax
  have hname := hashToBase32_eq h5 hmax (by rw [hsize]; unfold ptrdiffMax; omega)
  exact ⟨_, (cidToBase32_some cid).trans hname⟩

/-- a file is looked for by its name -/
theorem blockstoreGet_congr (hkey : cidToBase32 (some cid) = .ok (some key))
    (h : files key = files' key) :
    blockstoreGet (some cid) files = blockstoreGet (some cid) files' := by
  rw [cidToBase32_some] at hkey
  unfold blockstoreGet
  rw [deref_some, ok_bind, ok_bind, hkey, ok_bind, ok_bind]
  simp only
  cases hfile : files' key with
  | none => rw [h, hfile]
  | some content => rw [h, hfile]

theorem blockstoreGet_blockBytes (hkey : cidToBase32 (some cid) = .ok (some key))
    (hfile : files key = some (blockBytes block)) (hlen : (blockBytes block).length < 2 ^ 31) :
    blockstoreGet (some cid) files = .ok (some { block with cid := some cid }) := by
  rw [cidToBase32_some] at hkey
  unfold blockstoreGet
  rw [deref_some, ok_bind, hkey, ok_bind]
  simp only [hfile]
  rw [toInt32_natCast_of_lt hlen, require_pos (Int.natCast_nonneg _), ok_bind, Int.toNat_natCast,
    List.take_length, blocksBlockProtobufDecode_blockBytes block hlen, ok_bind]
  rfl

/-- CIDs of one hash lead to one file -/
theorem blockstoreGet_hash (cid cid' : Cid) (files : Files) (h : cid'.hash = cid.hash) :
    blockstoreGet (some cid') files =
      Option.map (fun block => { block with cid := some cid' }) <$> blockstoreGet (some cid) files := by
  unfold blockstoreGet
  rw [deref_some, deref_some, ok_bind, ok_bind, h]
  cases hashToBase32 cid.hash with
  | error e => rfl
  | ok name =>
    cases name with
    | none => rfl
    | some key =>
      rw [ok_bind, ok_bind]
      simp only
      cases files key with
      | none => rfl
      | some content =>
        simp only
        by_cases hint : 0 ≤ toInt32 content.length
        · rw [require_pos hint, ok_bind, ok_bind]
          cases blocksBlockProtobufDecode (content.take (toInt32 content.length).toNat) with
          | error e => rfl
          | ok found =>
            cases found with
            | none => rfl
            | some block => rfl
        · unfold require
          rw [if_neg hint]
          rfl

theorem blockstoreGet_cid (h : blockstoreGet (some cid) files = .ok (some block)) :
    block.cid = some cid := by
  have hself := blockstoreGet_hash cid cid files rfl
  rw [h] at hself
  have hblock : block = { block with cid := some cid } := Option.some.inj (Except.ok.inj hself)
  rw [hblock]

theorem messageSize_hash (cid cid' : Cid) (h : cid'.hash = cid.hash) (data : List UInt8) :
    messageSize [{ cid := some cid', data := data }] [] =
      messageSize [{ cid := some cid, data := data }] [] := by
  unfold messageSize blocksBlockProtobufEncodeSize cidProtobufEncodeSize
  simp only [List.map_cons, h]

theorem CanSend.decoded (h : CanSend files cid) : CanSend files cid.decoded := by
  obtain ⟨found, hfound, hsize⟩ := h
  have hget := blockstoreGet_hash cid cid.decoded files rfl
  rw [hfound] at hget
  refine ⟨_, hget, fun block hblock => ?_⟩
  obtain ⟨a, rfl, rfl⟩ := Option.map_eq_some_iff.1 hblock
  have hcid := blockstoreGet_cid hfound
  have hsize := hsize a rfl
  rw [show a = { cid := some cid, data := a.data } by rw [← hcid]] at hsize
  rw [messageSize_hash cid cid.decoded rfl]
  exact hsize

/-- a block that can be stored is -/
theorem Storable.put (h : Storable opens block) (files : Files) :
    ∃ r files', blockstorePut opens block files = .ok (r, files') := by
  obtain ⟨c, hc⟩ := Option.isSome_iff_exists.1 h.cid
  obtain ⟨⟨r, files'⟩, hput⟩ := (safe_blockstorePut hc).2 fun key hkey => by
    obtain ⟨hsize, hopen⟩ := h.file key hkey
    exact ⟨⟨_, blocksBlockProtobufEncode_of_lt hsize⟩, hopen⟩
  exact ⟨r, files', hput⟩

/-- **what a put makes** of the block under a CID: it is there when the name is the same -/
theorem blockstoreGet_put (h : Storable opens block)
    (hkey : cidToBase32 (some cid) = .ok (some key))
    (hput : blockstorePut opens block files = .ok (r, files')) :
    blockstoreGet (some cid) files' =
      if cidToBase32 block.cid = cidToBase32 (some cid) then
        .ok (some { block with cid := some cid })
      else blockstoreGet (some cid) files := by
  rw [hkey]
  cases r with
  | some n =>
    obtain ⟨name, hname, -, -, -, rfl⟩ := blockstorePut_eq_some.1 hput
    have hlen : (blockBytes block).length < 2 ^ 31 :=
      lt_of_le_of_lt (blockBytes_length_le block) (h.file name hname).1
    rw [hname]
    by_cases heq : name = key
    · subst heq
      rw [if_pos rfl]
      exact blockstoreGet_blockBytes hkey (Function.update_self _ _ _) hlen
    · rw [if_neg (fun h => heq (Option.some.inj (Except.ok.inj h)))]
      exact blockstoreGet_congr hkey (Function.update_of_ne (fun h => heq h.symm) _ _)
  | none =>
    obtain ⟨name, hname, hput⟩ := bind_eq_ok.1 hput
    rw [hname]
    cases name with
    | none =>
      cases hput
      rw [if_neg (by simp)]
    | some name =>
      obtain ⟨protobuf, -, hput⟩ := bind_eq_ok.1 hput
      obtain ⟨-, hput⟩ := require_bind_eq_ok.1 hput
      cases hput

end

/-! ## a message that is delivered -/

section
variable {opens : List UInt8 → Bool} {junk : UInt8} {node : BitswapNode} {peer : Peer}
  {request : PeerRequest} {block : Block} {cid : Cid} {items : List (Option WantListQueueEntry)}
  {cids : List (Option CidEntry)}

theorem findEntryOf_updateEntry {c : Option Cid} {f : WantListQueueEntry → WantListQueueEntry}
    (hf : ∀ e, (f e).cid = e.cid) (i : Nat) :
    findEntryOf c (updateEntry items i f) = findEntryOf c items := by
  unfold updateEntry
  induction items generalizing i with
  | nil => simp [findEntryOf]
  | cons entry items ih =>
    cases i with
    | zero =>
      cases entry with
      | none => rfl
      | some e =>
        show findEntryOf c (some (f e) :: items) = _
        rw [findEntryOf, findEntryOf, hf]
    | succ i =>
      cases entry with
      | none => rfl
      | some e => rw [List.modify_succ_cons, findEntryOf, findEntryOf, ih]

/-- the entry of the CID has the block -/
theorem attachBlock_attached {i : Nat} {entry : WantListQueueEntry}
    (hfind : findEntryOf block.cid (attachBlock block items) = some i)
    (hentry : utilsVectorGet (attachBlock block items) i = some entry) :
    entry.block = some block := by
  unfold attachBlock at hfind hentry
  cases hf : findEntryOf block.cid items with
  | none =>
    rw [hf] at hfind
    simp only at hfind
    rw [hf] at hfind
    cases hfind
  | some j =>
    rw [hf] at hfind hentry
    have hkeep : ∀ e : WantListQueueEntry, ({ e with block := some block }).cid = e.cid :=
      fun _ => rfl
    have hj : findEntryOf block.cid items = some i :=
      (findEntryOf_updateEntry hkeep j).symm.trans hfind
    obtain rfl : j = i := Option.some.inj (hf.symm.trans hj)
    have hget : utilsVectorGet (updateEntry items j fun e => { e with block := some block }) j =
        (utilsVectorGet items j).map fun e => { e with block := some block } := by
      rw [utilsVectorGet_updateEntry, if_pos rfl]
    obtain ⟨found, -, rfl⟩ := Option.map_eq_some_iff.1 (hget.symm.trans hentry)
    rfl

theorem findEntryOf_attachBlock (c : Option Cid) :
    findEntryOf c (attachBlock block items) = findEntryOf c items := by
  unfold attachBlock
  cases findEntryOf block.cid items with
  | none => rfl
  | some i =>
    have hkeep : ∀ e : WantListQueueEntry, ({ e with block := some block }).cid = e.cid :=
      fun _ => rfl
    exact findEntryOf_updateEntry hkeep i

theorem bitswapHasBlock_has {key : List UInt8} (hcid : block.cid = some cid)
    (hkey : cidToBase32 (some cid) = .ok (some key))
    (hsize : blocksBlockProtobufEncodeSize block < 2 ^ 31)
    (hqueue : node.localWantlist.queue.isSome) (hopen : opens key = true) :
    ∃ node', bitswapHasBlock opens block node = .ok node' ∧ Has node' cid block.data ∧
      node'.peerRequestQueue = node.peerRequestQueue ∧
      ∀ c, findEntryOf c node'.localWantlist.entries =
        findEntryOf c node.localWantlist.entries := by
  have hblock : Storable opens block := by
    refine ⟨by rw [hcid]; rfl, fun name hname => ?_⟩
    rw [hcid, hkey] at hname
    obtain rfl := Option.some.inj (Except.ok.inj hname)
    exact ⟨hsize, hopen⟩
  obtain ⟨r, files, hput⟩ := hblock.put node.repo.files
  obtain ⟨⟨recorded, datastore⟩, hadd⟩ := addBlockToDatastore_total hcid node.repo.datastore
  obtain ⟨items, hitems⟩ := Option.isSome_iff_exists.1 hqueue
  have hentries : node.localWantlist.entries = items := by
    unfold WantListQueue.entries
    rw [hitems]
    rfl
  have hget := blockstoreGet_put hblock hkey hput
  rw [if_pos (by rw [hcid])] at hget
  refine ⟨_, bitswapHasBlock_eq_ok.2 ⟨r, files, recorded, datastore, items, hput, hadd, hitems, rfl⟩,
    ⟨⟨_, hget, rfl⟩, fun i entry hfind hentry => ?_⟩, rfl, fun c => ?_⟩
  · rw [← hcid] at hfind
    exact ⟨block, attachBlock_attached hfind hentry, rfl⟩
  · rw [hentries]
    exact findEntryOf_attachBlock c

/-- a message that brings blocks only -/
theorem handleDecoded_payload {message : BitswapMessage} {node' : BitswapNode}
    {remotePeerId : Option (List UInt8)} (hwanted : message.wanted = [])
    (hblocks : hasBlocks opens (message.payload.getD []) node = .ok node') :
    handleDecoded opens junk remotePeerId (some message) node = .ok (true, node') := by
  have hfree : bitswapMessageFree message = .ok () := by
    unfold bitswapMessageFree
    refine require_pos fun entry he => ?_
    rw [hwanted] at he
    exact absurd he List.not_mem_nil
  unfold handleDecoded
  rw [deref_some, ok_bind, hblocks, ok_bind, if_pos hwanted, hfree, ok_bind]

/-- a message that brings wants only -/
theorem handleDecoded_wanted {message : BitswapMessage} {remotePeerId : Option (List UInt8)}
    (hwanted : message.wanted ≠ []) (hpayload : message.payload = none) :
    handleDecoded opens junk remotePeerId (some message) node =
      handleWanted junk remotePeerId message node := by
  unfold handleDecoded
  rw [deref_some, ok_bind, hpayload, Option.getD_none, hasBlocks, ok_bind, if_neg hwanted]

theorem hasBlocks_singleton (h : block.cid.isSome) :
    hasBlocks opens [block] node = bitswapHasBlock opens block node := by
  have hcopy : blockCopy (some block) = .ok block := blockCopy_eq_ok.2 ⟨rfl, h⟩
  rw [hasBlocks, hcopy, ok_bind]
  cases bitswapHasBlock opens block node with
  | error e => rfl
  | ok node' => rfl

theorem encodeSize_of_messageSize (h : messageSize [block] [] < 2 ^ 31) :
    blocksBlockProtobufEncodeSize block < 2 ^ 31 := by
  unfold messageSize at h
  rw [List.map_singleton, List.sum_singleton] at h
  omega

/-- **a block arrives**: it is stored and attached -/
theorem handleMessage_block (junk : UInt8) {key : List UInt8} (hdecoded : cid.decoded = cid)
    (hkey : cidToBase32 (some cid) = .ok (some key)) {data : List UInt8}
    (hsize : messageSize [{ cid := some cid, data := data }] [] < 2 ^ 31)
    (hqueue : node.localWantlist.queue.isSome) (hopen : opens key = true)
    (remotePeerId : Option (List UInt8)) :
    ∃ node', bitswapNetworkHandleMessage opens junk remotePeerId
        (wireBytes [{ cid := some cid, data := data }] []) node = .ok (true, node') ∧
      Has node' cid data ∧ node'.peerRequestQueue = node.peerRequestQueue ∧
      ∀ c, findEntryOf c node'.localWantlist.entries =
        findEntryOf c node.localWantlist.entries := by
  have hcid : Block.cid { cid := some cid, data := data } = some cid := rfl
  obtain ⟨node', hhas, hkept⟩ :=
    bitswapHasBlock_has hcid hkey (encodeSize_of_messageSize hsize) hqueue hopen
  have hblock : Block.decoded { cid := some cid, data := data } =
      { cid := some cid, data := data } := by
    unfold Block.decoded
    rw [Option.map_some, hdecoded]
  have hpayload : (incoming [{ cid := some cid, data := data }] []).payload.getD [] =
      [{ cid := some cid, data := data }] := congrArg (fun block => [block]) hblock
  refine ⟨node', ?_, hkept⟩
  rw [handleMessage_wireBytes hsize]
  refine handleDecoded_payload rfl ?_
  rw [hpayload, hasBlocks_singleton rfl, hhas]

/-- nothing arrives -/
theorem handleMessage_nothing (remotePeerId : Option (List UInt8)) :
    bitswapNetworkHandleMessage opens junk remotePeerId (wireBytes [] []) node =
      .ok (true, node) := by
  have hsize : messageSize [] [] < 2 ^ 31 := by decide
  rw [handleMessage_wireBytes hsize]
  exact handleDecoded_payload rfl rfl

theorem decodes_wantOf (hask : Askable cid) :
    Decodes junk (wantOf cid).entry (cid.decoded, false) := by
  have hlen : (cidBytes (some cid)).length < 2 ^ 31 := by
    have hsize : messageSize [] [wantOf cid] = 0 + (33 + (cidBytes (some cid)).length + 0 + 11 + 12 +
        11) + (11 + 12 + 11) := rfl
    have := hask.size
    omega
  refine ⟨_, cidBytes (some cid), rfl, rfl, cidProtobufDecode_cidBytes cid hlen, fun hnil => ?_,
    rfl⟩
  have h5 := hask.name
  have hnil : cid.hash = [] := hnil
  rw [hnil] at h5
  exact absurd h5 (by decide)

/-- **a want arrives**: the CID, as it is read, is put on the list of the peer, unless it is there -/
theorem handleMessage_want (hask : Askable cid) (hpeer : InTouch peer)
    (hknown : node.peerstore.find? (fun known => known.id = peer.id) = some peer)
    (hfind : peerRequestQueueFindPeer node.peerRequestQueue (some peer) =
      .ok (0, queueOf (some request)))
    (hadjust : bitswapNetworkAdjustCidQueue request.cidsTheyWant cid.decoded false = .ok cids) :
    bitswapNetworkHandleMessage opens junk (some peer.id) (wireBytes [] [wantOf cid]) node =
      .ok (true, { node with
        peerRequestQueue := queueOf (some { request with cidsTheyWant := cids }) }) := by
  have hget : peerstoreGetOrAddPeerById node.peerstore (cString peer.id) = .ok (some peer) := by
    unfold peerstoreGetOrAddPeerById
    rw [cString_of_not_mem hpeer.text, if_neg (fun h => hpeer.id (List.eq_nil_of_length_eq_zero h)),
      hknown]
  have hentries : handleEntries junk [(wantOf cid).entry] request.cidsTheyWant = .ok (true, cids) := by
    rw [handleEntries_cons (decodes_wantOf hask), hadjust]
    rfl
  have hfree : bitswapMessageFree (incoming [] [wantOf cid]) = .ok () := by
    unfold bitswapMessageFree
    refine require_pos fun entry he => ?_
    obtain rfl : entry = (wantOf cid).entry := List.mem_singleton.1 he
    rfl
  have hmerge : mergeWanted junk (incoming [] [wantOf cid]) peer node = .ok (true, { node with
      peerRequestQueue := queueOf (some { request with cidsTheyWant := cids }) }) := by
    unfold mergeWanted
    rw [hfind, ok_bind]
    simp only
    rw [queueOf_get, ok_bind]
    show (handleEntries junk [(wantOf cid).entry] request.cidsTheyWant >>= _) = _
    rw [hentries, ok_bind]
    simp only
    rw [hfree, ok_bind]
    have hput : BitswapNode.setRequest { node with peerRequestQueue := queueOf (some request) } 0
        ⟨none, { request with cidsTheyWant := cids }, none⟩ =
          { node with peerRequestQueue := queueOf (some { request with cidsTheyWant := cids }) } :=
      setRequest_queueOf rfl
    exact congrArg (fun node => Except.ok (true, node)) hput
  have hwanted : (incoming [] [wantOf cid]).wanted ≠ [] :=
    List.cons_ne_nil (wantOf cid).entry []
  rw [handleMessage_wireBytes hask.size, handleDecoded_wanted hwanted rfl]
  unfold handleWanted
  simp only
  rw [hget, ok_bind]
  exact hmerge

end

/-! ## a request that is processed -/

/-- what A asks B for -/
def requestOfA (peer : Peer) (es : List CidEntry) : PeerRequest :=
  { peer := some peer, cidsWeWant := es.map some }

/-- what B owes A: the CID, or its block has been sent -/
def requestOfB (peer : Peer) (cid : Cid) (sent : Bool) : PeerRequest :=
  { peer := some peer, cidsTheyWant := [some { cid := some cid, cancel := sent }] }

section
variable {net : PeerNet} {files : Files} {peer : Peer} {cid : Cid} {es : List CidEntry}
  {block : Block}

theorem needToConnect_requestOfA (h : ∀ e ∈ es, e.due = false) :
    needToConnect (requestOfA peer es) = .ok false := by
  have hnone : es.any CidEntry.due = false := by
    rw [List.any_eq_false]
    intro e he
    rw [h e he]
    exact Bool.false_ne_true
  unfold needToConnect requestOfA
  rw [peerRequestWeWantCids_eq, hnone]
  rfl

theorem needToConnect_requestOfB (sent : Bool) :
    needToConnect (requestOfB peer cid sent) = .ok (!sent) := by
  cases sent <;> rfl

/-- **A asks**: the want goes out, and those before it do not go out again -/
theorem peerRequestProcessEntry_want (files : Files)
    (hwrite : ∀ bytes, bytes ≠ [] → 0 < net.write bytes) (hpeer : InTouch peer)
    (hask : Askable cid) (hes : ∀ e ∈ es, e.due = false) :
    ∃ es', (∀ e ∈ es', e.due = false) ∧
      peerRequestProcessEntry net files ((requestOfA peer es).wanting cid) =
        .ok (some ⟨outgoing [] [wantOf cid], wireBytes [] [wantOf cid]⟩, requestOfA peer es') := by
  have hall : (requestOfA peer es).wanting cid = requestOfA peer (es ++ [entryOf cid]) := by
    unfold requestOfA PeerRequest.wanting utilsVectorAdd
    rw [List.map_append]
    rfl
  have hfilter : (es ++ [entryOf cid]).filter CidEntry.due = [entryOf cid] := by
    rw [List.filter_append, List.filter_eq_nil_iff.2 fun e he => by simp [hes e he]]
    rfl
  have hneed : needToConnect (requestOfA peer (es ++ [entryOf cid])) = .ok true := by
    unfold needToConnect requestOfA
    rw [peerRequestWeWantCids_eq, List.any_append]
    show Except.ok ((es.any CidEntry.due || true) || _ || _) = _
    rw [Bool.or_true]
    rfl
  have hsize : ∀ e ∈ es ++ [entryOf cid], e.due → cidProtobufEncodeSize e.cid < 2 ^ 31 := by
    intro e he hdue
    rcases List.mem_append.1 he with he | he
    · rw [hes e he] at hdue
      cases hdue
    · obtain rfl := List.mem_singleton.1 he
      exact hask.encodeSize_lt
  have hitems := addWantlistItems_eq hsize
  rw [hfilter] at hitems
  have hbuild : buildMessage files (requestOfA peer (es ++ [entryOf cid])) =
      .ok (outgoing [] [wantOf cid],
        requestOfA peer ((es ++ [entryOf cid]).map CidEntry.announced)) := by
    unfold buildMessage requestOfA
    show (addWantlistItems ((es ++ [entryOf cid]).map some) >>= _) = _
    rw [hitems, ok_bind, List.map_map]
    rfl
  refine ⟨(es ++ [entryOf cid]).map CidEntry.announced, fun e he => ?_, ?_⟩
  · obtain ⟨a, -, rfl⟩ := List.mem_map.1 he
    exact CidEntry.announced_due
  · rw [hall]
    exact peerRequestProcessEntry_inTouch hwrite hpeer rfl hneed hbuild hask.size

/-- the block is not there yet: a message with nothing in it goes out -/
theorem peerRequestProcessEntry_missing (hwrite : ∀ bytes, bytes ≠ [] → 0 < net.write bytes)
    (hpeer : InTouch peer) (hget : blockstoreGet (some cid) files = .ok none) :
    peerRequestProcessEntry net files (requestOfB peer cid false) =
      .ok (some ⟨outgoing [] [], wireBytes [] []⟩, requestOfB peer cid false) := by
  have hbuild : buildMessage files (requestOfB peer cid false) =
      .ok (outgoing [] [], requestOfB peer cid false) := by
    unfold buildMessage requestOfB getBlocksTheyWant
    simp only [Bool.false_eq_true, if_false]
    rw [hget]
    rfl
  exact peerRequestProcessEntry_inTouch hwrite hpeer rfl (needToConnect_requestOfB false) hbuild
    (by decide)

/-- **B has the block**: it goes out, and the CID is marked -/
theorem peerRequestProcessEntry_found (hwrite : ∀ bytes, bytes ≠ [] → 0 < net.write bytes)
    (hpeer : InTouch peer) (hget : blockstoreGet (some cid) files = .ok (some block))
    (hsize : messageSize [block] [] < 2 ^ 31) :
    peerRequestProcessEntry net files (requestOfB peer cid false) =
      .ok (some ⟨outgoing [block] [], wireBytes [block] []⟩, requestOfB peer cid true) := by
  have hcid := blockstoreGet_cid hget
  have hmark : messageCancelCid block.cid [some { cid := some cid, cancel := true }] =
      .ok [some { cid := some cid, cancel := true }] := by
    rw [hcid, messageCancelCid, deref_some, ok_bind, if_pos (cidCompare_self _)]
  have hbuild : buildMessage files (requestOfB peer cid false) =
      .ok (outgoing [block] [], requestOfB peer cid true) := by
    unfold buildMessage requestOfB getBlocksTheyWant
    simp only [Bool.false_eq_true, if_false]
    rw [hget]
    show (messageAddBlocks [some block] [some { cid := some cid, cancel := true }] >>= _) = _
    rw [messageAddBlocks, deref_some, ok_bind, hmark]
    rfl
  exact peerRequestProcessEntry_inTouch hwrite hpeer rfl (needToConnect_requestOfB false) hbuild
    hsize

end

/-! ## where the want is -/

/-- on its way to B -/
structure Waiting (s : BitswapExchange) (cid : Cid) : Prop where
  request : s.b.peerRequestQueue = queueOf none
  toA : s.toA = []
  toB : s.toB ≠ []
  store : CanSend s.b.repo.files cid

/-- with B, which has sent no block -/
structure Owing (link : Link) (s : BitswapExchange) (cid : Cid) : Prop where
  request : s.b.peerRequestQueue = queueOf (some (requestOfB link.peerA cid false))
  toA : ∀ bytes ∈ s.toA, bytes = wireBytes [] []
  store : CanSend s.b.repo.files cid

/-- the block is the last thing that B has sent -/
def OnItsWay (s : BitswapExchange) (block : Block) : Prop :=
  ∃ before, s.toA = before ++ [wireBytes [block] []] ∧ ∀ bytes ∈ before, bytes = wireBytes [] []

/-- B has sent the block that it has, and A will have it or has it -/
structure Answering (link : Link) (s : BitswapExchange) (cid : Cid) (data : List UInt8) : Prop where
  request : s.b.peerRequestQueue = queueOf (some (requestOfB link.peerA cid true))
  store : blockstoreGet (some cid) s.b.repo.files = .ok (some { cid := some cid, data := data })
  size : messageSize [{ cid := some cid, data := data }] [] < 2 ^ 31
  arrives : OnItsWay s { cid := some cid, data := data } ∨ s.toA = [] ∧ Has s.a cid data

/-- A has asked for CIDs that are all read as this one -/
structure Asking (link : Link) (s : BitswapExchange) (cid : Cid) : Prop where
  asked : ∃ c ∈ s.wanted, c.decoded = cid
  wanted : ∀ c ∈ s.wanted, c.decoded = cid ∧ Askable c ∧
    (c.CharCodec ∨ findEntryOf (some c) s.a.localWantlist.entries = none)
  request : ∃ es, s.a.peerRequestQueue = queueOf (some (requestOfA link.peerB es)) ∧
    ∀ e ∈ es, e.due = false
  toB : ∀ bytes ∈ s.toB, ∃ c ∈ s.wanted, bytes = wireBytes [] [wantOf c]
  want : Waiting s cid ∨ Owing link s cid ∨ ∃ data, Answering link s cid data

structure Exchanging (link : Link) (s : BitswapExchange) : Prop where
  reliable : Reliable link s
  asking : Fresh s ∨ ∃ cid, Asking link s cid

section
variable {link : Link} {s : BitswapExchange} {cid : Cid} {block : Block}

/-- an operation leaves the links as they are, and what B knows of A -/
theorem Reliable.move (h : Reliable link s) {s' : BitswapExchange}
    (hpeers : s'.b.peerstore = s.b.peerstore) : Reliable link s' :=
  ⟨h.write, h.peerA, h.peerB, by rw [hpeers]; exact h.known⟩

theorem Cid.decoded_decoded (cid : Cid) : cid.decoded.decoded = cid.decoded := by
  unfold Cid.decoded
  simp

theorem Asking.decoded (h : Asking link s cid) : cid.decoded = cid := by
  obtain ⟨c, -, rfl⟩ := h.asked
  exact c.decoded_decoded

theorem Asking.fileName (h : Asking link s cid) :
    ∃ c ∈ s.wanted, c.decoded = cid ∧ cidToBase32 (some cid) = cidToBase32 (some c) ∧
      ∃ key, cidToBase32 (some cid) = .ok (some key) := by
  obtain ⟨c, hc, rfl⟩ := h.asked
  have hsame : cidToBase32 (some c.decoded) = cidToBase32 (some c) := by
    rw [cidToBase32_some, cidToBase32_some]
    rfl
  obtain ⟨-, hask, -⟩ := h.wanted c hc
  exact ⟨c, hc, rfl, hsame, by rw [hsame]; exact hask.fileName⟩

/-- another state of the exchange, with what A wants and asks as before -/
theorem Asking.move (h : Asking link s cid) {s' : BitswapExchange} (hwanted : s'.wanted = s.wanted)
    (ha : s'.a.peerRequestQueue = s.a.peerRequestQueue)
    (hentries : ∀ c, findEntryOf c s'.a.localWantlist.entries =
      findEntryOf c s.a.localWantlist.entries)
    (htoB : ∀ bytes ∈ s'.toB, bytes ∈ s.toB)
    (hwant : Waiting s' cid ∨ Owing link s' cid ∨ ∃ data, Answering link s' cid data) :
    Asking link s' cid := by
  refine ⟨by rw [hwanted]; exact h.asked, fun c hc => ?_, by rw [ha]; exact h.request,
    fun bytes hbytes => by rw [hwanted]; exact h.toB bytes (htoB bytes hbytes), hwant⟩
  rw [hentries]
  exact h.wanted c (hwanted ▸ hc)

/-! ### A wants a CID -/

/-- the want went out, and A asks for what is in `es` -/
def BitswapExchange.afterWant (link : Link) (cid : Cid) (es : List CidEntry)
    (s : BitswapExchange) : BitswapExchange :=
  { s with
    a := { s.a with peerRequestQueue := queueOf (some (requestOfA link.peerB es)) }
    toB := s.toB ++ [wireBytes [] [wantOf cid]]
    wanted := s.wanted ++ [cid] }

/-- the want goes out, and waits for nothing -/
theorem exchangeStep_want {es : List CidEntry} (hreliable : Reliable link s) (hask : Askable cid)
    (hes : ∀ e ∈ es, e.due = false)
    (hfind : peerRequestQueueFindPeer s.a.peerRequestQueue (some link.peerB) =
      .ok (0, queueOf (some (requestOfA link.peerB es)))) :
    ∃ es', (∀ e ∈ es', e.due = false) ∧
      exchangeStep link (.want cid) s = .ok (s.afterWant link cid es') := by
  obtain ⟨es', hes', hprocess⟩ := peerRequestProcessEntry_want s.a.repo.files hreliable.write
    hreliable.peerB hask hes
  refine ⟨es', hes', ?_⟩
  show (wantlistGetBlockRemote link.net (fun _ => some [some link.peerB]) (some cid) s.a >>= _) = _
  rw [wantlistGetBlockRemote_queueOf hfind hprocess]
  rfl

/-- one more want, behind those that are on their way -/
theorem Asking.want_next (hc : Asking link s cid.decoded) (hask : Askable cid)
    (hcodec : cid.CharCodec ∨ findEntryOf (some cid) s.a.localWantlist.entries = none)
    {es : List CidEntry} (hes : ∀ e ∈ es, e.due = false) :
    Asking link (s.afterWant link cid es) cid.decoded := by
  refine ⟨⟨cid, List.mem_append_right _ List.mem_cons_self, rfl⟩, fun c hc' => ?_, ⟨es, rfl, hes⟩,
    fun bytes hbytes => ?_, ?_⟩
  · rcases List.mem_append.1 hc' with hc' | hc'
    · exact hc.wanted c hc'
    · obtain rfl := List.mem_singleton.1 hc'
      exact ⟨rfl, hask, hcodec⟩
  · rcases List.mem_append.1 hbytes with hbytes | hbytes
    · obtain ⟨c, hc', rfl⟩ := hc.toB bytes hbytes
      exact ⟨c, List.mem_append_left _ hc', rfl⟩
    · exact ⟨cid, List.mem_append_right _ List.mem_cons_self, List.mem_singleton.1 hbytes⟩
  · rcases hc.want with hw | ho | ⟨data, ha⟩
    · exact .inl ⟨hw.request, hw.toA, List.append_ne_nil_of_left_ne_nil hw.toB _, hw.store⟩
    · exact .inr (.inl ⟨ho.request, ho.toA, ho.store⟩)
    · refine .inr (.inr ⟨data, ha.request, ha.store, ha.size, ?_⟩)
      rcases ha.arrives with hway | ⟨hempty, hhas⟩
      · exact .inl hway
      · exact .inr ⟨hempty, hhas.stored, hhas.attached⟩

/-- the first want -/
theorem Fresh.want_first (hfresh : Fresh s) (hask : Askable cid)
    (hcodec : cid.CharCodec ∨ findEntryOf (some cid) s.a.localWantlist.entries = none)
    (hstore : CanSend s.b.repo.files cid) {es : List CidEntry} (hes : ∀ e ∈ es, e.due = false) :
    Asking link (s.afterWant link cid es) cid.decoded := by
  have hwanted : s.wanted ++ [cid] = [cid] := by rw [hfresh.wanted, List.nil_append]
  have htoB : s.toB ++ [wireBytes [] [wantOf cid]] = [wireBytes [] [wantOf cid]] := by
    rw [hfresh.toB, List.nil_append]
  unfold BitswapExchange.afterWant
  rw [hwanted, htoB]
  refine ⟨⟨cid, List.mem_cons_self, rfl⟩, fun c hc => ?_, ⟨es, rfl, hes⟩, fun bytes hbytes => ?_,
    .inl ⟨hfresh.b, hfresh.toA, List.cons_ne_nil _ _, hstore.decoded⟩⟩
  · obtain rfl := List.mem_singleton.1 hc
    exact ⟨rfl, hask, hcodec⟩
  · exact ⟨cid, List.mem_cons_self, List.mem_singleton.1 hbytes⟩

theorem exchanging_want (h : Exchanging link s) (hG : AllowedExchange link (.want cid) s) :
    ∃ s', exchangeStep link (.want cid) s = .ok s' ∧ Exchanging link s' := by
  obtain ⟨hreliable, hasking⟩ := h
  obtain ⟨hone, hask, hcodec, hstore⟩ := hG
  rcases hasking with hfresh | ⟨c, hc⟩
  · have hfind : peerRequestQueueFindPeer s.a.peerRequestQueue (some link.peerB) =
        .ok (0, queueOf (some (requestOfA link.peerB []))) := by
      rw [hfresh.a]
      exact peerRequestQueueFindPeer_new
    obtain ⟨es, hes, hstep⟩ := exchangeStep_want hreliable hask
      (fun e he => absurd he List.not_mem_nil) hfind
    exact ⟨_, hstep, hreliable.move rfl, .inr ⟨_, hfresh.want_first hask hcodec hstore hes⟩⟩
  · obtain rfl : c = cid.decoded := by
      obtain ⟨c', hc', rfl⟩ := hc.asked
      exact hone c' hc'
    obtain ⟨es, hqueue, hes⟩ := hc.request
    have hfind : peerRequestQueueFindPeer s.a.peerRequestQueue (some link.peerB) =
        .ok (0, queueOf (some (requestOfA link.peerB es))) := by
      rw [hqueue]
      exact peerRequestQueueFindPeer_queueOf rfl
    obtain ⟨es', hes', hstep⟩ := exchangeStep_want hreliable hask hes hfind
    exact ⟨_, hstep, hreliable.move rfl, .inr ⟨_, hc.want_next hask hcodec hes'⟩⟩

/-! ### B adds a block -/

theorem HasSent.of_answering {c : Cid} {data : List UInt8}
    (h : Answering link s c.decoded data) : HasSent s c :=
  ⟨0, ⟨none, requestOfB link.peerA c.decoded true, none⟩, { cid := some c.decoded, cancel := true },
    by rw [h.request]; rfl, List.mem_cons_self, rfl, rfl⟩

theorem exchanging_add (h : Exchanging link s) (hG : AllowedExchange link (.add block) s) :
    ∃ s', exchangeStep link (.add block) s = .ok s' ∧ Exchanging link s' := by
  obtain ⟨hreliable, hasking⟩ := h
  obtain ⟨hstorable, hwanted⟩ := hG
  obtain ⟨r, files, hput⟩ := hstorable.put s.b.repo.files
  have hstep : exchangeStep link (.add block) s =
      .ok { s with b := { s.b with repo := { s.b.repo with files := files } } } := by
    show (blockstorePut link.opensB block s.b.repo.files >>= _) = _
    rw [hput]
    rfl
  refine ⟨_, hstep, hreliable.move rfl, ?_⟩
  rcases hasking with hfresh | ⟨cid, hc⟩
  · exact .inl ⟨hfresh.a, hfresh.b, hfresh.toA, hfresh.toB, hfresh.wanted⟩
  obtain ⟨c, hcw, rfl, hsame, key, hkey⟩ := hc.fileName
  have hget := blockstoreGet_put hstorable hkey hput
  rw [hsame] at hget
  -- a block that has not been sent may be replaced
  have hcan (hstore : CanSend s.b.repo.files c.decoded) : CanSend files c.decoded := by
    by_cases hname : cidToBase32 block.cid = cidToBase32 (some c)
    · rw [if_pos hname] at hget
      refine ⟨_, hget, fun found hfound => ?_⟩
      obtain rfl := Option.some.inj hfound
      rw [messageSize_hash c c.decoded rfl]
      exact (hwanted c hcw hname).1
    · rw [if_neg hname] at hget
      obtain ⟨found, hfound, hsize⟩ := hstore
      exact ⟨found, hget.trans hfound, hsize⟩
  refine .inr ⟨c.decoded, hc.move rfl rfl (fun _ => rfl) (fun _ h => h) ?_⟩
  rcases hc.want with hw | ho | ⟨data, ha⟩
  · exact .inl ⟨hw.request, hw.toA, hw.toB, hcan hw.store⟩
  · exact .inr (.inl ⟨ho.request, ho.toA, hcan ho.store⟩)
  · refine .inr (.inr ⟨data, ha.request, ?_, ha.size, ha.arrives⟩)
    by_cases hname : cidToBase32 block.cid = cidToBase32 (some c)
    · rw [if_pos hname] at hget
      have hold := blockstoreGet_hash c.decoded c s.b.repo.files rfl
      rw [ha.store] at hold
      have hdata : block.data = data :=
        (hwanted c hcw hname).2 (HasSent.of_answering ha) _ hold
      rw [← hdata]
      exact hget
    · rw [if_neg hname] at hget
      exact hget.trans ha.store

/-! ### the requests are processed -/

theorem enginePeerRequestProcessor_idle {node : BitswapNode} {peer : Peer} {request : PeerRequest}
    {net : PeerNet} (hqueue : node.peerRequestQueue = queueOf (some request))
    (hpeer : request.peer = some peer) (hneed : needToConnect request = .ok false) :
    enginePeerRequestProcessor net (some peer) node = .ok (none, node) := by
  rw [enginePeerRequestProcessor_queueOf hqueue hpeer (peerRequestProcessEntry_idle hneed),
    ← hqueue]

/-- A has nothing to send: its wants went out when they were made -/
theorem enginePeerRequestProcessor_a (h : Exchanging link s) :
    enginePeerRequestProcessor link.net (some link.peerB) s.a = .ok (none, s.a) := by
  rcases h.asking with hfresh | ⟨cid, hc⟩
  · exact enginePeerRequestProcessor_new hfresh.a
  · obtain ⟨es, hqueue, hes⟩ := hc.request
    exact enginePeerRequestProcessor_idle hqueue rfl (needToConnect_requestOfA hes)

theorem exchanging_processA (h : Exchanging link s) :
    ∃ s', exchangeStep link .processA s = .ok s' ∧ Exchanging link s' := by
  have hstep : exchangeStep link .processA s = .ok { s with toB := s.toB ++ [] } := by
    show (enginePeerRequestProcessor link.net (some link.peerB) s.a >>= _) = _
    rw [enginePeerRequestProcessor_a h]
    rfl
  rw [List.append_nil] at hstep
  exact ⟨s, hstep, h⟩

theorem exchangeStep_processB_none
    (h : enginePeerRequestProcessor link.net (some link.peerA) s.b = .ok (none, s.b)) :
    exchangeStep link .processB s = .ok s := by
  have hstep : exchangeStep link .processB s = .ok { s with toA := s.toA ++ [] } := by
    show (enginePeerRequestProcessor link.net (some link.peerA) s.b >>= _) = _
    rw [h]
    rfl
  rw [List.append_nil] at hstep
  exact hstep

/-- B has the block of the CID, and sends it -/
theorem Owing.engine_found (hreliable : Reliable link s) (h : Owing link s cid)
    (hget : blockstoreGet (some cid) s.b.repo.files = .ok (some block)) :
    messageSize [block] [] < 2 ^ 31 ∧
      enginePeerRequestProcessor link.net (some link.peerA) s.b =
        .ok (some ⟨outgoing [block] [], wireBytes [block] []⟩,
          { s.b with peerRequestQueue := queueOf (some (requestOfB link.peerA cid true)) }) := by
  obtain ⟨found, hfound, hsize⟩ := h.store
  rw [hget] at hfound
  have hsize := hsize block (Except.ok.inj hfound).symm
  exact ⟨hsize, enginePeerRequestProcessor_queueOf h.request rfl
    (peerRequestProcessEntry_found hreliable.write hreliable.peerA hget hsize)⟩

/-- B does not have it, and sends a message with nothing in it -/
theorem Owing.engine_missing (hreliable : Reliable link s) (h : Owing link s cid)
    (hget : blockstoreGet (some cid) s.b.repo.files = .ok none) :
    enginePeerRequestProcessor link.net (some link.peerA) s.b =
      .ok (some ⟨outgoing [] [], wireBytes [] []⟩, s.b) := by
  rw [enginePeerRequestProcessor_queueOf h.request rfl
    (peerRequestProcessEntry_missing hreliable.write hreliable.peerA hget), ← h.request]

theorem asking_processB_owing (hreliable : Reliable link s) (hc : Asking link s cid)
    (ho : Owing link s cid) :
    ∃ s', exchangeStep link .processB s = .ok s' ∧ Exchanging link s' := by
  obtain ⟨found, hget, -⟩ := ho.store
  cases found with
  | none =>
    have hstep : exchangeStep link .processB s =
        .ok { s with toA := s.toA ++ [wireBytes [] []] } := by
      show (enginePeerRequestProcessor link.net (some link.peerA) s.b >>= _) = _
      rw [ho.engine_missing hreliable hget]
      rfl
    refine ⟨_, hstep, hreliable.move rfl,
      .inr ⟨cid, hc.move rfl rfl (fun _ => rfl) (fun _ h => h)
        (.inr (.inl ⟨ho.request, fun bytes hbytes => ?_, ho.store⟩))⟩⟩
    rcases List.mem_append.1 hbytes with hbytes | hbytes
    · exact ho.toA bytes hbytes
    · exact List.mem_singleton.1 hbytes
  | some block =>
    obtain ⟨hsize, hengine⟩ := ho.engine_found hreliable hget
    have hstep : exchangeStep link .processB s = .ok { s with
        b := { s.b with peerRequestQueue := queueOf (some (requestOfB link.peerA cid true)) }
        toA := s.toA ++ [wireBytes [block] []] } := by
      show (enginePeerRequestProcessor link.net (some link.peerA) s.b >>= _) = _
      rw [hengine]
      rfl
    have hblock : block = { cid := some cid, data := block.data } := by
      rw [← blockstoreGet_cid hget]
    refine ⟨_, hstep, hreliable.move rfl,
      .inr ⟨cid, hc.move rfl rfl (fun _ => rfl) (fun _ h => h)
        (.inr (.inr ⟨block.data, rfl, ?_, ?_, .inl ⟨s.toA, ?_, ho.toA⟩⟩))⟩⟩
    · rw [← hblock]
      exact hget
    · rw [← hblock]
      exact hsize
    · rw [← hblock]

theorem exchanging_processB (h : Exchanging link s) :
    ∃ s', exchangeStep link .processB s = .ok s' ∧ Exchanging link s' := by
  rcases h.asking with hfresh | ⟨cid, hc⟩
  · exact ⟨s, exchangeStep_processB_none (enginePeerRequestProcessor_new hfresh.b), h⟩
  rcases hc.want with hw | ho | ⟨data, ha⟩
  · exact ⟨s, exchangeStep_processB_none (enginePeerRequestProcessor_new hw.request), h⟩
  · exact asking_processB_owing h.reliable hc ho
  · have hidle : enginePeerRequestProcessor link.net (some link.peerA) s.b = .ok (none, s.b) :=
      enginePeerRequestProcessor_idle ha.request rfl (needToConnect_requestOfB true)
    exact ⟨s, exchangeStep_processB_none hidle, h⟩

/-! ### a message is delivered -/

theorem exchangeStep_deliverB {bytes : List UInt8} {rest : List (List UInt8)} {r : Bool}
    {b : BitswapNode} (htoB : s.toB = bytes :: rest)
    (hhandle : bitswapNetworkHandleMessage link.opensB link.junk (some link.peerA.id) bytes s.b =
      .ok (r, b)) :
    exchangeStep link .deliverB s = .ok { s with b := b, toB := rest } := by
  unfold exchangeStep
  simp only [htoB]
  rw [hhandle]
  rfl

theorem exchangeStep_deliverA {bytes : List UInt8} {rest : List (List UInt8)} {r : Bool}
    {a : BitswapNode} (htoA : s.toA = bytes :: rest)
    (hhandle : bitswapNetworkHandleMessage link.opensA link.junk (some link.peerB.id) bytes s.a =
      .ok (r, a)) :
    exchangeStep link .deliverA s = .ok { s with a := a, toA := rest } := by
  unfold exchangeStep
  simp only [htoA]
  rw [hhandle]
  rfl

/-- a want that arrives again is found on the list -/
theorem exchangeStep_deliverB_again (hreliable : Reliable link s) (hask : Askable cid)
    {rest : List (List UInt8)} (htoB : s.toB = wireBytes [] [wantOf cid] :: rest) {sent : Bool}
    (h : s.b.peerRequestQueue = queueOf (some (requestOfB link.peerA cid.decoded sent))) :
    exchangeStep link .deliverB s = .ok { s with toB := rest } := by
  have hadjust : bitswapNetworkAdjustCidQueue [some { cid := some cid.decoded, cancel := sent }]
      cid.decoded false = .ok [some { cid := some cid.decoded, cancel := sent }] :=
    bitswapNetworkAdjustCidQueue_eq_ok.2 ⟨⟨_, rfl, cidCompare_self _⟩, rfl⟩
  have hfind : peerRequestQueueFindPeer s.b.peerRequestQueue (some link.peerA) =
      .ok (0, queueOf (some (requestOfB link.peerA cid.decoded sent))) := by
    rw [h]
    exact peerRequestQueueFindPeer_queueOf rfl
  rw [exchangeStep_deliverB htoB
    (handleMessage_want hask hreliable.peerA hreliable.known hfind hadjust)]
  show Except.ok { s with
    b := { s.b with peerRequestQueue := queueOf (some (requestOfB link.peerA cid.decoded sent)) }
    toB := rest } = _
  rw [← h]

/-- the want that arrives first is put on the list -/
theorem exchangeStep_deliverB_first (hreliable : Reliable link s) (hask : Askable cid)
    {rest : List (List UInt8)} (htoB : s.toB = wireBytes [] [wantOf cid] :: rest)
    (h : s.b.peerRequestQueue = queueOf none) :
    exchangeStep link .deliverB s = .ok { s with
      b := { s.b with
        peerRequestQueue := queueOf (some (requestOfB link.peerA cid.decoded false)) }
      toB := rest } := by
  have hfind : peerRequestQueueFindPeer s.b.peerRequestQueue (some link.peerA) =
      .ok (0, queueOf (some { peerRequestNew with peer := some link.peerA })) := by
    rw [h]
    exact peerRequestQueueFindPeer_new
  have hadjust : bitswapNetworkAdjustCidQueue [] cid.decoded false =
      .ok [some { cid := some cid.decoded }] := rfl
  exact exchangeStep_deliverB htoB
    (handleMessage_want hask hreliable.peerA hreliable.known hfind hadjust)

theorem asking_deliverB (hreliable : Reliable link s) (hc : Asking link s cid)
    {bytes : List UInt8} {rest : List (List UInt8)} (htoB : s.toB = bytes :: rest) :
    ∃ s', exchangeStep link .deliverB s = .ok s' ∧ Exchanging link s' := by
  obtain ⟨c, hcw, rfl⟩ := hc.toB bytes (by rw [htoB]; exact List.mem_cons_self)
  obtain ⟨rfl, hask, -⟩ := hc.wanted c hcw
  have hrest : ∀ bytes ∈ rest, bytes ∈ s.toB := fun bytes hbytes => by
    rw [htoB]
    exact List.mem_cons_of_mem _ hbytes
  rcases hc.want with hw | ho | ⟨data, ha⟩
  · refine ⟨_, exchangeStep_deliverB_first hreliable hask htoB hw.request, hreliable.move rfl,
      .inr ⟨c.decoded, hc.move rfl rfl (fun _ => rfl) hrest
        (.inr (.inl ⟨rfl, fun bytes hbytes => ?_, hw.store⟩))⟩⟩
    rw [hw.toA] at hbytes
    exact absurd hbytes List.not_mem_nil
  · exact ⟨_, exchangeStep_deliverB_again hreliable hask htoB ho.request, hreliable.move rfl,
      .inr ⟨c.decoded, hc.move rfl rfl (fun _ => rfl) hrest
        (.inr (.inl ⟨ho.request, ho.toA, ho.store⟩))⟩⟩
  · exact ⟨_, exchangeStep_deliverB_again hreliable hask htoB ha.request, hreliable.move rfl,
      .inr ⟨c.decoded, hc.move rfl rfl (fun _ => rfl) hrest
        (.inr (.inr ⟨data, ha.request, ha.store, ha.size, ha.arrives⟩))⟩⟩

theorem exchanging_deliverB (h : Exchanging link s) :
    ∃ s', exchangeStep link .deliverB s = .ok s' ∧ Exchanging link s' := by
  cases htoB : s.toB with
  | nil =>
    refine ⟨s, ?_, h⟩
    unfold exchangeStep
    simp only [htoB]
  | cons bytes rest =>
    rcases h.asking with hfresh | ⟨cid, hc⟩
    · rw [hfresh.toB] at htoB
      cases htoB
    · exact asking_deliverB h.reliable hc htoB

theorem carriesBlock_wireBytes (hsize : messageSize [block] [] < 2 ^ 31) :
    CarriesBlock (wireBytes [block] []) :=
  ⟨_, incoming [block] [], stripHeader_wireBytes,
    bitswapMessageProtobufDecode_messageBytes hsize,
    List.cons_ne_nil block.decoded []⟩

/-- a message with nothing in it changes nothing -/
theorem exchangeStep_deliverA_nothing {rest : List (List UInt8)}
    (htoA : s.toA = wireBytes [] [] :: rest) :
    exchangeStep link .deliverA s = .ok { s with toA := rest } :=
  exchangeStep_deliverA htoA (handleMessage_nothing _)

/-- the block arrives -/
theorem asking_deliverA_block (hreliable : Reliable link s) (hc : Asking link s cid)
    {data : List UInt8} (ha : Answering link s cid data)
    (htoA : s.toA = [wireBytes [{ cid := some cid, data := data }] []])
    (hG : AllowedExchange link .deliverA s) :
    ∃ s', exchangeStep link .deliverA s = .ok s' ∧ Exchanging link s' := by
  obtain ⟨hqueue, hopen⟩ := hG _ _ htoA (carriesBlock_wireBytes ha.size)
  obtain ⟨c, hcw, -, hsame, key, hkey⟩ := hc.fileName
  have hkeyC : cidToBase32 (some c) = .ok (some key) := hsame ▸ hkey
  obtain ⟨a, hhandle, hhas, hrequests, hentries⟩ := handleMessage_block link.junk hc.decoded hkey
    ha.size hqueue (hopen c hcw key hkeyC) (some link.peerB.id)
  exact ⟨_, exchangeStep_deliverA htoA hhandle, hreliable.move rfl,
    .inr ⟨cid, hc.move rfl hrequests hentries (fun _ h => h)
      (.inr (.inr ⟨data, ha.request, ha.store, ha.size, .inr ⟨rfl, hhas⟩⟩))⟩⟩

theorem asking_deliverA (hreliable : Reliable link s) (hc : Asking link s cid)
    {bytes : List UInt8} {rest : List (List UInt8)} (htoA : s.toA = bytes :: rest)
    (hG : AllowedExchange link .deliverA s) :
    ∃ s', exchangeStep link .deliverA s = .ok s' ∧ Exchanging link s' := by
  rcases hc.want with hw | ho | ⟨data, ha⟩
  · rw [hw.toA] at htoA
    cases htoA
  · obtain rfl : bytes = wireBytes [] [] := ho.toA bytes (by rw [htoA]; exact List.mem_cons_self)
    have hrest : ∀ bytes ∈ rest, bytes = wireBytes [] [] := fun bytes hbytes =>
      ho.toA bytes (by rw [htoA]; exact List.mem_cons_of_mem _ hbytes)
    exact ⟨_, exchangeStep_deliverA_nothing htoA, hreliable.move rfl, .inr ⟨cid, hc.move rfl rfl
      (fun _ => rfl) (fun _ h => h) (.inr (.inl ⟨ho.request, hrest, ho.store⟩))⟩⟩
  · rcases ha.arrives with ⟨before, hway, hbefore⟩ | ⟨hempty, -⟩
    · cases before with
      | nil => exact asking_deliverA_block hreliable hc ha hway hG
      | cons first before =>
        obtain ⟨rfl, rfl⟩ := List.cons.inj (htoA.symm.trans hway)
        obtain rfl : bytes = wireBytes [] [] := hbefore bytes List.mem_cons_self
        have hrest : ∀ bytes ∈ before, bytes = wireBytes [] [] := fun bytes hbytes =>
          hbefore bytes (List.mem_cons_of_mem _ hbytes)
        exact ⟨_, exchangeStep_deliverA_nothing htoA, hreliable.move rfl, .inr ⟨cid, hc.move rfl rfl
          (fun _ => rfl) (fun _ h => h) (.inr (.inr ⟨data, ha.request, ha.store, ha.size,
            .inl ⟨before, rfl, hrest⟩⟩))⟩⟩
    · rw [hempty] at htoA
      cases htoA

theorem exchanging_deliverA (h : Exchanging link s) (hG : AllowedExchange link .deliverA s) :
    ∃ s', exchangeStep link .deliverA s = .ok s' ∧ Exchanging link s' := by
  cases htoA : s.toA with
  | nil =>
    refine ⟨s, ?_, h⟩
    unfold exchangeStep
    simp only [htoA]
  | cons bytes rest =>
    rcases h.asking with hfresh | ⟨cid, hc⟩
    · rw [hfresh.toA] at htoA
      cases htoA
    · exact asking_deliverA h.reliable hc htoA hG

/-! ### runs -/

/-- **what one operation makes** of the want -/
theorem exchanging_of_step (op : ExchangeOp) (s : BitswapExchange) (h : Exchanging link s)
    (hG : AllowedExchange link op s) :
    ∃ s', exchangeStep link op s = .ok s' ∧ Exchanging link s' := by
  cases op with
  | want cid => exact exchanging_want h hG
  | add block => exact exchanging_add h hG
  | processA => exact exchanging_processA h
  | processB => exact exchanging_processB h
  | deliverA => exact exchanging_deliverA h hG
  | deliverB => exact exchanging_deliverB h

/-- what A has of a CID as it is read, it has of the CID, unless an entry waits for that one -/
theorem Has.of_decoded {node : BitswapNode} {data : List UInt8} (h : Has node cid.decoded data)
    (hcodec : cid.CharCodec ∨ findEntryOf (some cid) node.localWantlist.entries = none) :
    Has node cid data := by
  rcases hcodec with hchar | hnone
  · rw [Cid.decoded_eq_iff.2 hchar] at h
    exact h
  · obtain ⟨block, hget, hdata⟩ := h.stored
    have hsame := blockstoreGet_hash cid.decoded cid node.repo.files rfl
    rw [hget] at hsame
    refine ⟨⟨_, hsame, hdata⟩, fun i entry hfind _ => ?_⟩
    rw [hnone] at hfind
    cases hfind

/-- when all is quiet, what B has of what was wanted has arrived -/
theorem delivers_of_exchanging (h : Exchanging link s) : Delivers link s := by
  intro hquiet c hwanted block hget
  rcases h.asking with hfresh | ⟨cid, hc⟩
  · rw [hfresh.wanted] at hwanted
    exact absurd hwanted List.not_mem_nil
  obtain ⟨rfl, -, hcodec⟩ := hc.wanted c hwanted
  have hread := blockstoreGet_hash c c.decoded s.b.repo.files rfl
  rw [hget] at hread
  rcases hc.want with hw | ho | ⟨data, ha⟩
  · exact absurd hquiet.toB hw.toB
  · -- B would send it
    obtain ⟨-, hengine⟩ := ho.engine_found h.reliable hread
    exact absurd (.inr (List.cons_ne_nil _ [])) (hquiet.b _ _ hengine)
  · have hsame := hread.symm.trans ha.store
    have hdata : block.data = data := congrArg Block.data (Option.some.inj (Except.ok.inj hsame))
    rcases ha.arrives with ⟨before, hway, -⟩ | ⟨-, hhas⟩
    · rw [hquiet.toA] at hway
      exact absurd hway.symm (List.append_ne_nil_of_right_ne_nil _ (List.cons_ne_nil _ _))
    · rw [hdata]
      exact hhas.of_decoded hcodec

/-- **A gets what it wanted**, in every state of a run of allowed operations -/
theorem delivers_of_allowed (hreliable : Reliable link s) (hfresh : Fresh s)
    {ops : List ExchangeOp} (hops : Guarded (exchangeStep link) (AllowedExchange link) ops s) :
    HoldsAlong (exchangeStep link) (Delivers link) ops s :=
  HoldsAlong.mono (fun _ => delivers_of_exchanging)
    (holdsAlong_of_step exchanging_of_step ⟨hreliable, .inl hfresh⟩ hops)

end

/-! ## two nodes -/

def pairPeer (name : UInt8) : Peer :=
  { id := [name], connectionType := connectionTypeConnected, hasSession := true }

/-- every write succeeds, and every file can be opened -/
def pairLink : Link where
  net := ⟨fun _ peer => (true, peer), fun bytes => bytes.length⟩
  peerA := pairPeer 65
  peerB := pairPeer 66
  opensA := fun _ => true
  opensB := fun _ => true
  junk := 0

/-- A has an entry that waits for the CID; B has the files -/
def pairNodes (cid : Cid) (files : Files) : BitswapExchange where
  a := { bitswapNodeNew [pairPeer 66] with
    localWantlist := { queue := some [some { cid := some cid }] } }
  b := { bitswapNodeNew [pairPeer 65] with repo := { Repo.empty with files := files } }

theorem inTouch_pairPeer {name : UInt8} (h : name ≠ 0) : InTouch (pairPeer name) where
  connected := rfl
  session := rfl
  id := List.cons_ne_nil _ _
  text h0 := h (List.mem_singleton.1 h0).symm
  log := show 1 < 100 by decide

theorem reliable_pairNodes (cid : Cid) (files : Files) :
    Reliable pairLink (pairNodes cid files) where
  write bytes h := Int.natCast_pos.2 (List.length_pos_iff.2 h)
  peerA := inTouch_pairPeer (by decide)
  peerB := inTouch_pairPeer (by decide)
  known := rfl

theorem fresh_pairNodes (cid : Cid) (files : Files) : Fresh (pairNodes cid files) :=
  ⟨rfl, rfl, rfl, rfl, rfl⟩

/-- a file with the byte 1, under its CID -/
def fileOfOne : Files :=
  Function.update (fun _ => none) (fileKey byteCid)
    (some (blockBytes { cid := some byteCid, data := [1] }))

theorem canSend_fileOfOne : CanSend fileOfOne byteCid := by
  have hget : blockstoreGet (some byteCid) fileOfOne =
      .ok (some { cid := some byteCid, data := [1] }) := by decide +kernel
  refine ⟨_, hget, fun block hblock => ?_⟩
  obtain rfl := Option.some.inj hblock
  decide

theorem delivers_of_allowed_one : HoldsAlong (exchangeStep pairLink) (Delivers pairLink)
    [.want byteCid, .deliverB, .processB, .deliverA] (pairNodes byteCid fileOfOne) := by
  refine delivers_of_allowed (reliable_pairNodes _ _) (fresh_pairNodes _ _)
    ⟨⟨fun c hc => absurd hc List.not_mem_nil, ⟨by decide, by decide +kernel⟩,
      .inl ⟨by decide, by decide⟩, canSend_fileOfOne⟩, fun s1 h1 =>
        ⟨trivial, fun s2 h2 => ⟨trivial, fun s3 h3 => ⟨fun bytes rest htoA hcarries => ⟨?_, fun _ _ _ _ => rfl⟩, fun _ _ => trivial⟩⟩⟩⟩
  have hrun : runOps (exchangeStep pairLink) [.want byteCid, .deliverB, .processB]
      (pairNodes byteCid fileOfOne) = .ok s3 := by
    rw [runOps_cons, h1, ok_bind, runOps_cons, h2, ok_bind, runOps_cons, h3]
    rfl
  have hqueue : (runOps (exchangeStep pairLink) [.want byteCid, .deliverB, .processB]
      (pairNodes byteCid fileOfOne)).map (fun s => s.a.localWantlist.queue.isSome) = .ok true := by
    decide +kernel
  rw [hrun] at hqueue
  exact Except.ok.inj hqueue

/-- a second CID is looked for behind the first one -/
theorem not_delivers_two : ¬ HoldsAlong (exchangeStep pairLink) (Delivers pairLink)
    [.want byteCid, .want otherCid, .deliverB, .deliverB] (pairNodes byteCid fileOfOne) := by
  intro h
  obtain ⟨s, hrun, -⟩ := h.last
  have hfault : (runOps (exchangeStep pairLink)
      [.want byteCid, .want otherCid, .deliverB, .deliverB] (pairNodes byteCid fileOfOne)).map
        BitswapExchange.toA = .error .outOfBounds := by decide +kernel
  rw [hrun] at hfault
  cases hfault

/-- the CID of the byte 1, with a codec that is not a `char` -/
def jsonCid : Cid := { byteCid with codec := 0x129 }

def jsonRun : Exec BitswapExchange :=
  runOps (exchangeStep pairLink) [.want jsonCid, .deliverB, .processB, .deliverA]
    (pairNodes jsonCid fileOfOne)

/-- the block comes back under another codec, and the entry goes on waiting -/
theorem not_delivers_codec : ¬ HoldsReached (exchangeStep pairLink) (Delivers pairLink)
    [.want jsonCid, .deliverB, .processB, .deliverA] (pairNodes jsonCid fileOfOne) := by
  intro h
  have hend : jsonRun.map (fun s => (s.toA, s.toB, s.wanted, s.a.localWantlist.entries)) =
      .ok ([], [], [jsonCid], [some { cid := some jsonCid }]) := by decide +kernel
  have hget : (jsonRun >>= fun s => blockstoreGet (some jsonCid) s.b.repo.files) =
      .ok (some { cid := some jsonCid, data := [1] }) := by decide +kernel
  have ha : (jsonRun >>= fun s => Prod.fst <$>
      enginePeerRequestProcessor pairLink.net (some pairLink.peerB) s.a) = .ok none := by
    decide +kernel
  have hb : (jsonRun >>= fun s => Prod.fst <$>
      enginePeerRequestProcessor pairLink.net (some pairLink.peerA) s.b) = .ok none := by
    decide +kernel
  cases hrun : jsonRun with
  | error e =>
    rw [hrun] at hend
    cases hend
  | ok s =>
    rw [hrun] at hend
    rw [hrun, ok_bind] at hget ha hb
    have hend := Except.ok.inj hend
    simp only [Prod.mk.injEq] at hend
    obtain ⟨htoA, htoB, hwanted, hentries⟩ := hend
    have hquiet : Quiescent pairLink s := by
      refine ⟨htoA, htoB, fun sent a hsent => ?_, fun sent b hsent => ?_⟩
      · rw [hsent] at ha
        cases ha
      · rw [hsent] at hb
        cases hb
    have hhas := h _ [] s (List.append_nil _).symm hrun hquiet jsonCid
      (by rw [hwanted]; exact List.mem_cons_self) _ hget
    obtain ⟨block, hblock, -⟩ := hhas.attached 0 { cid := some jsonCid }
      (by rw [hentries]; decide) (by rw [hentries]; rfl)
    cases hblock

/-- **what goes wrong**: two CIDs, and a CID whose codec is not a `char` -/
theorem not_delivers :
    (Reliable pairLink (pairNodes byteCid fileOfOne) ∧ Fresh (pairNodes byteCid fileOfOne) ∧
      ¬ HoldsAlong (exchangeStep pairLink) (Delivers pairLink)
        [.want byteCid, .want otherCid, .deliverB, .deliverB] (pairNodes byteCid fileOfOne)) ∧
    Reliable pairLink (pairNodes jsonCid fileOfOne) ∧ Fresh (pairNodes jsonCid fileOfOne) ∧
      ¬ HoldsReached (exchangeStep pairLink) (Delivers pairLink)
        [.want jsonCid, .deliverB, .processB, .deliverA] (pairNodes jsonCid fileOfOne) :=
  ⟨⟨reliable_pairNodes _ _, fresh_pairNodes _ _, not_delivers_two⟩, reliable_pairNodes _ _,
    fresh_pairNodes _ _, not_delivers_codec⟩

end Ipfs
