import Libipfs.Merkledag.RoundTrip
import Libipfs.Unixfs.RoundTrip
import Libipfs.Bitswap.RoundTrip
import Libipfs.Bitswap.MessageBlock
import Libipfs.Journal.RoundTrip
import Libipfs.Routing.Message

/-!
# The sizes that are computed for encodings

Every message has a function that adds up how long its encoding can be, and an encoder that is
given a buffer of that size.  Each sum is written by hand beside the encoder.

* `NodeLink.Covered`   a link has something in it: the field of an empty name is written and not
                     counted;
* `unixfs_covers_iff`  ten bytes for a size of a part, and 23 for everything else but the bytes;
* `BitswapWantlist.Covered`   a want list has a vector, of entries whose fields are stored;
* `PeerWith.Covered`   the sum of a peer is an `int`;
* `encodeSizes_suffice_iff`   **when the sizes suffice**, for each of the messages.

Beside that, the varints of each message have to fit a size that is taken as an `int`, as they do
when it is one.
-/

namespace Libp2p
open CSem

/-! ## peers -/

/-- ten bytes are counted for each varint -/
def peerSlack (peer : GivenOrNull) : Nat :=
  (10 - (varintBytes peer.id.length).length) +
    (peer.given.map fun addr => 10 - (varintBytes addr.1.length).length).sum +
    (10 - (varintBytes peer.connectionType.toNat).length)

/-- the sum is an `int` again, and what it has lost on the way was not used -/
structure PeerWith.Covered (peer : GivenOrNull) : Prop where
  isInt : peerEstimate peer % 2 ^ 32 < 2 ^ 31
  wraps : 2 ^ 32 * (peerEstimate peer / 2 ^ 32) ≤ peerSlack peer

/-! ## messages of the DHT -/

/-- what the size of a message adds up to -/
def messageSum (msg : DhtMessage) : Nat :=
  11 + 11 + (msg.keyBytes.length + 11) +
    (11 + (msg.record.map recordProtobufEncodeSize).getD 0) +
    (msg.closerPeers.map fun peer => 11 + peerProtobufEncodeSize peer).sum +
    (msg.providerPeers.map fun peer => 11 + peerProtobufEncodeSize peer).sum

structure DhtMessage.Covered (msg : DhtMessage) : Prop where
  record : ∀ record, msg.record = some record →
    RoomFor (recordItems record) (recordProtobufEncodeSize record)
  closerPeers : ∀ peer ∈ msg.closerPeers, peer.Covered
  providerPeers : ∀ peer ∈ msg.providerPeers, peer.Covered
  wraps : 2 ^ 64 * (messageSum msg / 2 ^ 64) ≤ messageSum msg - (messageBytes msg).length
  room : RoomFor (messageItems msg) (messageProtobufEncodeSize msg)

section
variable {peer : GivenOrNull} {record : Record} {msg : DhtMessage} {room : Nat}
  {out : List UInt8}

theorem bytesField_length_add (no : Nat) (ty : WireType) (d : List UInt8) (h : no < 16) :
    (bytesField no ty d).length + (10 - (varintBytes d.length).length) = 11 + d.length := by
  have hten := varintBytes_length_le d.length
  rw [bytesField_length no ty d h]
  omega

/-- the bytes of a peer and what they leave of the estimate -/
theorem peerBytes_length_add (peer : GivenOrNull) :
    (peerBytes peer).length + peerSlack peer = peerEstimate peer := by
  have hid := bytesField_length_add 1 .lengthDelimited peer.id (by norm_num)
  have haddrs (addrs : List Multiaddress) :
      (addrs.flatMap fun addr => bytesField 2 .lengthDelimited addr.1).length +
        (addrs.map fun addr => 10 - (varintBytes addr.1.length).length).sum =
      (addrs.map fun addr => 11 + addr.1.length).sum := by
    induction addrs with
    | nil => rfl
    | cons addr addrs ih =>
      have haddr := bytesField_length_add 2 .lengthDelimited addr.1 (by norm_num)
      rw [List.flatMap_cons, List.length_append, List.map_cons, List.sum_cons, List.map_cons,
        List.sum_cons]
      omega
  have haddrs := haddrs peer.given
  have hten := varintBytes_length_le peer.connectionType.toNat
  unfold peerBytes peerSlack peerEstimate
  rw [List.length_append, List.length_append, varintField_length 3 _ _ (by norm_num)]
  omega

/-- the size of a peer: what is left of the sum in an `int`, or no size at all -/
theorem peerProtobufEncodeSize_le_iff : peerProtobufEncodeSize peer ≤ ptrdiffMax ↔
    peerEstimate peer % 2 ^ 32 < 2 ^ 31 := by
  rw [peerProtobufEncodeSize_eq]
  unfold toUInt64 toInt32 Int.bmod ptrdiffMax
  norm_num
  omega

theorem peerProtobufEncodeSize_of_le (h : peerEstimate peer % 2 ^ 32 < 2 ^ 31) :
    peerProtobufEncodeSize peer = peerEstimate peer % 2 ^ 32 := by
  rw [peerProtobufEncodeSize_eq]
  unfold toUInt64 toInt32 Int.bmod
  norm_num at h ⊢
  omega

/-- **a peer is encoded** into a buffer of its size iff this covers it -/
theorem PeerWith.encoded_iff : peer.Encoded ↔ peer.Covered := by
  have hslack := peerBytes_length_add peer
  have hdiv := Nat.div_add_mod (peerEstimate peer) (2 ^ 32)
  have hbytes := peerBytes_eq peer
  constructor
  · intro h
    obtain ⟨hmem, hwritable⟩ := h
    have hint := peerProtobufEncodeSize_le_iff.1 hmem
    have hle := hwritable.length_le
    rw [← hbytes, peerProtobufEncodeSize_of_le hint] at hle
    exact ⟨hint, by omega⟩
  · intro h
    obtain ⟨hint, hwraps⟩ := h
    refine ⟨peerProtobufEncodeSize_le_iff.2 hint, ?_⟩
    rw [peerProtobufEncodeSize_of_le hint]
    refine writable_of_lt (peerItems_wordSized peer) ?_ hint
    rw [← hbytes]
    omega

theorem peer_suffices_iff :
    Suffices (.ok (peerProtobufEncodeSize peer)) (peerProtobufEncode peer) ↔ peer.Covered := by
  have hpd := ptrdiffMax_lt
  rw [← PeerWith.encoded_iff]
  constructor
  · intro h
    obtain ⟨n, out, hn, hmem, hout, -⟩ := h
    cases hn
    exact ⟨hmem, ((peerProtobufEncode_eq_ok (by omega)).1 hout).2⟩
  · intro h
    obtain ⟨hmem, hwritable⟩ := h
    have hle := hwritable.length_le
    rw [← peerBytes_eq] at hle
    exact ⟨_, _, rfl, hmem, (peerProtobufEncode_eq_ok (by omega)).2 ⟨rfl, hwritable⟩, hle⟩

/-! ### messages -/

theorem record_encoded_iff : record.Encoded ↔
    RoomFor (recordItems record) (recordProtobufEncodeSize record) := by
  have hle := @recordBytesOf_length_le record
  rw [recordBytesOf_eq] at hle
  constructor
  · intro h
    exact (writable_iff_roomFor h.1 hle).1 h.2
  · intro h
    exact ⟨h.memory, (writable_iff_roomFor h.memory hle).2 h⟩

theorem messageProtobufEncodeSize_eq (msg : DhtMessage) :
    messageProtobufEncodeSize msg = messageSum msg % 2 ^ 64 := by
  show toUInt64 (messageSum msg : Nat) = _
  unfold toUInt64
  norm_num
  omega

/-- the sum covers a message whose peers are covered -/
theorem messageBytes_length_le_messageSum (h : msg.PartsEncoded) :
    (messageBytes msg).length ≤ messageSum msg := by
  have hpeer : ∀ peer : GivenOrNull, peer.Encoded →
      (peerBytes peer).length ≤ peerProtobufEncodeSize peer := by
    intro peer hencoded
    rw [peerBytes_eq]
    exact hencoded.2.length_le
  exact messageBytes_length_le_sum (fun peer hp => hpeer peer (h.closerPeers peer hp))
    fun peer hp => hpeer peer (h.providerPeers peer hp)

theorem messageProtobufEncode_orFault (hroom : room < 2 ^ 64) :
    orFault (messageProtobufEncode msg) room = .ok out ↔
      msg.PartsEncoded ∧ out = messageBytes msg ∧ Writable (messageItems msg) room := by
  rw [← messageProtobufEncode_eq_some hroom]
  constructor
  · intro h
    obtain ⟨written, hwritten, h⟩ := bind_eq_ok.1 h
    rw [hwritten, deref_eq_ok.1 h]
  · intro h
    exact bind_eq_ok.2 ⟨_, h, rfl⟩

theorem message_suffices_iff :
    Suffices (.ok (messageProtobufEncodeSize msg)) (orFault (messageProtobufEncode msg)) ↔
      msg.Covered := by
  have hpd := ptrdiffMax_lt
  have hsize := messageProtobufEncodeSize_eq msg
  have hdiv := Nat.div_add_mod (messageSum msg) (2 ^ 64)
  rw [suffices_iff fun hmem out => by
    rw [messageProtobufEncode_orFault (by omega), messageBytes_eq], ← messageBytes_eq]
  constructor
  · intro h
    obtain ⟨hparts, hle, hroom⟩ := h
    exact ⟨fun record hr => record_encoded_iff.1 (hparts.record record hr),
      fun peer hp => PeerWith.encoded_iff.1 (hparts.closerPeers peer hp),
      fun peer hp => PeerWith.encoded_iff.1 (hparts.providerPeers peer hp), by omega, hroom⟩
  · intro h
    have hparts : msg.PartsEncoded := ⟨fun record hr => record_encoded_iff.2 (h.record record hr),
      fun peer hp => PeerWith.encoded_iff.2 (h.closerPeers peer hp),
      fun peer hp => PeerWith.encoded_iff.2 (h.providerPeers peer hp)⟩
    have hsum := messageBytes_length_le_messageSum hparts
    have hwraps := h.wraps
    exact ⟨hparts, by omega, h.room⟩

end

end Libp2p

namespace Ipfs
open CSem Libp2p

/-! ## nodes -/

/-- the field of the name is always written, and counted for a link with a name -/
structure NodeLink.Covered (link : NodeLink) : Prop where
  hash_le : link.hash.length ≤ 127
  counted : 0 < link.hash.length ∨ 0 < link.encodedName.length ∨ 0 < link.tSize.toNat
  room : RoomFor (linkItems link) (nodeLinkProtobufEncodeSize link)

structure HashtableNode.Covered (node : HashtableNode) : Prop where
  links : ∀ link ∈ node.links, link.Covered
  room : RoomFor (nodeItems node) (hashtableNodeProtobufEncodeSize node)

/-! ## data sections -/

/-- the varints of an object, with the tags of the fields that it need not have -/
def unixfsVarints (obj : UnixFS) : Nat :=
  (varintBytes obj.dataType.toNat).length +
    (if 0 < obj.bytes.length then 1 + (varintBytes obj.bytes.length).length else 0) +
    (if 0 < obj.fileSize.toNat then 1 + (varintBytes obj.fileSize.toNat).length else 0) +
    (obj.blockSizes.map fun blockSize => (varintBytes blockSize.toNat).length).sum

structure UnixFS.Covered (obj : UnixFS) : Prop where
  varints : unixfsVarints obj ≤ 23 + 10 * obj.blockSizes.length
  room : RoomFor (unixfsItems obj) (unixfsProtobufEncodeSize obj)

/-! ## CIDs and blocks -/

def CidCovered (cid : Option Cid) : Prop :=
  ∀ c, cid = some c → RoomFor (cidItems c) (cidProtobufEncodeSize cid)

structure Block.Covered (block : Block) : Prop where
  cid : CidCovered block.cid
  room : RoomFor (blockItems block) (blocksBlockProtobufEncodeSize block)

/-! ## messages of bitswap -/

def Want.Covered (want : Want) : Prop := RoomFor want.items (33 + want.block.length)

/-- an entry whose fields have all been stored -/
def EntryCovered (entry : Option WantlistEntry) : Prop :=
  ∃ want : Want, entry = want.entry ∧ want.Covered

/-- a vector of such entries -/
structure BitswapWantlist.Covered (list : BitswapWantlist) : Prop where
  entries : list.entries = some (list.wants.map Want.entry)
  wants : ∀ want ∈ list.wants, want.Covered
  room : RoomFor list.items (wantsSize list.wants)

def BitswapBlockCovered (block : Option BitswapBlock) : Prop :=
  ∃ blockPrefix bytes, block = some ⟨some blockPrefix, some bytes⟩ ∧
    RoomFor (bitswapBlockItems blockPrefix bytes) (33 + blockPrefix.length + bytes.length)

structure BitswapMessage.Covered (message : BitswapMessage) : Prop where
  sent : ∀ block ∈ message.sent, block.Covered
  wantlist : ∀ list, message.wantlist = some list → list.Covered
  room : RoomFor message.items message.size

/-! ## the journal -/

/-- an `int`, with room for what the varints of the entries take beyond the 23 bytes of each -/
structure JournalMessage.Covered (message : JournalMessage) : Prop where
  isInt : journalMessageEstimate message < 2 ^ 31
  varints : journalEpochVarints message + (message.journalEntries.map journalEntryOverhead).sum ≤
    30 + 23 * message.journalEntries.length

section
variable {link : NodeLink} {node : HashtableNode} {obj : UnixFS} {cid : Option Cid}
  {block : Block} {entry : Option WantlistEntry} {want : Want} {list : BitswapWantlist}
  {message : BitswapMessage} {room : Nat} {out : List UInt8}

/-! ## nodes suffice -/

theorem link_suffices_iff :
    Suffices (.ok (nodeLinkProtobufEncodeSize link)) (nodeLinkProtobufEncode link) ↔
      link.Covered := by
  have hpd := ptrdiffMax_lt
  have hbytes : itemsBytes (linkItems link) = linkBytes link := rfl
  rw [suffices_iff fun hmem out => nodeLinkProtobufEncode_eq_ok (by omega), hbytes]
  constructor
  · intro h
    obtain ⟨hhash, hle, hroom⟩ := h
    refine ⟨hhash, ?_, hroom⟩
    -- nothing is counted, and two bytes are written for the name
    by_contra hnone
    have hpos := encodedName_length_le link
    unfold nodeLinkProtobufEncodeSize at hle
    split_ifs at hle <;> omega
  · intro h
    exact ⟨h.hash_le, linkBytes_length_le h.hash_le h.counted, h.room⟩

theorem NodeLink.Covered.encoded (h : link.Covered) :
    nodeLinkProtobufEncode link (nodeLinkProtobufEncodeSize link) = .ok (linkBytes link) := by
  have hpd := ptrdiffMax_lt
  have hle := linkBytes_length_le h.hash_le h.counted
  have hmem := h.room.memory
  exact (nodeLinkProtobufEncode_eq_ok (by omega)).2
    ⟨h.hash_le, rfl, (writable_iff_roomFor hmem hle).2 h.room⟩

theorem node_suffices_iff :
    Suffices (.ok (hashtableNodeProtobufEncodeSize node)) (hashtableNodeProtobufEncode node) ↔
      node.Covered := by
  have hpd := ptrdiffMax_lt
  have hdata : hashtableNodeProtobufEncodeSize node ≤ ptrdiffMax → node.data.length < 2 ^ 64 := by
    intro hmem
    unfold hashtableNodeProtobufEncodeSize at hmem
    split_ifs at hmem <;> omega
  have hencode (hlinks : ∀ link ∈ node.links, link.Covered)
      (hmem : hashtableNodeProtobufEncodeSize node ≤ ptrdiffMax) (room : Nat)
      (out : List UInt8) : hashtableNodeProtobufEncode node room = .ok out ↔
        out = nodeBytes node ∧ Writable (nodeItems node) room := by
    refine hashtableNodeProtobufEncode_eq_ok (hdata hmem) (fun link hl => ?_)
      fun link hl => (hlinks link hl).encoded
    have hlink := (hlinks link hl).room.memory
    have hle := linkBytes_length_le (hlinks link hl).hash_le (hlinks link hl).counted
    omega
  have hle (hlinks : ∀ link ∈ node.links, link.Covered) :
      (itemsBytes (nodeItems node)).length ≤ hashtableNodeProtobufEncodeSize node :=
    nodeBytes_length_le fun link hl =>
      linkBytes_length_le (hlinks link hl).hash_le (hlinks link hl).counted
  constructor
  · intro h
    obtain ⟨n, out, hn, hmem, hout, -⟩ := h
    cases hn
    have hlinks : ∀ link ∈ node.links, link.Covered := by
      intro link hl
      obtain ⟨room, field, hfield⟩ :=
        encodeAll_ok_of_mem hout (List.mem_append_left _ (List.mem_map_of_mem hl))
      obtain ⟨temp, htemp, -⟩ := bind_eq_ok.1 hfield
      have hsize := nodeLinkProtobufEncodeSize_le hl
      obtain ⟨rfl, hlength⟩ := nodeLinkProtobufEncode_ok htemp
      exact link_suffices_iff.1 ⟨_, _, rfl, by omega, htemp, hlength⟩
    have hwritable := ((hencode hlinks hmem _ _).1 hout).2
    exact ⟨hlinks, (writable_iff_roomFor hmem (hle hlinks)).1 hwritable⟩
  · intro h
    have hmem := h.room.memory
    have hwritable := (writable_iff_roomFor hmem (hle h.links)).2 h.room
    exact ⟨_, _, rfl, hmem, (hencode h.links hmem _ _).2 ⟨rfl, hwritable⟩, hle h.links⟩

/-! ## data sections, CIDs and blocks suffice -/

theorem unixfs_covers_iff : (unixfsBytes obj).length ≤ unixfsProtobufEncodeSize obj ↔
    unixfsVarints obj ≤ 23 + 10 * obj.blockSizes.length := by
  have h1 := varintField_length 1 .varint obj.dataType.toNat (by norm_num)
  have h2 : (itemsBytes (if 0 < obj.bytes.length then
      [Item.bytes 2 .lengthDelimited obj.bytes] else [])).length = obj.bytes.length +
        if 0 < obj.bytes.length then 1 + (varintBytes obj.bytes.length).length else 0 := by
    split
    · rw [itemsBytes_cons, itemsBytes_nil, List.append_nil, Item.enc_bytes,
        bytesField_length 2 _ _ (by norm_num)]
      omega
    · rw [itemsBytes_nil, List.length_nil]
      omega
  have h3 : (itemsBytes (if 0 < obj.fileSize.toNat then
      [Item.varint 3 .varint obj.fileSize.toNat] else [])).length =
        if 0 < obj.fileSize.toNat then 1 + (varintBytes obj.fileSize.toNat).length else 0 := by
    split
    · rw [itemsBytes_cons, itemsBytes_nil, List.append_nil, Item.enc_varint,
        varintField_length 3 _ _ (by norm_num)]
    · rw [itemsBytes_nil, List.length_nil]
  have h4 (sizes : List UInt64) : (itemsBytes (sizes.map fun blockSize =>
      Item.varint 4 .varint blockSize.toNat)).length = sizes.length +
        (sizes.map fun blockSize => (varintBytes blockSize.toNat).length).sum := by
    induction sizes with
    | nil => rfl
    | cons size sizes ih =>
      rw [List.map_cons, itemsBytes_cons, List.length_append, ih, Item.enc_varint,
        varintField_length 4 _ _ (by norm_num), List.map_cons, List.sum_cons, List.length_cons]
      omega
  have h4 := h4 obj.blockSizes
  unfold unixfsBytes unixfsItems unixfsProtobufEncodeSize unixfsVarints
  rw [itemsBytes_append, itemsBytes_append, itemsBytes_append, List.length_append,
    List.length_append, List.length_append, h2, h3, h4, itemsBytes_cons, itemsBytes_nil,
    List.append_nil, Item.enc_varint, h1]
  omega

theorem unixfs_suffices_iff :
    Suffices (.ok (unixfsProtobufEncodeSize obj)) (unixfsProtobufEncode obj) ↔ obj.Covered := by
  have hpd := ptrdiffMax_lt
  have hbytes : itemsBytes (unixfsItems obj) = unixfsBytes obj := rfl
  have hencode (hmem : unixfsProtobufEncodeSize obj ≤ ptrdiffMax) (out : List UInt8) :
      unixfsProtobufEncode obj (unixfsProtobufEncodeSize obj) = .ok out ↔ True ∧
        out = itemsBytes (unixfsItems obj) ∧
          Writable (unixfsItems obj) (unixfsProtobufEncodeSize obj) := by
    rw [true_and]
    exact encodeItems_eq_ok_of_lt (unixfsItems_wordSized obj) (by omega)
  rw [suffices_iff hencode, true_and, hbytes, unixfs_covers_iff]
  constructor
  · intro h
    exact ⟨h.1, h.2⟩
  · intro h
    exact ⟨h.varints, h.room⟩

/-- the CID of a size for which there is memory -/
theorem cidCovered_iff (hmem : cidProtobufEncodeSize cid ≤ ptrdiffMax) : CidCovered cid ↔
    ∀ c, cid = some c → Writable (cidItems c) (cidProtobufEncodeSize cid) := by
  have hle := cidBytes_length_le cid
  refine forall_congr' fun c => forall_congr' fun hc => ?_
  rw [writable_iff_roomFor hmem]
  rw [hc] at hle ⊢
  exact hle

theorem cid_suffices_iff :
    Suffices (.ok (cidProtobufEncodeSize cid)) (cidProtobufEncode cid) ↔ CidCovered cid := by
  have hpd := ptrdiffMax_lt
  have hle := cidBytes_length_le cid
  cases cid with
  | none =>
    have hnone : CidCovered none := fun c hc => nomatch hc
    exact ⟨fun _ => hnone, fun _ => ⟨0, [], rfl, Nat.zero_le _, rfl, Nat.le_refl 0⟩⟩
  | some c =>
    have hbytes : itemsBytes (cidItems c) = cidBytes (some c) := rfl
    have hencode (hmem : cidProtobufEncodeSize (some c) ≤ ptrdiffMax) (out : List UInt8) :
        cidProtobufEncode (some c) (cidProtobufEncodeSize (some c)) = .ok out ↔ True ∧
          out = itemsBytes (cidItems c) ∧ Writable (cidItems c) (cidProtobufEncodeSize (some c)) := by
      rw [true_and, hbytes]
      exact cidProtobufEncode_eq_ok (by omega)
    rw [suffices_iff hencode, true_and, hbytes]
    constructor
    · intro h c' hc
      obtain rfl := Option.some.inj hc
      exact h.2
    · intro h
      exact ⟨hle, h c rfl⟩

theorem block_suffices_iff :
    Suffices (.ok (blocksBlockProtobufEncodeSize block)) (blocksBlockProtobufEncode block) ↔
      block.Covered := by
  have hpd := ptrdiffMax_lt
  have hle := blockBytes_length_le block
  have hbytes : itemsBytes (blockItems block) = blockBytes block := rfl
  have hencode (hmem : blocksBlockProtobufEncodeSize block ≤ ptrdiffMax) (out : List UInt8) :
      blocksBlockProtobufEncode block (blocksBlockProtobufEncodeSize block) = .ok out ↔
        CidCovered block.cid ∧ out = itemsBytes (blockItems block) ∧
          Writable (blockItems block) (blocksBlockProtobufEncodeSize block) := by
    have hcid : cidProtobufEncodeSize block.cid ≤ ptrdiffMax := by
      unfold blocksBlockProtobufEncodeSize at hmem
      omega
    rw [blocksBlockProtobufEncode_eq_ok (by omega), cidCovered_iff hcid, hbytes]
    exact ⟨fun h => ⟨h.2.2, h.1, h.2.1⟩, fun h => ⟨h.2.1, h.2.2, h.1⟩⟩
  rw [suffices_iff hencode, hbytes]
  constructor
  · intro h
    exact ⟨h.1, h.2.2⟩
  · intro h
    exact ⟨h.cid, hle, h.room⟩

/-! ## messages of bitswap suffice -/

theorem want_suffices_iff :
    Suffices (wantlistEntryProtobufEncodeSize want.entry)
      (wantlistEntryProtobufEncode want.entry) ↔ want.Covered := by
  have hpd := ptrdiffMax_lt
  have hle : (itemsBytes want.items).length ≤ 33 + want.block.length :=
    le_trans want.bytes_length_le (by omega)
  have hsize : wantlistEntryProtobufEncodeSize want.entry = .ok (33 + want.block.length) := rfl
  have hencode (hmem : 33 + want.block.length ≤ ptrdiffMax) (out : List UInt8) :
      wantlistEntryProtobufEncode want.entry (33 + want.block.length) = .ok out ↔ True ∧
        out = itemsBytes want.items ∧ Writable want.items (33 + want.block.length) := by
    rw [true_and]
    exact encodeItems_eq_ok_of_lt want.items_wordSized (by omega)
  rw [hsize, suffices_iff hencode, true_and]
  exact ⟨fun h => h.2, fun h => ⟨hle, h⟩⟩

/-- the encoder of an entry reads all its fields -/
theorem stored_of_wantlistEntryProtobufEncode {size : Nat}
    (hsize : wantlistEntryProtobufEncodeSize entry = .ok size)
    (h : wantlistEntryProtobufEncode entry room = .ok out) : ∃ want : Want, entry = want.entry := by
  obtain ⟨e, he, -⟩ := bind_eq_ok.1 hsize
  obtain rfl := deref_eq_ok.1 he
  obtain ⟨block, hblock, h⟩ := bind_eq_ok.1 h
  obtain ⟨cancel, hcancel, h⟩ := bind_eq_ok.1 h
  obtain ⟨priority, hpriority, -⟩ := bind_eq_ok.1 h
  refine ⟨⟨block, cancel, priority⟩, ?_⟩
  unfold Want.entry
  rw [← stored_eq_ok.1 hblock, ← stored_eq_ok.1 hcancel, ← stored_eq_ok.1 hpriority]

theorem entry_suffices_iff :
    Suffices (wantlistEntryProtobufEncodeSize entry) (wantlistEntryProtobufEncode entry) ↔
      EntryCovered entry := by
  constructor
  · intro h
    have hs := h
    obtain ⟨size, out, hsize, -, hout, -⟩ := hs
    obtain ⟨want, rfl⟩ := stored_of_wantlistEntryProtobufEncode hsize hout
    exact ⟨want, rfl, want_suffices_iff.1 h⟩
  · intro h
    obtain ⟨want, rfl, hwant⟩ := h
    exact want_suffices_iff.2 hwant

/-- entries whose fields are all stored are those of the wants -/
theorem eq_map_entry {entries : List (Option WantlistEntry)}
    (h : ∀ entry ∈ entries, ∃ want : Want, entry = want.entry) :
    entries = (entries.reduceOption.map WantlistEntry.want).map Want.entry := by
  induction entries with
  | nil => rfl
  | cons entry entries ih =>
    obtain ⟨want, rfl⟩ := h entry List.mem_cons_self
    have hwant : want.entry = some { block := some want.block, cancel := some want.cancel,
                                     priority := some want.priority } := rfl
    rw [hwant, List.reduceOption_cons_of_some, List.map_cons, List.map_cons,
      ← ih fun e he => h e (List.mem_cons_of_mem _ he)]
    rfl

/-- the encoder of a want list follows its vector, and encodes all that is in it -/
theorem stored_of_wantlistProtobufEncode (h : wantlistProtobufEncode (some list) room = .ok out) :
    list.entries = some (list.wants.map Want.entry) := by
  obtain ⟨entries, hentries, h⟩ := bind_eq_ok.1 h
  have he := deref_eq_ok.1 hentries
  have hall : ∀ entry ∈ entries, ∃ want : Want, entry = want.entry := by
    intro entry hmem
    obtain ⟨room', field, hfield⟩ :=
      encodeAll_ok_of_mem h (List.mem_append_left _ (List.mem_map_of_mem hmem))
    obtain ⟨size, hsize, hfield⟩ := bind_eq_ok.1 hfield
    obtain ⟨temp, htemp, -⟩ := bind_eq_ok.1 hfield
    exact stored_of_wantlistEntryProtobufEncode hsize htemp
  unfold BitswapWantlist.wants
  rw [he, Option.getD_some, ← eq_map_entry hall]

/-- the size of a want that is in the list -/
theorem want_le_wantsSize (h : want ∈ list.wants) :
    33 + want.block.length ≤ wantsSize list.wants := by
  have hmem : 33 + want.block.length ∈ list.wants.map fun want => 33 + want.block.length :=
    List.mem_map_of_mem h
  have hsum := List.le_sum_of_mem hmem
  unfold wantsSize
  omega

theorem wants_covered_iff (hmem : wantsSize list.wants ≤ ptrdiffMax) :
    (∀ want ∈ list.wants, want.Covered) ↔
      ∀ want ∈ list.wants, Writable want.items (33 + want.block.length) := by
  refine forall_congr' fun want => forall_congr' fun hw => ?_
  have hsize := want_le_wantsSize hw
  exact (writable_iff_roomFor (by omega) (le_trans want.bytes_length_le (by omega))).symm

theorem wantlist_suffices_iff :
    Suffices (wantlistProtobufEncodeSize (some list)) (wantlistProtobufEncode (some list)) ↔
      list.Covered := by
  have hpd := ptrdiffMax_lt
  have hle := list.bytes_length_le
  have hbytes : itemsBytes list.items = list.bytes := rfl
  have hsuffices (hstored : list.entries = some (list.wants.map Want.entry)) :
      Suffices (wantlistProtobufEncodeSize (some list)) (wantlistProtobufEncode (some list)) ↔
        (∀ want ∈ list.wants, want.Covered) ∧ RoomFor list.items (wantsSize list.wants) := by
    have hgetD : list.entries.getD [] = list.wants.map Want.entry := by
      rw [hstored, Option.getD_some]
    have hne : list.entries ≠ none := by
      rw [hstored]
      exact Option.some_ne_none _
    have hencode (hmem : wantsSize list.wants ≤ ptrdiffMax) (out : List UInt8) :
        wantlistProtobufEncode (some list) (wantsSize list.wants) = .ok out ↔
          (∀ want ∈ list.wants, want.Covered) ∧ out = itemsBytes list.items ∧
            Writable list.items (wantsSize list.wants) := by
      rw [wantlistProtobufEncode_eq_ok (by omega) hgetD, wants_covered_iff hmem, hbytes]
      exact ⟨fun h => h.2, fun h => ⟨hne, h⟩⟩
    rw [(wantlistProtobufEncodeSize_eq_ok hgetD).2 ⟨hne, rfl⟩, suffices_iff hencode, hbytes]
    exact ⟨fun h => ⟨h.1, h.2.2⟩, fun h => ⟨h.1, by omega, h.2⟩⟩
  constructor
  · intro h
    have hs := h
    obtain ⟨size, out, -, -, hout, -⟩ := hs
    have hstored := stored_of_wantlistProtobufEncode hout
    obtain ⟨hwants, hroom⟩ := (hsuffices hstored).1 h
    exact ⟨hstored, hwants, hroom⟩
  · intro h
    exact (hsuffices h.entries).2 ⟨h.wants, h.room⟩

theorem bitswapBlock_suffices_iff {block : Option BitswapBlock} :
    Suffices (bitswapMessageBlockProtobufSize block) (bitswapMessageBlockProtobufEncode block) ↔
      BitswapBlockCovered block := by
  have hle (blockPrefix bytes : List UInt8) :
      (itemsBytes (bitswapBlockItems blockPrefix bytes)).length ≤
        33 + blockPrefix.length + bytes.length := by
    have h1 := bytesField_length_le 1 .lengthDelimited blockPrefix (by norm_num)
    have h2 := bytesField_length_le 2 .lengthDelimited bytes (by norm_num)
    rw [itemsBytes_bitswapBlockItems, bitswapBlockBytes, List.length_append]
    omega
  have hsuffices (blockPrefix bytes : List UInt8) :
      Suffices (bitswapMessageBlockProtobufSize (some ⟨some blockPrefix, some bytes⟩))
        (bitswapMessageBlockProtobufEncode (some ⟨some blockPrefix, some bytes⟩)) ↔
          RoomFor (bitswapBlockItems blockPrefix bytes)
            (33 + blockPrefix.length + bytes.length) := by
    have hsize : bitswapMessageBlockProtobufSize (some ⟨some blockPrefix, some bytes⟩) =
        .ok (33 + blockPrefix.length + bytes.length) := rfl
    have hencode (hmem : 33 + blockPrefix.length + bytes.length ≤ ptrdiffMax)
        (out : List UInt8) :
        bitswapMessageBlockProtobufEncode (some ⟨some blockPrefix, some bytes⟩)
            (33 + blockPrefix.length + bytes.length) = .ok out ↔
          True ∧ out = itemsBytes (bitswapBlockItems blockPrefix bytes) ∧
            Writable (bitswapBlockItems blockPrefix bytes)
              (33 + blockPrefix.length + bytes.length) := by
      rw [true_and]
      exact encodeItems_eq_ok (bitswapBlockItems_object hmem)
    rw [hsize, suffices_iff hencode, true_and]
    exact ⟨fun h => h.2, fun h => ⟨hle blockPrefix bytes, h⟩⟩
  constructor
  · intro h
    have hs := h
    obtain ⟨size, out, hsize, -⟩ := hs
    obtain ⟨b, hb, hsize⟩ := bind_eq_ok.1 hsize
    obtain ⟨blockPrefix, hprefix, hsize⟩ := bind_eq_ok.1 hsize
    obtain ⟨bytes, hbytes, -⟩ := bind_eq_ok.1 hsize
    have heq : block = some ⟨some blockPrefix, some bytes⟩ := by
      rw [deref_eq_ok.1 hb, ← stored_eq_ok.1 hprefix, ← stored_eq_ok.1 hbytes]
    subst heq
    exact ⟨blockPrefix, bytes, rfl, (hsuffices blockPrefix bytes).1 h⟩
  · intro h
    obtain ⟨blockPrefix, bytes, rfl, hroom⟩ := h
    exact (hsuffices blockPrefix bytes).2 hroom

/-- the sizes of what a message nests -/
theorem block_le_messageSize (h : block ∈ message.sent) :
    blocksBlockProtobufEncodeSize block ≤ message.size := by
  have hmem : 11 + blocksBlockProtobufEncodeSize block ∈
      message.sent.map fun block => 11 + blocksBlockProtobufEncodeSize block :=
    List.mem_map_of_mem h
  have hsum := List.le_sum_of_mem hmem
  unfold BitswapMessage.size
  omega

theorem wantsSize_le_messageSize (h : message.wantlist = some list) :
    wantsSize list.wants ≤ message.size := by
  unfold BitswapMessage.size
  rw [h, Option.toList_some, List.map_singleton, List.sum_singleton]
  omega

theorem Block.Covered.encoded (h : block.Covered) :
    blocksBlockProtobufEncode block (blocksBlockProtobufEncodeSize block) =
      .ok (blockBytes block) := by
  have hpd := ptrdiffMax_lt
  have hle := blockBytes_length_le block
  obtain ⟨n, out, hn, hmem, hout, -⟩ := block_suffices_iff.2 h
  cases hn
  rw [hout, ((blocksBlockProtobufEncode_eq_ok (by omega)).1 hout).1]

theorem BitswapWantlist.Covered.written (h : list.Covered) : list.Written := by
  have hpd := ptrdiffMax_lt
  have hle := list.bytes_length_le
  have hgetD : list.entries.getD [] = list.wants.map Want.entry := by
    rw [h.entries, Option.getD_some]
  obtain ⟨n, out, hn, hmem, hout, -⟩ := wantlist_suffices_iff.2 h
  obtain ⟨-, rfl⟩ := (wantlistProtobufEncodeSize_eq_ok hgetD).1 hn
  obtain ⟨-, -, rfl, -⟩ := (wantlistProtobufEncode_eq_ok (by omega) hgetD).1 hout
  exact ⟨hn, hout⟩

/-- what is nested is covered when the encoder of a message succeeds -/
theorem covered_of_bitswapMessageProtobufEncode (hmem : message.size ≤ ptrdiffMax)
    (h : bitswapMessageProtobufEncode message room = .ok out) :
    (∀ block ∈ message.sent, block.Covered) ∧
      ∀ list, message.wantlist = some list → list.Covered := by
  have hpd := ptrdiffMax_lt
  constructor
  · intro block hb
    have hsize := block_le_messageSize hb
    have hle := blockBytes_length_le block
    obtain ⟨room', field, hfield⟩ := encodeAll_ok_of_mem h
      (List.mem_append_left _ (List.mem_append_right _ (List.mem_map_of_mem hb)))
    have hblock := encodeBlockField_ok (by omega) hfield
    exact block_suffices_iff.1 ⟨_, _, rfl, by omega, hblock, hle⟩
  · intro list hl
    have hsize := wantsSize_le_messageSize hl
    have hle := list.bytes_length_le
    obtain ⟨room', field, hfield⟩ := encodeAll_ok_of_mem h
      (List.mem_append_right _ (List.mem_map_of_mem (Option.mem_toList.2 hl)))
    obtain ⟨n, hn, hfield'⟩ := bind_eq_ok.1 hfield
    obtain ⟨temp, htemp, -⟩ := bind_eq_ok.1 hfield'
    have hgetD : list.entries.getD [] = list.wants.map Want.entry := by
      rw [stored_of_wantlistProtobufEncode htemp, Option.getD_some]
    obtain ⟨hwsize, hwritten⟩ := written_of_encodeWantlistField (by omega) hgetD hfield
    exact wantlist_suffices_iff.1 ⟨_, _, hwsize, by omega, hwritten, by omega⟩

/-- the size of a message is computed when that of its want list is -/
theorem size_of_bitswapMessageProtobufEncode {size : Nat}
    (hsize : bitswapMessageProtobufEncodeSize message = .ok size)
    (h : bitswapMessageProtobufEncode message room = .ok out) : size = message.size := by
  refine ((bitswapMessageProtobufEncodeSize_eq_ok ?_).1 hsize).2
  intro list hl
  obtain ⟨room', field, hfield⟩ := encodeAll_ok_of_mem h
    (List.mem_append_right _ (List.mem_map_of_mem (Option.mem_toList.2 hl)))
  obtain ⟨n, hn, hfield⟩ := bind_eq_ok.1 hfield
  obtain ⟨temp, htemp, -⟩ := bind_eq_ok.1 hfield
  rw [stored_of_wantlistProtobufEncode htemp, Option.getD_some]

theorem bitswapMessage_suffices_iff :
    Suffices (bitswapMessageProtobufEncodeSize message) (bitswapMessageProtobufEncode message) ↔
      message.Covered := by
  have hpd := ptrdiffMax_lt
  have hle := message.bytes_length_le
  have hencode (hmem : message.size ≤ ptrdiffMax)
      (hsent : ∀ block ∈ message.sent, block.Covered)
      (hlist : ∀ list, message.wantlist = some list → list.Covered) (out : List UInt8) :
      bitswapMessageProtobufEncode message message.size = .ok out ↔
        out = message.bytes ∧ RoomFor message.items message.size := by
    rw [← writable_iff_roomFor hmem hle]
    exact bitswapMessageProtobufEncode_eq_ok (by omega)
      (fun block hb => (hsent block hb).encoded) fun list hl => (hlist list hl).written
  constructor
  · intro h
    obtain ⟨size, out, hsize, hmem, hout, -⟩ := h
    obtain rfl := size_of_bitswapMessageProtobufEncode hsize hout
    obtain ⟨hsent, hlist⟩ := covered_of_bitswapMessageProtobufEncode hmem hout
    exact ⟨hsent, hlist, ((hencode hmem hsent hlist _).1 hout).2⟩
  · intro h
    have hmem := h.room.memory
    refine ⟨message.size, message.bytes, ?_, hmem,
      (hencode hmem h.sent h.wantlist _).2 ⟨rfl, h.room⟩, hle⟩
    refine (bitswapMessageProtobufEncodeSize_eq_ok fun list hl => ?_).2
      ⟨fun list hl => ?_, rfl⟩
    · rw [(h.wantlist list hl).entries, Option.getD_some]
    · rw [(h.wantlist list hl).entries]
      exact Option.some_ne_none _

/-! ## the journal suffices -/

/-- an array of an `int` of bytes: its size is one that there is memory for -/
theorem suffices_stackArray_iff {size : Exec Int} {encode : Nat → Exec (List UInt8)}
    (hint : ∀ n, size = .ok n → n < 2 ^ 31)
    (hlength : ∀ room out, encode room = .ok out → out.length ≤ room) :
    Suffices (size >>= stackArray) encode ↔
      ∃ out n room, size = .ok n ∧ stackArray n = .ok room ∧ encode room = .ok out := by
  constructor
  · intro h
    obtain ⟨room, out, hsize, -, hout, -⟩ := h
    obtain ⟨n, hn, harray⟩ := bind_eq_ok.1 hsize
    exact ⟨out, n, room, hn, harray, hout⟩
  · intro h
    obtain ⟨out, n, room, hn, harray, hout⟩ := h
    have hlt := hint n hn
    have hroom := (stackArray_eq_ok.1 harray).2
    refine ⟨room, out, bind_eq_ok.2 ⟨n, hn, harray⟩, ?_, hout, hlength room out hout⟩
    unfold ptrdiffMax
    omega

theorem journalEntry_suffices_iff {entry : JournalEntry} :
    Suffices (journalEntryEncodeSize entry >>= stackArray) (journalEntryEncode entry) ↔
      journalEntryEstimate entry < 2 ^ 31 := by
  have hlength (room : Nat) (out : List UInt8) (h : journalEntryEncode entry room = .ok out) :
      out.length ≤ room := by
    obtain ⟨rfl, hle⟩ := (writes_journalEntryEncode entry).exact _ _ h
    exact hle
  rw [suffices_stackArray_iff (fun n hn => (journalEntryEncodeSize_ok hn).2) hlength]
  simp only [journalEntry_encoded_iff]
  exact ⟨fun h => h.choose_spec.1, fun h => ⟨_, h, rfl⟩⟩

theorem JournalMessage.estimated_iff {message : JournalMessage} :
    message.Estimated ↔ message.Covered := by
  constructor
  · intro h
    exact ⟨h.isInt, journalMessage_covers_iff.1 h.covers⟩
  · intro h
    exact ⟨h.isInt, journalMessage_covers_iff.2 h.varints⟩

theorem journalMessage_suffices_iff {message : JournalMessage} :
    Suffices (journalMessageEncodeSize message >>= stackArray) (journalMessageEncode message) ↔
      message.Covered := by
  have hlength (room : Nat) (out : List UInt8) (h : journalMessageEncode message room = .ok out) :
      out.length ≤ room := by
    obtain ⟨rfl, hle⟩ := journalMessageEncode_ok h
    exact hle
  rw [suffices_stackArray_iff (fun n hn => journalMessageEncodeSize_lt hn) hlength,
    ← JournalMessage.estimated_iff]
  simp only [journalMessage_encoded_iff]
  exact ⟨fun h => h.choose_spec.1, fun h => ⟨_, h, rfl⟩⟩

end

/-! ## the sizes suffice -/

/-- **when the computed size suffices**: for a link, a node, an object, a CID and a block; for an
entry, a want list, a block and a message of bitswap; for an entry and a message of the journal; and
for a message of the DHT and a peer -/
theorem encodeSizes_suffice_iff (link : NodeLink) (node : HashtableNode) (obj : UnixFS)
    (cid : Option Cid) (block : Block) (entry : Option WantlistEntry) (list : BitswapWantlist)
    (bitswapBlock : Option BitswapBlock) (bitswapMessage : BitswapMessage)
    (journalEntry : JournalEntry) (journalMessage : JournalMessage) (msg : DhtMessage)
    (peer : GivenOrNull) :
    (Suffices (.ok (nodeLinkProtobufEncodeSize link)) (nodeLinkProtobufEncode link) ↔
      link.Covered) ∧
    (Suffices (.ok (hashtableNodeProtobufEncodeSize node)) (hashtableNodeProtobufEncode node) ↔
      node.Covered) ∧
    (Suffices (.ok (unixfsProtobufEncodeSize obj)) (unixfsProtobufEncode obj) ↔ obj.Covered) ∧
    (Suffices (.ok (cidProtobufEncodeSize cid)) (cidProtobufEncode cid) ↔ CidCovered cid) ∧
    (Suffices (.ok (blocksBlockProtobufEncodeSize block)) (blocksBlockProtobufEncode block) ↔
      block.Covered) ∧
    (Suffices (wantlistEntryProtobufEncodeSize entry) (wantlistEntryProtobufEncode entry) ↔
      EntryCovered entry) ∧
    (Suffices (wantlistProtobufEncodeSize (some list)) (wantlistProtobufEncode (some list)) ↔
      list.Covered) ∧
    (Suffices (bitswapMessageBlockProtobufSize bitswapBlock)
      (bitswapMessageBlockProtobufEncode bitswapBlock) ↔ BitswapBlockCovered bitswapBlock) ∧
    (Suffices (bitswapMessageProtobufEncodeSize bitswapMessage)
      (bitswapMessageProtobufEncode bitswapMessage) ↔ bitswapMessage.Covered) ∧
    (Suffices (journalEntryEncodeSize journalEntry >>= stackArray)
      (journalEntryEncode journalEntry) ↔ journalEntryEstimate journalEntry < 2 ^ 31) ∧
    (Suffices (journalMessageEncodeSize journalMessage >>= stackArray)
      (journalMessageEncode journalMessage) ↔ journalMessage.Covered) ∧
    (Suffices (.ok (messageProtobufEncodeSize msg)) (orFault (messageProtobufEncode msg)) ↔
      msg.Covered) ∧
    (Suffices (.ok (peerProtobufEncodeSize peer)) (peerProtobufEncode peer) ↔ peer.Covered) :=
  ⟨link_suffices_iff, node_suffices_iff, unixfs_suffices_iff, cid_suffices_iff,
    block_suffices_iff, entry_suffices_iff, wantlist_suffices_iff, bitswapBlock_suffices_iff,
    bitswapMessage_suffices_iff, journalEntry_suffices_iff, journalMessage_suffices_iff,
    message_suffices_iff, peer_suffices_iff⟩

/-- a link without hash, name and size: its size is 0, and two bytes are written -/
theorem not_link_suffices : ¬ ∀ link : NodeLink, link.hash.length ≤ 127 →
    nodeLinkProtobufEncodeSize link ≤ ptrdiffMax →
    Suffices (.ok (nodeLinkProtobufEncodeSize link)) (nodeLinkProtobufEncode link) := by
  intro hall
  have hempty := link_suffices_iff.1 (hall {} (Nat.zero_le _) (Nat.zero_le _))
  have hcounted := hempty.counted
  exact absurd hcounted (by decide)

end Ipfs
