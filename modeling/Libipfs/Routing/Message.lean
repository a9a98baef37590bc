import Libipfs.Libp2p.KnownPeers
import Libipfs.Libp2p.Record
import Libipfs.Protobuf.Large
import Mathlib.Algebra.Order.BigOperators.Group.List

/-!
# Kademlia messages as the handlers see them

The decoder of `message.c` once more, with every address made into a multiaddress as it is read,
and the encoder, which a reply goes through.

* `kademliaDecode`   the decoder, `none` when it returns 0;
* `peerProtobufEncode`, `recordProtobufEncode`, `messageProtobufEncode`   the encoders, the last
                     with a buffer of its own for each part, of the size that is estimated for it;
* `messageItems`, `messageBytes`   what a message is encoded to;
* `messageProtobufEncode_eq_some`   **when a message is encoded**, however large it is;
* `messageProtobufEncode_eq`   in particular when the estimate is an `int`.
-/

namespace Libp2p
open CSem

/-! ## messages -/

/-- `key` and `record` may be null -/
structure DhtMessage where
  messageType : UInt32 := 5
  key : Option (List UInt8) := none
  record : Option Record := none
  closerPeers : List GivenOrNull := []
  providerPeers : List GivenOrNull := []
  clusterLevelRaw : UInt32 := 0
  deriving DecidableEq, Repr

/-- the bytes of the key; a null pointer comes with the size 0 -/
def DhtMessage.keyBytes (msg : DhtMessage) : List UInt8 := msg.key.getD []

/-- an address that can not be converted is a null item -/
def dhtPeerFields (fieldNo : Int) : FieldCase GivenOrNull :=
  match fieldNo with
  | 1 => .bytes fun d peer => .ok (some { peer with id := d })
  | 2 => .bytes fun d peer => do
    let address ← multiaddressNewFromBytes d
    .ok (some { peer with addrs := peer.addrs ++ [address] })
  | 3 => .varint fun v peer => .ok (some { peer with connectionType := UInt32.ofNat v })
  | _ => .skip

def dhtMessageFields (fieldNo : Int) : FieldCase DhtMessage :=
  if fieldNo < 1 ∨ 10 < fieldNo then .reject
  else match fieldNo with
  | 1 => .varint fun v msg => .ok (some { msg with messageType := UInt32.ofNat v })
  | 2 => .bytes fun d msg => .ok (some { msg with key := some d })
  | 3 => .bytes fun d msg => do
    match ← recordProtobufDecode d with
    | none => .ok none
    | some record => .ok (some { msg with record := some record })
  | 8 => .bytes fun d msg => do
    match ← decodeFields dhtPeerFields d {} with
    | none => .ok none
    | some peer => .ok (some { msg with closerPeers := msg.closerPeers ++ [peer] })
  | 9 => .bytes fun d msg => do
    match ← decodeFields dhtPeerFields d {} with
    | none => .ok none
    | some peer => .ok (some { msg with providerPeers := msg.providerPeers ++ [peer] })
  | 10 => .varint fun v msg => .ok (some { msg with clusterLevelRaw := UInt32.ofNat v })
  | _ => .skip

def kademliaDecode (buf : List UInt8) : Exec (Option DhtMessage) :=
  decodeFields dhtMessageFields buf {}

/-! ## encoding -/

/-- the addresses of a peer that are not null -/
def PeerWith.given (peer : GivenOrNull) : List Multiaddress := peer.addrs.filterMap fun addr => addr

/-- the sum is an `int`: it is cut down to one at each address -/
def peerProtobufEncodeSize (peer : GivenOrNull) : Nat :=
  toUInt64 (peer.given.foldl (fun sz addr => toInt32 (sz + (11 + addr.1.length : Nat)))
    (toInt32 (11 + peer.id.length + 11 : Nat)))

def peerProtobufEncode (peer : GivenOrNull) : Nat → Exec (List UInt8) :=
  encodeAll
    (protobufEncodeLengthDelimited 1 .lengthDelimited peer.id ::
      (peer.given.map fun addr => protobufEncodeLengthDelimited 2 .lengthDelimited addr.1) ++
      [protobufEncodeVarint 3 .varint peer.connectionType.toNat])

def recordProtobufEncodeSize (record : Record) : Nat :=
  11 + record.keySize + (11 + record.value.length) + (11 + record.author.length) +
    (11 + record.signature.length) + (11 + record.timeReceived.length)

/-- as much of the key as its size says -/
def recordProtobufEncode (record : Record) : Nat → Exec (List UInt8) :=
  encodeAll
    [protobufEncodeLengthDelimited 1 .lengthDelimited ((record.key.getD []).take record.keySize),
     protobufEncodeLengthDelimited 2 .lengthDelimited record.value,
     protobufEncodeLengthDelimited 3 .lengthDelimited record.author,
     protobufEncodeLengthDelimited 4 .lengthDelimited record.signature,
     protobufEncodeLengthDelimited 5 .lengthDelimited record.timeReceived]

/-- `none` when it returns 0, as when there is no memory -/
def recordProtobufAllocateAndEncode (record : Record) : Exec (Option (List UInt8)) :=
  if ptrdiffMax < recordProtobufEncodeSize record then .ok none
  else always (recordProtobufEncode record) (recordProtobufEncodeSize record)

/-- a `size_t`, as those of the peers are -/
def messageProtobufEncodeSize (msg : DhtMessage) : Nat :=
  toUInt64 (11 + 11 + (msg.keyBytes.length + 11) +
    (11 + (msg.record.map recordProtobufEncodeSize).getD 0) +
    (msg.closerPeers.map fun peer => 11 + peerProtobufEncodeSize peer).sum +
    (msg.providerPeers.map fun peer => 11 + peerProtobufEncodeSize peer).sum : Nat)

/-- a record is encoded into a buffer of its own, and this into the message -/
def encodeRecordField (record : Record) (room : Nat) : Exec (List UInt8) := do
  require .null (recordProtobufEncodeSize record ≤ ptrdiffMax)
  let protobuf ← recordProtobufEncode record (recordProtobufEncodeSize record)
  protobufEncodeLengthDelimited 3 .lengthDelimited protobuf room

/-- so is a peer, but when there is no memory for it the encoder returns 0 -/
def encodePeerField (fieldNumber : Nat) (peer : GivenOrNull) (room : Nat) :
    Exec (Option (List UInt8)) :=
  if ptrdiffMax < peerProtobufEncodeSize peer then .ok none
  else do
    let protobuf ← peerProtobufEncode peer (peerProtobufEncodeSize peer)
    always (protobufEncodeLengthDelimited fieldNumber .lengthDelimited protobuf) room

/-- the level is an `int32_t` -/
def levelNum (level : UInt32) : Nat := toUInt64 (toInt32 level.toNat)

/-- a call for each field -/
def messageEncoders (msg : DhtMessage) : List (Nat → Exec (Option (List UInt8))) :=
  [always (protobufEncodeVarint 1 .varint msg.messageType.toNat)] ++
    (msg.key.toList.map fun key =>
      always (protobufEncodeLengthDelimited 2 .lengthDelimited key)) ++
    (msg.record.toList.map fun record => always (encodeRecordField record)) ++
    (msg.closerPeers.map fun peer => encodePeerField 8 peer) ++
    (msg.providerPeers.map fun peer => encodePeerField 9 peer) ++
    [always (protobufEncodeVarint 10 .varint (levelNum msg.clusterLevelRaw))]

/-- `none` when the encoder returns 0 -/
def messageProtobufEncode (msg : DhtMessage) : Nat → Exec (Option (List UInt8)) :=
  encodeUntil (messageEncoders msg)

/-- so is a whole message -/
def messageProtobufAllocateAndEncode (msg : DhtMessage) : Exec (Option (List UInt8)) :=
  if ptrdiffMax < messageProtobufEncodeSize msg then .ok none
  else messageProtobufEncode msg (messageProtobufEncodeSize msg)

/-! ## the bytes -/

def peerBytes (peer : GivenOrNull) : List UInt8 :=
  bytesField 1 .lengthDelimited peer.id ++
    (peer.given.flatMap fun addr => bytesField 2 .lengthDelimited addr.1) ++
    varintField 3 .varint peer.connectionType.toNat

def recordBytesOf (record : Record) : List UInt8 :=
  bytesField 1 .lengthDelimited ((record.key.getD []).take record.keySize) ++
    bytesField 2 .lengthDelimited record.value ++ bytesField 3 .lengthDelimited record.author ++
    bytesField 4 .lengthDelimited record.signature ++
    bytesField 5 .lengthDelimited record.timeReceived

def messageBytes (msg : DhtMessage) : List UInt8 :=
  varintField 1 .varint msg.messageType.toNat ++
    (msg.key.toList.flatMap fun key => bytesField 2 .lengthDelimited key) ++
    (msg.record.toList.flatMap fun record =>
      bytesField 3 .lengthDelimited (recordBytesOf record)) ++
    (msg.closerPeers.flatMap fun peer => bytesField 8 .lengthDelimited (peerBytes peer)) ++
    (msg.providerPeers.flatMap fun peer => bytesField 9 .lengthDelimited (peerBytes peer)) ++
    varintField 10 .varint (levelNum msg.clusterLevelRaw)

/-! ## the fields -/

def peerItems (peer : GivenOrNull) : List Item :=
  .bytes 1 .lengthDelimited peer.id ::
    (peer.given.map fun addr => .bytes 2 .lengthDelimited addr.1) ++
    [.varint 3 .varint peer.connectionType.toNat]

def recordItems (record : Record) : List Item :=
  [.bytes 1 .lengthDelimited ((record.key.getD []).take record.keySize),
   .bytes 2 .lengthDelimited record.value,
   .bytes 3 .lengthDelimited record.author,
   .bytes 4 .lengthDelimited record.signature,
   .bytes 5 .lengthDelimited record.timeReceived]

def messageItems (msg : DhtMessage) : List Item :=
  [.varint 1 .varint msg.messageType.toNat] ++
    (msg.key.toList.map fun key => .bytes 2 .lengthDelimited key) ++
    (msg.record.toList.map fun record => .bytes 3 .lengthDelimited (recordBytesOf record)) ++
    (msg.closerPeers.map fun peer => .bytes 8 .lengthDelimited (peerBytes peer)) ++
    (msg.providerPeers.map fun peer => .bytes 9 .lengthDelimited (peerBytes peer)) ++
    [.varint 10 .varint (levelNum msg.clusterLevelRaw)]

/-! ## what the sizes come to -/

def peerEstimate (peer : GivenOrNull) : Nat :=
  11 + peer.id.length + 11 + (peer.given.map fun addr => 11 + addr.1.length).sum

/-- the size of a message if no sum of a peer overflows -/
def messageEstimate (msg : DhtMessage) : Nat :=
  11 + 11 + (msg.keyBytes.length + 11) +
    (11 + (msg.record.map recordProtobufEncodeSize).getD 0) +
    (msg.closerPeers.map fun peer => 11 + peerEstimate peer).sum +
    (msg.providerPeers.map fun peer => 11 + peerEstimate peer).sum

/-! ## a message is encoded -/

section
variable {α : Type} {l : List α}

/-- as long as the estimates of the parts -/
theorem length_flatMap_le_sum {g : α → List UInt8} {n : α → Nat}
    (h : ∀ a ∈ l, (g a).length ≤ n a) : (l.flatMap g).length ≤ (l.map n).sum := by
  rw [List.length_flatMap]
  exact List.sum_le_sum h

theorem itemsBytes_map (g : α → Item) : itemsBytes (l.map g) = l.flatMap fun a => (g a).enc :=
  List.flatMap_map g Item.enc l

end

/-- a record for which there is memory, and each of whose sizes fits there -/
def Record.Encoded (record : Record) : Prop :=
  recordProtobufEncodeSize record ≤ ptrdiffMax ∧
    Writable (recordItems record) (recordProtobufEncodeSize record)

def PeerWith.Encoded (peer : GivenOrNull) : Prop :=
  peerProtobufEncodeSize peer ≤ ptrdiffMax ∧
    Writable (peerItems peer) (peerProtobufEncodeSize peer)

structure DhtMessage.PartsEncoded (msg : DhtMessage) : Prop where
  record : ∀ record, msg.record = some record → record.Encoded
  closerPeers : ∀ peer ∈ msg.closerPeers, peer.Encoded
  providerPeers : ∀ peer ∈ msg.providerPeers, peer.Encoded

section
variable {peer : GivenOrNull} {record : Record} {msg : DhtMessage} {room : Nat}
  {out : List UInt8}

theorem uint32_toNat_lt (x : UInt32) : x.toNat < 2 ^ 64 :=
  Nat.lt_trans x.toNat_lt (by decide)

theorem levelNum_lt (level : UInt32) : levelNum level < 2 ^ 64 := toUInt64_lt _

/-! ### peers -/

theorem peerBytes_eq (peer : GivenOrNull) : peerBytes peer = itemsBytes (peerItems peer) := by
  unfold peerItems
  rw [itemsBytes_append, itemsBytes_cons, itemsBytes_map, itemsBytes_cons, itemsBytes_nil,
    List.append_nil]
  rfl

theorem peerItems_wordSized (peer : GivenOrNull) : ∀ i ∈ peerItems peer, i.WordSized := by
  intro i hi
  unfold peerItems at hi
  simp only [List.cons_append, List.mem_cons, List.mem_append, List.mem_map, List.not_mem_nil,
    or_false] at hi
  obtain rfl | ⟨addr, -, rfl⟩ | rfl := hi
  · show 1 < 16
    decide
  · show 2 < 16
    decide
  · exact ⟨by decide, uint32_toNat_lt _⟩

theorem peerProtobufEncode_items (peer : GivenOrNull) :
    peerProtobufEncode peer = encodeItems (peerItems peer) := by
  unfold peerProtobufEncode encodeItems peerItems
  rw [List.map_append, List.map_cons, List.map_map]
  rfl

theorem peerProtobufEncode_eq_ok (hroom : room < 2 ^ 64) :
    peerProtobufEncode peer room = .ok out ↔
      out = peerBytes peer ∧ Writable (peerItems peer) room := by
  rw [peerProtobufEncode_items, peerBytes_eq]
  exact encodeItems_eq_ok_of_lt (peerItems_wordSized peer) hroom

/-- the sum wraps around, however it is cut down on the way -/
theorem peerProtobufEncodeSize_eq (peer : GivenOrNull) :
    peerProtobufEncodeSize peer = toUInt64 (toInt32 (peerEstimate peer)) := by
  have hfold : ∀ (addrs : List Multiaddress) (n : Nat),
      addrs.foldl (fun sz addr => toInt32 (sz + (11 + addr.1.length : Nat))) (toInt32 n) =
        toInt32 (n + (addrs.map fun addr => 11 + addr.1.length).sum : Nat) := by
    intro addrs
    induction addrs with
    | nil =>
      intro n
      rw [List.foldl_nil, List.map_nil, List.sum_nil, Nat.add_zero]
    | cons addr addrs ih =>
      intro n
      have hwrap : toInt32 (toInt32 n + (11 + addr.1.length : Nat)) =
          toInt32 (n + (11 + addr.1.length) : Nat) := by
        unfold toInt32
        rw [Int.bmod_add_bmod, Nat.cast_add n]
      rw [List.foldl_cons, hwrap, ih, List.map_cons, List.sum_cons, Nat.add_assoc]
  unfold peerProtobufEncodeSize peerEstimate
  rw [hfold]

theorem peerProtobufEncodeSize_of_lt (h : peerEstimate peer < 2 ^ 31) :
    peerProtobufEncodeSize peer = peerEstimate peer := by
  rw [peerProtobufEncodeSize_eq, toInt32_natCast_of_lt h, toUInt64_natCast_of_lt (by omega)]

theorem peerBytes_length_le : (peerBytes peer).length ≤ peerEstimate peer := by
  have hid := bytesField_length_le 1 .lengthDelimited peer.id (by decide)
  have haddrs : (peer.given.flatMap fun addr => bytesField 2 .lengthDelimited addr.1).length ≤
      (peer.given.map fun addr => 11 + addr.1.length).sum :=
    length_flatMap_le_sum fun addr _ => bytesField_length_le 2 .lengthDelimited addr.1 (by decide)
  have htype := varintField_length_le_eleven 3 .varint peer.connectionType.toNat (by decide)
  unfold peerBytes peerEstimate
  rw [List.length_append, List.length_append]
  omega

theorem PeerWith.encoded_of_lt (h : peerEstimate peer < 2 ^ 31) : peer.Encoded := by
  have hle := @peerBytes_length_le peer
  rw [peerBytes_eq] at hle
  unfold PeerWith.Encoded
  rw [peerProtobufEncodeSize_of_lt h]
  refine ⟨?_, writable_of_lt (peerItems_wordSized peer) hle h⟩
  unfold ptrdiffMax
  omega

/-! ### records -/

theorem recordBytesOf_eq (record : Record) :
    recordBytesOf record = itemsBytes (recordItems record) := by
  unfold recordItems recordBytesOf
  simp only [itemsBytes_cons, itemsBytes_nil, Item.enc_bytes, List.append_nil, List.append_assoc]

theorem recordItems_wordSized (record : Record) : ∀ i ∈ recordItems record, i.WordSized := by
  intro i hi
  unfold recordItems at hi
  simp only [List.mem_cons, List.not_mem_nil, or_false] at hi
  obtain rfl | rfl | rfl | rfl | rfl := hi
  · show 1 < 16
    decide
  · show 2 < 16
    decide
  · show 3 < 16
    decide
  · show 4 < 16
    decide
  · show 5 < 16
    decide

theorem recordProtobufEncode_eq_ok (hroom : room < 2 ^ 64) :
    recordProtobufEncode record room = .ok out ↔
      out = recordBytesOf record ∧ Writable (recordItems record) room := by
  rw [recordBytesOf_eq]
  exact encodeItems_eq_ok_of_lt (recordItems_wordSized record) hroom

theorem recordBytesOf_length_le :
    (recordBytesOf record).length ≤ recordProtobufEncodeSize record := by
  have hkey := bytesField_length_le 1 .lengthDelimited
    ((record.key.getD []).take record.keySize) (by decide)
  have htake := List.length_take_le record.keySize (record.key.getD [])
  have hvalue := bytesField_length_le 2 .lengthDelimited record.value (by decide)
  have hauthor := bytesField_length_le 3 .lengthDelimited record.author (by decide)
  have hsignature := bytesField_length_le 4 .lengthDelimited record.signature (by decide)
  have htime := bytesField_length_le 5 .lengthDelimited record.timeReceived (by decide)
  unfold recordBytesOf recordProtobufEncodeSize
  simp only [List.length_append]
  omega

theorem Record.encoded_of_lt (h : recordProtobufEncodeSize record < 2 ^ 31) : record.Encoded := by
  have hle := @recordBytesOf_length_le record
  rw [recordBytesOf_eq] at hle
  refine ⟨?_, writable_of_lt (recordItems_wordSized record) hle h⟩
  unfold ptrdiffMax
  omega

/-! ### parts of a message -/

theorem encodeRecordField_eq (h : record.Encoded) :
    encodeRecordField record =
      protobufEncodeLengthDelimited 3 .lengthDelimited (recordBytesOf record) := by
  have hpd := ptrdiffMax_lt
  have hmem := h.1
  funext room
  unfold encodeRecordField
  rw [require_pos hmem, ok_bind, (recordProtobufEncode_eq_ok (by omega)).2 ⟨rfl, h.2⟩, ok_bind]

theorem encoded_of_encodeRecordField (h : encodeRecordField record room = .ok out) :
    record.Encoded := by
  have hpd := ptrdiffMax_lt
  obtain ⟨hmem, h⟩ := require_bind_eq_ok.1 h
  obtain ⟨protobuf, hprotobuf, -⟩ := bind_eq_ok.1 h
  exact ⟨hmem, ((recordProtobufEncode_eq_ok (by omega)).1 hprotobuf).2⟩

theorem orFault_encodePeerField {no : Nat} (h : peer.Encoded) :
    orFault (encodePeerField no peer) =
      protobufEncodeLengthDelimited no .lengthDelimited (peerBytes peer) := by
  have hpd := ptrdiffMax_lt
  have hmem := h.1
  rw [← orFault_always (protobufEncodeLengthDelimited no .lengthDelimited (peerBytes peer))]
  congr 1
  funext room
  unfold encodePeerField
  rw [if_neg (by omega), (peerProtobufEncode_eq_ok (by omega)).2 ⟨rfl, h.2⟩, ok_bind]

theorem encoded_of_encodePeerField {no : Nat}
    (h : orFault (encodePeerField no peer) room = .ok out) : peer.Encoded := by
  have hpd := ptrdiffMax_lt
  obtain ⟨written, hwritten, h⟩ := bind_eq_ok.1 h
  obtain rfl := deref_eq_ok.1 h
  unfold encodePeerField at hwritten
  split at hwritten
  · cases hwritten
  · next hmem =>
    obtain ⟨protobuf, hprotobuf, -⟩ := bind_eq_ok.1 hwritten
    exact ⟨by omega, ((peerProtobufEncode_eq_ok (by omega)).1 hprotobuf).2⟩

/-! ### messages -/

theorem messageBytes_eq (msg : DhtMessage) : messageBytes msg = itemsBytes (messageItems msg) := by
  unfold messageItems
  simp only [itemsBytes_append, itemsBytes_map, itemsBytes_cons, itemsBytes_nil, List.append_nil]
  rfl

theorem messageItems_wordSized (msg : DhtMessage) : ∀ i ∈ messageItems msg, i.WordSized := by
  intro i hi
  unfold messageItems at hi
  simp only [List.mem_append, List.mem_map, List.mem_singleton] at hi
  obtain ((((rfl | ⟨key, -, rfl⟩) | ⟨record, -, rfl⟩) | ⟨peer, -, rfl⟩) | ⟨peer, -, rfl⟩) | rfl :=
    hi
  · exact ⟨by decide, uint32_toNat_lt _⟩
  · show 2 < 16
    decide
  · show 3 < 16
    decide
  · show 8 < 16
    decide
  · show 9 < 16
    decide
  · exact ⟨by decide, levelNum_lt _⟩

/-- the calls that encode a message, when its parts can be -/
theorem encoders_eq (h : msg.PartsEncoded) :
    (messageEncoders msg).map orFault = (messageItems msg).map Item.encode := by
  have hrecord : (msg.record.toList.map fun record => orFault (always (encodeRecordField record))) =
      msg.record.toList.map fun record =>
        (Item.bytes 3 .lengthDelimited (recordBytesOf record)).encode := by
    refine List.map_congr_left fun record hmem => ?_
    rw [orFault_always]
    exact encodeRecordField_eq (h.record record (Option.mem_toList.1 hmem))
  have hpeers : ∀ no, ∀ peers : List GivenOrNull, (∀ peer ∈ peers, peer.Encoded) →
      (peers.map fun peer => orFault (encodePeerField no peer)) =
        peers.map fun peer => (Item.bytes no .lengthDelimited (peerBytes peer)).encode :=
    fun no peers hall => List.map_congr_left fun peer hmem =>
      orFault_encodePeerField (hall peer hmem)
  have hkey : (msg.key.toList.map fun key =>
        orFault (always (protobufEncodeLengthDelimited 2 .lengthDelimited key))) =
      msg.key.toList.map fun key => (Item.bytes 2 .lengthDelimited key).encode :=
    List.map_congr_left fun key _ => orFault_always _
  unfold messageEncoders messageItems
  simp only [List.map_append, List.map_map, List.map_cons, List.map_nil]
  refine congrArg₂ _ (congrArg₂ _ (congrArg₂ _ (congrArg₂ _ (congrArg₂ _ ?_ ?_) ?_) ?_) ?_) ?_
  · rw [orFault_always]
    rfl
  · exact hkey
  · exact hrecord
  · exact hpeers 8 _ h.closerPeers
  · exact hpeers 9 _ h.providerPeers
  · rw [orFault_always]
    rfl

/-- **when a message is encoded**: its parts are, and each size fits the room there is -/
theorem messageProtobufEncode_eq_some (hroom : room < 2 ^ 64) :
    messageProtobufEncode msg room = .ok (some out) ↔
      msg.PartsEncoded ∧ out = messageBytes msg ∧ Writable (messageItems msg) room := by
  have hitems : ∀ h : msg.PartsEncoded, messageProtobufEncode msg room = .ok (some out) ↔
      out = messageBytes msg ∧ Writable (messageItems msg) room := by
    intro h
    unfold messageProtobufEncode
    rw [encodeUntil_eq_some, encoders_eq h, messageBytes_eq]
    exact encodeItems_eq_ok_of_lt (messageItems_wordSized msg) hroom
  constructor
  · intro h
    have hall := encodeUntil_eq_some.1 h
    have hparts : msg.PartsEncoded := by
      refine ⟨fun record hr => ?_, fun peer hp => ?_, fun peer hp => ?_⟩
      · obtain ⟨room', out', hout⟩ := encodeAll_ok_of_mem hall
          (List.mem_map_of_mem (List.mem_append_left _ (List.mem_append_left _
            (List.mem_append_left _ (List.mem_append_right _
              (List.mem_map_of_mem (Option.mem_toList.2 hr)))))))
        rw [orFault_always] at hout
        exact encoded_of_encodeRecordField hout
      · obtain ⟨room', out', hout⟩ := encodeAll_ok_of_mem hall
          (List.mem_map_of_mem (List.mem_append_left _ (List.mem_append_left _
            (List.mem_append_right _ (List.mem_map_of_mem hp)))))
        exact encoded_of_encodePeerField hout
      · obtain ⟨room', out', hout⟩ := encodeAll_ok_of_mem hall
          (List.mem_map_of_mem (List.mem_append_left _
            (List.mem_append_right _ (List.mem_map_of_mem hp))))
        exact encoded_of_encodePeerField hout
    exact ⟨hparts, (hitems hparts).1 h⟩
  · intro h
    exact (hitems h.1).2 h.2

/-- a message is no longer than bounds for its peers say -/
theorem messageBytes_length_le_sum {bound : GivenOrNull → Nat}
    (hcloser : ∀ peer ∈ msg.closerPeers, (peerBytes peer).length ≤ bound peer)
    (hprovider : ∀ peer ∈ msg.providerPeers, (peerBytes peer).length ≤ bound peer) :
    (messageBytes msg).length ≤ 11 + 11 + (msg.keyBytes.length + 11) +
      (11 + (msg.record.map recordProtobufEncodeSize).getD 0) +
      (msg.closerPeers.map fun peer => 11 + bound peer).sum +
      (msg.providerPeers.map fun peer => 11 + bound peer).sum := by
  have htype := varintField_length_le_eleven 1 .varint msg.messageType.toNat (by decide)
  have hlevel := varintField_length_le_eleven 10 .varint (levelNum msg.clusterLevelRaw) (by decide)
  have hkey : (msg.key.toList.flatMap fun key => bytesField 2 .lengthDelimited key).length ≤
      msg.keyBytes.length + 11 := by
    unfold DhtMessage.keyBytes
    cases msg.key with
    | none => exact Nat.zero_le _
    | some key =>
      have hle := bytesField_length_le 2 .lengthDelimited key (by decide)
      rw [Option.toList_some, List.flatMap_singleton, Option.getD_some]
      omega
  have hrecord : (msg.record.toList.flatMap fun record =>
      bytesField 3 .lengthDelimited (recordBytesOf record)).length ≤
      11 + (msg.record.map recordProtobufEncodeSize).getD 0 := by
    cases msg.record with
    | none => exact Nat.zero_le _
    | some record =>
      have hle := bytesField_length_le 3 .lengthDelimited (recordBytesOf record) (by decide)
      have hsize := @recordBytesOf_length_le record
      rw [Option.toList_some, List.flatMap_singleton, Option.map_some, Option.getD_some]
      omega
  have hpeers : ∀ no < 16, ∀ peers : List GivenOrNull,
      (∀ peer ∈ peers, (peerBytes peer).length ≤ bound peer) →
      (peers.flatMap fun peer => bytesField no .lengthDelimited (peerBytes peer)).length ≤
        (peers.map fun peer => 11 + bound peer).sum := by
    intro no hno peers hall
    refine length_flatMap_le_sum fun peer hmem => ?_
    have hle := bytesField_length_le no .lengthDelimited (peerBytes peer) hno
    have hsize := hall peer hmem
    omega
  have hcloser := hpeers 8 (by decide) msg.closerPeers hcloser
  have hprovider := hpeers 9 (by decide) msg.providerPeers hprovider
  unfold messageBytes
  simp only [List.length_append]
  omega

theorem messageBytes_length_le : (messageBytes msg).length ≤ messageEstimate msg :=
  messageBytes_length_le_sum (fun _ _ => peerBytes_length_le) fun _ _ => peerBytes_length_le

theorem peerEstimate_le_sum {peers : List GivenOrNull} (h : peer ∈ peers) :
    11 + peerEstimate peer ≤ (peers.map fun peer => 11 + peerEstimate peer).sum :=
  List.le_sum_of_mem (List.mem_map_of_mem h)

/-- no size of a part is larger than that of the whole -/
theorem parts_lt (h : messageEstimate msg < 2 ^ 31) :
    (∀ record, msg.record = some record → recordProtobufEncodeSize record < 2 ^ 31) ∧
      (∀ peer ∈ msg.closerPeers, peerEstimate peer < 2 ^ 31) ∧
      ∀ peer ∈ msg.providerPeers, peerEstimate peer < 2 ^ 31 := by
  unfold messageEstimate at h
  refine ⟨fun record hr => ?_, fun peer hp => ?_, fun peer hp => ?_⟩
  · rw [hr, Option.map_some, Option.getD_some] at h
    omega
  · have hle := peerEstimate_le_sum hp
    omega
  · have hle := peerEstimate_le_sum hp
    omega

theorem messageProtobufEncodeSize_of_lt (h : messageEstimate msg < 2 ^ 31) :
    messageProtobufEncodeSize msg = messageEstimate msg := by
  obtain ⟨-, hcloser, hprovider⟩ := parts_lt h
  have hpeers : ∀ peers : List GivenOrNull, (∀ peer ∈ peers, peerEstimate peer < 2 ^ 31) →
      (peers.map fun peer => 11 + peerProtobufEncodeSize peer) =
        peers.map fun peer => 11 + peerEstimate peer :=
    fun peers hall => List.map_congr_left fun peer hmem => by
      rw [peerProtobufEncodeSize_of_lt (hall peer hmem)]
  have hsize : messageProtobufEncodeSize msg = toUInt64 (messageEstimate msg) := by
    unfold messageProtobufEncodeSize messageEstimate
    rw [hpeers _ hcloser, hpeers _ hprovider]
  rw [hsize, toUInt64_natCast_of_lt (by omega)]

theorem DhtMessage.partsEncoded_of_lt (h : messageEstimate msg < 2 ^ 31) : msg.PartsEncoded := by
  obtain ⟨hrecord, hcloser, hprovider⟩ := parts_lt h
  exact ⟨fun record hr => Record.encoded_of_lt (hrecord record hr),
    fun peer hp => PeerWith.encoded_of_lt (hcloser peer hp),
    fun peer hp => PeerWith.encoded_of_lt (hprovider peer hp)⟩

/-- **a message is encoded** when the estimate is an `int` -/
theorem messageProtobufEncode_eq (h : messageEstimate msg < 2 ^ 31) :
    messageProtobufEncode msg (messageProtobufEncodeSize msg) = .ok (some (messageBytes msg)) := by
  have hle := @messageBytes_length_le msg
  rw [messageBytes_eq] at hle
  rw [messageProtobufEncodeSize_of_lt h]
  exact (messageProtobufEncode_eq_some (by omega)).2 ⟨DhtMessage.partsEncoded_of_lt h, rfl,
    writable_of_lt (messageItems_wordSized msg) hle h⟩

end

end Libp2p
