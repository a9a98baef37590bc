import Libipfs.Routing.Announcements

/-!
# The round trip of records and messages

The key of a record is written with its size and read as a C string.  An address is written as its
bytes, and read by way of its text.

* `Record.RoundTrips`, `DhtMessage.RoundTrips`   encoded into memory of the size computed, and
                    decoded as the same;
* `Record.StringKey`   a key that is a C string, and not empty;
* `dhtRoundTrips_iff`   **the records and messages that come back**.
-/

namespace Libp2p
open CSem

/-! ## what comes back -/

def Record.RoundTrips (record : Record) : Prop :=
  ∃ bytes, recordProtobufAllocateAndEncode record = .ok (some bytes) ∧
    recordProtobufDecode bytes = .ok (some record)

/-- what is sent of a peer: its session and whether it is local are not -/
def PeerWith.carried (peer : GivenOrNull) : GivenOrNull where
  id := peer.id
  addrs := peer.given.map some
  connectionType := peer.connectionType

def DhtMessage.carried (msg : DhtMessage) : DhtMessage :=
  { msg with
    closerPeers := msg.closerPeers.map PeerWith.carried
    providerPeers := msg.providerPeers.map PeerWith.carried }

def DhtMessage.RoundTrips (msg : DhtMessage) : Prop :=
  ∃ bytes, messageProtobufAllocateAndEncode msg = .ok (some bytes) ∧
    kademliaDecode bytes = .ok (some msg.carried)

/-- the key is a C string that is not empty, and its size is that of the string -/
def Record.StringKey (record : Record) : Prop :=
  ∃ key, record.key = some key ∧ key ≠ [] ∧ 0 ∉ key ∧ record.keySize = key.length ∧
    key.length + 1 < 2 ^ 31

/-- the bytes of the address have a text -/
def HasText (addr : Multiaddress) : Prop := ∃ text, bytesToString addr.1 = .ok (some text)

structure Record.Restored (record : Record) : Prop where
  key : record.StringKey
  encoded : record.Encoded
  readable : Readable (recordItems record)

structure PeerWith.Restored (peer : GivenOrNull) : Prop where
  addrs : ∀ addr ∈ peer.given, HasText addr
  encoded : peer.Encoded
  readable : Readable (peerItems peer)

structure DhtMessage.Restored (msg : DhtMessage) : Prop where
  record : ∀ record, msg.record = some record → record.Restored
  closerPeers : ∀ peer ∈ msg.closerPeers, peer.Restored
  providerPeers : ∀ peer ∈ msg.providerPeers, peer.Restored
  memory : messageProtobufEncodeSize msg ≤ ptrdiffMax
  writable : Writable (messageItems msg) (messageProtobufEncodeSize msg)
  readable : Readable (messageItems msg)

section
variable {record record' : Record} {peer : GivenOrNull} {msg : DhtMessage}

/-! ## records -/

theorem recordProtobufAllocateAndEncode_eq_some {out : List UInt8} :
    recordProtobufAllocateAndEncode record = .ok (some out) ↔
      out = recordBytesOf record ∧ record.Encoded := by
  have hpd := ptrdiffMax_lt
  unfold recordProtobufAllocateAndEncode
  split
  · next hmem =>
    constructor
    · intro h
      cases h
    · intro h
      exact absurd h.2.1 (by omega)
  · next hmem =>
    have hencode := @recordProtobufEncode_eq_ok record (recordProtobufEncodeSize record) out
      (by omega)
    constructor
    · intro h
      obtain ⟨written, hwritten, h⟩ := bind_eq_ok.1 h
      cases h
      obtain ⟨rfl, hwritable⟩ := hencode.1 hwritten
      exact ⟨rfl, by omega, hwritable⟩
    · intro h
      exact bind_eq_ok.2 ⟨out, hencode.2 ⟨h.1, h.2.2⟩, rfl⟩

/-- what a decoder has read of a key: nothing, or a C string with its size -/
def Record.KeyRead (record : Record) : Prop :=
  record.key = none ∨ ∃ key, record.key = some key ∧ 0 ∉ key ∧ record.keySize = key.length ∧
    key.length + 1 < 2 ^ 31

/-- each value that is read leaves the key a C string -/
private theorem recordFields_keyRead {remaining : Nat} {buf : List UInt8} {fieldNo m : Int}
    {store : Record → Exec (Option Record)}
    (hread : (recordFields fieldNo).read remaining buf = .ok (some (m, store)))
    (hstore : store record = .ok (some record')) (h : record.KeyRead) : record'.KeyRead := by
  have hbytes : ∀ f : List UInt8 → Record → Record,
      (∀ d r, (f d r).key = r.key ∧ (f d r).keySize = r.keySize) →
      (FieldCase.bytes fun d r => .ok (some (f d r))).read remaining buf = .ok (some (m, store)) →
      record'.KeyRead := by
    intro f hf hread
    obtain ⟨y, -, hread⟩ := bind_eq_ok.1 hread
    cases y with
    | none => cases hread
    | some y =>
      cases hread
      cases hstore
      unfold Record.KeyRead
      rw [(hf y.1 record).1, (hf y.1 record).2]
      exact h
  unfold recordFields at hread
  split at hread
  · obtain ⟨⟨text, m'⟩, hy, hread⟩ := bind_eq_ok.1 hread
    cases hread
    obtain ⟨bytes, hkey, hstore⟩ := bind_eq_ok.1 hstore
    cases hstore
    cases text with
    | none =>
      -- the key of before is measured again
      obtain hnone | ⟨key, hsome, h0, -, hlt⟩ := h
      · rw [hnone] at hkey
        cases hkey
      · rw [hsome] at hkey
        cases hkey
        exact .inr ⟨_, hsome, h0, rfl, hlt⟩
    | some text =>
      cases hkey
      obtain ⟨h0, hlt⟩ := protobufDecodeString_text hy
      exact .inr ⟨_, rfl, h0, rfl, hlt⟩
  · exact hbytes (fun d r => { r with value := d }) (fun d r => ⟨rfl, rfl⟩) hread
  · exact hbytes (fun d r => { r with author := d }) (fun d r => ⟨rfl, rfl⟩) hread
  · exact hbytes (fun d r => { r with signature := d }) (fun d r => ⟨rfl, rfl⟩) hread
  · exact hbytes (fun d r => { r with timeReceived := d }) (fun d r => ⟨rfl, rfl⟩) hread
  · cases hread
    cases hstore
    exact h

/-- **the key of a record that was decoded** -/
theorem recordProtobufDecode_keyRead {buf : List UInt8}
    (h : recordProtobufDecode buf = .ok (some record)) : record.KeyRead := by
  obtain ⟨pos, hreached, -⟩ := reached_of_decodeFields h
  refine Reached.invariant (I := Record.KeyRead) (.inl rfl) ?_ hreached
  intro p p' store s s' hread hs hstore
  obtain ⟨tag, v, -, hv, hr⟩ := readItem_eq_ok.1 hread
  cases v with
  | none => cases hr
  | some x =>
    cases hr
    exact recordFields_keyRead hv hstore hs

theorem recordItems_accepted
    (hkey : ((record.key.getD []).take record.keySize).length + 1 < 2 ^ 31) :
    ∀ i ∈ recordItems record, i.Accepted recordFields := by
  intro i hi
  unfold recordItems at hi
  simp only [List.mem_cons, List.not_mem_nil, or_false] at hi
  obtain rfl | rfl | rfl | rfl | rfl := hi
  · exact hkey
  · trivial
  · trivial
  · trivial
  · trivial

theorem applyItems_recordItems_nil (h : (record.key.getD []).take record.keySize = []) :
    applyItems recordFields (recordItems record) {} = .error .null := by
  unfold recordItems
  rw [h]
  rfl

theorem applyItems_recordItems {key : List UInt8}
    (h : (record.key.getD []).take record.keySize = key) (hne : key ≠ []) :
    applyItems recordFields (recordItems record) {} =
      .ok (some { record with key := some (cString key), keySize := (cString key).length }) := by
  have hstore : (Item.bytes 1 .lengthDelimited key).store recordFields ({} : Record) =
      .ok (some { key := some (cString key), keySize := (cString key).length }) := by
    cases key with
    | nil => contradiction
    | cons b key => rfl
  unfold recordItems
  rw [h, applyItems_cons, hstore, ok_bind]
  rfl

/-- **a record is decoded as itself** iff its key is a C string, and it is readable -/
theorem recordProtobufDecode_eq_self (hlen : (recordBytesOf record).length ≤ ptrdiffMax) :
    recordProtobufDecode (recordBytesOf record) = .ok (some record) ↔
      record.StringKey ∧ Readable (recordItems record) := by
  have hdecode : ((record.key.getD []).take record.keySize).length + 1 < 2 ^ 31 →
      (recordProtobufDecode (recordBytesOf record) = .ok (some record) ↔
        Readable (recordItems record) ∧
          applyItems recordFields (recordItems record) {} = .ok (some record)) := by
    intro hkey
    rw [recordBytesOf_eq] at hlen ⊢
    exact decodeFields_eq_some
      (fun i hi => ⟨recordItems_wordSized record i hi, recordItems_accepted hkey i hi⟩) hlen
  constructor
  · intro h
    obtain hnone | ⟨key, hsome, h0, hsize, hlt⟩ := recordProtobufDecode_keyRead h
    · have htake : (record.key.getD []).take record.keySize = [] := by
        rw [hnone, Option.getD_none, List.take_nil]
      have happly := ((hdecode (by rw [htake]; decide)).1 h).2
      rw [applyItems_recordItems_nil htake] at happly
      cases happly
    · have htake : (record.key.getD []).take record.keySize = key := by
        rw [hsome, hsize, Option.getD_some, List.take_length]
      obtain ⟨hread, happly⟩ := (hdecode (by rwa [htake])).1 h
      refine ⟨⟨key, hsome, ?_, h0, hsize, hlt⟩, hread⟩
      intro hnil
      rw [applyItems_recordItems_nil (htake.trans hnil)] at happly
      cases happly
  · intro h
    obtain ⟨⟨key, hsome, hne, h0, hsize, hlt⟩, hread⟩ := h
    have htake : (record.key.getD []).take record.keySize = key := by
      rw [hsome, hsize, Option.getD_some, List.take_length]
    have hself : { record with key := some (cString key), keySize := (cString key).length } =
        record := by
      rw [cString_of_not_mem h0, ← hsome, ← hsize]
    refine (hdecode (by rwa [htake])).2 ⟨hread, ?_⟩
    rw [applyItems_recordItems htake hne, hself]

theorem Record.Encoded.length_le (h : record.Encoded) :
    (recordBytesOf record).length ≤ ptrdiffMax := by
  have hle := h.2.length_le
  rw [← recordBytesOf_eq] at hle
  exact le_trans hle h.1

/-- **the records that come back** -/
theorem recordRoundTrips_iff : record.RoundTrips ↔ record.Restored := by
  constructor
  · intro h
    obtain ⟨bytes, hencode, hdecode⟩ := h
    obtain ⟨rfl, hencoded⟩ := recordProtobufAllocateAndEncode_eq_some.1 hencode
    obtain ⟨hkey, hread⟩ := (recordProtobufDecode_eq_self hencoded.length_le).1 hdecode
    exact ⟨hkey, hencoded, hread⟩
  · intro h
    exact ⟨_, recordProtobufAllocateAndEncode_eq_some.2 ⟨rfl, h.encoded⟩,
      (recordProtobufDecode_eq_self h.encoded.length_le).2 ⟨h.key, h.readable⟩⟩

/-! ## peers -/

theorem multiaddressNewFromBytes_eq_self {addr : Multiaddress} :
    multiaddressNewFromBytes addr.1 = .ok (some addr) ↔ HasText addr := by
  unfold multiaddressNewFromBytes HasText
  rw [dif_pos addr.2, bind_eq_ok]
  constructor
  · intro h
    obtain ⟨text, htext, h⟩ := h
    cases text with
    | none => cases h
    | some text => exact ⟨text, htext⟩
  · intro h
    obtain ⟨text, htext⟩ := h
    exact ⟨some text, htext, rfl⟩

theorem PeerWith.Encoded.length_le (h : peer.Encoded) : (peerBytes peer).length ≤ ptrdiffMax := by
  have hle := h.2.length_le
  rw [← peerBytes_eq] at hle
  exact le_trans hle h.1

theorem peerItems_accepted : ∀ i ∈ peerItems peer, i.Accepted dhtPeerFields := by
  intro i hi
  unfold peerItems at hi
  simp only [List.cons_append, List.mem_cons, List.mem_append, List.mem_map, List.not_mem_nil,
    or_false] at hi
  obtain rfl | ⟨addr, -, rfl⟩ | rfl := hi
  · trivial
  · trivial
  · trivial

theorem foldl_addrs (read : List (Option Multiaddress)) (peer : GivenOrNull) :
    read.foldl (fun peer addr => { peer with addrs := peer.addrs ++ [addr] }) peer =
      { peer with addrs := peer.addrs ++ read } := by
  induction read generalizing peer with
  | nil =>
    rw [List.foldl_nil, List.append_nil]
  | cons addr read ih =>
    rw [List.foldl_cons, ih, List.append_assoc, List.singleton_append]

/-- what comes of the addresses, null or not -/
theorem applyItems_peerItems {p : GivenOrNull} :
    applyItems dhtPeerFields (peerItems peer) {} = .ok (some p) ↔
      ∃ read, List.Forall₂ (fun addr r => multiaddressNewFromBytes addr.1 = .ok r) peer.given read ∧
        p = { id := peer.id, addrs := read, connectionType := peer.connectionType } := by
  have hstore : ∀ d (s : GivenOrNull), (Item.bytes 2 .lengthDelimited d).store dhtPeerFields s =
      (multiaddressNewFromBytes d).map some >>= fun r =>
        .ok (r.map fun addr => { s with addrs := s.addrs ++ [addr] }) := by
    intro d s
    show (multiaddressNewFromBytes d >>= _) = _
    cases multiaddressNewFromBytes d with
    | error e => rfl
    | ok addr => rfl
  have hparse : ∀ (addr : Multiaddress) r, (multiaddressNewFromBytes addr.1).map some =
      .ok (some r) ↔ multiaddressNewFromBytes addr.1 = .ok r := by
    intro addr r
    cases multiaddressNewFromBytes addr.1 with
    | error e => exact ⟨(nomatch ·), (nomatch ·)⟩
    | ok a =>
      show Except.ok (some a) = Except.ok (some r) ↔ _
      rw [Except.ok.injEq, Except.ok.injEq, Option.some_inj]
  have hid : (Item.bytes 1 .lengthDelimited peer.id).store dhtPeerFields ({} : GivenOrNull) =
      .ok (some { id := peer.id }) := rfl
  have hlast : ∀ read, applyItems dhtPeerFields [.varint 3 .varint peer.connectionType.toNat]
      ({ id := peer.id, addrs := read } : GivenOrNull) =
        .ok (some { id := peer.id, addrs := read, connectionType := peer.connectionType }) := by
    intro read
    show Except.ok (some (PeerWith.mk peer.id read (UInt32.ofNat peer.connectionType.toNat) none
      false)) = _
    rw [UInt32.ofNat_toNat]
  unfold peerItems
  rw [List.cons_append, applyItems_cons, hid, ok_bind, applyItems_append_eq_some]
  simp only [applyItems_repeated hstore, hparse, foldl_addrs, List.nil_append]
  constructor
  · intro h
    obtain ⟨t, ⟨read, hread, rfl⟩, h⟩ := h
    rw [hlast] at h
    cases h
    exact ⟨read, hread, rfl⟩
  · intro h
    obtain ⟨read, hread, rfl⟩ := h
    exact ⟨_, ⟨read, hread, rfl⟩, hlast read⟩

/-- **a peer is decoded as what is sent of it** iff its addresses have a text, and it is readable -/
theorem decodePeer_eq_carried (hlen : (peerBytes peer).length ≤ ptrdiffMax) :
    decodeFields dhtPeerFields (peerBytes peer) {} = .ok (some peer.carried) ↔
      (∀ addr ∈ peer.given, HasText addr) ∧ Readable (peerItems peer) := by
  have hall : List.Forall₂ (fun (addr : Multiaddress) r => multiaddressNewFromBytes addr.1 = .ok r)
      peer.given (peer.given.map some) ↔ ∀ addr ∈ peer.given, HasText addr := by
    rw [List.forall₂_map_right_iff, List.forall₂_same]
    exact forall₂_congr fun addr _ => multiaddressNewFromBytes_eq_self
  rw [peerBytes_eq] at hlen ⊢
  rw [decodeFields_eq_some
    (fun i hi => ⟨peerItems_wordSized peer i hi, peerItems_accepted i hi⟩) hlen,
    applyItems_peerItems, and_comm, ← hall]
  refine and_congr_left fun _ => ?_
  constructor
  · intro h
    obtain ⟨read, hread, he⟩ := h
    have haddrs : peer.given.map some = read := congrArg PeerWith.addrs he
    rwa [haddrs]
  · intro h
    exact ⟨_, h, rfl⟩

/-! ## messages -/

theorem messageItems_accepted : ∀ i ∈ messageItems msg, i.Accepted dhtMessageFields := by
  intro i hi
  unfold messageItems at hi
  simp only [List.mem_append, List.mem_map, List.mem_singleton] at hi
  obtain ((((rfl | ⟨key, -, rfl⟩) | ⟨record, -, rfl⟩) | ⟨peer, -, rfl⟩) | ⟨peer, -, rfl⟩) | rfl :=
    hi
  · trivial
  · trivial
  · trivial
  · trivial
  · trivial
  · trivial

/-- the sign of a level is extended, and cut off again -/
theorem uint32_ofNat_levelNum (level : UInt32) : UInt32.ofNat (levelNum level) = level := by
  have hlt := level.toNat_lt
  apply UInt32.toNat_inj.1
  rw [UInt32.toNat_ofNat']
  unfold levelNum toUInt64 toInt32 Int.bmod
  norm_num
  omega

theorem foldl_closerPeers (read : List GivenOrNull) (msg : DhtMessage) :
    read.foldl (fun msg peer => { msg with closerPeers := msg.closerPeers ++ [peer] }) msg =
      { msg with closerPeers := msg.closerPeers ++ read } := by
  induction read generalizing msg with
  | nil => rw [List.foldl_nil, List.append_nil]
  | cons peer read ih => rw [List.foldl_cons, ih, List.append_assoc, List.singleton_append]

theorem foldl_providerPeers (read : List GivenOrNull) (msg : DhtMessage) :
    read.foldl (fun msg peer => { msg with providerPeers := msg.providerPeers ++ [peer] }) msg =
      { msg with providerPeers := msg.providerPeers ++ read } := by
  induction read generalizing msg with
  | nil => rw [List.foldl_nil, List.append_nil]
  | cons peer read ih => rw [List.foldl_cons, ih, List.append_assoc, List.singleton_append]

/-- peers that are read as `read` -/
def PeersRead (peers read : List GivenOrNull) : Prop :=
  List.Forall₂ (fun peer r => decodeFields dhtPeerFields (peerBytes peer) {} = .ok (some r))
    peers read

theorem peersRead_carried {peers : List GivenOrNull} (h : ∀ peer ∈ peers, peer.Encoded) :
    PeersRead peers (peers.map PeerWith.carried) ↔
      ∀ peer ∈ peers, (∀ addr ∈ peer.given, HasText addr) ∧ Readable (peerItems peer) := by
  unfold PeersRead
  rw [List.forall₂_map_right_iff, List.forall₂_same]
  exact forall₂_congr fun peer hmem => decodePeer_eq_carried (h peer hmem).length_le

/-- a record that is read as `read` -/
def RecordRead (record read : Option Record) : Prop :=
  match record with
  | none => read = none
  | some record => ∃ r, recordProtobufDecode (recordBytesOf record) = .ok (some r) ∧ read = some r

theorem applyItems_key {t : DhtMessage} : applyItems dhtMessageFields
    ([.varint 1 .varint msg.messageType.toNat] ++
      msg.key.toList.map fun key => .bytes 2 .lengthDelimited key) {} = .ok (some t) ↔
        t = { messageType := msg.messageType, key := msg.key } := by
  have htype : (Item.varint 1 .varint msg.messageType.toNat).store dhtMessageFields
      ({} : DhtMessage) = .ok (some { messageType := msg.messageType }) := by
    show Except.ok (some (DhtMessage.mk (UInt32.ofNat msg.messageType.toNat) none none [] [] 0)) = _
    rw [UInt32.ofNat_toNat]
  rw [List.singleton_append, applyItems_cons, htype, ok_bind]
  cases msg.key with
  | none =>
    show Except.ok (some _) = Except.ok (some t) ↔ _
    rw [Except.ok.injEq, Option.some_inj, eq_comm]
  | some key =>
    show Except.ok (some _) = Except.ok (some t) ↔ _
    rw [Except.ok.injEq, Option.some_inj, eq_comm]

theorem applyItems_record {s t : DhtMessage} (hs : s.record = none) : applyItems dhtMessageFields
    (msg.record.toList.map fun record => .bytes 3 .lengthDelimited (recordBytesOf record)) s =
      .ok (some t) ↔ ∃ record, RecordRead msg.record record ∧ t = { s with record := record } := by
  unfold RecordRead
  cases msg.record with
  | none =>
    show Except.ok (some s) = Except.ok (some t) ↔ _
    rw [Except.ok.injEq, Option.some_inj]
    constructor
    · intro h
      exact ⟨none, rfl, by rw [← h, ← hs]⟩
    · intro h
      obtain ⟨record, hnone, ht⟩ := h
      have hnone : record = none := hnone
      rw [ht, hnone, ← hs]
  | some record =>
    show (applyItems dhtMessageFields [.bytes 3 .lengthDelimited (recordBytesOf record)] s = _) ↔ _
    rw [applyItems_cons]
    constructor
    · intro h
      obtain ⟨x, hx, h⟩ := bind_eq_ok.1 h
      obtain ⟨r, hr, hx⟩ := bind_eq_ok.1 hx
      cases r with
      | none =>
        cases hx
        cases h
      | some r =>
        cases hx
        cases h
        exact ⟨some r, ⟨r, hr, rfl⟩, rfl⟩
    · intro h
      obtain ⟨record', ⟨r, hr, hread⟩, rfl⟩ := h
      rw [hread]
      exact bind_eq_ok.2 ⟨_, bind_eq_ok.2 ⟨_, hr, rfl⟩, rfl⟩

theorem applyItems_closerPeers {s t : DhtMessage} (hs : s.closerPeers = []) :
    applyItems dhtMessageFields
      (msg.closerPeers.map fun peer => .bytes 8 .lengthDelimited (peerBytes peer)) s =
        .ok (some t) ↔
      ∃ read, PeersRead msg.closerPeers read ∧ t = { s with closerPeers := read } := by
  have hstore : ∀ d (s : DhtMessage), (Item.bytes 8 .lengthDelimited d).store dhtMessageFields s =
      decodeFields dhtPeerFields d {} >>= fun r =>
        .ok (r.map fun peer => { s with closerPeers := s.closerPeers ++ [peer] }) := by
    intro d s
    show (decodeFields dhtPeerFields d {} >>= _) = _
    exact bind_option_map rfl fun _ => rfl
  unfold PeersRead
  rw [applyItems_repeated hstore]
  simp only [foldl_closerPeers, hs, List.nil_append]

theorem applyItems_providerPeers {s t : DhtMessage} (hs : s.providerPeers = []) :
    applyItems dhtMessageFields
      (msg.providerPeers.map fun peer => .bytes 9 .lengthDelimited (peerBytes peer)) s =
        .ok (some t) ↔
      ∃ read, PeersRead msg.providerPeers read ∧ t = { s with providerPeers := read } := by
  have hstore : ∀ d (s : DhtMessage), (Item.bytes 9 .lengthDelimited d).store dhtMessageFields s =
      decodeFields dhtPeerFields d {} >>= fun r =>
        .ok (r.map fun peer => { s with providerPeers := s.providerPeers ++ [peer] }) := by
    intro d s
    show (decodeFields dhtPeerFields d {} >>= _) = _
    exact bind_option_map rfl fun _ => rfl
  unfold PeersRead
  rw [applyItems_repeated hstore]
  simp only [foldl_providerPeers, hs, List.nil_append]

theorem applyItems_level {s t : DhtMessage} : applyItems dhtMessageFields
    [.varint 10 .varint (levelNum msg.clusterLevelRaw)] s = .ok (some t) ↔
      t = { s with clusterLevelRaw := msg.clusterLevelRaw } := by
  have hstore : (Item.varint 10 .varint (levelNum msg.clusterLevelRaw)).store dhtMessageFields s =
      .ok (some { s with clusterLevelRaw := UInt32.ofNat (levelNum msg.clusterLevelRaw) }) := rfl
  rw [applyItems_cons, hstore, ok_bind, uint32_ofNat_levelNum]
  show Except.ok (some _) = Except.ok (some t) ↔ _
  rw [Except.ok.injEq, Option.some_inj, eq_comm]

/-- what comes of the fields of a message -/
theorem applyItems_messageItems {r : DhtMessage} :
    applyItems dhtMessageFields (messageItems msg) {} = .ok (some r) ↔
      ∃ record closer provider, RecordRead msg.record record ∧ PeersRead msg.closerPeers closer ∧
        PeersRead msg.providerPeers provider ∧
        r = { messageType := msg.messageType, key := msg.key, record := record,
              closerPeers := closer, providerPeers := provider,
              clusterLevelRaw := msg.clusterLevelRaw } := by
  unfold messageItems
  constructor
  · intro h
    obtain ⟨t5, h, h6⟩ := applyItems_append_eq_some.1 h
    obtain ⟨t4, h, h5⟩ := applyItems_append_eq_some.1 h
    obtain ⟨t3, h, h4⟩ := applyItems_append_eq_some.1 h
    obtain ⟨t2, h2, h3⟩ := applyItems_append_eq_some.1 h
    obtain rfl := applyItems_key.1 h2
    obtain ⟨record, hrecord, rfl⟩ := (applyItems_record rfl).1 h3
    obtain ⟨closer, hcloser, rfl⟩ := (applyItems_closerPeers rfl).1 h4
    obtain ⟨provider, hprovider, rfl⟩ := (applyItems_providerPeers rfl).1 h5
    exact ⟨record, closer, provider, hrecord, hcloser, hprovider, applyItems_level.1 h6⟩
  · intro h
    obtain ⟨record, closer, provider, hrecord, hcloser, hprovider, rfl⟩ := h
    have h2 := (@applyItems_key msg _).2 rfl
    have h3 := applyItems_append_eq_some.2
      ⟨_, h2, (applyItems_record rfl).2 ⟨record, hrecord, rfl⟩⟩
    have h4 := applyItems_append_eq_some.2
      ⟨_, h3, (applyItems_closerPeers rfl).2 ⟨closer, hcloser, rfl⟩⟩
    have h5 := applyItems_append_eq_some.2
      ⟨_, h4, (applyItems_providerPeers rfl).2 ⟨provider, hprovider, rfl⟩⟩
    exact applyItems_append_eq_some.2 ⟨_, h5, applyItems_level.2 rfl⟩

theorem recordRead_self (h : ∀ record, msg.record = some record → record.Encoded) :
    RecordRead msg.record msg.record ↔ ∀ record, msg.record = some record →
      record.StringKey ∧ Readable (recordItems record) := by
  unfold RecordRead
  cases hr : msg.record with
  | none => exact ⟨fun _ record he => (nomatch he), fun _ => rfl⟩
  | some record =>
    have hself := recordProtobufDecode_eq_self (h record hr).length_le
    constructor
    · intro hread record' he
      obtain rfl := Option.some.inj he
      obtain ⟨r, hr, he⟩ := hread
      obtain rfl := Option.some.inj he
      exact hself.1 hr
    · intro hall
      exact ⟨record, hself.2 (hall record rfl), rfl⟩

theorem messageProtobufAllocateAndEncode_eq_some {out : List UInt8} :
    messageProtobufAllocateAndEncode msg = .ok (some out) ↔
      messageProtobufEncodeSize msg ≤ ptrdiffMax ∧ msg.PartsEncoded ∧ out = messageBytes msg ∧
        Writable (messageItems msg) (messageProtobufEncodeSize msg) := by
  have hpd := ptrdiffMax_lt
  unfold messageProtobufAllocateAndEncode
  split
  · next hmem =>
    constructor
    · intro h
      cases h
    · intro h
      exact absurd h.1 (by omega)
  · next hmem =>
    rw [messageProtobufEncode_eq_some (by omega)]
    exact ⟨fun h => ⟨by omega, h⟩, fun h => h.2⟩

/-- **the messages that come back** -/
theorem dhtMessageRoundTrips_iff : msg.RoundTrips ↔ msg.Restored := by
  have hitems : ∀ i ∈ messageItems msg, i.WordSized ∧ i.Accepted dhtMessageFields :=
    fun i hi => ⟨messageItems_wordSized msg i hi, messageItems_accepted i hi⟩
  have hdecode : (messageBytes msg).length ≤ ptrdiffMax → ∀ r,
      (kademliaDecode (messageBytes msg) = .ok (some r) ↔ Readable (messageItems msg) ∧
        applyItems dhtMessageFields (messageItems msg) {} = .ok (some r)) := by
    intro hlen r
    rw [messageBytes_eq] at hlen ⊢
    exact decodeFields_eq_some hitems hlen
  have hlength : messageProtobufEncodeSize msg ≤ ptrdiffMax →
      Writable (messageItems msg) (messageProtobufEncodeSize msg) →
        (messageBytes msg).length ≤ ptrdiffMax := by
    intro hmem hwritable
    rw [messageBytes_eq]
    exact le_trans hwritable.length_le hmem
  constructor
  · intro h
    obtain ⟨bytes, hencode, hback⟩ := h
    obtain ⟨hmem, hparts, rfl, hwritable⟩ := messageProtobufAllocateAndEncode_eq_some.1 hencode
    obtain ⟨hread, happly⟩ := (hdecode (hlength hmem hwritable) _).1 hback
    obtain ⟨record, closer, provider, hrecord, hcloser, hprovider, he⟩ :=
      applyItems_messageItems.1 happly
    obtain rfl : msg.record = record := congrArg DhtMessage.record he
    obtain rfl : msg.closerPeers.map PeerWith.carried = closer := congrArg DhtMessage.closerPeers he
    obtain rfl : msg.providerPeers.map PeerWith.carried = provider :=
      congrArg DhtMessage.providerPeers he
    have hrecords := (recordRead_self hparts.record).1 hrecord
    have hclosers := (peersRead_carried hparts.closerPeers).1 hcloser
    have hproviders := (peersRead_carried hparts.providerPeers).1 hprovider
    exact ⟨
      fun record hr => ⟨(hrecords record hr).1, hparts.record record hr, (hrecords record hr).2⟩,
      fun peer hp => ⟨(hclosers peer hp).1, hparts.closerPeers peer hp, (hclosers peer hp).2⟩,
      fun peer hp => ⟨(hproviders peer hp).1, hparts.providerPeers peer hp, (hproviders peer hp).2⟩,
      hmem, hwritable, hread⟩
  · intro h
    have hparts : msg.PartsEncoded := ⟨fun record hr => (h.record record hr).encoded,
      fun peer hp => (h.closerPeers peer hp).encoded,
      fun peer hp => (h.providerPeers peer hp).encoded⟩
    refine ⟨_, messageProtobufAllocateAndEncode_eq_some.2 ⟨h.memory, hparts, rfl, h.writable⟩,
      (hdecode (hlength h.memory h.writable) _).2 ⟨h.readable, ?_⟩⟩
    refine applyItems_messageItems.2 ⟨_, _, _, ?_, ?_, ?_, rfl⟩
    · exact (recordRead_self hparts.record).2 fun record hr =>
        ⟨(h.record record hr).key, (h.record record hr).readable⟩
    · exact (peersRead_carried hparts.closerPeers).2 fun peer hp =>
        ⟨(h.closerPeers peer hp).addrs, (h.closerPeers peer hp).readable⟩
    · exact (peersRead_carried hparts.providerPeers).2 fun peer hp =>
        ⟨(h.providerPeers peer hp).addrs, (h.providerPeers peer hp).readable⟩

/-- **the records and messages that come back** -/
theorem dhtRoundTrips_iff (record : Record) (msg : DhtMessage) :
    (record.RoundTrips ↔ record.Restored) ∧ (msg.RoundTrips ↔ msg.Restored) :=
  ⟨recordRoundTrips_iff, dhtMessageRoundTrips_iff⟩

end

/-- a record under a hash -/
def recordOf (key value author signature : List UInt8) : Record where
  key := some key
  keySize := key.length
  value := value
  author := author
  signature := signature

/-- the key of a record is cut at the zero byte in it -/
theorem not_dhtRoundTrips :
    (¬ ∀ key value author signature : List UInt8,
      recordProtobufEncodeSize (recordOf key value author signature) < 2 ^ 31 →
        (recordOf key value author signature).RoundTrips) ∧
    ¬ ∀ msg : DhtMessage, messageEstimate msg < 2 ^ 31 → msg.RoundTrips := by
  have hkey : ¬ (recordOf [18, 32, 0, 7] [1] [] []).StringKey := by
    intro h
    obtain ⟨key, hkey, -, h0, -, -⟩ := h
    obtain rfl : [18, 32, 0, 7] = key := Option.some.inj hkey
    exact h0 (by decide)
  constructor
  · intro hall
    exact hkey (recordRoundTrips_iff.1 (hall [18, 32, 0, 7] [1] [] [] (by decide))).key
  · intro hall
    have hmsg := hall { messageType := 0, record := some (recordOf [18, 32, 0, 7] [1] [] []) }
      (by decide)
    exact hkey ((dhtMessageRoundTrips_iff.1 hmsg).record _ rfl).key

end Libp2p
