import Libipfs.Bitswap.Message
import Libipfs.Blocks.RoundTrip

/-!
# The round trip of a message

* `BitswapMessage.RoundTrips`   a message is encoded into a buffer of the size computed for it, and
                     comes back with its raw blocks, its payload and its want list;
* `BitswapMessage.Convertible`  the messages whose want list has a vector, and whose varints fit
                     their buffers, taken as an `int`, at each level;
* `messageRoundTrips_iff`   **a message comes back iff it is one of those**;
* `BitswapMessage.convertible_of_lt`  as it is, with a vector, whenever the computed size is an
                     `int`;
* `bitswapMessageProtobufDecode_messageBytes`   so does what the exchange sends.
-/

namespace Ipfs
open CSem Libp2p

/-! ## what a message says -/

/-- an entry whose fields have all been stored -/
def WantlistEntry.want (entry : WantlistEntry) : Want where
  block := entry.block.getD []
  cancel := entry.cancel.getD 0
  priority := entry.priority.getD 0

/-- a vector that has not been made has nothing in it -/
def BitswapWantlist.wants (list : BitswapWantlist) : List Want :=
  (list.entries.getD []).reduceOption.map WantlistEntry.want

def BitswapMessage.raw (message : BitswapMessage) : List Block := message.blocks.getD []

def BitswapMessage.sent (message : BitswapMessage) : List Block := message.payload.getD []

/-- equal, where no list is as good as an empty one -/
structure SameMessage (message message' : BitswapMessage) : Prop where
  raw : message.raw = message'.raw
  sent : message.sent = message'.sent
  wantlist : message.wantlist.map (fun list => (list.entries.getD [], list.full)) =
    message'.wantlist.map fun list => (list.entries.getD [], list.full)

/-- a block with a CID that the format has room for -/
def Block.Addressed (block : Block) : Prop :=
  ∃ cid, block.cid = some cid ∧ (cid.version = 0 ∨ cid.version = 1) ∧
    0 ≤ cid.codec.toInt ∧ cid.codec.toInt < 128 ∧ cid.hash ≠ []

/-- raw blocks are bytes, blocks of the payload have a CID, the fields of each entry are stored -/
structure BitswapMessage.Proper (message : BitswapMessage) : Prop where
  raw : ∀ block ∈ message.raw, block.cid = none
  sent : ∀ block ∈ message.sent, block.Addressed
  entries : ∀ list, message.wantlist = some list →
    list.entries.getD [] = list.wants.map Want.entry
  full : ∀ list, message.wantlist = some list → list.full = 0 ∨ list.full = 1
  some : message.raw ≠ [] ∨ message.sent ≠ [] ∨ message.wantlist.isSome

def BitswapWantlist.items (list : BitswapWantlist) : List Item :=
  list.wants.map (fun want => .bytes 1 .lengthDelimited want.bytes) ++
    [.varint 2 .varint list.full.toNat]

def BitswapWantlist.bytes (list : BitswapWantlist) : List UInt8 := itemsBytes list.items

def BitswapMessage.items (message : BitswapMessage) : List Item :=
  message.raw.map (fun block => .bytes 1 .lengthDelimited block.data) ++
    message.sent.map (fun block => .bytes 2 .lengthDelimited (blockBytes block)) ++
    message.wantlist.toList.map fun list => .bytes 3 .lengthDelimited list.bytes

def BitswapMessage.bytes (message : BitswapMessage) : List UInt8 := itemsBytes message.items

/-- the size that is computed for a message whose want list has a vector -/
def BitswapMessage.size (message : BitswapMessage) : Nat :=
  (message.raw.map fun block => 11 + block.data.length).sum +
    (message.sent.map fun block => 11 + blocksBlockProtobufEncodeSize block).sum +
    (message.wantlist.toList.map fun list => wantsSize list.wants).sum + (11 + 12 + 11)

def BitswapMessage.RoundTrips (message : BitswapMessage) : Prop :=
  ∃ size bytes decoded, bitswapMessageProtobufEncodeSize message = .ok size ∧
    bitswapMessageProtobufEncode message size = .ok bytes ∧
    bitswapMessageProtobufDecode bytes = .ok (some (some decoded)) ∧
    SameMessage decoded message

/-! ## what can be written and read at each level -/

structure Want.Convertible (want : Want) : Prop where
  writable : Writable want.items (33 + want.block.length)
  readable : Readable want.items

/-- a want list as `ipfs_bitswap_wantlist_new` makes it has no vector -/
structure BitswapWantlist.Convertible (list : BitswapWantlist) : Prop where
  entries : list.entries ≠ none
  wants : ∀ want ∈ list.wants, want.Convertible
  writable : Writable list.items (wantsSize list.wants)
  readable : Readable list.items

structure BitswapMessage.Convertible (message : BitswapMessage) : Prop where
  sent : ∀ block ∈ message.sent, block.Convertible
  wantlist : ∀ list, message.wantlist = some list → list.Convertible
  writable : Writable message.items message.size
  readable : Readable message.items

/-- what is stored along a sequence of fields is stored at each of them -/
theorem store_of_applyItems {σ : Type} {fields : Int → FieldCase σ} {items : List Item} {s r : σ}
    {i : Item} (h : applyItems fields items s = .ok (some r)) (hi : i ∈ items) :
    ∃ t t', i.store fields t = .ok (some t') := by
  induction items generalizing s with
  | nil => cases hi
  | cons j items ih =>
    rw [applyItems_cons] at h
    obtain ⟨x, hx, h⟩ := bind_eq_ok.1 h
    cases x with
    | none => cases h
    | some t =>
      rcases List.mem_cons.1 hi with rfl | hi
      · exact ⟨s, t, hx⟩
      · exact ih h hi

section
variable {block : Block} {want : Want} {room : Nat} {out : List UInt8}

/-! ## blocks -/

theorem Block.Addressed.decoded (h : block.Addressed) : block.decoded = block := by
  obtain ⟨cid, hcid, -, h0, h128, -⟩ := h
  have hdecoded : cid.decoded = cid := Cid.decoded_eq_iff.2 ⟨by omega, h128⟩
  unfold Block.decoded
  rw [hcid, Option.map_some, hdecoded, ← hcid]

/-! ## entries -/

theorem wantlistEntryProtobufEncode_eq_ok (hlen : want.bytes.length < 2 ^ 64) :
    wantlistEntryProtobufEncode want.entry room = .ok out ↔
      out = want.bytes ∧ Writable want.items room :=
  encodeItems_eq_ok (items_object want.items_wordSized hlen)

theorem encodesItem_encodeEntryField (hlen : want.bytes.length < 2 ^ 64)
    (h : Writable want.items (33 + want.block.length)) :
    EncodesItem (encodeEntryField want.entry) (.bytes 1 .lengthDelimited want.bytes) := by
  have hitem : EncodesItem _ (.bytes 1 .lengthDelimited want.bytes) :=
    Item.encodesItem (show (1 : Nat) < 16 by norm_num) hlen
  have hsize : wantlistEntryProtobufEncodeSize want.entry = .ok (33 + want.block.length) := rfl
  intro room out
  unfold encodeEntryField
  rw [hsize, ok_bind, (wantlistEntryProtobufEncode_eq_ok hlen).2 ⟨rfl, h⟩, ok_bind]
  exact hitem room out

theorem writable_of_encodeEntryField (hlen : want.bytes.length < 2 ^ 64)
    (h : encodeEntryField want.entry room = .ok out) :
    Writable want.items (33 + want.block.length) := by
  obtain ⟨size, hsize, h⟩ := bind_eq_ok.1 h
  obtain ⟨temp, htemp, -⟩ := bind_eq_ok.1 h
  cases hsize
  exact ((wantlistEntryProtobufEncode_eq_ok hlen).1 htemp).2

theorem wantlistEntryProtobufDecode_eq_ok (hlen : want.bytes.length ≤ ptrdiffMax)
    {r : Option WantlistEntry} :
    wantlistEntryProtobufDecode want.bytes = .ok (some r) ↔
      Readable want.items ∧ r = want.entry := by
  have hitems : ∀ i ∈ want.items, i.WordSized ∧ i.Accepted wantlistEntryFields :=
    fun i hi => ⟨want.items_wordSized i hi, want.items_accepted i hi⟩
  have hdecode {s : WantlistEntry} : decodeFields wantlistEntryFields want.bytes {} =
      .ok (some s) ↔ Readable want.items ∧ applyItems wantlistEntryFields want.items {} =
        .ok (some s) := decodeFields_eq_some hitems hlen
  have happly : applyItems wantlistEntryFields want.items {} = .ok want.entry := by
    show Except.ok (some _) = _
    rw [Want.entry, UInt8.ofNat_toNat, UInt32.ofNat_toNat]
  have hne : want.bytes.length ≠ 0 := by
    have hle := itemsBytes_length_le want.items
    have h3 : want.items.length = 3 := rfl
    show (itemsBytes want.items).length ≠ 0
    omega
  unfold wantlistEntryProtobufDecode
  rw [if_neg hne]
  constructor
  · intro h
    obtain ⟨x, hx, h⟩ := bind_eq_ok.1 h
    cases x with
    | none => cases h
    | some s =>
      obtain ⟨hread, hs⟩ := hdecode.1 hx
      rw [happly] at hs
      cases h
      exact ⟨hread, (Except.ok.inj hs).symm⟩
  · rintro ⟨hread, rfl⟩
    exact bind_eq_ok.2 ⟨_, hdecode.2 ⟨hread, happly⟩, rfl⟩

/-! ## want lists -/

theorem BitswapWantlist.items_ok (list : BitswapWantlist) :
    ∀ i ∈ list.items, i.WordSized ∧ i.Accepted wantlistFields := by
  have hfull := list.full.toNat_lt
  intro i hi
  rcases List.mem_append.1 hi with hi | hi
  · obtain ⟨want, -, rfl⟩ := List.mem_map.1 hi
    exact ⟨(by norm_num : (1 : Nat) < 16), trivial⟩
  · obtain rfl := List.mem_singleton.1 hi
    exact ⟨⟨by norm_num, by omega⟩, trivial⟩

theorem BitswapWantlist.want_bytes_le {list : BitswapWantlist} (h : want ∈ list.wants) :
    want.bytes.length ≤ list.bytes.length := by
  have hmem : Item.bytes 1 .lengthDelimited want.bytes ∈ list.items :=
    List.mem_append_left _ (List.mem_map_of_mem h)
  exact length_le_itemsBytes hmem

theorem wantlistProtobufEncodeSize_eq_ok {list : BitswapWantlist}
    (hstored : list.entries.getD [] = list.wants.map Want.entry) {size : Nat} :
    wantlistProtobufEncodeSize (some list) = .ok size ↔
      list.entries ≠ none ∧ size = wantsSize list.wants := by
  show (deref list.entries >>= _) = _ ↔ _
  cases he : list.entries with
  | none =>
    refine ⟨fun h => ?_, fun h => absurd rfl h.1⟩
    cases h
  | some entries =>
    rw [he, Option.getD_some] at hstored
    rw [deref_some, ok_bind, hstored, wantlistEntriesSize_eq, ok_bind]
    refine ⟨fun h => ?_, fun h => ?_⟩
    · cases h
      exact ⟨Option.some_ne_none _, rfl⟩
    · rw [h.2]
      rfl

/-- the encoder of a want list, when it has a vector -/
theorem wantlistProtobufEncode_eq_ok {list : BitswapWantlist} (hlen : list.bytes.length < 2 ^ 64)
    (hstored : list.entries.getD [] = list.wants.map Want.entry) :
    wantlistProtobufEncode (some list) room = .ok out ↔
      list.entries ≠ none ∧ (∀ want ∈ list.wants,
        Writable want.items (33 + want.block.length)) ∧
        out = list.bytes ∧ Writable list.items room := by
  have hwant : ∀ want ∈ list.wants, want.bytes.length < 2 ^ 64 := fun want hw =>
    lt_of_le_of_lt (BitswapWantlist.want_bytes_le hw) hlen
  have hfull := list.full.toNat_lt
  have hlast : EncodesItem (protobufEncodeVarint 2 .varint list.full.toNat)
      (.varint 2 .varint list.full.toNat) :=
    @Item.encodesItem (.varint 2 .varint list.full.toNat) ⟨by norm_num, by omega⟩ trivial
  have hall (h : ∀ want ∈ list.wants, Writable want.items (33 + want.block.length)) :
      List.Forall₂ EncodesItem ((list.wants.map Want.entry).map encodeEntryField ++
        [protobufEncodeVarint 2 .varint list.full.toNat]) list.items := by
    refine List.rel_append ?_ (.cons hlast .nil)
    rw [List.map_map]
    exact forall₂_map fun want hw => encodesItem_encodeEntryField (hwant want hw) (h want hw)
  show (deref list.entries >>= _) = _ ↔ _
  cases he : list.entries with
  | none =>
    refine ⟨fun h => ?_, fun h => absurd rfl h.1⟩
    cases h
  | some entries =>
    rw [he, Option.getD_some] at hstored
    rw [deref_some, ok_bind, hstored]
    constructor
    · intro h
      have hwrite : ∀ want ∈ list.wants, Writable want.items (33 + want.block.length) := by
        intro want hw
        obtain ⟨room', out', h'⟩ := encodeAll_ok_of_mem h
          (List.mem_append_left _ (List.mem_map_of_mem (List.mem_map_of_mem hw)))
        exact writable_of_encodeEntryField (hwant want hw) h'
      obtain ⟨hout, hroom⟩ := (encodeAll_eq_ok (hall hwrite)).1 h
      exact ⟨Option.some_ne_none _, hwrite, hout, hroom⟩
    · rintro ⟨-, hwrite, hout, hroom⟩
      exact (encodeAll_eq_ok (hall hwrite)).2 ⟨hout, hroom⟩

/-- the want list as it is read back -/
def BitswapWantlist.decoded (list : BitswapWantlist) : BitswapWantlist where
  entries := appended none (list.wants.map Want.entry)
  full := list.full

theorem wantlistProtobufDecode_eq_ok {list : BitswapWantlist}
    (hlen : list.bytes.length ≤ ptrdiffMax) {r : Option BitswapWantlist} :
    wantlistProtobufDecode list.bytes = .ok (some r) ↔
      Readable list.items ∧ (∀ want ∈ list.wants, Readable want.items) ∧
        r = some list.decoded := by
  have hwant : ∀ want ∈ list.wants, want.bytes.length ≤ ptrdiffMax := fun want hw =>
    le_trans (BitswapWantlist.want_bytes_le hw) hlen
  have hdecode {s : BitswapWantlist} : decodeFields wantlistFields list.bytes {} =
      .ok (some s) ↔ Readable list.items ∧ applyItems wantlistFields list.items {} =
        .ok (some s) := decodeFields_eq_some list.items_ok hlen
  have happly (h : ∀ want ∈ list.wants, Readable want.items) :
      applyItems wantlistFields list.items {} = .ok (some list.decoded) := by
    unfold BitswapWantlist.items
    rw [applyItems_append_of (applyItems_wants fun want hw =>
      (wantlistEntryProtobufDecode_eq_ok (hwant want hw)).2 ⟨h want hw, rfl⟩)]
    show Except.ok (some _) = _
    rw [UInt8.ofNat_toNat]
    rfl
  have hne : list.bytes.length ≠ 0 := by
    have hle := itemsBytes_length_le list.items
    have h1 : 0 < list.items.length := by
      rw [BitswapWantlist.items, List.length_append]
      exact Nat.succ_pos _
    show (itemsBytes list.items).length ≠ 0
    omega
  unfold wantlistProtobufDecode
  rw [if_neg hne]
  constructor
  · intro h
    obtain ⟨x, hx, h⟩ := bind_eq_ok.1 h
    cases x with
    | none => cases h
    | some s =>
      cases h
      obtain ⟨hread, hs⟩ := hdecode.1 hx
      have hwants : ∀ want ∈ list.wants, Readable want.items := by
        intro want hw
        obtain ⟨t, t', ht⟩ := store_of_applyItems hs
          (List.mem_append_left _ (List.mem_map_of_mem hw))
        obtain ⟨r, hr, ht⟩ := bind_eq_ok.1 ht
        cases r with
        | none => cases ht
        | some r => exact ((wantlistEntryProtobufDecode_eq_ok (hwant want hw)).1 hr).1
      rw [happly hwants] at hs
      exact ⟨hread, hwants, (Except.ok.inj hs).symm⟩
  · rintro ⟨hread, hwants, rfl⟩
    exact bind_eq_ok.2 ⟨_, hdecode.2 ⟨hread, happly hwants⟩, rfl⟩

end

/-! ## messages -/

/-- fields that are each within a bound are together within the sum of the bounds -/
theorem itemsBytes_map_length_le {α : Type} {xs : List α} {item : α → Item} {bound : α → Nat}
    (h : ∀ x ∈ xs, (item x).enc.length ≤ bound x) :
    (itemsBytes (xs.map item)).length ≤ (xs.map bound).sum := by
  induction xs with
  | nil => exact Nat.le_refl 0
  | cons x xs ih =>
    have hx := h x List.mem_cons_self
    have hxs := ih fun y hy => h y (List.mem_cons_of_mem _ hy)
    rw [List.map_cons, List.map_cons, itemsBytes_cons, List.length_append, List.sum_cons]
    omega

theorem BitswapWantlist.bytes_length_le (list : BitswapWantlist) :
    list.bytes.length + 13 ≤ wantsSize list.wants := by
  have hfull := varintField_length_le 2 .varint list.full.toNat
  have hwants : (itemsBytes (list.wants.map fun want =>
      .bytes 1 .lengthDelimited want.bytes)).length ≤
      (list.wants.map fun want => 33 + want.block.length).sum :=
    itemsBytes_map_length_le fun want _ => want.bytesField_length_le
  unfold BitswapWantlist.bytes BitswapWantlist.items wantsSize
  rw [itemsBytes_append, List.length_append, itemsBytes_cons, itemsBytes_nil, List.append_nil,
    Item.enc_varint]
  omega

section
variable {message : BitswapMessage} {block : Block} {list : BitswapWantlist} {room : Nat}
  {out : List UInt8}

theorem BitswapMessage.bytes_length_le (message : BitswapMessage) :
    message.bytes.length ≤ message.size := by
  have hraw : (itemsBytes (message.raw.map fun block =>
      .bytes 1 .lengthDelimited block.data)).length ≤
      (message.raw.map fun block => 11 + block.data.length).sum := by
    refine itemsBytes_map_length_le fun block _ => ?_
    have h := bytesField_length_le 1 .lengthDelimited block.data (by norm_num)
    rw [Item.enc_bytes]
    omega
  have hsent : (itemsBytes (message.sent.map fun block =>
      .bytes 2 .lengthDelimited (blockBytes block))).length ≤
      (message.sent.map fun block => 11 + blocksBlockProtobufEncodeSize block).sum := by
    refine itemsBytes_map_length_le fun block _ => ?_
    have h := bytesField_length_le 2 .lengthDelimited (blockBytes block) (by norm_num)
    have hblock := blockBytes_length_le block
    rw [Item.enc_bytes]
    omega
  have hlist : (itemsBytes (message.wantlist.toList.map fun list =>
      .bytes 3 .lengthDelimited list.bytes)).length ≤
      (message.wantlist.toList.map fun list => wantsSize list.wants).sum := by
    refine itemsBytes_map_length_le fun list _ => ?_
    have h := bytesField_length_le 3 .lengthDelimited list.bytes (by norm_num)
    have hbytes := list.bytes_length_le
    rw [Item.enc_bytes]
    omega
  unfold BitswapMessage.bytes BitswapMessage.items BitswapMessage.size
  rw [itemsBytes_append, itemsBytes_append, List.length_append, List.length_append]
  omega

theorem BitswapMessage.items_ok (message : BitswapMessage) :
    ∀ i ∈ message.items, i.WordSized ∧ i.Accepted bitswapMessageFields := by
  intro i hi
  rcases List.mem_append.1 hi with hi | hi
  · rcases List.mem_append.1 hi with hi | hi
    · obtain ⟨block, -, rfl⟩ := List.mem_map.1 hi
      exact ⟨(by norm_num : (1 : Nat) < 16), trivial⟩
    · obtain ⟨block, -, rfl⟩ := List.mem_map.1 hi
      exact ⟨(by norm_num : (2 : Nat) < 16), trivial⟩
  · obtain ⟨list, -, rfl⟩ := List.mem_map.1 hi
    exact ⟨(by norm_num : (3 : Nat) < 16), trivial⟩

theorem BitswapMessage.mem_sent (h : block ∈ message.sent) :
    Item.bytes 2 .lengthDelimited (blockBytes block) ∈ message.items :=
  List.mem_append_left _ (List.mem_append_right _ (List.mem_map_of_mem h))

theorem BitswapMessage.mem_wantlist (h : message.wantlist = some list) :
    Item.bytes 3 .lengthDelimited list.bytes ∈ message.items :=
  List.mem_append_right _ (List.mem_map_of_mem (Option.mem_toList.2 h))

theorem BitswapMessage.bytes_ne_nil
    (h : message.raw ≠ [] ∨ message.sent ≠ [] ∨ message.wantlist.isSome) :
    message.bytes.length ≠ 0 := by
  have hle := itemsBytes_length_le message.items
  have hpos : 0 < message.items.length := by
    unfold BitswapMessage.items
    simp only [List.length_append, List.length_map]
    rcases h with h | h | h
    · have := List.length_pos_iff.2 h
      omega
    · have := List.length_pos_iff.2 h
      omega
    · obtain ⟨list, hl⟩ := Option.isSome_iff_exists.1 h
      rw [hl, Option.toList_some, List.length_singleton]
      omega
  show (itemsBytes message.items).length ≠ 0
  omega

/-! ### encoding -/

theorem bitswapMessageProtobufEncodeSize_eq_ok (hstored : ∀ list, message.wantlist = some list →
      list.entries.getD [] = list.wants.map Want.entry) {size : Nat} :
    bitswapMessageProtobufEncodeSize message = .ok size ↔
      (∀ list, message.wantlist = some list → list.entries ≠ none) ∧ size = message.size := by
  show (wantlistProtobufEncodeSize message.wantlist >>= _) = _ ↔ _
  unfold BitswapMessage.size BitswapMessage.raw BitswapMessage.sent
  cases hw : message.wantlist with
  | none =>
    rw [wantlistProtobufEncodeSize, ok_bind]
    refine ⟨fun h => ⟨fun list hl => ?_, (Except.ok.inj h).symm⟩, fun h => ?_⟩
    · cases hl
    · rw [h.2]
      rfl
  | some list =>
    have hsize {n : Nat} := @wantlistProtobufEncodeSize_eq_ok list (hstored list hw) n
    constructor
    · intro h
      obtain ⟨n, hn, h⟩ := bind_eq_ok.1 h
      obtain ⟨hentries, rfl⟩ := hsize.1 hn
      refine ⟨fun list' hl => ?_, (Except.ok.inj h).symm⟩
      obtain rfl := Option.some.inj hl
      exact hentries
    · rintro ⟨hentries, rfl⟩
      exact bind_eq_ok.2 ⟨_, hsize.2 ⟨hentries list rfl, rfl⟩, rfl⟩

theorem encodeBlockField_ok (hlen : (blockBytes block).length < 2 ^ 64)
    (h : encodeBlockField block room = .ok out) :
    blocksBlockProtobufEncode block (blocksBlockProtobufEncodeSize block) =
      .ok (blockBytes block) := by
  obtain ⟨temp, htemp, -⟩ := bind_eq_ok.1 h
  rw [htemp, ((blocksBlockProtobufEncode_eq_ok hlen).1 htemp).1]

theorem encodesItem_encodeBlockField (hlen : (blockBytes block).length < 2 ^ 64)
    (h : blocksBlockProtobufEncode block (blocksBlockProtobufEncodeSize block) =
      .ok (blockBytes block)) :
    EncodesItem (encodeBlockField block) (.bytes 2 .lengthDelimited (blockBytes block)) := by
  have hitem : EncodesItem _ (.bytes 2 .lengthDelimited (blockBytes block)) :=
    Item.encodesItem (show (2 : Nat) < 16 by norm_num) hlen
  intro room out
  unfold encodeBlockField
  rw [h, ok_bind]
  exact hitem room out

/-- the want list is written into the buffer made for it -/
def BitswapWantlist.Written (list : BitswapWantlist) : Prop :=
  wantlistProtobufEncodeSize (some list) = .ok (wantsSize list.wants) ∧
    wantlistProtobufEncode (some list) (wantsSize list.wants) = .ok list.bytes

theorem written_of_encodeWantlistField (hlen : list.bytes.length < 2 ^ 64)
    (hstored : list.entries.getD [] = list.wants.map Want.entry)
    (h : encodeWantlistField list room = .ok out) : list.Written := by
  obtain ⟨size, hsize, h⟩ := bind_eq_ok.1 h
  obtain ⟨temp, htemp, -⟩ := bind_eq_ok.1 h
  obtain ⟨-, rfl⟩ := (wantlistProtobufEncodeSize_eq_ok hstored).1 hsize
  obtain ⟨-, -, rfl, -⟩ := (wantlistProtobufEncode_eq_ok hlen hstored).1 htemp
  exact ⟨hsize, htemp⟩

theorem encodesItem_encodeWantlistField (hlen : list.bytes.length < 2 ^ 64) (h : list.Written) :
    EncodesItem (encodeWantlistField list) (.bytes 3 .lengthDelimited list.bytes) := by
  have hitem : EncodesItem _ (.bytes 3 .lengthDelimited list.bytes) :=
    Item.encodesItem (show (3 : Nat) < 16 by norm_num) hlen
  intro room out
  unfold encodeWantlistField
  rw [h.1, ok_bind, h.2, ok_bind]
  exact hitem room out

/-- the encoder of a message, when what it nests can be encoded -/
theorem bitswapMessageProtobufEncode_eq_ok (hlen : message.bytes.length < 2 ^ 64)
    (hsent : ∀ block ∈ message.sent, blocksBlockProtobufEncode block
      (blocksBlockProtobufEncodeSize block) = .ok (blockBytes block))
    (hlist : ∀ list, message.wantlist = some list → list.Written) :
    bitswapMessageProtobufEncode message room = .ok out ↔
      out = message.bytes ∧ Writable message.items room := by
  have hobject := items_object (fun i hi => (message.items_ok i hi).1) hlen
  refine encodeAll_eq_ok (List.rel_append (List.rel_append (forall₂_map fun block hb => ?_)
    (forall₂_map fun block hb => ?_)) (forall₂_map fun list hl => ?_))
  · have hmem : Item.bytes 1 .lengthDelimited block.data ∈ message.items :=
      List.mem_append_left _ (List.mem_append_left _ (List.mem_map.2 ⟨block, hb, rfl⟩))
    exact Item.encodesItem (hobject _ hmem).1 (hobject _ hmem).2
  · have hle := length_le_itemsBytes (BitswapMessage.mem_sent hb)
    exact encodesItem_encodeBlockField (lt_of_le_of_lt hle hlen) (hsent block hb)
  · have hl := Option.mem_toList.1 hl
    have hle := length_le_itemsBytes (BitswapMessage.mem_wantlist hl)
    exact encodesItem_encodeWantlistField (lt_of_le_of_lt hle hlen) (hlist list hl)

/-! ### decoding -/

/-- the message as it is read back -/
def BitswapMessage.decoded (message : BitswapMessage) : BitswapMessage where
  blocks := appended none (message.raw.map fun block => { data := block.data })
  payload := appended none (message.sent.map Block.decoded)
  wantlist := message.wantlist.map BitswapWantlist.decoded

theorem BitswapMessage.Proper.sameMessage (h : message.Proper) :
    SameMessage message.decoded message := by
  refine ⟨?_, ?_, ?_⟩
  · show (appended none _).getD [] = _
    rw [appended_getD, Option.getD_none, List.nil_append]
    refine (List.map_congr_left fun block hb => ?_).trans (List.map_id _)
    show ({ data := block.data } : Block) = block
    rw [← h.raw block hb]
  · show (appended none _).getD [] = _
    rw [appended_getD, Option.getD_none, List.nil_append]
    exact (List.map_congr_left fun block hb => (h.sent block hb).decoded).trans (List.map_id _)
  · show (message.wantlist.map _).map _ = _
    rw [Option.map_map]
    refine Option.map_congr fun list hl => ?_
    show ((appended none _).getD [], list.full) = _
    rw [appended_getD, Option.getD_none, List.nil_append, h.entries list hl]

theorem applyItems_raw {blocks : List Block} {message : BitswapMessage} :
    applyItems bitswapMessageFields
      (blocks.map fun block => .bytes 1 .lengthDelimited block.data) message =
      .ok (some { message with
        blocks := appended message.blocks (blocks.map fun block => { data := block.data }) }) := by
  induction blocks generalizing message with
  | nil => rfl
  | cons block blocks ih =>
    rw [List.map_cons, applyItems_cons]
    exact ih

theorem applyItems_sent {blocks : List Block} {message : BitswapMessage}
    (h : ∀ block ∈ blocks, blocksBlockProtobufDecode (blockBytes block) =
      .ok (some block.decoded)) :
    applyItems bitswapMessageFields
      (blocks.map fun block => .bytes 2 .lengthDelimited (blockBytes block)) message =
      .ok (some { message with
        payload := appended message.payload (blocks.map Block.decoded) }) := by
  induction blocks generalizing message with
  | nil => rfl
  | cons block blocks ih =>
    have hstore : (Item.bytes 2 .lengthDelimited (blockBytes block)).store bitswapMessageFields
        message = .ok (some { message with
          payload := some (message.payload.getD [] ++ [block.decoded]) }) := by
      show blocksBlockProtobufDecode (blockBytes block) >>= _ = _
      rw [h block List.mem_cons_self]
      rfl
    rw [List.map_cons, applyItems_cons, hstore, ok_bind]
    exact ih fun b hb => h b (List.mem_cons_of_mem _ hb)

/-- everything a message nests is read back -/
theorem applyItems_message
    (hsent : ∀ block ∈ message.sent, blocksBlockProtobufDecode (blockBytes block) =
      .ok (some block.decoded))
    (hlist : ∀ list, message.wantlist = some list →
      wantlistProtobufDecode list.bytes = .ok (some (some list.decoded))) :
    applyItems bitswapMessageFields message.items {} = .ok (some message.decoded) := by
  have hfirst : applyItems bitswapMessageFields
      (message.raw.map (fun block => .bytes 1 .lengthDelimited block.data) ++
        message.sent.map fun block => .bytes 2 .lengthDelimited (blockBytes block)) {} =
      .ok (some {
        blocks := appended none (message.raw.map fun block => { data := block.data }),
        payload := appended none (message.sent.map Block.decoded) }) := by
    rw [applyItems_append_of applyItems_raw]
    exact applyItems_sent hsent
  unfold BitswapMessage.items BitswapMessage.decoded
  rw [applyItems_append_of hfirst]
  cases hw : message.wantlist with
  | none => rfl
  | some list =>
    rw [Option.toList_some, List.map_singleton, applyItems_cons]
    show ((wantlistProtobufDecode list.bytes >>= _) >>= _) = _
    rw [hlist list hw]
    rfl

theorem bitswapMessageProtobufDecode_eq_ok (hne : message.bytes.length ≠ 0)
    (hlen : message.bytes.length ≤ ptrdiffMax) {decoded : BitswapMessage} :
    bitswapMessageProtobufDecode message.bytes = .ok (some (some decoded)) ↔
      Readable message.items ∧
        applyItems bitswapMessageFields message.items {} = .ok (some decoded) := by
  have hdecode {s : BitswapMessage} : decodeFields bitswapMessageFields message.bytes {} =
      .ok (some s) ↔ Readable message.items ∧ applyItems bitswapMessageFields message.items {} =
        .ok (some s) := decodeFields_eq_some message.items_ok hlen
  unfold bitswapMessageProtobufDecode
  rw [if_neg hne, ← hdecode]
  constructor
  · intro h
    obtain ⟨x, hx, h⟩ := bind_eq_ok.1 h
    cases x with
    | none => cases h
    | some s =>
      cases h
      exact hx
  · intro h
    exact bind_eq_ok.2 ⟨_, h, rfl⟩

/-- nothing nested is larger than what it is in -/
structure BitswapMessage.Sized (message : BitswapMessage) : Prop where
  bytes : message.bytes.length ≤ ptrdiffMax
  sent : ∀ block ∈ message.sent, (blockBytes block).length ≤ ptrdiffMax
  wantlist : ∀ list, message.wantlist = some list → list.bytes.length ≤ ptrdiffMax

theorem BitswapMessage.sized_of_le (hsize : message.size ≤ ptrdiffMax) : message.Sized := by
  have hlen : message.bytes.length ≤ ptrdiffMax := le_trans message.bytes_length_le hsize
  exact ⟨hlen,
    fun block hb => le_trans (length_le_itemsBytes (BitswapMessage.mem_sent hb)) hlen,
    fun list hl => le_trans (length_le_itemsBytes (BitswapMessage.mem_wantlist hl)) hlen⟩

theorem lt_of_le_ptrdiffMax {n : Nat} (h : n ≤ ptrdiffMax) : n < 2 ^ 64 := by
  unfold ptrdiffMax at h
  omega

/-- every nested encoder has succeeded when the message's has -/
theorem written_of_encode (hproper : message.Proper) (hsized : message.Sized) {size : Nat}
    {bytes : List UInt8} (henc : bitswapMessageProtobufEncode message size = .ok bytes) :
    (∀ block ∈ message.sent, blocksBlockProtobufEncode block
      (blocksBlockProtobufEncodeSize block) = .ok (blockBytes block)) ∧
    ∀ list, message.wantlist = some list → list.Written := by
  constructor
  · intro block hb
    obtain ⟨room, out, hfield⟩ := encodeAll_ok_of_mem henc
      (List.mem_append_left _ (List.mem_append_right _ (List.mem_map_of_mem hb)))
    exact encodeBlockField_ok (lt_of_le_ptrdiffMax (hsized.sent block hb)) hfield
  · intro list hl
    obtain ⟨room, out, hfield⟩ := encodeAll_ok_of_mem henc
      (List.mem_append_right _ (List.mem_map_of_mem (Option.mem_toList.2 hl)))
    exact written_of_encodeWantlistField (lt_of_le_ptrdiffMax (hsized.wantlist list hl))
      (hproper.entries list hl) hfield

theorem convertible_of_roundTrips (hproper : message.Proper) (hsized : message.Sized)
    (h : message.RoundTrips) : message.Convertible := by
  obtain ⟨size, bytes, decoded, hcomputed, henc, hdec, -⟩ := h
  obtain ⟨hentries, rfl⟩ := (bitswapMessageProtobufEncodeSize_eq_ok hproper.entries).1 hcomputed
  obtain ⟨hsent, hlist⟩ := written_of_encode hproper hsized henc
  obtain ⟨rfl, hwritable⟩ := (bitswapMessageProtobufEncode_eq_ok
    (lt_of_le_ptrdiffMax hsized.bytes) hsent hlist).1 henc
  -- every nested decoder has succeeded too
  obtain ⟨hread, happly⟩ := (bitswapMessageProtobufDecode_eq_ok
    (BitswapMessage.bytes_ne_nil hproper.some) hsized.bytes).1 hdec
  refine ⟨fun block hb => ?_, fun list hl => ?_, hwritable, hread⟩
  · obtain ⟨-, hwrite, hwriteCid⟩ := (blocksBlockProtobufEncode_eq_ok
      (lt_of_le_ptrdiffMax (hsized.sent block hb))).1 (hsent block hb)
    obtain ⟨t, t', ht⟩ := store_of_applyItems happly (BitswapMessage.mem_sent hb)
    obtain ⟨r, hr, ht⟩ := bind_eq_ok.1 ht
    cases r with
    | none => cases ht
    | some r =>
      obtain ⟨hreadBlock, hreadCid, -⟩ :=
        (blocksBlockProtobufDecode_eq_some (hsized.sent block hb)).1 hr
      exact ⟨fun cid hc => ⟨hwriteCid cid hc, hreadCid cid hc⟩, hwrite, hreadBlock⟩
  · obtain ⟨-, hwriteWants, -, hwrite⟩ := (wantlistProtobufEncode_eq_ok
      (lt_of_le_ptrdiffMax (hsized.wantlist list hl)) (hproper.entries list hl)).1 (hlist list hl).2
    obtain ⟨t, t', ht⟩ := store_of_applyItems happly (BitswapMessage.mem_wantlist hl)
    obtain ⟨r, hr, ht⟩ := bind_eq_ok.1 ht
    cases r with
    | none => cases ht
    | some r =>
      obtain ⟨hreadList, hreadWants, -⟩ :=
        (wantlistProtobufDecode_eq_ok (hsized.wantlist list hl)).1 hr
      exact ⟨hentries list hl, fun want hw => ⟨hwriteWants want hw, hreadWants want hw⟩, hwrite,
        hreadList⟩

/-- the entries of the want list, as it has stored them -/
def BitswapMessage.Stored (message : BitswapMessage) : Prop :=
  ∀ list, message.wantlist = some list → list.entries.getD [] = list.wants.map Want.entry

theorem encode_of_convertible (hstored : message.Stored) (hsized : message.Sized)
    (hconv : message.Convertible) :
    bitswapMessageProtobufEncode message message.size = .ok message.bytes := by
  have hsent : ∀ block ∈ message.sent, blocksBlockProtobufEncode block
      (blocksBlockProtobufEncodeSize block) = .ok (blockBytes block) := fun block hb =>
    (blocksBlockProtobufEncode_eq_ok (lt_of_le_ptrdiffMax (hsized.sent block hb))).2
      ⟨rfl, (hconv.sent block hb).writable, fun cid hc => ((hconv.sent block hb).cid cid hc).1⟩
  have hlist : ∀ list, message.wantlist = some list → list.Written := by
    intro list hl
    have hc := hconv.wantlist list hl
    exact ⟨(wantlistProtobufEncodeSize_eq_ok (hstored list hl)).2 ⟨hc.entries, rfl⟩,
      (wantlistProtobufEncode_eq_ok (lt_of_le_ptrdiffMax (hsized.wantlist list hl))
        (hstored list hl)).2
          ⟨hc.entries, fun want hw => (hc.wants want hw).writable, rfl, hc.writable⟩⟩
  exact (bitswapMessageProtobufEncode_eq_ok (lt_of_le_ptrdiffMax hsized.bytes) hsent hlist).2
    ⟨rfl, hconv.writable⟩

theorem decode_of_convertible (hne : message.bytes.length ≠ 0) (hsized : message.Sized)
    (hconv : message.Convertible) :
    bitswapMessageProtobufDecode message.bytes = .ok (some (some message.decoded)) := by
  have hsent : ∀ block ∈ message.sent, blocksBlockProtobufDecode (blockBytes block) =
      .ok (some block.decoded) := fun block hb =>
    (blocksBlockProtobufDecode_eq_some (hsized.sent block hb)).2 ⟨(hconv.sent block hb).readable,
      fun cid hc => ((hconv.sent block hb).cid cid hc).2, rfl⟩
  have hlist : ∀ list, message.wantlist = some list →
      wantlistProtobufDecode list.bytes = .ok (some (some list.decoded)) := fun list hl =>
    (wantlistProtobufDecode_eq_ok (hsized.wantlist list hl)).2 ⟨(hconv.wantlist list hl).readable,
      fun want hw => ((hconv.wantlist list hl).wants want hw).readable, rfl⟩
  exact (bitswapMessageProtobufDecode_eq_ok hne hsized.bytes).2
    ⟨hconv.readable, applyItems_message hsent hlist⟩

theorem roundTrips_of_convertible (hproper : message.Proper) (hsized : message.Sized)
    (hconv : message.Convertible) : message.RoundTrips :=
  ⟨message.size, message.bytes, message.decoded,
    (bitswapMessageProtobufEncodeSize_eq_ok hproper.entries).2
      ⟨fun list hl => (hconv.wantlist list hl).entries, rfl⟩,
    encode_of_convertible hproper.entries hsized hconv,
    decode_of_convertible (BitswapMessage.bytes_ne_nil hproper.some) hsized hconv,
    hproper.sameMessage⟩

/-- **the round trip** of a message in a buffer of the size computed for it -/
theorem messageRoundTrips_iff (hproper : message.Proper) (hsize : message.size ≤ ptrdiffMax) :
    message.RoundTrips ↔ message.Convertible :=
  ⟨convertible_of_roundTrips hproper (BitswapMessage.sized_of_le hsize),
    roundTrips_of_convertible hproper (BitswapMessage.sized_of_le hsize)⟩

/-! ### sizes that are an `int` -/

theorem BitswapWantlist.convertible_of_lt (hentries : list.entries ≠ none)
    (hsize : wantsSize list.wants < 2 ^ 31) : list.Convertible := by
  have hbytes := list.bytes_length_le
  refine ⟨hentries, fun want hw => ?_, ?_, ?_⟩
  · have hmem : 33 + want.block.length ∈ list.wants.map fun want => 33 + want.block.length :=
      List.mem_map_of_mem hw
    have hsum := List.le_sum_of_mem hmem
    have hle := want.bytes_length_le
    have hint : 33 + want.block.length < 2 ^ 31 := by
      unfold wantsSize at hsize
      omega
    exact ⟨writable_of_lt want.items_wordSized (by unfold Want.bytes at hle; omega) hint,
      readable_of_lt (by unfold Want.bytes at hle; omega)⟩
  · refine writable_of_lt (fun i hi => (list.items_ok i hi).1) ?_ hsize
    show list.bytes.length ≤ _
    omega
  · refine readable_of_lt ?_
    show list.bytes.length < 2 ^ 31
    omega

/-- in particular when the computed size is an `int` -/
theorem BitswapMessage.convertible_of_lt (hsize : message.size < 2 ^ 31)
    (hentries : ∀ list, message.wantlist = some list → list.entries ≠ none) :
    message.Convertible := by
  refine ⟨fun block hb => Block.convertible_of_lt ?_,
    fun list hl => BitswapWantlist.convertible_of_lt (hentries list hl) ?_,
    writable_of_lt (fun i hi => (message.items_ok i hi).1) message.bytes_length_le hsize,
    readable_of_lt (lt_of_le_of_lt message.bytes_length_le hsize)⟩
  · have hmem : 11 + blocksBlockProtobufEncodeSize block ∈
        message.sent.map fun block => 11 + blocksBlockProtobufEncodeSize block :=
      List.mem_map_of_mem hb
    have hsum := List.le_sum_of_mem hmem
    unfold BitswapMessage.size at hsize
    omega
  · unfold BitswapMessage.size at hsize
    rw [hl, Option.toList_some, List.map_singleton, List.sum_singleton] at hsize
    omega

/-! ### messages as they are sent -/

variable {payload : List Block} {wants : List Want}

theorem sent_outgoing : (outgoing payload wants).sent = payload := by
  unfold outgoing BitswapMessage.sent
  cases payload with
  | nil => rfl
  | cons block payload => rfl

theorem wants_map_entry (full : UInt8) :
    BitswapWantlist.wants { entries := some (wants.map Want.entry), full := full } = wants := by
  induction wants with
  | nil => rfl
  | cons want wants ih => exact congrArg (want :: ·) ih

theorem stored_outgoing : (outgoing payload wants).Stored := by
  intro list hl
  obtain rfl := Option.some.inj hl
  rw [wants_map_entry]
  rfl

theorem size_outgoing : (outgoing payload wants).size = messageSize payload wants := by
  unfold BitswapMessage.size messageSize
  rw [sent_outgoing]
  show 0 + _ + (wantsSize (BitswapWantlist.wants _) + 0) + _ = _
  rw [wants_map_entry]
  omega

theorem bytes_outgoing : (outgoing payload wants).bytes = messageBytes payload wants := by
  have hlist : BitswapWantlist.bytes { entries := some (wants.map Want.entry) } =
      itemsBytes (wantsItems wants) := by
    unfold BitswapWantlist.bytes BitswapWantlist.items
    rw [wants_map_entry]
    rfl
  unfold BitswapMessage.bytes BitswapMessage.items messageBytes messageItems
  rw [sent_outgoing, ← hlist]
  rfl

theorem decoded_outgoing : (outgoing payload wants).decoded = incoming payload wants := by
  have hlist : BitswapWantlist.decoded { entries := some (wants.map Want.entry) } =
      { entries := appended none (wants.map Want.entry) } := by
    unfold BitswapWantlist.decoded
    rw [wants_map_entry]
  unfold BitswapMessage.decoded incoming
  rw [sent_outgoing, ← hlist]
  rfl

theorem convertible_outgoing (h : messageSize payload wants < 2 ^ 31) :
    (outgoing payload wants).Sized ∧ (outgoing payload wants).Convertible := by
  rw [← size_outgoing] at h
  refine ⟨BitswapMessage.sized_of_le (le_ptrdiffMax_of_lt h),
    BitswapMessage.convertible_of_lt h fun list hl => ?_⟩
  obtain rfl := Option.some.inj hl
  exact Option.some_ne_none _

theorem bitswapMessageProtobufEncodeSize_outgoing :
    bitswapMessageProtobufEncodeSize (outgoing payload wants) =
      .ok (messageSize payload wants) := by
  refine (bitswapMessageProtobufEncodeSize_eq_ok stored_outgoing).2 ⟨fun list hl => ?_,
    size_outgoing.symm⟩
  obtain rfl := Option.some.inj hl
  exact Option.some_ne_none _

/-- **encoding**: a message whose computed size is an `int` is written -/
theorem bitswapMessageProtobufEncode_outgoing (h : messageSize payload wants < 2 ^ 31) :
    bitswapMessageProtobufEncode (outgoing payload wants) (messageSize payload wants) =
      .ok (messageBytes payload wants) := by
  rw [← size_outgoing, ← bytes_outgoing]
  exact encode_of_convertible stored_outgoing (convertible_outgoing h).1 (convertible_outgoing h).2

/-- and read back, with its blocks as they are decoded -/
theorem bitswapMessageProtobufDecode_messageBytes (h : messageSize payload wants < 2 ^ 31) :
    bitswapMessageProtobufDecode (messageBytes payload wants) =
      .ok (some (some (incoming payload wants))) := by
  rw [← bytes_outgoing, ← decoded_outgoing]
  exact decode_of_convertible (BitswapMessage.bytes_ne_nil (.inr (.inr rfl)))
    (convertible_outgoing h).1 (convertible_outgoing h).2

end

/-- a message with a raw block, a block of the payload and an entry -/
def smallMessage : BitswapMessage where
  blocks := some [{ data := [1, 2] }]
  payload := some [{ data := [3], cid := some { version := 0, codec := 0x70, hash := [4] } }]
  wantlist := some { entries := some [(Want.mk [5] 1 7).entry], full := 0 }

theorem smallMessage_proper : smallMessage.Proper := by
  refine ⟨?_, ?_, ?_, ?_, .inl (by decide)⟩
  · intro block hb
    obtain rfl := List.mem_singleton.1 hb
    rfl
  · intro block hb
    obtain rfl := List.mem_singleton.1 hb
    exact ⟨_, rfl, .inl rfl, by decide, by decide, by decide⟩
  · intro list hl
    obtain rfl := Option.some.inj hl
    decide
  · intro list hl
    obtain rfl := Option.some.inj hl
    exact .inl rfl

theorem messageRoundTrips_smallMessage : smallMessage.RoundTrips := by
  have hsize : smallMessage.size = 184 := by decide
  have hint : smallMessage.size < 2 ^ 31 := by
    rw [hsize]
    norm_num
  have hobject : smallMessage.size ≤ ptrdiffMax := by
    rw [hsize]
    norm_num [ptrdiffMax]
  refine (messageRoundTrips_iff smallMessage_proper hobject).2
    (BitswapMessage.convertible_of_lt hint fun list hl => ?_)
  obtain rfl := Option.some.inj hl
  exact Option.some_ne_none _

/-- a want list to which nothing has been added has no vector, and the encoder follows it -/
theorem not_messageRoundTrips : ¬ ∀ message : BitswapMessage, message.Proper →
    message.size ≤ ptrdiffMax → message.RoundTrips := by
  intro hall
  have hproper : BitswapMessage.Proper { wantlist := some {} } := by
    refine ⟨fun block hb => ?_, fun block hb => ?_, fun list hl => ?_, fun list hl => ?_,
      .inr (.inr rfl)⟩
    · cases hb
    · cases hb
    · obtain rfl := Option.some.inj hl
      rfl
    · obtain rfl := Option.some.inj hl
      exact .inr rfl
  have hsize : BitswapMessage.size { wantlist := some {} } = 68 := by decide
  have hobject : BitswapMessage.size { wantlist := some {} } ≤ ptrdiffMax := by
    rw [hsize]
    norm_num [ptrdiffMax]
  obtain ⟨size, bytes, decoded, hcomputed, -⟩ := hall _ hproper hobject
  have hfault : bitswapMessageProtobufEncodeSize { wantlist := some {} } = .error .null := rfl
  rw [hfault] at hcomputed
  cases hcomputed

end Ipfs
