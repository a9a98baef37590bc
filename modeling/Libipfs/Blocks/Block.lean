import Libipfs.Blocks.Cid

/-!
# Blocks

A block is data under a CID.  The decoder accepts a block without a CID, without data, or with
neither; the copy follows the CID pointer.

* `blocksBlockProtobufEncode`, `blocksBlockProtobufDecode`   the codec;
* `blocksBlockProtobufDecode_blockBytes`   a block that is not too long comes back;
* `blockCopy`   the copy, which faults on a block without a CID.
-/

namespace Ipfs
open CSem Libp2p

/-- `data_length` is the length of `data` -/
structure Block where
  cid : Option Cid := none
  data : List UInt8 := []
  deriving DecidableEq, Repr

def blockNew : Block := {}

/-- the copy of a block follows the block and its CID -/
def blockCopy (original : Option Block) : Exec Block := do
  let block ← deref original
  let cid ← cidCopy block.cid
  .ok { cid := some cid, data := block.data }

theorem blockCopy_eq_ok {original : Option Block} {copy : Block} :
    blockCopy original = .ok copy ↔
      original = some copy ∧ copy.cid.isSome := by
  unfold blockCopy
  cases original with
  | none => simp
  | some b =>
    obtain ⟨cid, data⟩ := b
    cases cid with
    | none =>
      simp only [deref_some, ok_bind, cidCopy, deref_none, error_bind]
      refine ⟨fun h => ?_, fun h => ?_⟩
      · cases h
      · obtain ⟨h1, h2⟩ := h
        cases h1
        cases h2
    | some c =>
      simp only [deref_some, ok_bind, cidCopy]
      refine ⟨fun h => ?_, fun h => ?_⟩
      · cases h
        exact ⟨rfl, rfl⟩
      · obtain ⟨h1, -⟩ := h
        cases h1
        rfl

/-! ## encoding -/

def blocksBlockProtobufEncodeSize (block : Block) : Nat :=
  22 + cidProtobufEncodeSize block.cid + block.data.length

def blocksBlockProtobufEncode (block : Block) (room : Nat) : Exec (List UInt8) := do
  let data ← protobufEncodeLengthDelimited 1 .lengthDelimited block.data room
  -- the CID is encoded into a buffer of its own
  let cid ← cidProtobufEncode block.cid (cidProtobufEncodeSize block.cid)
  let field ← protobufEncodeLengthDelimited 2 .lengthDelimited cid (room - data.length)
  .ok (data ++ field)

def blockItems (block : Block) : List Item :=
  [.bytes 1 .lengthDelimited block.data, .bytes 2 .lengthDelimited (cidBytes block.cid)]

def blockBytes (block : Block) : List UInt8 := itemsBytes (blockItems block)

theorem blockItems_wordSized (block : Block) : ∀ i ∈ blockItems block, i.WordSized := by
  intro i hi
  simp only [blockItems, List.mem_cons, List.not_mem_nil, or_false] at hi
  rcases hi with rfl | rfl
  · exact (by norm_num : (1 : Nat) < 16)
  · exact (by norm_num : (2 : Nat) < 16)

private theorem writes_field (no : Nat) (h : no < 16) (d : List UInt8) :
    Writes (protobufEncodeLengthDelimited no .lengthDelimited d) (bytesField no .lengthDelimited d) :=
  Writes.protobufEncodeLengthDelimited (lt_trans h (by norm_num))

theorem blocksBlockProtobufEncode_ok {block : Block} {room : Nat} {out : List UInt8}
    (h : blocksBlockProtobufEncode block room = .ok out) :
    out = blockBytes block ∧ (blockBytes block).length ≤ room := by
  unfold blocksBlockProtobufEncode at h
  obtain ⟨data, hdata, h⟩ := bind_eq_ok.1 h
  obtain ⟨cid, hcid, h⟩ := bind_eq_ok.1 h
  obtain ⟨field, hfield, h⟩ := bind_eq_ok.1 h
  obtain ⟨rfl, h1⟩ := (writes_field 1 (by norm_num) _).exact _ _ hdata
  obtain ⟨rfl, -⟩ := (writes_cidProtobufEncode block.cid).exact _ _ hcid
  obtain ⟨rfl, h2⟩ := (writes_field 2 (by norm_num) _).exact _ _ hfield
  have e : blockBytes block = bytesField 1 .lengthDelimited block.data ++
      bytesField 2 .lengthDelimited (cidBytes block.cid) := by
    simp [blockBytes, blockItems, Item.enc_bytes]
  rw [e, List.length_append]
  exact ⟨(Except.ok.inj h).symm, by omega⟩

/-- **a block is encoded** iff it and its CID are writable -/
theorem blocksBlockProtobufEncode_eq_ok {block : Block} {room : Nat} {out : List UInt8}
    (hlen : (blockBytes block).length < 2 ^ 64) :
    blocksBlockProtobufEncode block room = .ok out ↔
      out = blockBytes block ∧ Writable (blockItems block) room ∧
        ∀ cid, block.cid = some cid →
          Writable (cidItems cid) (cidProtobufEncodeSize block.cid) := by
  have hobject := items_object (blockItems_wordSized block) hlen
  have hbytes : blockBytes block = (Item.bytes 1 .lengthDelimited block.data).enc ++
      (Item.bytes 2 .lengthDelimited (cidBytes block.cid)).enc := by
    rw [blockBytes, blockItems, itemsBytes_cons, itemsBytes_cons, itemsBytes_nil, List.append_nil]
  have hcid : cidProtobufEncode block.cid (cidProtobufEncodeSize block.cid) =
      .ok (cidBytes block.cid) ↔ ∀ cid, block.cid = some cid →
        Writable (cidItems cid) (cidProtobufEncodeSize block.cid) := by
    cases hc : block.cid with
    | none =>
      refine ⟨fun _ cid h => ?_, fun _ => rfl⟩
      cases h
    | some cid =>
      have hmem : Item.bytes 2 .lengthDelimited (cidBytes block.cid) ∈ blockItems block :=
        List.mem_cons_of_mem _ List.mem_cons_self
      have hle : (cidBytes (some cid)).length < 2 ^ 64 := by
        rw [← hc]
        exact lt_of_le_of_lt (length_le_itemsBytes hmem) hlen
      rw [cidProtobufEncode_eq_ok hle]
      refine ⟨fun h cid' h' => ?_, fun h => ⟨rfl, h cid rfl⟩⟩
      obtain rfl := Option.some.inj h'
      exact h.2
  have h1 : EncodesItem _ (.bytes 1 .lengthDelimited block.data) :=
    Item.encodesItem (hobject _ List.mem_cons_self).1 (hobject _ List.mem_cons_self).2
  have h2 : EncodesItem _ (.bytes 2 .lengthDelimited (cidBytes block.cid)) :=
    Item.encodesItem (hobject _ (List.mem_cons_of_mem _ List.mem_cons_self)).1
      (hobject _ (List.mem_cons_of_mem _ List.mem_cons_self)).2
  constructor
  · intro h
    obtain ⟨data, hdata, h⟩ := bind_eq_ok.1 h
    obtain ⟨cid, hc, h⟩ := bind_eq_ok.1 h
    obtain ⟨field, hfield, h⟩ := bind_eq_ok.1 h
    obtain ⟨rfl, hroom⟩ := (h1 _ _).1 hdata
    obtain ⟨rfl, -⟩ := (writes_cidProtobufEncode block.cid).exact _ _ hc
    obtain ⟨rfl, hrest⟩ := (h2 _ _).1 hfield
    cases h
    exact ⟨hbytes.symm, ⟨hroom, hrest, trivial⟩, hcid.1 hc⟩
  · rintro ⟨rfl, ⟨hroom, hrest, -⟩, hc⟩
    refine bind_eq_ok.2 ⟨_, (h1 _ _).2 ⟨rfl, hroom⟩, ?_⟩
    refine bind_eq_ok.2 ⟨_, hcid.2 hc, ?_⟩
    refine bind_eq_ok.2 ⟨_, (h2 _ _).2 ⟨rfl, hrest⟩, ?_⟩
    exact congrArg Except.ok hbytes.symm

/-- the size function is an upper bound -/
theorem blockBytes_length_le (block : Block) :
    (blockBytes block).length ≤ blocksBlockProtobufEncodeSize block := by
  have h1 := bytesField_length_le 1 .lengthDelimited block.data (by norm_num)
  have h2 := bytesField_length_le 2 .lengthDelimited (cidBytes block.cid) (by norm_num)
  have h3 := cidBytes_length_le block.cid
  simp only [blockBytes, blockItems, itemsBytes_cons, itemsBytes_nil, Item.enc_bytes,
    List.length_append, List.length_nil, blocksBlockProtobufEncodeSize]
  omega

theorem blocksBlockProtobufEncode_of_lt {block : Block}
    (h : blocksBlockProtobufEncodeSize block < 2 ^ 31) :
    blocksBlockProtobufEncode block (blocksBlockProtobufEncodeSize block) =
      .ok (blockBytes block) := by
  have hle := blockBytes_length_le block
  have hcid := cidBytes_length_le block.cid
  have hint : cidProtobufEncodeSize block.cid < 2 ^ 31 := by
    unfold blocksBlockProtobufEncodeSize at h
    omega
  refine (blocksBlockProtobufEncode_eq_ok (by omega)).2
    ⟨rfl, writable_of_lt (blockItems_wordSized block) hle h, fun cid hc => ?_⟩
  rw [hc] at hcid hint ⊢
  exact writable_of_lt (cidItems_wordSized cid) hcid hint

/-! ## decoding -/

def blockFields (fieldNo : Int) : FieldCase Block :=
  match fieldNo with
  | 1 => .bytes fun d block => .ok (some { block with data := d })
  | 2 => .bytes fun d block => do
    match ← cidProtobufDecode d with
    | none => .ok none
    | some cid => .ok (some { block with cid := cid })
  | _ => .skip

/-- `none` when the decoder returns 0 -/
def blocksBlockProtobufDecode (buf : List UInt8) : Exec (Option Block) :=
  decodeFields blockFields buf blockNew

/-- the block as its encoding is read back -/
def Block.decoded (block : Block) : Block := { block with cid := block.cid.map Cid.decoded }

theorem blockItems_accepted (block : Block) : ∀ i ∈ blockItems block, i.Accepted blockFields := by
  intro i hi
  simp only [blockItems, List.mem_cons, List.not_mem_nil, or_false] at hi
  rcases hi with rfl | rfl <;> exact trivial

theorem blockBytes_length (block : Block) :
    (blockBytes block).length = (bytesField 1 .lengthDelimited block.data).length +
      (bytesField 2 .lengthDelimited (cidBytes block.cid)).length := by
  simp [blockBytes, blockItems, Item.enc_bytes]

/-- **a block is decoded** iff it and its CID are readable -/
theorem blocksBlockProtobufDecode_eq_some {block : Block}
    (hlen : (blockBytes block).length ≤ ptrdiffMax) {r : Block} :
    blocksBlockProtobufDecode (blockBytes block) = .ok (some r) ↔
      Readable (blockItems block) ∧ (∀ cid, block.cid = some cid → Readable (cidItems cid)) ∧
        r = block.decoded := by
  have hitems : ∀ i ∈ blockItems block, i.WordSized ∧ i.Accepted blockFields :=
    fun i hi => ⟨blockItems_wordSized block i hi, blockItems_accepted block i hi⟩
  have hmem : Item.bytes 2 .lengthDelimited (cidBytes block.cid) ∈ blockItems block :=
    List.mem_cons_of_mem _ List.mem_cons_self
  have hle : (cidBytes block.cid).length ≤ ptrdiffMax := le_trans (length_le_itemsBytes hmem) hlen
  have hcid {c : Option Cid} : cidProtobufDecode (cidBytes block.cid) = .ok (some c) ↔
      (∀ cid, block.cid = some cid → Readable (cidItems cid)) ∧ c = block.cid.map Cid.decoded := by
    cases hc : block.cid with
    | none =>
      rw [cidBytes, cidProtobufDecode_nil]
      refine ⟨fun h => ⟨fun cid hn => ?_, ?_⟩, fun h => ?_⟩
      · cases hn
      · cases h
        rfl
      · rw [h.2]
        rfl
    | some cid =>
      rw [hc] at hle
      rw [cidProtobufDecode_eq_ok hle]
      refine ⟨fun h => ⟨fun cid' h' => ?_, h.2⟩, fun h => ⟨h.1 cid rfl, h.2⟩⟩
      obtain rfl := Option.some.inj h'
      exact h.1
  have happly : applyItems blockFields (blockItems block) blockNew =
      cidProtobufDecode (cidBytes block.cid) >>= fun c =>
        c.elim (.ok none) fun cid => .ok (some { data := block.data, cid := cid }) := by
    show ((cidProtobufDecode (cidBytes block.cid) >>= _) >>= _) = _
    cases cidProtobufDecode (cidBytes block.cid) with
    | error e => rfl
    | ok c => cases c <;> rfl
  unfold blocksBlockProtobufDecode blockBytes
  rw [decodeFields_eq_some hitems hlen, happly]
  refine and_congr_right fun hread => ?_
  constructor
  · intro h
    obtain ⟨c, hc, h⟩ := bind_eq_ok.1 h
    cases c with
    | none => cases h
    | some c =>
      cases h
      obtain ⟨hreadCid, rfl⟩ := hcid.1 hc
      exact ⟨hreadCid, rfl⟩
  · rintro ⟨hreadCid, rfl⟩
    exact bind_eq_ok.2 ⟨_, hcid.2 ⟨hreadCid, rfl⟩, rfl⟩

/-- **round trip** -/
theorem blocksBlockProtobufDecode_blockBytes (block : Block)
    (hlen : (blockBytes block).length < 2 ^ 31) :
    blocksBlockProtobufDecode (blockBytes block) = .ok (some block.decoded) := by
  refine (blocksBlockProtobufDecode_eq_some (le_ptrdiffMax_of_lt hlen)).2
    ⟨readable_of_lt hlen, fun cid hcid => readable_of_lt ?_, rfl⟩
  have hc := length_le_bytesField 2 .lengthDelimited (cidBytes block.cid)
  rw [blockBytes_length] at hlen
  rw [hcid] at hc hlen
  show (cidBytes (some cid)).length < 2 ^ 31
  omega

end Ipfs
