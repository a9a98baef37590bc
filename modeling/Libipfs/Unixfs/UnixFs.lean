import Libipfs.Protobuf.FieldLoop

/-!
# The data section of a file node

A `UnixFS` object is a type, the bytes of the file kept in this node, the size of the whole file
and the sizes of the parts kept in the nodes linked to.

* `unixfsProtobufEncode`, `unixfsProtobufDecode`   the codec;
* `writes_unixfsProtobufEncode`                    what the encoder writes;
* `unixfsProtobufDecode_unixfsBytes`               an object comes back.
-/

namespace Ipfs
open CSem Libp2p

/-- the constants of `enum UnixFSDataType` -/
def unixfsRaw : UInt32 := 0
def unixfsDirectory : UInt32 := 1
def unixfsFile : UInt32 := 2
def unixfsSymlink : UInt32 := 4

/-- the decoder stores any number as the data type -/
structure UnixFS where
  dataType : UInt32 := unixfsRaw
  bytes : List UInt8 := []
  fileSize : UInt64 := 0
  blockSizes : List UInt64 := []
  deriving DecidableEq, Repr

def UnixFS.addData (data : List UInt8) (obj : UnixFS) : UnixFS := { obj with bytes := data }

def UnixFS.addBlocksize (blockSize : UInt64) (obj : UnixFS) : UnixFS :=
  { obj with blockSizes := obj.blockSizes ++ [blockSize] }

/-! ## encoding -/

def unixfsProtobufEncodeSize (obj : UnixFS) : Nat :=
  (obj.bytes.length + 11) + 2 + 11 + 11 * obj.blockSizes.length

def unixfsItems (obj : UnixFS) : List Item :=
  [.varint 1 .varint obj.dataType.toNat] ++
    (if 0 < obj.bytes.length then [.bytes 2 .lengthDelimited obj.bytes] else []) ++
    (if 0 < obj.fileSize.toNat then [.varint 3 .varint obj.fileSize.toNat] else []) ++
    obj.blockSizes.map fun blockSize => .varint 4 .varint blockSize.toNat

def unixfsProtobufEncode (obj : UnixFS) (room : Nat) : Exec (List UInt8) :=
  encodeItems (unixfsItems obj) room

def unixfsBytes (obj : UnixFS) : List UInt8 := itemsBytes (unixfsItems obj)

private theorem mem_unixfsItems {obj : UnixFS} {i : Item} (h : i ∈ unixfsItems obj) :
    i = .varint 1 .varint obj.dataType.toNat ∨ i = .bytes 2 .lengthDelimited obj.bytes ∨
      i = .varint 3 .varint obj.fileSize.toNat ∨
      ∃ blockSize ∈ obj.blockSizes, i = .varint 4 .varint blockSize.toNat := by
  simp only [unixfsItems, List.mem_append, List.mem_singleton, List.mem_map] at h
  rcases h with ((h | h) | h) | ⟨b, hb, h⟩
  · exact .inl h
  · split at h
    · exact .inr (.inl (List.mem_singleton.1 h))
    · cases h
  · split at h
    · exact .inr (.inr (.inl (List.mem_singleton.1 h)))
    · cases h
  · exact .inr (.inr (.inr ⟨b, hb, h.symm⟩))

theorem unixfsItems_wordSized (obj : UnixFS) : ∀ i ∈ unixfsItems obj, i.WordSized := by
  intro i hi
  rcases mem_unixfsItems hi with rfl | rfl | rfl | ⟨b, -, rfl⟩
  · have := obj.dataType.toNat_lt
    exact ⟨by norm_num, by omega⟩
  · exact (by norm_num : (2 : Nat) < 16)
  · exact ⟨by norm_num, obj.fileSize.toNat_lt⟩
  · exact ⟨by norm_num, b.toNat_lt⟩

theorem writes_unixfsProtobufEncode (obj : UnixFS) :
    Writes (unixfsProtobufEncode obj) (unixfsBytes obj) :=
  writes_encodeItems (unixfsItems_wordSized obj)

/-- a type of one byte; nothing in the size is left for a longer one -/
theorem unixfsBytes_length_le {obj : UnixFS} (h : obj.dataType.toNat < 128) :
    (unixfsBytes obj).length ≤ unixfsProtobufEncodeSize obj := by
  have h1 : (varintField 1 .varint obj.dataType.toNat).length = 2 := by
    rw [varintField_length 1 _ _ (by norm_num), varintBytes, varintBytesFrom_succ, if_pos h]
    rfl
  have h2 : (itemsBytes (if 0 < obj.bytes.length then
      [Item.bytes 2 .lengthDelimited obj.bytes] else [])).length ≤ 11 + obj.bytes.length := by
    split
    · simpa [Item.enc_bytes] using bytesField_length_le 2 .lengthDelimited obj.bytes (by norm_num)
    · simp
  have h3 : (itemsBytes (if 0 < obj.fileSize.toNat then
      [Item.varint 3 .varint obj.fileSize.toNat] else [])).length ≤ 11 := by
    split
    · simpa [Item.enc_varint] using
        varintField_length_le_eleven 3 .varint obj.fileSize.toNat (by norm_num)
    · simp
  have h4 (l : List UInt64) : (itemsBytes (l.map fun blockSize =>
      Item.varint 4 .varint blockSize.toNat)).length ≤ 11 * l.length := by
    induction l with
    | nil => simp
    | cons b l ih =>
      have := varintField_length_le_eleven 4 .varint b.toNat (by norm_num)
      simp only [List.map_cons, itemsBytes_cons, Item.enc_varint, List.length_append,
        List.length_cons]
      omega
  have h4 := h4 obj.blockSizes
  simp only [unixfsBytes, unixfsItems, itemsBytes_append, List.length_append, itemsBytes_cons,
    itemsBytes_nil, Item.enc_varint, List.length_nil, unixfsProtobufEncodeSize]
  omega

/-! ## decoding -/

def unixfsFields (fieldNo : Int) : FieldCase UnixFS :=
  match fieldNo with
  | 1 => .varint fun v obj => .ok (some { obj with dataType := UInt32.ofNat v })
  | 2 => .bytes fun d obj => .ok (some (obj.addData d))
  | 3 => .varint fun v obj => .ok (some { obj with fileSize := UInt64.ofNat v })
  | 4 => .varint fun v obj => .ok (some (obj.addBlocksize (UInt64.ofNat v)))
  | _ => .skip

/-- `none` when the decoder returns 0, as it does for an empty buffer -/
def unixfsProtobufDecode (buf : List UInt8) : Exec (Option UnixFS) :=
  if buf.length = 0 then .ok none else decodeFields unixfsFields buf {}

theorem unixfsItems_accepted (obj : UnixFS) : ∀ i ∈ unixfsItems obj, i.Accepted unixfsFields := by
  intro i hi
  rcases mem_unixfsItems hi with rfl | rfl | rfl | ⟨b, -, rfl⟩ <;> exact trivial

private theorem applyItems_blockSizes (obj : UnixFS) (l : List UInt64) :
    applyItems unixfsFields (l.map fun blockSize => .varint 4 .varint blockSize.toNat) obj =
      .ok (some { obj with blockSizes := obj.blockSizes ++ l }) := by
  induction l generalizing obj with
  | nil => simp
  | cons b l ih =>
    rw [List.map_cons, applyItems_cons]
    show applyItems unixfsFields _ (obj.addBlocksize (UInt64.ofNat b.toNat)) = _
    rw [ih, UInt64.ofNat_toNat]
    simp [UnixFS.addBlocksize]

theorem applyItems_unixfsItems (obj : UnixFS) :
    applyItems unixfsFields (unixfsItems obj) {} = .ok (some obj) := by
  have h1 : applyItems unixfsFields [Item.varint 1 .varint obj.dataType.toNat] {} =
      .ok (some { dataType := obj.dataType }) := by
    show Except.ok (some ({ dataType := UInt32.ofNat obj.dataType.toNat } : UnixFS)) = _
    rw [UInt32.ofNat_toNat]
  have h2 : applyItems unixfsFields (if 0 < obj.bytes.length then
      [Item.bytes 2 .lengthDelimited obj.bytes] else []) { dataType := obj.dataType } =
        .ok (some { dataType := obj.dataType, bytes := obj.bytes }) := by
    split
    · rfl
    · rw [List.eq_nil_of_length_eq_zero (show obj.bytes.length = 0 by omega)]
      rfl
  have h3 : applyItems unixfsFields (if 0 < obj.fileSize.toNat then
      [Item.varint 3 .varint obj.fileSize.toNat] else [])
      { dataType := obj.dataType, bytes := obj.bytes } =
        .ok (some { obj with blockSizes := [] }) := by
    have ht : UInt64.ofNat obj.fileSize.toNat = obj.fileSize := UInt64.ofNat_toNat
    split
    · show Except.ok (some { obj with
        fileSize := UInt64.ofNat obj.fileSize.toNat, blockSizes := [] }) = _
      rw [ht]
    · have h0 : obj.fileSize = 0 := by
        rw [← ht, show obj.fileSize.toNat = 0 by omega]
        rfl
      show Except.ok (some { obj with fileSize := 0, blockSizes := [] }) = _
      rw [← h0]
  unfold unixfsItems
  rw [List.append_assoc, List.append_assoc, applyItems_append_of h1, applyItems_append_of h2,
    applyItems_append_of h3, applyItems_blockSizes]
  rfl

theorem unixfsBytes_ne_nil (obj : UnixFS) : (unixfsBytes obj).length ≠ 0 := by
  have h := itemsBytes_length_le (unixfsItems obj)
  have h1 : 0 < (unixfsItems obj).length := by simp [unixfsItems]
  rw [unixfsBytes]
  omega

/-- **round trip** -/
theorem unixfsProtobufDecode_unixfsBytes {obj : UnixFS} (hlen : (unixfsBytes obj).length < 2 ^ 31) :
    unixfsProtobufDecode (unixfsBytes obj) = .ok (some obj) := by
  have h : decodeFields unixfsFields (unixfsBytes obj) {} = _ := decodeFields_items
    (fun i hi => ⟨unixfsItems_wordSized obj i hi, unixfsItems_accepted obj i hi⟩) hlen
  unfold unixfsProtobufDecode
  rw [if_neg (unixfsBytes_ne_nil obj), h, applyItems_unixfsItems]

/-- and as nothing else, however long it is -/
theorem unixfsProtobufDecode_unixfsBytes_ok {obj : UnixFS} {r : Option UnixFS}
    (hlen : (unixfsBytes obj).length ≤ ptrdiffMax)
    (h : unixfsProtobufDecode (unixfsBytes obj) = .ok r) : r = some obj := by
  unfold unixfsProtobufDecode at h
  rw [if_neg (unixfsBytes_ne_nil obj)] at h
  have h := decodeFields_items_ok
    (fun i hi => ⟨unixfsItems_wordSized obj i hi, unixfsItems_accepted obj i hi⟩) hlen h
  rw [applyItems_unixfsItems] at h
  exact (Except.ok.inj h).symm

end Ipfs
