import Libipfs.Protobuf.Large
import Libipfs.Unixfs.UnixFs

/-!
# The round trip of the data section

* `UnixFS.RoundTrips`   an object is encoded into a buffer of the size computed for it, and comes
                     back with its type, its bytes, its size and the sizes of its parts;
* `UnixFS.Convertible`  the objects whose varints fit their buffers, taken as an `int`;
* `unixfsRoundTrips_iff`   **an object comes back iff it is one of those**;
* `UnixFS.convertible_of_lt`  as it is, with a type of one byte, whenever the computed size is an
                     `int`.
-/

namespace Ipfs
open CSem Libp2p

def UnixFS.RoundTrips (obj : UnixFS) : Prop :=
  ∃ bytes, unixfsProtobufEncode obj (unixfsProtobufEncodeSize obj) = .ok bytes ∧
    unixfsProtobufDecode bytes = .ok (some obj)

structure UnixFS.Convertible (obj : UnixFS) : Prop where
  writable : Writable (unixfsItems obj) (unixfsProtobufEncodeSize obj)
  readable : Readable (unixfsItems obj)

section
variable {obj : UnixFS}

theorem unixfsItems_object (h : obj.bytes.length < 2 ^ 64) :
    ∀ i ∈ unixfsItems obj, i.WordSized ∧ i.Object := by
  intro i hi
  refine ⟨unixfsItems_wordSized obj i hi, ?_⟩
  simp only [unixfsItems, List.mem_append, List.mem_singleton, List.mem_map] at hi
  rcases hi with ((rfl | hi) | hi) | ⟨blockSize, -, rfl⟩
  · trivial
  · split at hi
    · rw [List.mem_singleton.1 hi]
      exact h
    · cases hi
  · split at hi
    · rw [List.mem_singleton.1 hi]
      trivial
    · cases hi
  · trivial

/-- the encoding is that of some fields, and none of it is mistaken for an empty buffer -/
theorem roundTrips_iff_fields : obj.RoundTrips ↔
    ∃ bytes, encodeItems (unixfsItems obj) (unixfsProtobufEncodeSize obj) = .ok bytes ∧
      decodeFields unixfsFields bytes {} = .ok (some obj) := by
  refine exists_congr fun bytes => and_congr_right fun h => ?_
  obtain ⟨rfl, -⟩ := (writes_unixfsProtobufEncode obj).exact _ _ h
  unfold unixfsProtobufDecode
  rw [if_neg (unixfsBytes_ne_nil obj)]

/-- **the round trip** of an object in a buffer of the size computed for it -/
theorem unixfsRoundTrips_iff (hsize : unixfsProtobufEncodeSize obj ≤ ptrdiffMax) :
    obj.RoundTrips ↔ obj.Convertible := by
  have hpd : ptrdiffMax < 2 ^ 64 := ptrdiffMax_lt
  have hbytes : obj.bytes.length < 2 ^ 64 := by
    unfold unixfsProtobufEncodeSize at hsize
    omega
  have hobject : ∀ i ∈ unixfsItems obj, i.Object :=
    fun i hi => (unixfsItems_object hbytes i hi).2
  rw [roundTrips_iff_fields, encodeItems_decodeFields
    (fun i hi => ⟨unixfsItems_wordSized obj i hi, unixfsItems_accepted obj i hi⟩) hobject hsize]
  constructor
  · intro h
    exact ⟨h.1, h.2.1⟩
  · intro h
    exact ⟨h.writable, h.readable, applyItems_unixfsItems obj⟩

/-- in particular when the computed size is an `int` -/
theorem UnixFS.convertible_of_lt (htype : obj.dataType.toNat < 128)
    (hsize : unixfsProtobufEncodeSize obj < 2 ^ 31) : obj.Convertible := by
  have hlen : (unixfsBytes obj).length ≤ unixfsProtobufEncodeSize obj := unixfsBytes_length_le htype
  have hread : (itemsBytes (unixfsItems obj)).length < 2 ^ 31 := lt_of_le_of_lt hlen hsize
  exact ⟨writable_of_lt (unixfsItems_wordSized obj) hlen hsize, readable_of_lt hread⟩

/-- 2 GiB of bytes: their number takes five bytes, and the room for it is negative as an `int` -/
theorem not_unixfsRoundTrips_of_length (hfile : obj.fileSize = 0) (hblocks : obj.blockSizes = [])
    (hbytes : obj.bytes.length = 2 ^ 31) : ¬ obj.RoundTrips := by
  have hsize : unixfsProtobufEncodeSize obj = 2 ^ 31 + 24 := by
    unfold unixfsProtobufEncodeSize
    rw [hblocks, hbytes, List.length_nil]
  have hpos : 0 < obj.bytes.length := by
    rw [hbytes]
    norm_num
  have hitems : unixfsItems obj =
      [.varint 1 .varint obj.dataType.toNat, .bytes 2 .lengthDelimited obj.bytes] := by
    unfold unixfsItems
    rw [if_pos hpos, hfile, hblocks]
    rfl
  have htype : (Item.varint 1 .varint obj.dataType.toNat).enc.length ≤ 20 :=
    varintField_length_le 1 .varint obj.dataType.toNat
  have hobject : unixfsProtobufEncodeSize obj ≤ ptrdiffMax := by
    rw [hsize]
    norm_num [ptrdiffMax]
  rw [unixfsRoundTrips_iff hobject]
  intro h
  have hwritable := h.writable
  rw [hitems, hsize] at hwritable
  have hdata : (Item.bytes 2 .lengthDelimited obj.bytes).WritableIn _ := hwritable.2.1
  exact Item.not_writableIn (by omega) (by omega) (by omega) hdata

end

/-- a file of six bytes, two of them in this node -/
def smallObject : UnixFS where
  dataType := unixfsFile
  bytes := [104, 105]
  fileSize := 6
  blockSizes := [2, 4]

theorem unixfsRoundTrips_smallObject : smallObject.RoundTrips := by
  have hsize : unixfsProtobufEncodeSize smallObject = 48 := by decide
  have hint : unixfsProtobufEncodeSize smallObject < 2 ^ 31 := by
    rw [hsize]
    norm_num
  have hobject : unixfsProtobufEncodeSize smallObject ≤ ptrdiffMax := by
    rw [hsize]
    norm_num [ptrdiffMax]
  exact (unixfsRoundTrips_iff hobject).2 (UnixFS.convertible_of_lt (by decide) hint)

theorem not_unixfsRoundTrips : ¬ ∀ obj : UnixFS, obj.dataType.toNat ≤ unixfsSymlink.toNat →
    unixfsProtobufEncodeSize obj ≤ ptrdiffMax → obj.RoundTrips := by
  intro hall
  have hlarge : ∀ bytes : List UInt8, bytes.length = 2 ^ 31 → False := by
    intro bytes hbytes
    have hsize : unixfsProtobufEncodeSize { bytes := bytes } ≤ ptrdiffMax := by
      unfold unixfsProtobufEncodeSize
      rw [hbytes]
      norm_num [ptrdiffMax]
    have htype : unixfsRaw.toNat ≤ unixfsSymlink.toNat := by decide
    exact not_unixfsRoundTrips_of_length rfl rfl hbytes (hall { bytes := bytes } htype hsize)
  exact hlarge (List.replicate (2 ^ 31) 0) List.length_replicate

end Ipfs
