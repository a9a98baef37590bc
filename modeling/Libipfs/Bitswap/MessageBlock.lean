import Libipfs.Protobuf.Large
import Libipfs.Bitswap.Message

/-!
# The block of a bitswap message

`struct BitswapBlock` and its codec: a prefix and the data.  The decoder moves behind a tag, but
not behind the value that it then reads: the next tag is read from the first byte of the value's
length.  So the whole buffer is taken as one varint after the other, and each that reads as the
tag of one of the two fields has a value behind it, wherever that is.

* `bitswapMessageBlockProtobufEncode`, `bitswapMessageBlockProtobufDecode`   the codec;
* `BlockReached`     the places where the decoder reads a tag;
* `blockReads`       the values that are read on the way;
* `bitswapMessageBlockProtobufDecode_eq`   **the last value of each field is kept**;
* `blockSubcodec`    **no block is decoded field by field**, and exactly when its prefix and its data
                     come back all the same.
-/

namespace Ipfs
open CSem Libp2p

/-- a field is `none` as long as nothing has been stored in it -/
structure BitswapBlock where
  blockPrefix : Option (List UInt8) := none
  bytes : Option (List UInt8) := none
  deriving DecidableEq, Repr

/-! ## encoding -/

def bitswapMessageBlockProtobufSize (block : Option BitswapBlock) : Exec Nat := do
  let block ← deref block
  let blockPrefix ← stored block.blockPrefix
  let bytes ← stored block.bytes
  .ok (33 + blockPrefix.length + bytes.length)

def bitswapBlockItems (blockPrefix bytes : List UInt8) : List Item :=
  [.bytes 1 .lengthDelimited blockPrefix, .bytes 2 .lengthDelimited bytes]

/-- the encoding -/
def bitswapBlockBytes (blockPrefix bytes : List UInt8) : List UInt8 :=
  bytesField 1 .lengthDelimited blockPrefix ++ bytesField 2 .lengthDelimited bytes

/-- a null block is encoded as nothing -/
def bitswapMessageBlockProtobufEncode (block : Option BitswapBlock) (room : Nat) :
    Exec (List UInt8) :=
  match block with
  | none => .ok []
  | some block => do
    let blockPrefix ← stored block.blockPrefix
    let bytes ← stored block.bytes
    encodeItems (bitswapBlockItems blockPrefix bytes) room

/-! ## decoding -/

def bitswapBlockFields (fieldNo : Int) : FieldCase BitswapBlock :=
  match fieldNo with
  | 1 => .bytes fun d block => .ok (some { block with blockPrefix := some d })
  | 2 => .bytes fun d block => .ok (some { block with bytes := some d })
  | _ => .skip

/-- one pass of the loop; `pos` stays in front of the value -/
def bitswapBlockPass (buf : List UInt8) (pos : Nat) (block : BitswapBlock) :
    Exec (Option (Nat × BitswapBlock)) := do
  let tag ← protobufDecodeFieldAndType (toInt32 buf.length) (buf.drop pos)
  let pos := pos + tag.bytesRead
  match ← (bitswapBlockFields tag.fieldNo).read (buf.length - pos) (buf.drop pos) with
  | none => .ok none
  | some (_, store) =>
    match ← store block with
    | none => .ok none
    | some block' => .ok (some (pos, block'))

def bitswapBlockLoop (buf : List UInt8) : Nat → Nat → BitswapBlock → Exec (Option BitswapBlock)
  | 0, pos, block => if pos < buf.length then .error .diverges else .ok (some block)
  | fuel + 1, pos, block =>
    if pos < buf.length then do
      match ← bitswapBlockPass buf pos block with
      | none => .ok none
      | some (pos', block') => bitswapBlockLoop buf fuel pos' block'
    else .ok (some block)

/-- `none` when the decoder returns 0, `some none` for a null block -/
def bitswapMessageBlockProtobufDecode (buf : List UInt8) :
    Exec (Option (Option BitswapBlock)) :=
  if buf.length = 0 then .ok (some none)
  else do
    match ← bitswapBlockLoop buf (buf.length + 1) 0 {} with
    | none => .ok none
    | some block => .ok (some (some block))

/-- the loop arrives at `pos` with the block as it is by then -/
inductive BlockReached (buf : List UInt8) : Nat → BitswapBlock → Prop
  | start : BlockReached buf 0 {}
  | step {pos pos' : Nat} {block block' : BitswapBlock} (h : BlockReached buf pos block)
      (hpos : pos < buf.length) (hpass : bitswapBlockPass buf pos block = .ok (some (pos', block'))) :
      BlockReached buf pos' block'

/-- the block is encoded into a buffer of its size, and the decoder returns it -/
def BitswapBlock.ReturnedFrom (block : BitswapBlock) (bytes : List UInt8) : Prop :=
  (bitswapMessageBlockProtobufSize (some block) >>= fun size =>
      bitswapMessageBlockProtobufEncode (some block) size) = .ok bytes ∧
    bitswapMessageBlockProtobufDecode bytes = .ok (some (some block))

/-- and the decoder gets to the end with tags read in front of the two fields only -/
def BitswapBlock.RoundTrips (block : BitswapBlock) : Prop :=
  ∃ bytes, block.ReturnedFrom bytes ∧
    (∃ block', BlockReached bytes bytes.length block') ∧
    ∀ pos block', BlockReached bytes pos block' → pos = 0 ∨ pos = bytes.length ∨
      ∃ d, block.blockPrefix = some d ∧ pos = (bytesField 1 .lengthDelimited d).length

/-! ## what is read -/

/-- a value that is read is kept in its field -/
def BitswapBlock.keep (block : BitswapBlock) (read : Int × List UInt8) : BitswapBlock :=
  if read.1 = 1 then { block with blockPrefix := some read.2 }
  else if read.1 = 2 then { block with bytes := some read.2 }
  else block

/-- the value behind a tag, of the fields that have one -/
def blockValue (fieldNo : Int) (remaining : Nat) (buf : List UInt8) :
    Exec (Option (List (Int × List UInt8))) :=
  if fieldNo = 1 ∨ fieldNo = 2 then do
    match ← protobufDecodeLengthDelimited remaining buf with
    | none => .ok none
    | some (d, _) => .ok (some [(fieldNo, d)])
  else .ok (some [])

/-- the values read along a buffer that is taken as one number after the other -/
def blockReads (buf : List UInt8) : Nat → Nat → Exec (Option (List (Int × List UInt8)))
  | 0, pos => if pos < buf.length then .error .diverges else .ok (some [])
  | fuel + 1, pos =>
    if pos < buf.length then do
      let tag ← protobufDecodeFieldAndType (toInt32 buf.length) (buf.drop pos)
      let pos := pos + tag.bytesRead
      match ← blockValue tag.fieldNo (buf.length - pos) (buf.drop pos) with
      | none => .ok none
      | some value =>
        match ← blockReads buf fuel pos with
        | none => .ok none
        | some values => .ok (some (value ++ values))
    else .ok (some [])

def readsAlong (buf : List UInt8) : Exec (Option (List (Int × List UInt8))) :=
  blockReads buf (buf.length + 1) 0

/-- the last value of a field -/
def lastValue (fieldNo : Int) (reads : List (Int × List UInt8)) : Option (List UInt8) :=
  ((reads.filter fun read => read.1 = fieldNo).getLast?).map Prod.snd

section
variable {buf : List UInt8} {pos fuel : Nat} {block : BitswapBlock}

theorem lastValue_concat (fieldNo : Int) (reads : List (Int × List UInt8))
    (read : Int × List UInt8) :
    lastValue fieldNo (reads ++ [read]) =
      if read.1 = fieldNo then some read.2 else lastValue fieldNo reads := by
  unfold lastValue
  rw [List.filter_append]
  by_cases h : read.1 = fieldNo
  · rw [if_pos h, List.filter_cons_of_pos (by simp [h]), List.filter_nil, List.getLast?_concat]
    rfl
  · rw [if_neg h, List.filter_cons_of_neg (by simp [h]), List.filter_nil, List.append_nil]

/-- **the values are kept** where nothing came later -/
theorem foldl_keep (reads : List (Int × List UInt8)) :
    reads.foldl BitswapBlock.keep {} = ⟨lastValue 1 reads, lastValue 2 reads⟩ := by
  induction reads using List.reverseRecOn with
  | nil => rfl
  | append_singleton reads read ih =>
    rw [List.foldl_append, ih, lastValue_concat, lastValue_concat]
    show BitswapBlock.keep _ read = _
    unfold BitswapBlock.keep
    by_cases h1 : read.1 = 1
    · have h2 : ¬ read.1 = 2 := by omega
      rw [if_pos h1, if_pos h1, if_neg h2]
    · rw [if_neg h1, if_neg h1]
      by_cases h2 : read.1 = 2
      · rw [if_pos h2, if_pos h2]
      · rw [if_neg h2, if_neg h2]

/-- a pass reads a tag, and the value that may be behind it -/
theorem bitswapBlockPass_eq : bitswapBlockPass buf pos block =
    protobufDecodeFieldAndType (toInt32 buf.length) (buf.drop pos) >>= fun tag =>
      blockValue tag.fieldNo (buf.length - (pos + tag.bytesRead))
        (buf.drop (pos + tag.bytesRead)) >>= fun value =>
          .ok (value.map fun reads => (pos + tag.bytesRead, reads.foldl BitswapBlock.keep block)) := by
  unfold bitswapBlockPass
  apply bind_congr
  intro tag
  dsimp only
  unfold blockValue
  generalize buf.length - (pos + tag.bytesRead) = remaining
  generalize buf.drop (pos + tag.bytesRead) = rest
  by_cases h1 : tag.fieldNo = 1
  · rw [if_pos (.inl h1), h1]
    show ((protobufDecodeLengthDelimited remaining rest >>= _) >>= _) = _
    cases protobufDecodeLengthDelimited remaining rest with
    | error e => rfl
    | ok value =>
      cases value with
      | none => rfl
      | some value => rfl
  · by_cases h2 : tag.fieldNo = 2
    · rw [if_pos (.inr h2), h2]
      show ((protobufDecodeLengthDelimited remaining rest >>= _) >>= _) = _
      cases protobufDecodeLengthDelimited remaining rest with
      | error e => rfl
      | ok value =>
        cases value with
        | none => rfl
        | some value => rfl
    · have hfields : bitswapBlockFields tag.fieldNo = .skip := by
        unfold bitswapBlockFields
        split
        · contradiction
        · contradiction
        · rfl
      have hno : ¬ (tag.fieldNo = 1 ∨ tag.fieldNo = 2) := not_or.2 ⟨h1, h2⟩
      rw [hfields, if_neg hno]
      rfl

theorem bitswapBlockLoop_succ (hpos : pos < buf.length) :
    bitswapBlockLoop buf (fuel + 1) pos block = bitswapBlockPass buf pos block >>= fun r =>
      match r with
      | none => .ok none
      | some (pos', block') => bitswapBlockLoop buf fuel pos' block' := by
  rw [bitswapBlockLoop, if_pos hpos]

theorem blockReads_succ (hpos : pos < buf.length) :
    blockReads buf (fuel + 1) pos =
      protobufDecodeFieldAndType (toInt32 buf.length) (buf.drop pos) >>= fun tag =>
        blockValue tag.fieldNo (buf.length - (pos + tag.bytesRead))
          (buf.drop (pos + tag.bytesRead)) >>= fun value =>
            match value with
            | none => .ok none
            | some value => blockReads buf fuel (pos + tag.bytesRead) >>= fun values =>
              match values with
              | none => .ok none
              | some values => .ok (some (value ++ values)) := by
  rw [blockReads, if_pos hpos]

/-- the loop keeps what is read along the buffer -/
theorem bitswapBlockLoop_eq : bitswapBlockLoop buf fuel pos block =
    blockReads buf fuel pos >>= fun reads =>
      .ok (reads.map fun reads => reads.foldl BitswapBlock.keep block) := by
  induction fuel generalizing pos block with
  | zero =>
    unfold bitswapBlockLoop blockReads
    by_cases hpos : pos < buf.length
    · rw [if_pos hpos, if_pos hpos]
      rfl
    · rw [if_neg hpos, if_neg hpos]
      rfl
  | succ fuel ih =>
    by_cases hpos : pos < buf.length
    · rw [bitswapBlockLoop_succ hpos, blockReads_succ hpos, bitswapBlockPass_eq, bind_assoc,
        bind_assoc]
      apply bind_congr
      intro tag
      rw [bind_assoc, bind_assoc]
      apply bind_congr
      intro value
      cases value with
      | none => rfl
      | some value =>
        show bitswapBlockLoop buf fuel (pos + tag.bytesRead)
          (value.foldl BitswapBlock.keep block) = (blockReads buf fuel _ >>= _) >>= _
        rw [ih, bind_assoc]
        apply bind_congr
        intro values
        cases values with
        | none => rfl
        | some values =>
          have happend : (value ++ values).foldl BitswapBlock.keep block =
              values.foldl BitswapBlock.keep (value.foldl BitswapBlock.keep block) :=
            List.foldl_append
          exact congrArg (fun r => Except.ok (some r)) happend.symm
    · unfold bitswapBlockLoop blockReads
      rw [if_neg hpos, if_neg hpos]
      rfl

/-- **the decoder** returns the last value of each field -/
theorem bitswapMessageBlockProtobufDecode_eq (hne : buf ≠ []) :
    bitswapMessageBlockProtobufDecode buf = readsAlong buf >>= fun reads =>
      .ok (reads.map fun reads => some ⟨lastValue 1 reads, lastValue 2 reads⟩) := by
  have hlen : buf.length ≠ 0 := by
    rw [Ne, List.length_eq_zero_iff]
    exact hne
  unfold bitswapMessageBlockProtobufDecode readsAlong
  rw [if_neg hlen, bitswapBlockLoop_eq]
  cases blockReads buf (buf.length + 1) 0 with
  | error e => rfl
  | ok reads =>
    cases reads with
    | none => rfl
    | some reads =>
      exact congrArg (fun r => Except.ok (some (some r))) (foldl_keep reads)

end

/-! ## the round trip -/

section
variable {blockPrefix bytes : List UInt8}

theorem bitswapBlockItems_object (hsize : 33 + blockPrefix.length + bytes.length ≤ ptrdiffMax) :
    ∀ i ∈ bitswapBlockItems blockPrefix bytes, i.WordSized ∧ i.Object := by
  have hpd : ptrdiffMax < 2 ^ 64 := ptrdiffMax_lt
  intro i hi
  rcases List.mem_cons.1 hi with rfl | hi
  · exact ⟨(by decide : 1 < 16), (by omega : blockPrefix.length < 2 ^ 64)⟩
  · rw [List.mem_singleton.1 hi]
    exact ⟨(by decide : 2 < 16), (by omega : bytes.length < 2 ^ 64)⟩

theorem itemsBytes_bitswapBlockItems :
    itemsBytes (bitswapBlockItems blockPrefix bytes) = bitswapBlockBytes blockPrefix bytes := by
  rw [bitswapBlockItems, itemsBytes_cons, itemsBytes_cons, itemsBytes_nil, List.append_nil]
  rfl

theorem two_le_bytesField_length (no : Nat) (ty : WireType) (d : List UInt8) :
    2 ≤ (bytesField no ty d).length := by
  have htag : 0 < (tagBytes no ty).length := varintBytes_length_pos (no * 8 + ty.num)
  have hsize : 0 < (varintBytes d.length).length := varintBytes_length_pos d.length
  rw [bytesField, List.length_append, List.length_append]
  omega

theorem bitswapBlockBytes_length : 4 ≤ (bitswapBlockBytes blockPrefix bytes).length := by
  have h1 := two_le_bytesField_length 1 .lengthDelimited blockPrefix
  have h2 := two_le_bytesField_length 2 .lengthDelimited bytes
  rw [bitswapBlockBytes, List.length_append]
  omega

/-- the encoder writes the two fields when their varints fit -/
theorem bitswapMessageBlockProtobufEncode_eq_ok {out : List UInt8}
    (hsize : 33 + blockPrefix.length + bytes.length ≤ ptrdiffMax) :
    (bitswapMessageBlockProtobufSize (some ⟨some blockPrefix, some bytes⟩) >>= fun size =>
        bitswapMessageBlockProtobufEncode (some ⟨some blockPrefix, some bytes⟩) size) = .ok out ↔
      out = bitswapBlockBytes blockPrefix bytes ∧
        Writable (bitswapBlockItems blockPrefix bytes)
          (33 + blockPrefix.length + bytes.length) := by
  rw [← itemsBytes_bitswapBlockItems]
  exact encodeItems_eq_ok (bitswapBlockItems_object hsize)

/-- the first tag leaves the position in front of the prefix -/
theorem bitswapBlockPass_first {pos : Nat} {block block' : BitswapBlock}
    (h : bitswapBlockPass (bitswapBlockBytes blockPrefix bytes) 0 block =
      .ok (some (pos, block'))) : pos = 1 := by
  rw [bitswapBlockPass_eq] at h
  obtain ⟨tag, htag, h⟩ := bind_eq_ok.1 h
  obtain ⟨value, -, h⟩ := bind_eq_ok.1 h
  rw [List.drop_zero, bitswapBlockBytes, bytesField, List.append_assoc,
    protobufDecodeFieldAndType_tagBytes (by decide)] at htag
  cases htag
  cases value with
  | none => cases h
  | some value =>
    cases h
    rfl

/-- wherever the loop gets, it has been through the first pass -/
theorem BlockReached.first {buf : List UInt8} {pos : Nat} {block : BitswapBlock}
    (h : BlockReached buf pos block) : (pos = 0 ∧ block = {}) ∨
      ∃ pos' block', bitswapBlockPass buf 0 {} = .ok (some (pos', block')) := by
  induction h with
  | start => exact .inl ⟨rfl, rfl⟩
  | @step pos pos' block block' hreach hpos hpass ih =>
    rcases ih with ih | ih
    · obtain ⟨rfl, rfl⟩ := ih
      exact .inr ⟨pos', block', hpass⟩
    · exact .inr ih

theorem BitswapBlock.not_roundTrips (hsize : 33 + blockPrefix.length + bytes.length ≤ ptrdiffMax) :
    ¬ BitswapBlock.RoundTrips ⟨some blockPrefix, some bytes⟩ := by
  intro h
  obtain ⟨buf, hreturned, hend, htags⟩ := h
  obtain ⟨rfl, -⟩ := (bitswapMessageBlockProtobufEncode_eq_ok hsize).1 hreturned.1
  have hlen := @bitswapBlockBytes_length blockPrefix bytes
  have hfield := two_le_bytesField_length 1 .lengthDelimited blockPrefix
  obtain ⟨block, hend⟩ := hend
  rcases hend.first with hstart | hpass
  · omega
  · obtain ⟨pos, block', hpass⟩ := hpass
    obtain rfl := bitswapBlockPass_first hpass
    have hreached := BlockReached.start.step (by omega) hpass
    rcases htags 1 block' hreached with h0 | hlast | hnext
    · omega
    · omega
    · obtain ⟨d, hd, hpos⟩ := hnext
      cases hd
      omega

theorem bitswapMessageBlockProtobufDecode_eq_some {buf : List UInt8} {block : BitswapBlock}
    (hne : buf ≠ []) : bitswapMessageBlockProtobufDecode buf = .ok (some (some block)) ↔
      ∃ reads, readsAlong buf = .ok (some reads) ∧
        lastValue 1 reads = block.blockPrefix ∧ lastValue 2 reads = block.bytes := by
  rw [bitswapMessageBlockProtobufDecode_eq hne]
  constructor
  · intro h
    obtain ⟨reads, hreads, h⟩ := bind_eq_ok.1 h
    cases reads with
    | none => cases h
    | some reads =>
      cases h
      exact ⟨reads, hreads, rfl, rfl⟩
  · intro h
    obtain ⟨reads, hreads, h1, h2⟩ := h
    rw [hreads]
    show Except.ok (some (some _)) = _
    rw [h1, h2]

/-- **the round trip of a block**: the bodies are never skipped, and the values come back when
they are the last that are read -/
theorem blockSubcodec (hsize : 33 + blockPrefix.length + bytes.length ≤ ptrdiffMax) :
    ¬ BitswapBlock.RoundTrips ⟨some blockPrefix, some bytes⟩ ∧
      ((∃ buf, BitswapBlock.ReturnedFrom ⟨some blockPrefix, some bytes⟩ buf) ↔
        Writable (bitswapBlockItems blockPrefix bytes)
            (33 + blockPrefix.length + bytes.length) ∧
          ∃ reads, readsAlong (bitswapBlockBytes blockPrefix bytes) = .ok (some reads) ∧
            lastValue 1 reads = some blockPrefix ∧ lastValue 2 reads = some bytes) := by
  refine ⟨BitswapBlock.not_roundTrips hsize, ?_⟩
  have hlen := @bitswapBlockBytes_length blockPrefix bytes
  have hne : bitswapBlockBytes blockPrefix bytes ≠ [] := List.ne_nil_of_length_pos (by omega)
  have hdecode := @bitswapMessageBlockProtobufDecode_eq_some _ ⟨some blockPrefix, some bytes⟩ hne
  constructor
  · intro h
    obtain ⟨buf, hencode, hreturned⟩ := h
    obtain ⟨rfl, hwritable⟩ := (bitswapMessageBlockProtobufEncode_eq_ok hsize).1 hencode
    exact ⟨hwritable, hdecode.1 hreturned⟩
  · intro h
    obtain ⟨hwritable, hreads⟩ := h
    exact ⟨_, (bitswapMessageBlockProtobufEncode_eq_ok hsize).2 ⟨rfl, hwritable⟩,
      hdecode.2 hreads⟩

/-- one byte each: the lengths are taken as tags without a value, and so is the prefix -/
theorem blockSubcodec_bytes : ¬ BitswapBlock.RoundTrips ⟨some [1], some [2]⟩ ∧
    ∃ buf, BitswapBlock.ReturnedFrom ⟨some [1], some [2]⟩ buf := by
  have hsize : 33 + [(1 : UInt8)].length + [(2 : UInt8)].length ≤ ptrdiffMax := by
    norm_num [ptrdiffMax]
  have hitems : ∀ i ∈ bitswapBlockItems [1] [2], i.WordSized :=
    fun i hi => (bitswapBlockItems_object hsize i hi).1
  have hblock := blockSubcodec hsize
  refine ⟨hblock.1, hblock.2.2 ⟨writable_of_lt hitems (by decide) (by norm_num), ?_⟩⟩
  exact ⟨[(1, [1]), (2, [2])], by decide +kernel, by decide, by decide⟩

/-- the data `0a 00` is read as another prefix, an empty one -/
theorem not_blockReturned :
    ¬ ∀ blockPrefix bytes : List UInt8, 33 + blockPrefix.length + bytes.length ≤ ptrdiffMax →
      ∃ buf, BitswapBlock.ReturnedFrom ⟨some blockPrefix, some bytes⟩ buf := by
  intro hall
  have hsize : 33 + [(1 : UInt8)].length + [(10 : UInt8), 0].length ≤ ptrdiffMax := by
    norm_num [ptrdiffMax]
  obtain ⟨buf, hencode, hdecode⟩ := hall [1] [10, 0] hsize
  obtain ⟨rfl, -⟩ := (bitswapMessageBlockProtobufEncode_eq_ok hsize).1 hencode
  have hread : bitswapMessageBlockProtobufDecode (bitswapBlockBytes [1] [10, 0]) =
      .ok (some (some ⟨some [], some [10, 0]⟩)) := by decide +kernel
  rw [hread] at hdecode
  cases hdecode

end

end Ipfs
