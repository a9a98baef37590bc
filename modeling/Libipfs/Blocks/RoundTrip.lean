import Libipfs.Blocks.Block

/-!
# The round trip of CIDs and blocks

The codec of a CID is an `int` in the struct and when it is written, and a `char` when it is read.

* `Cid.RoundTrips`, `Block.RoundTrips`   encoded into a buffer of the size computed for it, and
                     decoded as the same;
* `Cid.CharCodec`    the codecs that a `char` holds;
* `cidRoundTrips_iff`, `blockRoundTrips_iff`   **the CIDs and blocks that come back**;
* `cidCast_codec`    what `ipfs_cid_cast` makes: any codec.
-/

namespace Ipfs
open CSem Libp2p

def Cid.RoundTrips (cid : Cid) : Prop :=
  ∃ bytes, cidProtobufEncode (some cid) (cidProtobufEncodeSize (some cid)) = .ok bytes ∧
    cidProtobufDecode bytes = .ok (some (some cid))

def Block.RoundTrips (block : Block) : Prop :=
  ∃ bytes, blocksBlockProtobufEncode block (blocksBlockProtobufEncodeSize block) = .ok bytes ∧
    blocksBlockProtobufDecode bytes = .ok (some block)

/-- the codec is one of a `char` -/
def Cid.CharCodec (cid : Cid) : Prop := -128 ≤ cid.codec.toInt ∧ cid.codec.toInt < 128

structure Cid.Convertible (cid : Cid) : Prop where
  writable : Writable (cidItems cid) (cidProtobufEncodeSize (some cid))
  readable : Readable (cidItems cid)

structure Block.Convertible (block : Block) : Prop where
  cid : ∀ cid, block.cid = some cid →
    Writable (cidItems cid) (cidProtobufEncodeSize block.cid) ∧ Readable (cidItems cid)
  writable : Writable (blockItems block) (blocksBlockProtobufEncodeSize block)
  readable : Readable (blockItems block)

section
variable {cid : Cid} {block : Block}

/-! ## CIDs -/

theorem Cid.decoded_eq_iff : cid.decoded = cid ↔ cid.CharCodec := by
  have hcodec : cid.codec.toInt8.toInt32 = cid.codec ↔ cid.CharCodec := by
    rw [← Int32.toInt_inj, Int8.toInt_toInt32, Int32.toInt_toInt8]
    unfold Cid.CharCodec Int.bmod
    norm_num
    omega
  rw [← hcodec]
  constructor
  · intro h
    exact congrArg Cid.codec h
  · intro h
    unfold Cid.decoded
    rw [h]

/-- **the round trip** of a CID in a buffer of the size computed for it -/
theorem cidRoundTrips_iff (hsize : cidProtobufEncodeSize (some cid) ≤ ptrdiffMax) :
    cid.RoundTrips ↔ cid.CharCodec ∧ cid.Convertible := by
  have hpd : ptrdiffMax < 2 ^ 64 := ptrdiffMax_lt
  have hlen := le_trans (cidBytes_length_le (some cid)) hsize
  have h64 := lt_of_le_of_lt hlen hpd
  constructor
  · intro h
    obtain ⟨bytes, hencode, hdecode⟩ := h
    obtain ⟨rfl, hwritable⟩ := (cidProtobufEncode_eq_ok h64).1 hencode
    obtain ⟨hread, hsame⟩ := (cidProtobufDecode_eq_ok hlen).1 hdecode
    exact ⟨Cid.decoded_eq_iff.1 (Option.some.inj hsame).symm, hwritable, hread⟩
  · intro h
    obtain ⟨hcodec, hwritable, hread⟩ := h
    refine ⟨_, (cidProtobufEncode_eq_ok h64).2 ⟨rfl, hwritable⟩,
      (cidProtobufDecode_eq_ok hlen).2 ⟨hread, ?_⟩⟩
    rw [Cid.decoded_eq_iff.2 hcodec]

theorem Cid.convertible_of_lt (hsize : cidProtobufEncodeSize (some cid) < 2 ^ 31) :
    cid.Convertible := by
  have hle := cidBytes_length_le (some cid)
  exact ⟨writable_of_lt (cidItems_wordSized cid) hle hsize,
    readable_of_lt (lt_of_le_of_lt hle hsize)⟩

/-- **each codec of a byte** can be cast, with either version and any hash -/
theorem cidCast_codec {version : UInt8} {codec : Nat} {hash : List UInt8}
    (hversion : version = 0 ∨ version = 1) (hcodec : codec < 256) (hlen : hash.length < 2 ^ 30) :
    cidCast (version :: (varintBytes codec ++ hash)) =
      .ok (some { version := Int32.ofNat version.toNat, codec := Int32.ofNat codec,
                  hash := hash }) := by
  have hten := varintBytes_length_le codec
  have hpos := varintBytes_length_pos codec
  have hnot : version ≠ 18 := by
    rcases hversion with rfl | rfl <;> decide
  have hsmall : ¬ (1 = 0 ∨ 1 < Int32.ofInt version.toNat ∨ Int32.ofInt version.toNat < 0) := by
    rcases hversion with rfl | rfl <;> decide
  have hfirst (len : Int) : varintDecode len (version :: (varintBytes codec ++ hash)) =
      .ok (version.toNat, 1) := by
    rcases hversion with rfl | rfl <;> rfl
  have hsecond : varintDecode
      (toInt32 ((version :: (varintBytes codec ++ hash)).length - 1 : Nat))
      (varintBytes codec ++ hash) = .ok (codec, (varintBytes codec).length) := by
    refine varintDecode_varintBytes (by omega) (varintFits_of_le ?_)
    rw [List.length_cons, Nat.add_sub_cancel, List.length_append,
      toInt32_natCast_of_lt (by omega)]
    omega
  have hdrop : (version :: (varintBytes codec ++ hash)).drop (1 + (varintBytes codec).length) =
      hash := by
    rw [Nat.add_comm, List.drop_succ_cons, List.drop_left]
  unfold cidCast
  rw [if_neg (fun h => hnot h.2.1), hfirst, ok_bind]
  simp only
  rw [if_neg hsmall, List.drop_one, List.tail_cons, hsecond, ok_bind]
  simp only
  rw [if_neg (by omega), hdrop]
  rfl

/-! ## blocks -/

theorem Block.decoded_eq_iff :
    block.decoded = block ↔ ∀ cid, block.cid = some cid → cid.CharCodec := by
  have hcid : block.decoded = block ↔ block.cid.map Cid.decoded = block.cid := by
    constructor
    · intro h
      exact congrArg Block.cid h
    · intro h
      unfold Block.decoded
      rw [h]
  rw [hcid]
  cases block.cid with
  | none =>
    refine ⟨fun _ cid h => ?_, fun _ => rfl⟩
    cases h
  | some cid =>
    rw [Option.map_some, Option.some_inj, Cid.decoded_eq_iff]
    refine ⟨fun h cid' h' => ?_, fun h => h cid rfl⟩
    obtain rfl := Option.some.inj h'
    exact h

theorem Block.convertible_of_lt (hsize : blocksBlockProtobufEncodeSize block < 2 ^ 31) :
    block.Convertible := by
  have hlt := lt_of_le_of_lt (blockBytes_length_le block) hsize
  obtain ⟨-, hwritable, hwriteCid⟩ := (blocksBlockProtobufEncode_eq_ok (by omega)).1
    (blocksBlockProtobufEncode_of_lt hsize)
  obtain ⟨hread, hreadCid, -⟩ := (blocksBlockProtobufDecode_eq_some (le_ptrdiffMax_of_lt hlt)).1
    (blocksBlockProtobufDecode_blockBytes block hlt)
  exact ⟨fun cid hc => ⟨hwriteCid cid hc, hreadCid cid hc⟩, hwritable, hread⟩

/-- **the round trip** of a block in a buffer of the size computed for it -/
theorem blockRoundTrips_iff (hsize : blocksBlockProtobufEncodeSize block ≤ ptrdiffMax) :
    block.RoundTrips ↔ (∀ cid, block.cid = some cid → cid.CharCodec) ∧ block.Convertible := by
  have hpd : ptrdiffMax < 2 ^ 64 := ptrdiffMax_lt
  have hlen := le_trans (blockBytes_length_le block) hsize
  have h64 := lt_of_le_of_lt hlen hpd
  constructor
  · intro h
    obtain ⟨bytes, hencode, hdecode⟩ := h
    obtain ⟨rfl, hwritable, hcid⟩ := (blocksBlockProtobufEncode_eq_ok h64).1 hencode
    obtain ⟨hread, hreadCid, hsame⟩ := (blocksBlockProtobufDecode_eq_some hlen).1 hdecode
    exact ⟨Block.decoded_eq_iff.1 hsame.symm, fun cid hc => ⟨hcid cid hc, hreadCid cid hc⟩,
      hwritable, hread⟩
  · intro h
    obtain ⟨hcodec, hconv⟩ := h
    refine ⟨_, (blocksBlockProtobufEncode_eq_ok h64).2
      ⟨rfl, hconv.writable, fun cid hc => (hconv.cid cid hc).1⟩,
      (blocksBlockProtobufDecode_eq_some hlen).2
        ⟨hconv.readable, fun cid hc => (hconv.cid cid hc).2, ?_⟩⟩
    exact (Block.decoded_eq_iff.2 hcodec).symm

/-- **the CIDs and blocks that come back** -/
theorem codecRoundTrips_iff (hcid : cidProtobufEncodeSize (some cid) ≤ ptrdiffMax)
    (hblock : blocksBlockProtobufEncodeSize block ≤ ptrdiffMax) :
    (cid.RoundTrips ↔ cid.CharCodec ∧ cid.Convertible) ∧
      (block.RoundTrips ↔
        (∀ cid, block.cid = some cid → cid.CharCodec) ∧ block.Convertible) :=
  ⟨cidRoundTrips_iff hcid, blockRoundTrips_iff hblock⟩

end

/-- the CIDs that `ipfs_cid_cast` or the decoder can make -/
def Cid.Produced (cid : Cid) : Prop :=
  (∃ incoming, cidCast incoming = .ok (some cid)) ∨
    ∃ buf, cidProtobufDecode buf = .ok (some (some cid))

/-- a CID of the DAG, and a block under it -/
def dagCid : Cid where
  version := 1
  codec := cidDagProtobuf
  hash := [1, 2, 3]

def dagBlock : Block where
  cid := some dagCid
  data := [4, 5]

theorem codecRoundTrips_dagBlock : dagCid.RoundTrips ∧ dagBlock.RoundTrips := by
  have hcidSize : cidProtobufEncodeSize (some dagCid) = 37 := by decide
  have hblockSize : blocksBlockProtobufEncodeSize dagBlock = 61 := by decide
  have hcodec : dagCid.CharCodec := ⟨by decide, by decide⟩
  have hconv : dagCid.Convertible := by
    apply Cid.convertible_of_lt
    rw [hcidSize]
    norm_num
  have hconvBlock : dagBlock.Convertible := by
    apply Block.convertible_of_lt
    rw [hblockSize]
    norm_num
  have hblockCodec : ∀ cid, dagBlock.cid = some cid → cid.CharCodec := by
    intro cid h
    obtain rfl := Option.some.inj h
    exact hcodec
  have hiff := @codecRoundTrips_iff dagCid dagBlock
    (by rw [hcidSize]; norm_num [ptrdiffMax]) (by rw [hblockSize]; norm_num [ptrdiffMax])
  exact ⟨hiff.1.2 ⟨hcodec, hconv⟩, hiff.2.2 ⟨hblockCodec, hconvBlock⟩⟩

/-- the codec of an ethereum block is read back as a negative number -/
theorem not_codecRoundTrips : ¬ ∀ cid : Cid, cid.Produced → cid.RoundTrips := by
  intro hall
  have hcast := @cidCast_codec 1 0x90 [7] (.inr rfl) (by norm_num) (by norm_num)
  have hsize : cidProtobufEncodeSize (some { version := 1, codec := 0x90, hash := [7] }) = 35 := by
    decide
  have hobject : cidProtobufEncodeSize (some { version := 1, codec := 0x90, hash := [7] }) ≤
      ptrdiffMax := by
    rw [hsize]
    norm_num [ptrdiffMax]
  have htrip : Cid.RoundTrips { version := 1, codec := 0x90, hash := [7] } :=
    hall _ (.inl ⟨_, hcast⟩)
  have hcodec := ((cidRoundTrips_iff hobject).1 htrip).1.2
  exact absurd hcodec (by decide)

end Ipfs
