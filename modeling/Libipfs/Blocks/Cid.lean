import Libipfs.Libp2p.Peer
import Libipfs.Protobuf.Large
import Libipfs.Crypto.Base58

/-!
# Content identifiers

`struct Cid` with its codec, its copy and its comparison.  A `Cid` pointer may be null, so the
functions that take one take an `Option Cid`.

The codec is asymmetric: the encoder writes the `int` codec of the struct, the decoder reads it
into a `char`; and the decoder hands `hash` on without ever having set it when field 3 is
missing.

* `cidProtobufEncode`, `cidProtobufDecode`   the codec;
* `cidProtobufDecode_encode`   a CID whose codec is a `char` comes back;
* `cidCast`                    a CID out of the bytes of its text;
* `cidDecodeHashFromBase58_hashText`   a hash comes back from its text.
-/

namespace Ipfs
open CSem Libp2p

/-- `hash_length` is the length of `hash` -/
structure Cid where
  version : Int32
  codec : Int32
  hash : List UInt8
  deriving DecidableEq, Repr

/-- `CID_DAG_PROTOBUF` -/
def cidDagProtobuf : Int32 := 0x70

/-- the codec parameter is a `char` -/
def cidNew (version : Int32) (hash : List UInt8) (codec : Int8) : Cid :=
  { version := version, codec := codec.toInt32, hash := hash }

/-- a null original is followed -/
def cidCopy (original : Option Cid) : Exec Cid := deref original

/-! ## encoding -/

def cidProtobufEncodeSize : Option Cid → Nat
  | none => 0
  | some cid => 11 + 12 + cid.hash.length + 11

def cidItems (cid : Cid) : List Item :=
  [.varint 1 .varint (toUInt64 cid.version.toInt),
   .varint 2 .varint (toUInt64 cid.codec.toInt),
   .bytes 3 .lengthDelimited cid.hash]

/-- a null CID is encoded as nothing -/
def cidProtobufEncode (cid : Option Cid) (room : Nat) : Exec (List UInt8) :=
  match cid with
  | none => .ok []
  | some cid => encodeItems (cidItems cid) room

def cidBytes : Option Cid → List UInt8
  | none => []
  | some cid => itemsBytes (cidItems cid)

theorem cidItems_wordSized (cid : Cid) : ∀ i ∈ cidItems cid, i.WordSized := by
  intro i hi
  have hv := toUInt64_lt cid.version.toInt
  have hc := toUInt64_lt cid.codec.toInt
  simp only [cidItems, List.mem_cons, List.not_mem_nil, or_false] at hi
  rcases hi with rfl | rfl | rfl
  · exact ⟨by norm_num, hv⟩
  · exact ⟨by norm_num, hc⟩
  · exact (by norm_num : (3 : Nat) < 16)

theorem writes_cidProtobufEncode (cid : Option Cid) :
    Writes (cidProtobufEncode cid) (cidBytes cid) := by
  cases cid with
  | none =>
    refine ⟨fun room out h => ?_, fun room _ _ => rfl⟩
    cases h
    exact ⟨rfl, Nat.zero_le _⟩
  | some cid => exact writes_encodeItems (cidItems_wordSized cid)

/-- **a CID is encoded** iff it is writable -/
theorem cidProtobufEncode_eq_ok {cid : Cid} {room : Nat} {out : List UInt8}
    (hlen : (cidBytes (some cid)).length < 2 ^ 64) :
    cidProtobufEncode (some cid) room = .ok out ↔
      out = cidBytes (some cid) ∧ Writable (cidItems cid) room :=
  encodeItems_eq_ok (items_object (cidItems_wordSized cid) hlen)

/-- the size function is an upper bound -/
theorem cidBytes_length_le (cid : Option Cid) : (cidBytes cid).length ≤ cidProtobufEncodeSize cid := by
  cases cid with
  | none => exact Nat.le_refl 0
  | some cid =>
    have h1 := varintField_length_le_eleven 1 .varint (toUInt64 cid.version.toInt) (by norm_num)
    have h2 := varintField_length_le_eleven 2 .varint (toUInt64 cid.codec.toInt) (by norm_num)
    have h3 := bytesField_length_le 3 .lengthDelimited cid.hash (by norm_num)
    simp only [cidBytes, cidItems, itemsBytes_cons, itemsBytes_nil, Item.enc_varint,
      Item.enc_bytes, List.length_append, List.length_nil, cidProtobufEncodeSize]
    omega

/-! ## decoding -/

/-- the locals of `ipfs_cid_protobuf_decode`; `hash` is not initialised -/
structure CidLocals where
  version : Int32 := 0
  hash : Option (List UInt8) := none
  codec : Int8 := 0
  deriving DecidableEq, Repr

def cidFields (fieldNo : Int) : FieldCase CidLocals :=
  match fieldNo with
  | 1 => .varint fun v s => .ok (some { s with version := Int32.ofInt v })
  | 2 => .varint fun v s => .ok (some { s with codec := Int8.ofInt v })
  | 3 => .bytes fun d s => .ok (some { s with hash := some d })
  | _ => .skip

/-- `none` when the decoder returns 0, `some none` for a null CID -/
def cidProtobufDecode (buf : List UInt8) : Exec (Option (Option Cid)) :=
  if buf.length = 0 then
    .ok (some none)
  else do
    match ← decodeFields cidFields buf {} with
    | none => .ok none
    | some s =>
      match s.hash with
      | none => .error .uninitialized
      | some hash => .ok (some (some (cidNew s.version hash s.codec)))

theorem cidProtobufDecode_nil : cidProtobufDecode [] = .ok (some none) := rfl

/-- the CID as its encoding is read back: the codec is cut down to a `char` -/
def Cid.decoded (cid : Cid) : Cid := { cid with codec := cid.codec.toInt8.toInt32 }

private theorem toUInt64_emod (z : Int) : ((toUInt64 z : Nat) : Int) = z % 18446744073709551616 := by
  unfold toUInt64
  omega

theorem int32_ofInt_toUInt64 (x : Int32) : Int32.ofInt (toUInt64 x.toInt) = x := by
  apply Int32.toInt.inj
  rw [toUInt64_emod, Int32.toInt_ofInt]
  have h1 := x.le_toInt
  have h2 := x.toInt_lt
  unfold Int.bmod
  norm_num [Int32.size] at *
  omega

theorem int8_ofInt_toUInt64 (x : Int32) : Int8.ofInt (toUInt64 x.toInt) = x.toInt8 := by
  apply Int8.toInt.inj
  rw [toUInt64_emod, Int8.toInt_ofInt, Int32.toInt_toInt8]
  unfold Int.bmod
  norm_num [Int8.size]

theorem cidItems_accepted (cid : Cid) : ∀ i ∈ cidItems cid, i.Accepted cidFields := by
  intro i hi
  simp only [cidItems, List.mem_cons, List.not_mem_nil, or_false] at hi
  rcases hi with rfl | rfl | rfl <;> exact trivial

theorem applyItems_cidItems (cid : Cid) (s : CidLocals) :
    applyItems cidFields (cidItems cid) s =
      .ok (some { version := cid.version, hash := some cid.hash, codec := cid.codec.toInt8 }) := by
  have h : applyItems cidFields (cidItems cid) s = .ok (some
      { version := Int32.ofInt (toUInt64 cid.version.toInt), hash := some cid.hash,
        codec := Int8.ofInt (toUInt64 cid.codec.toInt) }) := rfl
  rw [h, int32_ofInt_toUInt64, int8_ofInt_toUInt64]

theorem cidBytes_ne_nil (cid : Cid) : (cidBytes (some cid)).length ≠ 0 := by
  have h := itemsBytes_length_le (cidItems cid)
  have h3 : (cidItems cid).length = 3 := rfl
  show (itemsBytes (cidItems cid)).length ≠ 0
  omega

/-- **a CID is decoded** iff it is readable -/
theorem cidProtobufDecode_eq_ok {cid : Cid} (hlen : (cidBytes (some cid)).length ≤ ptrdiffMax)
    {r : Option Cid} : cidProtobufDecode (cidBytes (some cid)) = .ok (some r) ↔
      Readable (cidItems cid) ∧ r = some cid.decoded := by
  have hitems : ∀ i ∈ cidItems cid, i.WordSized ∧ i.Accepted cidFields :=
    fun i hi => ⟨cidItems_wordSized cid i hi, cidItems_accepted cid i hi⟩
  have hdecode {s : CidLocals} : decodeFields cidFields (cidBytes (some cid)) {} = .ok (some s) ↔
      Readable (cidItems cid) ∧ applyItems cidFields (cidItems cid) {} = .ok (some s) :=
    decodeFields_eq_some hitems hlen
  unfold cidProtobufDecode
  rw [if_neg (cidBytes_ne_nil cid)]
  constructor
  · intro h
    obtain ⟨x, hx, h⟩ := bind_eq_ok.1 h
    cases x with
    | none => cases h
    | some s =>
      obtain ⟨hread, happly⟩ := hdecode.1 hx
      rw [applyItems_cidItems] at happly
      cases happly
      cases h
      exact ⟨hread, rfl⟩
  · rintro ⟨hread, rfl⟩
    refine bind_eq_ok.2 ⟨_, hdecode.2 ⟨hread, applyItems_cidItems cid {}⟩, rfl⟩

/-- **round trip** of a CID that is not null -/
theorem cidProtobufDecode_cidBytes (cid : Cid) (hlen : (cidBytes (some cid)).length < 2 ^ 31) :
    cidProtobufDecode (cidBytes (some cid)) = .ok (some (some cid.decoded)) :=
  (cidProtobufDecode_eq_ok (le_ptrdiffMax_of_lt hlen)).2 ⟨readable_of_lt hlen, rfl⟩

/-! ## casting -/

/-- the multihash of a SHA-256, or two varints and a hash; `none` when the function returns 0 -/
def cidCast (incoming : List UInt8) : Exec (Option Cid) :=
  if incoming.length = 34 ∧ incoming.getD 0 0 = 18 ∧ incoming.getD 1 0 = 32 then
    .ok (some { version := 0, codec := cidDagProtobuf, hash := incoming.drop 2 })
  else do
    let (version, n) ← varintDecode (toInt32 incoming.length) incoming
    let version := Int32.ofInt version
    if n = 0 ∨ 1 < version ∨ version < 0 then .ok none
    else do
      let (codec, m) ← varintDecode (toInt32 (incoming.length - n : Nat)) (incoming.drop n)
      if m = 0 then .ok none
      else
        -- a `uint32_t` on its way
        let codec := (UInt32.ofNat codec).toInt32
        .ok (some { version := version, codec := codec, hash := incoming.drop (n + m) })

/-! ## comparison -/

/-- lengths are subtracted as `size_t` and returned as an `int` -/
def cidCompare (a b : Option Cid) : Int :=
  match a, b with
  | none, none => 0
  | some _, none => -1
  | none, some _ => 1
  | some a, some b =>
    if a.version ≠ b.version then toInt32 (b.version.toInt - a.version.toInt)
    else if a.codec ≠ b.codec then toInt32 (b.codec.toInt - a.codec.toInt)
    else if a.hash.length ≠ b.hash.length then toInt32 (b.hash.length - a.hash.length)
    else bytesCompare unsignedChar a.hash b.hash

theorem cidCompare_self (a : Option Cid) : cidCompare a a = 0 := by
  cases a with
  | none => rfl
  | some a => simp [cidCompare, bytesCompare_self]

/-! ## base58 -/

/-- only `"Qm…"` of 46 characters is taken: a hash behind the two bytes of its multihash; the
buffer has the 34 bytes that 46 characters can make -/
def cidDecodeHashFromBase58 (incoming : List UInt8) : Option Cid :=
  if incoming.length = 46 ∧ incoming.getD 0 0 = 81 ∧ incoming.getD 1 0 = 109 then
    (cryptoEncodingBase58Decode incoming 34).map fun hash => cidNew 0 (hash.drop 2) 0x70
  else none

/-- the text of a hash: its multihash in base58 -/
def hashText (hash : List UInt8) : Exec (List UInt8) :=
  cryptoEncodingBase58Encode (0x12 :: 0x20 :: hash)

/-- **a hash comes back from its text** -/
theorem cidDecodeHashFromBase58_hashText {hash : List UInt8} (h : hash.length = 32) :
    ∃ text, hashText hash = .ok text ∧ cidDecodeHashFromBase58 text = some (cidNew 0 hash 0x70) := by
  obtain ⟨text, henc, hlen, h0, h1, hdec⟩ := base58Decode_base58Encode h
  refine ⟨text, henc, ?_⟩
  unfold cidDecodeHashFromBase58
  rw [if_pos ⟨hlen, h0, h1⟩, hdec]
  rfl

end Ipfs
