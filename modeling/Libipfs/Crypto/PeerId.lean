import Libipfs.Blocks.Cid
import Libipfs.Multiaddr.Base58
import Libipfs.Protobuf.Encode
import Libipfs.Secio.Negotiate
import Mathlib.Data.List.TakeWhile

/-!
# Peer ids

A peer id is made from a public key: its protobuf is hashed, the hash is put into a multihash,
and the multihash into base58.  The length that is passed to base58 is that of a string, which
ends at the first zero byte.

* `prettyID`, `publicKeyToPeerId`   the functions;
* `base58Encode_injective`   different bytes have different texts;
* `fullKeyHash_iff`   **the keys whose id has the whole hash**.
-/

namespace Libp2p
open CSem Ipfs

/-! ## public keys -/

inductive KeyType where
  | rsa
  | ed25519
  | invalid
  deriving DecidableEq, Repr

def KeyType.num : KeyType → Nat
  | .rsa => 0
  | .ed25519 => 1
  | .invalid => 2

/-- the size of the data is a `size_t` -/
structure PublicKey where
  type : KeyType
  data : List UInt8
  sized : data.length < 2 ^ 64

def publicKeyProtobufEncodeSize (key : PublicKey) : Nat := 11 + 11 + key.data.length

/-- a key of whatever type -/
def keyProtobufEncode (type : Nat) (data : List UInt8) (maxBufferLength : Nat) : Exec (List UInt8) :=
  encodeAll
    [protobufEncodeVarint 1 .varint type,
     protobufEncodeLengthDelimited 2 .lengthDelimited data] maxBufferLength

def publicKeyProtobufEncode (key : PublicKey) (maxBufferLength : Nat) : Exec (List UInt8) :=
  keyProtobufEncode key.type.num key.data maxBufferLength

/-! ## the id -/

/-- `none` for a digest that is too long -/
def mhNew (code : UInt8) (digest : List UInt8) : Option (List UInt8) :=
  if 127 < digest.length then none
  else some (code :: UInt8.ofNat digest.length :: digest)

/-- `none` when the function returns 0 -/
def prettyID (rezbuflen : Nat) (idBuf : List UInt8) : Exec (Option (List UInt8)) := do
  match mhNew 0x12 idBuf with
  | none => .ok none
  | some multihash => do
    require .overflow (multihash.length ≤ rezbuflen)
    -- `strlen(temp_buffer)`
    require .outOfBounds (multihash.length < rezbuflen ∨ multihash.contains 0)
    let text ← cryptoEncodingBase58Encode (cString multihash)
    if rezbuflen ≤ text.length then .ok none
    else .ok (some text)

/-- `none` when the function returns 0 -/
def publicKeyToPeerId (sha256 : List UInt8 → Digest) (key : PublicKey) :
    Exec (Option (List UInt8)) := do
  let protobuf ← publicKeyProtobufEncode key (publicKeyProtobufEncodeSize key)
  prettyID 100 (sha256 protobuf).1

/-! ## what the id should be -/

/-- the bytes of the two fields -/
def PublicKey.protobuf (key : PublicKey) : List UInt8 :=
  varintField 1 .varint key.type.num ++ bytesField 2 .lengthDelimited key.data

def PublicKey.hash (sha256 : List UInt8 → Digest) (key : PublicKey) : List UInt8 :=
  (sha256 key.protobuf).1

/-- the id is the text of the multihash, it is decoded to the whole hash, and no key with another
hash has it -/
def FullKeyHash (sha256 : List UInt8 → Digest) (key : PublicKey) : Prop :=
  ∃ id, publicKeyToPeerId sha256 key = .ok (some id) ∧
    cryptoEncodingBase58Encode (0x12 :: 0x20 :: key.hash sha256) = .ok id ∧
    (cidDecodeHashFromBase58 id).map Cid.hash = some (key.hash sha256) ∧
    ∀ other : PublicKey, other.hash sha256 ≠ key.hash sha256 →
      publicKeyToPeerId sha256 other ≠ .ok (some id)

/-- the size of the data is written by an encoder that takes the size of its buffer for an
`int` -/
def PublicKey.Encodable (key : PublicKey) : Prop :=
  varintRoom 0 (varintBytes key.data.length).length (19 + key.data.length)

/-! ## the protobuf -/

theorem KeyType.num_lt (type : KeyType) : type.num < 128 := by
  cases type <;> decide

theorem varintBytes_of_lt {n : Nat} (h : n < 128) : varintBytes n = [UInt8.ofNat n] := by
  rw [varintBytes, varintBytesFrom_succ, if_pos h]

/-- a number of one byte needs room for it only -/
theorem varintEncode_of_lt {n room : Nat} (h : n < 128) (hroom : 0 < room) :
    varintEncode n room = .ok [UInt8.ofNat n] := by
  have h64 : n < 2 ^ 64 := Nat.lt_trans h (by decide)
  rw [varintEncode_eq_ok h64, varintBytes_of_lt h]
  exact ⟨rfl, hroom, .inl rfl⟩

section
variable {sha256 : List UInt8 → Digest} {key : PublicKey} {out : List UInt8}

theorem publicKeyProtobufEncode_eq_ok :
    publicKeyProtobufEncode key (publicKeyProtobufEncodeSize key) = .ok out ↔
      key.Encodable ∧ out = key.protobuf := by
  have htype := key.type.num_lt
  have hsize : publicKeyProtobufEncodeSize key = 22 + key.data.length := rfl
  have htag : tagBytes 1 .varint = [8] := rfl
  have htag2 : tagBytes 2 .lengthDelimited = [18] := rfl
  have hroom : 22 + key.data.length - 2 - 1 = 19 + key.data.length := by omega
  have hfirst : protobufEncodeVarint 1 .varint key.type.num (22 + key.data.length) =
      .ok [8, UInt8.ofNat key.type.num] := by
    unfold protobufEncodeVarint encodeVarintField
    rw [varintEncode_of_lt (by decide) (by omega), ok_bind,
      varintEncode_of_lt htype (by simp), ok_bind]
    rfl
  unfold publicKeyProtobufEncode keyProtobufEncode PublicKey.protobuf varintField bytesField PublicKey.Encodable
  rw [hsize, encodeAll_cons, hfirst, ok_bind, encodeAll_cons, htag, htag2, varintBytes_of_lt htype]
  unfold protobufEncodeLengthDelimited encodeBytesField
  have htwo : ([8, UInt8.ofNat key.type.num] : List UInt8).length = 2 := rfl
  rw [htwo, varintEncode_of_lt (by decide) (by omega), ok_bind]
  have hone : ([UInt8.ofNat (2 * 8 + WireType.num .lengthDelimited)] : List UInt8).length = 1 := rfl
  rw [hone, hroom]
  have hten := varintBytes_length_le key.data.length
  constructor
  · intro h
    obtain ⟨rest, hrest, h⟩ := bind_eq_ok.1 h
    obtain ⟨last, hlast, hrest⟩ := bind_eq_ok.1 hrest
    obtain ⟨size, hvarint, hlast⟩ := bind_eq_ok.1 hlast
    obtain ⟨rfl, henough⟩ := (varintEncode_eq_ok key.sized).1 hvarint
    obtain ⟨-, hlast⟩ := require_bind_eq_ok.1 hlast
    obtain rfl := Except.ok.inj hlast
    obtain rfl := Except.ok.inj hrest
    obtain rfl := Except.ok.inj h
    refine ⟨henough, ?_⟩
    simp only [List.append_nil, List.append_assoc]
    rfl
  · rintro ⟨henough, rfl⟩
    rw [(varintEncode_eq_ok key.sized).2 ⟨rfl, henough⟩, ok_bind, require_pos (by omega),
      ok_bind, ok_bind, encodeAll_nil, ok_bind, ok_bind]
    simp only [List.append_nil, List.append_assoc]
    rfl

end

/-! ## base58 -/

section
variable {data data' text digest : List UInt8}

/-- the text of bytes that do not begin with zero is that of the digits of their number -/
theorem base58Encode_digits (h0 : data.head? ≠ some 0) :
    ∃ ds : List Nat, (∀ d ∈ ds, d < 58) ∧ ofDigits 58 ds = bytesValue data ∧
      ds.length ≤ data.length * 138 / 100 + 1 ∧
      cryptoEncodingBase58Encode data = .ok (ds.map base58Char) := by
  obtain ⟨_, rfl, hlt, -, hvalue, hlen⟩ := exists_digits data
  refine ⟨_, hlt, hvalue, hlen, ?_⟩
  unfold cryptoEncodingBase58Encode
  rw [require_pos h0, ok_bind]

/-- **different bytes have different texts**, when they do not begin with zero -/
theorem base58Encode_injective (hne : data ≠ []) (hne' : data' ≠ []) (h0 : data.head? ≠ some 0)
    (h0' : data'.head? ≠ some 0) (h : cryptoEncodingBase58Encode data = .ok text)
    (h' : cryptoEncodingBase58Encode data' = .ok text) : data = data' := by
  obtain ⟨ds, hds, hv, -, henc⟩ := base58Encode_digits h0
  obtain ⟨ds', hds', hv', -, henc'⟩ := base58Encode_digits h0'
  rw [h] at henc
  rw [h'] at henc'
  have hmap : ds.map base58Char = ds'.map base58Char :=
    Except.ok.inj (henc.symm.trans henc')
  have hdigits : some ds = some ds' := by
    rw [← mapM_base58Digit hds, ← mapM_base58Digit hds', hmap]
  have hvalue : bytesValue data = bytesValue data' := by
    rw [← hv, ← hv', Option.some.inj hdigits]
  rw [← numberBytes_bytesValue hne h0, hvalue, numberBytes_bytesValue hne' h0']

/-! ## the multihash as a string -/

theorem cString_cons {b : UInt8} (hb : b ≠ 0) (s : List UInt8) :
    cString (b :: s) = b :: cString s := by
  unfold cString
  rw [List.takeWhile_cons, if_pos (by simpa using hb)]

/-- the text that is made of a digest -/
theorem prettyID_eq (h : digest.length = 32) : ∃ id,
    cryptoEncodingBase58Encode (0x12 :: 0x20 :: cString digest) = .ok id ∧
      prettyID 100 digest = .ok (some id) := by
  have hnew : mhNew 0x12 digest = some (0x12 :: 0x20 :: digest) := by
    unfold mhNew
    rw [if_neg (by omega), h]
    rfl
  have hcut : cString (0x12 :: 0x20 :: digest) = 0x12 :: 0x20 :: cString digest := by
    rw [cString_cons (by decide), cString_cons (by decide)]
  have hlen : (0x12 :: 0x20 :: digest : List UInt8).length = 34 := by simp [h]
  have hshort : (0x12 :: 0x20 :: cString digest : List UInt8).length ≤ 34 := by
    rw [← hcut, ← hlen]
    exact (List.takeWhile_sublist _).length_le
  obtain ⟨ds, -, -, hsize, henc⟩ :=
    base58Encode_digits (show (0x12 :: 0x20 :: cString digest).head? ≠ some 0 by simp)
  have hfits : ¬ 100 ≤ (ds.map base58Char).length := by
    rw [List.length_map]
    omega
  refine ⟨ds.map base58Char, henc, ?_⟩
  unfold prettyID
  rw [hnew]
  dsimp only
  rw [require_pos (by omega), ok_bind, require_pos (.inl (by omega)), ok_bind, hcut, henc, ok_bind,
    if_neg hfits]

end

/-! ## the id -/

section
variable {sha256 : List UInt8 → Digest} {key : PublicKey} {id : List UInt8}

theorem publicKeyToPeerId_eq_ok : publicKeyToPeerId sha256 key = .ok (some id) ↔
    key.Encodable ∧
      cryptoEncodingBase58Encode (0x12 :: 0x20 :: cString (key.hash sha256)) = .ok id := by
  obtain ⟨text, henc, hid⟩ := prettyID_eq (sha256 key.protobuf).2
  have htext : cryptoEncodingBase58Encode (0x12 :: 0x20 :: cString (key.hash sha256)) = .ok text :=
    henc
  unfold publicKeyToPeerId
  rw [bind_eq_ok, htext]
  constructor
  · rintro ⟨out, hout, h⟩
    obtain ⟨hkey, rfl⟩ := publicKeyProtobufEncode_eq_ok.1 hout
    rw [hid] at h
    exact ⟨hkey, congrArg Except.ok (Option.some.inj (Except.ok.inj h))⟩
  · rintro ⟨hkey, h⟩
    obtain rfl := Except.ok.inj h
    exact ⟨key.protobuf, publicKeyProtobufEncode_eq_ok.2 ⟨hkey, rfl⟩, hid⟩

/-- ids that are the same come from hashes that are the same up to the first zero byte -/
theorem cString_hash_eq {hash hash' : List UInt8}
    (h : cryptoEncodingBase58Encode (0x12 :: 0x20 :: hash) = .ok id)
    (h' : cryptoEncodingBase58Encode (0x12 :: 0x20 :: hash') = .ok id) : hash = hash' := by
  have hall := base58Encode_injective (by simp) (by simp) (by simp) (by simp) h h'
  exact List.cons.inj (List.cons.inj hall).2 |>.2

/-- **the whole hash**: the key can be encoded, and its hash has no zero byte -/
theorem fullKeyHash_iff (sha256 : List UInt8 → Digest) (key : PublicKey) :
    FullKeyHash sha256 key ↔ key.Encodable ∧ 0 ∉ key.hash sha256 := by
  constructor
  · rintro ⟨id, hid, htext, -⟩
    obtain ⟨hkey, hcut⟩ := publicKeyToPeerId_eq_ok.1 hid
    have hwhole : cString (key.hash sha256) = key.hash sha256 := cString_hash_eq hcut htext
    exact ⟨hkey, hwhole ▸ not_mem_cString _⟩
  · rintro ⟨hkey, h0⟩
    have hcut := cString_of_not_mem h0
    have hlen : (key.hash sha256).length = 32 := (sha256 key.protobuf).2
    obtain ⟨id, htext, hback⟩ := cidDecodeHashFromBase58_hashText hlen
    have htext : cryptoEncodingBase58Encode (0x12 :: 0x20 :: key.hash sha256) = .ok id := htext
    refine ⟨id, publicKeyToPeerId_eq_ok.2 ⟨hkey, ?_⟩, htext, ?_, fun other hne hother => ?_⟩
    · rw [hcut]
      exact htext
    · rw [hback]
      rfl
    · -- the other hash is this one up to its first zero byte, and as long as this one
      obtain ⟨-, hothercut⟩ := publicKeyToPeerId_eq_ok.1 hother
      have hsame : cString (other.hash sha256) = key.hash sha256 := cString_hash_eq hothercut htext
      have hotherlen : (other.hash sha256).length = 32 := (sha256 other.protobuf).2
      have hall : cString (other.hash sha256) = other.hash sha256 :=
        (List.takeWhile_sublist _).eq_of_length (by
          show (cString (other.hash sha256)).length = _
          rw [hsame, hlen, hotherlen])
      exact hne (hall.symm.trans hsame)

end

/-- the hash of the protobuf of `smallKey` -/
def smallKeyHash : Digest :=
  ⟨[0, 202, 240, 107, 70, 53, 50, 109, 160, 156, 230, 177, 217, 210, 104, 96, 44, 254, 5, 190, 109,
    171, 129, 176, 128, 22, 149, 122, 181, 48, 226, 130], rfl⟩

def smallKey : PublicKey := ⟨.rsa, [1, 174], by decide⟩

/-- three characters, for every hash that begins with zero -/
theorem not_fullKeyHash_smallKey : ¬ FullKeyHash (fun _ => smallKeyHash) smallKey := by
  rintro ⟨id, hid, htext, -⟩
  have hshort : (publicKeyToPeerId (fun _ => smallKeyHash) smallKey).map (Option.map List.length) =
      .ok (some 3) := by decide
  have hlong : (cryptoEncodingBase58Encode
      (0x12 :: 0x20 :: smallKey.hash fun _ => smallKeyHash)).map List.length = .ok 46 := by
    decide
  rw [hid] at hshort
  rw [htext] at hlong
  have h3 : id.length = 3 := Option.some.inj (Except.ok.inj hshort)
  have h46 : id.length = 46 := Except.ok.inj hlong
  omega

end Libp2p
