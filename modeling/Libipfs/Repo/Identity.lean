import Libipfs.Crypto.Base64
import Libipfs.Crypto.PeerId
import Libipfs.Libp2p.KnownPeers

/-!
# The identity in the config file

The private key is kept in the file as the base64 text of a protobuf.  Reading it, the numbers of
the key and its public half come from the RSA library, and the peer id is built from the latter.

* `privateKeyProtobufDecode_encoded`   the protobuf of a key is decoded to it;
* `privateKeyText`                    the text in the file;
* `repoConfigIdentityBuildPrivateKey`  an identity from it;
* `buildPrivateKey_generated`          **a generated identity is built again from its text**.
-/

namespace Libp2p
open CSem

/-! ## private keys -/

/-- the type as it is in memory -/
structure PrivateKey where
  type : UInt32 := UInt32.ofNat KeyType.invalid.num
  data : List UInt8 := []
  deriving DecidableEq, Repr

def privateKeyProtobufEncodeSize (key : PrivateKey) : Nat := 22 + key.data.length

def privateKeyProtobufEncode (key : PrivateKey) (maxBufferLength : Nat) : Exec (List UInt8) :=
  encodeAll
    [protobufEncodeVarint 1 .varint key.type.toNat,
     protobufEncodeLengthDelimited 2 .lengthDelimited key.data] maxBufferLength

def privateKeyFields (fieldNo : Int) : FieldCase PrivateKey :=
  match fieldNo with
  | 1 => .varint fun v key => .ok (some { key with type := UInt32.ofNat v })
  | 2 => .bytes fun d key => .ok (some { key with data := d })
  | _ => .skip

/-- `none` when the decoder returns 0 -/
def privateKeyProtobufDecode (buffer : List UInt8) : Exec (Option PrivateKey) :=
  decodeFields privateKeyFields buffer {}

def PrivateKey.items (key : PrivateKey) : List Item :=
  [.varint 1 .varint key.type.toNat, .bytes 2 .lengthDelimited key.data]

section
variable {key : PrivateKey}

theorem PrivateKey.items_wordSized (key : PrivateKey) : ∀ i ∈ key.items, i.WordSized := by
  have htype : key.type.toNat < 2 ^ 64 := Nat.lt_trans key.type.toNat_lt (by decide)
  have hone : 1 < 16 := by decide
  have htwo : 2 < 16 := by decide
  intro i hi
  obtain rfl | hi := List.mem_cons.1 hi
  · exact ⟨hone, htype⟩
  · rw [List.mem_singleton.1 hi]
    exact htwo

theorem PrivateKey.length_items (key : PrivateKey) :
    (itemsBytes key.items).length ≤ privateKeyProtobufEncodeSize key := by
  have htype := varintField_length_le_eleven 1 .varint key.type.toNat (by decide)
  have hdata := bytesField_length_le 2 .lengthDelimited key.data (by decide)
  have hbytes : itemsBytes key.items = varintField 1 .varint key.type.toNat ++
      (bytesField 2 .lengthDelimited key.data ++ []) := rfl
  unfold privateKeyProtobufEncodeSize
  rw [hbytes, List.append_nil, List.length_append]
  omega

theorem privateKeyProtobufEncode_eq (h : privateKeyProtobufEncodeSize key < 2 ^ 31) :
    privateKeyProtobufEncode key (privateKeyProtobufEncodeSize key) =
      .ok (itemsBytes key.items) :=
  (writes_encodeItems key.items_wordSized).fits _ key.length_items h

/-- **the protobuf of a key** is decoded to it -/
theorem privateKeyProtobufDecode_encoded (h : privateKeyProtobufEncodeSize key < 2 ^ 31) :
    privateKeyProtobufDecode (itemsBytes key.items) = .ok (some key) := by
  have hlen := key.length_items
  have haccepted : ∀ i ∈ key.items, i.WordSized ∧ i.Accepted privateKeyFields := by
    intro i hi
    refine ⟨key.items_wordSized i hi, ?_⟩
    obtain rfl | hi := List.mem_cons.1 hi
    · trivial
    · rw [List.mem_singleton.1 hi]
      trivial
  unfold privateKeyProtobufDecode
  rw [decodeFields_items haccepted (by omega)]
  show Except.ok (some (PrivateKey.mk (UInt32.ofNat key.type.toNat) key.data)) = _
  rw [UInt32.ofNat_toNat]

end

end Libp2p

namespace Ipfs
open CSem Libp2p

/-! ## identities -/

/-- the lowest words of the numbers of a key -/
structure RsaNumbers where
  qp : UInt64
  dq : UInt64
  dp : UInt64
  q : UInt64
  p : UInt64
  d : UInt64
  e : UInt64
  n : UInt64
  deriving DecidableEq, Repr

/-- it is written into 1600 bytes -/
abbrev PublicDer : Type := { der : List UInt8 // der.length ≤ 1600 }

structure RsaPrivateKey where
  numbers : RsaNumbers := ⟨0, 0, 0, 0, 0, 0, 0, 0⟩
  der : List UInt8 := []
  publicKeyDer : PublicDer := ⟨[], by decide⟩
  deriving DecidableEq, Repr

/-- the local peer, its id a string -/
structure IdentityPeer where
  id : List UInt8 := []
  isLocal : Bool := false
  addrs : List Multiaddress := []

structure Identity where
  privateKey : RsaPrivateKey := {}
  peer : Option IdentityPeer := none

/-- the RSA library: the numbers of a key in DER format, `none` when it can not be parsed, and the
public half of it -/
structure RsaLibrary where
  parseKey : List UInt8 → Option RsaNumbers
  writePublicKeyDer : List UInt8 → Option PublicDer

section
variable (sha256 : List UInt8 → Digest) (rsa : RsaLibrary)

def RsaPrivateKey.publicKey (key : RsaPrivateKey) : PublicKey where
  type := .rsa
  data := key.publicKeyDer.1
  sized := Nat.lt_of_le_of_lt key.publicKeyDer.2 (by decide)

/-- `none` when the function returns 0 -/
def repoConfigIdentityBuildPeerId (identity : Identity) : Exec (Option Identity) := do
  match ← publicKeyToPeerId sha256 identity.privateKey.publicKey with
  | none => .ok none
  | some id => .ok (some { identity with peer := some { identity.peer.getD {} with id := id } })

/-- `none` when the function returns 0 -/
def repoConfigIdentityBuildPrivateKey (identity : Identity) (base64 : List UInt8) :
    Exec (Option Identity) := do
  match ← cryptoEncodingBase64Decode base64 (cryptoEncodingBase64DecodeSize base64.length) with
  | none => .ok none
  | some decoded =>
    match ← privateKeyProtobufDecode decoded with
    | none => .ok none
    | some privKey =>
      match rsa.parseKey privKey.data with
      | none => .ok none
      | some numbers =>
        match rsa.writePublicKeyDer privKey.data with
        | none => .ok none
        | some publicKeyDer =>
          repoConfigIdentityBuildPeerId sha256
            { identity with
              privateKey :=
                { numbers := numbers, der := privKey.data, publicKeyDer := publicKeyDer } }

/-- the key in a protobuf, and that in base64 -/
def privateKeyText (key : RsaPrivateKey) : Exec (Option (List UInt8)) := do
  let privKey : PrivateKey := { type := UInt32.ofNat KeyType.rsa.num, data := key.der }
  let protobuf ← privateKeyProtobufEncode privKey (privateKeyProtobufEncodeSize privKey)
  .ok (cryptoEncodingBase64Encode protobuf (cryptoEncodingBase64EncodeSize protobuf.length))

/-- an id of a valid identity begins with `Qm` -/
def configIsValidIdentity (identity : Identity) : Bool :=
  match identity.peer with
  | none => false
  | some peer => peer.id.head? = some 81 ∧ peer.id[1]? = some 109

/-- what the library generates: at most 1600 bytes that are parsed to the numbers of the key, the
public half of it, and the id built from that -/
structure Identity.Generated (identity : Identity) : Prop where
  der : identity.privateKey.der.length ≤ 1600
  numbers : rsa.parseKey identity.privateKey.der = some identity.privateKey.numbers
  publicKeyDer : rsa.writePublicKeyDer identity.privateKey.der =
    some identity.privateKey.publicKeyDer
  peer : ∃ peer, identity.peer = some peer ∧
    publicKeyToPeerId sha256 identity.privateKey.publicKey = .ok (some peer.id)
  valid : configIsValidIdentity identity = true

end

/-! ## the text of a key -/

section
variable {sha256 : List UInt8 → Digest} {rsa : RsaLibrary} {identity : Identity}

/-- the protobuf of a key -/
def keyProtobuf (key : RsaPrivateKey) : List UInt8 :=
  itemsBytes (PrivateKey.mk (UInt32.ofNat KeyType.rsa.num) key.der).items

theorem keyProtobuf_eq (key : RsaPrivateKey) : ∃ rest, keyProtobuf key = 8 :: 0 :: 18 :: rest :=
  ⟨_, rfl⟩

theorem privateKeyText_eq {key : RsaPrivateKey} (h : key.der.length ≤ 1600) :
    privateKeyText key = .ok (some (base64Chars (keyProtobuf key))) := by
  have hsize : privateKeyProtobufEncodeSize ⟨UInt32.ofNat KeyType.rsa.num, key.der⟩ < 2 ^ 31 := by
    unfold privateKeyProtobufEncodeSize
    dsimp only
    omega
  have hlen := (PrivateKey.mk (UInt32.ofNat KeyType.rsa.num) key.der).length_items
  unfold privateKeyProtobufEncodeSize at hlen hsize
  unfold privateKeyText
  dsimp only
  rw [privateKeyProtobufEncode_eq hsize, ok_bind]
  show Except.ok (cryptoEncodingBase64Encode (keyProtobuf key)
    (cryptoEncodingBase64EncodeSize (keyProtobuf key).length)) = _
  have hshort : (keyProtobuf key).length < 2 ^ 31 := by
    show (itemsBytes _).length < 2 ^ 31
    omega
  obtain ⟨rest, hrest⟩ := keyProtobuf_eq key
  have hne : keyProtobuf key ≠ [] := by
    rw [hrest]
    exact List.cons_ne_nil _ _
  unfold cryptoEncodingBase64Encode mbedtlsBase64Encode cryptoEncodingBase64EncodeSize
  dsimp only
  rw [if_neg hne, if_neg (by split <;> omega), if_neg (by omega)]

/-- **a generated identity** is built again from the text of its key -/
theorem buildPrivateKey_generated (h : identity.Generated sha256 rsa) (fresh : Identity) :
    ∃ peer, identity.peer = some peer ∧
      repoConfigIdentityBuildPrivateKey sha256 rsa fresh
          (base64Chars (keyProtobuf identity.privateKey)) =
        .ok (some
          { privateKey := identity.privateKey
            peer := some { fresh.peer.getD {} with id := peer.id } }) := by
  have hsize : privateKeyProtobufEncodeSize
      ⟨UInt32.ofNat KeyType.rsa.num, identity.privateKey.der⟩ < 2 ^ 31 := by
    have hder := h.der
    unfold privateKeyProtobufEncodeSize
    dsimp only
    omega
  obtain ⟨rest, hrest⟩ := keyProtobuf_eq identity.privateKey
  have hne : keyProtobuf identity.privateKey ≠ [] := by
    rw [hrest]
    exact List.cons_ne_nil _ _
  have hdecode : privateKeyProtobufDecode (keyProtobuf identity.privateKey) =
      .ok (some ⟨UInt32.ofNat KeyType.rsa.num, identity.privateKey.der⟩) :=
    privateKeyProtobufDecode_encoded hsize
  obtain ⟨peer, hpeer, hid⟩ := h.peer
  refine ⟨peer, hpeer, ?_⟩
  unfold repoConfigIdentityBuildPrivateKey
  rw [cryptoEncodingBase64Decode_encoded hne, ok_bind]
  dsimp only
  rw [hdecode, ok_bind]
  dsimp only
  rw [h.numbers, h.publicKeyDer]
  unfold repoConfigIdentityBuildPeerId
  show (publicKeyToPeerId sha256 identity.privateKey.publicKey >>= _) = _
  rw [hid, ok_bind]

/-- the text of a key begins with `CA` -/
theorem base64Chars_keyProtobuf (key : RsaPrivateKey) :
    ∃ rest, base64Chars (keyProtobuf key) = 67 :: 65 :: rest := by
  obtain ⟨rest, hrest⟩ := keyProtobuf_eq key
  rw [hrest]
  exact ⟨_, rfl⟩

end

end Ipfs
