import Libipfs.Repo.Identity
import Libipfs.Secio.Handshake

/-!
# The messages of the handshake, written and read

Each message has a size that is computed for it, and is written into a buffer of that size and
read from it.  All of its fields but the type of a key are bytes.

* `secioProposeItems`, `secioExchangeItems`, `receivedKeyItems`   the fields of the messages;
* `ProposeComesBack`, `ExchangeComesBack`, `PublicKeyComesBack`, `PrivateKeyComesBack`   the bytes
  fit the size, and the message is read again;
* `handshakeCodecs_iff`   **they come back** when their varints fit the buffer, its size taken as an
  `int`.
-/

namespace Libp2p
open CSem

/-! ## the fields -/

def secioProposeItems (p : Propose) : List Item :=
  [.bytes 1 .lengthDelimited p.rand, .bytes 2 .lengthDelimited p.publicKey,
   .bytes 3 .lengthDelimited p.exchanges, .bytes 4 .lengthDelimited p.ciphers,
   .bytes 5 .lengthDelimited p.hashes]

def secioExchangeProtobufEncodeSize (epubkey signature : List UInt8) : Nat :=
  11 + epubkey.length + (11 + signature.length)

def secioExchangeItems (epubkey signature : List UInt8) : List Item :=
  [.bytes 1 .lengthDelimited epubkey, .bytes 2 .lengthDelimited signature]

/-- as `publicKeyProtobufEncodeSize`, for a key of any type -/
def receivedKeyProtobufEncodeSize (key : ReceivedKey) : Nat := 11 + 11 + key.data.length

def receivedKeyItems (key : ReceivedKey) : List Item :=
  [.varint 1 .varint key.type.toNat, .bytes 2 .lengthDelimited key.data]

/-- as `publicKeyProtobufEncode` -/
def receivedKeyProtobufEncode (key : ReceivedKey) (maxBufferLength : Nat) : Exec (List UInt8) :=
  keyProtobufEncode key.type.toNat key.data maxBufferLength

/-! ## what they promise -/

/-- there is a buffer of the size, the message is written into it, and read again -/
def ProposeComesBack (p : Propose) : Prop :=
  ∃ bytes, secioProposeProtobufEncodeSize p ≤ ptrdiffMax ∧
    secioProposeProtobufEncode p (secioProposeProtobufEncodeSize p) = .ok bytes ∧
    bytes.length ≤ secioProposeProtobufEncodeSize p ∧
    secioProposeProtobufDecode bytes = .ok (some p)

def ExchangeComesBack (epubkey signature : List UInt8) : Prop :=
  ∃ bytes, secioExchangeProtobufEncodeSize epubkey signature ≤ ptrdiffMax ∧
    secioExchangeProtobufEncode epubkey signature = .ok bytes ∧
    bytes.length ≤ secioExchangeProtobufEncodeSize epubkey signature ∧
    secioExchangeProtobufDecode bytes = .ok (some { epubkey := epubkey, signature := some signature })

def PublicKeyComesBack (key : ReceivedKey) : Prop :=
  ∃ bytes, receivedKeyProtobufEncodeSize key ≤ ptrdiffMax ∧
    receivedKeyProtobufEncode key (receivedKeyProtobufEncodeSize key) = .ok bytes ∧
    bytes.length ≤ receivedKeyProtobufEncodeSize key ∧
    publicKeyProtobufDecode bytes = .ok (some key)

def PrivateKeyComesBack (key : PrivateKey) : Prop :=
  ∃ bytes, privateKeyProtobufEncodeSize key ≤ ptrdiffMax ∧
    privateKeyProtobufEncode key (privateKeyProtobufEncodeSize key) = .ok bytes ∧
    bytes.length ≤ privateKeyProtobufEncodeSize key ∧
    privateKeyProtobufDecode bytes = .ok (some key)

section
variable {p : Propose} {epubkey signature : List UInt8} {key : ReceivedKey} {priv : PrivateKey}

/-! ## proposals -/

theorem secioProposeItems_accepted (p : Propose) :
    ∀ i ∈ secioProposeItems p, i.WordSized ∧ i.Accepted proposeFields := by
  intro i hi
  have hno : ∀ no ∈ [1, 2, 3, 4, 5], no < 16 := by decide
  simp only [secioProposeItems, List.mem_cons, List.not_mem_nil, or_false] at hi
  rcases hi with rfl | rfl | rfl | rfl | rfl
  · exact ⟨hno 1 (by decide), trivial⟩
  · exact ⟨hno 2 (by decide), trivial⟩
  · exact ⟨hno 3 (by decide), trivial⟩
  · exact ⟨hno 4 (by decide), trivial⟩
  · exact ⟨hno 5 (by decide), trivial⟩

theorem length_secioProposeItems (p : Propose) :
    (itemsBytes (secioProposeItems p)).length ≤ secioProposeProtobufEncodeSize p := by
  have hrand := bytesField_length_le 1 .lengthDelimited p.rand (by decide)
  have hkey := bytesField_length_le 2 .lengthDelimited p.publicKey (by decide)
  have hexchanges := bytesField_length_le 3 .lengthDelimited p.exchanges (by decide)
  have hciphers := bytesField_length_le 4 .lengthDelimited p.ciphers (by decide)
  have hhashes := bytesField_length_le 5 .lengthDelimited p.hashes (by decide)
  have hbytes : itemsBytes (secioProposeItems p) = bytesField 1 .lengthDelimited p.rand ++
      (bytesField 2 .lengthDelimited p.publicKey ++ (bytesField 3 .lengthDelimited p.exchanges ++
        (bytesField 4 .lengthDelimited p.ciphers ++
          (bytesField 5 .lengthDelimited p.hashes ++ [])))) := rfl
  unfold secioProposeProtobufEncodeSize
  rw [hbytes]
  simp only [List.length_append, List.length_nil]
  omega

/-- a proposal is decoded from some field -/
theorem secioProposeProtobufDecode_eq_some {bytes : List UInt8} :
    secioProposeProtobufDecode bytes = .ok (some p) ↔
      decodeFields proposeFields bytes
        ({ rand := [], publicKey := [], exchanges := [], ciphers := [], hashes := [] }, false) =
          .ok (some (p, true)) := by
  unfold secioProposeProtobufDecode
  constructor
  · intro h
    obtain ⟨decoded, hdecoded, h⟩ := bind_eq_ok.1 h
    obtain ⟨⟨q, gotSomething⟩, rfl, hq⟩ := Option.bind_eq_some_iff.1 (Except.ok.inj h)
    cases gotSomething with
    | false => exact nomatch hq
    | true =>
      cases hq
      exact hdecoded
  · intro h
    rw [h]
    rfl

theorem proposeComesBack_iff : ProposeComesBack p ↔
    FitsBothWays (secioProposeItems p) (secioProposeProtobufEncodeSize p) := by
  rw [← comesBack_iff_fits (secioProposeItems_accepted p) (length_secioProposeItems p) (r := (p, true)) rfl,
    ProposeComesBack]
  simp only [secioProposeProtobufDecode_eq_some]
  rfl

/-! ## exchanges -/

theorem secioExchangeItems_accepted (epubkey signature : List UInt8) :
    ∀ i ∈ secioExchangeItems epubkey signature, i.WordSized ∧ i.Accepted exchangeFields := by
  have hno : ∀ no ∈ [1, 2], no < 16 := by decide
  intro i hi
  obtain rfl | hi := List.mem_cons.1 hi
  · exact ⟨hno 1 (by decide), trivial⟩
  · rw [List.mem_singleton.1 hi]
    exact ⟨hno 2 (by decide), trivial⟩

theorem length_secioExchangeItems (epubkey signature : List UInt8) :
    (itemsBytes (secioExchangeItems epubkey signature)).length ≤
      secioExchangeProtobufEncodeSize epubkey signature := by
  have hepubkey := bytesField_length_le 1 .lengthDelimited epubkey (by decide)
  have hsignature := bytesField_length_le 2 .lengthDelimited signature (by decide)
  have hbytes : itemsBytes (secioExchangeItems epubkey signature) =
      bytesField 1 .lengthDelimited epubkey ++ (bytesField 2 .lengthDelimited signature ++ []) := rfl
  unfold secioExchangeProtobufEncodeSize
  rw [hbytes, List.append_nil, List.length_append]
  omega

theorem exchangeComesBack_iff : ExchangeComesBack epubkey signature ↔
    FitsBothWays (secioExchangeItems epubkey signature)
      (secioExchangeProtobufEncodeSize epubkey signature) := by
  rw [← comesBack_iff_fits (secioExchangeItems_accepted epubkey signature)
    (length_secioExchangeItems epubkey signature)
    (s := {}) (r := { epubkey := epubkey, signature := some signature }) rfl]
  rfl

/-! ## keys -/

theorem receivedKeyItems_accepted (key : ReceivedKey) :
    ∀ i ∈ receivedKeyItems key, i.WordSized ∧ i.Accepted publicKeyFields := by
  have hno : ∀ no ∈ [1, 2], no < 16 := by decide
  intro i hi
  obtain rfl | hi := List.mem_cons.1 hi
  · exact ⟨⟨hno 1 (by decide), Nat.lt_trans key.type.toNat_lt (by decide)⟩, trivial⟩
  · rw [List.mem_singleton.1 hi]
    exact ⟨hno 2 (by decide), trivial⟩

/-- the two kinds of keys have the same fields -/
theorem length_receivedKeyItems (key : ReceivedKey) :
    (itemsBytes (receivedKeyItems key)).length ≤ receivedKeyProtobufEncodeSize key := by
  have hle := PrivateKey.length_items { type := key.type, data := key.data }
  unfold privateKeyProtobufEncodeSize at hle
  exact hle

theorem publicKeyComesBack_iff : PublicKeyComesBack key ↔
    FitsBothWays (receivedKeyItems key) (receivedKeyProtobufEncodeSize key) := by
  have happly : applyItems publicKeyFields (receivedKeyItems key) {} = .ok (some key) := by
    show Except.ok (some (ReceivedKey.mk (UInt32.ofNat key.type.toNat) key.data)) = _
    rw [UInt32.ofNat_toNat]
  rw [← comesBack_iff_fits (receivedKeyItems_accepted key) (length_receivedKeyItems key) happly]
  rfl

theorem privateKeyComesBack_iff : PrivateKeyComesBack priv ↔
    FitsBothWays priv.items (privateKeyProtobufEncodeSize priv) := by
  have happly : applyItems privateKeyFields priv.items {} = .ok (some priv) := by
    show Except.ok (some (PrivateKey.mk (UInt32.ofNat priv.type.toNat) priv.data)) = _
    rw [UInt32.ofNat_toNat]
  have haccepted : ∀ i ∈ priv.items, i.WordSized ∧ i.Accepted privateKeyFields := by
    intro i hi
    refine ⟨priv.items_wordSized i hi, ?_⟩
    obtain rfl | hi := List.mem_cons.1 hi
    · trivial
    · rw [List.mem_singleton.1 hi]
      trivial
  rw [← comesBack_iff_fits haccepted priv.length_items happly]
  rfl

end

/-! ## all of them -/

/-- **the messages of the handshake** come back exactly when their varints fit -/
theorem handshakeCodecs_iff (p : Propose) (epubkey signature : List UInt8)
    (publicKey : ReceivedKey) (privateKey : PrivateKey) :
    (ProposeComesBack p ↔
      FitsBothWays (secioProposeItems p) (secioProposeProtobufEncodeSize p)) ∧
    (ExchangeComesBack epubkey signature ↔
      FitsBothWays (secioExchangeItems epubkey signature)
        (secioExchangeProtobufEncodeSize epubkey signature)) ∧
    (PublicKeyComesBack publicKey ↔
      FitsBothWays (receivedKeyItems publicKey) (receivedKeyProtobufEncodeSize publicKey)) ∧
    (PrivateKeyComesBack privateKey ↔
      FitsBothWays privateKey.items (privateKeyProtobufEncodeSize privateKey)) :=
  ⟨proposeComesBack_iff, exchangeComesBack_iff, publicKeyComesBack_iff, privateKeyComesBack_iff⟩

theorem not_proposeComesBack_of_length {p : Propose} (hrand : p.rand.length = 2 ^ 31)
    (hrest : secioProposeProtobufEncodeSize p = 2 ^ 31 + 55) : ¬ ProposeComesBack p := by
  intro h
  have hroom := (proposeComesBack_iff.1 h).room
  have hwritable := (writable_iff_roomFor hroom.memory (length_secioProposeItems p)).2 hroom
  have hfirst : (Item.bytes 1 .lengthDelimited p.rand).WritableIn _ := hwritable.1
  rw [hrest] at hfirst
  exact Item.not_writableIn (by omega) (by omega) (by omega) hfirst

/-- a nonce of 2 GiB -/
theorem not_handshakeCodecs : ¬ ∀ p, ProposeComesBack p := by
  intro hall
  have hlarge : ∀ rand : List UInt8, rand.length = 2 ^ 31 → False := by
    intro rand hrand
    refine not_proposeComesBack_of_length hrand ?_ (hall
      { rand := rand, publicKey := [], exchanges := [], ciphers := [], hashes := [] })
    unfold secioProposeProtobufEncodeSize
    rw [hrand]
    rfl
  exact hlarge (List.replicate (2 ^ 31) 0) List.length_replicate

end Libp2p
