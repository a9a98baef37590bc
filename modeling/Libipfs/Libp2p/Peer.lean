import Libipfs.Protobuf.FieldLoop

/-!
# Peers

`struct Libp2pPeer`: the decoder that reads one from a protobuf, and the comparison by which a
peer is looked up.  An address is kept as the bytes given to `multiaddress_new_from_bytes`.

* `peerProtobufDecode`   the decoder;
* `peerCompare_self`, `peerCompare_symm`   a peer equals itself, and being equal goes both ways
                         (it is not transitive: sizes are subtracted and cut down to an `int`).
-/

namespace Libp2p
open CSem

/-- the constants of `enum ConnectionType` -/
def connectionTypeNotConnected : UInt32 := 0
def connectionTypeConnected : UInt32 := 1

/-- `hasSession` says that `sessionContext` is not null -/
structure Peer where
  id : List UInt8 := []
  addrs : List (List UInt8) := []
  connectionType : UInt32 := connectionTypeNotConnected
  hasSession : Bool := false
  isLocal : Bool := false
  deriving DecidableEq, Repr

/-! ## decoding -/

def peerFields (fieldNo : Int) : FieldCase Peer :=
  match fieldNo with
  | 1 => .bytes fun d peer => .ok (some { peer with id := d })
  | 2 => .bytes fun d peer => .ok (some { peer with addrs := peer.addrs ++ [d] })
  | 3 => .varint fun v peer => .ok (some { peer with connectionType := UInt32.ofNat v })
  | _ => .skip

/-- `none` when the decoder returns 0 -/
def peerProtobufDecode (buf : List UInt8) : Exec (Option Peer) := decodeFields peerFields buf {}

/-! ## comparison -/

/-- the first difference of two arrays of one length, of `char` or of `unsigned char` as `num`
reads a byte -/
def bytesCompare (num : UInt8 → Int) : List UInt8 → List UInt8 → Int
  | a :: as, b :: bs => if a ≠ b then num b - num a else bytesCompare num as bs
  | _, _ => 0

/-- a byte as an `unsigned char` -/
def unsignedChar (b : UInt8) : Int := b.toNat

/-- a byte as a `char` -/
def signedChar (b : UInt8) : Int := b.toInt8.toInt

theorem signedChar_inj {a b : UInt8} (h : signedChar a = signedChar b) : a = b := by
  have h := congrArg Int8.toUInt8 (Int8.toInt.inj h)
  simpa using h

theorem bytesCompare_self (num : UInt8 → Int) (a : List UInt8) : bytesCompare num a a = 0 := by
  induction a with
  | nil => rfl
  | cons x a ih => simpa [bytesCompare] using ih

theorem bytesCompare_eq_zero {num : UInt8 → Int} (hnum : ∀ a b, num a = num b → a = b)
    {a b : List UInt8} (hl : a.length = b.length) : bytesCompare num a b = 0 ↔ a = b := by
  induction a generalizing b with
  | nil =>
    have : b = [] := List.eq_nil_of_length_eq_zero hl.symm
    simp [this, bytesCompare]
  | cons x a ih =>
    cases b with
    | nil => simp at hl
    | cons y b =>
      rw [bytesCompare]
      by_cases hxy : x = y
      · simp [hxy, ih (Nat.succ.inj hl)]
      · rw [if_pos hxy]
        have h0 : num y - num x ≠ 0 := fun e => hxy (hnum x y (by omega))
        simp [h0, hxy]

/-- sizes are subtracted as `size_t` and returned as an `int` -/
def peerCompare (a b : Option Peer) : Int :=
  match a, b with
  | none, none => 0
  | none, some _ => -1
  | some _, none => 1
  | some a, some b =>
    if a.id.length ≠ b.id.length then toInt32 (b.id.length - a.id.length)
    else bytesCompare signedChar a.id b.id

theorem peerCompare_self (a : Option Peer) : peerCompare a a = 0 := by
  cases a with
  | none => rfl
  | some a => simp [peerCompare, bytesCompare_self]

theorem toInt32_sub_comm (m n : Nat) : toInt32 (m - n) = 0 ↔ toInt32 (n - m) = 0 := by
  unfold toInt32 Int.bmod
  norm_num
  omega

theorem peerCompare_symm (a b : Option Peer) : peerCompare a b = 0 ↔ peerCompare b a = 0 := by
  cases a with
  | none =>
    cases b with
    | none => rfl
    | some b => simp [peerCompare]
  | some a =>
    cases b with
    | none => simp [peerCompare]
    | some b =>
      simp only [peerCompare]
      by_cases hl : a.id.length = b.id.length
      · have hinj : ∀ a b, signedChar a = signedChar b → a = b := fun _ _ => signedChar_inj
        rw [if_neg (not_not.2 hl), if_neg (not_not.2 hl.symm), bytesCompare_eq_zero hinj hl,
          bytesCompare_eq_zero hinj hl.symm]
        exact eq_comm
      · rw [if_pos hl, if_pos (fun e => hl e.symm)]
        exact toInt32_sub_comm _ _

end Libp2p
