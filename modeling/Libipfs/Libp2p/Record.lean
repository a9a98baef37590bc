import Libipfs.Libp2p.Peer

/-!
# Records and Kademlia messages

The decoders of `record.c` and `message.c`.  A record is part of a message, and so are peers.

* `recordProtobufDecode`    follows the key it may never have stored, to measure it;
* `messageProtobufDecode`   returns 0 on a field number outside 1…10.
-/

namespace Libp2p
open CSem

/-- `key` is a C string, or null -/
structure Record where
  key : Option (List UInt8) := none
  keySize : Nat := 0
  value : List UInt8 := []
  author : List UInt8 := []
  signature : List UInt8 := []
  timeReceived : List UInt8 := []
  deriving DecidableEq, Repr

def recordFields (fieldNo : Int) : FieldCase Record :=
  match fieldNo with
  | 1 => .string fun text record => do
    let key := match text with
      | none => record.key
      | some key => some key
    -- `strlen`
    let bytes ← deref key
    .ok (some { record with key := key, keySize := bytes.length })
  | 2 => .bytes fun d record => .ok (some { record with value := d })
  | 3 => .bytes fun d record => .ok (some { record with author := d })
  | 4 => .bytes fun d record => .ok (some { record with signature := d })
  | 5 => .bytes fun d record => .ok (some { record with timeReceived := d })
  | _ => .skip

/-- `none` when the decoder returns 0 -/
def recordProtobufDecode (buf : List UInt8) : Exec (Option Record) :=
  decodeFields recordFields buf {}

structure KademliaMessage where
  messageType : UInt32 := 0
  key : List UInt8 := []
  record : Option Record := none
  closerPeers : List Peer := []
  providerPeers : List Peer := []
  clusterLevelRaw : UInt32 := 0
  deriving DecidableEq, Repr

/-- the numbers 4 to 7 have no case -/
def messageFields (fieldNo : Int) : FieldCase KademliaMessage :=
  if fieldNo < 1 ∨ 10 < fieldNo then .reject
  else match fieldNo with
  | 1 => .varint fun v msg => .ok (some { msg with messageType := UInt32.ofNat v })
  | 2 => .bytes fun d msg => .ok (some { msg with key := d })
  | 3 => .bytes fun d msg => do
    match ← recordProtobufDecode d with
    | none => .ok none
    | some record => .ok (some { msg with record := some record })
  | 8 => .bytes fun d msg => do
    match ← peerProtobufDecode d with
    | none => .ok none
    | some peer => .ok (some { msg with closerPeers := msg.closerPeers ++ [peer] })
  | 9 => .bytes fun d msg => do
    match ← peerProtobufDecode d with
    | none => .ok none
    | some peer => .ok (some { msg with providerPeers := msg.providerPeers ++ [peer] })
  | 10 => .varint fun v msg => .ok (some { msg with clusterLevelRaw := UInt32.ofNat v })
  | _ => .skip

/-- `none` when the decoder returns 0 -/
def messageProtobufDecode (buf : List UInt8) : Exec (Option KademliaMessage) :=
  decodeFields messageFields buf {}

end Libp2p
