import Libipfs.Lib.CString
import Libipfs.Lib.Numeral
import Libipfs.Routing.Kademlia

/-!
# Requests of the distributed hash table

A message is put together piece by piece in a buffer on the stack, and given up when a piece does
not fit.

* `build`             the pieces in a buffer of the given size;
* `build_of_lt`       all of them fit when they are shorter than the buffer;
* `pingPieces`, …     what the functions of `dht.c` that send a request put into it.
-/

namespace Libp2p.Dht
open CSem

/-! ## pieces -/

/-- what `snprintf` prints, or bytes that are copied -/
inductive Piece where
  | text (t : List UInt8)
  | bytes (b : List UInt8)
  deriving DecidableEq, Repr

def Piece.content : Piece → List UInt8
  | .text t => t
  | .bytes b => b

/-- a text that fills the buffer to the end has lost its last byte to the terminator -/
def Piece.addTo (size : Nat) (buf : List UInt8) (p : Piece) : Option (List UInt8) :=
  if size < buf.length + p.content.length then none
  else match p with
    | .bytes b => some (buf ++ b)
    | .text t =>
      if t.length < size - buf.length then some (buf ++ t)
      else some (buf ++ t.take (size - buf.length - 1) ++ [0])

def build (size : Nat) (pieces : List Piece) : Option (List UInt8) :=
  pieces.foldlM (Piece.addTo size) []

/-- the bytes of the pieces one after the other -/
def flatten (pieces : List Piece) : List UInt8 := pieces.flatMap Piece.content

def ascii (text : String) : Piece := .text (asciiBytes text)

/-- the text with the number in `%d` behind it, and a colon -/
def counted (text : String) (n : Nat) : Piece :=
  .text (asciiBytes text ++ numeral 10 n ++ asciiBytes ":")

/-! ## the requests -/

def zeroes : InfoHash := Vector.replicate 20 0

/-- the number lies in memory low byte first -/
def makeTid (pre : String) (seqno : UInt16) : List UInt8 :=
  asciiBytes pre ++ [UInt8.ofNat (seqno.toNat % 256), UInt8.ofNat (seqno.toNat / 256)]

def tokenSize : Nat := 8

def want4 : Nat := 1
def want6 : Nat := 2

def piecesV (v : Option (List UInt8)) : List Piece := (v.map Piece.bytes).toList

/-- `want` is -1 or made of the flags -/
def piecesWant (want : Int) : List Piece :=
  if 0 < want then
    [.text (asciiBytes "4:wantl" ++ (if want.toNat &&& want4 ≠ 0 then asciiBytes "2:n4" else []) ++
      (if want.toNat &&& want6 ≠ 0 then asciiBytes "2:n6" else []) ++ asciiBytes "e")]
  else []

section
variable (myid : InfoHash) (v : Option (List UInt8)) (tid : List UInt8)

def pingPieces : List Piece :=
  [ascii "d1:ad2:id20:", .bytes myid.toList, counted "e1:q4:ping1:t" tid.length, .bytes tid] ++
    piecesV v ++ [ascii "1:y1:qe"]

def findNodePieces (target : InfoHash) (want : Int) : List Piece :=
  [ascii "d1:ad2:id20:", .bytes myid.toList, ascii "6:target20:", .bytes target.toList] ++
    piecesWant want ++ [counted "e1:q9:find_node1:t" tid.length, .bytes tid] ++
      piecesV v ++ [ascii "1:y1:qe"]

def getPeersPieces (infohash : InfoHash) (want : Int) : List Piece :=
  [ascii "d1:ad2:id20:", .bytes myid.toList, ascii "9:info_hash20:", .bytes infohash.toList] ++
    piecesWant want ++ [counted "e1:q9:get_peers1:t" tid.length, .bytes tid] ++
      piecesV v ++ [ascii "1:y1:qe"]

def announcePeerPieces (infohash : InfoHash) (port : Nat) (token : List UInt8) : List Piece :=
  [ascii "d1:ad2:id20:", .bytes myid.toList, ascii "9:info_hash20:", .bytes infohash.toList,
    .text (asciiBytes "4:porti" ++ numeral 10 port ++ asciiBytes "e5:token" ++
      numeral 10 token.length ++ asciiBytes ":"), .bytes token,
    counted "e1:q13:announce_peer1:t" tid.length, .bytes tid] ++ piecesV v ++ [ascii "1:y1:qe"]

end

/-! ## what fits -/

section
variable {size : Nat} {pieces : List Piece} {buf : List UInt8}

theorem Piece.addTo_of_lt {p : Piece} (h : buf.length + p.content.length < size) :
    p.addTo size buf = some (buf ++ p.content) := by
  unfold Piece.addTo
  rw [if_neg (by omega)]
  cases p with
  | bytes b => rfl
  | text t =>
    have hlen : buf.length + t.length < size := h
    simp only
    rw [if_pos (by omega)]
    rfl

theorem flatten_cons (p : Piece) (pieces : List Piece) :
    flatten (p :: pieces) = p.content ++ flatten pieces := rfl

theorem flatten_append (ps qs : List Piece) : flatten (ps ++ qs) = flatten ps ++ flatten qs :=
  List.flatMap_append

theorem foldlM_addTo (h : buf.length + (flatten pieces).length < size) :
    pieces.foldlM (Piece.addTo size) buf = some (buf ++ flatten pieces) := by
  induction pieces generalizing buf with
  | nil => rw [List.foldlM_nil, flatten, List.flatMap_nil, List.append_nil]; rfl
  | cons p pieces ih =>
    rw [flatten_cons, List.length_append] at h
    rw [List.foldlM_cons, Piece.addTo_of_lt (by omega)]
    show pieces.foldlM (Piece.addTo size) (buf ++ p.content) = _
    rw [ih (by rw [List.length_append]; omega), flatten_cons, List.append_assoc]

/-- **what is shorter than the buffer** is put into it as it is -/
theorem build_of_lt (h : (flatten pieces).length < size) : build size pieces = some (flatten pieces) := by
  unfold build
  rw [foldlM_addTo (by rw [List.length_nil]; omega), List.nil_append]

end

end Libp2p.Dht
