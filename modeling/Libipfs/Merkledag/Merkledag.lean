import Libipfs.Blocks.Blockstore
import Libipfs.Merkledag.RoundTrip

/-!
# Storing and reading nodes

A node is stored as a block under the SHA-256 of its encoding, or under the hash it already has.
It is read back from the file of its hash when the datastore knows the hash.

* `Holds`               the repository holds what it should under the hash of some bytes;
* `merkledagAdd_plain`  adding a node without a hash writes its block;
* `holds_write`, `Holds.write`   what is written is held, and so is what was, unless two names
                        collide;
* `genericGetValue_plain`   a node that is held is read back.
-/

namespace Ipfs
open CSem Libp2p

structure Repo where
  files : Files
  datastore : Datastore

def Repo.empty : Repo := ⟨fun _ => none, fun _ => none⟩

section
variable (sha256 : List UInt8 → List UInt8) (opens : List UInt8 → Bool)

/-! ## writing -/

def merkledagConvertNodeToBlock (node : HashtableNode) : Exec Block := do
  let cid := cidNew 1 (node.hash.getD []) 0x70
  let data ← hashtableNodeProtobufEncode node (hashtableNodeProtobufEncodeSize node)
  .ok { cid := some cid, data := data }

/-- the number of bytes written, `none` when the function returns 0 -/
def fsrepoBlockWrite (block : Block) (repo : Repo) : Exec (Option Nat × Repo) := do
  match ← blockstorePut opens block repo.files with
  | (none, files) => .ok (none, { repo with files := files })
  | (some bytesWritten, files) => do
    match ← addBlockToDatastore block repo.datastore with
    | (false, datastore) => .ok (none, ⟨files, datastore⟩)
    | (true, datastore) => .ok (some bytesWritten, ⟨files, datastore⟩)

/-- the hash of a node that has none -/
def merkledagHash (node : HashtableNode) : Exec HashtableNode :=
  if node.hash = none then do
    let protobuf ← hashtableNodeProtobufEncode node (hashtableNodeProtobufEncodeSize node)
    .ok { node with hash := some (sha256 protobuf) }
  else .ok node

/-- the number of bytes written, `none` when the function returns 0, and the node, which keeps the
hash that was computed -/
def merkledagAdd (node : HashtableNode) (repo : Repo) :
    Exec (Option Nat × HashtableNode × Repo) := do
  let node ← merkledagHash sha256 node
  let block ← merkledagConvertNodeToBlock node
  let (bytesWritten, repo) ← fsrepoBlockWrite opens block repo
  .ok (bytesWritten, node, repo)

/-! ## reading -/

def blockstoreGetNode (hash : List UInt8) (files : Files) : Exec (Option HashtableNode) := do
  let block ← blockstoreReadBlock hash files
  hashtableNodeProtobufDecode block.data

/-- `none` when the function returns 0 -/
def merkledagGet (hash : List UInt8) (repo : Repo) : Exec (Option HashtableNode) :=
  match repo.datastore hash with
  | none => .ok none
  | some _ => do
    match ← blockstoreGetNode hash repo.files with
    | none => .ok none
    | some node => .ok (some (node.setHash hash))

/-- the router's `GetValue` without an API; the size is an `int`, and what is negative is refused
by `malloc` -/
def genericGetValue (repo : Repo) (key : List UInt8) : Exec (Option (List UInt8)) := do
  match ← merkledagGet key repo with
  | none => .ok none
  | some node => do
    let protobufSize := toInt32 (hashtableNodeProtobufEncodeSize node)
    if protobufSize < 0 then .ok none
    else do
      let val ← hashtableNodeProtobufEncode node protobufSize.toNat
      .ok (some val)

/-! ## what the repository holds -/

/-- the block of some bytes, under their hash -/
def blockOf (x : List UInt8) : Block := { cid := some (cidNew 1 (sha256 x) 0x70), data := x }

/-- the bytes are stored under their hash, and the datastore knows the hash -/
structure Holds (repo : Repo) (x : List UInt8) : Prop where
  file : ∃ key, hashToBase32 (sha256 x) = .ok (some key) ∧
    repo.files key = some (blockBytes (blockOf sha256 x))
  record : (repo.datastore (sha256 x)).isSome

variable {sha256 : List UInt8 → List UInt8}

theorem blockOf_encodeSize {x : List UInt8} (h : (sha256 x).length = 32) :
    blocksBlockProtobufEncodeSize (blockOf sha256 x) = x.length + 88 := by
  simp only [blocksBlockProtobufEncodeSize, blockOf, cidProtobufEncodeSize, cidNew, h]
  omega

theorem encodeSize_32 : cryptoEncodingBase32EncodeSize 32 = 41 := by decide

/-- the repository with a block written to it -/
def Repo.write (sha256 : List UInt8 → List UInt8) (repo : Repo) (x key : List UInt8) : Repo where
  files := Function.update repo.files key (some (blockBytes (blockOf sha256 x)))
  datastore := Function.update repo.datastore (sha256 x)
    (some ((base32Chars (sha256 x)).take fsKeyLength))

variable {opens : List UInt8 → Bool} {repo : Repo} {x y : List UInt8}

/-- writing a block of bytes under their hash -/
theorem fsrepoBlockWrite_blockOf (hopen : ∀ name, opens name = true)
    (hsha : (sha256 x).length = 32) (hlen : x.length + 88 < 2 ^ 31) :
    ∃ key, hashToBase32 (sha256 x) = .ok (some key) ∧
      fsrepoBlockWrite opens (blockOf sha256 x) repo =
        .ok (some (blockBytes (blockOf sha256 x)).length, repo.write sha256 x key) := by
  have hsize := blockOf_encodeSize hsha
  have hkey := hashToBase32_of_length hsha
  rw [← hsize] at hlen
  have henc := blocksBlockProtobufEncode_of_lt hlen
  have hput : blockstorePut opens (blockOf sha256 x) repo.files = _ := blockstorePut_eq_some.2
    ⟨_, (cidToBase32_some _).trans hkey, henc, hopen _, rfl, rfl⟩
  have hadd : addBlockToDatastore (blockOf sha256 x) repo.datastore = _ :=
    addBlockToDatastore_eq rfl (by
      show cryptoEncodingBase32EncodeSize (sha256 x).length ≤ fsKeyLength
      rw [hsha, encodeSize_32]
      decide)
  refine ⟨_, hkey, ?_⟩
  unfold fsrepoBlockWrite
  rw [hput, ok_bind]
  simp only
  rw [hadd]
  rfl

theorem holds_write {key : List UInt8} (hkey : hashToBase32 (sha256 x) = .ok (some key)) :
    Holds sha256 (repo.write sha256 x key) x where
  file := ⟨key, hkey, Function.update_self _ _ _⟩
  record := by
    show (Function.update repo.datastore (sha256 x) _ (sha256 x)).isSome
    rw [Function.update_self]
    rfl

/-- **what is held stays**, unless other bytes are written under the same name -/
theorem Holds.write {key : List UInt8} (h : Holds sha256 repo y)
    (hkey : hashToBase32 (sha256 x) = .ok (some key))
    (hname : hashToBase32 (sha256 x) = hashToBase32 (sha256 y) → x = y) :
    Holds sha256 (repo.write sha256 x key) y where
  file := by
    obtain ⟨key', hkey', hfile⟩ := h.file
    refine ⟨key', hkey', ?_⟩
    show Function.update repo.files key _ key' = _
    by_cases he : key' = key
    · subst he
      obtain rfl := hname (hkey.trans hkey'.symm)
      rw [Function.update_self]
    · rw [Function.update_of_ne he, hfile]
  record := by
    show (Function.update repo.datastore (sha256 x) _ (sha256 y)).isSome
    by_cases he : sha256 y = sha256 x
    · rw [he, Function.update_self]
      rfl
    · rw [Function.update_of_ne he]
      exact h.record

/-! ## plain nodes -/

/-- a link as the importer makes it: to a SHA-256 hash, without a name -/
def NodeLink.Plain (link : NodeLink) : Prop := link.name = none ∧ link.hash.length = 32

/-- a node with data and plain links, of a size that is an `int` with room for its block -/
structure HashtableNode.Plain (node : HashtableNode) : Prop where
  fresh : node.hash = none
  links : ∀ link ∈ node.links, link.Plain
  data : node.data ≠ []
  size : hashtableNodeProtobufEncodeSize node < 2 ^ 31
  block : (nodeBytes node).length + 88 < 2 ^ 31

theorem NodeLink.Plain.storable {link : NodeLink} (h : link.Plain) : link.Storable := by
  obtain ⟨hname, hhash⟩ := h
  refine ⟨by omega, by omega, fun name hn => ?_⟩
  rw [hname] at hn
  cases hn

/-- its encoding is smaller than the size computed for it -/
theorem NodeLink.Plain.linkBytes_length_add_le {link : NodeLink} (h : link.Plain) :
    (linkBytes link).length + 3 ≤ nodeLinkProtobufEncodeSize link := by
  obtain ⟨hname, hhash⟩ := h
  have hn : link.encodedName = [] := by
    rw [NodeLink.encodedName, hname]
    rfl
  have hfirst : (bytesField 1 .lengthDelimited (mhBytes link.hash)).length = 36 := by
    have hmh : (mhBytes link.hash).length = 34 := by
      show link.hash.length + 1 + 1 = 34
      omega
    have hv : (varintBytes 34).length = 1 := rfl
    rw [bytesField_length 1 _ _ (by norm_num), hmh, hv]
  have hsecond : (bytesField 2 .lengthDelimited []).length = 2 := rfl
  have hthird := varintField_length_le_eleven 3 .varint link.tSize.toNat (by norm_num)
  have hpos : 0 < link.hash.length := by omega
  unfold linkBytes linkItems nodeLinkProtobufEncodeSize
  rw [hn]
  simp only [if_pos hpos, itemsBytes_append, List.length_append, itemsBytes_cons, itemsBytes_nil,
    Item.enc_bytes, hfirst, hsecond, List.length_nil, Nat.lt_irrefl, if_false]
  by_cases hsize : 0 < link.tSize.toNat
  · simp only [if_pos hsize, itemsBytes_cons, itemsBytes_nil, Item.enc_varint, List.length_append,
      List.length_nil]
    omega
  · simp only [if_neg hsize, itemsBytes_nil, List.length_nil]
    omega

theorem NodeLink.Plain.le_encodeSize {link : NodeLink} (h : link.Plain) :
    43 ≤ nodeLinkProtobufEncodeSize link := by
  have hhash : link.hash.length = 32 := h.2
  unfold nodeLinkProtobufEncodeSize
  rw [if_pos (by omega)]
  omega

theorem NodeLink.Plain.encodeSize_le {link : NodeLink} (h : link.Plain) :
    nodeLinkProtobufEncodeSize link ≤ 65 := by
  obtain ⟨hname, hhash⟩ := h
  have hn : link.encodedName.length = 0 := by
    rw [NodeLink.encodedName, hname]
    rfl
  unfold nodeLinkProtobufEncodeSize
  split_ifs <;> omega

theorem NodeLink.Plain.decoded {link : NodeLink} (h : link.Plain) : link.decoded = link := by
  obtain ⟨hash, name, tSize⟩ := link
  obtain ⟨hname, -⟩ := h
  subst hname
  rfl

theorem HashtableNode.Plain.decoded {node : HashtableNode} (h : node.Plain) :
    node.decoded = node := by
  have hmap : node.links.map NodeLink.decoded = node.links := by
    have : node.links.map NodeLink.decoded = node.links.map id :=
      List.map_congr_left fun link hl => (h.links link hl).decoded
    rw [this, List.map_id]
  obtain ⟨data, links, hash⟩ := node
  have hfresh : hash = none := h.fresh
  subst hfresh
  exact congrArg (fun links => ({ data := data, links := links } : HashtableNode)) hmap

theorem HashtableNode.Plain.nodeBytes_ne {node : HashtableNode} (h : node.Plain) :
    (nodeBytes node).length ≠ 0 := by
  have hpos := List.length_pos_iff.2 h.data
  have hle := length_le_bytesField 1 .lengthDelimited node.data
  rw [nodeBytes_eq, if_pos hpos, List.flatten_append, List.length_append]
  simp only [List.flatten_cons, List.flatten_nil, List.append_nil]
  omega

theorem HashtableNode.Plain.encode {node : HashtableNode} (h : node.Plain) :
    hashtableNodeProtobufEncode node (hashtableNodeProtobufEncodeSize node) =
      .ok (nodeBytes node) := by
  have hstorable : ∀ link ∈ node.links, link.Storable := fun link hl => (h.links link hl).storable
  have hsize := h.size
  exact (convertible_of_lt hstorable hsize).encode hstorable (le_ptrdiffMax_of_lt hsize)

theorem HashtableNode.Plain.decode {node : HashtableNode} (h : node.Plain) :
    hashtableNodeProtobufDecode (nodeBytes node) = .ok (some node) := by
  have hblock := h.block
  have hd := hashtableNodeProtobufDecode_nodeBytes h.nodeBytes_ne (by omega)
  rw [hd, h.decoded]

/-- **adding a node** writes its block -/
theorem merkledagAdd_plain {node : HashtableNode} (hopen : ∀ name, opens name = true)
    (hsha : ∀ x, (sha256 x).length = 32) (h : node.Plain) :
    ∃ key, hashToBase32 (sha256 (nodeBytes node)) = .ok (some key) ∧
      merkledagAdd sha256 opens node repo =
        .ok (some (blockBytes (blockOf sha256 (nodeBytes node))).length,
          { node with hash := some (sha256 (nodeBytes node)) },
          repo.write sha256 (nodeBytes node) key) := by
  obtain ⟨key, hkey, hwrite⟩ :=
    fsrepoBlockWrite_blockOf hopen (hsha (nodeBytes node)) h.block
  refine ⟨key, hkey, ?_⟩
  have hhash : merkledagHash sha256 node =
      .ok { node with hash := some (sha256 (nodeBytes node)) } := by
    unfold merkledagHash
    rw [if_pos h.fresh, h.encode]
    rfl
  have hconvert : merkledagConvertNodeToBlock
      { node with hash := some (sha256 (nodeBytes node)) } =
        .ok (blockOf sha256 (nodeBytes node)) := by
    show (hashtableNodeProtobufEncode node (hashtableNodeProtobufEncodeSize node) >>= _) = _
    rw [h.encode]
    rfl
  unfold merkledagAdd
  rw [hhash, ok_bind, hconvert, ok_bind, hwrite]
  rfl

/-- **reading a node** that is held -/
theorem merkledagGet_plain {node : HashtableNode} (hsha : ∀ x, (sha256 x).length = 32)
    (h : node.Plain) (hh : Holds sha256 repo (nodeBytes node)) :
    merkledagGet (sha256 (nodeBytes node)) repo =
      .ok (some { node with hash := some (sha256 (nodeBytes node)) }) := by
  obtain ⟨record, hrecord⟩ := Option.isSome_iff_exists.1 hh.record
  obtain ⟨key, hkey, hfile⟩ := hh.file
  have hsize := blockBytes_length_le (blockOf sha256 (nodeBytes node))
  have hblock := h.block
  rw [blockOf_encodeSize (hsha _)] at hsize
  have hget : blockstoreGetNode (sha256 (nodeBytes node)) repo.files = .ok (some node) := by
    unfold blockstoreGetNode
    rw [blockstoreReadBlock_of_lt hkey hfile (by omega)
      (blocksBlockProtobufDecode_blockBytes _ (by omega)), ok_bind]
    exact h.decode
  have hne : sha256 (nodeBytes node) ≠ [] := fun e => by
    have := hsha (nodeBytes node)
    rw [e] at this
    cases this
  unfold merkledagGet
  rw [hrecord]
  simp only
  rw [hget, ok_bind]
  simp only [HashtableNode.setHash, if_neg hne]

/-- **the value of a node** that is held is its encoding -/
theorem genericGetValue_plain {node : HashtableNode} (hsha : ∀ x, (sha256 x).length = 32)
    (h : node.Plain) (hh : Holds sha256 repo (nodeBytes node)) :
    genericGetValue repo (sha256 (nodeBytes node)) = .ok (some (nodeBytes node)) := by
  have hint : toInt32 (hashtableNodeProtobufEncodeSize node : Int) =
      hashtableNodeProtobufEncodeSize node := toInt32_natCast_of_lt h.size
  unfold genericGetValue
  rw [merkledagGet_plain hsha h hh, ok_bind]
  show (if toInt32 (hashtableNodeProtobufEncodeSize node : Int) < 0 then _ else
    (hashtableNodeProtobufEncode node
      (toInt32 (hashtableNodeProtobufEncodeSize node : Int)).toNat >>= _)) = _
  rw [hint, if_neg (by omega), Int.toNat_natCast, h.encode]
  rfl

end

end Ipfs
