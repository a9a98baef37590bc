import Libipfs.Importer.Exporter
import Libipfs.Lib.Chunks
import Libipfs.Merkledag.Merkledag
import Mathlib.Algebra.Group.Action.Defs
import Mathlib.Algebra.Order.BigOperators.Group.List
import Mathlib.Data.List.Nodup

/-!
# Importing a file

A file is read in chunks until one comes back short.  A short file is the data of the root.
Otherwise every chunk gets a node of its own, the root links to them, and the data of the root,
which is decoded and encoded again for every link, has their sizes.

* `importChunk`, `importLoop`   the chunk loop;
* `rootOf`               the root of a file in chunks, as one expression;
* `importLoop_eq`        the loop makes that root, and stores it and the nodes it links to;
* `importLoop_readsBack`   what is imported is exported again.
-/

set_option linter.unusedVariables false

namespace Ipfs
open CSem Libp2p

def maxDataSize : Nat := 262144

theorem maxDataSize_pos : 0 < maxDataSize := by decide

/-! ## the chunk loop -/

/-- what is left of the file, the root and the repository -/
structure Import where
  rest : List UInt8
  parent : HashtableNode := {}
  repo : Repo

section
variable (sha256 : List UInt8 → List UInt8) (opens : List UInt8 → Bool)

/-- one more blocksize, which the file size grows by -/
def UnixFS.addPart (bytesRead : UInt64) (obj : UnixFS) : UnixFS :=
  { obj.addBlocksize bytesRead with fileSize := obj.fileSize + bytesRead }

/-- a new one if the node has no data yet -/
def importerDataSection (node : HashtableNode) : Exec UnixFS :=
  if node.data = [] then .ok { dataType := unixfsFile } else decodedUnixFs node.data

def importerAddFilesizeToDataSection (node : HashtableNode) (bytesRead : UInt64) :
    Exec HashtableNode := do
  let dataSection ← importerDataSection node
  let dataSection := dataSection.addPart bytesRead
  let protobuf ← unixfsProtobufEncode dataSection (unixfsProtobufEncodeSize dataSection)
  .ok (node.setData protobuf)

/-- what was read, as a file -/
def chunkUnixFS (buffer : List UInt8) : UnixFS :=
  ({ dataType := unixfsFile, fileSize := UInt64.ofNat buffer.length } : UnixFS).addData buffer

/-- a new node with the data, stored and linked to from the parent; `false` when the function
returns 0 -/
def importAddNode (protobuf : List UInt8) (bytesRead : Nat) (s : Import) :
    Exec (Bool × Import) := do
  match ← merkledagAdd sha256 opens { data := protobuf } s.repo with
  | (none, _, repo) => .ok (false, { s with repo := repo })
  | (some sizeOfNode, newNode, repo) => do
    let newLink : NodeLink := { hash := newNode.hash.getD [], tSize := UInt64.ofNat sizeOfNode }
    let parent ← importerAddFilesizeToDataSection (s.parent.addLink newLink)
      (UInt64.ofNat bytesRead)
    .ok (true, { s with parent := parent, repo := repo })

/-- the last chunk: the data of the parent as long as it has no links -/
def importLastChunk (protobuf : List UInt8) (bytesRead : Nat) (s : Import) :
    Exec (Bool × Import) :=
  if s.parent.links = [] then .ok (true, { s with parent := s.parent.setData protobuf })
  else importAddNode sha256 opens protobuf bytesRead s

/-- the number of bytes read, 0 also for a failure -/
def importChunk (s : Import) : Exec (Nat × Import) := do
  let buffer := s.rest.take maxDataSize
  let bytesRead := buffer.length
  let s := { s with rest := s.rest.drop maxDataSize }
  let newUnixfs := chunkUnixFS buffer
  let protobuf ← unixfsProtobufEncode newUnixfs (unixfsProtobufEncodeSize newUnixfs)
  if bytesRead = maxDataSize then do
    match ← importAddNode sha256 opens protobuf bytesRead s with
    | (false, s) => .ok (0, s)
    | (true, s) => .ok (bytesRead, s)
  else do
    match ← importLastChunk sha256 opens protobuf bytesRead s with
    | (false, s) => .ok (0, s)
    | (true, s) => do
      let (_, parent, repo) ← merkledagAdd sha256 opens s.parent s.repo
      .ok (bytesRead, { s with parent := parent, repo := repo })

/-- the loop of `importFile`, with fuel for its iterations -/
def importLoop : Nat → Import → Exec Import
  | 0, _ => .error .diverges
  | fuel + 1, s => do
    let (bytesRead, s) ← importChunk sha256 opens s
    if bytesRead = maxDataSize then importLoop fuel s else .ok s

/-! ## the root of a file -/

def chunkNode (c : List UInt8) : HashtableNode := { data := unixfsBytes (chunkUnixFS c) }

def chunkLink (c : List UInt8) : NodeLink where
  hash := sha256 (nodeBytes (chunkNode c))
  tSize := UInt64.ofNat (blockBytes (blockOf sha256 (nodeBytes (chunkNode c)))).length

def parentUnixFS (cs : List (List UInt8)) : UnixFS where
  dataType := unixfsFile
  fileSize := UInt64.ofNat cs.flatten.length
  blockSizes := cs.map fun c => UInt64.ofNat c.length

/-- the parent once there are nodes for some chunks -/
def parentOf (cs : List (List UInt8)) : HashtableNode :=
  if cs = [] then {}
  else { data := unixfsBytes (parentUnixFS cs), links := cs.map (chunkLink sha256) }

/-- the root of a file in chunks -/
def rootOf : List (List UInt8) → HashtableNode
  | [c] => chunkNode c
  | cs => parentOf sha256 cs

/-- the nodes that are stored for it -/
def nodesOf (cs : List (List UInt8)) : List HashtableNode :=
  cs.map chunkNode ++ [rootOf sha256 cs]

/-- other bytes get another file, as far as these nodes go -/
def NamesDistinct (nodes : List HashtableNode) : Prop :=
  ∀ x ∈ nodes, ∀ y ∈ nodes,
    hashToBase32 (sha256 (nodeBytes x)) = hashToBase32 (sha256 (nodeBytes y)) →
      nodeBytes x = nodeBytes y

end

/-! ### the data sections -/

theorem unixfsFile_lt : unixfsFile.toNat < 128 := by decide

/-- the encoder writes a file into the room it computes for it -/
theorem unixfsProtobufEncode_file {obj : UnixFS} (hfile : obj.dataType = unixfsFile)
    (h : unixfsProtobufEncodeSize obj < 2 ^ 31) :
    unixfsProtobufEncode obj (unixfsProtobufEncodeSize obj) = .ok (unixfsBytes obj) :=
  (writes_unixfsProtobufEncode obj).fits _
    (unixfsBytes_length_le (by rw [hfile]; exact unixfsFile_lt)) h

theorem unixfsProtobufDecode_file {obj : UnixFS} (hfile : obj.dataType = unixfsFile)
    (h : unixfsProtobufEncodeSize obj < 2 ^ 31) :
    unixfsProtobufDecode (unixfsBytes obj) = .ok (some obj) := by
  have hle : (unixfsBytes obj).length ≤ unixfsProtobufEncodeSize obj :=
    unixfsBytes_length_le (by rw [hfile]; exact unixfsFile_lt)
  exact unixfsProtobufDecode_unixfsBytes (by omega)

theorem chunkUnixFS_encodeSize (c : List UInt8) :
    unixfsProtobufEncodeSize (chunkUnixFS c) = c.length + 24 := by
  show (c.length + 11) + 2 + 11 + 11 * 0 = _
  omega

theorem parentUnixFS_encodeSize (cs : List (List UInt8)) :
    unixfsProtobufEncodeSize (parentUnixFS cs) = 24 + 11 * cs.length := by
  show (0 + 11) + 2 + 11 + 11 * (cs.map fun c => UInt64.ofNat c.length).length = _
  rw [List.length_map]

theorem unixfsBytes_ne (obj : UnixFS) : unixfsBytes obj ≠ [] := fun h =>
  unixfsBytes_ne_nil obj (by rw [h]; rfl)

section
variable {sha256 : List UInt8 → List UInt8} {opens : List UInt8 → Bool}

theorem parentUnixFS_snoc (cs : List (List UInt8)) (c : List UInt8) :
    parentUnixFS (cs ++ [c]) = (parentUnixFS cs).addPart (UInt64.ofNat c.length) := by
  simp [parentUnixFS, UnixFS.addPart, UnixFS.addBlocksize, UInt64.ofNat_add]

theorem parentOf_snoc (cs : List (List UInt8)) (c : List UInt8) :
    parentOf sha256 (cs ++ [c]) =
      { data := unixfsBytes (parentUnixFS (cs ++ [c]))
        links := (parentOf sha256 cs).links ++ [chunkLink sha256 c] } := by
  unfold parentOf
  rw [if_neg (by simp)]
  by_cases h : cs = []
  · subst h
    rfl
  · rw [if_neg h, List.map_append]
    rfl

theorem parentOf_hash (cs : List (List UInt8)) : (parentOf sha256 cs).hash = none := by
  unfold parentOf
  split_ifs <;> rfl

theorem parentOf_links (cs : List (List UInt8)) :
    (parentOf sha256 cs).links = cs.map (chunkLink sha256) := by
  unfold parentOf
  split_ifs with h
  · rw [h]
    rfl
  · rfl

/-- **one more chunk**: the sizes of the root are decoded, added to and encoded again -/
theorem importerAddFilesize_parentOf (cs : List (List UInt8)) (c : List UInt8)
    (h : 24 + 11 * (cs.length + 1) < 2 ^ 31) :
    importerAddFilesizeToDataSection ((parentOf sha256 cs).addLink (chunkLink sha256 c))
        (UInt64.ofNat c.length) = .ok (parentOf sha256 (cs ++ [c])) := by
  have hdata : importerDataSection ((parentOf sha256 cs).addLink (chunkLink sha256 c)) =
      .ok (parentUnixFS cs) := by
    unfold parentOf
    by_cases hnil : cs = []
    · subst hnil
      rfl
    · have hsize := parentUnixFS_encodeSize cs
      have hdecode := unixfsProtobufDecode_file
        (show (parentUnixFS cs).dataType = unixfsFile from rfl) (by omega)
      rw [if_neg hnil]
      show (if unixfsBytes (parentUnixFS cs) = [] then _ else
        decodedUnixFs (unixfsBytes (parentUnixFS cs))) = _
      rw [if_neg (unixfsBytes_ne _), decodedUnixFs_of_some hdecode]
  have hsize := parentUnixFS_encodeSize (cs ++ [c])
  rw [List.length_append, List.length_singleton] at hsize
  have hencode := unixfsProtobufEncode_file
    (show (parentUnixFS (cs ++ [c])).dataType = unixfsFile from rfl) (by omega)
  rw [parentUnixFS_snoc] at hencode
  unfold importerAddFilesizeToDataSection
  rw [hdata, ok_bind, parentOf_snoc, parentUnixFS_snoc]
  simp only
  rw [hencode, ok_bind]
  show Except.ok ({ data := _, links := _, hash := (parentOf sha256 cs).hash } :
    HashtableNode) = _
  rw [parentOf_hash]
  rfl

/-! ### the nodes -/

theorem chunkNode_plain {c : List UInt8} (hc : c.length ≤ maxDataSize) : (chunkNode c).Plain := by
  have hsize := chunkUnixFS_encodeSize c
  have hle : (unixfsBytes (chunkUnixFS c)).length ≤ unixfsProtobufEncodeSize (chunkUnixFS c) :=
    unixfsBytes_length_le unixfsFile_lt
  have hnode : hashtableNodeProtobufEncodeSize (chunkNode c) ≤ c.length + 35 := by
    unfold hashtableNodeProtobufEncodeSize
    show 0 + (if 0 < (unixfsBytes (chunkUnixFS c)).length then _ else 0) ≤ _
    split_ifs
    · show 0 + (11 + (unixfsBytes (chunkUnixFS c)).length) ≤ _
      omega
    · omega
  have hbytes : (nodeBytes (chunkNode c)).length ≤ _ :=
    nodeBytes_length_le fun link hl => absurd hl List.not_mem_nil
  have hmax : maxDataSize = 262144 := rfl
  exact ⟨rfl, fun link hl => absurd hl List.not_mem_nil, unixfsBytes_ne _, by omega, by omega⟩

theorem chunkLink_plain (hsha : ∀ x, (sha256 x).length = 32) (c : List UInt8) :
    (chunkLink sha256 c).Plain := ⟨rfl, hsha _⟩

theorem parentOf_links_plain (hsha : ∀ x, (sha256 x).length = 32) (cs : List (List UInt8)) :
    ∀ link ∈ (parentOf sha256 cs).links, link.Plain := by
  intro link hl
  rw [parentOf_links] at hl
  obtain ⟨c, -, rfl⟩ := List.mem_map.1 hl
  exact chunkLink_plain hsha c

/-- the links alone take up this much -/
theorem le_parentOf_encodeSize (hsha : ∀ x, (sha256 x).length = 32) (cs : List (List UInt8)) :
    54 * cs.length ≤ hashtableNodeProtobufEncodeSize (parentOf sha256 cs) := by
  have hsum := List.card_nsmul_le_sum
    ((parentOf sha256 cs).links.map fun link => 11 + nodeLinkProtobufEncodeSize link) 54
    (fun n hn => by
      obtain ⟨link, hl, rfl⟩ := List.mem_map.1 hn
      have := (parentOf_links_plain hsha cs link hl).le_encodeSize
      omega)
  rw [List.length_map, parentOf_links, List.length_map, smul_eq_mul] at hsum
  rw [hashtableNodeProtobufEncodeSize, parentOf_links]
  omega

theorem parentOf_encodeSize_le (hsha : ∀ x, (sha256 x).length = 32) {cs : List (List UInt8)}
    (h : cs ≠ []) :
    hashtableNodeProtobufEncodeSize (parentOf sha256 cs) ≤ 87 * cs.length + 35 := by
  have hsum := List.sum_le_card_nsmul
    ((parentOf sha256 cs).links.map fun link => 11 + nodeLinkProtobufEncodeSize link) 76
    (fun n hn => by
      obtain ⟨link, hl, rfl⟩ := List.mem_map.1 hn
      have := (parentOf_links_plain hsha cs link hl).encodeSize_le
      omega)
  have hdata : (parentOf sha256 cs).data.length ≤ 24 + 11 * cs.length := by
    rw [← parentUnixFS_encodeSize cs]
    unfold parentOf
    rw [if_neg h]
    exact unixfsBytes_length_le unixfsFile_lt
  rw [List.length_map, parentOf_links, List.length_map, smul_eq_mul] at hsum
  rw [hashtableNodeProtobufEncodeSize, parentOf_links]
  split_ifs <;> omega

theorem parentOf_plain (hsha : ∀ x, (sha256 x).length = 32) {cs : List (List UInt8)} (h : cs ≠ [])
    (hsize : hashtableNodeProtobufEncodeSize (parentOf sha256 cs) < 2 ^ 31) :
    (parentOf sha256 cs).Plain := by
  have hlinks := parentOf_links_plain hsha cs
  have hle := parentOf_encodeSize_le hsha h
  have hbytes := nodeBytes_length_add_le fun link hl => (hlinks link hl).linkBytes_length_add_le
  rw [parentOf_links, List.length_map] at hbytes
  refine ⟨parentOf_hash cs, hlinks, ?_, hsize, by omega⟩
  unfold parentOf
  rw [if_neg h]
  exact unixfsBytes_ne _

/-! ### one chunk -/

variable {repo : Repo} {done : List (List UInt8)} {rest c : List UInt8}

/-- **a node for a chunk** is stored and linked to -/
theorem importAddNode_eq (hopen : ∀ name, opens name = true)
    (hsha : ∀ x, (sha256 x).length = 32) (hc : c.length ≤ maxDataSize)
    (hlen : 24 + 11 * (done.length + 1) < 2 ^ 31) :
    ∃ key, hashToBase32 (sha256 (nodeBytes (chunkNode c))) = .ok (some key) ∧
      importAddNode sha256 opens (unixfsBytes (chunkUnixFS c)) c.length
          ⟨rest, parentOf sha256 done, repo⟩ =
        .ok (true, ⟨rest, parentOf sha256 (done ++ [c]),
          repo.write sha256 (nodeBytes (chunkNode c)) key⟩) := by
  obtain ⟨key, hkey, hadd⟩ := merkledagAdd_plain hopen hsha (chunkNode_plain hc)
  refine ⟨key, hkey, ?_⟩
  unfold importAddNode
  show (merkledagAdd sha256 opens (chunkNode c) repo >>= _) = _
  rw [hadd, ok_bind]
  show (importerAddFilesizeToDataSection
    ((parentOf sha256 done).addLink (chunkLink sha256 c)) (UInt64.ofNat c.length) >>= _) = _
  rw [importerAddFilesize_parentOf done c hlen]
  rfl

theorem encode_chunkUnixFS (hc : c.length ≤ maxDataSize) :
    unixfsProtobufEncode (chunkUnixFS c) (unixfsProtobufEncodeSize (chunkUnixFS c)) =
      .ok (unixfsBytes (chunkUnixFS c)) := by
  have hsize := chunkUnixFS_encodeSize c
  have hmax : maxDataSize = 262144 := rfl
  exact unixfsProtobufEncode_file rfl (by omega)

theorem rootOf_snoc (h : done ≠ []) :
    rootOf sha256 (done ++ [c]) = parentOf sha256 (done ++ [c]) := by
  cases done with
  | nil => exact absurd rfl h
  | cons d ds => cases ds <;> rfl

/-- **the last chunk** goes into the root, or gets a node -/
theorem importLastChunk_eq (hopen : ∀ name, opens name = true)
    (hsha : ∀ x, (sha256 x).length = 32) (hc : c.length ≤ maxDataSize)
    (hlen : 24 + 11 * (done.length + 1) < 2 ^ 31) :
    (done = [] ∧ importLastChunk sha256 opens (unixfsBytes (chunkUnixFS c)) c.length
        ⟨rest, parentOf sha256 done, repo⟩ = .ok (true, ⟨rest, rootOf sha256 (done ++ [c]), repo⟩)) ∨
      ∃ key, hashToBase32 (sha256 (nodeBytes (chunkNode c))) = .ok (some key) ∧
        importLastChunk sha256 opens (unixfsBytes (chunkUnixFS c)) c.length
            ⟨rest, parentOf sha256 done, repo⟩ =
          .ok (true, ⟨rest, rootOf sha256 (done ++ [c]),
            repo.write sha256 (nodeBytes (chunkNode c)) key⟩) := by
  unfold importLastChunk
  by_cases hnil : done = []
  · subst hnil
    exact .inl ⟨rfl, rfl⟩
  · have hlinks : (parentOf sha256 done).links ≠ [] := by
      rw [parentOf_links]
      exact fun h => hnil (List.map_eq_nil_iff.1 h)
    rw [if_neg hlinks, rootOf_snoc hnil]
    exact .inr (importAddNode_eq hopen hsha hc hlen)

/-! ### what the repository holds along the way -/

/-- the repository holds these nodes -/
def HoldsAll (sha256 : List UInt8 → List UInt8) (repo : Repo) (nodes : List HashtableNode) : Prop :=
  ∀ node ∈ nodes, Holds sha256 repo (nodeBytes node)

variable {nodes all : List HashtableNode} {node : HashtableNode} {key : List UInt8}

theorem HoldsAll.write (h : HoldsAll sha256 repo nodes) (hnames : NamesDistinct sha256 all)
    (hsub : nodes ⊆ all) (hnode : node ∈ all)
    (hkey : hashToBase32 (sha256 (nodeBytes node)) = .ok (some key)) :
    HoldsAll sha256 (repo.write sha256 (nodeBytes node) key) (nodes ++ [node]) := by
  intro x hx
  rw [List.mem_append, List.mem_singleton] at hx
  rcases hx with hx | rfl
  · exact (h x hx).write hkey fun he => hnames node hnode x (hsub hx) he
  · exact holds_write hkey

theorem chunkNode_mem_nodesOf {cs : List (List UInt8)} (h : c ∈ cs) :
    chunkNode c ∈ nodesOf sha256 cs := List.mem_append_left _ (List.mem_map_of_mem h)

theorem rootOf_mem_nodesOf (cs : List (List UInt8)) : rootOf sha256 cs ∈ nodesOf sha256 cs :=
  List.mem_append_right _ (List.mem_singleton_self _)

/-- **a whole chunk** -/
theorem importChunk_whole (hopen : ∀ name, opens name = true)
    (hsha : ∀ x, (sha256 x).length = 32) (hrest : maxDataSize ≤ rest.length)
    (hlen : 24 + 11 * (done.length + 1) < 2 ^ 31) :
    ∃ key, hashToBase32 (sha256 (nodeBytes (chunkNode (rest.take maxDataSize)))) =
        .ok (some key) ∧
      importChunk sha256 opens ⟨rest, parentOf sha256 done, repo⟩ =
        .ok (maxDataSize, ⟨rest.drop maxDataSize,
          parentOf sha256 (done ++ [rest.take maxDataSize]),
          repo.write sha256 (nodeBytes (chunkNode (rest.take maxDataSize))) key⟩) := by
  have hc : (rest.take maxDataSize).length = maxDataSize := List.length_take_of_le hrest
  obtain ⟨key, hkey, hadd⟩ := importAddNode_eq hopen hsha (le_of_eq hc) hlen
  refine ⟨key, hkey, ?_⟩
  unfold importChunk
  simp only
  rw [encode_chunkUnixFS (le_of_eq hc), ok_bind, if_pos hc, hadd, ok_bind, hc]

/-- **the last chunk**, and the root -/
theorem importChunk_last (hopen : ∀ name, opens name = true)
    (hsha : ∀ x, (sha256 x).length = 32) (hrest : rest.length < maxDataSize)
    (hlen : 24 + 11 * (done.length + 1) < 2 ^ 31)
    (hplain : (rootOf sha256 (done ++ [rest])).Plain)
    (hnames : NamesDistinct sha256 (nodesOf sha256 (done ++ [rest])))
    (hdone : HoldsAll sha256 repo (done.map chunkNode)) :
    ∃ repo', importChunk sha256 opens ⟨rest, parentOf sha256 done, repo⟩ =
        .ok (rest.length, ⟨[],
          { rootOf sha256 (done ++ [rest]) with
            hash := some (sha256 (nodeBytes (rootOf sha256 (done ++ [rest])))) }, repo'⟩) ∧
      HoldsAll sha256 repo' (nodesOf sha256 (done ++ [rest])) := by
  have hne : rest.length ≠ maxDataSize := by omega
  have htake : rest.take maxDataSize = rest := List.take_of_length_le (le_of_lt hrest)
  have hdrop : rest.drop maxDataSize = [] := List.drop_eq_nil_of_le (le_of_lt hrest)
  have hroot : rootOf sha256 (done ++ [rest]) ∈ nodesOf sha256 (done ++ [rest]) :=
    rootOf_mem_nodesOf (done ++ [rest])
  have hsub : done.map chunkNode ⊆ nodesOf sha256 (done ++ [rest]) := fun node hn => by
    obtain ⟨c, hc, rfl⟩ := List.mem_map.1 hn
    exact chunkNode_mem_nodesOf (List.mem_append_left _ hc)
  have hlast : chunkNode rest ∈ nodesOf sha256 (done ++ [rest]) :=
    chunkNode_mem_nodesOf (List.mem_append_right _ (List.mem_singleton_self _))
  unfold importChunk
  simp only
  rw [htake, hdrop, encode_chunkUnixFS (le_of_lt hrest), ok_bind, if_neg hne]
  rcases importLastChunk_eq hopen hsha (le_of_lt hrest) hlen with ⟨hnil, hchunk⟩ | ⟨key, hkey, hchunk⟩
  · obtain ⟨key', hkey', hadd⟩ := merkledagAdd_plain hopen hsha hplain
    rw [hchunk, ok_bind]
    simp only
    rw [hadd]
    refine ⟨_, rfl, ?_⟩
    have hw := hdone.write hnames hsub hroot hkey'
    subst hnil
    -- the only chunk is the root
    intro node hn
    have hn : node ∈ [chunkNode rest, chunkNode rest] := hn
    rw [List.mem_cons, List.mem_singleton, or_self] at hn
    exact hw node (List.mem_append_right _ (List.mem_singleton.2 hn))
  · obtain ⟨key', hkey', hadd⟩ := merkledagAdd_plain hopen hsha hplain
    rw [hchunk, ok_bind]
    simp only
    rw [hadd]
    refine ⟨_, rfl, ?_⟩
    have hw := (hdone.write hnames hsub hlast hkey).write hnames ?_ hroot hkey'
    · rw [nodesOf, List.map_append]
      exact hw
    · exact List.append_subset.2 ⟨hsub, List.cons_subset.2 ⟨hlast, List.nil_subset _⟩⟩

/-! ### the loop -/

/-- **the chunk loop** makes the root of the file, and stores it and the nodes it links to -/
theorem importLoop_eq (hopen : ∀ name, opens name = true) (hsha : ∀ x, (sha256 x).length = 32)
    {cs : List (List UInt8)} (hlen : 24 + 11 * cs.length < 2 ^ 31)
    (hplain : (rootOf sha256 cs).Plain) (hnames : NamesDistinct sha256 (nodesOf sha256 cs))
    (hcs : done ++ chunks maxDataSize_pos rest = cs)
    (hdone : HoldsAll sha256 repo (done.map chunkNode)) :
    ∃ repo', (∀ fuel, rest.length < fuel →
        importLoop sha256 opens fuel ⟨rest, parentOf sha256 done, repo⟩ =
          .ok ⟨[], { rootOf sha256 cs with hash := some (sha256 (nodeBytes (rootOf sha256 cs))) },
            repo'⟩) ∧
      HoldsAll sha256 repo' (nodesOf sha256 cs) := by
  induction rest using chunks.induct maxDataSize_pos generalizing done repo with
  | case1 rest hshort =>
    rw [chunks_of_lt _ hshort] at hcs
    subst hcs
    rw [List.length_append, List.length_singleton] at hlen
    obtain ⟨repo', hchunk, hall⟩ :=
      importChunk_last hopen hsha hshort hlen hplain hnames hdone
    have hne : rest.length ≠ maxDataSize := by omega
    refine ⟨repo', fun fuel hfuel => ?_, hall⟩
    obtain ⟨fuel, rfl⟩ : ∃ k, fuel = k + 1 := ⟨fuel - 1, by omega⟩
    rw [importLoop, hchunk, ok_bind]
    exact if_neg hne
  | case2 rest hlong ih =>
    have hwhole : maxDataSize ≤ rest.length := by omega
    have hpos := maxDataSize_pos
    rw [chunks_of_le _ hwhole, ← List.singleton_append, ← List.append_assoc] at hcs
    have hlen' : done.length + 1 ≤ cs.length := by
      have := congrArg List.length hcs
      rw [List.length_append, List.length_append, List.length_singleton] at this
      omega
    have hmem : ∀ c ∈ done ++ [rest.take maxDataSize], chunkNode c ∈ nodesOf sha256 cs :=
      fun c hc => chunkNode_mem_nodesOf (by rw [← hcs]; exact List.mem_append_left _ hc)
    obtain ⟨key, hkey, hchunk⟩ := importChunk_whole hopen hsha hwhole
      (show 24 + 11 * (done.length + 1) < 2 ^ 31 by omega)
    have hw := hdone.write hnames
      (fun node hn => by
        obtain ⟨c, hc, rfl⟩ := List.mem_map.1 hn
        exact hmem c (List.mem_append_left _ hc))
      (hmem _ (List.mem_append_right _ (List.mem_singleton_self _))) hkey
    obtain ⟨repo', hloop, hall⟩ := ih hcs (by rw [List.map_append]; exact hw)
    refine ⟨repo', fun fuel hfuel => ?_, hall⟩
    obtain ⟨fuel, rfl⟩ : ∃ k, fuel = k + 1 := ⟨fuel - 1, by omega⟩
    rw [importLoop, hchunk, ok_bind]
    refine hloop fuel ?_
    rw [List.length_drop]
    omega

/-! ## reading it back -/

/-- what a root unfolds to -/
def treeOf : List (List UInt8) → FileTree
  | [c] => .file c []
  | cs => .file [] (cs.map fun c => .file c [])

theorem catAll_leaves (cs : List (List UInt8)) :
    FileTree.catAll (cs.map fun c => .file c []) = (cs.flatten, true) := by
  induction cs with
  | nil => rfl
  | cons c cs ih =>
    rw [List.map_cons, FileTree.catAll, ih]
    simp [FileTree.isMissing, FileTree.cat, FileTree.catAll]

theorem ownAll_leaves (cs : List (List UInt8)) :
    FileTree.ownAll (cs.map fun c => .file c []) = (cs.flatten, true) := by
  induction cs with
  | nil => rfl
  | cons c cs ih =>
    rw [List.map_cons, FileTree.ownAll, ih]
    simp [FileTree.isMissing, FileTree.ownBytes]

theorem cat_treeOf : ∀ cs : List (List UInt8), (treeOf cs).cat = (cs.flatten, true)
  | [] => rfl
  | [c] => by simp [treeOf, FileTree.cat, FileTree.catAll]
  | c :: d :: cs => by
    show (FileTree.file [] ((c :: d :: cs).map fun c => .file c [])).cat = _
    rw [FileTree.cat, catAll_leaves, List.nil_append]

theorem filestream_treeOf : ∀ cs : List (List UInt8), cs ≠ [] →
    (treeOf cs).filestream = (cs.flatten, true)
  | [], h => absurd rfl h
  | [c], _ => by simp [treeOf, FileTree.filestream]
  | c :: d :: cs, _ => ownAll_leaves (c :: d :: cs)

/-- **a node that is held** is what the exporters get -/
theorem exporterGetNode_plain (hsha : ∀ x, (sha256 x).length = 32) (h : node.Plain)
    (hh : Holds sha256 repo (nodeBytes node)) :
    exporterGetNode (genericGetValue repo) (sha256 (nodeBytes node)) =
      .ok (some { node with hash := some (sha256 (nodeBytes node)) }) := by
  unfold exporterGetNode
  rw [genericGetValue_plain hsha h hh, ok_bind]
  simp only
  rw [h.decode]
  rfl

theorem shows_chunk (hsha : ∀ x, (sha256 x).length = 32) (hc : c.length ≤ maxDataSize)
    (hh : Holds sha256 repo (nodeBytes (chunkNode c))) :
    Shows (genericGetValue repo) (sha256 (nodeBytes (chunkNode c))) (.file c []) := by
  have hsize := chunkUnixFS_encodeSize c
  have hmax : maxDataSize = 262144 := rfl
  have hfile : unixfsProtobufDecode (chunkNode c).data = .ok (some (chunkUnixFS c)) :=
    unixfsProtobufDecode_file rfl (by omega)
  exact Shows.file (exporterGetNode_plain hsha (chunkNode_plain hc) hh) hfile ShowsAll.nil

theorem showsAll_chunks (hsha : ∀ x, (sha256 x).length = 32) {cs : List (List UInt8)}
    (hcs : ∀ c ∈ cs, c.length ≤ maxDataSize)
    (hh : ∀ c ∈ cs, Holds sha256 repo (nodeBytes (chunkNode c))) :
    ShowsAll (genericGetValue repo) (cs.map (chunkLink sha256)) (cs.map fun c => .file c []) := by
  induction cs with
  | nil => exact ShowsAll.nil
  | cons c cs ih =>
    have hfirst := shows_chunk hsha (hcs c List.mem_cons_self) (hh c List.mem_cons_self)
    exact ShowsAll.cons hfirst (ih (fun d hd => hcs d (List.mem_cons_of_mem _ hd))
      fun d hd => hh d (List.mem_cons_of_mem _ hd))

/-- the data section of a root -/
def rootUnixFS : List (List UInt8) → UnixFS
  | [c] => chunkUnixFS c
  | cs => parentUnixFS cs

theorem rootOf_data : ∀ cs : List (List UInt8), cs ≠ [] →
    (rootOf sha256 cs).data = unixfsBytes (rootUnixFS cs)
  | [], h => absurd rfl h
  | [_], _ => rfl
  | _ :: _ :: _, _ => rfl

theorem rootUnixFS_file : ∀ cs : List (List UInt8), (rootUnixFS cs).dataType = unixfsFile
  | [] => rfl
  | [_] => rfl
  | _ :: _ :: _ => rfl

/-! ### a root that is not too large -/

section
variable {cs : List (List UInt8)}

theorem rootOf_plain (hsha : ∀ x, (sha256 x).length = 32)
    (hcs : ∀ c ∈ cs, c.length ≤ maxDataSize) (hne : cs ≠ [])
    (hsize : hashtableNodeProtobufEncodeSize (rootOf sha256 cs) < 2 ^ 31) :
    (rootOf sha256 cs).Plain :=
  match cs, hne with
  | [c], _ => chunkNode_plain (hcs c List.mem_cons_self)
  | _ :: _ :: _, hne => parentOf_plain hsha hne hsize

theorem length_le_of_encodeSize (hsha : ∀ x, (sha256 x).length = 32)
    (hsize : hashtableNodeProtobufEncodeSize (rootOf sha256 cs) < 2 ^ 31) :
    54 * cs.length < 2 ^ 31 :=
  match cs with
  | [] => by norm_num
  | [c] => by norm_num
  | c :: d :: cs => lt_of_le_of_lt (le_parentOf_encodeSize hsha (c :: d :: cs)) hsize

theorem length_flatten_le (hcs : ∀ c ∈ cs, c.length ≤ maxDataSize) :
    cs.flatten.length ≤ maxDataSize * cs.length := by
  have hsum := List.sum_le_card_nsmul (cs.map List.length) maxDataSize (fun n hn => by
    obtain ⟨c, hc, rfl⟩ := List.mem_map.1 hn
    exact hcs c hc)
  rw [List.length_map, smul_eq_mul, Nat.mul_comm] at hsum
  rw [List.length_flatten]
  exact hsum

theorem rootUnixFS_encodeSize (hcs : ∀ c ∈ cs, c.length ≤ maxDataSize)
    (hlen : 54 * cs.length < 2 ^ 31) : unixfsProtobufEncodeSize (rootUnixFS cs) < 2 ^ 31 :=
  match cs with
  | [] => by decide
  | [c] => by
    have hc := hcs c List.mem_cons_self
    have hmax : maxDataSize = 262144 := rfl
    rw [rootUnixFS, chunkUnixFS_encodeSize]
    omega
  | c :: d :: cs => by
    show unixfsProtobufEncodeSize (parentUnixFS (c :: d :: cs)) < 2 ^ 31
    rw [parentUnixFS_encodeSize]
    omega

/-- **the root unfolds** to the file -/
theorem shows_root (hsha : ∀ x, (sha256 x).length = 32)
    (hcs : ∀ c ∈ cs, c.length ≤ maxDataSize) (hne : cs ≠ [])
    (hsize : hashtableNodeProtobufEncodeSize (rootOf sha256 cs) < 2 ^ 31)
    (hh : HoldsAll sha256 repo (nodesOf sha256 cs)) :
    Shows (genericGetValue repo) (sha256 (nodeBytes (rootOf sha256 cs))) (treeOf cs) := by
  have hplain := rootOf_plain hsha hcs hne hsize
  have hlen := length_le_of_encodeSize hsha hsize
  have hroot := exporterGetNode_plain hsha hplain (hh _ (rootOf_mem_nodesOf cs))
  have hfile : unixfsProtobufDecode (rootOf sha256 cs).data = .ok (some (rootUnixFS cs)) := by
    rw [rootOf_data cs hne]
    exact unixfsProtobufDecode_file (rootUnixFS_file cs) (rootUnixFS_encodeSize hcs hlen)
  rcases cs with _ | ⟨c, _ | ⟨d, cs⟩⟩
  · exact absurd rfl hne
  · exact Shows.file hroot hfile ShowsAll.nil
  · exact Shows.file hroot hfile
      (showsAll_chunks hsha hcs fun c hc => hh _ (chunkNode_mem_nodesOf hc))

end

end

/-! ## import and export -/

/-- both exporters give the file -/
def Exports (repo : Repo) (hash file : List UInt8) : Prop :=
  (∃ fuel, ∀ k, fuel ≤ k →
    exporterObjectCatToFile (genericGetValue repo) k hash = .ok (file, true)) ∧
  ∃ text, hashText hash = .ok text ∧
    exporterToFilestream (genericGetValue repo) text = .ok (file, true)

/-- the data section of the root: the length of the file, and for every link, in their order, how
many bytes there are behind it -/
structure Describes (repo : Repo) (root : HashtableNode) (obj : UnixFS) (file : List UInt8) :
    Prop where
  decoded : unixfsProtobufDecode root.data = .ok (some obj)
  fileSize : obj.fileSize.toNat = file.length
  blockSizes : List.Forall₂ (fun link blockSize => ∃ bytes,
    Shows (genericGetValue repo) link.hash (.file bytes []) ∧ blockSize.toNat = bytes.length)
      root.links obj.blockSizes
  bytes : root.links ≠ [] → obj.bytes = []

def sumBlockSizes (obj : UnixFS) : Nat := (obj.blockSizes.map UInt64.toNat).sum

/-- the chunk loop ends, the file is exported from the hash of the root, and the data section of
the root describes it, with sizes that sum up to the size of the file -/
def ReadsBack (sha256 : List UInt8 → List UInt8) (opens : List UInt8 → Bool) (repo : Repo)
    (sum : UnixFS → Nat) (file : List UInt8) : Prop :=
  ∃ s root obj, (∀ fuel, file.length < fuel →
      importLoop sha256 opens fuel { rest := file, repo := repo } = .ok s) ∧
    s.parent.hash = some root ∧ Exports s.repo root file ∧ Describes s.repo s.parent obj file ∧
    sum obj = obj.fileSize.toNat

section
variable {sha256 : List UInt8 → List UInt8} {opens : List UInt8 → Bool} {repo : Repo}

theorem exports_of_shows {hash file : List UInt8} {t : FileTree} (hhash : hash.length = 32)
    (h : Shows (genericGetValue repo) hash t) (hcat : t.cat = (file, true))
    (hstream : t.filestream = (file, true)) : Exports repo hash file := by
  obtain ⟨fuel, hcatNode⟩ := exporterCatNode_eq t hash h
  obtain ⟨text, htext, hdecode⟩ := cidDecodeHashFromBase58_hashText hhash
  rw [hcat] at hcatNode
  refine ⟨⟨fuel, hcatNode⟩, text, htext, ?_⟩
  rw [exporterToFilestream_eq hdecode h, hstream]

theorem forall₂_chunkLinks (hsha : ∀ x, (sha256 x).length = 32) {cs : List (List UInt8)}
    (hcs : ∀ c ∈ cs, c.length ≤ maxDataSize)
    (hh : ∀ c ∈ cs, Holds sha256 repo (nodeBytes (chunkNode c))) :
    List.Forall₂ (fun link blockSize => ∃ bytes,
        Shows (genericGetValue repo) link.hash (.file bytes []) ∧ blockSize.toNat = bytes.length)
      (cs.map (chunkLink sha256)) (cs.map fun c => UInt64.ofNat c.length) := by
  rw [List.forall₂_map_left_iff, List.forall₂_map_right_iff, List.forall₂_same]
  intro c hc
  have hle := hcs c hc
  have hmax : maxDataSize = 262144 := rfl
  have hword : UInt64.size = 2 ^ 64 := rfl
  exact ⟨c, shows_chunk hsha hle (hh c hc), UInt64.toNat_ofNat_of_lt' (by omega)⟩

theorem sumBlockSizes_parentUnixFS {cs : List (List UInt8)}
    (hcs : ∀ c ∈ cs, c.length ≤ maxDataSize) :
    sumBlockSizes (parentUnixFS cs) = cs.flatten.length := by
  have hmax : maxDataSize = 262144 := rfl
  have hword : UInt64.size = 2 ^ 64 := rfl
  show ((cs.map fun c => UInt64.ofNat c.length).map UInt64.toNat).sum = _
  rw [List.map_map, List.length_flatten]
  refine congrArg List.sum (List.map_congr_left fun c hc => ?_)
  have hle := hcs c hc
  exact UInt64.toNat_ofNat_of_lt' (by omega)

/-- the size of the file, and where it is -/
theorem rootUnixFS_sizes {cs : List (List UInt8)} (hcs : ∀ c ∈ cs, c.length ≤ maxDataSize)
    (hlen : 54 * cs.length < 2 ^ 31) (hne : cs ≠ []) :
    (rootUnixFS cs).fileSize.toNat = cs.flatten.length ∧
      (rootUnixFS cs).bytes.length + sumBlockSizes (rootUnixFS cs) = cs.flatten.length := by
  have hflat := length_flatten_le hcs
  have hmax : maxDataSize = 262144 := rfl
  have hword : UInt64.size = 2 ^ 64 := rfl
  rw [hmax] at hflat
  have hsize : (UInt64.ofNat cs.flatten.length).toNat = cs.flatten.length :=
    UInt64.toNat_ofNat_of_lt' (by omega)
  rcases cs with _ | ⟨c, _ | ⟨d, cs⟩⟩
  · exact absurd rfl hne
  · rw [List.flatten_singleton] at hsize ⊢
    exact ⟨hsize, Nat.add_zero _⟩
  · refine ⟨hsize, ?_⟩
    show 0 + sumBlockSizes (parentUnixFS (c :: d :: cs)) = _
    rw [sumBlockSizes_parentUnixFS hcs, Nat.zero_add]

theorem describes_root (hsha : ∀ x, (sha256 x).length = 32) {cs : List (List UInt8)}
    {root : HashtableNode} {file : List UInt8} (hcs : ∀ c ∈ cs, c.length ≤ maxDataSize)
    (hne : cs ≠ []) (hlen : 54 * cs.length < 2 ^ 31)
    (hdata : root.data = (rootOf sha256 cs).data) (hlinks : root.links = (rootOf sha256 cs).links)
    (hh : HoldsAll sha256 repo (nodesOf sha256 cs))
    (hsize : (rootUnixFS cs).fileSize.toNat = file.length) :
    Describes repo root (rootUnixFS cs) file := by
  have hdecoded : unixfsProtobufDecode root.data = .ok (some (rootUnixFS cs)) := by
    rw [hdata, rootOf_data cs hne]
    exact unixfsProtobufDecode_file (rootUnixFS_file cs) (rootUnixFS_encodeSize hcs hlen)
  refine ⟨hdecoded, hsize, ?_, ?_⟩
  · rw [hlinks]
    rcases cs with _ | ⟨c, _ | ⟨d, cs⟩⟩
    · exact absurd rfl hne
    · exact List.Forall₂.nil
    · exact forall₂_chunkLinks hsha hcs fun c hc => hh _ (chunkNode_mem_nodesOf hc)
  · rw [hlinks]
    rcases cs with _ | ⟨c, _ | ⟨d, cs⟩⟩
    · exact absurd rfl hne
    · exact fun h => absurd rfl h
    · exact fun _ => rfl

/-- **import and export**: what is imported is exported again, whatever the length, as long as
the size of the root is an `int`; the bytes that the root itself has count too -/
theorem importLoop_readsBack (hopen : ∀ name, opens name = true)
    (hsha : ∀ x, (sha256 x).length = 32) {file : List UInt8}
    (hnames : NamesDistinct sha256 (nodesOf sha256 (chunks maxDataSize_pos file)))
    (hsize : hashtableNodeProtobufEncodeSize
      (rootOf sha256 (chunks maxDataSize_pos file)) < 2 ^ 31) :
    ReadsBack sha256 opens repo (fun obj => obj.bytes.length + sumBlockSizes obj) file := by
  have hne := chunks_ne_nil maxDataSize_pos file
  have hcs : ∀ c ∈ chunks maxDataSize_pos file, c.length ≤ maxDataSize :=
    fun c hc => length_le_of_mem_chunks maxDataSize_pos hc
  have hflat := flatten_chunks maxDataSize_pos file
  generalize hchunks : chunks maxDataSize_pos file = cs at *
  have hplain := rootOf_plain hsha hcs hne hsize
  have hlen := length_le_of_encodeSize hsha hsize
  have hstart : [] ++ chunks maxDataSize_pos file = cs := hchunks
  have hnone : HoldsAll sha256 repo (([] : List (List UInt8)).map chunkNode) :=
    fun node hn => absurd hn List.not_mem_nil
  obtain ⟨repo', hloop, hall⟩ := importLoop_eq hopen hsha (by omega) hplain hnames hstart hnone
  obtain ⟨hfileSize, hsum⟩ := rootUnixFS_sizes hcs hlen hne
  have hshows := shows_root hsha hcs hne hsize hall
  have hcat := cat_treeOf cs
  have hstream := filestream_treeOf cs hne
  rw [hflat] at hfileSize hsum hcat hstream
  refine ⟨_, _, rootUnixFS cs, hloop, rfl, exports_of_shows (hsha _) hshows hcat hstream, ?_, ?_⟩
  · exact describes_root hsha hcs hne hlen rfl rfl hall hfileSize
  · exact hsum.trans hfileSize.symm

end

/-! ### a file of two chunks -/

theorem nodeBytes_inj {x y : HashtableNode} (hx : x.Plain) (hy : y.Plain)
    (h : nodeBytes x = nodeBytes y) : x = y := by
  have hdecode := hy.decode
  rw [← h, hx.decode, Except.ok.injEq, Option.some.injEq] at hdecode
  exact hdecode

def fullChunk : List UInt8 := List.replicate maxDataSize 97

/-- the digest of the node of a chunk of letters "a" -/
def digestOfFullChunk : List UInt8 :=
  [175, 15, 106, 149, 107, 85, 248, 31, 208, 94, 91, 192, 5, 208, 4, 16, 136, 67, 225, 232, 82, 133,
    104, 150, 169, 186, 89, 221, 10, 9, 228, 27]

/-- the digest of the node of the file "a" -/
def digestOfA : List UInt8 :=
  [250, 211, 180, 184, 39, 14, 163, 15, 9, 193, 54, 75, 153, 13, 179, 53, 27, 47, 114, 1, 21, 183,
    116, 7, 31, 76, 196, 226, 186, 37, 223, 194]

/-- the digest of the root that links to these two, with sizes of 262202 and 51 -/
def digestOfRoot : List UInt8 :=
  [46, 243, 68, 243, 189, 175, 229, 42, 118, 107, 159, 141, 19, 235, 197, 29, 30, 36, 163, 90, 235, 54,
    120, 238, 15, 46, 173, 89, 214, 192, 196, 211]

/-- what SHA-256 makes of the nodes of a file of a chunk of letters "a" and one more -/
def digestOfTwo (x : List UInt8) : List UInt8 :=
  if x = nodeBytes (chunkNode fullChunk) then digestOfFullChunk
  else if x = nodeBytes (chunkNode [97]) then digestOfA
  else digestOfRoot

theorem digestOfTwo_length (x : List UInt8) : (digestOfTwo x).length = 32 := by
  unfold digestOfTwo
  split_ifs <;> rfl

theorem fullChunk_length : fullChunk.length = maxDataSize := List.length_replicate

theorem chunks_two : chunks maxDataSize_pos (fullChunk ++ [97]) = [fullChunk, [97]] := by
  rw [chunks_of_le _ (by rw [List.length_append, fullChunk_length]; exact Nat.le_add_right _ _),
    List.take_left' fullChunk_length, List.drop_left' fullChunk_length,
    chunks_of_lt maxDataSize_pos (by decide)]

theorem encodeSize_rootOf_two :
    hashtableNodeProtobufEncodeSize (rootOf digestOfTwo [fullChunk, [97]]) < 2 ^ 31 :=
  lt_of_le_of_lt (parentOf_encodeSize_le digestOfTwo_length (List.cons_ne_nil _ _))
    (by rw [List.length_cons, List.length_singleton]; norm_num)

/-- the digests of the three nodes -/
theorem digestOfTwo_nodes : digestOfTwo (nodeBytes (chunkNode fullChunk)) = digestOfFullChunk ∧
    digestOfTwo (nodeBytes (chunkNode [97])) = digestOfA ∧
      digestOfTwo (nodeBytes (rootOf digestOfTwo [fullChunk, [97]])) = digestOfRoot := by
  have hfull : (chunkNode fullChunk).Plain := chunkNode_plain (le_of_eq fullChunk_length)
  have hlast : (chunkNode [97]).Plain := chunkNode_plain (by decide)
  have hroot : (rootOf digestOfTwo [fullChunk, [97]]).Plain :=
    parentOf_plain digestOfTwo_length (List.cons_ne_nil _ _) encodeSize_rootOf_two
  have hlinks : ∀ c, rootOf digestOfTwo [fullChunk, [97]] ≠ chunkNode c := fun c h =>
    List.cons_ne_nil _ _ (congrArg HashtableNode.links h)
  refine ⟨if_pos rfl, ?_, ?_⟩
  · have hne : nodeBytes (chunkNode [97]) ≠ nodeBytes (chunkNode fullChunk) := fun h => by
      have hdata := congrArg HashtableNode.data (nodeBytes_inj hlast hfull h)
      have hsize := chunkUnixFS_encodeSize fullChunk
      rw [fullChunk_length] at hsize
      have hdecode := @unixfsProtobufDecode_file (chunkUnixFS fullChunk) rfl
        (by rw [hsize]; decide)
      rw [show unixfsBytes (chunkUnixFS fullChunk) = unixfsBytes (chunkUnixFS [97]) from hdata.symm,
        unixfsProtobufDecode_file rfl (by decide), Except.ok.injEq, Option.some.injEq] at hdecode
      have hbytes := congrArg (fun obj => obj.bytes.length) hdecode
      exact absurd (hbytes.trans fullChunk_length) (by decide)
    exact (if_neg hne).trans (if_pos rfl)
  · exact (if_neg fun h => hlinks _ (nodeBytes_inj hroot hfull h)).trans
      (if_neg fun h => hlinks _ (nodeBytes_inj hroot hlast h))

theorem namesDistinct_of_nodup {sha256 : List UInt8 → List UInt8} {nodes : List HashtableNode}
    (h : (nodes.map fun node => hashToBase32 (sha256 (nodeBytes node))).Nodup) :
    NamesDistinct sha256 nodes := fun _ hx _ hy hname =>
  congrArg nodeBytes (List.inj_on_of_nodup_map h hx hy hname)

theorem namesDistinct_two :
    NamesDistinct digestOfTwo (nodesOf digestOfTwo (chunks maxDataSize_pos (fullChunk ++ [97]))) := by
  obtain ⟨hfull, hlast, hroot⟩ := digestOfTwo_nodes
  rw [chunks_two]
  have hnames : (nodesOf digestOfTwo [fullChunk, [97]]).map
      (fun node => hashToBase32 (digestOfTwo (nodeBytes node))) =
      [hashToBase32 digestOfFullChunk, hashToBase32 digestOfA, hashToBase32 digestOfRoot] := by
    rw [← hfull, ← hlast, ← hroot]
    rfl
  exact namesDistinct_of_nodup (by rw [hnames]; decide)

theorem importLoop_readsBack_two_chunks :
    ReadsBack digestOfTwo (fun _ => true) Repo.empty
      (fun obj => obj.bytes.length + sumBlockSizes obj) (fullChunk ++ [97]) :=
  importLoop_readsBack (fun _ => rfl) digestOfTwo_length namesDistinct_two
    (by rw [chunks_two]; exact encodeSize_rootOf_two)

/-! ### one byte -/

section
variable {sha256 : List UInt8 → List UInt8} {file : List UInt8}

theorem namesDistinct_one (h : file.length < maxDataSize) :
    NamesDistinct sha256 (nodesOf sha256 (chunks maxDataSize_pos file)) := by
  rw [chunks_of_lt maxDataSize_pos h]
  intro x hx y hy _
  have hx : x ∈ [chunkNode file, chunkNode file] := hx
  have hy : y ∈ [chunkNode file, chunkNode file] := hy
  rw [List.mem_cons, List.mem_singleton, or_self] at hx hy
  rw [hx, hy]

theorem encodeSize_rootOf_one (h : file.length < maxDataSize) :
    hashtableNodeProtobufEncodeSize
      (rootOf sha256 (chunks maxDataSize_pos file)) < 2 ^ 31 := by
  rw [chunks_of_lt maxDataSize_pos h]
  exact (chunkNode_plain (le_of_lt h)).size

end

/-- the sizes of the parts alone do not sum up to the size of a file that has none -/
theorem not_readsBack_sumBlockSizes : ¬ ∀ sha256 opens repo file, (∀ name, opens name = true) →
    (∀ x, (sha256 x).length = 32) →
    NamesDistinct sha256 (nodesOf sha256 (chunks maxDataSize_pos file)) →
    hashtableNodeProtobufEncodeSize (rootOf sha256 (chunks maxDataSize_pos file)) < 2 ^ 31 →
      ReadsBack sha256 opens repo sumBlockSizes file := by
  intro h
  have hnames := @namesDistinct_one (fun _ => digestOfA) [97] (by decide)
  have hone : chunks maxDataSize_pos [(97 : UInt8)] = [[97]] :=
    chunks_of_lt maxDataSize_pos (by decide)
  have hplain : (rootOf (fun _ => digestOfA) [[97]]).Plain := chunkNode_plain (by decide)
  have hnone : HoldsAll (fun _ => digestOfA) Repo.empty (([] : List (List UInt8)).map chunkNode) :=
    fun node hn => absurd hn List.not_mem_nil
  obtain ⟨s, root, obj, hloop, hroot, hexports, hdescribes, hsum⟩ :=
    h (fun _ => digestOfA) (fun _ => true) Repo.empty [97] (fun _ => rfl) (fun _ => rfl) hnames
      (encodeSize_rootOf_one (by decide))
  rw [hone] at hnames
  obtain ⟨repo', hloop', -⟩ := importLoop_eq (fun _ => rfl) (fun _ => rfl) (by decide) hplain
    hnames (show [] ++ chunks maxDataSize_pos [97] = _ from hone) hnone
  have hs := (hloop 2 (by decide)).symm.trans (hloop' 2 (by decide))
  -- no links, no sizes
  have hlinks : s.parent.links = [] := by
    rw [Except.ok.inj hs]
    rfl
  have hsizes := hdescribes.blockSizes
  rw [hlinks] at hsizes
  have hnil : obj.blockSizes = [] := List.forall₂_nil_left_iff.1 hsizes
  have hlength := hdescribes.fileSize
  rw [← hsum, sumBlockSizes, hnil] at hlength
  cases hlength

end Ipfs
