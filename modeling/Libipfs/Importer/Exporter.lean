import Libipfs.Blocks.Cid
import Libipfs.Merkledag.Node
import Libipfs.Unixfs.UnixFs

/-!
# Reading a file back

Two ways from the hash of a root to the bytes of a file.  `exporterToFilestream` writes the bytes
of a root without links, and otherwise the bytes of the nodes the root links to, and looks no
further; `exporterCatNode` writes the bytes of a node and then goes through its links, and does
not look at what the recursion returns.

The abstract side is the tree that a file unfolds to.

* `FileTree`          a file: its own bytes and its children, some of which may be missing;
* `FileTree.cat`, `FileTree.filestream`   what is written, and whether success is reported;
* `cat_eq_filestream_iff`     when the two agree on a tree;
* `exporterToFilestream_eq`, `exporterObjectCatToFile_eq`   the exporters compute them;
* `exportersAgree_iff`        when the exporters agree on a file.
-/

namespace Ipfs
open CSem Libp2p

/-! ## trees of files -/

inductive FileTree where
  | missing
  | file (bytes : List UInt8) (children : List FileTree)

namespace FileTree

def isMissing : FileTree → Bool
  | .missing => true
  | .file _ _ => false

def ownBytes : FileTree → List UInt8
  | .missing => []
  | .file bytes _ => bytes

mutual

/-- what is written, and whether success is reported: the own bytes, then the children in order,
up to the first one that is missing -/
def cat : FileTree → List UInt8 × Bool
  | .missing => ([], false)
  | .file bytes children => (bytes ++ (catAll children).1, (catAll children).2)

def catAll : List FileTree → List UInt8 × Bool
  | [] => ([], true)
  | t :: ts => if t.isMissing then ([], false) else (t.cat.1 ++ (catAll ts).1, (catAll ts).2)

end

/-- the own bytes of the children, up to the first one that is missing -/
def ownAll : List FileTree → List UInt8 × Bool
  | [] => ([], true)
  | t :: ts => if t.isMissing then ([], false) else (t.ownBytes ++ (ownAll ts).1, (ownAll ts).2)

def filestream : FileTree → List UInt8 × Bool
  | .missing => ([], false)
  | .file bytes [] => (bytes, true)
  | .file _ (t :: ts) => ownAll (t :: ts)

mutual

/-- nothing is missing anywhere -/
def complete : FileTree → Bool
  | .missing => false
  | .file _ children => completeAll children

def completeAll : List FileTree → Bool
  | [] => true
  | t :: ts => t.complete && completeAll ts

end

mutual

/-- no node holds bytes, as far as the links are followed -/
def silent : FileTree → Prop
  | .missing => True
  | .file bytes children => bytes = [] ∧ silentAll children

def silentAll : List FileTree → Prop
  | [] => True
  | t :: ts => t.isMissing = true ∨ (t.silent ∧ silentAll ts)

end

/-- below these nodes, as far as the links are followed, no node holds bytes -/
def shallowAll : List FileTree → Prop
  | [] => True
  | .missing :: _ => True
  | .file _ children :: ts => silentAll children ∧ shallowAll ts

/-- a file whose bytes are where `filestream` looks for them: in the root when it has no links,
otherwise in the nodes it links to -/
def OneLevel : FileTree → Prop
  | .missing => True
  | .file _ [] => True
  | .file bytes (t :: ts) => bytes = [] ∧ shallowAll (t :: ts)

/-- where something is missing, it is a node that the root links to, or the root -/
def MissingAtFirst : FileTree → Prop
  | .missing => True
  | .file _ children => completeAll children = true ∨ (children.any isMissing) = true

/-! ### when they agree -/

mutual

theorem cat_eq_nil : ∀ t : FileTree, t.cat.1 = [] ↔ t.silent
  | .missing => by simp [cat, silent]
  | .file bytes children => by
    rw [cat, silent, List.append_eq_nil_iff, catAll_eq_nil children]

theorem catAll_eq_nil : ∀ ts : List FileTree, (catAll ts).1 = [] ↔ silentAll ts
  | [] => by simp [catAll, silentAll]
  | t :: ts => by
    rw [catAll, silentAll]
    split
    · simp_all
    · rw [List.append_eq_nil_iff, cat_eq_nil t, catAll_eq_nil ts]
      simp_all

end

/-- the two report the same -/
theorem catAll_snd (ts : List FileTree) : (catAll ts).2 = (ownAll ts).2 := by
  induction ts with
  | nil => simp [catAll, ownAll]
  | cons t ts ih =>
    rw [catAll, ownAll]
    split
    · rfl
    · exact ih

theorem ownAll_snd (ts : List FileTree) : (ownAll ts).2 = true ↔ ts.any isMissing = false := by
  induction ts with
  | nil => simp [ownAll]
  | cons t ts ih =>
    rw [ownAll]
    split
    · simp_all
    · simp_all

theorem cat_snd (t : FileTree) : t.cat.2 = t.filestream.2 := by
  match t with
  | .missing => simp [cat, filestream]
  | .file bytes [] => simp [cat, catAll, filestream]
  | .file bytes (t :: ts) =>
    rw [cat, filestream]
    exact catAll_snd (t :: ts)

/-- what `cat` writes is at least what `filestream` writes -/
theorem ownAll_length_le (ts : List FileTree) :
    (ownAll ts).1.length ≤ (catAll ts).1.length := by
  induction ts with
  | nil => simp [ownAll]
  | cons t ts ih =>
    rw [catAll, ownAll]
    split
    · simp
    · cases t with
      | missing => simp_all [isMissing]
      | file bytes children =>
        simp only [cat, ownBytes, List.length_append]
        omega

theorem catAll_fst_eq (ts : List FileTree) :
    (catAll ts).1 = (ownAll ts).1 ↔ shallowAll ts := by
  induction ts with
  | nil => simp [catAll, ownAll, shallowAll]
  | cons t ts ih =>
    cases t with
    | missing => simp [catAll, ownAll, shallowAll, isMissing]
    | file bytes children =>
      have hle := ownAll_length_le ts
      rw [shallowAll, ← ih, ← catAll_eq_nil]
      simp only [catAll, ownAll, isMissing, Bool.false_eq_true, if_false, cat, ownBytes,
        List.append_assoc, List.append_cancel_left_eq]
      refine ⟨fun h => ?_, fun h => ?_⟩
      · have hlen := congrArg List.length h
        rw [List.length_append] at hlen
        have hnil : (catAll children).1 = [] := List.eq_nil_of_length_eq_zero (by omega)
        rw [hnil] at h
        exact ⟨hnil, h⟩
      · rw [h.1, h.2]
        rfl

/-- **the two write the same** iff the bytes are where `filestream` looks for them -/
theorem cat_fst_eq (t : FileTree) : t.cat.1 = t.filestream.1 ↔ t.OneLevel := by
  match t with
  | .missing => simp [cat, filestream, OneLevel]
  | .file bytes [] => simp [cat, catAll, filestream, OneLevel]
  | .file bytes (t :: ts) =>
    have hle := ownAll_length_le (t :: ts)
    rw [cat, filestream, OneLevel, ← catAll_fst_eq]
    refine ⟨fun h => ?_, fun h => ?_⟩
    · have hlen := congrArg List.length h
      rw [List.length_append] at hlen
      have hnil : bytes = [] := List.eq_nil_of_length_eq_zero (by omega)
      rw [hnil] at h
      exact ⟨hnil, h⟩
    · rw [h.1, h.2]
      rfl

theorem completeAll_of_any {ts : List FileTree} (h : ts.any isMissing = true) :
    completeAll ts = false := by
  induction ts with
  | nil => cases h
  | cons t ts ih =>
    rw [completeAll]
    rw [List.any_cons, Bool.or_eq_true] at h
    rcases h with h | h
    · cases t with
      | missing => simp [complete]
      | file _ _ => cases h
    · rw [ih h, Bool.and_false]

/-- **success is reported where nothing is missing** iff what is missing is found -/
theorem cat_snd_iff (t : FileTree) : (t.cat.2 = true ↔ t.complete = true) ↔ t.MissingAtFirst := by
  cases t with
  | missing => simp [cat, complete, MissingAtFirst]
  | file bytes children =>
    have hflag := ownAll_snd children
    rw [cat, complete, MissingAtFirst, catAll_snd, hflag]
    cases hany : children.any isMissing with
    | true => simp [completeAll_of_any hany]
    | false => simp

end FileTree

/-! ## the exporters -/

section
variable (getValue : List UInt8 → Exec (Option (List UInt8)))

/-- `getValue` is the router's `GetValue`; `none` when the function returns 0 -/
def exporterGetNode (hash : List UInt8) : Exec (Option HashtableNode) := do
  match ← getValue hash with
  | none => .ok none
  | some buffer =>
    match ← hashtableNodeProtobufDecode buffer with
    | none => .ok none
    | some node => .ok (some { node with hash := some hash })

/-- the object, whatever the decoder returns: a null pointer for no data at all, and otherwise
what was decoded so far, with a null pointer to bytes of the size they had -/
def decodedUnixFs (data : List UInt8) : Exec UnixFS := do
  match ← unixfsProtobufDecode data with
  | some unixFs => .ok unixFs
  | none => do
    require .null (data ≠ [])
    let left ← decodeLoopLeft unixfsFields data (data.length + 1) 0 {}
    require .null (left.bytes = [])
    .ok left

/-- what is written, and the result -/
def filestreamLinks : List NodeLink → Exec (List UInt8 × Bool)
  | [] => .ok ([], true)
  | link :: links => do
    match ← exporterGetNode getValue link.hash with
    | none => .ok ([], false)
    | some linkNode => do
      let unixFs ← decodedUnixFs linkNode.data
      let (rest, result) ← filestreamLinks links
      .ok (unixFs.bytes ++ rest, result)

/-- what is written, and the result -/
def exporterToFilestream (hash : List UInt8) : Exec (List UInt8 × Bool) :=
  match cidDecodeHashFromBase58 hash with
  | none => .ok ([], false)
  | some cid => do
    match ← exporterGetNode getValue cid.hash with
    | none => .ok ([], false)
    | some readNode =>
      if readNode.links = [] then do
        let unixFs ← decodedUnixFs readNode.data
        .ok (unixFs.bytes, true)
      else filestreamLinks getValue readNode.links

/-- the links of a node, with `cat` for the recursion, whose result is not looked at -/
def catLinks (cat : HashtableNode → Exec (List UInt8 × Bool)) :
    List NodeLink → Exec (List UInt8 × Bool)
  | [] => .ok ([], true)
  | current :: links => do
    match ← exporterGetNode getValue current.hash with
    | none => .ok ([], false)
    | some childNode => do
      let (written, _) ← cat childNode
      let (rest, result) ← catLinks cat links
      .ok (written ++ rest, result)

/-- what is written, and the result; with fuel for the depth of the recursion -/
def exporterCatNode : Nat → HashtableNode → Exec (List UInt8 × Bool)
  | 0, _ => .error .diverges
  | fuel + 1, node => do
    match ← unixfsProtobufDecode node.data with
    | none => .ok ([], false)
    | some unixFs => do
      let (rest, result) ← catLinks getValue (exporterCatNode fuel) node.links
      .ok (unixFs.bytes ++ rest, result)

/-- what is written, and the result -/
def exporterObjectCatToFile (fuel : Nat) (hash : List UInt8) : Exec (List UInt8 × Bool) := do
  match ← exporterGetNode getValue hash with
  | none => .ok ([], false)
  | some readNode => exporterCatNode getValue fuel readNode

end

/-! ### files that unfold to a tree -/

section
variable {getValue : List UInt8 → Exec (Option (List UInt8))}

mutual

/-- the node of a hash and everything below it unfolds to a finite tree of file nodes -/
inductive Shows (getValue : List UInt8 → Exec (Option (List UInt8))) :
    List UInt8 → FileTree → Prop where
  | missing {hash : List UInt8} (h : exporterGetNode getValue hash = .ok none) :
      Shows getValue hash .missing
  | file {hash : List UInt8} {node : HashtableNode} {unixFs : UnixFS} {children : List FileTree}
      (h : exporterGetNode getValue hash = .ok (some node))
      (hfile : unixfsProtobufDecode node.data = .ok (some unixFs))
      (hlinks : ShowsAll getValue node.links children) :
      Shows getValue hash (.file unixFs.bytes children)

/-- each link to a tree -/
inductive ShowsAll (getValue : List UInt8 → Exec (Option (List UInt8))) :
    List NodeLink → List FileTree → Prop where
  | nil : ShowsAll getValue [] []
  | cons {link : NodeLink} {links : List NodeLink} {t : FileTree} {ts : List FileTree}
      (h : Shows getValue link.hash t) (hs : ShowsAll getValue links ts) :
      ShowsAll getValue (link :: links) (t :: ts)

end

theorem decodedUnixFs_of_some {data : List UInt8} {unixFs : UnixFS}
    (h : unixfsProtobufDecode data = .ok (some unixFs)) : decodedUnixFs data = .ok unixFs := by
  unfold decodedUnixFs
  rw [h, ok_bind]

theorem filestreamLinks_eq {links : List NodeLink} {ts : List FileTree}
    (h : ShowsAll getValue links ts) :
    filestreamLinks getValue links = .ok (FileTree.ownAll ts) := by
  induction ts generalizing links with
  | nil =>
    cases h
    simp [filestreamLinks, FileTree.ownAll]
  | cons t ts ih =>
    cases h with
    | cons h hs =>
      rw [filestreamLinks, FileTree.ownAll]
      cases h with
      | missing h =>
        rw [h]
        rfl
      | file h hfile hlinks =>
        rw [h, ok_bind]
        simp only
        rw [decodedUnixFs_of_some hfile, ok_bind, ih hs, ok_bind]
        rfl

/-- the first exporter computes `filestream` -/
theorem exporterToFilestream_eq {text : List UInt8} {cid : Cid} {t : FileTree}
    (htext : cidDecodeHashFromBase58 text = some cid) (h : Shows getValue cid.hash t) :
    exporterToFilestream getValue text = .ok t.filestream := by
  unfold exporterToFilestream
  rw [htext]
  simp only
  cases h with
  | missing h =>
    rw [h]
    rfl
  | @file hash node unixFs children h hfile hlinks =>
    rw [h, ok_bind]
    simp only
    by_cases hnil : node.links = []
    · rw [if_pos hnil, decodedUnixFs_of_some hfile]
      rw [hnil] at hlinks
      cases hlinks
      rfl
    · rw [if_neg hnil, filestreamLinks_eq hlinks]
      generalize node.links = links at hlinks hnil
      cases hlinks with
      | nil => exact absurd rfl hnil
      | cons h hs => rfl

mutual

/-- the second exporter computes `cat`, with fuel enough -/
theorem exporterCatNode_eq : ∀ (t : FileTree) (hash : List UInt8), Shows getValue hash t →
    ∃ fuel, ∀ k, fuel ≤ k → exporterObjectCatToFile getValue k hash = .ok t.cat
  | .missing, hash, hs => by
    cases hs with
    | missing h =>
      refine ⟨0, fun k _ => ?_⟩
      unfold exporterObjectCatToFile
      rw [h]
      rfl
  | .file bytes children, hash, hs => by
    cases hs with
    | @file hash node unixFs children h hfile hlinks =>
      obtain ⟨fuel, hcat⟩ := catLinks_eq children node.links hlinks
      refine ⟨fuel + 1, fun k hk => ?_⟩
      obtain ⟨k, rfl⟩ : ∃ j, k = j + 1 := ⟨k - 1, by omega⟩
      unfold exporterObjectCatToFile
      rw [h, ok_bind]
      simp only
      rw [exporterCatNode, hfile, ok_bind]
      simp only
      rw [hcat k (by omega), ok_bind, FileTree.cat]

theorem catLinks_eq : ∀ (ts : List FileTree) (links : List NodeLink), ShowsAll getValue links ts →
    ∃ fuel, ∀ k, fuel ≤ k →
      catLinks getValue (exporterCatNode getValue k) links = .ok (FileTree.catAll ts)
  | [], links, hs => by
    cases hs
    refine ⟨0, fun k _ => ?_⟩
    simp [catLinks, FileTree.catAll]
  | t :: ts, links, hs => by
    cases hs with
    | @cons link links t ts h hs =>
      obtain ⟨fuel, hcat⟩ := exporterCatNode_eq t link.hash h
      obtain ⟨fuel', hrest⟩ := catLinks_eq ts links hs
      refine ⟨max fuel fuel', fun k hk => ?_⟩
      have hcat := hcat k (le_trans (le_max_left _ _) hk)
      rw [catLinks, FileTree.catAll]
      unfold exporterObjectCatToFile at hcat
      cases h with
      | missing h =>
        rw [h]
        rfl
      | @file hash node unixFs children h hfile hlinks =>
        rw [h, ok_bind] at hcat
        rw [h, ok_bind]
        simp only at hcat ⊢
        rw [hcat, ok_bind, hrest k (le_trans (le_max_right _ _) hk)]
        rfl

end

/-! ### when they agree -/

/-- both write the same and report the same, and success exactly where nothing is missing -/
def ExportersAgree (getValue : List UInt8 → Exec (Option (List UInt8))) (text hash : List UInt8)
    (t : FileTree) : Prop :=
  ∃ written result, exporterToFilestream getValue text = .ok (written, result) ∧
    (∃ fuel, ∀ k, fuel ≤ k →
      exporterObjectCatToFile getValue k hash = .ok (written, result)) ∧
    (result = true ↔ t.complete = true)

theorem exportersAgree_iff_cat {text : List UInt8} {cid : Cid} {t : FileTree}
    (htext : cidDecodeHashFromBase58 text = some cid) (h : Shows getValue cid.hash t) :
    ExportersAgree getValue text cid.hash t ↔
      t.cat.1 = t.filestream.1 ∧ (t.cat.2 = true ↔ t.complete = true) := by
  have hstream := exporterToFilestream_eq htext h
  obtain ⟨fuel, hcat⟩ := exporterCatNode_eq t cid.hash h
  refine ⟨fun hagree => ?_, fun hsame => ?_⟩
  · obtain ⟨written, result, hstream', ⟨fuel', hcat'⟩, hcomplete⟩ := hagree
    have hcat := hcat (max fuel fuel') (le_max_left _ _)
    rw [hcat' _ (le_max_right _ _), Except.ok.injEq] at hcat
    rw [hstream', Except.ok.injEq] at hstream
    rw [← hstream, ← hcat]
    exact ⟨rfl, hcomplete⟩
  · obtain ⟨hbytes, hresult⟩ := hsame
    have hpair : t.filestream = t.cat := Prod.ext hbytes.symm (FileTree.cat_snd t).symm
    rw [hpair] at hstream
    exact ⟨t.cat.1, t.cat.2, hstream, ⟨fuel, hcat⟩, hresult⟩

/-- **when the exporters agree on a file**: its bytes are one level below the root, or in a root
without links, and what is missing is missing there -/
theorem exportersAgree_iff {text : List UInt8} {cid : Cid} {t : FileTree}
    (htext : cidDecodeHashFromBase58 text = some cid) (h : Shows getValue cid.hash t) :
    ExportersAgree getValue text cid.hash t ↔ t.OneLevel ∧ t.MissingAtFirst := by
  rw [exportersAgree_iff_cat htext h, FileTree.cat_fst_eq, FileTree.cat_snd_iff]

end

/-! ### a file of two levels -/

/-- a file node with one byte, or none, and a link to each of the hashes -/
def smallNode (bytes : List UInt8) (hashes : List (List UInt8)) : HashtableNode where
  data := unixfsBytes { dataType := unixfsFile, bytes := bytes }
  links := hashes.map fun hash => { hash := hash }

def smallRoot : List UInt8 := List.replicate 32 1

/-- a root, a node with the byte `a`, and in between a node without bytes -/
def smallStore (hash : List UInt8) : Exec (Option (List UInt8)) :=
  if hash = smallRoot then .ok (some (nodeBytes (smallNode [] [[2]])))
  else if hash = [2] then .ok (some (nodeBytes (smallNode [] [[3]])))
  else if hash = [3] then .ok (some (nodeBytes (smallNode [97] [])))
  else .ok none

theorem smallStore_leaf : Shows smallStore [3] (.file [97] []) := by
  have hnode : exporterGetNode smallStore [3] =
      .ok (some { smallNode [97] [] with hash := some [3] }) := by decide +kernel
  have hfile : unixfsProtobufDecode (smallNode [97] []).data =
      .ok (some { dataType := unixfsFile, bytes := [97] }) := by decide +kernel
  exact Shows.file hnode hfile ShowsAll.nil

theorem smallStore_middle : Shows smallStore [2] (.file [] [.file [97] []]) := by
  have hnode : exporterGetNode smallStore [2] =
      .ok (some { smallNode [] [[3]] with hash := some [2] }) := by decide +kernel
  have hfile : unixfsProtobufDecode (smallNode [] [[3]]).data =
      .ok (some { dataType := unixfsFile }) := by decide +kernel
  exact Shows.file hnode hfile (ShowsAll.cons smallStore_leaf ShowsAll.nil)

theorem smallStore_root : Shows smallStore smallRoot (.file [] [.file [] [.file [97] []]]) := by
  have hnode : exporterGetNode smallStore smallRoot =
      .ok (some { smallNode [] [[2]] with hash := some smallRoot }) := by decide +kernel
  have hfile : unixfsProtobufDecode (smallNode [] [[2]]).data =
      .ok (some { dataType := unixfsFile }) := by decide +kernel
  exact Shows.file hnode hfile (ShowsAll.cons smallStore_middle ShowsAll.nil)

theorem exportersAgree_iff_two_levels : ∃ text cid, cidDecodeHashFromBase58 text = some cid ∧
    (ExportersAgree smallStore text cid.hash (.file [] [.file [] [.file [97] []]]) ↔
      FileTree.OneLevel (.file [] [.file [] [.file [97] []]]) ∧
        FileTree.MissingAtFirst (.file [] [.file [] [.file [97] []]])) := by
  obtain ⟨text, -, htext⟩ := cidDecodeHashFromBase58_hashText (show smallRoot.length = 32 from rfl)
  exact ⟨text, _, htext, exportersAgree_iff htext smallStore_root⟩

/-- the byte is below the first level: one exporter writes it, the other one nothing -/
theorem not_exportersAgree_two_levels : ¬ ∀ getValue text cid t,
    cidDecodeHashFromBase58 text = some cid → Shows getValue cid.hash t →
      ExportersAgree getValue text cid.hash t := by
  intro h
  obtain ⟨text, -, htext⟩ := cidDecodeHashFromBase58_hashText (show smallRoot.length = 32 from rfl)
  have hagree := h smallStore text _ _ htext smallStore_root
  have hwritten := ((exportersAgree_iff_cat htext smallStore_root).1 hagree).1
  simp [FileTree.cat, FileTree.catAll, FileTree.filestream, FileTree.ownAll, FileTree.isMissing,
    FileTree.ownBytes] at hwritten

end Ipfs