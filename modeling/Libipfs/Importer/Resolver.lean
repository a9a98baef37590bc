import Libipfs.Blocks.Cid
import Libipfs.Lib.Scan
import Libipfs.Merkledag.Merkledag
import Libipfs.Unixfs.UnixFs

/-!
# Resolving a path

`ipfs_resolver_get` looks for the node at the end of a path: the first part is the hash of a stored
node, and each of the others the name of a link of the node before it.

* `resolverNextPath`, `resolverRemovePathPrefix`, `resolverIsRemote`   the parts of a path;
* `resolverGet`           the search;
* `Dag`                   the nodes below a stored node;
* `Dag.follow`            the node that a list of names leads to;
* `Dag.Reaches`           when the search gets there;
* `resolverGet_iff`       **it returns that node in exactly this case**.

The last part of a path keeps the slash in front of it when the search gets there through a link,
and whatever comes behind the second link is dropped.
-/

namespace Ipfs
open CSem Libp2p

/-- what the search uses of `struct IpfsNode`; the answer of another peer is a parameter -/
structure ResolverNode where
  repo : Repo
  peerId : List UInt8
  remoteGet : List UInt8 → Exec (Option HashtableNode)

def slash : UInt8 := 47

/-! ## the parts of a path -/

/-- up to the next slash; the whole path, with the slashes in front, when there is none -/
def resolverNextPath (path : List UInt8) : Option (List UInt8) :=
  match path.dropWhile (· = slash) with
  | [] => none
  | b :: rest => if slash ∈ rest then some (b :: rest.takeWhile (· ≠ slash)) else some path

/-- `"ipfs"` and `"ipns"` -/
def ipfsWord : List UInt8 := [105, 112, 102, 115]
def ipnsWord : List UInt8 := [105, 112, 110, 115]

/-- `path` is what is behind `pos`, and `first` stands for `first_non_slash == -1`; the loop itself
has no end, and the id of the own peer is skipped with the byte behind it -/
def resolverRemovePathPrefixFrom (peerId : List UInt8) :
    Nat → Bool → List UInt8 → Exec (List UInt8)
  | 0, _, _ => .error .diverges
  | fuel + 1, first, path =>
      if path.head? = some slash then resolverRemovePathPrefixFrom peerId fuel first (path.drop 1)
      else if first ∧ (ipfsWord <+: path ∨ ipnsWord <+: path) then
        resolverRemovePathPrefixFrom peerId fuel false (path.drop 4)
      else if peerId <+: path then do
        require .outOfBounds (peerId.length < path.length)
        resolverRemovePathPrefixFrom peerId fuel false (path.drop (peerId.length + 1))
      else .ok path

/-- every round takes a byte at least -/
def resolverRemovePathPrefix (peerId path : List UInt8) : Exec (List UInt8) :=
  resolverRemovePathPrefixFrom peerId (path.length + 1) true path

/-- the path has a word in front, and behind it a hash that is not the own peer's id -/
def resolverIsRemote (peerId path : List UInt8) : Bool :=
  let rest := path.dropWhile (· = slash)
  (ipfsWord ++ [slash] <+: rest ∨ ipnsWord ++ [slash] <+: rest) ∧
    [81, 109] <+: rest.drop 5 ∧ ¬ peerId <+: rest.drop 5

/-! ## the search -/

def hashtableNodeIsDirectory (node : HashtableNode) : Exec Bool :=
  if node.data.length < 2 then .ok false
  else do
    match ← unixfsProtobufDecode node.data with
    | none => .ok false
    | some unixFs => .ok (unixFs.dataType == unixfsDirectory)

/-- `strcmp` reads the name, which may be null -/
def NodeLink.isNamed (pathSection : List UInt8) (link : NodeLink) : Exec Bool := do
  let name ← deref link.name
  .ok (cString name == pathSection)

/-- the digest is as long as the multihash says -/
def mhMultihashDigest (multihash : List UInt8) : Exec (Option (List UInt8)) :=
  if multihash.length < 3 ∨ 128 ≤ (multihash.getD 0 0).toNat ∨
      128 ≤ (multihash.getD 1 0).toNat ∨ (multihash.getD 1 0).toNat < 1 then .ok none
  else do
    require .outOfBounds ((multihash.getD 1 0).toNat ≤ (multihash.drop 2).length)
    .ok (some ((multihash.drop 2).take (multihash.getD 1 0).toNat))

def merkledagGetByMultihash (multihash : List UInt8) (repo : Repo) :
    Exec (Option HashtableNode) := do
  match ← mhMultihashDigest multihash with
  | none => .ok none
  | some hash => merkledagGet hash repo

/-- the node behind the first link of a directory that has the name -/
def resolverFollowLink (repo : Repo) (pathSection : List UInt8) (node : HashtableNode) :
    Exec (Option HashtableNode) := do
  match ← hashtableNodeIsDirectory node with
  | false => .ok none
  | true =>
    match ← scan (·.isNamed pathSection) node.links with
    | none => .ok none
    | some i =>
      match node.links[i]? with
      | none => .error .outOfBounds
      | some link => merkledagGet link.hash repo

/-- `ipfs_resolver_get` with a node to start from; the part it goes on with is only set when there
is another one -/
def resolverGetFrom (repo : Repo) : Nat → List UInt8 → HashtableNode → Exec (Option HashtableNode)
  | 0, _, _ => .error .diverges
  | fuel + 1, path, node =>
      match resolverNextPath path with
      | none => .ok none
      | some pathSection => do
        match ← resolverFollowLink repo pathSection node with
        | none => .ok none
        | some currentNode =>
          if pathSection.length = path.length then .ok (some currentNode)
          else
            match resolverNextPath (path.drop pathSection.length) with
            | none => .error .uninitialized
            | some nextPathSection => resolverGetFrom repo fuel nextPathSection currentNode

/-- the first time around: the node whose hash is in front of the path -/
def resolverGetRoot (repo : Repo) (path : List UInt8) : Exec (Option HashtableNode) :=
  match resolverNextPath path with
  | none => .ok none
  | some pathSection =>
      if pathSection.getD 0 0 = 81 ∧ pathSection.getD 1 0 = 109 then
        match cryptoEncodingBase58Decode pathSection
            (cryptoEncodingBase58DecodeSize pathSection.length) with
        | none => .ok none
        | some hash => do
          match ← merkledagGetByMultihash hash repo with
          | none => .ok none
          | some node =>
            if pathSection.length = path.length then .ok (some node)
            else resolverGetFrom repo (path.length + 1) (path.drop (pathSection.length + 1)) node
      else .ok none

/-- `ipfs_resolver_get` without a node to start from -/
def resolverGet (ipfsNode : ResolverNode) (path : List UInt8) : Exec (Option HashtableNode) :=
  if resolverIsRemote ipfsNode.peerId path then ipfsNode.remoteGet path
  else resolverRemovePathPrefix ipfsNode.peerId path >>= resolverGetRoot ipfsNode.repo

/-! ## what a path means -/

/-- the nodes below a stored node: what is stored under their hashes and those of their links, which
lead further down -/
structure Dag (repo : Repo) where
  has : List UInt8 → Prop
  stored : List UInt8 → Option HashtableNode
  depth : List UInt8 → Nat
  get : ∀ hash, has hash → merkledagGet hash repo = .ok (stored hash)
  links : ∀ hash node, has hash → stored hash = some node →
    ∀ link ∈ node.links, has link.hash ∧ depth link.hash < depth hash

/-- the path behind the root -/
def pathOf (segments : List (List UInt8)) : List UInt8 :=
  segments.flatMap fun segment => slash :: segment

def HashtableNode.IsDirectory (node : HashtableNode) : Prop :=
  hashtableNodeIsDirectory node = .ok true

instance (node : HashtableNode) : Decidable node.IsDirectory :=
  inferInstanceAs (Decidable (hashtableNodeIsDirectory node = .ok true))

def NodeLink.HasName (link : NodeLink) (segment : List UInt8) : Prop :=
  link.name.map cString = some segment

instance (link : NodeLink) (segment : List UInt8) : Decidable (link.HasName segment) :=
  inferInstanceAs (Decidable (link.name.map cString = some segment))

section
variable {repo : Repo}

/-- the node that a directory's first link of the name leads to -/
def Dag.step (dag : Dag repo) (node : HashtableNode) (segment : List UInt8) :
    Option HashtableNode :=
  if node.IsDirectory then
    (node.links.find? fun link => link.HasName segment).bind fun link => dag.stored link.hash
  else none

def Dag.follow (dag : Dag repo) (node : HashtableNode) (segments : List (List UInt8)) :
    Option HashtableNode :=
  segments.foldlM dag.step node

/-! ## when the search finds it -/

/-- the data of the node can be decoded, and when it is a directory no link without a name is in
front of the first one of that name -/
def HashtableNode.Searchable (node : HashtableNode) (segment : List UInt8) : Prop :=
  Safe (hashtableNodeIsDirectory node) ∧
    (node.IsDirectory → ∀ i link, node.links[i]? = some link →
      (∀ earlier ∈ node.links.take i, ¬ earlier.HasName segment) → link.name ≠ none)

/-- behind the first name there is another one only when nothing is found under either: the last
part of the path is looked for with its slash, and no third one is looked for -/
def Dag.Reaches (dag : Dag repo) (node : HashtableNode) : List (List UInt8) → Prop
  | [] => True
  | [a] => node.Searchable a
  | [a, b] => node.Searchable a ∧ ∀ child, dag.step node a = some child →
      child.Searchable (slash :: b) ∧ dag.step child (slash :: b) = dag.step child b
  | a :: b :: _ => node.Searchable a ∧ ∀ child, dag.step node a = some child →
      child.Searchable b ∧ dag.step child b = none

end

/-! ## the parts of a path, part by part -/

section
variable {path rest segment peerId : List UInt8}

theorem dropWhile_slash (hne : segment ≠ []) (h : slash ∉ segment) (rest : List UInt8) :
    (segment ++ rest).dropWhile (· = slash) = segment ++ rest := by
  cases segment with
  | nil => exact absurd rfl hne
  | cons b segment =>
    have hb : b ≠ slash := fun he => h (he ▸ List.mem_cons_self)
    exact List.dropWhile_cons_of_neg (by simp [hb])

theorem resolverNextPath_last (hne : segment ≠ []) (h : slash ∉ segment) :
    resolverNextPath segment = some segment := by
  have hdrop := dropWhile_slash hne h []
  rw [List.append_nil] at hdrop
  unfold resolverNextPath
  rw [hdrop]
  cases segment with
  | nil => exact absurd rfl hne
  | cons b segment => exact if_neg fun hmem => h (List.mem_cons_of_mem b hmem)

theorem takeWhile_slash {l : List UInt8} (h : slash ∉ l) (rest : List UInt8) :
    (l ++ slash :: rest).takeWhile (· ≠ slash) = l := by
  have hall : ∀ b ∈ l, decide (b ≠ slash) = true := by
    intro b hb
    exact decide_eq_true fun he => h (he ▸ hb)
  rw [List.takeWhile_append_of_pos hall, List.takeWhile_cons_of_neg (by simp), List.append_nil]

theorem resolverNextPath_more (hne : segment ≠ []) (h : slash ∉ segment) (rest : List UInt8) :
    resolverNextPath (segment ++ slash :: rest) = some segment := by
  unfold resolverNextPath
  rw [dropWhile_slash hne h]
  cases segment with
  | nil => exact absurd rfl hne
  | cons b segment =>
    have htake := takeWhile_slash (fun hmem => h (List.mem_cons_of_mem b hmem)) rest
    show (if slash ∈ segment ++ slash :: rest then
      some (b :: (segment ++ slash :: rest).takeWhile (· ≠ slash)) else _) = _
    rw [if_pos (List.mem_append_right _ List.mem_cons_self), htake]

/-- a slash in front does not matter, unless there is none behind -/
theorem resolverNextPath_slash_more (hne : segment ≠ []) (h : slash ∉ segment)
    (rest : List UInt8) :
    resolverNextPath (slash :: (segment ++ slash :: rest)) = some segment := by
  rw [← resolverNextPath_more hne h rest]
  unfold resolverNextPath
  rw [List.dropWhile_cons_of_pos (by simp), dropWhile_slash hne h]
  cases segment with
  | nil => exact absurd rfl hne
  | cons b segment =>
    have hmem : slash ∈ segment ++ slash :: rest :=
      List.mem_append_right _ List.mem_cons_self
    show (if slash ∈ segment ++ slash :: rest then _ else _) =
      (if slash ∈ segment ++ slash :: rest then _ else _)
    rw [if_pos hmem, if_pos hmem]

theorem resolverNextPath_slash_last (hne : segment ≠ []) (h : slash ∉ segment) :
    resolverNextPath (slash :: segment) = some (slash :: segment) := by
  have hdrop := dropWhile_slash hne h []
  rw [List.append_nil] at hdrop
  unfold resolverNextPath
  rw [List.dropWhile_cons_of_pos (by simp), hdrop]
  cases segment with
  | nil => exact absurd rfl hne
  | cons b segment => exact if_neg fun hmem => h (List.mem_cons_of_mem b hmem)

end

/-! ## one link -/

section
variable {repo : Repo} {dag : Dag repo} {node child : HashtableNode} {segment hash : List UInt8}
variable {segments : List (List UInt8)} {link : NodeLink}

theorem NodeLink.isNamed_eq_true : link.isNamed segment = .ok true ↔ link.HasName segment := by
  unfold NodeLink.isNamed NodeLink.HasName
  cases link.name with
  | none => simp
  | some name => simp

theorem NodeLink.isNamed_eq_false :
    link.isNamed segment = .ok false ↔ link.name ≠ none ∧ ¬ link.HasName segment := by
  unfold NodeLink.isNamed NodeLink.HasName
  cases link.name with
  | none => simp
  | some name => simp

theorem NodeLink.safe_isNamed : Safe (link.isNamed segment) ↔ link.name ≠ none := by
  unfold NodeLink.isNamed
  cases link.name with
  | none => simp
  | some name => simp

/-- the loop gets to the first link of the name when none in front of it is nameless -/
theorem safe_scan_isNamed {links : List NodeLink} : Safe (scan (·.isNamed segment) links) ↔
    ∀ i link, links[i]? = some link → (∀ earlier ∈ links.take i, ¬ earlier.HasName segment) →
      link.name ≠ none := by
  rw [safe_scan]
  constructor
  · intro h i
    -- the links in front of one are named by induction
    induction i using Nat.strong_induction_on with
    | h i ih =>
      intro link hlink hbefore
      apply NodeLink.safe_isNamed.1
      apply h i link hlink
      intro earlier hearlier
      refine NodeLink.isNamed_eq_false.2 ⟨?_, hbefore earlier hearlier⟩
      obtain ⟨j, hj⟩ := List.mem_iff_getElem?.1 hearlier
      rw [List.getElem?_take] at hj
      split at hj
      · rename_i hji
        apply ih j hji earlier hj
        intro y hy
        exact hbefore y (List.take_subset_take_left links hji.le hy)
      · cases hj
  · intro h i link hlink hbefore
    apply NodeLink.safe_isNamed.2
    apply h i link hlink
    intro earlier hearlier
    exact (NodeLink.isNamed_eq_false.1 (hbefore earlier hearlier)).2

theorem find?_of_first {α : Type} {p : α → Bool} {xs : List α} {i : Nat} {x : α}
    (hx : xs[i]? = some x) (hp : p x = true) (hbefore : ∀ y ∈ xs.take i, p y = false) :
    xs.find? p = some x := by
  obtain ⟨hi, hget⟩ := List.getElem?_eq_some_iff.1 hx
  refine List.find?_eq_some_iff_append.2 ⟨hp, xs.take i, xs.drop (i + 1), ?_, ?_⟩
  · rw [← hget, List.getElem_cons_drop, List.take_append_drop]
  · intro y hy
    rw [hbefore y hy]
    rfl

/-- the first link of the name, as the loop finds it -/
theorem find?_of_scan {links : List NodeLink} {found : Option Nat}
    (h : scan (·.isNamed segment) links = .ok found) :
    (links.find? fun link => link.HasName segment) = found.bind fun i => links[i]? := by
  cases found with
  | none =>
    apply List.find?_eq_none.2
    intro link hlink
    have hfalse := NodeLink.isNamed_eq_false.1 (scan_eq_none.1 h link hlink)
    simp [hfalse.2]
  | some i =>
    obtain ⟨link, hlink, htrue, hbefore⟩ := scan_eq_some.1 h
    have hfind : (links.find? fun link => link.HasName segment) = some link := by
      refine find?_of_first hlink (decide_eq_true (NodeLink.isNamed_eq_true.1 htrue)) ?_
      intro earlier hearlier
      exact decide_eq_false (NodeLink.isNamed_eq_false.1 (hbefore earlier hearlier)).2
    rw [hfind]
    exact hlink.symm

/-- the node is stored under the hash -/
def Dag.At (dag : Dag repo) (hash : List UInt8) (node : HashtableNode) : Prop :=
  dag.has hash ∧ dag.stored hash = some node

/-- **a link is followed iff the loop gets to it** -/
theorem resolverFollowLink_of_searchable (h : dag.At hash node) (hs : node.Searchable segment) :
    resolverFollowLink repo segment node = .ok (dag.step node segment) := by
  obtain ⟨directory, hdirectory⟩ := hs.1
  unfold resolverFollowLink Dag.step
  rw [hdirectory, ok_bind]
  cases directory with
  | false =>
    have hnot : ¬ node.IsDirectory := by
      intro hcon
      cases hdirectory.symm.trans hcon
    rw [if_neg hnot]
  | true =>
    have hd : node.IsDirectory := hdirectory
    obtain ⟨found, hfound⟩ := safe_scan_isNamed.2 (hs.2 hd)
    rw [if_pos hd, find?_of_scan hfound]
    dsimp only
    rw [hfound, ok_bind]
    cases found with
    | none => rfl
    | some i =>
      obtain ⟨link, hlink, -⟩ := scan_eq_some.1 hfound
      have hlinks := dag.links hash node h.1 h.2 link (List.mem_of_getElem? hlink)
      have hget := dag.get link.hash hlinks.1
      simp only [Option.bind_some, hlink]
      exact hget

theorem searchable_of_safe (h : Safe (resolverFollowLink repo segment node)) :
    node.Searchable segment := by
  obtain ⟨directory, hdirectory, h⟩ := safe_bind.1 h
  refine ⟨⟨directory, hdirectory⟩, fun hd => ?_⟩
  obtain rfl : directory = true := Except.ok.inj (hdirectory.symm.trans hd)
  exact safe_scan_isNamed.1 (Safe.of_bind h)

/-! ## further down -/

theorem Dag.At.step (h : dag.At hash node) (hstep : dag.step node segment = some child) :
    ∃ hash', dag.At hash' child ∧ dag.depth hash' < dag.depth hash := by
  unfold Dag.step at hstep
  split at hstep
  · obtain ⟨link, hlink, hchild⟩ := Option.bind_eq_some_iff.1 hstep
    obtain ⟨hhas, hdepth⟩ := dag.links hash node h.1 h.2 link (List.mem_of_find?_eq_some hlink)
    exact ⟨link.hash, ⟨hhas, hchild⟩, hdepth⟩
  · cases hstep

@[simp] theorem Dag.follow_nil : dag.follow node [] = some node := rfl

@[simp] theorem Dag.follow_cons : dag.follow node (segment :: segments) =
    (dag.step node segment).bind fun child => dag.follow child segments := rfl

theorem Dag.At.follow (h : dag.At hash node)
    (hfollow : dag.follow node segments = some child) :
    ∃ hash', dag.At hash' child ∧ dag.depth hash' + segments.length ≤ dag.depth hash := by
  induction segments generalizing hash node with
  | nil =>
    obtain rfl := Option.some.inj hfollow
    exact ⟨hash, h, le_refl _⟩
  | cons segment segments ih =>
    obtain ⟨next, hnext, hrest⟩ := Option.bind_eq_some_iff.1 hfollow
    obtain ⟨hash₁, h₁, hlt⟩ := h.step hnext
    obtain ⟨hash₂, h₂, hle⟩ := ih h₁ hrest
    refine ⟨hash₂, h₂, ?_⟩
    rw [List.length_cons]
    omega

/-- **no path leads back to where it starts**; by induction on the depth -/
theorem Dag.At.follow_ne (h : dag.At hash node) (hne : segments ≠ []) :
    dag.follow node segments ≠ some node := by
  intro hfollow
  induction hd : dag.depth hash using Nat.strong_induction_on generalizing hash with
  | h d ih =>
    obtain ⟨hash', h', hle⟩ := h.follow hfollow
    have hpos := List.length_pos_of_ne_nil hne
    exact ih (dag.depth hash') (by omega) h' rfl

/-! ## the search, part by part -/

/-- at the last part -/
theorem resolverGetFrom_last {path : List UInt8} (fuel : Nat) (node : HashtableNode)
    (h : resolverNextPath path = some path) :
    resolverGetFrom repo (fuel + 1) path node = resolverFollowLink repo path node := by
  unfold resolverGetFrom
  rw [h]
  dsimp only
  cases resolverFollowLink repo path node with
  | error e => rfl
  | ok found =>
    cases found with
    | none => rfl
    | some child => exact if_pos rfl

/-- in front of another part -/
theorem resolverGetFrom_more {path next : List UInt8} (fuel : Nat) (node : HashtableNode)
    (h : resolverNextPath path = some segment) (hlength : segment.length ≠ path.length)
    (hnext : resolverNextPath (path.drop segment.length) = some next) :
    resolverGetFrom repo (fuel + 1) path node =
      resolverFollowLink repo segment node >>= fun found =>
        match found with
        | none => .ok none
        | some child => resolverGetFrom repo fuel next child := by
  unfold resolverGetFrom
  rw [h]
  dsimp only
  cases resolverFollowLink repo segment node with
  | error e => rfl
  | ok found =>
    cases found with
    | none => rfl
    | some child =>
      simp only [ok_bind, hnext]
      rw [if_neg hlength]
      cases fuel <;> rfl

/-- a name in a path -/
def Segment (segment : List UInt8) : Prop := segment ≠ [] ∧ slash ∉ segment

/-- one name -/
theorem resolverGetFrom_one_iff (fuel : Nat) (h : dag.At hash node) {a : List UInt8}
    (ha : Segment a) :
    resolverGetFrom repo (fuel + 1) a node = .ok (dag.step node a) ↔ node.Searchable a := by
  rw [resolverGetFrom_last fuel node (resolverNextPath_last ha.1 ha.2)]
  constructor
  · intro hrun
    exact searchable_of_safe ⟨_, hrun⟩
  · exact resolverFollowLink_of_searchable h

/-- a name, and what the search makes of the rest -/
theorem bind_step_iff (h : dag.At hash node) {a : List UInt8}
    {next : HashtableNode → Exec (Option HashtableNode)}
    {meant : HashtableNode → Option HashtableNode} :
    (resolverFollowLink repo a node >>= fun found =>
        match found with
        | none => .ok none
        | some child => next child) = .ok ((dag.step node a).bind meant) ↔
      node.Searchable a ∧
        ∀ child, dag.step node a = some child → next child = .ok (meant child) := by
  constructor
  · intro hrun
    have hs : node.Searchable a := by
      obtain ⟨found, hfound, -⟩ := bind_eq_ok.1 hrun
      exact searchable_of_safe ⟨found, hfound⟩
    rw [resolverFollowLink_of_searchable h hs, ok_bind] at hrun
    refine ⟨hs, fun child hchild => ?_⟩
    rw [hchild] at hrun
    exact hrun
  · intro hmeant
    obtain ⟨hs, hmeant⟩ := hmeant
    rw [resolverFollowLink_of_searchable h hs, ok_bind]
    cases hstep : dag.step node a with
    | none => rfl
    | some child => exact hmeant child hstep

/-- two names: the second one is looked for with its slash -/
theorem resolverGetFrom_two_iff (fuel : Nat) (h : dag.At hash node) {a b : List UInt8}
    (ha : Segment a) (hb : Segment b) :
    resolverGetFrom repo (fuel + 2) (a ++ slash :: b) node = .ok (dag.follow node [a, b]) ↔
      dag.Reaches node [a, b] := by
  have hdrop : (a ++ slash :: b).drop a.length = slash :: b := List.drop_left
  rw [resolverGetFrom_more (fuel + 1) node (resolverNextPath_more ha.1 ha.2 b)
    (by simp) (by rw [hdrop]; exact resolverNextPath_slash_last hb.1 hb.2)]
  have hfollow : dag.follow node [a, b] =
      (dag.step node a).bind fun child => dag.step child b := by
    rw [Dag.follow_cons]
    congr
    funext child
    rw [Dag.follow_cons]
    cases dag.step child b <;> rfl
  rw [hfollow, bind_step_iff h]
  show node.Searchable a ∧ _ ↔ node.Searchable a ∧ _
  refine and_congr_right fun hs => forall_congr' fun child => imp_congr_right fun hchild => ?_
  obtain ⟨hash', h', -⟩ := h.step hchild
  rw [resolverGetFrom_last fuel child (resolverNextPath_slash_last hb.1 hb.2)]
  constructor
  · intro hrun
    have hsearch := searchable_of_safe ⟨_, hrun⟩
    rw [resolverFollowLink_of_searchable h' hsearch] at hrun
    exact ⟨hsearch, Except.ok.inj hrun⟩
  · intro hreach
    rw [resolverFollowLink_of_searchable h' hreach.1, hreach.2]

/-- three names and more: what is behind the second one is not looked for -/
theorem resolverGetFrom_more_iff (fuel : Nat) (h : dag.At hash node) {a b c : List UInt8}
    (ha : Segment a) (hb : Segment b) (rest : List (List UInt8)) :
    resolverGetFrom repo (fuel + 2) (a ++ pathOf (b :: c :: rest)) node =
        .ok (dag.follow node (a :: b :: c :: rest)) ↔
      dag.Reaches node (a :: b :: c :: rest) := by
  have hpath : pathOf (b :: c :: rest) = slash :: (b ++ slash :: (c ++ pathOf rest)) := by
    show slash :: b ++ (slash :: c ++ pathOf rest) = _
    simp
  have hdrop : (a ++ pathOf (b :: c :: rest)).drop a.length = pathOf (b :: c :: rest) :=
    List.drop_left
  have hnext : resolverNextPath (pathOf (b :: c :: rest)) = some b := by
    rw [hpath]
    exact resolverNextPath_slash_more hb.1 hb.2 _
  have hfirst : resolverNextPath (a ++ pathOf (b :: c :: rest)) = some a := by
    rw [hpath]
    exact resolverNextPath_more ha.1 ha.2 _
  rw [resolverGetFrom_more (fuel + 1) node hfirst (by rw [hpath]; simp) (by rw [hdrop, hnext]),
    Dag.follow_cons, bind_step_iff h]
  show node.Searchable a ∧ _ ↔ node.Searchable a ∧ _
  refine and_congr_right fun hs => forall_congr' fun child => imp_congr_right fun hchild => ?_
  obtain ⟨hash₁, h₁, -⟩ := h.step hchild
  rw [resolverGetFrom_last fuel child (resolverNextPath_last hb.1 hb.2)]
  constructor
  · intro hrun
    have hsearch := searchable_of_safe ⟨_, hrun⟩
    rw [resolverFollowLink_of_searchable h₁ hsearch] at hrun
    refine ⟨hsearch, ?_⟩
    -- the node behind the second name would be one below itself
    cases hstep : dag.step child b with
    | none => rfl
    | some found =>
      obtain ⟨hash₂, h₂, -⟩ := h₁.step hstep
      have hsame := Except.ok.inj hrun
      rw [Dag.follow_cons, hstep, Option.bind_some] at hsame
      exact absurd hsame.symm (h₂.follow_ne (List.cons_ne_nil c rest))
  · intro hreach
    rw [resolverFollowLink_of_searchable h₁ hreach.1, Dag.follow_cons, hreach.2]
    rfl

end

/-! ## the front of the path -/

/-- what may stand in front of the root: nothing, a slash, or the own peer's id behind a word -/
def PathPrefix (peerId front : List UInt8) : Prop :=
  front = [] ∨ front = [slash] ∨ front = slash :: (ipfsWord ++ slash :: (peerId ++ [slash]))

section
variable {peerId path text : List UInt8}

theorem removePathPrefixFrom_slash (fuel : Nat) (first : Bool) (path : List UInt8) :
    resolverRemovePathPrefixFrom peerId (fuel + 1) first (slash :: path) =
      resolverRemovePathPrefixFrom peerId fuel first path := if_pos rfl

theorem removePathPrefixFrom_word (fuel : Nat) (path : List UInt8) :
    resolverRemovePathPrefixFrom peerId (fuel + 1) true (ipfsWord ++ path) =
      resolverRemovePathPrefixFrom peerId fuel false path := by
  have hhead : (ipfsWord ++ path).head? ≠ some slash := by
    show some (105 : UInt8) ≠ some slash
    decide
  unfold resolverRemovePathPrefixFrom
  rw [if_neg hhead, if_pos ⟨rfl, .inl (List.prefix_append _ _)⟩]
  cases fuel <;> rfl

theorem removePathPrefixFrom_id (fuel : Nat) (path : List UInt8) (hne : peerId ≠ [])
    (hid : slash ∉ peerId) :
    resolverRemovePathPrefixFrom peerId (fuel + 1) false (peerId ++ slash :: path) =
      resolverRemovePathPrefixFrom peerId fuel false path := by
  have hhead : (peerId ++ slash :: path).head? ≠ some slash := by
    cases peerId with
    | nil => exact absurd rfl hne
    | cons b peerId =>
      intro h
      exact hid (Option.some.inj h ▸ List.mem_cons_self)
  have hlength : peerId.length < (peerId ++ slash :: path).length := by
    rw [List.length_append, List.length_cons]
    omega
  have hdrop : (peerId ++ slash :: path).drop (peerId.length + 1) = path := by
    rw [← List.drop_drop, List.drop_left]
    rfl
  unfold resolverRemovePathPrefixFrom
  rw [if_neg hhead, if_neg (by simp), if_pos (List.prefix_append _ _), require_pos hlength, ok_bind,
    hdrop]
  cases fuel <;> rfl

/-- the front of the path has been removed when a hash is in front that is not the own peer's id -/
theorem removePathPrefixFrom_text (fuel : Nat) (first : Bool) (hhead : path.head? = some 81)
    (hpeer : ¬ peerId <+: path) :
    resolverRemovePathPrefixFrom peerId (fuel + 1) first path = .ok path := by
  have hword : ¬ (ipfsWord <+: path ∨ ipnsWord <+: path) := by
    cases path with
    | nil => cases hhead
    | cons b path =>
      obtain rfl := Option.some.inj hhead
      intro h
      rcases h with h | h
      · exact absurd (List.cons_prefix_cons.1 h).1 (by decide)
      · exact absurd (List.cons_prefix_cons.1 h).1 (by decide)
  unfold resolverRemovePathPrefixFrom
  rw [if_neg (by rw [hhead]; decide), if_neg fun h => hword h.2, if_neg hpeer]

theorem resolverRemovePathPrefix_front {front : List UInt8} (hfront : PathPrefix peerId front)
    (hid : slash ∉ peerId) (hhead : path.head? = some 81) (hpeer : ¬ peerId <+: path) :
    resolverRemovePathPrefix peerId (front ++ path) = .ok path := by
  have hne : peerId ≠ [] := by
    intro h
    exact hpeer (h ▸ List.nil_prefix)
  unfold resolverRemovePathPrefix
  rcases hfront with rfl | rfl | rfl
  · exact removePathPrefixFrom_text _ true hhead hpeer
  · rw [List.singleton_append, removePathPrefixFrom_slash]
    exact removePathPrefixFrom_text _ true hhead hpeer
  · have hpath : slash :: (ipfsWord ++ slash :: (peerId ++ [slash])) ++ path =
        slash :: (ipfsWord ++ slash :: (peerId ++ slash :: path)) := by
      simp
    obtain ⟨fuel, hfuel⟩ : ∃ fuel, (slash :: (ipfsWord ++ slash ::
        (peerId ++ slash :: path))).length = fuel + 4 :=
      ⟨(3 + peerId.length + path.length), by simp [ipfsWord]; omega⟩
    rw [hpath, hfuel, removePathPrefixFrom_slash, removePathPrefixFrom_word,
      removePathPrefixFrom_slash, removePathPrefixFrom_id _ _ hne hid]
    exact removePathPrefixFrom_text _ false hhead hpeer

theorem resolverIsRemote_front {front : List UInt8} (hfront : PathPrefix peerId front)
    (hhead : path.head? = some 81) : resolverIsRemote peerId (front ++ path) = false := by
  have hdrop : path.dropWhile (· = slash) = path := by
    cases path with
    | nil => rfl
    | cons b path =>
      obtain rfl := Option.some.inj hhead
      exact List.dropWhile_cons_of_neg (by decide)
  have hword (word : List UInt8) (hw : word.head? = some 105) : ¬ word ++ [slash] <+: path := by
    intro h
    cases word with
    | nil => cases hw
    | cons c word =>
      cases path with
      | nil => cases hhead
      | cons b path =>
        obtain rfl := Option.some.inj hhead
        obtain rfl := Option.some.inj hw
        exact absurd (List.cons_prefix_cons.1 h).1 (by decide)
  unfold resolverIsRemote
  dsimp only
  rcases hfront with rfl | rfl | rfl
  · rw [List.nil_append, hdrop]
    exact decide_eq_false fun h => h.1.elim (hword _ rfl) (hword _ rfl)
  · rw [List.singleton_append, List.dropWhile_cons_of_pos (by simp), hdrop]
    exact decide_eq_false fun h => h.1.elim (hword _ rfl) (hword _ rfl)
  · -- the id behind the word is the own peer's
    apply decide_eq_false
    intro h
    apply h.2.2
    show peerId <+: (slash :: (peerId ++ [slash]) ++ path).drop 1
    exact ⟨[slash] ++ path, by simp⟩

end

/-! ## from the root -/

theorem mhMultihashDigest_of_length {hash : List UInt8} (h : hash.length = 32) :
    mhMultihashDigest (0x12 :: 0x20 :: hash) = .ok (some hash) := by
  have hguard : ¬ ((0x12 :: 0x20 :: hash : List UInt8).length < 3 ∨ 128 ≤ (0x12 : UInt8).toNat ∨
      128 ≤ (0x20 : UInt8).toNat ∨ (0x20 : UInt8).toNat < 1) := by
    simp [h]
  have hlength : (0x20 : UInt8).toNat ≤ hash.length := by
    rw [h]
    decide
  have htake : hash.take (0x20 : UInt8).toNat = hash := List.take_of_length_le (by rw [h]; decide)
  unfold mhMultihashDigest
  refine (if_neg hguard).trans ?_
  show (require .outOfBounds ((0x20 : UInt8).toNat ≤ hash.length) >>= fun _ =>
    .ok (some (hash.take (0x20 : UInt8).toNat))) = (.ok (some hash) : Exec (Option (List UInt8)))
  rw [require_pos hlength, ok_bind, htake]

section
variable {repo : Repo} {dag : Dag repo} {root : HashtableNode} {hash text : List UInt8}
variable {segments : List (List UInt8)}

/-- behind a text the path ends or has a slash, which is not in an id -/
theorem prefix_of_prefix_pathOf {peerId : List UInt8} (hid : slash ∉ peerId)
    (h : peerId <+: text ++ pathOf segments) : peerId <+: text := by
  by_cases hle : peerId.length ≤ text.length
  · exact List.prefix_of_prefix_length_le h (List.prefix_append text _) hle
  · exfalso
    obtain ⟨more, rfl⟩ : text <+: peerId :=
      List.prefix_of_prefix_length_le (List.prefix_append text _) h (by omega)
    obtain ⟨tail, htail⟩ := h
    rw [List.append_assoc, List.append_cancel_left_eq] at htail
    cases more with
    | nil => simp at hle
    | cons b more =>
      cases segments with
      | nil => cases htail
      | cons a segments =>
        obtain rfl : b = slash := (List.cons.inj htail).1
        exact hid (List.mem_append_right _ List.mem_cons_self)

/-- the node under the root's hash, and the search below it -/
theorem resolverGetRoot_eq (h : dag.At hash root) (hlength : hash.length = 32)
    (htext : hashText hash = .ok text) :
    resolverGetRoot repo text = .ok (some root) ∧
      ∀ path, resolverGetRoot repo (text ++ slash :: path) =
        resolverGetFrom repo ((text ++ slash :: path).length + 1) path root := by
  obtain ⟨text', htext', h46, h0, h1, hdecode⟩ := base58Decode_base58Encode hlength
  obtain rfl : text' = text := Except.ok.inj (htext'.symm.trans htext)
  have hsegment : Segment text' := by
    refine ⟨?_, ?_⟩
    · intro he
      rw [he] at h46
      cases h46
    · intro hmem
      obtain ⟨d, hd⟩ := base58Encode_mem htext slash hmem
      exact base58Char_ne_slash d hd.symm
  have hget : merkledagGetByMultihash (0x12 :: 0x20 :: hash) repo = .ok (some root) := by
    unfold merkledagGetByMultihash
    rw [mhMultihashDigest_of_length hlength, ok_bind]
    exact (dag.get hash h.1).trans (congrArg Except.ok h.2)
  have hroot (path : List UInt8) (hnext : resolverNextPath path = some text') :
      resolverGetRoot repo path =
        if text'.length = path.length then .ok (some root)
        else resolverGetFrom repo (path.length + 1) (path.drop (text'.length + 1)) root := by
    unfold resolverGetRoot
    rw [hnext]
    dsimp only
    rw [if_pos ⟨h0, h1⟩, h46, base58DecodeSize_46, hdecode]
    dsimp only
    rw [hget]
    rfl
  refine ⟨?_, fun path => ?_⟩
  · rw [hroot text' (resolverNextPath_last hsegment.1 hsegment.2), if_pos rfl]
  · have hdrop : (text' ++ slash :: path).drop (text'.length + 1) = path := by
      rw [← List.drop_drop, List.drop_left]
      rfl
    rw [hroot _ (resolverNextPath_more hsegment.1 hsegment.2 path), if_neg (by simp), hdrop]

/-- the search below the root, on the path behind it -/
theorem resolverGetRoot_iff (h : dag.At hash root) (hlength : hash.length = 32)
    (htext : hashText hash = .ok text) (hsegments : ∀ segment ∈ segments, Segment segment) :
    resolverGetRoot repo (text ++ pathOf segments) = .ok (dag.follow root segments) ↔
      dag.Reaches root segments := by
  obtain ⟨hend, hmore⟩ := resolverGetRoot_eq h hlength htext
  cases segments with
  | nil =>
    apply iff_of_true _ trivial
    show resolverGetRoot repo (text ++ []) = _
    rw [List.append_nil]
    exact hend
  | cons a segments =>
    have ha : Segment a := hsegments a List.mem_cons_self
    have hpath : text ++ pathOf (a :: segments) = text ++ slash :: (a ++ pathOf segments) := rfl
    obtain ⟨fuel, hfuel⟩ : ∃ fuel,
        (text ++ slash :: (a ++ pathOf segments)).length + 1 = fuel + 2 := by
      refine ⟨text.length + (a ++ pathOf segments).length, ?_⟩
      rw [List.length_append, List.length_cons]
      omega
    rw [hpath, hmore, hfuel]
    cases segments with
    | nil =>
      have hfollow : dag.follow root [a] = dag.step root a := by
        rw [Dag.follow_cons]
        cases dag.step root a <;> rfl
      rw [hfollow]
      show resolverGetFrom repo (fuel + 2) (a ++ []) root = _ ↔ _
      rw [List.append_nil]
      exact resolverGetFrom_one_iff (fuel + 1) h ha
    | cons b segments =>
      have hb : Segment b := hsegments b (List.mem_cons_of_mem a List.mem_cons_self)
      cases segments with
      | nil =>
        show resolverGetFrom repo (fuel + 2) (a ++ (slash :: b ++ [])) root = _ ↔ _
        rw [List.append_nil]
        exact resolverGetFrom_two_iff fuel h ha hb
      | cons c rest => exact resolverGetFrom_more_iff fuel h ha hb rest

end

/-- **a path leads to its node exactly in the cases of `Reaches`** -/
theorem resolverGet_iff (ipfsNode : ResolverNode) (dag : Dag ipfsNode.repo)
    {hash text front : List UInt8} {root : HashtableNode} {segments : List (List UInt8)}
    (h : dag.At hash root) (hlength : hash.length = 32) (htext : hashText hash = .ok text)
    (hfront : PathPrefix ipfsNode.peerId front) (hid : slash ∉ ipfsNode.peerId)
    (hpeer : ¬ ipfsNode.peerId <+: text) (hsegments : ∀ segment ∈ segments, Segment segment) :
    resolverGet ipfsNode (front ++ (text ++ pathOf segments)) = .ok (dag.follow root segments) ↔
      dag.Reaches root segments := by
  obtain ⟨text', htext', h46, h0, h1, -⟩ := base58Decode_base58Encode hlength
  obtain rfl : text' = text := Except.ok.inj (htext'.symm.trans htext)
  have hhead : (text' ++ pathOf segments).head? = some 81 := by
    cases text' with
    | nil => cases h46
    | cons b text' => exact congrArg some h0
  have hpeer' : ¬ ipfsNode.peerId <+: text' ++ pathOf segments := by
    intro hprefix
    exact hpeer (prefix_of_prefix_pathOf hid hprefix)
  unfold resolverGet
  rw [resolverIsRemote_front hfront hhead, if_neg (by simp),
    resolverRemovePathPrefix_front hfront hid hhead hpeer', ok_bind]
  exact resolverGetRoot_iff h hlength htext hsegments

/-! ### a directory in a directory -/

def directoryNode (name child : List UInt8) : HashtableNode where
  data := unixfsBytes { dataType := unixfsDirectory }
  links := [{ hash := child, name := some name }]

def shelfHash (b : UInt8) : List UInt8 := List.replicate 32 b

/-- a directory with a directory `a` with a file `b` -/
def shelf : List (List UInt8 × HashtableNode) :=
  [(shelfHash 1, directoryNode [97] (shelfHash 2)),
   (shelfHash 2, directoryNode [98] (shelfHash 3)),
   (shelfHash 3, { data := unixfsBytes { dataType := unixfsFile, bytes := [99] } })]

def shelfRepo : Repo where
  files name := (shelf.find? fun entry => hashToBase32 entry.1 = .ok (some name)).map fun entry =>
    blockBytes { cid := some (cidNew 1 entry.1 0x70), data := nodeBytes entry.2 }
  datastore hash := (shelf.find? fun entry => entry.1 = hash).map fun _ => []

def shelfStored (hash : List UInt8) : Option HashtableNode :=
  (shelf.find? fun entry => entry.1 = hash).map fun entry => entry.2.setHash hash

def shelfDag : Dag shelfRepo where
  has hash := hash ∈ shelf.map Prod.fst
  stored := shelfStored
  depth hash := 3 - (hash.getD 0 0).toNat
  get := by decide +kernel
  links := by
    have hall : ∀ hash ∈ shelf.map Prod.fst, ∀ node ∈ shelfStored hash, ∀ link ∈ node.links,
        link.hash ∈ shelf.map Prod.fst ∧
          3 - (link.hash.getD 0 0).toNat < 3 - (hash.getD 0 0).toNat := by
      decide
    intro hash node hhas hstored
    exact hall hash hhas node hstored

def shelfRoot : HashtableNode := (directoryNode [97] (shelfHash 2)).setHash (shelfHash 1)

def shelfText : List UInt8 := (hashText (shelfHash 1)).toOption.getD []

/-- a peer with the shelf -/
def shelfPeer : ResolverNode where
  repo := shelfRepo
  peerId := (hashText (shelfHash 9)).toOption.getD []
  remoteGet := fun _ => .ok none

theorem shelfDag_at : shelfDag.At (shelfHash 1) shelfRoot := by
  refine ⟨List.mem_cons_self, ?_⟩
  show shelfStored (shelfHash 1) = some shelfRoot
  decide

theorem shelfText_eq : hashText (shelfHash 1) = .ok shelfText := by
  decide

theorem resolverGet_iff_shelf :
    resolverGet shelfPeer ([slash] ++ (shelfText ++ pathOf [[97]])) =
        .ok (shelfDag.follow shelfRoot [[97]]) ↔
      shelfDag.Reaches shelfRoot [[97]] :=
  resolverGet_iff shelfPeer shelfDag shelfDag_at rfl shelfText_eq (.inr (.inl rfl))
    (by decide) (by decide) (by
      intro segment hsegment
      rw [List.mem_singleton.1 hsegment]
      exact ⟨List.cons_ne_nil _ _, by decide⟩)

/-- the file `b` of the directory `a` is not found -/
theorem not_resolverGet_shelf : ¬ ∀ (ipfsNode : ResolverNode) (dag : Dag ipfsNode.repo)
    (hash text front : List UInt8) (root : HashtableNode) (segments : List (List UInt8)),
    dag.At hash root → hash.length = 32 → hashText hash = .ok text →
      PathPrefix ipfsNode.peerId front → slash ∉ ipfsNode.peerId → ¬ ipfsNode.peerId <+: text →
        (∀ segment ∈ segments, Segment segment) →
          resolverGet ipfsNode (front ++ (text ++ pathOf segments)) =
            .ok (dag.follow root segments) := by
  intro h
  have hsegments : ∀ segment ∈ [[97], [98]], Segment segment := by
    intro segment hsegment
    simp only [List.mem_cons, List.not_mem_nil, or_false] at hsegment
    rcases hsegment with rfl | rfl
    · exact ⟨List.cons_ne_nil _ _, by decide⟩
    · exact ⟨List.cons_ne_nil _ _, by decide⟩
  have hget := h shelfPeer shelfDag (shelfHash 1) shelfText [] shelfRoot [[97], [98]] shelfDag_at
    rfl shelfText_eq (.inl rfl) (by decide) (by decide) hsegments
  have hnull : resolverGet shelfPeer ([] ++ (shelfText ++ pathOf [[97], [98]])) = .ok none := by
    decide +kernel
  have hfile : (shelfDag.follow shelfRoot [[97], [98]]).isSome := by
    decide +kernel
  have hsame : none = shelfDag.follow shelfRoot [[97], [98]] :=
    Except.ok.inj (hnull.symm.trans hget)
  rw [← hsame] at hfile
  cases hfile

end Ipfs
