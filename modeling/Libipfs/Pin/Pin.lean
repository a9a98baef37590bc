import Libipfs.Lib.Search
import Libipfs.Merkledag.Merkledag

/-!
# Looking for what a pin holds

`ipfs_pin_has_child` goes down from a root through the links of the nodes it reads.  It goes on only
to a link whose hash is as long as the one it looks for.

* `pinHasChild`       the recursion, with fuel for its depth;
* `linkHashes`        the graph it goes through;
* `HasChild`          what it is for: the hash is that of the root or of a link below it;
* `pinHasChild_eq_search`   it is the search that enters the hashes of one length only;
* `pinHasChild_iff`   when it is right.
-/

namespace Ipfs
open CSem Libp2p Relation

section
variable (repo : Repo) (child : List UInt8)

/-- what the loop finds at one link, with `below` for the recursion -/
def pinLinkHasChild (below : List UInt8 → Exec Bool) (nodeLink : NodeLink) : Exec Bool := do
  let found ←
    (if nodeLink.hash.length = child.length ∧ nodeLink.hash ≠ child then below nodeLink.hash
    else .ok false)
  .ok (found || decide (nodeLink.hash.length = child.length ∧ nodeLink.hash = child))

/-- `ipfs_pin_has_child`, with fuel for the depth of the recursion -/
def pinHasChild : Nat → List UInt8 → Exec Bool
  | 0, _ => .error .diverges
  | fuel + 1, hash => do
    match ← merkledagGet hash repo with
    | none => .ok false
    | some node =>
      let nodeHash := node.hash.getD []
      if nodeHash.length = child.length ∧ nodeHash = child then .ok true
      else node.links.anyM (pinLinkHasChild child (pinHasChild fuel))

/-- the hashes of the links of the node that is stored under a hash -/
def linkHashes (hash : List UInt8) : Exec (Option (List (List UInt8))) := do
  match ← merkledagGet hash repo with
  | none => .ok none
  | some node => .ok (some (node.links.map NodeLink.hash))

/-- the hash is that of the stored root, or of a link of a stored node that is reached from the root
through stored nodes -/
def HasChild (root : List UInt8) : Prop :=
  (Present (linkHashes repo) root ∧ child = root) ∨
    ∃ hash, Below (linkHashes repo) root hash ∧ Leads (linkHashes repo) hash child

/-- the same way down, along hashes of one length -/
def LeadsAtLength (length : Nat) (hash link : List UInt8) : Prop :=
  Leads (linkHashes repo) hash link ∧ link.length = length

end

section
variable {repo : Repo} {child root hash : List UInt8} {node : HashtableNode}

/-! ## the search -/

theorem linkHashes_of_none (h : merkledagGet hash repo = .ok none) :
    linkHashes repo hash = .ok none := by
  unfold linkHashes
  rw [h]
  rfl

theorem linkHashes_of_some (h : merkledagGet hash repo = .ok (some node)) :
    linkHashes repo hash = .ok (some (node.links.map NodeLink.hash)) := by
  unfold linkHashes
  rw [h]
  rfl

/-- a node that is read has the hash it was looked for under -/
theorem hash_of_merkledagGet (h : merkledagGet hash repo = .ok (some node)) :
    node.hash.getD [] = hash := by
  unfold merkledagGet at h
  cases hrecord : repo.datastore hash with
  | none =>
    rw [hrecord] at h
    cases h
  | some record =>
    rw [hrecord] at h
    obtain ⟨r, -, hr⟩ := bind_eq_ok.1 h
    cases r with
    | none => cases hr
    | some stored =>
      cases hr
      show (if hash = [] then none else some hash).getD [] = hash
      by_cases hnil : hash = []
      · rw [if_pos hnil, hnil]
        rfl
      · rw [if_neg hnil]
        rfl

theorem pinLinkHasChild_eq (below : List UInt8 → Exec Bool) (nodeLink : NodeLink) :
    pinLinkHasChild child below nodeLink =
      if nodeLink.hash = child then .ok true
      else if decide (nodeLink.hash.length = child.length) = true then below nodeLink.hash
      else .ok false := by
  unfold pinLinkHasChild
  by_cases hchild : nodeLink.hash = child
  · simp [hchild]
  · by_cases hlength : nodeLink.hash.length = child.length
    · rw [if_pos ⟨hlength, hchild⟩, if_neg hchild, if_pos (decide_eq_true hlength)]
      cases below nodeLink.hash with
      | error e => rfl
      | ok found => simp [hchild]
    · simp [hchild, hlength]

/-- **the function is the search** that enters the hashes as long as the child's -/
theorem pinHasChild_eq_search (fuel : Nat) (hash : List UInt8) :
    pinHasChild repo child fuel hash =
      search (linkHashes repo) (fun link => decide (link.length = child.length)) child fuel
        hash := by
  induction fuel generalizing hash with
  | zero => rfl
  | succ fuel ih =>
    rw [pinHasChild, search]
    cases hget : merkledagGet hash repo with
    | error e =>
      have hlinks : linkHashes repo hash = .error e := by
        unfold linkHashes
        rw [hget]
        rfl
      rw [hlinks]
      rfl
    | ok r =>
      cases r with
      | none =>
        rw [linkHashes_of_none hget]
        rfl
      | some node =>
        rw [linkHashes_of_some hget, ok_bind, ok_bind]
        simp only [hash_of_merkledagGet hget]
        by_cases hroot : hash = child
        · rw [if_pos hroot, if_pos ⟨congrArg List.length hroot, hroot⟩]
        · rw [if_neg hroot, if_neg (fun h => hroot h.2), anyM_map]
          congr 1
          funext nodeLink
          rw [pinLinkHasChild_eq, ih]

/-! ## when it is right -/

theorem hasChild_iff : HasChild repo child root ↔
    (Present (linkHashes repo) root ∧ root = child) ∨
      TransGen (Leads (linkHashes repo)) root child := by
  unfold HasChild Below
  rw [TransGen.tail'_iff, @eq_comm _ child root]

/-- the function ends, and says whether the hash is in what the root holds -/
def PinHasChildLaw (repo : Repo) (root child : List UInt8) : Prop :=
  ∃ found, Settles (fun fuel => pinHasChild repo child fuel root) found ∧
    (found = true ↔ HasChild repo child root)

/-- **the search for a child**: it is right when a hash that is a link below the root is so along
links whose hashes are all as long as it is -/
theorem pinHasChild_iff (hdag : FiniteDag (linkHashes repo) root) :
    PinHasChildLaw repo root child ↔
      (TransGen (Leads (linkHashes repo)) root child →
        TransGen (LeadsAtLength repo child.length) root child) := by
  obtain ⟨found, hsettles, hfound⟩ :=
    @search_settles _ _ _ (fun link => decide (link.length = child.length)) child root hdag
      (decide_eq_true rfl)
  have henters : Enters (linkHashes repo) (fun link => decide (link.length = child.length)) =
      LeadsAtLength repo child.length := by
    funext hash link
    unfold Enters LeadsAtLength
    rw [decide_eq_true_iff]
  rw [henters] at hfound
  have hroot (h : TransGen (Leads (linkHashes repo)) root child) : root ≠ child := by
    rintro rfl
    exact hdag.acyclic _ .refl h
  have hpin : Settles (fun fuel => pinHasChild repo child fuel root) found := by
    obtain ⟨depth, hdepth⟩ := hsettles
    exact ⟨depth, fun fuel hfuel => (pinHasChild_eq_search fuel root).trans (hdepth fuel hfuel)⟩
  constructor
  · rintro ⟨found', hsettles', hfound'⟩ hleads
    rw [hsettles'.unique hpin, hasChild_iff] at hfound'
    rcases hfound.1 (hfound'.2 (.inr hleads)) with ⟨-, h⟩ | h
    · exact absurd h (hroot hleads)
    · exact h
  · intro hlength
    refine ⟨found, hpin, hfound.trans ?_⟩
    rw [hasChild_iff]
    refine or_congr_right ⟨fun h => ?_, hlength⟩
    exact TransGen.mono (fun hash link hl => hl.1) _ _ h

end

/-! ### links of two lengths -/

/-- a repository that holds these nodes under these hashes -/
def storing (nodes : List (List UInt8 × HashtableNode)) : Repo where
  files key := (nodes.find? fun entry => hashToBase32 entry.1 = .ok (some key)).map fun entry =>
    blockBytes { cid := some (cidNew 1 entry.1 0x70), data := nodeBytes entry.2 }
  datastore hash := (nodes.find? fun entry => entry.1 = hash).map fun entry => entry.1

theorem linkHashes_storing {nodes : List (List UInt8 × HashtableNode)} {hash : List UInt8}
    (h : ∀ entry ∈ nodes, entry.1 ≠ hash) : linkHashes (storing nodes) hash = .ok none := by
  have hnone : (storing nodes).datastore hash = none := by
    show (nodes.find? fun entry => entry.1 = hash).map _ = none
    rw [List.find?_eq_none.2 fun entry hentry => by simpa using h entry hentry]
    rfl
  refine linkHashes_of_none ?_
  unfold merkledagGet
  rw [hnone]

/-- the sizes are those of SHA-256 and of SHA-1 -/
def rootHash : List UInt8 := List.replicate 32 8
def midHash : List UInt8 := List.replicate 32 16
def shortHash : List UInt8 := List.replicate 20 16
def leafHash : List UInt8 := List.replicate 32 24

/-- a node, a link to another one, and its link to a third -/
def chainRepo (mid : List UInt8) : Repo :=
  storing [(rootHash, { links := [{ hash := mid }] }), (mid, { links := [{ hash := leafHash }] })]

theorem linkHashes_chain : ∀ mid ∈ [midHash, shortHash],
    linkHashes (chainRepo mid) rootHash = .ok (some [mid]) ∧
      linkHashes (chainRepo mid) mid = .ok (some [leafHash]) := by
  decide +kernel

section
variable {mid : List UInt8}

theorem linkHashes_other {hash : List UInt8} (hroot : hash ≠ rootHash) (hother : hash ≠ mid) :
    linkHashes (chainRepo mid) hash = .ok none := by
  refine linkHashes_storing fun entry hentry => ?_
  rcases List.mem_pair.1 hentry with rfl | rfl
  · exact hroot.symm
  · exact hother.symm

variable (hmid : mid ∈ [midHash, shortHash])
include hmid

theorem leads_chainRepo {hash link : List UInt8} : Leads (linkHashes (chainRepo mid)) hash link ↔
    (hash = rootHash ∧ link = mid) ∨ (hash = mid ∧ link = leafHash) := by
  obtain ⟨hfirst, hsecond⟩ := linkHashes_chain mid hmid
  constructor
  · rintro ⟨links, hlinks, hlink⟩
    by_cases hroot : hash = rootHash
    · rw [hroot, hfirst] at hlinks
      cases hlinks
      exact .inl ⟨hroot, List.mem_singleton.1 hlink⟩
    · by_cases hother : hash = mid
      · rw [hother, hsecond] at hlinks
        cases hlinks
        exact .inr ⟨hother, List.mem_singleton.1 hlink⟩
      · rw [linkHashes_other hroot hother] at hlinks
        cases hlinks
  · rintro (⟨rfl, rfl⟩ | ⟨rfl, rfl⟩)
    · exact ⟨_, hfirst, List.mem_singleton.2 rfl⟩
    · exact ⟨_, hsecond, List.mem_singleton.2 rfl⟩

theorem finiteDag_chainRepo (root : List UInt8) : FiniteDag (linkHashes (chainRepo mid)) root where
  safe hash _ := by
    obtain ⟨hfirst, hsecond⟩ := linkHashes_chain mid hmid
    by_cases hroot : hash = rootHash
    · rw [hroot, hfirst]
      exact safe_ok _
    · by_cases hother : hash = mid
      · rw [hother, hsecond]
        exact safe_ok _
      · rw [linkHashes_other hroot hother]
        exact safe_ok _
  finite := by
    refine Set.Finite.subset (Set.toFinite {root, mid, leafHash}) fun hash hbelow => ?_
    rcases ReflTransGen.cases_tail hbelow with rfl | ⟨via, -, hleads⟩
    · exact .inl rfl
    · rcases (leads_chainRepo hmid).1 hleads with ⟨-, rfl⟩ | ⟨-, rfl⟩
      · exact .inr (.inl rfl)
      · exact .inr (.inr rfl)
  acyclic hash _ := by
    have hne : mid ≠ rootHash ∧ leafHash ≠ mid := by
      rcases List.mem_pair.1 hmid with rfl | rfl <;> decide
    refine not_transGen_self (fun hash => if hash = rootHash then 2
      else if hash = mid then 1 else 0) (fun a b hab => ?_) hash
    rcases (leads_chainRepo hmid).1 hab with ⟨rfl, rfl⟩ | ⟨rfl, rfl⟩
    · rw [if_pos rfl, if_neg hne.1, if_pos rfl]
      decide
    · rw [if_neg hne.1, if_pos rfl, if_neg (by decide), if_neg hne.2]
      decide

end

/-- the search goes down by one node, and finds the hash there -/
theorem pinHasChild_below : PinHasChildLaw (chainRepo midHash) rootHash leafHash := by
  have hmid : midHash ∈ [midHash, shortHash] := by decide
  have hfirst := (leads_chainRepo hmid).2 (.inl ⟨rfl, rfl⟩)
  have hsecond := (leads_chainRepo hmid).2 (.inr ⟨rfl, rfl⟩)
  exact (pinHasChild_iff (finiteDag_chainRepo hmid rootHash)).2 fun _ =>
    .tail (.single ⟨hfirst, by decide⟩) ⟨hsecond, rfl⟩

/-- below a link of another length, the hash is not found -/
theorem not_pinHasChild :
    ¬ ∀ (repo : Repo) (root child : List UInt8), FiniteDag (linkHashes repo) root →
      PinHasChildLaw repo root child := by
  intro h
  have hmid : shortHash ∈ [midHash, shortHash] := by decide
  obtain ⟨found, ⟨depth, hdepth⟩, hfound⟩ :=
    h (chainRepo shortHash) rootHash leafHash (finiteDag_chainRepo hmid rootHash)
  have hchild : HasChild (chainRepo shortHash) leafHash rootHash := .inr ⟨shortHash,
    .single ((leads_chainRepo hmid).2 (.inl ⟨rfl, rfl⟩)), (leads_chainRepo hmid).2 (.inr ⟨rfl, rfl⟩)⟩
  have hmissed : pinHasChild (chainRepo shortHash) leafHash (depth + 1) rootHash = .ok false := by
    rw [pinHasChild_eq_search, search, (linkHashes_chain shortHash hmid).1]
    rfl
  have hsame := hmissed.symm.trans (hdepth (depth + 1) (by omega))
  rw [← Except.ok.inj hsame] at hfound
  exact absurd (hfound.2 hchild) (by decide)

end Ipfs
