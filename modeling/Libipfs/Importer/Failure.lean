import Libipfs.Importer.Importer
import Libipfs.Merkledag.Store

/-!
# An import that fails

The nodes of a file go into a store that may refuse each of them, and a read of the file may fail as
well.  The chunk function returns 0 for a failure and at the end of the file, its caller takes both
for the end, and nobody looks at what becomes of the root.

* `FsImport.importChunk`, `FsImport.importFile`   the import, which notes what has failed;
* `FsRepo.addAll`, `keepsAll_iff`   what is kept of nodes that are added one behind the other;
* `ReportsFailure`       after a failure 0 is returned, and otherwise the root and the chunks are kept;
* `reportsFailure_iff`   **only where nothing fails**: a file that is opened is never reported.
-/

namespace Ipfs
open CSem Libp2p Lmdb

/-! ## the import -/

/-- what can be read of the file, whether the read behind it fails, the root, the repository and the
number of its adds so far; and whether anything has failed, which the code does not keep -/
structure FsImport where
  rest : List UInt8
  broken : Bool
  parent : HashtableNode := {}
  repo : FsRepo
  adds : Nat := 0
  failed : Bool := false

namespace FsImport
section
variable (sha256 : List UInt8 → List UInt8) (envs : Nat → StoreEnv)

/-- the next bytes; a read that comes back short has met the failure, if there is one -/
def fread (s : FsImport) : List UInt8 × FsImport :=
  let buffer := s.rest.take maxDataSize
  (buffer, { s with
    rest := s.rest.drop maxDataSize
    failed := s.failed || (s.broken && buffer.length < maxDataSize) })

def merkledagAdd (node : HashtableNode) (s : FsImport) :
    Exec (Option Nat × HashtableNode × FsImport) := do
  let (bytesWritten, node, repo) ← s.repo.merkledagAdd sha256 (envs s.adds) node
  .ok (bytesWritten, node, { s with
    repo := repo
    adds := s.adds + 1
    failed := s.failed || bytesWritten.isNone })

/-- a new node with the data, stored and linked to from the parent; `false` when the function
returns 0 -/
def importAddNode (protobuf : List UInt8) (bytesRead : Nat) (s : FsImport) :
    Exec (Bool × FsImport) := do
  match ← s.merkledagAdd sha256 envs { data := protobuf } with
  | (none, _, s) => .ok (false, s)
  | (some sizeOfNode, newNode, s) => do
    let newLink : NodeLink := { hash := newNode.hash.getD [], tSize := UInt64.ofNat sizeOfNode }
    let parent ← importerAddFilesizeToDataSection (s.parent.addLink newLink)
      (UInt64.ofNat bytesRead)
    .ok (true, { s with parent := parent })

/-- the last chunk: the data of the parent as long as it has no links -/
def importLastChunk (protobuf : List UInt8) (bytesRead : Nat) (s : FsImport) :
    Exec (Bool × FsImport) :=
  if s.parent.links = [] then .ok (true, { s with parent := s.parent.setData protobuf })
  else importAddNode sha256 envs protobuf bytesRead s

/-- the number of bytes read, 0 also for a failure; whether the root could be added is not said -/
def importChunk (s : FsImport) : Exec (Nat × FsImport) := do
  let (buffer, s) := s.fread
  let bytesRead := buffer.length
  let newUnixfs := chunkUnixFS buffer
  let protobuf ← unixfsProtobufEncode newUnixfs (unixfsProtobufEncodeSize newUnixfs)
  if bytesRead = maxDataSize then do
    match ← importAddNode sha256 envs protobuf bytesRead s with
    | (false, s) => .ok (0, s)
    | (true, s) => .ok (bytesRead, s)
  else do
    match ← importLastChunk sha256 envs protobuf bytesRead s with
    | (false, s) => .ok (0, s)
    | (true, s) => do
      let (_, parent, s) ← s.merkledagAdd sha256 envs s.parent
      .ok (bytesRead, { s with parent := parent })

/-- with fuel for the iterations -/
def importLoop : Nat → FsImport → Exec FsImport
  | 0, _ => .error .diverges
  | fuel + 1, s => do
    let (bytesRead, s) ← importChunk sha256 envs s
    if bytesRead = maxDataSize then importLoop fuel s else .ok s

/-- a file that cannot be opened is the one failure of which anything is said; the read of the byte
at `errorAt` fails.  What becomes of the announcements at the end is not looked at either -/
def importFile (opened : Bool) (file : List UInt8) (errorAt : Option Nat) (repo : FsRepo) :
    Exec (Bool × FsImport) :=
  let rest := match errorAt with
    | none => file
    | some k => file.take k
  let s : FsImport := { rest := rest, broken := errorAt.isSome, repo := repo }
  if opened then do
    let s ← importLoop sha256 envs (rest.length + 1) s
    .ok (true, s)
  else .ok (false, { s with failed := true })

end
end FsImport

/-- the import returns, with 0 if anything has failed, and otherwise with the root and every chunk
in the store -/
def ReportsFailure (sha256 : List UInt8 → List UInt8) (envs : Nat → StoreEnv) (opened : Bool)
    (file : List UInt8) (errorAt : Option Nat) (repo : FsRepo) : Prop :=
  ∃ retVal s, FsImport.importFile sha256 envs opened file errorAt repo = .ok (retVal, s) ∧
    (s.failed = true → retVal = false) ∧
    (retVal = true →
      ∀ node ∈ nodesOf sha256 (chunks maxDataSize_pos file), s.repo.Keeps sha256 (nodeBytes node))

/-! ## the imports of which nothing fails -/

section
variable (sha256 : List UInt8 → List UInt8) (envs : Nat → StoreEnv)

/-- nodes are added one behind the other, `none` once an add returns 0 -/
def FsRepo.addAll : Nat → List HashtableNode → FsRepo → Exec (Option FsRepo)
  | _, [], repo => .ok (some repo)
  | k, node :: nodes, repo => do
    match ← repo.merkledagAdd sha256 (envs k) node with
    | (none, _, _) => .ok none
    | (some _, _, repo) => addAll (k + 1) nodes repo

/-- the first record of a hash goes with its record in the journal when there is no room for that;
the add succeeds all the same -/
def RecordLost (env : PutEnv) (hash : List UInt8) (context : LmdbContext) : Prop :=
  context.datastore.values hash = [] ∧ JournalFull env hash

/-- a record that is lost is put again by one of the adds that follow -/
def NoneLost : Nat → List HashtableNode → FsRepo → Prop
  | _, [], _ => True
  | k, node :: nodes, repo =>
    (RecordLost (envs k).put (sha256 (nodeBytes node)) repo.context →
      ∃ x ∈ nodes, sha256 (nodeBytes x) = sha256 (nodeBytes node)) ∧
    ∀ n node' repo', repo.merkledagAdd sha256 (envs k) node = .ok (some n, node', repo') →
      NoneLost (k + 1) nodes repo'

/-- the nodes that are added for the chunks that follow those done: one for each chunk, but none for
the only one, and the root -/
def nodesAdded (done cs : List (List UInt8)) : List HashtableNode :=
  (if done = [] ∧ cs.length = 1 then [] else cs.map chunkNode) ++ [rootOf sha256 (done ++ cs)]

/-- the sizes of the chunks fit into the data of the root -/
def SizesFit : List (List UInt8) → List (List UInt8) → Prop
  | _, [] => True
  | done, c :: cs =>
    Safe (importerAddFilesizeToDataSection ((parentOf sha256 done).addLink (chunkLink sha256 c))
      (UInt64.ofNat c.length)) ∧ SizesFit (done ++ [c]) cs

/-- the file is read to its end; the chunks and the root are added, and nothing of it is lost, nor
overwritten by a node with other bytes and the same file name -/
structure ImportsWell (file : List UInt8) (errorAt : Option Nat) (repo : FsRepo) : Prop where
  read : errorAt = none
  sizes : SizesFit sha256 [] (chunks maxDataSize_pos file)
  added : ∃ repo', FsRepo.addAll sha256 envs 0
    (nodesAdded sha256 [] (chunks maxDataSize_pos file)) repo = .ok (some repo')
  recorded : NoneLost sha256 envs 0 (nodesAdded sha256 [] (chunks maxDataSize_pos file)) repo
  names : NamesDistinct sha256 (nodesOf sha256 (chunks maxDataSize_pos file))

end

section
variable {sha256 : List UInt8 → List UInt8} {envs : Nat → StoreEnv} {env : StoreEnv}
variable {node node' : HashtableNode} {nodes : List HashtableNode} {repo repo' repo₁ : FsRepo}
variable {key hash x : List UInt8} {n k : Nat}
variable (hsha : ∀ x, (sha256 x).length = 32) (hrecords : HoldsRecords repo.context.datastore)

/-! ### one add -/

/-- what an add that has succeeded leaves -/
structure Added (sha256 : List UInt8 → List UInt8) (env : StoreEnv) (x : List UInt8)
    (repo repo' : FsRepo) : Prop where
  file : ∃ key, hashToBase32 (sha256 x) = .ok (some key) ∧
    repo'.files = Function.update repo.files key (some (blockBytes (blockOf sha256 x)))
  records : HoldsRecords repo'.context.datastore
  others : ∀ hash, hash ≠ sha256 x →
    repo'.context.datastore.values hash = repo.context.datastore.values hash
  lost : repo'.context.datastore.values (sha256 x) = [] ↔
    RecordLost env.put (sha256 x) repo.context

theorem hashOf_of_none (h : node.hash = none) : node.hashOf sha256 = sha256 (nodeBytes node) := by
  unfold HashtableNode.hashOf
  rw [h]
  rfl

include hsha hrecords in
/-- **an add that succeeds** -/
theorem added_of_merkledagAdd (hnone : node.hash = none)
    (h : repo.merkledagAdd sha256 env node = .ok (some n, node', repo')) :
    n = (blockBytes (blockOf sha256 (nodeBytes node))).length ∧
      node' = { node with hash := some (sha256 (nodeBytes node)) } ∧
      Added sha256 env (nodeBytes node) repo repo' := by
  have hhash : node.hashOf sha256 = sha256 (nodeBytes node) := hashOf_of_none hnone
  obtain ⟨_, rfl, hwrite⟩ := merkledagAdd_eq_ok.1 h
  have hkey := hashToBase32_of_length (hsha (nodeBytes node))
  rw [← hhash] at hkey
  obtain ⟨_, _, hcase⟩ := (fsrepoBlockWrite_eq_ok hkey).1 hwrite
  rw [hhash, storedBlock_of_hash hhash] at hcase
  split at hcase
  · cases hcase.1
  split at hcase
  · cases hcase.1
  obtain ⟨retVal, after, context', hput, hresult, rfl⟩ := hcase
  split at hresult
  · cases hresult
  next hret =>
  cases hresult
  obtain ⟨hts, _, existingRecord, journalRecord, hget, hsearch, hw⟩ := put_hashRecord_eq_ok.1 hput
  have hlen : (sha256 (nodeBytes node)).length + 2 ≤ mdbMaxkeysize := by
    rw [hsha]
    decide
  have hstored := written_datastore hts hw
  have hfound := exists_of_searchJournal hrecords hget hsearch
  refine ⟨rfl, by rw [hhash], ⟨_, hhash ▸ hkey, rfl⟩, hrecords.put hput, fun hash hne => ?_, ?_⟩
  · rcases hstored with hsame | ⟨_, hinsert⟩
    · show context'.datastore.values hash = _
      rw [hsame]
    · show context'.datastore.values hash = _
      rw [hinsert]
      exact Multimap.values_insert_of_ne hne
  · show context'.datastore.values (sha256 (nodeBytes node)) = [] ↔ _
    rcases written_hashRecord hlen hts hfound hw with ⟨_, hzero, _⟩ | ⟨hmis, hwrong⟩ |
      ⟨href, hmis, _, hrecord⟩
    · exact absurd hzero hret
    · rcases hwrong with ⟨_, hnil⟩ | ⟨hzero, _⟩
      · refine ⟨fun _ => ?_, fun _ => hnil⟩
        rcases hstored with hsame | ⟨_, hinsert⟩
        · rw [hsame] at hnil
          have hfull := hmis.2.2
          rw [if_pos hnil] at hfull
          exact ⟨hnil, hfull⟩
        · rw [hinsert] at hnil
          exact absurd hnil (List.ne_nil_of_mem Multimap.mem_values_insert_self)
      · exact absurd hzero hret
    · refine ⟨fun hnil => absurd hnil hrecord, fun ⟨hnil, hfull⟩ => absurd ?_ hmis⟩
      refine ⟨fun hr => href (.inl hr), ?_, ?_⟩
      · rw [hnil]
        exact List.not_mem_nil
      · rw [if_pos hnil]
        exact hfull

/-! ### the adds of a list of nodes -/

theorem addAll_cons_eq_some : FsRepo.addAll sha256 envs k (node :: nodes) repo = .ok (some repo') ↔
    ∃ n node' repo₁, repo.merkledagAdd sha256 (envs k) node = .ok (some n, node', repo₁) ∧
      FsRepo.addAll sha256 envs (k + 1) nodes repo₁ = .ok (some repo') := by
  constructor
  · intro h
    obtain ⟨⟨result, node', repo₁⟩, hadd, h⟩ := bind_eq_ok.1 h
    cases result with
    | none => cases h
    | some n => exact ⟨n, node', repo₁, hadd, h⟩
  · intro ⟨n, node', repo₁, hadd, h⟩
    show (repo.merkledagAdd sha256 (envs k) node >>= _) = _
    rw [hadd]
    exact h

include hsha hrecords in
/-- the files under other names, and the records of other hashes, stay as they are -/
theorem addAll_others (hnone : ∀ node ∈ nodes, node.hash = none)
    (h : FsRepo.addAll sha256 envs k nodes repo = .ok (some repo')) :
    (∀ key, (∀ x ∈ nodes, hashToBase32 (sha256 (nodeBytes x)) ≠ .ok (some key)) →
      repo'.files key = repo.files key) ∧
    ∀ hash, (∀ x ∈ nodes, sha256 (nodeBytes x) ≠ hash) →
      repo'.context.datastore.values hash = repo.context.datastore.values hash := by
  induction nodes generalizing k repo with
  | nil =>
    cases h
    exact ⟨fun _ _ => rfl, fun _ _ => rfl⟩
  | cons node nodes ih =>
    obtain ⟨n, node', repo₁, hadd, h⟩ := addAll_cons_eq_some.1 h
    obtain ⟨_, _, hadded⟩ :=
      added_of_merkledagAdd hsha hrecords (hnone node List.mem_cons_self) hadd
    obtain ⟨hfiles, hvalues⟩ :=
      ih hadded.records (fun x hx => hnone x (List.mem_cons_of_mem _ hx)) h
    constructor
    · intro key hkeys
      obtain ⟨name, hname, hfile⟩ := hadded.file
      have hne : key ≠ name := fun he => hkeys node List.mem_cons_self (he ▸ hname)
      rw [hfiles key fun x hx => hkeys x (List.mem_cons_of_mem _ hx), hfile,
        Function.update_of_ne hne]
    · intro hash hhashes
      rw [hvalues hash fun x hx => hhashes x (List.mem_cons_of_mem _ hx),
        hadded.others hash fun he => hhashes node List.mem_cons_self he.symm]

theorem blockBytes_inj {block block' : Block} (h : block.data.length < 2 ^ 64)
    (h' : block'.data.length < 2 ^ 64) (heq : blockBytes block = blockBytes block') :
    block.data = block'.data := by
  unfold blockBytes blockItems at heq
  rw [itemsBytes_cons, itemsBytes_cons] at heq
  exact (bytesField_append_inj h h' heq).1

/-- what is kept under one file name has the same bytes -/
theorem namesDistinct_of_keeps (hlen : ∀ node ∈ nodes, (nodeBytes node).length < 2 ^ 64)
    (h : ∀ node ∈ nodes, repo.Keeps sha256 (nodeBytes node)) : NamesDistinct sha256 nodes := by
  intro x hx y hy hname
  obtain ⟨key, hkey, hfile⟩ := (h x hx).file
  obtain ⟨key', hkey', hfile'⟩ := (h y hy).file
  have hsame := hkey.symm.trans (hname.trans hkey')
  cases hsame
  exact blockBytes_inj (hlen x hx) (hlen y hy) (Option.some.inj (hfile.symm.trans hfile'))

include hsha hrecords in
/-- **what is kept in the end**: all of the nodes, when no record is lost and no file overwritten -/
theorem keepsAll_iff (hnone : ∀ node ∈ nodes, node.hash = none)
    (hlen : ∀ node ∈ nodes, (nodeBytes node).length < 2 ^ 64)
    (h : FsRepo.addAll sha256 envs k nodes repo = .ok (some repo')) :
    (∀ node ∈ nodes, repo'.Keeps sha256 (nodeBytes node)) ↔
      NoneLost sha256 envs k nodes repo ∧ NamesDistinct sha256 nodes := by
  induction nodes generalizing k repo with
  | nil =>
    exact ⟨fun _ => ⟨trivial, fun x hx => absurd hx List.not_mem_nil⟩,
      fun _ x hx => absurd hx List.not_mem_nil⟩
  | cons node nodes ih =>
    obtain ⟨n, node', repo₁, hadd, h⟩ := addAll_cons_eq_some.1 h
    obtain ⟨_, _, hadded⟩ :=
      added_of_merkledagAdd hsha hrecords (hnone node List.mem_cons_self) hadd
    have htail : ∀ x ∈ nodes, x.hash = none := fun x hx => hnone x (List.mem_cons_of_mem _ hx)
    obtain ⟨hfiles, hvalues⟩ := addAll_others hsha hadded.records htail h
    have ih := ih hadded.records htail (fun x hx => hlen x (List.mem_cons_of_mem _ hx)) h
    constructor
    · intro hall
      refine ⟨⟨fun hlost => ?_, fun n₂ node₂ repo₂ hadd₂ => ?_⟩, namesDistinct_of_keeps hlen hall⟩
      · -- the record is there in the end, so it has been put again
        by_contra hagain
        have hsame := hvalues (sha256 (nodeBytes node)) fun x hx he => hagain ⟨x, hx, he⟩
        rw [hadded.lost.2 hlost] at hsame
        exact (hall node List.mem_cons_self).record hsame
      · rw [hadd] at hadd₂
        cases hadd₂
        exact (ih.1 fun x hx => hall x (List.mem_cons_of_mem _ hx)).1
    · intro ⟨⟨hfirst, hrest⟩, hnames⟩
      have hall := ih.2 ⟨hrest n node' repo₁ hadd, fun x hx y hy =>
        hnames x (List.mem_cons_of_mem _ hx) y (List.mem_cons_of_mem _ hy)⟩
      intro x hx
      rcases List.mem_cons.1 hx with rfl | hx
      · refine ⟨?_, ?_⟩
        · obtain ⟨key, hkey, hfile⟩ := hadded.file
          refine ⟨key, hkey, ?_⟩
          by_cases hother : ∃ y ∈ nodes, hashToBase32 (sha256 (nodeBytes y)) = .ok (some key)
          · -- a file of this name is written once more, with the same bytes
            obtain ⟨y, hy, hkey'⟩ := hother
            have hbytes := hnames x List.mem_cons_self y (List.mem_cons_of_mem _ hy)
              (hkey.trans hkey'.symm)
            obtain ⟨name, hname, hwritten⟩ := (hall y hy).file
            rw [← hbytes, hkey] at hname
            cases hname
            rw [hwritten, hbytes]
          · rw [hfiles key fun y hy he => hother ⟨y, hy, he⟩, hfile, Function.update_self]
        · by_cases hagain : ∃ y ∈ nodes, sha256 (nodeBytes y) = sha256 (nodeBytes x)
          · obtain ⟨y, hy, he⟩ := hagain
            rw [← he]
            exact (hall y hy).record
          · rw [hvalues _ fun y hy he => hagain ⟨y, hy, he⟩]
            exact fun hnil => hagain (hfirst (hadded.lost.1 hnil))
      · exact hall x hx

/-! ### one chunk -/

variable {done cs : List (List UInt8)} {rest c : List UInt8} {broken failed told : Bool}
variable {s s' : FsImport} {m fuel : Nat}

/-- the sizes that fit are those of the chunks -/
theorem importerAddFilesize_eq (hlen : 24 + 11 * done.length ≤ ptrdiffMax) {parent : HashtableNode}
    (h : importerAddFilesizeToDataSection ((parentOf sha256 done).addLink (chunkLink sha256 c))
      (UInt64.ofNat c.length) = .ok parent) : parent = parentOf sha256 (done ++ [c]) := by
  obtain ⟨dataSection, hdata, h⟩ := bind_eq_ok.1 h
  obtain ⟨protobuf, hencode, h⟩ := bind_eq_ok.1 h
  cases h
  have hsection : dataSection = parentUnixFS done := by
    by_cases hnil : done = []
    · subst hnil
      cases hdata
      rfl
    · have hle : (unixfsBytes (parentUnixFS done)).length ≤ ptrdiffMax := by
        have hsize := parentUnixFS_encodeSize done
        have hbytes : (unixfsBytes (parentUnixFS done)).length ≤ _ :=
          unixfsBytes_length_le unixfsFile_lt
        omega
      unfold parentOf at hdata
      rw [if_neg hnil] at hdata
      have hdata : (if unixfsBytes (parentUnixFS done) = [] then _ else
        decodedUnixFs (unixfsBytes (parentUnixFS done))) = Except.ok dataSection := hdata
      rw [if_neg (unixfsBytes_ne _)] at hdata
      obtain ⟨decoded, hdecoded, hdata⟩ := bind_eq_ok.1 hdata
      obtain rfl := unixfsProtobufDecode_unixfsBytes_ok hle hdecoded
      cases hdata
      rfl
  obtain ⟨rfl, _⟩ := (writes_unixfsProtobufEncode _).exact _ _ hencode
  rw [hsection, ← parentUnixFS_snoc, parentOf_snoc]
  show ({ data := _, links := _, hash := (parentOf sha256 done).hash } : HashtableNode) = _
  rw [parentOf_hash]
  rfl

include hsha hrecords in
/-- **a node for a chunk**: it is not added, and that is told, or it is, and linked to -/
theorem importAddNode_eq_ok (hlen : 24 + 11 * done.length ≤ ptrdiffMax) :
    FsImport.importAddNode sha256 envs (unixfsBytes (chunkUnixFS c)) c.length
        ⟨rest, broken, parentOf sha256 done, repo, k, failed⟩ = .ok (told, s') ↔
      (told = false ∧ ∃ node' repo',
        repo.merkledagAdd sha256 (envs k) (chunkNode c) = .ok (none, node', repo') ∧
        s' = ⟨rest, broken, parentOf sha256 done, repo', k + 1, true⟩) ∨
      told = true ∧
        Safe (importerAddFilesizeToDataSection
          ((parentOf sha256 done).addLink (chunkLink sha256 c)) (UInt64.ofNat c.length)) ∧
        ∃ n node' repo',
          repo.merkledagAdd sha256 (envs k) (chunkNode c) = .ok (some n, node', repo') ∧
          s' = ⟨rest, broken, parentOf sha256 (done ++ [c]), repo', k + 1, failed⟩ := by
  unfold FsImport.importAddNode FsImport.merkledagAdd
  show ((repo.merkledagAdd sha256 (envs k) (chunkNode c) >>= _) >>= _) = _ ↔ _
  constructor
  · intro h
    obtain ⟨⟨result, newNode, s₁⟩, hadd, h⟩ := bind_eq_ok.1 h
    obtain ⟨⟨result', node', repo'⟩, hadded, hadd⟩ := bind_eq_ok.1 hadd
    cases hadd
    cases result with
    | none =>
      cases h
      refine .inl ⟨rfl, _, repo', hadded, ?_⟩
      show FsImport.mk _ _ _ _ _ (failed || true) = _
      rw [Bool.or_true]
    | some n =>
      obtain ⟨rfl, rfl, _⟩ := added_of_merkledagAdd hsha hrecords rfl hadded
      obtain ⟨parent, hparent, h⟩ := bind_eq_ok.1 h
      cases h
      refine .inr ⟨rfl, ⟨parent, hparent⟩, _, _, repo', hadded, ?_⟩
      rw [importerAddFilesize_eq hlen hparent]
      show FsImport.mk _ _ _ _ _ (failed || false) = _
      rw [Bool.or_false]
  · rintro (⟨rfl, node', repo', hadd, rfl⟩ | ⟨rfl, ⟨parent, hparent⟩, n, node', repo', hadd, rfl⟩)
    · rw [hadd]
      show Except.ok (false, FsImport.mk _ _ _ _ _ (failed || true)) = _
      rw [Bool.or_true]
    · obtain ⟨rfl, rfl, _⟩ := added_of_merkledagAdd hsha hrecords rfl hadd
      rw [hadd]
      show (importerAddFilesizeToDataSection
        ((parentOf sha256 done).addLink (chunkLink sha256 c)) (UInt64.ofNat c.length) >>= _) = _
      rw [hparent, importerAddFilesize_eq hlen hparent]
      show Except.ok (true, FsImport.mk _ _ _ _ _ (failed || false)) = _
      rw [Bool.or_false]

include hsha hrecords in
/-- **a whole chunk** -/
theorem importChunk_whole_eq_ok (hlen : 24 + 11 * done.length ≤ ptrdiffMax)
    (hrest : maxDataSize ≤ rest.length) :
    FsImport.importChunk sha256 envs ⟨rest, broken, parentOf sha256 done, repo, k, failed⟩ =
        .ok (m, s') ↔
      (m = 0 ∧ ∃ repo', s' = ⟨rest.drop maxDataSize, broken, parentOf sha256 done, repo', k + 1, true⟩ ∧
        ∃ node', repo.merkledagAdd sha256 (envs k) (chunkNode (rest.take maxDataSize)) =
          .ok (none, node', repo')) ∨
      m = maxDataSize ∧
        Safe (importerAddFilesizeToDataSection
          ((parentOf sha256 done).addLink (chunkLink sha256 (rest.take maxDataSize)))
          (UInt64.ofNat (rest.take maxDataSize).length)) ∧
        ∃ n node' repo',
          repo.merkledagAdd sha256 (envs k) (chunkNode (rest.take maxDataSize)) =
            .ok (some n, node', repo') ∧
          s' = ⟨rest.drop maxDataSize, broken, parentOf sha256 (done ++ [rest.take maxDataSize]),
            repo', k + 1, failed⟩ := by
  have hc : (rest.take maxDataSize).length = maxDataSize := List.length_take_of_le hrest
  have hread : FsImport.fread ⟨rest, broken, parentOf sha256 done, repo, k, failed⟩ =
      (rest.take maxDataSize,
        ⟨rest.drop maxDataSize, broken, parentOf sha256 done, repo, k, failed⟩) := by
    unfold FsImport.fread
    simp only
    rw [hc, decide_eq_false (Nat.lt_irrefl _), Bool.and_false, Bool.or_false]
  unfold FsImport.importChunk
  rw [hread]
  simp only
  rw [encode_chunkUnixFS (le_of_eq hc), ok_bind, if_pos hc, bind_eq_ok]
  constructor
  · rintro ⟨⟨told, s₁⟩, hadd, h⟩
    rcases (importAddNode_eq_ok hsha hrecords hlen).1 hadd with
      ⟨rfl, node', repo', hnone, rfl⟩ | ⟨rfl, hsizes, n, node', repo', hsome, rfl⟩
    · cases h
      exact .inl ⟨rfl, repo', rfl, node', hnone⟩
    · cases h
      exact .inr ⟨hc, hsizes, n, node', repo', hsome, rfl⟩
  · rintro (⟨rfl, repo', rfl, node', hnone⟩ | ⟨rfl, hsizes, n, node', repo', hsome, rfl⟩)
    · exact ⟨_, (importAddNode_eq_ok hsha hrecords hlen).2
        (.inl ⟨rfl, node', repo', hnone, rfl⟩), rfl⟩
    · refine ⟨_, (importAddNode_eq_ok hsha hrecords hlen).2
        (.inr ⟨rfl, hsizes, n, node', repo', hsome, rfl⟩), ?_⟩
      rw [hc]

theorem addAll_singleton_eq_some : FsRepo.addAll sha256 envs k [node] repo = .ok (some repo') ↔
    ∃ n node', repo.merkledagAdd sha256 (envs k) node = .ok (some n, node', repo') := by
  rw [addAll_cons_eq_some]
  constructor
  · intro ⟨n, node', repo₁, hadd, h⟩
    cases h
    exact ⟨n, node', hadd⟩
  · intro ⟨n, node', hadd⟩
    exact ⟨n, node', repo', hadd, rfl⟩

/-- the root is added at the end: its failure is noted, and nothing else comes of it -/
theorem addRoot_iff : (∃ m s', (s.merkledagAdd sha256 envs s.parent >>= fun (_, parent, s) =>
      (.ok (k, { s with parent := parent }) : Exec (Nat × FsImport))) = .ok (m, s') ∧
        s'.failed = false ∧ s'.repo = repo') ↔
    s.failed = false ∧
      FsRepo.addAll sha256 envs s.adds [s.parent] s.repo = .ok (some repo') := by
  rw [addAll_singleton_eq_some]
  constructor
  · intro ⟨m, s', h, hfailed, hrepo⟩
    obtain ⟨⟨result, parent, s₁⟩, hadd, h⟩ := bind_eq_ok.1 h
    obtain ⟨⟨result', parent', repo₁⟩, hadded, hadd⟩ := bind_eq_ok.1 hadd
    cases hadd
    cases h
    obtain ⟨hbefore, hresult⟩ := Bool.or_eq_false_iff.1 hfailed
    obtain rfl : repo₁ = repo' := hrepo
    cases result with
    | none => cases hresult
    | some n => exact ⟨hbefore, n, _, hadded⟩
  · intro ⟨hbefore, n, node', hadd⟩
    refine ⟨k, { s with repo := repo', adds := s.adds + 1, failed := s.failed || false, parent := node' }, ?_, ?_, rfl⟩
    · unfold FsImport.merkledagAdd
      rw [hadd]
      rfl
    · show (s.failed || false) = false
      rw [Bool.or_false]
      exact hbefore

/-- the sizes of one chunk fit in any case -/
theorem sizesFit_singleton : SizesFit sha256 [] [c] :=
  ⟨⟨_, importerAddFilesize_parentOf [] c (by norm_num)⟩, trivial⟩

include hsha hrecords in
/-- **the last chunk, and the root** -/
theorem importChunk_last_iff (hlen : 24 + 11 * done.length ≤ ptrdiffMax)
    (hrest : rest.length < maxDataSize) :
    (∃ m s', FsImport.importChunk sha256 envs
        ⟨rest, broken, parentOf sha256 done, repo, k, failed⟩ = .ok (m, s') ∧
          s'.failed = false ∧ s'.repo = repo') ↔
      failed = false ∧ broken = false ∧ SizesFit sha256 done [rest] ∧
        FsRepo.addAll sha256 envs k (nodesAdded sha256 done [rest]) repo = .ok (some repo') := by
  have hne : rest.length ≠ maxDataSize := by omega
  have hread : FsImport.fread ⟨rest, broken, parentOf sha256 done, repo, k, failed⟩ =
      (rest, ⟨[], broken, parentOf sha256 done, repo, k, failed || broken⟩) := by
    unfold FsImport.fread
    simp only
    rw [List.take_of_length_le (le_of_lt hrest), List.drop_eq_nil_of_le (le_of_lt hrest),
      decide_eq_true hrest, Bool.and_true]
  have hnoted : (failed || broken) = false ↔ failed = false ∧ broken = false :=
    Bool.or_eq_false_iff
  unfold FsImport.importChunk
  rw [hread]
  simp only
  rw [encode_chunkUnixFS (le_of_lt hrest), ok_bind, if_neg hne]
  by_cases hnil : done = []
  · subst hnil
    have hlast : FsImport.importLastChunk sha256 envs (unixfsBytes (chunkUnixFS rest)) rest.length
        ⟨[], broken, parentOf sha256 [], repo, k, failed || broken⟩ =
          .ok (true, ⟨[], broken, chunkNode rest, repo, k, failed || broken⟩) := rfl
    rw [hlast, ok_bind]
    refine addRoot_iff.trans ?_
    show (failed || broken) = false ∧ FsRepo.addAll sha256 envs k [chunkNode rest] repo = _ ↔
      failed = false ∧ broken = false ∧ SizesFit sha256 [] [rest] ∧
        FsRepo.addAll sha256 envs k [chunkNode rest] repo = _
    rw [hnoted, and_assoc]
    exact and_congr_right fun _ => and_congr_right fun _ =>
      (and_iff_right sizesFit_singleton).symm
  · have hlinks : (parentOf sha256 done).links ≠ [] := by
      rw [parentOf_links]
      exact fun h => hnil (List.map_eq_nil_iff.1 h)
    have hlast : FsImport.importLastChunk sha256 envs (unixfsBytes (chunkUnixFS rest)) rest.length
        ⟨[], broken, parentOf sha256 done, repo, k, failed || broken⟩ =
          FsImport.importAddNode sha256 envs (unixfsBytes (chunkUnixFS rest)) rest.length
            ⟨[], broken, parentOf sha256 done, repo, k, failed || broken⟩ := by
      unfold FsImport.importLastChunk
      rw [if_neg hlinks]
    have hnodes : nodesAdded sha256 done [rest] =
        [chunkNode rest, parentOf sha256 (done ++ [rest])] := by
      unfold nodesAdded
      rw [if_neg (fun h => hnil h.1), rootOf_snoc hnil]
      rfl
    rw [hlast, hnodes]
    constructor
    · intro ⟨m, s', h, hfailed, hrepo⟩
      obtain ⟨⟨told, s₁⟩, hadd, h⟩ := bind_eq_ok.1 h
      rcases (importAddNode_eq_ok hsha hrecords hlen).1 hadd with
        ⟨rfl, node', repo₁, hnone, rfl⟩ | ⟨rfl, hsizes, n, node', repo₁, hsome, rfl⟩
      · cases h
        cases hfailed
      · obtain ⟨hbefore, hroot⟩ := addRoot_iff.1 ⟨m, s', h, hfailed, hrepo⟩
        obtain ⟨hfailed, hbroken⟩ := hnoted.1 hbefore
        exact ⟨hfailed, hbroken, ⟨hsizes, trivial⟩,
          addAll_cons_eq_some.2 ⟨n, node', repo₁, hsome, hroot⟩⟩
    · intro ⟨hfailed, hbroken, ⟨hsizes, _⟩, hall⟩
      obtain ⟨n, node', repo₁, hsome, hroot⟩ := addAll_cons_eq_some.1 hall
      have hadd : FsImport.importAddNode sha256 envs (unixfsBytes (chunkUnixFS rest)) rest.length
          ⟨[], broken, parentOf sha256 done, repo, k, failed || broken⟩ = .ok (true, _) :=
        (importAddNode_eq_ok hsha hrecords hlen).2
          (.inr ⟨rfl, hsizes, n, node', repo₁, hsome, rfl⟩)
      rw [hadd, ok_bind]
      exact addRoot_iff.2 ⟨hnoted.2 ⟨hfailed, hbroken⟩, hroot⟩

/-! ### the loop -/

/-- a chunk that is not whole ends the loop -/
theorem importChunk_last_ne (hrest : s.rest.length < maxDataSize)
    (h : FsImport.importChunk sha256 envs s = .ok (m, s')) : m ≠ maxDataSize := by
  have htake : s.rest.take maxDataSize = s.rest := List.take_of_length_le (le_of_lt hrest)
  have hne : s.rest.length ≠ maxDataSize := by omega
  unfold FsImport.importChunk FsImport.fread at h
  simp only at h
  rw [htake, encode_chunkUnixFS (le_of_lt hrest), ok_bind, if_neg hne] at h
  obtain ⟨⟨told, s₁⟩, _, h⟩ := bind_eq_ok.1 h
  cases told with
  | false =>
    cases h
    decide
  | true =>
    obtain ⟨⟨result, parent, s₂⟩, _, h⟩ := bind_eq_ok.1 h
    cases h
    exact hne

theorem nodesAdded_cons (h : cs ≠ []) :
    nodesAdded sha256 done (c :: cs) = chunkNode c :: nodesAdded sha256 (done ++ [c]) cs := by
  have hlength : (c :: cs).length ≠ 1 := fun he => h (List.length_eq_zero_iff.1 (Nat.succ.inj he))
  have hsnoc : done ++ [c] ≠ [] := fun hnil => by
    have := congrArg List.length hnil
    rw [List.length_append, List.length_singleton] at this
    cases this
  unfold nodesAdded
  rw [if_neg (fun he => hlength he.2), if_neg (fun he => hsnoc he.1), List.append_assoc]
  rfl

include hsha hrecords in
/-- **the loop gets through without a failure** when all is read, fits and is added -/
theorem importLoop_iff
    (hlen : 24 + 11 * (done.length + (chunks maxDataSize_pos rest).length) ≤ ptrdiffMax)
    (hfuel : rest.length < fuel) :
    (∃ s', FsImport.importLoop sha256 envs fuel
        ⟨rest, broken, parentOf sha256 done, repo, k, failed⟩ = .ok s' ∧
          s'.failed = false ∧ s'.repo = repo') ↔
      failed = false ∧ broken = false ∧ SizesFit sha256 done (chunks maxDataSize_pos rest) ∧
        FsRepo.addAll sha256 envs k (nodesAdded sha256 done (chunks maxDataSize_pos rest)) repo =
          .ok (some repo') := by
  obtain ⟨fuel, rfl⟩ : ∃ f, fuel = f + 1 := ⟨fuel - 1, by omega⟩
  induction rest using chunks.induct maxDataSize_pos generalizing done repo k fuel with
  | case1 rest hshort =>
    rw [chunks_of_lt _ hshort] at hlen ⊢
    rw [← importChunk_last_iff hsha hrecords (by omega) hshort]
    constructor
    · intro h
      obtain ⟨s', h, hend⟩ := h
      obtain ⟨⟨m, s₁⟩, hchunk, h⟩ := bind_eq_ok.1 h
      have hne := importChunk_last_ne hshort hchunk
      simp only at h
      rw [if_neg hne] at h
      cases h
      exact ⟨m, _, hchunk, hend⟩
    · intro h
      obtain ⟨m, s', hchunk, hend⟩ := h
      refine ⟨s', ?_, hend⟩
      rw [FsImport.importLoop, hchunk]
      exact if_neg (importChunk_last_ne hshort hchunk)
  | case2 rest hlong ih =>
    have hwhole : maxDataSize ≤ rest.length := Nat.le_of_not_lt hlong
    have hpos := maxDataSize_pos
    rw [chunks_of_le _ hwhole, List.length_cons] at hlen
    rw [chunks_of_le _ hwhole, nodesAdded_cons (chunks_ne_nil _ _)]
    have hdrop : (rest.drop maxDataSize).length < rest.length := by
      rw [List.length_drop]
      omega
    obtain ⟨fuel, rfl⟩ : ∃ f, fuel = f + 1 := ⟨fuel - 1, by omega⟩
    have ih {repo₁ : FsRepo} (hrecords : HoldsRecords repo₁.context.datastore) :=
      @ih repo₁ (k + 1) hrecords (done ++ [rest.take maxDataSize])
        (by rw [List.length_append, List.length_singleton]; omega) fuel (by omega)
    constructor
    · intro h
      obtain ⟨s', h, hend⟩ := h
      obtain ⟨⟨m, s₁⟩, hchunk, h⟩ := bind_eq_ok.1 h
      rcases (importChunk_whole_eq_ok hsha hrecords (by omega) hwhole).1 hchunk with
        ⟨rfl, repo₁, rfl, _⟩ | ⟨rfl, hsizes, n, node', repo₁, hadd, rfl⟩
      · -- the failure ends the loop, and is noted
        cases h
        cases hend.1
      · have h : (if maxDataSize = maxDataSize then _ else _) = Except.ok s' := h
        rw [if_pos rfl] at h
        obtain ⟨_, _, hadded⟩ := added_of_merkledagAdd hsha hrecords rfl hadd
        obtain ⟨hfailed, hbroken, hrest, hall⟩ := (ih hadded.records).1 ⟨s', h, hend⟩
        exact ⟨hfailed, hbroken, ⟨hsizes, hrest⟩,
          addAll_cons_eq_some.2 ⟨n, node', repo₁, hadd, hall⟩⟩
    · intro h
      obtain ⟨hfailed, hbroken, ⟨hsizes, hrest⟩, hall⟩ := h
      obtain ⟨n, node', repo₁, hadd, hall⟩ := addAll_cons_eq_some.1 hall
      obtain ⟨_, _, hadded⟩ := added_of_merkledagAdd hsha hrecords rfl hadd
      obtain ⟨s', h, hend⟩ := (ih hadded.records).2 ⟨hfailed, hbroken, hrest, hall⟩
      refine ⟨s', ?_, hend⟩
      rw [FsImport.importLoop, (importChunk_whole_eq_ok hsha hrecords (by omega) hwhole).2
        (.inr ⟨rfl, hsizes, n, node', repo₁, hadd, rfl⟩), ok_bind]
      simp only
      exact (if_pos trivial).trans h

/-! ### the file -/

theorem mem_nodesAdded {cs : List (List UInt8)} :
    node ∈ nodesAdded sha256 [] cs ↔ node ∈ nodesOf sha256 cs := by
  have hroot : rootOf sha256 ([] ++ cs) = rootOf sha256 cs := rfl
  unfold nodesAdded nodesOf
  rw [List.mem_append, List.mem_append, hroot]
  by_cases h : cs.length = 1
  · -- the only chunk is the root
    obtain ⟨c, rfl⟩ := List.length_eq_one_iff.1 h
    rw [if_pos ⟨rfl, h⟩]
    show node ∈ [] ∨ node ∈ [chunkNode c] ↔ node ∈ [chunkNode c] ∨ node ∈ [chunkNode c]
    rw [or_self, List.mem_nil_iff, false_or]
  · rw [if_neg fun he => h he.2]

theorem nodesOf_hash {cs : List (List UInt8)} (h : node ∈ nodesOf sha256 cs) :
    node.hash = none := by
  rcases List.mem_append.1 h with h | h
  · obtain ⟨c, _, rfl⟩ := List.mem_map.1 h
    rfl
  · obtain rfl := List.mem_singleton.1 h
    unfold rootOf
    split
    · rfl
    · exact parentOf_hash cs

/-- no node of a file of these chunks is too long -/
theorem nodesOf_length_lt (hsha : ∀ x, (sha256 x).length = 32) {cs : List (List UInt8)}
    (hcs : ∀ c ∈ cs, c.length ≤ maxDataSize) (hne : cs ≠ [])
    (hlen : 87 * cs.length + 35 ≤ ptrdiffMax) (h : node ∈ nodesOf sha256 cs) :
    (nodeBytes node).length < 2 ^ 64 := by
  have hchunk {c : List UInt8} (hc : c ∈ cs) : (nodeBytes (chunkNode c)).length < 2 ^ 64 := by
    have hplain := chunkNode_plain (hcs c hc)
    have hsize := hplain.size
    have hbytes : (nodeBytes (chunkNode c)).length ≤ _ :=
      nodeBytes_length_le fun link hl => absurd hl List.not_mem_nil
    omega
  rcases List.mem_append.1 h with h | h
  · obtain ⟨c, hc, rfl⟩ := List.mem_map.1 h
    exact hchunk hc
  · obtain rfl := List.mem_singleton.1 h
    unfold rootOf
    split
    · next c => exact hchunk List.mem_cons_self
    · have hsize := parentOf_encodeSize_le hsha hne
      have hbytes := nodeBytes_length_add_le fun link hl =>
        (parentOf_links_plain hsha cs link hl).linkBytes_length_add_le
      have hmax : ptrdiffMax < 2 ^ 64 := ptrdiffMax_lt
      omega

/-- a failure is reported exactly when the file cannot be opened or nothing fails.  No file is
longer than an `off_t` can say -/
theorem reportsFailure_iff {opened : Bool} {file : List UInt8} {errorAt : Option Nat}
    (hsha : ∀ x, (sha256 x).length = 32) (hrecords : HoldsRecords repo.context.datastore)
    (hfile : file.length ≤ ptrdiffMax) :
    ReportsFailure sha256 envs opened file errorAt repo ↔
      opened = false ∨ ImportsWell sha256 envs file errorAt repo := by
  have hptr : ptrdiffMax = 2 ^ 63 - 1 := rfl
  have hlen {rest : List UInt8} (hle : rest.length ≤ file.length) :
      87 * (chunks maxDataSize_pos rest).length + 35 ≤ ptrdiffMax := by
    rw [length_chunks]
    unfold maxDataSize
    omega
  have hnone : ∀ node ∈ nodesAdded sha256 [] (chunks maxDataSize_pos file), node.hash = none :=
    fun node h => nodesOf_hash (mem_nodesAdded.1 h)
  have hbytes : ∀ node ∈ nodesAdded sha256 [] (chunks maxDataSize_pos file),
      (nodeBytes node).length < 2 ^ 64 := fun node h =>
    nodesOf_length_lt hsha (fun c hc => length_le_of_mem_chunks maxDataSize_pos hc)
      (chunks_ne_nil maxDataSize_pos file) (hlen (Nat.le_refl _)) (mem_nodesAdded.1 h)
  have hloop (rest : List UInt8) (broken : Bool) (repo' : FsRepo)
      (hle : rest.length ≤ file.length) :
      (∃ s', FsImport.importLoop sha256 envs (rest.length + 1)
        ⟨rest, broken, parentOf sha256 [], repo, 0, false⟩ = .ok s' ∧
          s'.failed = false ∧ s'.repo = repo') ↔ _ :=
    importLoop_iff hsha hrecords
      (by have := hlen hle; rw [List.length_nil]; omega) (Nat.lt_succ_self rest.length)
  cases opened with
  | false => exact ⟨fun _ => .inl rfl, fun _ => ⟨_, _, rfl, fun _ => rfl, fun h => nomatch h⟩⟩
  | true =>
    constructor
    · intro ⟨retVal, s, h, hfailed, hkeeps⟩
      obtain ⟨s', hrun, h⟩ := bind_eq_ok.1 h
      cases h
      have hfine : s.failed = false := by
        cases hs : s.failed with
        | false => rfl
        | true => cases hfailed hs
      cases errorAt with
      | some k =>
        obtain ⟨_, hbroken, _⟩ := (hloop (file.take k) true s.repo (List.length_take_le' _ _)).1
          ⟨s, hrun, hfine, rfl⟩
        cases hbroken
      | none =>
        obtain ⟨_, _, hsizes, hall⟩ := (hloop file false s.repo (Nat.le_refl _)).1
          ⟨s, hrun, hfine, rfl⟩
        obtain ⟨hrecorded, hnames⟩ := (keepsAll_iff hsha hrecords hnone hbytes hall).1
          fun node hn => hkeeps rfl node (mem_nodesAdded.1 hn)
        exact .inr ⟨rfl, hsizes, ⟨s.repo, hall⟩, hrecorded, fun x hx y hy =>
          hnames x (mem_nodesAdded.2 hx) y (mem_nodesAdded.2 hy)⟩
    · rintro (h | ⟨rfl, hsizes, ⟨repo', hall⟩, hrecorded, hnames⟩)
      · cases h
      · obtain ⟨s, hrun, hfine, rfl⟩ := (hloop file false repo' (Nat.le_refl _)).2
          ⟨rfl, rfl, hsizes, hall⟩
        have hkeeps := (keepsAll_iff hsha hrecords hnone hbytes hall).2 ⟨hrecorded, fun x hx y hy =>
          hnames x (mem_nodesAdded.1 hx) y (mem_nodesAdded.1 hy)⟩
        refine ⟨true, s, ?_, fun h => ?_, fun _ node hn => hkeeps node (mem_nodesAdded.2 hn)⟩
        · show (FsImport.importLoop sha256 envs (file.length + 1)
            ⟨file, false, parentOf sha256 [], repo, 0, false⟩ >>= _) = _
          rw [hrun]
          rfl
        · rw [hfine] at h
          cases h

end

/-! ## short files -/

/-- a read that fails at the first byte of the second chunk is not reported -/
theorem reportsFailure_iff_two_chunks :
    ¬ ReportsFailure digestOfTwo (fun _ => storeEnvAtSeven false) true (fullChunk ++ [97])
      (some maxDataSize) .empty := by
  rw [reportsFailure_iff digestOfTwo_length holdsRecords_empty (by
    rw [List.length_append, fullChunk_length]
    decide)]
  rintro (h | h)
  · cases h
  · cases h.read

/-- neither a root that the store refuses nor a read that fails is reported -/
theorem not_reportsFailure_one_byte :
    ¬ ReportsFailure (fun _ => digestOfA) (fun _ => storeEnvAtSeven true) true [97] none .empty ∧
      ¬ ReportsFailure (fun _ => digestOfA) (fun _ => storeEnvAtSeven false) true [97] (some 0)
        .empty := by
  have hrun : ∀ input ∈ [(true, none), (false, some 0)],
      (FsImport.importFile (fun _ => digestOfA) (fun _ => storeEnvAtSeven input.1) true [97] input.2
        .empty).toOption.map (fun result => (result.1, result.2.failed)) = some (true, true) := by
    decide +kernel
  have hnot {full : Bool} {errorAt : Option Nat}
      (hinput : (full, errorAt) ∈ [(true, none), (false, some 0)]) :
      ¬ ReportsFailure (fun _ => digestOfA) (fun _ => storeEnvAtSeven full) true [97] errorAt
        .empty := by
    intro ⟨retVal, s, h, hreported, _⟩
    have hfailed := hrun (full, errorAt) hinput
    simp only at hfailed
    rw [h] at hfailed
    obtain ⟨hret, hfailed⟩ := Prod.mk.inj (Option.some.inj hfailed)
    cases hret.symm.trans (hreported hfailed)
  exact ⟨hnot (by decide), hnot (by decide)⟩

end Ipfs
