import Libipfs.Blocks.StoreRoundTrip
import Libipfs.Repo.PutReports

/-!
# Nodes and a store that may fail

A node goes into a file of the block store and into the datastore, and each of the two may fail: the
disk may be full, and so may the map of the database.

* `FsRepo.merkledagAdd`, `FsRepo.merkledagGet`   adding and reading a node, on the files and tables;
* `FsRepo.Keeps`         the bytes are in the file of their hash, and the hash is in the datastore;
* `ContentAddressed`     a node that is added is kept under the hash of its encoding and comes back,
                         and one that is not leaves nothing behind;
* `AddsWell`             the adds for which that is so;
* `contentAddressed_iff` **no other**: the hash that a node has is believed, a file stays where the
                         record for it is refused, and a record may be lost or kept unnoticed.
-/

namespace Ipfs
open CSem Libp2p Lmdb

/-- the files that can be opened, the bytes the disk takes, and what meets the put -/
structure StoreEnv where
  opens : List UInt8 → Bool
  room : Nat
  put : PutEnv

structure FsRepo where
  files : Files
  context : LmdbContext

namespace FsRepo

def putFile (repo : FsRepo) (key content : List UInt8) : FsRepo :=
  { repo with files := Function.update repo.files key (some content) }

section
variable (sha256 : List UInt8 → List UInt8) (env : StoreEnv)

/-! ## writing -/

/-- the number of bytes written, `none` when the function returns 0; what the disk takes of a block
stays in the file either way -/
def blockstorePut (block : Block) (repo : FsRepo) : Exec (Option Nat × FsRepo) := do
  match ← cidToBase32 block.cid with
  | none => .ok (none, repo)
  | some key => do
    let protobuf ← blocksBlockProtobufEncode block (blocksBlockProtobufEncodeSize block)
    require .null (env.opens key)
    let written := protobuf.take env.room
    if written.length ≠ protobuf.length then .ok (none, repo.putFile key written)
    else .ok (some written.length, repo.putFile key written)

def addBlockToDatastore (block : Block) (repo : FsRepo) : Exec (Bool × FsRepo) := do
  let cid ← deref block.cid
  match ← dsKeyFromBinary cid.hash fsKeyLength with
  | none => .ok (false, repo)
  | some value => do
    let record : DatastoreRecord := { key := cid.hash, value := value, timestamp := 0 }
    let (retVal, _, context) ← repoFsrepoLmdbPut env.put record repo.context
    .ok (retVal ≠ 0, { repo with context := context })

def fsrepoBlockWrite (block : Block) (repo : FsRepo) : Exec (Option Nat × FsRepo) := do
  match ← blockstorePut env block repo with
  | (none, repo) => .ok (none, repo)
  | (some bytesWritten, repo) => do
    match ← addBlockToDatastore env block repo with
    | (false, repo) => .ok (none, repo)
    | (true, repo) => .ok (some bytesWritten, repo)

/-- the number of bytes written, `none` when the function returns 0, and the node, which keeps the
hash that was computed -/
def merkledagAdd (node : HashtableNode) (repo : FsRepo) :
    Exec (Option Nat × HashtableNode × FsRepo) := do
  let node ← merkledagHash sha256 node
  let block ← merkledagConvertNodeToBlock node
  let (bytesWritten, repo) ← fsrepoBlockWrite env block repo
  .ok (bytesWritten, node, repo)

end

/-! ## reading -/

/-- the record is looked up to see whether it is there -/
def fsrepoNodeRead (hash : List UInt8) (repo : FsRepo) : Exec (Option HashtableNode) := do
  match ← repoFsrepoLmdbGet hash repo.context with
  | none => .ok none
  | some _ => blockstoreGetNode hash repo.files

def merkledagGet (hash : List UInt8) (repo : FsRepo) : Exec (Option HashtableNode) := do
  match ← repoFsrepoLmdbGet hash repo.context with
  | none => .ok none
  | some _ => do
    match ← fsrepoNodeRead hash repo with
    | none => .ok none
    | some node => .ok (some (node.setHash hash))

/-! ## what is kept -/

/-- the bytes are in the file of their hash, and the datastore knows the hash -/
structure Keeps (sha256 : List UInt8 → List UInt8) (repo : FsRepo) (x : List UInt8) : Prop where
  file : ∃ key, hashToBase32 (sha256 x) = .ok (some key) ∧
    repo.files key = some (blockBytes (blockOf sha256 x))
  record : repo.context.datastore.values (sha256 x) ≠ []

end FsRepo

/-- adding the node returns: with its bytes kept under their hash, where they are read back as the
node, or with nothing changed -/
def ContentAddressed (sha256 : List UInt8 → List UInt8) (env : StoreEnv) (node : HashtableNode)
    (repo : FsRepo) : Prop :=
  ∃ result node' repo', repo.merkledagAdd sha256 env node = .ok (result, node', repo') ∧
    match result with
    | some _ => node'.hash = some (sha256 (nodeBytes node)) ∧
        repo'.Keeps sha256 (nodeBytes node) ∧
        ∃ got, repo'.merkledagGet (sha256 (nodeBytes node)) = .ok (some got) ∧
          got.data = node.data ∧ List.Forall₂ SameLink got.links node.links ∧
          got.hash = some (sha256 (nodeBytes node))
    | none => repo' = repo

/-! ## the adds that do well -/

/-- the hash of a node: the one it has, or that of its encoding -/
def HashtableNode.hashOf (sha256 : List UInt8 → List UInt8) (node : HashtableNode) : List UInt8 :=
  node.hash.getD (sha256 (nodeBytes node))

/-- the block as which a node is stored -/
def HashtableNode.storedBlock (sha256 : List UInt8 → List UInt8) (node : HashtableNode) : Block :=
  { cid := some (cidNew 1 (node.hashOf sha256) 0x70), data := nodeBytes node }

/-- the record of a hash at a time -/
def hashRecord (now : Nat) (hash : List UInt8) : DatastoreRecord :=
  { key := hash, value := (base32Chars hash).take fsKeyLength, timestamp := now }

/-- the record is not kept, and this is returned: LMDB refuses it, or the hash has another one and
there is no room in the journal -/
def RecordRefused (env : PutEnv) (hash : List UInt8) (context : LmdbContext) : Prop :=
  Refused env (hashRecord env.now hash) ∨
    recordBytes (hashRecord env.now hash) ∉ context.datastore.values hash ∧
      context.datastore.values hash ≠ [] ∧ env.now ≠ 0 ∧ JournalFull env hash

/-- the first record of the hash is lost over the journal, or one of time 0 is put beside another,
and the opposite is returned -/
def RecordMisreported (env : PutEnv) (hash : List UInt8) (context : LmdbContext) : Prop :=
  ¬ Refused env (hashRecord env.now hash) ∧
    recordBytes (hashRecord env.now hash) ∉ context.datastore.values hash ∧
      if context.datastore.values hash = [] then JournalFull env hash else env.now = 0

/-- the put of the record returns, and tells what it has done -/
structure RecordReported (env : PutEnv) (hash : List UInt8) (context : LmdbContext) : Prop where
  time : env.now < 2 ^ 56
  searched : ∀ existingRecord, repoFsrepoLmdbGet hash context = .ok existingRecord →
    Safe (searchJournal existingRecord (hashRecord 0 hash) context.journal)
  told : ¬ RecordMisreported env hash context

/-- the block gets into its file, and its record into the datastore, or this file was there before;
and it is a block under the hash of its data, of a length that is an `int`, and with something of
the node in it -/
structure StoresWell (sha256 : List UInt8 → List UInt8) (env : StoreEnv) (node : HashtableNode)
    (repo : FsRepo) (key : List UInt8) : Prop where
  encoded : Safe (blocksBlockProtobufEncode (node.storedBlock sha256)
    (blocksBlockProtobufEncodeSize (node.storedBlock sha256)))
  opens : env.opens key = true
  cut : env.room < (blockBytes (node.storedBlock sha256)).length →
    repo.files key = some ((blockBytes (node.storedBlock sha256)).take env.room)
  reported : (blockBytes (node.storedBlock sha256)).length ≤ env.room →
    cryptoEncodingBase32EncodeSize (node.hashOf sha256).length ≤ fsKeyLength →
    RecordReported env.put (node.hashOf sha256) repo.context
  refused : (blockBytes (node.storedBlock sha256)).length ≤ env.room →
    fsKeyLength < cryptoEncodingBase32EncodeSize (node.hashOf sha256).length ∨
      RecordRefused env.put (node.hashOf sha256) repo.context →
    repo.files key = some (blockBytes (node.storedBlock sha256))
  kept : (blockBytes (node.storedBlock sha256)).length ≤ env.room →
    cryptoEncodingBase32EncodeSize (node.hashOf sha256).length ≤ fsKeyLength →
    ¬ RecordRefused env.put (node.hashOf sha256) repo.context →
    node.hashOf sha256 = sha256 (nodeBytes node) ∧ (node.data ≠ [] ∨ node.links ≠ []) ∧
      (∀ link ∈ node.links, ∀ name, link.name = some name → 0 ∉ name) ∧
      (blockBytes (node.storedBlock sha256)).length < 2 ^ 31

/-- the node can be encoded, and when a file name can be made of its hash it is stored well -/
structure AddsWell (sha256 : List UInt8 → List UInt8) (env : StoreEnv) (node : HashtableNode)
    (repo : FsRepo) : Prop where
  encoded : Safe (hashtableNodeProtobufEncode node (hashtableNodeProtobufEncodeSize node))
  stored : ∀ key, hashToBase32 (node.hashOf sha256) = .ok (some key) →
    StoresWell sha256 env node repo key

section
variable {sha256 : List UInt8 → List UInt8} {env : StoreEnv} {node node' got : HashtableNode}
variable {repo repo' : FsRepo} {key hash x : List UInt8} {result : Option Nat} {block : Block}
variable {context context' : LmdbContext} {journalRecord : Option JournalRecord}
variable {existingRecord : Option DatastoreRecord} {retVal : Int} {after : DatastoreRecord}

/-! ### the record -/

theorem put_hashRecord_eq_ok {env : PutEnv} :
    repoFsrepoLmdbPut env (hashRecord 0 hash) context = .ok (retVal, after, context') ↔
      env.now < 2 ^ 56 ∧ after = hashRecord env.now hash ∧
        ∃ existingRecord journalRecord, repoFsrepoLmdbGet hash context = .ok existingRecord ∧
          searchJournal existingRecord (hashRecord 0 hash) context.journal = .ok journalRecord ∧
          written env journalRecord (hashRecord env.now hash) context = .ok (retVal, context') := by
  have hlowered (existingRecord : Option DatastoreRecord) :
      lowered existingRecord (hashRecord 0 hash) = hashRecord 0 hash := by
    unfold lowered
    split
    · rw [if_neg fun h => Nat.not_lt_zero _ h.2]
    · rfl
  have hstamped : stamped env.now (hashRecord 0 hash) = hashRecord env.now hash := by
    have hzero : (hashRecord 0 hash).timestamp = 0 := rfl
    unfold stamped
    rw [if_pos (Or.inl hzero)]
    rfl
  rw [repoFsrepoLmdbPut_eq_ok]
  simp only [hlowered, hstamped]
  constructor
  · intro ⟨existingRecord, journalRecord, hget, hsearch, hts, hafter, hw⟩
    exact ⟨hts, hafter, existingRecord, journalRecord, hget, hsearch, hw⟩
  · intro ⟨hts, hafter, existingRecord, journalRecord, hget, hsearch, hw⟩
    exact ⟨existingRecord, journalRecord, hget, hsearch, hts, hafter, hw⟩

/-- what the record of a hash finds in the tables -/
theorem exists_of_searchJournal (h : HoldsRecords context.datastore)
    (hget : repoFsrepoLmdbGet hash context = .ok existingRecord)
    (hsearch : searchJournal existingRecord (hashRecord 0 hash) context.journal =
      .ok journalRecord) :
    context.datastore.values hash = [] ∧ journalRecord = none ∨
      context.datastore.values hash ≠ [] ∧
        ∃ j, journalRecord = some j ∧ j.timestamp = 0 ∧ j.hash = hash := by
  rcases h.get hash with ⟨hnil, hnone⟩ | ⟨record, rest, -, -, hfit, hcons, hsome⟩
  · rw [hnone] at hget
    cases hget
    cases hsearch
    exact .inl ⟨hnil, rfl⟩
  · rw [hsome] at hget
    cases hget
    obtain ⟨j, hj, hts, hhash⟩ := searchJournal_some (show 0 < hash.length from hfit.1) hsearch
    refine .inr ⟨?_, j, hj, hts, hhash⟩
    rw [hcons]
    exact List.cons_ne_nil _ _

/-- **what becomes of the record** -/
theorem written_hashRecord {env : PutEnv} (hlen : hash.length + 2 ≤ mdbMaxkeysize)
    (hts : env.now < 2 ^ 56)
    (hj : context.datastore.values hash = [] ∧ journalRecord = none ∨
      context.datastore.values hash ≠ [] ∧
        ∃ j, journalRecord = some j ∧ j.timestamp = 0 ∧ j.hash = hash)
    (h : written env journalRecord (hashRecord env.now hash) context = .ok (retVal, context')) :
    RecordRefused env hash context ∧ retVal = 0 ∧ context' = context ∨
      RecordMisreported env hash context ∧
        (retVal ≠ 0 ∧ context'.datastore.values hash = [] ∨ retVal = 0 ∧ context' ≠ context) ∨
      ¬ RecordRefused env hash context ∧ ¬ RecordMisreported env hash context ∧ retVal ≠ 0 ∧
        context'.datastore.values hash ≠ [] := by
  by_cases href : Refused env (hashRecord env.now hash)
  · rw [written_of_refused href] at h
    cases h
    exact .inl ⟨.inl href, rfl, rfl⟩
  by_cases hm : recordBytes (hashRecord env.now hash) ∈ context.datastore.values hash
  · rw [written_of_mem href hm] at h
    cases h
    refine .inr (.inr ⟨?_, fun hmis => hmis.2.1 hm, by decide, List.ne_nil_of_mem hm⟩)
    exact fun hrefused => hrefused.elim href fun hbeside => hbeside.1 hm
  have hacc : Accepted env (hashRecord env.now hash) context := ⟨href, hm⟩
  -- the new record stays in the datastore, or the transaction is lost
  have hinserted {journal : MdbTable} : (⟨context.datastore.insert hash
      (recordBytes (hashRecord env.now hash)), journal⟩ : LmdbContext).datastore.values hash ≠ [] :=
    List.ne_nil_of_mem Multimap.mem_values_insert_self
  rcases hj with ⟨hnil, rfl⟩ | ⟨hcons, j, rfl, htime, hhash⟩
  · have hw := written_entry hacc hts
      (show journalEntry none (hashRecord env.now hash) = some _ from rfl) rfl
    have hbeside : ¬ RecordRefused env hash context :=
      fun hrefused => hrefused.elim href fun hbeside => hbeside.2.1 hnil
    rw [h] at hw
    by_cases hfull : JournalFull env (hashRecord env.now hash).key
    · rw [if_pos hfull] at hw
      cases hw
      refine .inr (.inl ⟨⟨href, hm, ?_⟩, .inl ⟨by decide, hnil⟩⟩)
      rw [if_pos hnil]
      exact hfull
    · have hmis : ¬ RecordMisreported env hash context := fun hmis => by
        have hjournal := hmis.2.2
        rw [if_pos hnil] at hjournal
        exact hfull hjournal
      rw [if_neg hfull, if_pos (show (hashRecord env.now hash).key.length + 2 ≤ _ from hlen)] at hw
      cases hw
      exact .inr (.inr ⟨hbeside, hmis, by decide, hinserted⟩)
  · by_cases hnow : env.now = 0
    · have hentry : journalEntry (some j) (hashRecord env.now hash) = none := by
        show (if j.timestamp ≠ env.now then _ else none) = _
        rw [if_neg (not_not_intro (htime.trans hnow.symm))]
      rw [written_of_accepted hacc hts, hentry] at h
      cases h
      refine .inr (.inl ⟨⟨href, hm, ?_⟩, .inr ⟨rfl, inserted_ne hm⟩⟩)
      rw [if_neg hcons]
      exact hnow
    · have hentry : journalEntry (some j) (hashRecord env.now hash) =
          some { j with timestamp := env.now } := by
        show (if j.timestamp ≠ env.now then _ else none) = _
        rw [if_pos (fun he => hnow (he.symm.trans htime))]
        rfl
      have hmis : ¬ RecordMisreported env hash context := fun hmis => by
        have htime := hmis.2.2
        rw [if_neg hcons] at htime
        exact hnow htime
      have hw := written_entry hacc hts hentry hhash
      rw [h] at hw
      by_cases hfull : JournalFull env (hashRecord env.now hash).key
      · rw [if_pos hfull, if_neg (Option.some_ne_none j)] at hw
        cases hw
        exact .inl ⟨.inr ⟨hm, hcons, hnow, hfull⟩, rfl, rfl⟩
      · rw [if_neg hfull, if_pos (show (hashRecord env.now hash).key.length + 2 ≤ _ from hlen)] at hw
        cases hw
        refine .inr (.inr ⟨?_, hmis, by decide, hinserted⟩)
        exact fun hrefused => hrefused.elim href fun hbeside => hfull hbeside.2.2.2

/-! ### the file -/

/-- with room for the block it is stored as on a disk that takes all it is given -/
theorem blockstorePut_of_room (hroom : (blockBytes block).length ≤ env.room) :
    repo.blockstorePut env block = (blockstorePut env.opens block repo.files >>= fun put =>
      .ok (put.1, { repo with files := put.2 })) := by
  unfold FsRepo.blockstorePut blockstorePut
  cases cidToBase32 block.cid with
  | error e => rfl
  | ok key =>
    cases key with
    | none => rfl
    | some key =>
      simp only [ok_bind]
      cases hencode : blocksBlockProtobufEncode block (blocksBlockProtobufEncodeSize block) with
      | error e => rfl
      | ok protobuf =>
        obtain ⟨rfl, -⟩ := blocksBlockProtobufEncode_ok hencode
        simp only [ok_bind, List.take_of_length_le hroom]
        by_cases hopens : env.opens key = true
        · rw [require_pos hopens, ok_bind, ok_bind, if_neg fun hne => hne rfl]
          rfl
        · rw [require_neg hopens]
          rfl

theorem blockstorePut_eq_ok (hkey : cidToBase32 block.cid = .ok (some key)) :
    repo.blockstorePut env block = .ok (result, repo') ↔
      Safe (blocksBlockProtobufEncode block (blocksBlockProtobufEncodeSize block)) ∧
        env.opens key = true ∧
        result = (if env.room < (blockBytes block).length then none
          else some (blockBytes block).length) ∧
        repo' = repo.putFile key ((blockBytes block).take env.room) := by
  have hlength : ((blockBytes block).take env.room).length ≠ (blockBytes block).length ↔
      env.room < (blockBytes block).length := by
    rw [List.length_take]
    omega
  unfold FsRepo.blockstorePut
  rw [hkey, ok_bind]
  simp only
  constructor
  · intro h
    obtain ⟨protobuf, hencode, h⟩ := bind_eq_ok.1 h
    obtain ⟨hopens, h⟩ := require_bind_eq_ok.1 h
    obtain ⟨rfl, -⟩ := blocksBlockProtobufEncode_ok hencode
    refine ⟨⟨_, hencode⟩, hopens, ?_⟩
    simp only [hlength] at h
    by_cases hroom : env.room < (blockBytes block).length
    · rw [if_pos hroom] at h ⊢
      cases h
      exact ⟨rfl, rfl⟩
    · rw [if_neg hroom] at h ⊢
      cases h
      rw [List.take_of_length_le (Nat.le_of_not_lt hroom)]
      exact ⟨rfl, rfl⟩
  · intro h
    obtain ⟨⟨protobuf, hencode⟩, hopens, hresult, hrepo⟩ := h
    obtain ⟨rfl, -⟩ := blocksBlockProtobufEncode_ok hencode
    rw [hencode, ok_bind, require_pos hopens, ok_bind]
    simp only [hlength]
    rw [hresult, hrepo]
    split
    · rfl
    · next hroom =>
      rw [List.take_of_length_le (Nat.le_of_not_lt hroom)]

/-- the files are what they were iff this file was there -/
theorem putFile_eq_iff {content : List UInt8} :
    repo.putFile key content = repo ↔ repo.files key = some content := by
  constructor
  · intro h
    have hfiles : Function.update repo.files key (some content) = repo.files :=
      congrArg FsRepo.files h
    rw [← hfiles, Function.update_self]
  · intro h
    unfold FsRepo.putFile
    rw [← h, Function.update_eq_self]

/-! ### adding -/

theorem merkledagAdd_eq_ok : repo.merkledagAdd sha256 env node = .ok (result, node', repo') ↔
    Safe (hashtableNodeProtobufEncode node (hashtableNodeProtobufEncodeSize node)) ∧
      node' = { node with hash := some (node.hashOf sha256) } ∧
      repo.fsrepoBlockWrite env (node.storedBlock sha256) = .ok (result, repo') := by
  have hhash (hencode : hashtableNodeProtobufEncode node (hashtableNodeProtobufEncodeSize node) =
      .ok (nodeBytes node)) : merkledagHash sha256 node =
        .ok { node with hash := some (node.hashOf sha256) } := by
    unfold merkledagHash HashtableNode.hashOf
    cases hash : node.hash with
    | none =>
      rw [if_pos rfl, hencode]
      rfl
    | some h =>
      rw [if_neg (Option.some_ne_none h)]
      show Except.ok node = Except.ok { node with hash := some h }
      rw [← hash]
  have hconvert (hencode : hashtableNodeProtobufEncode node
      (hashtableNodeProtobufEncodeSize node) = .ok (nodeBytes node)) :
      merkledagConvertNodeToBlock { node with hash := some (node.hashOf sha256) } =
        .ok (node.storedBlock sha256) := by
    show (hashtableNodeProtobufEncode node (hashtableNodeProtobufEncodeSize node) >>= _) = _
    rw [hencode]
    rfl
  unfold FsRepo.merkledagAdd
  constructor
  · intro h
    have hsafe : Safe (hashtableNodeProtobufEncode node
        (hashtableNodeProtobufEncodeSize node)) := by
      obtain ⟨hashed, hhashed, h⟩ := bind_eq_ok.1 h
      obtain ⟨block, hblock, -⟩ := bind_eq_ok.1 h
      obtain ⟨data, hdata, -⟩ := bind_eq_ok.1 hblock
      -- a hash makes no difference to the encoding
      unfold merkledagHash at hhashed
      split at hhashed
      · obtain ⟨protobuf, hprotobuf, -⟩ := bind_eq_ok.1 hhashed
        exact ⟨protobuf, hprotobuf⟩
      · cases hhashed
        exact ⟨data, hdata⟩
    obtain ⟨out, hencode⟩ := hsafe
    obtain ⟨rfl, -⟩ := hashtableNodeProtobufEncode_ok hencode
    rw [hhash hencode, ok_bind, hconvert hencode, ok_bind] at h
    obtain ⟨⟨bytesWritten, written⟩, hwrite, h⟩ := bind_eq_ok.1 h
    cases h
    exact ⟨⟨_, hencode⟩, rfl, hwrite⟩
  · intro ⟨⟨out, hencode⟩, hnode, hwrite⟩
    obtain ⟨rfl, -⟩ := hashtableNodeProtobufEncode_ok hencode
    rw [hhash hencode, ok_bind, hconvert hencode, ok_bind, hwrite, ok_bind, hnode]

theorem cidToBase32_storedBlock :
    cidToBase32 (node.storedBlock sha256).cid = hashToBase32 (node.hashOf sha256) :=
  cidToBase32_some _

/-- no name, no file -/
theorem fsrepoBlockWrite_of_none (h : hashToBase32 (node.hashOf sha256) = .ok none) :
    repo.fsrepoBlockWrite env (node.storedBlock sha256) = .ok (none, repo) := by
  unfold FsRepo.fsrepoBlockWrite FsRepo.blockstorePut
  rw [cidToBase32_storedBlock, h]
  rfl

theorem addBlockToDatastore_storedBlock :
    repo.addBlockToDatastore env (node.storedBlock sha256) =
      if fsKeyLength < cryptoEncodingBase32EncodeSize (node.hashOf sha256).length then
        .ok (false, repo)
      else repoFsrepoLmdbPut env.put (hashRecord 0 (node.hashOf sha256)) repo.context >>=
        fun (retVal, _, context) =>
          .ok (decide (retVal ≠ 0), { repo with context := context }) := by
  have hcid : (node.storedBlock sha256).cid = some (cidNew 1 (node.hashOf sha256) 0x70) := rfl
  have hhash : (cidNew 1 (node.hashOf sha256) 0x70).hash = node.hashOf sha256 := rfl
  unfold FsRepo.addBlockToDatastore
  rw [hcid, deref_some, ok_bind, hhash]
  by_cases hsize : fsKeyLength < cryptoEncodingBase32EncodeSize (node.hashOf sha256).length
  · rw [dsKeyFromBinary_eq_none hsize, if_pos hsize, ok_bind]
  · rw [dsKeyFromBinary_eq (Nat.le_of_not_lt hsize), if_neg hsize, ok_bind]
    unfold hashRecord
    rfl

/-- a file that is written whole gets its record -/
theorem fsrepoBlockWrite_eq_ok (hkey : hashToBase32 (node.hashOf sha256) = .ok (some key)) :
    repo.fsrepoBlockWrite env (node.storedBlock sha256) = .ok (result, repo') ↔
      Safe (blocksBlockProtobufEncode (node.storedBlock sha256)
        (blocksBlockProtobufEncodeSize (node.storedBlock sha256))) ∧ env.opens key = true ∧
        if env.room < (blockBytes (node.storedBlock sha256)).length then
          result = none ∧
            repo' = repo.putFile key ((blockBytes (node.storedBlock sha256)).take env.room)
        else if fsKeyLength < cryptoEncodingBase32EncodeSize (node.hashOf sha256).length then
          result = none ∧ repo' = repo.putFile key (blockBytes (node.storedBlock sha256))
        else
          ∃ retVal after context', repoFsrepoLmdbPut env.put (hashRecord 0 (node.hashOf sha256))
              repo.context = .ok (retVal, after, context') ∧
            result = (if retVal = 0 then none
              else some (blockBytes (node.storedBlock sha256)).length) ∧
            repo' = { repo.putFile key (blockBytes (node.storedBlock sha256)) with
              context := context' } := by
  have hname : cidToBase32 (node.storedBlock sha256).cid = .ok (some key) :=
    cidToBase32_storedBlock.trans hkey
  unfold FsRepo.fsrepoBlockWrite
  constructor
  · intro h
    obtain ⟨⟨bytesWritten, repo₁⟩, hput, h⟩ := bind_eq_ok.1 h
    obtain ⟨hsafe, hopens, hwritten, hrepo⟩ := (blockstorePut_eq_ok hname).1 hput
    refine ⟨hsafe, hopens, ?_⟩
    by_cases hroom : env.room < (blockBytes (node.storedBlock sha256)).length
    · rw [if_pos hroom] at hwritten ⊢
      subst hwritten
      cases h
      exact ⟨rfl, hrepo⟩
    · rw [if_neg hroom] at hwritten ⊢
      rw [List.take_of_length_le (Nat.le_of_not_lt hroom)] at hrepo
      subst hwritten hrepo
      simp only at h
      rw [addBlockToDatastore_storedBlock] at h
      by_cases hsize : fsKeyLength < cryptoEncodingBase32EncodeSize (node.hashOf sha256).length
      · rw [if_pos hsize] at h ⊢
        cases h
        exact ⟨rfl, rfl⟩
      · rw [if_neg hsize] at h ⊢
        obtain ⟨⟨told, repo₂⟩, hadd, h⟩ := bind_eq_ok.1 h
        obtain ⟨⟨retVal, after, context'⟩, hrecord, hadd⟩ := bind_eq_ok.1 hadd
        refine ⟨retVal, after, context', hrecord, ?_⟩
        cases hadd
        by_cases hzero : retVal = 0
        · subst hzero
          cases h
          exact ⟨rfl, rfl⟩
        · rw [decide_eq_true hzero] at h
          cases h
          rw [if_neg hzero]
          exact ⟨rfl, rfl⟩
  · intro ⟨hsafe, hopens, h⟩
    have hput : repo.blockstorePut env (node.storedBlock sha256) = _ :=
      (blockstorePut_eq_ok hname).2 ⟨hsafe, hopens, rfl, rfl⟩
    rw [hput, ok_bind]
    by_cases hroom : env.room < (blockBytes (node.storedBlock sha256)).length
    · rw [if_pos hroom] at h ⊢
      obtain ⟨rfl, rfl⟩ := h
      rfl
    · rw [if_neg hroom] at h ⊢
      rw [List.take_of_length_le (Nat.le_of_not_lt hroom)]
      simp only
      rw [addBlockToDatastore_storedBlock]
      by_cases hsize : fsKeyLength < cryptoEncodingBase32EncodeSize (node.hashOf sha256).length
      · rw [if_pos hsize] at h ⊢
        obtain ⟨rfl, rfl⟩ := h
        rfl
      · rw [if_neg hsize] at h ⊢
        obtain ⟨retVal, after, context', hrecord, rfl, rfl⟩ := h
        show ((repoFsrepoLmdbPut env.put (hashRecord 0 (node.hashOf sha256)) repo.context >>= _) >>=
          _) = _
        rw [hrecord]
        by_cases hzero : retVal = 0
        · subst hzero
          rfl
        · rw [if_neg hzero, ok_bind]
          simp only
          rw [decide_eq_true hzero]
          rfl

theorem storedBlock_of_hash (h : node.hashOf sha256 = sha256 (nodeBytes node)) :
    node.storedBlock sha256 = blockOf sha256 (nodeBytes node) := by
  unfold HashtableNode.storedBlock
  rw [h]
  rfl

/-- a name can be made, or not; the buffer is never too small for it -/
theorem hashToBase32_safe (h : hash.length ≤ ptrdiffMax) :
    hashToBase32 hash = .ok none ∨ ∃ key, hashToBase32 hash = .ok (some key) := by
  by_cases h5 : 5 ≤ hash.length
  · by_cases hsize : cryptoEncodingBase32EncodeSize hash.length < ptrdiffMax
    · exact .inr ⟨_, hashToBase32_eq h5 h hsize⟩
    · left
      unfold hashToBase32
      simp only
      rw [if_pos (by omega)]
  · exact .inl (hashToBase32_short (Nat.lt_of_not_le h5))

/-- a hash whose name fits the record can be a key of the journal -/
theorem hash_length_of_encodeSize (hmax : hash.length ≤ ptrdiffMax)
    (h : cryptoEncodingBase32EncodeSize hash.length ≤ fsKeyLength) :
    hash.length + 2 ≤ mdbMaxkeysize := by
  have h5 : 5 ≤ hash.length := by
    by_contra hshort
    have hwrapped := ptrdiffMax_lt_encodeSize (Nat.lt_of_not_le hshort)
    unfold ptrdiffMax at hwrapped
    unfold fsKeyLength at h
    omega
  rw [encodeSize_of_le h5 hmax] at h
  unfold fsKeyLength at h
  unfold mdbMaxkeysize
  omega

theorem hashOf_length_le
    (hsize : blocksBlockProtobufEncodeSize (node.storedBlock sha256) ≤ ptrdiffMax) :
    (node.hashOf sha256).length ≤ ptrdiffMax := by
  have hsum : 22 + (11 + 12 + (node.hashOf sha256).length + 11) + (nodeBytes node).length ≤
    ptrdiffMax := hsize
  omega

/-- what is refused is not told wrongly -/
theorem not_misreported_of_refused {env : PutEnv} (h : RecordRefused env hash context) :
    ¬ RecordMisreported env hash context := by
  intro ⟨href, hm, hcase⟩
  rcases h with h | ⟨-, hcons, hnow, -⟩
  · exact href h
  · rw [if_neg hcons] at hcase
    exact hnow hcase

/-! ### reading -/

/-- **bytes that are kept** are read as the node they are the encoding of -/
theorem merkledagGet_keeps (hsha : (sha256 x).length = 32)
    (hrecords : HoldsRecords repo.context.datastore) (hkeeps : repo.Keeps sha256 x)
    (hsize : blocksBlockProtobufEncodeSize (blockOf sha256 x) ≤ ptrdiffMax) :
    repo.merkledagGet (sha256 x) = .ok (some got) ↔
      (blockBytes (blockOf sha256 x)).length < 2 ^ 31 ∧
        ∃ decoded, hashtableNodeProtobufDecode x = .ok (some decoded) ∧
          got = decoded.setHash (sha256 x) := by
  obtain ⟨record, hget⟩ : ∃ record, repoFsrepoLmdbGet (sha256 x) repo.context =
      .ok (some record) := by
    rcases hrecords.get (sha256 x) with ⟨hnil, -⟩ | ⟨record, rest, -, -, -, -, hsome⟩
    · exact absurd hnil hkeeps.record
    · exact ⟨record, hsome⟩
  obtain ⟨key, hkey, hfile⟩ := hkeeps.file
  have hread : repo.merkledagGet (sha256 x) = (blockstoreGetNode (sha256 x) repo.files >>= fun r =>
      .ok (r.map fun node => node.setHash (sha256 x))) := by
    unfold FsRepo.merkledagGet FsRepo.fsrepoNodeRead
    rw [hget, ok_bind]
    simp only
    rw [ok_bind]
    cases blockstoreGetNode (sha256 x) repo.files with
    | error e => rfl
    | ok r =>
      cases r with
      | none => rfl
      | some node => rfl
  rw [hread]
  unfold blockstoreGetNode
  constructor
  · intro h
    obtain ⟨decoded, hdecoded, h⟩ := bind_eq_ok.1 h
    obtain ⟨piece, hpiece, hdecoded⟩ := bind_eq_ok.1 hdecoded
    obtain ⟨hint, hpiece⟩ := (blockstoreReadBlock_eq_ok hkey hfile).1 hpiece
    cases decoded with
    | none => cases h
    | some decoded =>
      cases h
      rcases take_toInt32 hint with ⟨hlt, hwhole⟩ | ⟨hlong, hlt⟩
      · rw [hwhole, blocksBlockProtobufDecode_blockBytes _ hlt] at hpiece
        cases hpiece
        exact ⟨hlt, decoded, hdecoded, rfl⟩
      · -- what is read of a file that is too long has no data
        have hhash : (cidNew 1 (sha256 x) 0x70).hash.length < 256 := by
          show (sha256 x).length < 256
          omega
        rw [blocksBlockProtobufDecode_piece rfl hhash hsize hlong hlt hpiece] at hdecoded
        cases hdecoded
  · intro h
    obtain ⟨hlt, decoded, hdecoded, hgot⟩ := h
    rw [blockstoreReadBlock_of_lt hkey hfile hlt (blocksBlockProtobufDecode_blockBytes _ hlt),
      ok_bind]
    show (hashtableNodeProtobufDecode x >>= _) = _
    rw [hdecoded, hgot]
    rfl

/-! ### adding and reading -/

/-- a node whose bytes are kept comes back when it is not empty and its block is not too long -/
theorem merkledagGet_added_iff (hsha : ∀ x, (sha256 x).length = 32)
    (hrecords : HoldsRecords repo.context.datastore)
    (hkeeps : repo.Keeps sha256 (nodeBytes node))
    (hencode : Safe (hashtableNodeProtobufEncode node (hashtableNodeProtobufEncodeSize node)))
    (hsize : blocksBlockProtobufEncodeSize (blockOf sha256 (nodeBytes node)) ≤ ptrdiffMax) :
    (∃ got, repo.merkledagGet (sha256 (nodeBytes node)) = .ok (some got) ∧
      got.data = node.data ∧ List.Forall₂ SameLink got.links node.links ∧
      got.hash = some (sha256 (nodeBytes node))) ↔
      (node.data ≠ [] ∨ node.links ≠ []) ∧
        (∀ link ∈ node.links, ∀ name, link.name = some name → 0 ∉ name) ∧
        (blockBytes (blockOf sha256 (nodeBytes node))).length < 2 ^ 31 := by
  have hread (got : HashtableNode) : repo.merkledagGet (sha256 (nodeBytes node)) =
      .ok (some got) ↔ _ := merkledagGet_keeps (hsha _) hrecords hkeeps hsize
  have hne : sha256 (nodeBytes node) ≠ [] := fun hnil => by
    have hlength := hsha (nodeBytes node)
    rw [hnil] at hlength
    cases hlength
  have hle : (nodeBytes node).length ≤ (blockBytes (blockOf sha256 (nodeBytes node))).length :=
    length_le_itemsBytes (show .bytes 1 .lengthDelimited (nodeBytes node) ∈
      blockItems (blockOf sha256 (nodeBytes node)) from List.mem_cons_self)
  have hcodec (hlt : (blockBytes (blockOf sha256 (nodeBytes node))).length < 2 ^ 31) :=
    nodeRoundTrips_iff_of_lt hencode (Nat.lt_of_le_of_lt hle hlt)
  obtain ⟨out, hencode⟩ := hencode
  obtain ⟨rfl, -⟩ := hashtableNodeProtobufEncode_ok hencode
  rw [← and_assoc]
  constructor
  · intro ⟨got, hget, hdata, hlinks, _⟩
    obtain ⟨hlt, decoded, hdecoded, rfl⟩ := (hread got).1 hget
    exact ⟨(hcodec hlt).1 ⟨_, decoded, hencode, hdecoded, hdata, hlinks⟩, hlt⟩
  · intro ⟨hnode, hlt⟩
    obtain ⟨bytes, decoded, hbytes, hdecoded, hdata, hlinks⟩ := (hcodec hlt).2 hnode
    rw [hencode] at hbytes
    cases hbytes
    refine ⟨_, (hread _).2 ⟨hlt, decoded, hdecoded, rfl⟩, hdata, hlinks, ?_⟩
    unfold HashtableNode.setHash
    rw [if_neg hne]

/-- the bytes are kept once the file is written and the record is in the datastore -/
theorem keeps_putFile (repo : FsRepo) (hkey : hashToBase32 (node.hashOf sha256) = .ok (some key))
    (hhash : node.hashOf sha256 = sha256 (nodeBytes node))
    (hrecord : context'.datastore.values (node.hashOf sha256) ≠ []) :
    ({ repo.putFile key (blockBytes (node.storedBlock sha256)) with context := context' } :
      FsRepo).Keeps sha256 (nodeBytes node) where
  file := by
    refine ⟨key, hhash ▸ hkey, ?_⟩
    show Function.update repo.files key _ key = _
    rw [Function.update_self, storedBlock_of_hash hhash]
  record := hhash ▸ hrecord

/-- an add that does what it should has met one of the ways that are well -/
theorem addsWell_of_contentAddressed (hsha : ∀ x, (sha256 x).length = 32)
    (hrecords : HoldsRecords repo.context.datastore)
    (hsize : blocksBlockProtobufEncodeSize (node.storedBlock sha256) ≤ ptrdiffMax)
    (h : ContentAddressed sha256 env node repo) : AddsWell sha256 env node repo := by
  obtain ⟨result, node', repo', hadd, hresult⟩ := h
  obtain ⟨hencode, rfl, hwrite⟩ := merkledagAdd_eq_ok.1 hadd
  refine ⟨hencode, fun key hkey => ?_⟩
  obtain ⟨hblock, hopens, hcase⟩ := (fsrepoBlockWrite_eq_ok hkey).1 hwrite
  by_cases hroom : env.room < (blockBytes (node.storedBlock sha256)).length
  · rw [if_pos hroom] at hcase
    obtain ⟨rfl, rfl⟩ := hcase
    exact ⟨hblock, hopens, fun _ => putFile_eq_iff.1 hresult, fun hle => by omega,
      fun hle => by omega, fun hle => by omega⟩
  rw [if_neg hroom] at hcase
  by_cases hkeySize : fsKeyLength < cryptoEncodingBase32EncodeSize (node.hashOf sha256).length
  · rw [if_pos hkeySize] at hcase
    obtain ⟨rfl, rfl⟩ := hcase
    exact ⟨hblock, hopens, fun hlt => absurd hlt hroom, fun _ hle => by omega,
      fun _ _ => putFile_eq_iff.1 hresult, fun _ hle => by omega⟩
  rw [if_neg hkeySize] at hcase
  obtain ⟨retVal, after, context', hput, rfl, rfl⟩ := hcase
  obtain ⟨hts, -, existingRecord, journalRecord, hget, hsearch, hw⟩ := put_hashRecord_eq_ok.1 hput
  have hsearched : ∀ existingRecord', repoFsrepoLmdbGet (node.hashOf sha256) repo.context =
      .ok existingRecord' →
      Safe (searchJournal existingRecord' (hashRecord 0 (node.hashOf sha256))
        repo.context.journal) := by
    intro existingRecord' hget'
    rw [hget] at hget'
    cases hget'
    exact ⟨_, hsearch⟩
  have hshort := hash_length_of_encodeSize (hashOf_length_le hsize) (Nat.le_of_not_lt hkeySize)
  rcases written_hashRecord hshort hts (exists_of_searchJournal hrecords hget hsearch) hw with
    ⟨href, rfl, rfl⟩ | ⟨hmis, hwrong⟩ | ⟨href, hmis, hret, hrecord⟩
  · exact ⟨hblock, hopens, fun hlt => absurd hlt hroom,
      fun _ _ => ⟨hts, hsearched, not_misreported_of_refused href⟩,
      fun _ _ => putFile_eq_iff.1 hresult, fun _ _ hnot => absurd href hnot⟩
  · -- what is told wrongly is not what it should be
    exfalso
    rcases hwrong with ⟨hret, hnil⟩ | ⟨rfl, hne⟩
    · rw [if_neg hret] at hresult
      obtain ⟨hhash, hkeeps, -⟩ := hresult
      have hhash : node.hashOf sha256 = sha256 (nodeBytes node) := Option.some.inj hhash
      rw [hhash] at hnil
      exact hkeeps.record hnil
    · exact hne (congrArg FsRepo.context hresult)
  · rw [if_neg hret] at hresult
    obtain ⟨hhash, hkeeps, hgot⟩ := hresult
    have hhash : node.hashOf sha256 = sha256 (nodeBytes node) := Option.some.inj hhash
    rw [storedBlock_of_hash hhash] at hsize
    have hback := (merkledagGet_added_iff hsha (hrecords.put hput) hkeeps hencode hsize).1 hgot
    refine ⟨hblock, hopens, fun hlt => absurd hlt hroom, fun _ _ => ⟨hts, hsearched, hmis⟩,
      fun _ hrefused => ?_, fun _ _ _ => ⟨hhash, hback.1, hback.2.1, ?_⟩⟩
    · exact absurd hrefused (not_or.2 ⟨hkeySize, href⟩)
    · rw [storedBlock_of_hash hhash]
      exact hback.2.2

/-- the ways that are well lead to what an add should do -/
theorem contentAddressed_of_addsWell (hsha : ∀ x, (sha256 x).length = 32)
    (hrecords : HoldsRecords repo.context.datastore)
    (hsize : blocksBlockProtobufEncodeSize (node.storedBlock sha256) ≤ ptrdiffMax)
    (h : AddsWell sha256 env node repo) : ContentAddressed sha256 env node repo := by
  rcases hashToBase32_safe (hashOf_length_le hsize) with hnone | ⟨key, hkey⟩
  · exact ⟨none, _, repo, merkledagAdd_eq_ok.2 ⟨h.encoded, rfl, fsrepoBlockWrite_of_none hnone⟩,
      rfl⟩
  have hstores := h.stored key hkey
  by_cases hroom : env.room < (blockBytes (node.storedBlock sha256)).length
  · refine ⟨none, _, _, merkledagAdd_eq_ok.2 ⟨h.encoded, rfl,
      (fsrepoBlockWrite_eq_ok hkey).2 ⟨hstores.encoded, hstores.opens, ?_⟩⟩,
      putFile_eq_iff.2 (hstores.cut hroom)⟩
    rw [if_pos hroom]
    exact ⟨rfl, rfl⟩
  have hfits := Nat.le_of_not_lt hroom
  by_cases hkeySize : fsKeyLength < cryptoEncodingBase32EncodeSize (node.hashOf sha256).length
  · refine ⟨none, _, _, merkledagAdd_eq_ok.2 ⟨h.encoded, rfl,
      (fsrepoBlockWrite_eq_ok hkey).2 ⟨hstores.encoded, hstores.opens, ?_⟩⟩,
      putFile_eq_iff.2 (hstores.refused hfits (.inl hkeySize))⟩
    rw [if_neg hroom, if_pos hkeySize]
    exact ⟨rfl, rfl⟩
  have hfitsKey := Nat.le_of_not_lt hkeySize
  have hreported := hstores.reported hfits hfitsKey
  obtain ⟨existingRecord, hget⟩ : Safe (repoFsrepoLmdbGet (node.hashOf sha256) repo.context) := by
    rcases hrecords.get (node.hashOf sha256) with ⟨_, hnone⟩ | ⟨record, rest, _, _, _, _, hsome⟩
    · exact ⟨_, hnone⟩
    · exact ⟨_, hsome⟩
  obtain ⟨journalRecord, hsearch⟩ := hreported.searched existingRecord hget
  have hfound := exists_of_searchJournal hrecords hget hsearch
  obtain ⟨⟨retVal, context'⟩, hw⟩ : Safe (written env.put journalRecord
      (hashRecord env.put.now (node.hashOf sha256)) repo.context) := written_safe hreported.time
  have hput : repoFsrepoLmdbPut env.put (hashRecord 0 (node.hashOf sha256)) repo.context =
      .ok (retVal, hashRecord env.put.now (node.hashOf sha256), context') :=
    put_hashRecord_eq_ok.2 ⟨hreported.time, rfl, existingRecord, journalRecord, hget, hsearch, hw⟩
  have hadd := merkledagAdd_eq_ok.2 ⟨h.encoded, rfl, (fsrepoBlockWrite_eq_ok hkey).2
    ⟨hstores.encoded, hstores.opens, by
      rw [if_neg hroom, if_neg hkeySize]
      exact ⟨retVal, _, context', hput, rfl, rfl⟩⟩⟩
  refine ⟨_, _, _, hadd, ?_⟩
  rcases written_hashRecord (hash_length_of_encodeSize (hashOf_length_le hsize) hfitsKey)
    hreported.time hfound hw with ⟨href, rfl, rfl⟩ | ⟨hmis, _⟩ | ⟨href, _, hret, hrecord⟩
  · rw [if_pos rfl]
    exact putFile_eq_iff.2 (hstores.refused hfits (.inr href))
  · exact absurd hmis hreported.told
  · obtain ⟨hhash, hsome, hnames, hlt⟩ := hstores.kept hfits hfitsKey href
    have hkeeps := keeps_putFile repo hkey hhash hrecord
    rw [storedBlock_of_hash hhash] at hsize hlt
    rw [if_neg hret]
    exact ⟨congrArg some hhash, hkeeps,
      (merkledagGet_added_iff hsha (hrecords.put hput) hkeeps h.encoded hsize).2 ⟨hsome, hnames, hlt⟩⟩

/-- an add is kept under the hash of the node's encoding and comes back, or leaves nothing behind,
exactly when it adds well -/
theorem contentAddressed_iff (hsha : ∀ x, (sha256 x).length = 32)
    (hrecords : HoldsRecords repo.context.datastore)
    (hsize : blocksBlockProtobufEncodeSize (node.storedBlock sha256) ≤ ptrdiffMax) :
    ContentAddressed sha256 env node repo ↔ AddsWell sha256 env node repo :=
  ⟨addsWell_of_contentAddressed hsha hrecords hsize,
    contentAddressed_of_addsWell hsha hrecords hsize⟩

end

/-! ## a node of one byte -/

/-- the digest of the bytes 0a 01 01 -/
def digestOfOne : List UInt8 :=
  [226, 112, 239, 109, 48, 103, 58, 190, 122, 252, 168, 5, 118, 197, 27, 225, 48, 81, 111, 141, 209,
    50, 77, 127, 195, 111, 108, 16, 108, 94, 30, 186]

/-- every file can be opened, and there is room on the disk; in the map there may be none -/
def storeEnvAtSeven (full : Bool) : StoreEnv where
  opens := fun _ => true
  room := 4096
  put := { now := 7, datastoreFull := full, journalFull := false, frame := .intact }

def FsRepo.empty : FsRepo :=
  { files := fun _ => none, context := { datastore := Multimap.empty, journal := Multimap.empty } }

/-- a node of one byte, which may have a hash -/
def nodeOfOne (hash : Option (List UInt8)) : HashtableNode := { data := [1], hash := hash }

theorem contentAddressed_iff_nodeOfOne :
    ContentAddressed (fun _ => digestOfOne) (storeEnvAtSeven false) (nodeOfOne none) .empty ↔
      AddsWell (fun _ => digestOfOne) (storeEnvAtSeven false) (nodeOfOne none) .empty :=
  contentAddressed_iff (fun _ => rfl) holdsRecords_empty (by decide)

/-- a hash of 32 ones is believed; and where the map is full the file of the block stays -/
theorem not_contentAddressed_nodeOfOne :
    ¬ ContentAddressed (fun _ => digestOfOne) (storeEnvAtSeven false)
        (nodeOfOne (some (List.replicate 32 1))) .empty ∧
      ¬ ContentAddressed (fun _ => digestOfOne) (storeEnvAtSeven true) (nodeOfOne none) .empty := by
  constructor
  · intro ⟨result, node', repo', hadd, hresult⟩
    have hkept : (FsRepo.empty.merkledagAdd (fun _ => digestOfOne) (storeEnvAtSeven false)
        (nodeOfOne (some (List.replicate 32 1)))).toOption.map
          (fun added => (added.1.isSome, added.2.1.hash)) =
        some (true, some (List.replicate 32 1)) := by
      decide +kernel
    rw [hadd] at hkept
    obtain ⟨hsome, hhash⟩ := Prod.mk.inj (Option.some.inj hkept)
    cases result with
    | none => cases hsome
    | some n =>
      have hones : some (List.replicate 32 1) = some digestOfOne := hhash.symm.trans hresult.1
      exact absurd hones (by decide)
  · intro ⟨result, node', repo', hadd, hresult⟩
    have hleft : (FsRepo.empty.merkledagAdd (fun _ => digestOfOne) (storeEnvAtSeven true)
        (nodeOfOne none)).toOption.map (fun added => (added.1.isNone,
          (added.2.2.files ((base32Chars digestOfOne).take 41)).isSome)) = some (true, true) := by
      decide +kernel
    rw [hadd] at hleft
    obtain ⟨hnone, hfile⟩ := Prod.mk.inj (Option.some.inj hleft)
    cases result with
    | some n => cases hnone
    | none =>
      obtain rfl : repo' = FsRepo.empty := hresult
      cases hfile

end Ipfs
