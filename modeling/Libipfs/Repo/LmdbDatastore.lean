import Libipfs.Repo.Journalstore
import Libipfs.Lib.Run

/-!
# The datastore

The value of a record of the datastore is its timestamp as a varint and the data behind it.

* `repoFsrepoLmdbGet`, `repoFsrepoLmdbPut`   the two operations, on the tables of a context;
* `repoFsrepoLmdbPut_eq_ok`   a put is its preparation and the writing, `written`;
* `written_of_refused`, `written_of_mem`, `written_of_undone`, `written_of_not_undone`   the ways
                              the writing ends;
* `HoldsRecords`                every value of the table is that of a record.

A put does not replace the record of a key: under `MDB_DUPSORT` a second one is stored beside it.
-/

namespace Ipfs
open CSem Libp2p Lmdb

structure DatastoreRecord where
  key : List UInt8
  value : List UInt8
  timestamp : Nat
  deriving DecidableEq

structure LmdbContext where
  datastore : MdbTable
  journal : MdbTable

/-- the clock, the room in the map for the two insertions, and what is left of the dead arrays -/
structure PutEnv where
  now : Nat
  datastoreFull : Bool
  journalFull : Bool
  frame : DeadFrame

/-! ## records -/

def repoFsrepoLmdbEncodeRecord (record : DatastoreRecord) : Exec (List UInt8) := do
  let tsVarint ← varintEncode record.timestamp 8
  .ok (tsVarint ++ record.value)

def repoFsrepoLmdbBuildRecord (key value : List UInt8) : Exec DatastoreRecord := do
  let (timestamp, varintSize) ← varintDecode (toInt32 value.length) value
  .ok { key := key, value := value.drop varintSize, timestamp := timestamp }

/-- `none` when the function returns 0 -/
def repoFsrepoLmdbGetWithTransaction (key : List UInt8) (datastore : MdbTable) :
    Exec (Option DatastoreRecord) :=
  match datastore.get key with
  | none => .ok none
  | some value => do
    let record ← repoFsrepoLmdbBuildRecord key value
    .ok (some record)

def repoFsrepoLmdbGet (key : List UInt8) (context : LmdbContext) :
    Exec (Option DatastoreRecord) :=
  repoFsrepoLmdbGetWithTransaction key context.datastore

/-! ## put -/

/-- the timestamp of the incoming record is overwritten when what we have is older -/
def lowered (existingRecord : Option DatastoreRecord) (record : DatastoreRecord) :
    DatastoreRecord :=
  match existingRecord with
  | some existing =>
    if existing.timestamp ≠ 0 ∧ existing.timestamp < record.timestamp then
      { record with timestamp := existing.timestamp }
    else record
  | none => record

/-- the search for the journal's record of what is in the datastore already; where the search comes
to nothing the criteria are left in its place -/
def searchJournal (existingRecord : Option DatastoreRecord) (record : DatastoreRecord)
    (journal : MdbTable) : Exec (Option JournalRecord) :=
  match existingRecord with
  | none => .ok none
  | some _ => do
    let criteria : JournalRecord :=
      { timestamp := record.timestamp, pin := 0, pending := 0, hash := record.key }
    let (_, journalRecord) ← lmdbJournalstoreGetRecord (some criteria) journal
    .ok journalRecord

/-- the timestamp is put in if it isn't there already, or is newer than now -/
def stamped (now : Nat) (record : DatastoreRecord) : DatastoreRecord :=
  if record.timestamp = 0 ∨ now < record.timestamp then { record with timestamp := now }
  else record

/-- what follows when the record is in the datastore: the value to return -/
def putJournalRecord (env : PutEnv) (journalRecord : Option JournalRecord)
    (record : DatastoreRecord) (txn : MdbTxn) : Exec (Int × MdbTxn) :=
  match journalRecord with
  | some journalRecord =>
    if journalRecord.timestamp ≠ record.timestamp then do
      let (retVal, txn) ← lmdbJournalstoreCursorPut env.frame env.journalFull
        { journalRecord with timestamp := record.timestamp } txn
      .ok (if retVal then 1 else 0, txn)
    else .ok (0, txn)
  | none => do
    let journalRecord : JournalRecord :=
      { timestamp := record.timestamp, pin := 1, pending := 1, hash := record.key }
    let (_, txn) ← lmdbJournalstoreJournalAdd env.frame env.journalFull journalRecord txn
    .ok (1, txn)

def putRecord (env : PutEnv) (journalRecord : Option JournalRecord) (record : DatastoreRecord)
    (value : List UInt8) (context : LmdbContext) : Exec (Int × MdbTxn) :=
  let put := mdbPut true env.datastoreFull record.key value context.datastore
  let txn : MdbTxn :=
    { datastore := put.2, journal := context.journal, failed := put.1 == mdbMapFull }
  if put.1 = 0 then putJournalRecord env journalRecord record txn
  else if put.1 = mdbKeyexist then .ok (put.1, txn)
  else .ok (0, txn)

/-- a transaction that failed leaves nothing behind, and this is only logged -/
def mdbTxnCommit (txn : MdbTxn) (context : LmdbContext) : LmdbContext :=
  if txn.failed then context else { datastore := txn.datastore, journal := txn.journal }

/-- what the function returns, the caller's record as it leaves it, and the tables.  The
transaction and its cursor are opened without fail. -/
def repoFsrepoLmdbPut (env : PutEnv) (record : DatastoreRecord) (context : LmdbContext) :
    Exec (Int × DatastoreRecord × LmdbContext) := do
  let existingRecord ← repoFsrepoLmdbGetWithTransaction record.key context.datastore
  let record := lowered existingRecord record
  let journalRecord ← searchJournal existingRecord record context.journal
  let record := stamped env.now record
  let value ← repoFsrepoLmdbEncodeRecord record
  let (retVal, txn) ← putRecord env journalRecord record value context
  .ok (retVal, record, mdbTxnCommit txn context)

/-! ## what the operations do -/

/-- the bytes of a record whose timestamp fits -/
def recordBytes (record : DatastoreRecord) : List UInt8 :=
  varintBytes record.timestamp ++ record.value

/-- LMDB does not take the record: for its sizes, or for want of room -/
def Refused (env : PutEnv) (record : DatastoreRecord) : Prop :=
  ¬ Fits record.key (recordBytes record) ∨ env.datastoreFull = true

/-- the record is a new pair of the datastore -/
def Accepted (env : PutEnv) (record : DatastoreRecord) (context : LmdbContext) : Prop :=
  ¬ Refused env record ∧ recordBytes record ∉ context.datastore.values record.key

/-- the journal has no room for a record of the key -/
def JournalFull (env : PutEnv) (key : List UInt8) : Prop :=
  key.length + 2 ≤ mdbMaxkeysize ∧ env.journalFull = true

instance (env : PutEnv) (key : List UInt8) : Decidable (JournalFull env key) :=
  inferInstanceAs (Decidable (_ ∧ _))

/-- the record that goes to the journal along with one of the datastore -/
def journalEntry (journalRecord : Option JournalRecord) (record : DatastoreRecord) :
    Option JournalRecord :=
  match journalRecord with
  | some journalRecord =>
    if journalRecord.timestamp ≠ record.timestamp then
      some { journalRecord with timestamp := record.timestamp }
    else none
  | none => some { timestamp := record.timestamp, pin := 1, pending := 1, hash := record.key }

/-- writing the record and committing -/
def written (env : PutEnv) (journalRecord : Option JournalRecord) (record : DatastoreRecord)
    (context : LmdbContext) : Exec (Int × LmdbContext) := do
  let (retVal, txn) ← putRecord env journalRecord record (recordBytes record) context
  .ok (retVal, mdbTxnCommit txn context)

section
variable {env : PutEnv} {record existing : DatastoreRecord} {context : LmdbContext}
variable {existingRecord : Option DatastoreRecord} {journalRecord : Option JournalRecord}

theorem encodeRecord_eq_ok {value : List UInt8} :
    repoFsrepoLmdbEncodeRecord record = .ok value ↔
      record.timestamp < 2 ^ 56 ∧ value = recordBytes record := by
  unfold repoFsrepoLmdbEncodeRecord
  rw [bind_eq_ok]
  constructor
  · rintro ⟨tsVarint, hts, hv⟩
    obtain ⟨hlt, rfl⟩ := (varintEncode_eq_ok_of_short (by norm_num) (by norm_num)).1 hts
    cases hv
    exact ⟨by norm_num at hlt ⊢; exact hlt, rfl⟩
  · rintro ⟨hlt, rfl⟩
    refine ⟨_, (varintEncode_eq_ok_of_short (by norm_num) (by norm_num)).2 ⟨?_, rfl⟩, rfl⟩
    norm_num at hlt ⊢
    exact hlt

/-- **round trip**: a record is read as it was written -/
theorem buildRecord_recordBytes (hts : record.timestamp < 2 ^ 56)
    (hfit : Fits record.key (recordBytes record)) :
    repoFsrepoLmdbBuildRecord record.key (recordBytes record) = .ok record := by
  have hlen : (recordBytes record).length ≤ 511 := hfit.2.2
  have hint : toInt32 (recordBytes record).length = (recordBytes record).length :=
    toInt32_natCast_of_lt (by omega)
  have hle : (varintBytes record.timestamp).length ≤ (recordBytes record).length := by
    unfold recordBytes
    rw [List.length_append]
    exact Nat.le_add_right _ _
  have hdec : varintDecode (recordBytes record).length (recordBytes record) = _ :=
    varintDecode_varintBytes (by omega) (varintFits_of_le (Int.ofNat_le.2 hle))
  unfold repoFsrepoLmdbBuildRecord
  rw [hint, hdec, ok_bind]
  show Except.ok _ = _
  unfold recordBytes
  rw [List.drop_left]

/-- a put is its preparation and the writing -/
theorem repoFsrepoLmdbPut_eq_ok {result : Int × DatastoreRecord × LmdbContext} :
    repoFsrepoLmdbPut env record context = .ok result ↔
      ∃ existingRecord journalRecord,
        repoFsrepoLmdbGet record.key context = .ok existingRecord ∧
        searchJournal existingRecord (lowered existingRecord record) context.journal =
          .ok journalRecord ∧
        (stamped env.now (lowered existingRecord record)).timestamp < 2 ^ 56 ∧
        result.2.1 = stamped env.now (lowered existingRecord record) ∧
        written env journalRecord (stamped env.now (lowered existingRecord record)) context =
          .ok (result.1, result.2.2) := by
  obtain ⟨retVal, after, context'⟩ := result
  unfold repoFsrepoLmdbPut
  rw [bind_eq_ok]
  constructor
  · rintro ⟨existingRecord, hget, h⟩
    obtain ⟨journalRecord, hsearch, h⟩ := bind_eq_ok.1 h
    obtain ⟨value, hvalue, h⟩ := bind_eq_ok.1 h
    obtain ⟨hts, rfl⟩ := encodeRecord_eq_ok.1 hvalue
    obtain ⟨⟨ret, txn⟩, hput, h⟩ := bind_eq_ok.1 h
    cases h
    refine ⟨existingRecord, journalRecord, hget, hsearch, hts, rfl, ?_⟩
    unfold written
    rw [hput]
    rfl
  · rintro ⟨existingRecord, journalRecord, hget, hsearch, hts, hafter, hw⟩
    obtain rfl : after = stamped env.now (lowered existingRecord record) := hafter
    obtain ⟨⟨ret, txn⟩, hput, h⟩ := bind_eq_ok.1 hw
    refine ⟨existingRecord, hget, bind_eq_ok.2 ⟨journalRecord, hsearch, bind_eq_ok.2
      ⟨_, encodeRecord_eq_ok.2 ⟨hts, rfl⟩, bind_eq_ok.2 ⟨_, hput, ?_⟩⟩⟩⟩
    cases h
    rfl

theorem written_of_refused (h : Refused env record) :
    written env journalRecord record context = .ok (0, context) := by
  unfold written putRecord
  by_cases hfit : Fits record.key (recordBytes record)
  · have hfull : env.datastoreFull = true := h.resolve_left (not_not_intro hfit)
    rw [hfull, mdbPut_of_full hfit]
    rfl
  · rw [mdbPut_of_not_fits hfit]
    rfl

theorem written_of_mem (h : ¬ Refused env record)
    (hm : recordBytes record ∈ context.datastore.values record.key) :
    written env journalRecord record context = .ok (mdbKeyexist, context) := by
  obtain ⟨hfit, hfull⟩ := not_or.1 h
  unfold written putRecord
  rw [Bool.not_eq_true] at hfull
  rw [hfull, mdbPut_of_mem (not_not.1 hfit) hm]
  rfl

theorem putJournalRecord_eq {txn : MdbTxn} (hts : record.timestamp < 2 ^ 56) :
    putJournalRecord env journalRecord record txn =
      match journalEntry journalRecord record with
      | none => .ok (0, txn)
      | some entry =>
        .ok (if (txn.putJournal env.journalFull (env.frame.read entry.pair)).1 = 0 ∨
            journalRecord = none then 1 else 0,
          (txn.putJournal env.journalFull (env.frame.read entry.pair)).2) := by
  unfold putJournalRecord journalEntry
  cases journalRecord with
  | none =>
    simp only
    rw [journalAdd_eq hts, ok_bind, if_pos (Or.inr trivial)]
  | some j =>
    by_cases hj : j.timestamp = record.timestamp
    · simp only [if_neg (not_not_intro hj)]
    · simp only [if_pos hj]
      rw [cursorPut_eq hts, ok_bind]
      simp only [beq_iff_eq, reduceCtorEq, or_false]

/-- a new pair goes into the datastore, unless the transaction is lost over the journal -/
theorem written_of_accepted (h : Accepted env record context) (hts : record.timestamp < 2 ^ 56) :
    written env journalRecord record context =
      match journalEntry journalRecord record with
      | none => .ok (0, { datastore := context.datastore.insert record.key (recordBytes record)
                          journal := context.journal })
      | some entry =>
        let put := mdbPut false env.journalFull (env.frame.read entry.pair).1
          (env.frame.read entry.pair).2 context.journal
        .ok (if put.1 = 0 ∨ journalRecord = none then 1 else 0,
          if put.1 = mdbMapFull then context
          else { datastore := context.datastore.insert record.key (recordBytes record)
                 journal := put.2 }) := by
  obtain ⟨hfit, hfull⟩ := not_or.1 h.1
  rw [Bool.not_eq_true] at hfull
  unfold written putRecord
  rw [hfull, mdbPut_of_not_mem (not_not.1 hfit) h.2]
  simp only [if_pos]
  rw [putJournalRecord_eq hts]
  cases journalEntry journalRecord record with
  | none => rfl
  | some entry =>
    show Except.ok (_, mdbTxnCommit _ context) = _
    unfold mdbTxnCommit MdbTxn.putJournal
    have hzero : (0 : Int) ≠ mdbMapFull := by decide
    simp only [Bool.or_eq_true, beq_iff_eq, hzero, false_or]

/-- the search gives a record of the key, with the timestamp it was made with -/
theorem searchJournal_some {journal : MdbTable} (hkey : 0 < record.key.length)
    (h : searchJournal (some existing) record journal = .ok journalRecord) :
    ∃ j, journalRecord = some j ∧ j.timestamp = record.timestamp ∧ j.hash = record.key := by
  obtain ⟨⟨found, result⟩, hget, h⟩ := bind_eq_ok.1 h
  cases h
  have hhash : 0 < (JournalRecord.mk record.timestamp 0 0 record.key).hash.length := hkey
  exact getRecord_some hhash hget

/-- the record was taken, and dropped again with the transaction -/
def Undone (env : PutEnv) (journalRecord : Option JournalRecord) (record : DatastoreRecord) :
    Prop :=
  journalEntry journalRecord record ≠ none ∧ JournalFull env record.key

theorem hash_of_journalEntry {entry : JournalRecord}
    (hj : ∀ j, journalRecord = some j → j.hash = record.key)
    (h : journalEntry journalRecord record = some entry) : entry.hash = record.key := by
  unfold journalEntry at h
  cases journalRecord with
  | none =>
    cases h
    rfl
  | some j =>
    simp only at h
    split at h
    · cases h
      exact hj j rfl
    · cases h

/-- the writing itself does not fault -/
theorem written_safe (hts : record.timestamp < 2 ^ 56) :
    ∃ result, written env journalRecord record context = .ok result := by
  by_cases href : Refused env record
  · exact ⟨_, written_of_refused href⟩
  · by_cases hm : recordBytes record ∈ context.datastore.values record.key
    · exact ⟨_, written_of_mem href hm⟩
    · rw [written_of_accepted ⟨href, hm⟩ hts]
      cases journalEntry journalRecord record with
      | none => exact ⟨_, rfl⟩
      | some entry => exact ⟨_, rfl⟩

/-- whatever the journal does, the datastore has the new pair or is what it was -/
theorem written_datastore {retVal : Int} {context' : LmdbContext}
    (hts : record.timestamp < 2 ^ 56)
    (h : written env journalRecord record context = .ok (retVal, context')) :
    context'.datastore = context.datastore ∨ ¬ Refused env record ∧
      context'.datastore = context.datastore.insert record.key (recordBytes record) := by
  by_cases href : Refused env record
  · rw [written_of_refused href] at h
    cases h
    exact .inl rfl
  · by_cases hm : recordBytes record ∈ context.datastore.values record.key
    · rw [written_of_mem href hm] at h
      cases h
      exact .inl rfl
    · rw [written_of_accepted ⟨href, hm⟩ hts] at h
      cases he : journalEntry journalRecord record with
      | none =>
        simp only [he] at h
        cases h
        exact .inr ⟨href, rfl⟩
      | some entry =>
        simp only [he] at h
        obtain ⟨-, hc⟩ := Prod.mk.inj (Except.ok.inj h)
        rw [← hc]
        split
        · exact .inl rfl
        · exact .inr ⟨href, rfl⟩

theorem written_of_undone (h : Accepted env record context) (hts : record.timestamp < 2 ^ 56)
    (hj : ∀ j, journalRecord = some j → j.hash = record.key)
    (hundone : Undone env journalRecord record) :
    written env journalRecord record context =
      .ok (if journalRecord = none then 1 else 0, context) := by
  obtain ⟨hentry, hroom, hfull⟩ := hundone
  rw [written_of_accepted h hts]
  cases he : journalEntry journalRecord record with
  | none => exact absurd he hentry
  | some entry =>
    have hfits : Fits (env.frame.read entry.pair).1 (env.frame.read entry.pair).2 := by
      rw [fits_read, hash_of_journalEntry hj he]
      exact hroom
    have hcode : mdbMapFull ≠ 0 := by decide
    simp only [hfull, mdbPut_of_full hfits, if_pos, hcode, false_or]

theorem written_of_not_undone (h : Accepted env record context)
    (hts : record.timestamp < 2 ^ 56)
    (hj : ∀ j, journalRecord = some j → j.hash = record.key)
    (hundone : ¬ Undone env journalRecord record) :
    ∃ retVal journal, written env journalRecord record context =
        .ok (retVal, { datastore := context.datastore.insert record.key (recordBytes record)
                       journal := journal }) ∧
      (journalRecord = none → retVal = 1) := by
  rw [written_of_accepted h hts]
  cases he : journalEntry journalRecord record with
  | none =>
    refine ⟨0, context.journal, rfl, ?_⟩
    rintro rfl
    cases he
  | some entry =>
    have hcode : (mdbPut false env.journalFull (env.frame.read entry.pair).1
        (env.frame.read entry.pair).2 context.journal).1 ≠ mdbMapFull := by
      intro hcode
      obtain ⟨hfits, hfull⟩ := mdbPut_eq_mapFull.1 hcode
      rw [fits_read, hash_of_journalEntry hj he] at hfits
      refine hundone ⟨?_, hfits, hfull⟩
      rw [he]
      exact Option.some_ne_none entry
    simp only [if_neg hcode]
    refine ⟨_, _, rfl, ?_⟩
    intro hnone
    exact if_pos (Or.inr hnone)

/-! ## tables of records -/

/-- every value of the table is that of a record -/
def HoldsRecords (datastore : MdbTable) : Prop :=
  ∀ key, ∀ value ∈ datastore.values key, ∃ record : DatastoreRecord,
    record.key = key ∧ record.timestamp < 2 ^ 56 ∧ Fits key value ∧ value = recordBytes record

theorem holdsRecords_empty : HoldsRecords Multimap.empty := by
  intro key value h
  rw [Multimap.values_empty] at h
  cases h

theorem HoldsRecords.insert {datastore : MdbTable} (h : HoldsRecords datastore)
    (hts : record.timestamp < 2 ^ 56) (hfit : Fits record.key (recordBytes record)) :
    HoldsRecords (datastore.insert record.key (recordBytes record)) := by
  intro key value hv
  by_cases hm : recordBytes record ∈ datastore.values record.key
  · rw [Multimap.insert_of_mem hm] at hv
    exact h key value hv
  · by_cases hk : key = record.key
    · subst hk
      rcases List.mem_cons.1 ((Multimap.values_insert_perm hm).mem_iff.1 hv) with rfl | hv
      · exact ⟨record, rfl, hts, hfit, rfl⟩
      · exact h record.key value hv
    · rw [Multimap.values_insert_of_ne hk] at hv
      exact h key value hv

theorem get_of_values_nil {key : List UInt8} (h : context.datastore.values key = []) :
    repoFsrepoLmdbGet key context = .ok none := by
  unfold repoFsrepoLmdbGet repoFsrepoLmdbGetWithTransaction
  rw [Multimap.get_eq_none.2 h]

theorem get_of_values_cons {key : List UInt8} {rest : List (List UInt8)}
    (hkey : record.key = key) (hts : record.timestamp < 2 ^ 56)
    (hfit : Fits key (recordBytes record))
    (h : context.datastore.values key = recordBytes record :: rest) :
    repoFsrepoLmdbGet key context = .ok (some record) := by
  subst hkey
  have hget : context.datastore.get record.key = some (recordBytes record) := by
    unfold Multimap.get
    rw [h]
    rfl
  unfold repoFsrepoLmdbGet repoFsrepoLmdbGetWithTransaction
  rw [hget]
  simp only
  rw [buildRecord_recordBytes hts hfit]
  rfl

/-- a get depends on the values of its key only -/
theorem get_congr {context' : LmdbContext} {key : List UInt8}
    (h : context'.datastore.values key = context.datastore.values key) :
    repoFsrepoLmdbGet key context' = repoFsrepoLmdbGet key context := by
  unfold repoFsrepoLmdbGet repoFsrepoLmdbGetWithTransaction Multimap.get
  rw [h]

/-- a get from a table of records gives the first one of the key -/
theorem HoldsRecords.get (h : HoldsRecords context.datastore) (key : List UInt8) :
    (context.datastore.values key = [] ∧ repoFsrepoLmdbGet key context = .ok none) ∨
      ∃ (record : DatastoreRecord) (rest : List (List UInt8)), record.key = key ∧
        record.timestamp < 2 ^ 56 ∧ Fits key (recordBytes record) ∧
        context.datastore.values key = recordBytes record :: rest ∧
        repoFsrepoLmdbGet key context = .ok (some record) := by
  cases hv : context.datastore.values key with
  | nil => exact .inl ⟨rfl, get_of_values_nil hv⟩
  | cons value rest =>
    obtain ⟨record, rfl, hts, hfit, rfl⟩ := h key value (by rw [hv]; exact List.mem_cons_self)
    exact .inr ⟨record, rest, rfl, hts, hfit, rfl, get_of_values_cons rfl hts hfit hv⟩

@[simp] theorem lowered_key : (lowered existingRecord record).key = record.key := by
  unfold lowered
  split
  · split <;> rfl
  · rfl

@[simp] theorem stamped_key {now : Nat} : (stamped now record).key = record.key := by
  unfold stamped
  split <;> rfl

@[simp] theorem lowered_value : (lowered existingRecord record).value = record.value := by
  unfold lowered
  split
  · split <;> rfl
  · rfl

theorem lowered_some_timestamp : (lowered (some existing) record).timestamp =
    if existing.timestamp ≠ 0 ∧ existing.timestamp < record.timestamp then existing.timestamp
    else record.timestamp := by
  unfold lowered
  simp only
  split <;> rfl

theorem stamped_timestamp {now : Nat} : (stamped now record).timestamp =
    if record.timestamp = 0 ∨ now < record.timestamp then now else record.timestamp := by
  unfold stamped
  split <;> rfl

@[simp] theorem stamped_value {now : Nat} : (stamped now record).value = record.value := by
  unfold stamped
  split <;> rfl

/-- what the preparation of a put finds in the journal -/
theorem HoldsRecords.searchJournal (h : HoldsRecords context.datastore)
    (hget : repoFsrepoLmdbGet record.key context = .ok existingRecord)
    (hsearch : searchJournal existingRecord (lowered existingRecord record) context.journal =
      .ok journalRecord) :
    (existingRecord = none ∧ journalRecord = none) ∨
      ∃ existing j, existingRecord = some existing ∧ journalRecord = some j ∧
        j.timestamp = (lowered existingRecord record).timestamp ∧ j.hash = record.key := by
  cases existingRecord with
  | none =>
    cases hsearch
    exact .inl ⟨rfl, rfl⟩
  | some existing =>
    rcases h.get record.key with ⟨-, hnone⟩ | ⟨r, rest, -, -, hfit, -, -⟩
    · rw [hnone] at hget
      cases hget
    · have hkey : 0 < (lowered (some existing) record).key.length := by
        rw [lowered_key]
        exact hfit.1
      obtain ⟨j, hj, hts, hhash⟩ := searchJournal_some hkey hsearch
      rw [lowered_key] at hhash
      exact .inr ⟨existing, j, rfl, hj, hts, hhash⟩

/-- **every put leaves a table of records** -/
theorem HoldsRecords.put {after : DatastoreRecord} {retVal : Int} {context' : LmdbContext}
    (h : HoldsRecords context.datastore)
    (hput : repoFsrepoLmdbPut env record context = .ok (retVal, after, context')) :
    HoldsRecords context'.datastore := by
  obtain ⟨existingRecord, journalRecord, -, -, hts, -, hw⟩ := repoFsrepoLmdbPut_eq_ok.1 hput
  rcases written_datastore hts hw with hsame | ⟨href, hins⟩
  · rw [hsame]
    exact h
  · rw [hins]
    exact h.insert hts (not_not.1 (not_or.1 href).1)

end

end Ipfs
