import Libipfs.Repo.PutGet

/-!
# What a put reports

`repo_fsrepo_lmdb_put` is to return true when the record has come into the datastore and the
journal has a record for it, and false when nothing has changed.

* `Held`               the record is in the datastore, and its timestamp and key in the journal;
* `PutReports`         the put returns, and returns that;
* `WellReported`       the puts for which it does;
* `putReports_iff`     **one of these is what it takes**: with a record of the key there and the
                       timestamp unchanged, the 0 of `mdb_put` is what is returned.
-/

namespace Ipfs
open CSem Libp2p Lmdb

/-- a pair that is read as the record of this timestamp and this hash -/
def ReadAs (pair : List UInt8 ×ₗ List UInt8) (timestamp : Nat) (hash : List UInt8) : Prop :=
  ∃ journalRecord, lmdbJournalstoreBuildRecord pair = .ok journalRecord ∧
    journalRecord.timestamp = timestamp ∧ journalRecord.hash = hash

def Journaled (journal : MdbTable) (timestamp : Nat) (hash : List UInt8) : Prop :=
  ∃ pair ∈ journal.pairs, ReadAs pair timestamp hash

/-- the record is in the datastore, and the journal has it as well -/
structure Held (record : DatastoreRecord) (context : LmdbContext) : Prop where
  stored : recordBytes record ∈ context.datastore.values record.key
  journaled : Journaled context.journal record.timestamp record.key

/-- what is returned against the tables before and after -/
structure Reports (retVal : Int) (after : DatastoreRecord) (context context' : LmdbContext) :
    Prop where
  told : retVal ≠ 0 ↔ Held after context'
  failed : retVal = 0 → context' = context

def PutReports (env : PutEnv) (record : DatastoreRecord) (context : LmdbContext) : Prop :=
  ∃ retVal after context', repoFsrepoLmdbPut env record context = .ok (retVal, after, context') ∧
    Reports retVal after context context'

/-- the record for the journal has sizes that a pair may have, and comes out of the dead arrays as
what it was -/
def Legible (env : PutEnv) (record : DatastoreRecord) : Prop :=
  record.key.length + 2 ≤ mdbMaxkeysize ∧
    ReadAs (toLex (env.frame.read (JournalRecord.mk record.timestamp 1 1 record.key).pair))
      record.timestamp record.key

/-- `record` is what is written, `before` its timestamp when the journal is searched: the put is
refused, and the record not held already; or it is there, and in the journal; or it is the first
one of its key, and the journal has it or gets it; or the timestamp is put in at the last moment,
and the journal has the record, gets it, or makes the transaction fail -/
def WellReported (env : PutEnv) (existingRecord : Option DatastoreRecord) (before : Nat)
    (record : DatastoreRecord) (context : LmdbContext) : Prop :=
  Refused env record ∧ ¬ Held record context ∨
    ¬ Refused env record ∧
      (recordBytes record ∈ context.datastore.values record.key ∧
          Journaled context.journal record.timestamp record.key ∨
        recordBytes record ∉ context.datastore.values record.key ∧
          match existingRecord with
          | none => ¬ JournalFull env record.key ∧
              (Journaled context.journal record.timestamp record.key ∨ Legible env record)
          | some _ => before ≠ record.timestamp ∧ record.key.length + 2 ≤ mdbMaxkeysize ∧
              (env.journalFull = true ∨ Journaled context.journal record.timestamp record.key ∨
                Legible env record))

/-- the put returns, and is one of those -/
structure PutOp.Reporting (op : PutOp) (context : LmdbContext)
    (existingRecord : Option DatastoreRecord) : Prop where
  fits : (op.stored existingRecord).timestamp < 2 ^ 56
  searched : Safe (searchJournal existingRecord (lowered existingRecord op.record) context.journal)
  reported : WellReported op.env existingRecord (lowered existingRecord op.record).timestamp
    (op.stored existingRecord) context

section
variable {env : PutEnv} {op : PutOp} {record : DatastoreRecord} {context context' : LmdbContext}
variable {journalRecord : Option JournalRecord} {entry : JournalRecord} {retVal : Int}
variable {existingRecord : Option DatastoreRecord} {journal : MdbTable}
variable {timestamp : Nat} {hash key value : List UInt8}

/-! ## the journal -/

/-- the flags do not count for the timestamp and the hash that are read -/
theorem readAs_read {frame : DeadFrame} {pin pending pin' pending' : Int} :
    ReadAs (toLex (frame.read (JournalRecord.mk timestamp pin pending key).pair))
        timestamp hash ↔
      ReadAs (toLex (frame.read (JournalRecord.mk timestamp pin' pending' key).pair))
        timestamp hash := by
  have hbuild (pin pending : Int) : lmdbJournalstoreBuildRecord
      (toLex (frame.read (JournalRecord.mk timestamp pin pending key).pair)) =
      (varintDecode (toInt32 ((varintBytes timestamp).mapIdx frame.timeVarint).length)
          ((varintBytes timestamp).mapIdx frame.timeVarint) >>= fun decoded =>
        .ok { timestamp := decoded.1, pin := (frame.record 0 (UInt8.ofInt pin)).toNat
              pending := (frame.record 1 (UInt8.ofInt pending)).toNat
              hash := key.mapIdx fun i b => frame.record (i + 2) b }) := by
    unfold lmdbJournalstoreBuildRecord DeadFrame.read JournalRecord.pair
    simp only [List.mapIdx_cons]
    rfl
  unfold ReadAs
  rw [hbuild, hbuild]
  cases varintDecode (toInt32 ((varintBytes timestamp).mapIdx frame.timeVarint).length)
    ((varintBytes timestamp).mapIdx frame.timeVarint) with
  | error e => simp
  | ok result => simp

theorem journaled_insert : Journaled (journal.insert key value) timestamp hash ↔
    Journaled journal timestamp hash ∨ ReadAs (toLex (key, value)) timestamp hash := by
  unfold Journaled
  constructor
  · intro ⟨pair, hmem, hread⟩
    rcases Multimap.mem_pairs_insert.1 hmem with rfl | hmem
    · exact .inr hread
    · exact .inl ⟨pair, hmem, hread⟩
  · intro hcase
    rcases hcase with ⟨pair, hmem, hread⟩ | hread
    · exact ⟨pair, Multimap.mem_pairs_insert.2 (.inr hmem), hread⟩
    · exact ⟨_, Multimap.mem_pairs_insert.2 (.inl rfl), hread⟩

/-! ## what there is to report -/

theorem reports_of_ne (h : retVal ≠ 0) :
    Reports retVal record context context' ↔ Held record context' :=
  ⟨fun hr => hr.told.1 h, fun hh => ⟨⟨fun _ => hh, fun _ => h⟩, fun h0 => absurd h0 h⟩⟩

theorem reports_zero :
    Reports 0 record context context' ↔ ¬ Held record context' ∧ context' = context :=
  ⟨fun hr => ⟨fun hh => hr.told.2 hh rfl, hr.failed rfl⟩,
    fun ⟨hh, he⟩ => ⟨⟨fun h => absurd rfl h, fun h => absurd h hh⟩, fun _ => he⟩⟩

theorem held_inserted :
    Held record { datastore := context.datastore.insert record.key (recordBytes record)
                  journal := journal } ↔ Journaled journal record.timestamp record.key :=
  ⟨fun hh => hh.journaled, fun hj => ⟨Multimap.mem_values_insert_self, hj⟩⟩

/-- a new pair changes the tables -/
theorem inserted_ne (h : recordBytes record ∉ context.datastore.values record.key) :
    (⟨context.datastore.insert record.key (recordBytes record), journal⟩ : LmdbContext) ≠
      context := by
  intro heq
  have hds : context.datastore.insert record.key (recordBytes record) = context.datastore :=
    congrArg LmdbContext.datastore heq
  apply h
  rw [← hds]
  exact Multimap.mem_values_insert_self

/-- a result that is known is the one that is reported -/
theorem exists_written_iff (h : written env journalRecord record context = .ok (retVal, context')) :
    (∃ retVal context', written env journalRecord record context = .ok (retVal, context') ∧
      Reports retVal record context context') ↔ Reports retVal record context context' := by
  constructor
  · intro ⟨ret, ctx, hw, hr⟩
    rw [h] at hw
    cases hw
    exact hr
  · intro hr
    exact ⟨retVal, context', h, hr⟩

/-! ## the ways the writing ends -/

/-- a record for the journal: where there is no room for it the datastore loses the new pair too,
and where its sizes are not accepted the pair stays without it -/
theorem written_entry (h : Accepted env record context) (hts : record.timestamp < 2 ^ 56)
    (hentry : journalEntry journalRecord record = some entry) (hhash : entry.hash = record.key) :
    written env journalRecord record context =
      if JournalFull env record.key then .ok (if journalRecord = none then 1 else 0, context)
      else if record.key.length + 2 ≤ mdbMaxkeysize then
        .ok (1, { datastore := context.datastore.insert record.key (recordBytes record)
                  journal := context.journal.insert (env.frame.read entry.pair).1
                    (env.frame.read entry.pair).2 })
      else
        .ok (if journalRecord = none then 1 else 0,
          { datastore := context.datastore.insert record.key (recordBytes record)
            journal := context.journal }) := by
  have hfits : Fits (env.frame.read entry.pair).1 (env.frame.read entry.pair).2 ↔
      record.key.length + 2 ≤ mdbMaxkeysize := by
    rw [fits_read, hhash]
  have hmapFull : mdbMapFull ≠ 0 := by decide
  have hbadValsize : mdbBadValsize ≠ 0 := by decide
  have hcodes : mdbBadValsize ≠ mdbMapFull := by decide
  rw [written_of_accepted h hts, hentry]
  simp only
  by_cases hfit : record.key.length + 2 ≤ mdbMaxkeysize
  · cases hfull : env.journalFull with
    | true =>
      rw [mdbPut_of_full (hfits.2 hfit), if_pos (show JournalFull env record.key from ⟨hfit, hfull⟩)]
      simp only [if_pos, hmapFull, false_or]
    | false =>
      have hroom : ¬ JournalFull env record.key := fun hf => by
        rw [hf.2] at hfull
        cases hfull
      rw [mdbPut_of_room (hfits.2 hfit), if_neg hroom, if_pos hfit]
      simp only [true_or, if_true, hmapFull.symm, if_false]
  · have hroom : ¬ JournalFull env record.key := fun hf => hfit hf.1
    rw [mdbPut_of_not_fits (fun hf => hfit (hfits.1 hf)), if_neg hroom, if_neg hfit]
    simp only [hbadValsize, hcodes, false_or, if_false]

/-- **what the writing reports** -/
theorem written_reports_iff {before : Nat} (hts : record.timestamp < 2 ^ 56)
    (hj : existingRecord = none ∧ journalRecord = none ∨
      ∃ existing j, existingRecord = some existing ∧ journalRecord = some j ∧
        j.timestamp = before ∧ j.hash = record.key) :
    (∃ retVal context', written env journalRecord record context = .ok (retVal, context') ∧
      Reports retVal record context context') ↔
      WellReported env existingRecord before record context := by
  unfold WellReported
  by_cases href : Refused env record
  · rw [exists_written_iff (written_of_refused href), reports_zero]
    exact ⟨fun hr => .inl ⟨href, hr.1⟩, fun hr =>
      ⟨(hr.resolve_right fun hr => hr.1 href).2, rfl⟩⟩
  by_cases hm : recordBytes record ∈ context.datastore.values record.key
  · rw [exists_written_iff (written_of_mem href hm), reports_of_ne (by decide)]
    refine ⟨fun hh => .inr ⟨href, .inl ⟨hm, hh.journaled⟩⟩, fun hr => ⟨hm, ?_⟩⟩
    exact ((hr.resolve_left fun hr => href hr.1).2.resolve_right fun hn => hn.1 hm).2
  have hacc : Accepted env record context := ⟨href, hm⟩
  -- what is left to show, without the cases that are out
  have hout {P Q : Prop} : (Refused env record ∧ ¬ Held record context ∨ ¬ Refused env record ∧
      (recordBytes record ∈ context.datastore.values record.key ∧ Q ∨
        recordBytes record ∉ context.datastore.values record.key ∧ P)) ↔ P :=
    ⟨fun hr => ((hr.resolve_left fun hr => href hr.1).2.resolve_left fun hq => hm hq.1).2,
      fun hp => .inr ⟨href, .inr ⟨hm, hp⟩⟩⟩
  have hnot : ¬ Held record context := fun hh => hm hh.stored
  rw [hout]
  rcases hj with ⟨rfl, rfl⟩ | ⟨existing, j, rfl, rfl, hbefore, hhash⟩
  · have hw := written_entry hacc hts (show journalEntry none record = some _ from rfl) rfl
    by_cases hfull : JournalFull env record.key
    · rw [if_pos hfull] at hw
      rw [exists_written_iff hw, if_pos rfl, reports_of_ne Int.one_ne_zero]
      exact ⟨fun hh => absurd hh hnot, fun hr => absurd hfull hr.1⟩
    · rw [if_neg hfull] at hw
      by_cases hfit : record.key.length + 2 ≤ mdbMaxkeysize
      · rw [if_pos hfit] at hw
        rw [exists_written_iff hw, reports_of_ne Int.one_ne_zero, held_inserted, journaled_insert]
        exact ⟨fun hr => ⟨hfull, hr.imp_right fun hread => ⟨hfit, hread⟩⟩,
          fun hr => hr.2.imp_right fun hread => hread.2⟩
      · rw [if_neg hfit] at hw
        rw [exists_written_iff hw, if_pos rfl, reports_of_ne Int.one_ne_zero, held_inserted]
        exact ⟨fun hr => ⟨hfull, .inl hr⟩, fun hr => hr.2.resolve_right fun hread => hfit hread.1⟩
  · by_cases hsame : before = record.timestamp
    · have hw : written env (some j) record context =
          .ok (0, { datastore := context.datastore.insert record.key (recordBytes record)
                    journal := context.journal }) := by
        have hentry : journalEntry (some j) record = none := by
          show (if j.timestamp ≠ record.timestamp then _ else none) = _
          rw [if_neg (not_not_intro (hbefore.trans hsame))]
        rw [written_of_accepted hacc hts, hentry]
      rw [exists_written_iff hw, reports_zero]
      exact ⟨fun hr => absurd hr.2 (inserted_ne hm), fun hr => absurd hsame hr.1⟩
    · have hentry : journalEntry (some j) record =
          some { j with timestamp := record.timestamp } := by
        show (if j.timestamp ≠ record.timestamp then _ else none) = _
        rw [if_pos (fun he => hsame (hbefore.symm.trans he))]
      have hw := written_entry hacc hts hentry hhash
      by_cases hfull : JournalFull env record.key
      · rw [if_pos hfull] at hw
        rw [exists_written_iff hw, if_neg (Option.some_ne_none j), reports_zero]
        exact ⟨fun _ => ⟨hsame, hfull.1, .inl hfull.2⟩, fun _ => ⟨hnot, rfl⟩⟩
      · rw [if_neg hfull] at hw
        by_cases hfit : record.key.length + 2 ≤ mdbMaxkeysize
        · rw [if_pos hfit] at hw
          rw [exists_written_iff hw, reports_of_ne Int.one_ne_zero, held_inserted, journaled_insert]
          have hread : ReadAs (toLex (env.frame.read
              ({ j with timestamp := record.timestamp } : JournalRecord).pair))
              record.timestamp record.key ↔ Legible env record := by
            obtain ⟨timestamp, pin, pending, hash⟩ := j
            obtain rfl : hash = record.key := hhash
            exact readAs_read.trans ⟨fun hread => ⟨hfit, hread⟩, fun hread => hread.2⟩
          have hroom : ¬ env.journalFull = true := fun hf => hfull ⟨hfit, hf⟩
          refine ⟨fun hr => ⟨hsame, hfit, .inr (hr.imp_right hread.1)⟩, fun hr => ?_⟩
          exact (hr.2.2.resolve_left hroom).imp_right hread.2
        · rw [if_neg hfit] at hw
          rw [exists_written_iff hw, if_neg (Option.some_ne_none j), reports_zero]
          refine ⟨fun hr => ?_, fun hr => absurd hr.2.1 hfit⟩
          exact absurd hr.2 (inserted_ne hm)

/-- **when a put reports what it has done** -/
theorem putReports_iff (h : HoldsRecords context.datastore) :
    PutReports op.env op.record context ↔ ∀ existingRecord,
      repoFsrepoLmdbGet op.record.key context = .ok existingRecord →
        op.Reporting context existingRecord := by
  constructor
  · intro ⟨retVal, after, context', hput, hreports⟩ existingRecord hget
    obtain ⟨existing', journalRecord, hget', hsearch, hts, hafter, hw⟩ :=
      repoFsrepoLmdbPut_eq_ok.1 hput
    rw [hget] at hget'
    cases hget'
    obtain rfl : after = op.stored existingRecord := hafter
    refine ⟨hts, ⟨journalRecord, hsearch⟩, ?_⟩
    have hj := h.searchJournal hget hsearch
    have hkey : (op.stored existingRecord).key = op.record.key := PutOp.stored_key
    rw [← hkey] at hj
    exact (written_reports_iff hts hj).1 ⟨retVal, context', hw, hreports⟩
  · intro hall
    obtain ⟨existingRecord, hget⟩ : Safe (repoFsrepoLmdbGet op.record.key context) := by
      rcases h.get op.record.key with ⟨-, hnone⟩ | ⟨record, rest, -, -, -, -, hsome⟩
      · exact ⟨none, hnone⟩
      · exact ⟨some record, hsome⟩
    obtain ⟨hts, ⟨journalRecord, hsearch⟩, hreported⟩ := hall existingRecord hget
    have hj := h.searchJournal hget hsearch
    have hkey : (op.stored existingRecord).key = op.record.key := PutOp.stored_key
    rw [← hkey] at hj
    obtain ⟨retVal, context', hw, hreports⟩ := (written_reports_iff hts hj).2 hreported
    exact ⟨retVal, _, context', repoFsrepoLmdbPut_eq_ok.2
      ⟨existingRecord, journalRecord, hget, hsearch, hts, rfl, hw⟩, hreports⟩

end

/-! ## a second value -/

/-- "a", of the time 5 -/
def recordOfA : DatastoreRecord := { key := [1], value := [97], timestamp := 5 }

/-- a put of it into empty tables has left this -/
def contextOfA : LmdbContext where
  datastore := Multimap.empty.insert recordOfA.key (recordBytes recordOfA)
  journal := Multimap.empty.insert [5] [1, 1, 1]

theorem holdsRecords_contextOfA : HoldsRecords contextOfA.datastore :=
  holdsRecords_empty.insert (by decide) (by decide)

theorem putReports_iff_contextOfA :
    PutReports (putAtSeven [98] 5).env (putAtSeven [98] 5).record contextOfA ↔
      ∀ existingRecord, repoFsrepoLmdbGet (putAtSeven [98] 5).record.key contextOfA =
        .ok existingRecord → (putAtSeven [98] 5).Reporting contextOfA existingRecord :=
  putReports_iff holdsRecords_contextOfA

/-- "b" of the same time is stored beside "a", and 0 is returned -/
theorem not_putReports_contextOfA : ¬ ∀ (op : PutOp) context, HoldsRecords context.datastore →
    PutReports op.env op.record context := by
  intro hall
  obtain ⟨retVal, after, context', hput, hreports⟩ :=
    hall (putAtSeven [98] 5) contextOfA holdsRecords_contextOfA
  have hvalues : (repoFsrepoLmdbPut (putAtSeven [98] 5).env (putAtSeven [98] 5).record
      contextOfA).toOption.map (fun result => (result.1, result.2.2.datastore.values [1])) =
      some (0, [[5, 97], [5, 98]]) := by
    decide
  rw [hput] at hvalues
  obtain ⟨hret, hafter⟩ := Prod.mk.inj (Option.some.inj hvalues)
  obtain rfl : context' = contextOfA := hreports.failed hret
  have hbefore : contextOfA.datastore.values [1] = [[5, 97]] := by decide
  cases hbefore.symm.trans hafter

end Ipfs
