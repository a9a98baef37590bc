import Libipfs.Repo.PutGet

/-!
# The journal and the datastore

* `Agrees`          each record of the datastore has one record in the journal, of its timestamp
                    and with both flags set, and no other key has one;
* `PutOp.Agreeing`  the puts that keep this or fail;
* `holdsAlong_agreement`   **along a run of those the journal agrees with the datastore as long as
                    the puts succeed**.

A put that changes the timestamp of a key is not one of them: it adds a record to the journal and
leaves the old one where it is.
-/

namespace Ipfs
open CSem Libp2p Lmdb

/-- a pair that is read as a record of the key -/
def isRecordOf (key : List UInt8) (pair : List UInt8 ×ₗ List UInt8) : Bool :=
  match lmdbJournalstoreBuildRecord pair with
  | .ok journalRecord => journalRecord.hash = key
  | .error _ => false

def journalRecords (key : List UInt8) (journal : MdbTable) : List (Exec JournalRecord) :=
  (journal.pairs.filter (isRecordOf key)).map lmdbJournalstoreBuildRecord

def Agrees (context : LmdbContext) : Prop :=
  ∀ key, ∃ record, repoFsrepoLmdbGet key context = .ok record ∧
    journalRecords key context.journal =
      match record with
      | none => []
      | some record =>
        [.ok { timestamp := record.timestamp, pin := 1, pending := 1, hash := key }]

/-- as long as every put succeeded -/
def History.Agreement (h : History) : Prop :=
  (∀ put ∈ h.puts, put.result ≠ 0) → Agrees h.context

/-- the record of the journal for a new key -/
def PutOp.journalRecord (op : PutOp) : JournalRecord where
  timestamp := (op.stored none).timestamp
  pin := 1
  pending := 1
  hash := op.record.key

/-- the put is refused; or is the first for its key, and the journal has room for the record and
gets to see it as it was made; or puts the pair that is there; or fails -/
def PutOp.Matched (op : PutOp) (existingRecord : Option DatastoreRecord) : Prop :=
  Refused op.env (op.stored existingRecord) ∨
    match existingRecord with
    | none => op.record.key.length + 2 ≤ mdbMaxkeysize ∧ op.env.journalFull = false ∧
        op.env.frame.read op.journalRecord.pair = op.journalRecord.pair
    | some existing => op.stored (some existing) = existing ∨
        (lowered (some existing) op.record).timestamp = (op.stored (some existing)).timestamp ∨
        mdbMaxkeysize < op.record.key.length + 2 ∨ op.env.journalFull = true

instance (op : PutOp) (existingRecord : Option DatastoreRecord) :
    Decidable (op.Matched existingRecord) :=
  have : Decidable (Refused op.env (op.stored existingRecord)) :=
    inferInstanceAs (Decidable (¬ Fits _ _ ∨ _ = true))
  match existingRecord with
  | none => inferInstanceAs (Decidable (_ ∨ _ ∧ _ ∧ _ = _))
  | some _ => inferInstanceAs (Decidable (_ ∨ _ = _ ∨ _ = _ ∨ _ ∨ _ = _))

/-- the put returns, and is one of those -/
structure PutOp.Agreeing (op : PutOp) (context : LmdbContext)
    (existingRecord : Option DatastoreRecord) : Prop where
  fits : (op.stored existingRecord).timestamp < 2 ^ 56
  searched : Safe (searchJournal existingRecord (lowered existingRecord op.record) context.journal)
  matched : op.Matched existingRecord

def PutOp.AgreeingIn (op : PutOp) (h : History) : Prop :=
  ∀ existingRecord, repoFsrepoLmdbGet op.record.key h.context = .ok existingRecord →
    op.Agreeing h.context existingRecord

instance (op : PutOp) (context : LmdbContext) (existingRecord : Option DatastoreRecord) :
    Decidable (op.Agreeing context existingRecord) :=
  decidable_of_iff ((op.stored existingRecord).timestamp < 2 ^ 56 ∧
      Safe (searchJournal existingRecord (lowered existingRecord op.record) context.journal) ∧
      op.Matched existingRecord)
    ⟨fun ⟨hfits, hsearched, hmatched⟩ => ⟨hfits, hsearched, hmatched⟩,
      fun h => ⟨h.fits, h.searched, h.matched⟩⟩

instance (op : PutOp) (h : History) : Decidable (op.AgreeingIn h) :=
  match hget : repoFsrepoLmdbGet op.record.key h.context with
  | .error _ => isTrue fun _ hok => by cases hget.symm.trans hok
  | .ok existingRecord => decidable_of_iff (op.Agreeing h.context existingRecord)
      ⟨fun hag _ hok => by cases hget.symm.trans hok; exact hag, fun hag => hag _ hget⟩

section
variable {op : PutOp} {h h' : History} {journalRecord : JournalRecord} {journal : MdbTable}

/-! ## the records of the journal -/

theorem isRecordOf_pair (hb : lmdbJournalstoreBuildRecord (toLex journalRecord.pair) =
    .ok journalRecord) {key : List UInt8} :
    isRecordOf key (toLex journalRecord.pair) = decide (journalRecord.hash = key) := by
  unfold isRecordOf
  rw [hb]

/-- a new record of the journal, among those of other keys -/
theorem journalRecords_insert_of_ne {key : List UInt8}
    (hb : lmdbJournalstoreBuildRecord (toLex journalRecord.pair) = .ok journalRecord)
    (hk : key ≠ journalRecord.hash) :
    journalRecords key (journal.insert journalRecord.pair.1 journalRecord.pair.2) =
      journalRecords key journal := by
  have hneg : isRecordOf key (toLex journalRecord.pair) = false := by
    rw [isRecordOf_pair hb]
    exact decide_eq_false (fun h => hk h.symm)
  have hsame : (journal.insert journalRecord.pair.1 journalRecord.pair.2).pairs.filter
      (isRecordOf key) = journal.pairs.filter (isRecordOf key) :=
    Multimap.filter_insert_of_neg hneg
  unfold journalRecords
  rw [hsame]

theorem not_mem_of_journalRecords_nil
    (hb : lmdbJournalstoreBuildRecord (toLex journalRecord.pair) = .ok journalRecord)
    (hnil : journalRecords journalRecord.hash journal = []) :
    journalRecord.pair.2 ∉ journal.values journalRecord.pair.1 := by
  intro hm
  have hmem : toLex journalRecord.pair ∈ journal.pairs.filter (isRecordOf journalRecord.hash) := by
    refine List.mem_filter.2 ⟨Multimap.mem_values.1 hm, ?_⟩
    rw [isRecordOf_pair hb]
    exact decide_eq_true rfl
  unfold journalRecords at hnil
  rw [List.map_eq_nil_iff] at hnil
  rw [hnil] at hmem
  cases hmem

/-- the first record of a key -/
theorem journalRecords_insert_self
    (hb : lmdbJournalstoreBuildRecord (toLex journalRecord.pair) = .ok journalRecord)
    (hnil : journalRecords journalRecord.hash journal = []) :
    journalRecords journalRecord.hash
        (journal.insert journalRecord.pair.1 journalRecord.pair.2) = [.ok journalRecord] := by
  have hperm := (Multimap.pairs_insert_perm (not_mem_of_journalRecords_nil hb hnil)).filter
    (isRecordOf journalRecord.hash)
  have hpos : isRecordOf journalRecord.hash (toLex journalRecord.pair) = true := by
    rw [isRecordOf_pair hb]
    exact decide_eq_true rfl
  have hrest : journal.pairs.filter (isRecordOf journalRecord.hash) = [] := by
    unfold journalRecords at hnil
    rwa [List.map_eq_nil_iff] at hnil
  have hcons : (toLex journalRecord.pair :: journal.pairs).filter
      (isRecordOf journalRecord.hash) = [toLex journalRecord.pair] := by
    rw [List.filter_cons_of_pos hpos, hrest]
  unfold journalRecords
  rw [hcons, List.perm_singleton] at hperm
  rw [hperm, List.map_singleton, hb]

/-! ## one put -/

variable {context context' : LmdbContext} {retVal : Int}

/-- at most one record for each key of the datastore -/
def Single (context : LmdbContext) : Prop :=
  ∀ key, (context.datastore.values key).length ≤ 1

/-- the first put of a key: both tables get a record -/
theorem written_first (hagree : Agrees context) (hsingle : Single context)
    (hts : (op.stored none).timestamp < 2 ^ 56)
    (hget : repoFsrepoLmdbGet op.record.key context = .ok none)
    (hvalues : context.datastore.values op.record.key = [])
    (hacc : Accepted op.env (op.stored none) context)
    (hkey : op.record.key.length + 2 ≤ mdbMaxkeysize) (hroom : op.env.journalFull = false)
    (hframe : op.env.frame.read op.journalRecord.pair = op.journalRecord.pair)
    (hw : written op.env none (op.stored none) context = .ok (retVal, context')) :
    Agrees context' ∧ Single context' := by
  have hentry : journalEntry none (op.stored none) = some op.journalRecord := by
    unfold journalEntry PutOp.journalRecord
    rw [PutOp.stored_key]
  have hb : lmdbJournalstoreBuildRecord (toLex op.journalRecord.pair) = .ok op.journalRecord :=
    buildRecord_pair hts rfl rfl
  have hnil : journalRecords op.journalRecord.hash context.journal = [] := by
    obtain ⟨record, hrecord, hnil⟩ := hagree op.record.key
    rw [hget] at hrecord
    cases hrecord
    exact hnil
  have hfits : Fits op.journalRecord.pair.1 op.journalRecord.pair.2 := by
    have hfits : Fits (op.env.frame.read op.journalRecord.pair).1
        (op.env.frame.read op.journalRecord.pair).2 := fits_read.2 hkey
    rwa [hframe] at hfits
  have hput : mdbPut false false op.journalRecord.pair.1 op.journalRecord.pair.2
      context.journal = _ :=
    mdbPut_of_not_mem hfits (not_mem_of_journalRecords_nil hb hnil)
  have hzero : (0 : Int) ≠ mdbMapFull := by decide
  rw [written_of_accepted hacc hts, hentry] at hw
  simp only [hframe, hroom, hput, or_self, if_true, hzero, if_false, PutOp.stored_key] at hw
  obtain ⟨-, rfl⟩ := Prod.mk.inj (Except.ok.inj hw)
  have hvalues' := Multimap.values_insert_perm hacc.2
  rw [PutOp.stored_key, hvalues, List.perm_singleton] at hvalues'
  have hfit := not_not.1 (not_or.1 hacc.1).1
  rw [PutOp.stored_key] at hfit
  constructor
  · intro key
    by_cases hk : key = op.record.key
    · subst hk
      refine ⟨some (op.stored none), ?_, ?_⟩
      · exact get_of_values_cons PutOp.stored_key hts hfit hvalues'
      · exact journalRecords_insert_self hb hnil
    · obtain ⟨record, hrecord, hjournal⟩ := hagree key
      refine ⟨record, ?_, ?_⟩
      · exact (get_congr (Multimap.values_insert_of_ne hk)).trans hrecord
      · rw [← hjournal]
        exact journalRecords_insert_of_ne hb hk
  · intro key
    by_cases hk : key = op.record.key
    · subst hk
      show (Multimap.values _ _).length ≤ 1
      rw [hvalues']
      exact Nat.le_refl 1
    · show (Multimap.values _ _).length ≤ 1
      rw [Multimap.values_insert_of_ne hk]
      exact hsingle key

/-- the puts of a key that is there leave the tables as they are, or return 0 -/
theorem written_again {existing : DatastoreRecord} {j : JournalRecord}
    (hkey : existing.key = op.record.key)
    (hts : (op.stored (some existing)).timestamp < 2 ^ 56)
    (hjts : j.timestamp = (lowered (some existing) op.record).timestamp)
    (hjhash : j.hash = op.record.key)
    (hmem : recordBytes existing ∈ context.datastore.values op.record.key)
    (hag : op.stored (some existing) = existing ∨
        (lowered (some existing) op.record).timestamp = (op.stored (some existing)).timestamp ∨
        mdbMaxkeysize < op.record.key.length + 2 ∨ op.env.journalFull = true)
    (hw : written op.env (some j) (op.stored (some existing)) context = .ok (retVal, context')) :
    retVal = 0 ∨ context' = context := by
  by_cases href : Refused op.env (op.stored (some existing))
  · rw [written_of_refused href] at hw
    cases hw
    exact .inl rfl
  · by_cases hm : recordBytes (op.stored (some existing)) ∈
        context.datastore.values (op.stored (some existing)).key
    · rw [written_of_mem href hm] at hw
      cases hw
      exact .inr rfl
    · rw [written_of_accepted ⟨href, hm⟩ hts] at hw
      cases he : journalEntry (some j) (op.stored (some existing)) with
      | none =>
        simp only [he] at hw
        cases hw
        exact .inl rfl
      | some entry =>
        have hhash : entry.hash = op.record.key := by
          rw [hash_of_journalEntry _ he, PutOp.stored_key]
          rintro j' hj'
          cases hj'
          rw [PutOp.stored_key, hjhash]
        have hcode : (mdbPut false op.env.journalFull (op.env.frame.read entry.pair).1
            (op.env.frame.read entry.pair).2 context.journal).1 ≠ 0 := by
          intro hcode
          obtain ⟨hfits, hfull⟩ := mdbPut_eq_zero.1 hcode
          rw [fits_read, hhash] at hfits
          rcases hag with h | h | h | h
          · rw [h, hkey] at hm
            exact hm hmem
          · unfold journalEntry at he
            simp only [hjts, h, ne_eq, not_true, if_false] at he
            cases he
          · omega
          · rw [h] at hfull
            cases hfull
        simp only [he, hcode, reduceCtorEq, or_self, if_false] at hw
        cases hw
        exact .inl rfl

/-- what a run of agreeing puts keeps -/
structure InStep (h : History) : Prop where
  records : HoldsRecords h.context.datastore
  agreement : (∀ put ∈ h.puts, put.result ≠ 0) → Agrees h.context ∧ Single h.context

/-- **one put** -/
theorem InStep.step (hstep : InStep h) (hag : op.AgreeingIn h) :
    ∃ h', h.put op = .ok h' ∧ InStep h' := by
  obtain ⟨existingRecord, hget⟩ : ∃ existingRecord,
      repoFsrepoLmdbGet op.record.key h.context = .ok existingRecord := by
    rcases hstep.records.get op.record.key with ⟨-, hget⟩ | ⟨existing, -, -, -, -, -, hget⟩
    · exact ⟨none, hget⟩
    · exact ⟨some existing, hget⟩
  have hag := hag existingRecord hget
  obtain ⟨h', hput⟩ := History.put_safe hget hag.fits hag.searched
  refine ⟨h', hput, hstep.records.step hput, ?_⟩
  intro hresults
  obtain ⟨retVal, after, hput, hputs⟩ := History.put_eq_ok.1 hput
  rw [hputs] at hresults
  have hret : retVal ≠ 0 := hresults _ (List.mem_append_right _ (List.mem_singleton_self _))
  obtain ⟨hagree, hsingle⟩ :=
    hstep.agreement (fun put hm => hresults put (List.mem_append_left _ hm))
  obtain ⟨existingRecord', journalRecord, hget', hsearch, hts, -, hw⟩ :=
    repoFsrepoLmdbPut_eq_ok.1 hput
  obtain rfl : existingRecord = existingRecord' := Except.ok.inj (hget.symm.trans hget')
  have hw : written op.env journalRecord (op.stored existingRecord) h.context =
    .ok (retVal, h'.context) := hw
  by_cases href : Refused op.env (op.stored existingRecord)
  · rw [written_of_refused href] at hw
    exact absurd (Prod.mk.inj (Except.ok.inj hw)).1.symm hret
  · have hag := hag.matched.resolve_left href
    rcases hstep.records.searchJournal hget hsearch with
      ⟨rfl, rfl⟩ | ⟨existing, j, rfl, rfl, hjts, hjhash⟩
    · have hvalues : h.context.datastore.values op.record.key = [] := by
        rcases hstep.records.get op.record.key with ⟨hnil, -⟩ | ⟨r, rest, -, -, -, -, hsome⟩
        · exact hnil
        · cases hget.symm.trans hsome
      have hacc : Accepted op.env (op.stored none) h.context := by
        refine ⟨href, ?_⟩
        rw [PutOp.stored_key, hvalues]
        exact List.not_mem_nil
      exact written_first hagree hsingle hts hget hvalues hacc hag.1 hag.2.1 hag.2.2 hw
    · rcases hstep.records.get op.record.key with
        ⟨-, hnone⟩ | ⟨r, rest, hkey, -, -, hvalues, hsome⟩
      · cases hget.symm.trans hnone
      · obtain rfl : existing = r := Option.some.inj (Except.ok.inj (hget.symm.trans hsome))
        have hmem : recordBytes existing ∈ h.context.datastore.values op.record.key := by
          rw [hvalues]
          exact List.mem_cons_self
        rcases written_again hkey hts hjts hjhash hmem hag hw with h0 | hsame
        · exact absurd h0 hret
        · rw [hsame]
          exact ⟨hagree, hsingle⟩

end

theorem inStep_opened : InStep History.opened := by
  refine ⟨holdsRecords_empty, fun _ => ⟨?_, ?_⟩⟩
  · intro key
    exact ⟨none, get_of_values_nil Multimap.values_empty, rfl⟩
  · intro key
    exact Nat.zero_le 1

/-- **agreement**: along a run of agreeing puts -/
theorem holdsAlong_agreement {ops : List PutOp}
    (hag : Guarded History.put PutOp.AgreeingIn ops History.opened) :
    HoldsAlong History.put History.Agreement ops History.opened := by
  have hstep : HoldsAlong History.put InStep ops History.opened :=
    holdsAlong_of_step (fun op h hstep hag => hstep.step hag) inStep_opened hag
  exact hstep.mono (fun h hstep hresults => (hstep.agreement hresults).1)

/-! ## a put of a new timestamp -/

/-- a put of a value without a time, with room everywhere -/
def putNow (key : UInt8) (now : Nat) : PutOp where
  env := { now := now, datastoreFull := false, journalFull := false, frame := .intact }
  record := { key := [key], value := [97], timestamp := 0 }

/-- three keys, of which the first is put again in the same second -/
theorem holdsAlong_agreement_putNow :
    HoldsAlong History.put History.Agreement [putNow 1 5, putNow 2 6, putNow 1 5, putNow 3 4]
      History.opened :=
  holdsAlong_agreement (by decide)

/-- the value is put at the time 5 and again at the time 7: both puts succeed, and the journal has
two records of the key -/
theorem not_holdsAlong_agreement :
    ¬ ∀ ops, HoldsAlong History.put History.Agreement ops History.opened := by
  intro hall
  obtain ⟨h, hrun, hagreement⟩ := (hall [putNow 1 5, putNow 1 7]).last
  have heval : (runOps History.put [putNow 1 5, putNow 1 7] History.opened).toOption.map
      (fun h => (h.puts.all (fun put => put.result ≠ 0),
        (journalRecords [1] h.context.journal).length)) = some (true, 2) := by
    decide
  rw [hrun] at heval
  obtain ⟨hresults, hlength⟩ := Prod.mk.inj (Option.some.inj heval)
  have hagree := hagreement (fun put hm => of_decide_eq_true (List.all_eq_true.1 hresults put hm))
  obtain ⟨record, -, hjournal⟩ := hagree [1]
  rw [hjournal] at hlength
  cases record with
  | none => cases hlength
  | some record => cases hlength

end Ipfs
