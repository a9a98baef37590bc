import Libipfs.Repo.LmdbDatastore

/-!
# What a get gives after a history of puts

* `recordAfter`, `History.Law`   the law: a get gives the value of the last successful put and the
                       least of the effective timestamps, and a key has one record at most;
* `PutOp.Keeps`        the puts that keep it;
* `History.put_iff`    a put from a state of the law leads to one iff it is one of those;
* `holdsAlong_law_iff` **the law holds along a run iff each of its puts is one of those**.

A put that changes the value or the timestamp of a key is not: under `MDB_DUPSORT` the new pair is
stored beside the old one, and a get gives whichever is first in the order of `memcmp`.
-/

namespace Ipfs
open CSem Libp2p Lmdb

/-- a put of the history; `result` is what it returned, 0 when it failed -/
structure Put where
  key : List UInt8
  value : List UInt8
  effective : Nat
  result : Int

structure History where
  context : LmdbContext
  puts : List Put

structure PutOp where
  env : PutEnv
  record : DatastoreRecord

/-- an incoming timestamp of 0 or later than now counts as now -/
def effectiveTimestamp (now timestamp : Nat) : Nat :=
  if timestamp = 0 ∨ now < timestamp then now else timestamp

/-- what a put makes of the record of `key`: the value is that of the last one that succeeded, the
timestamp the least of theirs -/
def recordAfter (key : List UInt8) (record : Option DatastoreRecord) (put : Put) :
    Option DatastoreRecord :=
  if put.key = key ∧ put.result ≠ 0 then
    some { key := key
           value := put.value
           timestamp := match record with
             | some record => min record.timestamp put.effective
             | none => put.effective }
  else record

def History.record (h : History) (key : List UInt8) : Option DatastoreRecord :=
  h.puts.foldl (recordAfter key) none

def History.Law (h : History) : Prop :=
  ∀ key, repoFsrepoLmdbGet key h.context = .ok (h.record key) ∧
    (h.context.datastore.values key).length ≤ 1

/-- the databases when they have just been created -/
def History.opened : History :=
  { context := { datastore := .empty, journal := .empty }, puts := [] }

def History.put (op : PutOp) (h : History) : Exec History := do
  let (retVal, _, context) ← repoFsrepoLmdbPut op.env op.record h.context
  let put : Put :=
    { key := op.record.key
      value := op.record.value
      effective := effectiveTimestamp op.env.now op.record.timestamp
      result := retVal }
  .ok { context := context, puts := h.puts ++ [put] }

/-- the record as it goes into the datastore when the key has `existingRecord` -/
def PutOp.stored (op : PutOp) (existingRecord : Option DatastoreRecord) : DatastoreRecord :=
  stamped op.env.now (lowered existingRecord op.record)

/-- the put either is refused, or is the first for its key and gets into the journal as well, or
puts the pair that is there, or is taken back for want of room in the journal -/
def PutOp.Kept (op : PutOp) (existingRecord : Option DatastoreRecord) : Prop :=
  Refused op.env (op.stored existingRecord) ∨
    match existingRecord with
    | none => ¬ JournalFull op.env op.record.key
    | some existing => op.stored (some existing) = existing ∨
        (lowered (some existing) op.record).timestamp ≠ (op.stored (some existing)).timestamp ∧
          JournalFull op.env op.record.key

/-- the put returns, and is one of those -/
structure PutOp.Keeps (op : PutOp) (context : LmdbContext)
    (existingRecord : Option DatastoreRecord) : Prop where
  fits : (op.stored existingRecord).timestamp < 2 ^ 56
  searched : Safe (searchJournal existingRecord (lowered existingRecord op.record) context.journal)
  kept : op.Kept existingRecord

/-- the guard of a run: the key's record is the one a get gives -/
def PutOp.KeepsIn (op : PutOp) (h : History) : Prop :=
  ∀ existingRecord, repoFsrepoLmdbGet op.record.key h.context = .ok existingRecord →
    op.Keeps h.context existingRecord

section
variable {op : PutOp} {h h' : History} {existingRecord : Option DatastoreRecord}
variable {existing : DatastoreRecord}

/-! ## timestamps -/

/-- where the put stores the timestamp there is, its own counts for no less -/
theorem min_effectiveTimestamp (he : (op.stored (some existing)).timestamp = existing.timestamp) :
    min existing.timestamp (effectiveTimestamp op.env.now op.record.timestamp) =
      existing.timestamp := by
  apply Nat.min_eq_left
  unfold PutOp.stored at he
  rw [stamped_timestamp, lowered_some_timestamp] at he
  unfold effectiveTimestamp
  split_ifs at he ⊢ <;> omega

theorem stored_none : op.stored none =
    { key := op.record.key
      value := op.record.value
      timestamp := effectiveTimestamp op.env.now op.record.timestamp } := by
  show stamped op.env.now op.record = _
  unfold stamped effectiveTimestamp
  split <;> rfl

/-! ## one put -/

theorem History.put_eq_ok : h.put op = .ok h' ↔ ∃ retVal after,
    repoFsrepoLmdbPut op.env op.record h.context = .ok (retVal, after, h'.context) ∧
      h'.puts = h.puts ++ [{ key := op.record.key
                             value := op.record.value
                             effective := effectiveTimestamp op.env.now op.record.timestamp
                             result := retVal }] := by
  obtain ⟨context', puts'⟩ := h'
  unfold History.put
  rw [bind_eq_ok]
  constructor
  · rintro ⟨⟨retVal, after, context⟩, hput, hh⟩
    cases hh
    exact ⟨retVal, after, hput, rfl⟩
  · rintro ⟨retVal, after, hput, hputs⟩
    refine ⟨_, hput, ?_⟩
    obtain rfl : puts' = _ := hputs
    rfl

theorem HoldsRecords.step (hrec : HoldsRecords h.context.datastore) (hput : h.put op = .ok h') :
    HoldsRecords h'.context.datastore := by
  obtain ⟨retVal, after, hput, -⟩ := History.put_eq_ok.1 hput
  exact hrec.put hput

/-- the law at the other keys is what it was -/
theorem History.law_of_ne {retVal : Int} {after : DatastoreRecord} {key : List UInt8}
    (hk : key ≠ op.record.key)
    (hput : repoFsrepoLmdbPut op.env op.record h.context = .ok (retVal, after, h'.context))
    (hputs : h'.puts = h.puts ++ [{ key := op.record.key
                                    value := op.record.value
                                    effective := effectiveTimestamp op.env.now op.record.timestamp
                                    result := retVal }]) :
    h'.record key = h.record key ∧
      h'.context.datastore.values key = h.context.datastore.values key := by
  constructor
  · unfold History.record
    rw [hputs, List.foldl_append]
    exact if_neg (fun hc => hk hc.1.symm)
  · obtain ⟨existingRecord, journalRecord, -, -, hts, -, hw⟩ := repoFsrepoLmdbPut_eq_ok.1 hput
    rcases written_datastore hts hw with hsame | ⟨-, hins⟩
    · rw [hsame]
    · rw [hins]
      refine Multimap.values_insert_of_ne ?_
      rw [stamped_key, lowered_key]
      exact hk

/-- the law at the key of the put, from that before it -/
theorem History.record_put {retVal : Int} (hputs : h'.puts = h.puts ++
    [{ key := op.record.key
       value := op.record.value
       effective := effectiveTimestamp op.env.now op.record.timestamp
       result := retVal }]) :
    h'.record op.record.key = if retVal = 0 then h.record op.record.key else
      some { key := op.record.key
             value := op.record.value
             timestamp := match h.record op.record.key with
               | some record =>
                 min record.timestamp (effectiveTimestamp op.env.now op.record.timestamp)
               | none => effectiveTimestamp op.env.now op.record.timestamp } := by
  unfold History.record
  rw [hputs, List.foldl_append]
  show recordAfter _ _ _ = _
  unfold recordAfter
  by_cases hr : retVal = 0
  · rw [if_pos hr, if_neg (fun hc => hc.2 hr)]
  · rw [if_neg hr, if_pos ⟨rfl, hr⟩]

/-- after a put the law is to be checked at its key -/
theorem History.law_iff_at (hlaw : h.Law) (hput : h.put op = .ok h') :
    h'.Law ↔ repoFsrepoLmdbGet op.record.key h'.context = .ok (h'.record op.record.key) ∧
      (h'.context.datastore.values op.record.key).length ≤ 1 := by
  obtain ⟨retVal, after, hput, hputs⟩ := History.put_eq_ok.1 hput
  constructor
  · intro hlaw'
    exact hlaw' op.record.key
  · intro hat key
    by_cases hk : key = op.record.key
    · rw [hk]
      exact hat
    · obtain ⟨hr, hv⟩ := History.law_of_ne hk hput hputs
      rw [get_congr hv, hr, hv]
      exact hlaw key

/-- the law before the put, seen at its key -/
theorem History.Law.cases (hrec : HoldsRecords h.context.datastore) (hlaw : h.Law)
    {key : List UInt8} (hget : repoFsrepoLmdbGet key h.context = .ok existingRecord) :
    h.record key = existingRecord ∧
      ((existingRecord = none ∧ h.context.datastore.values key = []) ∨
        ∃ existing, existingRecord = some existing ∧ existing.key = key ∧
          existing.timestamp < 2 ^ 56 ∧ Fits key (recordBytes existing) ∧
          h.context.datastore.values key = [recordBytes existing]) := by
  obtain ⟨hlawget, hlen⟩ := hlaw key
  refine ⟨Except.ok.inj (hlawget.symm.trans hget), ?_⟩
  rcases hrec.get key with ⟨hnil, hnone⟩ | ⟨existing, rest, hkey, hts, hfit, hvalues, hsome⟩
  · exact .inl ⟨Except.ok.inj (hget.symm.trans hnone), hnil⟩
  · rw [hvalues, List.length_cons] at hlen
    obtain rfl : rest = [] := List.length_eq_zero_iff.1 (by omega)
    exact .inr ⟨existing, Except.ok.inj (hget.symm.trans hsome), hkey, hts, hfit, hvalues⟩

theorem PutOp.stored_key : (op.stored existingRecord).key = op.record.key := by
  unfold PutOp.stored
  rw [stamped_key, lowered_key]

theorem PutOp.stored_value : (op.stored existingRecord).value = op.record.value := by
  unfold PutOp.stored
  rw [stamped_value, lowered_value]

/-- the law at the key of a put that `written` has been worked out for -/
def LawAt (op : PutOp) (record : Option DatastoreRecord) (retVal : Int)
    (context : LmdbContext) : Prop :=
  repoFsrepoLmdbGet op.record.key context = .ok
    (if retVal = 0 then record else
      some { key := op.record.key
             value := op.record.value
             timestamp := match record with
               | some record =>
                 min record.timestamp (effectiveTimestamp op.env.now op.record.timestamp)
               | none => effectiveTimestamp op.env.now op.record.timestamp }) ∧
    (context.datastore.values op.record.key).length ≤ 1

section
variable {context context' : LmdbContext} {journalRecord : Option JournalRecord} {retVal : Int}

theorem lawAt_of_none (hts : (op.stored none).timestamp < 2 ^ 56)
    (hget : repoFsrepoLmdbGet op.record.key context = .ok none)
    (hvalues : context.datastore.values op.record.key = [])
    (hw : written op.env none (op.stored none) context = .ok (retVal, context')) :
    LawAt op none retVal context' ↔ op.Kept none := by
  unfold LawAt PutOp.Kept
  by_cases href : Refused op.env (op.stored none)
  · rw [written_of_refused href] at hw
    cases hw
    rw [if_pos rfl, hvalues]
    exact iff_of_true ⟨hget, Nat.zero_le 1⟩ (.inl href)
  · have hacc : Accepted op.env (op.stored none) context := by
      refine ⟨href, ?_⟩
      rw [PutOp.stored_key, hvalues]
      exact List.not_mem_nil
    have hj : ∀ j, (none : Option JournalRecord) = some j → j.hash = (op.stored none).key := by
      intro j hj
      cases hj
    by_cases hfull : JournalFull op.env op.record.key
    · have hundone : Undone op.env none (op.stored none) := by
        refine ⟨Option.some_ne_none _, ?_⟩
        rw [PutOp.stored_key]
        exact hfull
      rw [written_of_undone hacc hts hj hundone] at hw
      cases hw
      rw [if_neg (by decide), hget]
      refine iff_of_false ?_ ?_
      · rintro ⟨he, -⟩
        cases he
      · rintro (h | h)
        · exact href h
        · exact h hfull
    · have hundone : ¬ Undone op.env none (op.stored none) := by
        rintro ⟨-, h⟩
        rw [PutOp.stored_key] at h
        exact hfull h
      obtain ⟨ret, journal, hw', hret⟩ := written_of_not_undone hacc hts hj hundone
      rw [hw'] at hw
      cases hw
      rw [hret rfl, if_neg (by decide)]
      have hvalues' := Multimap.values_insert_perm hacc.2
      rw [PutOp.stored_key, hvalues, List.perm_singleton] at hvalues'
      have hget' : repoFsrepoLmdbGet op.record.key
          { datastore := context.datastore.insert op.record.key (recordBytes (op.stored none))
            journal := journal } = .ok (some (op.stored none)) :=
        get_of_values_cons PutOp.stored_key hts
          (PutOp.stored_key ▸ not_not.1 (not_or.1 href).1) hvalues'
      rw [PutOp.stored_key, hget']
      refine iff_of_true ⟨?_, ?_⟩ (.inr hfull)
      · rw [stored_none]
      · show (Multimap.values _ _).length ≤ 1
        rw [hvalues']
        exact Nat.le_refl 1

theorem lawAt_of_some (hkey : existing.key = op.record.key)
    (hte : existing.timestamp < 2 ^ 56) (hfe : Fits op.record.key (recordBytes existing))
    (hts : (op.stored (some existing)).timestamp < 2 ^ 56) {j : JournalRecord}
    (hjts : j.timestamp = (lowered (some existing) op.record).timestamp)
    (hjhash : j.hash = op.record.key)
    (hget : repoFsrepoLmdbGet op.record.key context = .ok (some existing))
    (hvalues : context.datastore.values op.record.key = [recordBytes existing])
    (hw : written op.env (some j) (op.stored (some existing)) context = .ok (retVal, context')) :
    LawAt op (some existing) retVal context' ↔ op.Kept (some existing) := by
  unfold LawAt PutOp.Kept
  by_cases href : Refused op.env (op.stored (some existing))
  · rw [written_of_refused href] at hw
    cases hw
    rw [if_pos rfl, hvalues]
    exact iff_of_true ⟨hget, Nat.le_refl 1⟩ (.inl href)
  · have hfit : Fits op.record.key (recordBytes (op.stored (some existing))) := by
      have hfit := not_not.1 (not_or.1 href).1
      rwa [PutOp.stored_key] at hfit
    by_cases hm : recordBytes (op.stored (some existing)) ∈
        context.datastore.values (op.stored (some existing)).key
    · -- the pair is there already: the two records are the same
      rw [written_of_mem href hm] at hw
      cases hw
      rw [PutOp.stored_key, hvalues, List.mem_singleton] at hm
      have hsame : op.stored (some existing) = existing := by
        have h1 := buildRecord_recordBytes hts (by rwa [PutOp.stored_key])
        have h2 := buildRecord_recordBytes hte (by rwa [hkey])
        rw [PutOp.stored_key, hm, ← hkey, h2] at h1
        exact (Except.ok.inj h1).symm
      have hvalue : op.record.value = existing.value := by
        have hvalue := congrArg DatastoreRecord.value hsame
        rwa [PutOp.stored_value] at hvalue
      have hmin := min_effectiveTimestamp (congrArg DatastoreRecord.timestamp hsame)
      refine iff_of_true ⟨?_, ?_⟩ (.inr (.inl hsame))
      · rw [if_neg (by decide), hget, hvalue, ← hkey]
        simp only
        rw [hmin]
      · rw [hvalues]
        exact Nat.le_refl 1
    · have hacc : Accepted op.env (op.stored (some existing)) context := ⟨href, hm⟩
      have hj : ∀ j', some j = some j' → j'.hash = (op.stored (some existing)).key := by
        rintro j' hj'
        cases hj'
        rw [PutOp.stored_key, hjhash]
      have hundone_iff : Undone op.env (some j) (op.stored (some existing)) ↔
          (lowered (some existing) op.record).timestamp ≠ (op.stored (some existing)).timestamp ∧
            JournalFull op.env op.record.key := by
        unfold Undone journalEntry
        rw [PutOp.stored_key, ← hjts]
        simp only [ne_eq, ite_eq_right_iff, reduceCtorEq, imp_false, not_not]
      by_cases hundone : Undone op.env (some j) (op.stored (some existing))
      · rw [written_of_undone hacc hts hj hundone] at hw
        cases hw
        rw [if_neg (Option.some_ne_none j), if_pos rfl, hvalues]
        exact iff_of_true ⟨hget, Nat.le_refl 1⟩ (.inr (.inr (hundone_iff.1 hundone)))
      · -- a second record of the key
        obtain ⟨ret, journal, hw', -⟩ := written_of_not_undone hacc hts hj hundone
        rw [hw'] at hw
        cases hw
        have hlen := Multimap.length_values_insert hacc.2
        rw [PutOp.stored_key, hvalues] at hlen
        refine iff_of_false ?_ ?_
        · rintro ⟨-, hle⟩
          rw [PutOp.stored_key, hlen] at hle
          exact absurd hle (Nat.not_succ_le_self 1)
        · rintro (h | h | h)
          · exact href h
          · apply hm
            rw [h, hkey, hvalues]
            exact List.mem_singleton_self _
          · exact hundone (hundone_iff.2 h)

end

/-- **the put keeps the law iff it is one that does** -/
theorem History.law_iff (hrec : HoldsRecords h.context.datastore) (hlaw : h.Law)
    (hget : repoFsrepoLmdbGet op.record.key h.context = .ok existingRecord)
    (hput : h.put op = .ok h') : h'.Law ↔ op.Keeps h.context existingRecord := by
  rw [History.law_iff_at hlaw hput]
  obtain ⟨hrecord, hcases⟩ := hlaw.cases hrec hget
  obtain ⟨retVal, after, hput, hputs⟩ := History.put_eq_ok.1 hput
  obtain ⟨existingRecord', journalRecord, hget', hsearch, hts, -, hw⟩ :=
    repoFsrepoLmdbPut_eq_ok.1 hput
  obtain rfl : existingRecord = existingRecord' := Except.ok.inj (hget.symm.trans hget')
  have hfound := hrec.searchJournal hget hsearch
  rw [History.record_put hputs, hrecord]
  have hkeeps : op.Keeps h.context existingRecord ↔ op.Kept existingRecord :=
    ⟨fun hk => hk.kept, fun hk => ⟨hts, ⟨_, hsearch⟩, hk⟩⟩
  rw [hkeeps]
  rcases hcases with ⟨rfl, hvalues⟩ | ⟨existing, rfl, hkey, hte, hfe, hvalues⟩
  · rcases hfound with ⟨-, rfl⟩ | ⟨_, _, h, -⟩
    · exact lawAt_of_none hts hget hvalues hw
    · cases h
  · rcases hfound with ⟨h, -⟩ | ⟨_, j, h, rfl, hjts, hjhash⟩
    · cases h
    · exact lawAt_of_some hkey hte hfe hts hjts hjhash hget hvalues hw

/-- a put returns when its timestamp fits and the search of the journal comes to an end -/
theorem History.put_safe (hget : repoFsrepoLmdbGet op.record.key h.context = .ok existingRecord)
    (hfits : (op.stored existingRecord).timestamp < 2 ^ 56)
    (hsearched : Safe (searchJournal existingRecord (lowered existingRecord op.record)
      h.context.journal)) : ∃ h', h.put op = .ok h' := by
  obtain ⟨journalRecord, hsearch⟩ := hsearched
  obtain ⟨⟨retVal, context⟩, hw⟩ := written_safe hfits
  exact ⟨⟨context, _⟩, History.put_eq_ok.2 ⟨retVal, _, repoFsrepoLmdbPut_eq_ok.2
    ⟨existingRecord, journalRecord, hget, hsearch, hfits, rfl, hw⟩, rfl⟩⟩

/-- **one put**: from a state of the law it leads to one iff it is one of those -/
theorem History.put_iff (hinv : HoldsRecords h.context.datastore ∧ h.Law) :
    op.KeepsIn h ↔
      ∃ h', h.put op = .ok h' ∧ HoldsRecords h'.context.datastore ∧ h'.Law := by
  obtain ⟨hrec, hlaw⟩ := hinv
  constructor
  · intro hkeeps
    have hget := (hlaw op.record.key).1
    obtain ⟨h', hput⟩ := History.put_safe hget (hkeeps _ hget).fits (hkeeps _ hget).searched
    exact ⟨h', hput, hrec.step hput, (History.law_iff hrec hlaw hget hput).2 (hkeeps _ hget)⟩
  · rintro ⟨h', hput, -, hlaw'⟩ existingRecord hget
    exact (History.law_iff hrec hlaw hget hput).1 hlaw'

end

theorem History.law_opened : History.opened.Law := by
  intro key
  exact ⟨get_of_values_nil Multimap.values_empty, Nat.zero_le 1⟩

/-- **the law holds along a run iff each of its puts keeps it** -/
theorem holdsAlong_law_iff {ops : List PutOp} :
    HoldsAlong History.put History.Law ops History.opened ↔
      Guarded History.put PutOp.KeepsIn ops History.opened := by
  have hstart : HoldsRecords History.opened.context.datastore ∧ History.opened.Law :=
    ⟨holdsRecords_empty, History.law_opened⟩
  have hexact : HoldsAlong History.put
      (fun h => HoldsRecords h.context.datastore ∧ h.Law) ops History.opened ↔
        Guarded History.put PutOp.KeepsIn ops History.opened :=
    holdsAlong_iff_of_step (fun op h hinv => History.put_iff hinv) hstart
  rw [← hexact]
  constructor
  · intro hlaw
    exact hlaw.and_of_step (fun op h h' hrec hput => hrec.step hput) hstart.1
  · intro hboth
    exact hboth.mono (fun h hinv => hinv.2)

/-! ## a put of a new value -/

/-- a put under the key 1, at the time 7 and with room everywhere -/
def putAtSeven (value : List UInt8) (timestamp : Nat) : PutOp where
  env := { now := 7, datastoreFull := false, journalFull := false, frame := .intact }
  record := { key := [1], value := value, timestamp := timestamp }

/-- "a" is put with the time 5, then "b" without a time: both puts succeed, and a get still gives
"a", the first in the order of the bytes -/
theorem not_holdsAlong_law : ¬ ∀ ops, HoldsAlong History.put History.Law ops History.opened := by
  intro hall
  obtain ⟨h, hrun, hlaw⟩ := (hall [putAtSeven [97] 5, putAtSeven [98] 0]).last
  have hvalues : (runOps History.put [putAtSeven [97] 5, putAtSeven [98] 0]
      History.opened).toOption.map (fun h => (repoFsrepoLmdbGet [1] h.context, h.record [1])) =
      some (.ok (some { key := [1], value := [97], timestamp := 5 }),
        some { key := [1], value := [98], timestamp := 5 }) := by
    decide
  rw [hrun] at hvalues
  obtain ⟨hget, hrecord⟩ := Prod.mk.inj (Option.some.inj hvalues)
  have hlaw1 := (hlaw [1]).1
  rw [hget, hrecord] at hlaw1
  exact absurd hlaw1 (by decide)

end Ipfs
