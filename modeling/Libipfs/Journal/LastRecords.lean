import Libipfs.Repo.JournalCursor
import Libipfs.Lib.Heap
import Libipfs.Libp2p.Vector

/-!
# The last records of the journal

A node reads the last records of its journal when it is about to send a message.  The records are
objects, and what is handed out is a vector of pointers to them.

* `JournalReader.get`        a call of `lmdb_journalstore_cursor_get` through a pointer: it makes an
                             object when the pointer is null, and looks for the object's record
                             when it is not;
* `journalGetLast`           the loop, which goes on with the pointer of the first call;
* `LastRecords`              what the vector is to hold;
* `lastRecords_iff`          **there is only ever one object**, so it holds that for the last record
                             at most, and not always for that.
-/

namespace Ipfs
open CSem Libp2p Lmdb

/-- the cursor, the pointer `record`, and the objects there are -/
structure JournalReader where
  cursor : Option Nat
  record : Option Nat
  objects : Heap JournalRecord

def JournalReader.opened : JournalReader := ⟨none, none, Heap.empty⟩

def JournalReader.get (op : DatastoreCursorOp) (journal : MdbTable) (reader : JournalReader) :
    Exec (Bool × JournalReader) :=
  match reader.record with
  | none => do
    let (found, record, cursor) ← lmdbJournalstoreCursorGet op journal reader.cursor none
    match record with
    | none => .ok (found, { reader with cursor := cursor })
    | some record =>
      .ok (found, { cursor := cursor, record := some reader.objects.fresh,
                    objects := reader.objects.alloc record })
  | some p => do
    let criteria ← reader.objects.get p
    let (found, record, cursor) ←
      lmdbJournalstoreCursorGet op journal reader.cursor (some criteria)
    .ok (found, { reader with cursor := cursor,
                              objects := reader.objects.set p (record.getD criteria) })

/-- `more` is how often the loop may still be run after this pass -/
def journalGetLastLoop (journal : MdbTable) :
    Nat → JournalReader → List (Option Nat) → Exec (List (Option Nat) × JournalReader)
  | more, reader, vector => do
    let vector := utilsVectorAdd vector reader.record
    let (found, reader) ← reader.get .previous journal
    if found = false then .ok (vector, reader)
    else
      match more with
      | 0 => .ok (vector, reader)
      | more + 1 => journalGetLastLoop journal more reader vector

/-- `none` when NULL is returned -/
def journalGetLast (journal : MdbTable) (n : Int) :
    Exec (Option (List (Option Nat) × JournalReader)) := do
  let (found, reader) ← JournalReader.opened.get .last journal
  if found = false then .ok none
  else do
    let result ← journalGetLastLoop journal (n - 1).toNat reader []
    .ok (some result)

/-- `visited` are the records from the end of the journal on: the vector has the first `n` of them,
or all, and each in an object of its own -/
structure Returned (visited : List JournalRecord) (n : Int) (vector : List (Option Nat))
    (objects : Heap JournalRecord) : Prop where
  count : vector.length = min n.toNat visited.length
  own : vector.Nodup
  records : vector.map (fun slot => slot.bind objects.cells) = (visited.take n.toNat).map some
  distinct : (visited.take n.toNat).Nodup

def LastRecords (journal : MdbTable) (n : Int) : Prop :=
  ∃ vector reader visited, journalGetLast journal n = .ok (some (vector, reader)) ∧
    walkBack journal = .ok visited ∧ Returned visited n vector reader.objects

/-- the search for the last record leaves it alone at the record in front of it -/
def Spared (previous last : JournalRecord) : Prop := last.hash ≠ [] ∧ ¬ Wanted last previous

section
variable {journal : MdbTable} {records : List JournalRecord} {op : DatastoreCursorOp}
variable {reader reader' : JournalReader} {found : Bool} {vector vector' : List (Option Nat)}
variable {n : Int} {front : List JournalRecord} {previous last : JournalRecord}

/-! ## the object -/

/-- a call through a pointer that is not null keeps the pointer -/
theorem record_of_get {p : Nat} (hp : reader.record = some p)
    (h : reader.get op journal = .ok (found, reader')) : reader'.record = some p := by
  unfold JournalReader.get at h
  rw [hp] at h
  obtain ⟨criteria, -, h⟩ := bind_eq_ok.1 h
  obtain ⟨result, -, h⟩ := bind_eq_ok.1 h
  cases h
  rfl

theorem forall_mem_vectorAdd {p : Nat} (hp : reader.record = some p)
    (hold : ∀ slot ∈ vector, slot = some p) :
    ∀ slot ∈ utilsVectorAdd vector reader.record, slot = some p := by
  rw [hp]
  exact List.forall_mem_append.2 ⟨hold, List.forall_mem_singleton.2 rfl⟩

/-- **every slot of the vector is the same pointer** -/
theorem journalGetLastLoop_mem {p more : Nat} (hp : reader.record = some p)
    (h : journalGetLastLoop journal more reader vector = .ok (vector', reader'))
    (hold : ∀ slot ∈ vector, slot = some p) : ∀ slot ∈ vector', slot = some p := by
  induction more generalizing reader vector with
  | zero =>
    unfold journalGetLastLoop at h
    obtain ⟨⟨found, next⟩, -, h⟩ := bind_eq_ok.1 h
    have hvector := forall_mem_vectorAdd hp hold
    simp only at h
    split at h
    · cases h
      exact hvector
    · cases h
      exact hvector
  | succ more ih =>
    unfold journalGetLastLoop at h
    obtain ⟨⟨found, next⟩, hget, h⟩ := bind_eq_ok.1 h
    have hvector := forall_mem_vectorAdd hp hold
    simp only at h
    split at h
    · cases h
      exact hvector
    · exact ih (record_of_get hp hget) h hvector

theorem length_le_one_of_nodup {α : Type} {a : α} {l : List α} (hmem : ∀ x ∈ l, x = a)
    (h : l.Nodup) : l.length ≤ 1 := by
  rw [List.eq_replicate_of_mem hmem] at h
  exact List.nodup_replicate.1 h

/-! ## the two calls for the last record -/

/-- the reader when the last record has been read -/
def readerAtLast (records : List JournalRecord) (last : JournalRecord) : JournalReader where
  cursor := some (records.length - 1)
  record := some 0
  objects := Heap.empty.alloc last

theorem get_last (h : HoldsJournal journal (front ++ [last])) :
    JournalReader.opened.get .last journal = .ok (true, readerAtLast (front ++ [last]) last) := by
  have hat : pairsFrom (front ++ [last]) (some front.length) = [last] := List.drop_left
  have hlen : (front ++ [last]).length - 1 = front.length := by
    rw [List.length_append, List.length_singleton, Nat.add_sub_cancel]
  show (lmdbJournalstoreCursorGet .last journal none none >>= _) = _
  rw [cursorGet_none h, mdbCursorGet_last h (by simp), hlen, hat, ok_bind]
  unfold readerAtLast
  rw [hlen]
  rfl

theorem journalGetLast_eq (h : HoldsJournal journal (front ++ [last])) :
    journalGetLast journal n = (do
      let result ← journalGetLastLoop journal (n - 1).toNat (readerAtLast (front ++ [last]) last) []
      .ok (some result)) := by
  unfold journalGetLast
  rw [get_last h]
  rfl

/-- in a journal of one record there is none in front of it -/
theorem get_previous_one (h : HoldsJournal journal [last]) :
    ∃ reader, (readerAtLast [last] last).get .previous journal = .ok (false, reader) ∧
      reader.objects.cells 0 = some last := by
  have hts := (h.storable last List.mem_cons_self).fits
  have hplace : mdbCursorGet .previous journal (some 0) = none := rfl
  refine ⟨{ readerAtLast [last] last with objects := (Heap.empty.alloc last).set 0 last }, ?_, ?_⟩
  · show (lmdbJournalstoreCursorGet .previous journal (some 0) (some last) >>= _) = _
    rw [cursorGet_some h hts, hplace]
    rfl
  · exact Heap.set_cells_self rfl

/-- in a longer one the object is made over unless it is spared -/
theorem get_previous (h : HoldsJournal journal (front ++ [previous, last])) :
    ∃ found reader, (readerAtLast (front ++ [previous, last]) last).get .previous journal =
        .ok (found, reader) ∧
      (reader.objects.cells 0 = some last ↔ Spared previous last) := by
  have hts := (h.storable last (by simp)).fits
  have hlen : (front ++ [previous, last]).length - 1 = front.length + 1 := by simp
  have hplace : mdbCursorGet .previous journal (some (front.length + 1)) = some front.length := rfl
  have hat : pairsFrom (front ++ [previous, last]) (some front.length) = [previous, last] :=
    List.drop_left
  have hne : previous ≠ last := by
    have hnodup := List.Nodup.of_append_right h.nodup
    intro heq
    rw [heq] at hnodup
    exact List.not_nodup_pair last hnodup
  -- the record behind the pointer after the call
  have hget {found : Bool} {record : JournalRecord} {cursor : Option Nat}
      (hcall : lmdbJournalstoreCursorGet .previous journal (some (front.length + 1)) (some last) =
        .ok (found, some record, cursor)) :
      ∃ reader, (readerAtLast (front ++ [previous, last]) last).get .previous journal =
          .ok (found, reader) ∧ reader.objects.cells 0 = some record := by
    refine ⟨⟨cursor, some 0, (Heap.empty.alloc last).set 0 record⟩, ?_, Heap.set_cells_self rfl⟩
    show (lmdbJournalstoreCursorGet .previous journal
      (some ((front ++ [previous, last]).length - 1)) (some last) >>= _) = _
    rw [hlen, hcall]
    rfl
  have hcall : lmdbJournalstoreCursorGet .previous journal (some (front.length + 1)) (some last) =
    _ := cursorGet_some h hts
  rw [hplace, hat] at hcall
  by_cases hpass : passedOver last previous = true
  · obtain ⟨hhash, hprevious, hother⟩ := of_decide_eq_true hpass
    have hself : ¬ passedOver last last = true := fun hp => (of_decide_eq_true hp).2.2 rfl
    rw [List.dropWhile_cons_of_pos hpass, List.dropWhile_cons_of_neg hself] at hcall
    simp only [show Wanted last last from ⟨rfl, rfl⟩, true_or, if_true] at hcall
    obtain ⟨reader, hreader, hcell⟩ := hget hcall
    exact ⟨_, reader, hreader, fun _ => ⟨hhash, fun hw => hother hw.2⟩, fun _ => hcell⟩
  · rw [List.dropWhile_cons_of_neg hpass] at hcall
    simp only at hcall
    by_cases hspared : Spared previous last
    · rw [if_neg (not_or.2 ⟨hspared.2, hspared.1⟩)] at hcall
      obtain ⟨reader, hreader, hcell⟩ := hget hcall
      exact ⟨_, reader, hreader, fun _ => hspared, fun _ => hcell⟩
    · have htaken : Wanted last previous ∨ last.hash = [] := by
        by_contra hnot
        obtain ⟨hw, hhash⟩ := not_or.1 hnot
        exact hspared ⟨hhash, hw⟩
      rw [if_pos htaken] at hcall
      obtain ⟨reader, hreader, hcell⟩ := hget hcall
      refine ⟨_, reader, hreader, fun hlast => ?_, fun hs => absurd hs hspared⟩
      rw [hcell] at hlast
      exact absurd (Option.some.inj hlast) hne

/-! ## what is returned -/

theorem eq_singleton_or_two (hne : records ≠ []) :
    (∃ last, records = [last]) ∨
      ∃ front previous last, records = front ++ [previous, last] := by
  rcases List.eq_nil_or_concat' records with rfl | ⟨init, last, rfl⟩
  · exact absurd rfl hne
  · rcases List.eq_nil_or_concat' init with rfl | ⟨front, previous, rfl⟩
    · exact .inl ⟨last, rfl⟩
    · exact .inr ⟨front, previous, last, by rw [List.append_assoc]; rfl⟩

theorem lastRecords_one (h : HoldsJournal journal [last]) (hn : 1 ≤ n) : LastRecords journal n := by
  obtain ⟨reader, hget, hcell⟩ := get_previous_one h
  have htake : [last].take n.toNat = [last] := by
    apply List.take_of_length_le
    rw [List.length_singleton]
    omega
  have hloop : journalGetLastLoop journal (n - 1).toNat (readerAtLast [last] last) [] =
      .ok ([some 0], reader) := by
    unfold journalGetLastLoop
    rw [hget]
    rfl
  refine ⟨[some 0], reader, [last], ?_, walkBack_eq h, ?_, List.nodup_singleton _, ?_, ?_⟩
  · rw [journalGetLast_eq (show HoldsJournal journal ([] ++ [last]) from h)]
    show (journalGetLastLoop journal (n - 1).toNat (readerAtLast [last] last) [] >>= _) = _
    rw [hloop]
    rfl
  · show 1 = min n.toNat 1
    omega
  · show [reader.objects.cells 0] = ([last].take n.toNat).map some
    rw [hcell, htake]
    rfl
  · show ([last].take n.toNat).Nodup
    rw [htake]
    exact List.nodup_singleton _

/-- from a longer journal one record can be had, as long as it is spared -/
theorem lastRecords_first (h : HoldsJournal journal (front ++ [previous, last])) :
    LastRecords journal 1 ↔ Spared previous last := by
  obtain ⟨found, reader, hget, hcell⟩ := get_previous h
  have hloop : journalGetLastLoop journal 0 (readerAtLast (front ++ [previous, last]) last) [] =
      .ok ([some 0], reader) := by
    unfold journalGetLastLoop
    rw [hget]
    cases found <;> rfl
  have hlast : journalGetLast journal 1 = .ok (some ([some 0], reader)) := by
    have h' : HoldsJournal journal ((front ++ [previous]) ++ [last]) := by
      rwa [List.append_assoc]
    rw [journalGetLast_eq h', List.append_assoc]
    show (journalGetLastLoop journal 0 (readerAtLast (front ++ [previous, last]) last) [] >>= _) = _
    rw [hloop]
    rfl
  have htake : (front ++ [previous, last]).reverse.take (Int.toNat 1) = [last] := by
    rw [List.reverse_append]
    rfl
  rw [← hcell]
  constructor
  · intro ⟨vector, reader', visited, hget', hwalk, hreturned⟩
    rw [hlast] at hget'
    cases hget'
    rw [walkBack_eq h] at hwalk
    cases hwalk
    have hrecords := hreturned.records
    rw [htake] at hrecords
    exact (List.cons.inj hrecords).1
  · intro hobject
    refine ⟨_, _, _, hlast, walkBack_eq h, ?_, List.nodup_singleton _, ?_, ?_⟩
    · simp
    · rw [htake]
      show [reader.objects.cells 0] = [some last]
      rw [hobject]
    · rw [htake]
      exact List.nodup_singleton _

/-- **more than one never** -/
theorem not_lastRecords (h : HoldsJournal journal (front ++ [previous, last])) (hn : 2 ≤ n) :
    ¬ LastRecords journal n := by
  intro ⟨vector, reader, visited, hget, hwalk, hreturned⟩
  have h' : HoldsJournal journal ((front ++ [previous]) ++ [last]) := by
    rwa [List.append_assoc]
  rw [journalGetLast_eq h'] at hget
  obtain ⟨⟨vector', reader'⟩, hloop, hget⟩ := bind_eq_ok.1 hget
  cases hget
  rw [walkBack_eq h] at hwalk
  cases hwalk
  have hsame := journalGetLastLoop_mem (p := 0) rfl hloop fun _ hs => absurd hs List.not_mem_nil
  have hle := length_le_one_of_nodup hsame hreturned.own
  have hcount := hreturned.count
  rw [List.length_reverse, List.length_append] at hcount
  simp only [List.length_cons, List.length_nil] at hcount
  omega

/-- **when the last records are returned** -/
theorem lastRecords_iff (h : HoldsJournal journal records) (hne : records ≠ []) (hn : 1 ≤ n) :
    LastRecords journal n ↔ records.length = 1 ∨
      n = 1 ∧ ∃ front previous last, records = front ++ [previous, last] ∧
        Spared previous last := by
  rcases eq_singleton_or_two hne with ⟨last, rfl⟩ | ⟨front, previous, last, rfl⟩
  · exact ⟨fun _ => .inl rfl, fun _ => lastRecords_one h hn⟩
  · by_cases hone : n = 1
    · subst hone
      rw [lastRecords_first h]
      constructor
      · intro hspared
        exact .inr ⟨rfl, front, previous, last, rfl, hspared⟩
      · intro hcase
        rcases hcase with hlen | ⟨-, front', previous', last', heq, hspared⟩
        · simp at hlen
        · obtain ⟨-, hpair⟩ := List.append_inj' heq rfl
          cases hpair
          exact hspared
    · refine ⟨fun hr => absurd hr (not_lastRecords h (by omega)), fun hcase => ?_⟩
      rcases hcase with hlen | ⟨hn', -⟩
      · simp at hlen
      · exact absurd hn' hone

end

/-- a journal of two records -/
def journalOfTwo : MdbTable := journalOf [recordAt 5 [1], recordAt 6 [2]] (by decide) (by decide)

theorem holdsJournal_two : HoldsJournal journalOfTwo [recordAt 5 [1], recordAt 6 [2]] where
  storable := List.forall_mem_cons.2 ⟨storable_recordAt (by norm_num),
    List.forall_mem_singleton.2 (storable_recordAt (by norm_num))⟩
  pairs := rfl

theorem lastRecords_iff_two :
    LastRecords journalOfTwo 2 ↔ [recordAt 5 [1], recordAt 6 [2]].length = 1 ∨
      (2 : Int) = 1 ∧ ∃ front previous last,
        [recordAt 5 [1], recordAt 6 [2]] = front ++ [previous, last] ∧ Spared previous last :=
  lastRecords_iff holdsJournal_two (by decide) (by decide)

/-- of two records asked for there is one in the vector -/
theorem not_lastRecords_two : ¬ ∀ journal records (n : Int), HoldsJournal journal records →
    records ≠ [] → 1 ≤ n → LastRecords journal n := by
  intro hall
  obtain ⟨vector, reader, visited, hget, hwalk, hreturned⟩ :=
    hall journalOfTwo _ 2 holdsJournal_two (by decide) (by decide)
  have hvector : (journalGetLast journalOfTwo 2).map (·.map Prod.fst) =
      .ok (some [some 0]) := by decide
  rw [hget] at hvector
  cases hvector
  rw [walkBack_eq holdsJournal_two] at hwalk
  cases hwalk
  exact absurd hreturned.count (by decide)

end Ipfs
