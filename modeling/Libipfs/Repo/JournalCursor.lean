import Mathlib.Data.List.Perm.Basic
import Libipfs.Repo.Journalstore

/-!
# The cursor of the journal

What is read where a cursor is led to.

* `walkBack`                 from the last record to the first, one `CURSOR_PREVIOUS` at a time;
* `HoldsJournal`             the table holds these records, in this order;
* `timeOrdered_iff`          **the order of the keys is that of the timestamps as long as no two of
                             them fall out of step**: the bytes of a varint begin with the lowest
                             group;
* `exactSearch_iff`          **when the search for a record ends, and ends right**: it never looks
                             past the first record of another timestamp, and never notices the end
                             of the table.
-/

namespace Ipfs
open CSem Libp2p Lmdb

/-- `CURSOR_PREVIOUS` for as long as it finds something, with a pointer that is null each time -/
def walkPrevious (journal : MdbTable) : Nat → Option Nat → Exec (List JournalRecord)
  | 0, _ => .error .diverges
  | fuel + 1, cursor => do
    match ← lmdbJournalstoreCursorGet .previous journal cursor none with
    | (true, some record, cursor) => do
      let records ← walkPrevious journal fuel cursor
      .ok (record :: records)
    | _ => .ok []

/-- the records from the last one back -/
def walkBack (journal : MdbTable) : Exec (List JournalRecord) := do
  match ← lmdbJournalstoreCursorGet .last journal none none with
  | (true, some record, cursor) => do
    let records ← walkPrevious journal journal.pairs.length cursor
    .ok (record :: records)
  | _ => .ok []

/-! ## journals of records -/

/-- the timestamp fits its buffer, and each of the flags a byte -/
structure JournalRecord.Storable (journalRecord : JournalRecord) : Prop where
  fits : journalRecord.timestamp < 2 ^ 56
  pin : UInt8.toNat (UInt8.ofInt journalRecord.pin) = journalRecord.pin
  pending : UInt8.toNat (UInt8.ofInt journalRecord.pending) = journalRecord.pending

/-- the pairs of the table are those of the records, in the order of the cursor -/
structure HoldsJournal (journal : MdbTable) (records : List JournalRecord) : Prop where
  storable : ∀ record ∈ records, record.Storable
  pairs : journal.pairs = records.map fun record => toLex record.pair

/-- the timestamps from the last record back do not increase -/
def TimeOrdered (journal : MdbTable) : Prop :=
  ∃ records, walkBack journal = .ok records ∧
    records.Pairwise fun a b => b.timestamp ≤ a.timestamp

/-- in the lowest group of seven bits in which the two differ, the group of `a` is the smaller one,
or there is no group of `a` above it -/
def KeysInStep (a b : Nat) : Prop :=
  ∀ i, a % 128 ^ i = b % 128 ^ i → b / 128 ^ i % 128 < a / 128 ^ i % 128 → a < 128 ^ (i + 1)

/-- the record of this timestamp and this hash -/
def Wanted (wanted record : JournalRecord) : Prop :=
  record.timestamp = wanted.timestamp ∧ record.hash = wanted.hash

instance (wanted record : JournalRecord) : Decidable (Wanted wanted record) :=
  inferInstanceAs (Decidable (_ ∧ _))

/-- the search comes to an end, says whether the record is in the table, and gives it -/
def ExactSearch (op : DatastoreCursorOp) (journal : MdbTable) (cursor : Option Nat)
    (records : List JournalRecord) (wanted : JournalRecord) : Prop :=
  ∃ found result cursor',
    lmdbJournalstoreCursorGet op journal cursor (some wanted) =
      .ok (found, some result, cursor') ∧
    (found = true ↔ ∃ record ∈ records, Wanted wanted record) ∧
    (found = true → result ∈ records ∧ Wanted wanted result)

/-- a record that the search goes on behind.  A hash of no bytes is not searched for. -/
def passedOver (wanted record : JournalRecord) : Bool :=
  wanted.hash ≠ [] ∧ record.timestamp = wanted.timestamp ∧ record.hash ≠ wanted.hash

/-- behind records of the timestamp and of another hash there is the one that is wanted; or one of
another timestamp, or nothing at all from the place on, and the table does not have it -/
def SearchStops (records fromPlace : List JournalRecord) (wanted : JournalRecord) : Prop :=
  match fromPlace.dropWhile (passedOver wanted) with
  | [] => fromPlace = [] ∧ ¬ ∃ record ∈ records, Wanted wanted record
  | record :: _ => Wanted wanted record ∨
      wanted.hash ≠ [] ∧ record.timestamp ≠ wanted.timestamp ∧
        ¬ ∃ record ∈ records, Wanted wanted record

section
variable {a b : Nat} {record wanted : JournalRecord} {records : List JournalRecord}
variable {journal : MdbTable} {op : DatastoreCursorOp} {cursor : Option Nat}

/-! ## the order of varints -/

theorem memcmp_cons_le_cons {a b : UInt8} {l m : List UInt8} :
    a :: l ≤ b :: m ↔ a < b ∨ a = b ∧ l ≤ m := by
  rw [← not_lt, List.cons_lt_cons_iff, ← not_lt]
  constructor
  · intro h
    obtain ⟨h1, h2⟩ := not_or.1 h
    rcases lt_or_eq_of_le (not_lt.1 h1) with hlt | heq
    · exact .inl hlt
    · exact .inr ⟨heq, fun hlt => h2 ⟨heq.symm, hlt⟩⟩
  · rintro (hlt | ⟨rfl, h⟩) (hlt' | ⟨heq, h'⟩)
    · exact lt_asymm hlt hlt'
    · exact absurd heq.symm hlt.ne
    · exact lt_irrefl _ hlt'
    · exact h h'

theorem ofNat_lt_ofNat (ha : a < 256) (hb : b < 256) : UInt8.ofNat a < UInt8.ofNat b ↔ a < b := by
  rw [UInt8.lt_iff_toNat_lt, UInt8.toNat_ofNat_of_lt' ha, UInt8.toNat_ofNat_of_lt' hb]

theorem ofNat_eq_ofNat (ha : a < 256) (hb : b < 256) : UInt8.ofNat a = UInt8.ofNat b ↔ a = b := by
  rw [← UInt8.toNat_inj, UInt8.toNat_ofNat_of_lt' ha, UInt8.toNat_ofNat_of_lt' hb]

theorem keysInStep_of_lt (ha : a < 128) : KeysInStep a b := by
  intro i heq hlt
  exact lt_of_lt_of_le ha (Nat.le_self_pow (Nat.succ_ne_zero i) 128)

theorem keysInStep_of_group_lt (h : a % 128 < b % 128) : KeysInStep a b := by
  intro i heq hlt
  cases i with
  | zero =>
    rw [pow_zero, Nat.div_one, Nat.div_one] at hlt
    omega
  | succ i =>
    have hmod := congrArg (· % 128) heq
    simp only [pow_succ', Nat.mod_mul_right_mod] at hmod
    omega

theorem not_keysInStep (ha : 128 ≤ a) (h : b % 128 < a % 128) : ¬ KeysInStep a b := by
  intro hstep
  have hlt := hstep 0 (by rw [pow_zero, Nat.mod_one, Nat.mod_one])
    (by rw [pow_zero, Nat.div_one, Nat.div_one]; exact h)
  omega

/-- behind a group that they share, it is the rest that counts -/
theorem keysInStep_div (h : a % 128 = b % 128) :
    KeysInStep a b ↔ KeysInStep (a / 128) (b / 128) := by
  have hmod (n i : Nat) : n % 128 ^ (i + 1) = n % 128 + 128 * (n / 128 % 128 ^ i) := by
    rw [pow_succ', Nat.mod_mul]
  have hgroup (n i : Nat) : n / 128 ^ (i + 1) = n / 128 / 128 ^ i := by
    rw [pow_succ', Nat.div_div_eq_div_mul]
  constructor
  · intro hs i heq hlt
    have hbound := hs (i + 1) (by rw [hmod, hmod, h, heq]) (by rw [hgroup, hgroup]; exact hlt)
    rw [pow_succ'] at hbound
    omega
  · intro hs i heq hlt
    cases i with
    | zero =>
      rw [pow_zero, Nat.div_one, Nat.div_one, h] at hlt
      exact absurd hlt (Nat.lt_irrefl _)
    | succ i =>
      rw [hgroup, hgroup] at hlt
      rw [hmod, hmod, h] at heq
      have hbound := hs i (by omega) hlt
      rw [pow_succ']
      omega

theorem varintBytesFrom_le_iff {k : Nat} (ha : a < 128 ^ k) (hb : b < 128 ^ k) (hab : a ≤ b) :
    varintBytesFrom k a ≤ varintBytesFrom k b ↔ KeysInStep a b := by
  induction k generalizing a b with
  | zero =>
    rw [pow_zero, Nat.lt_one_iff] at ha hb
    subst ha hb
    exact ⟨fun _ i _ hlt => absurd hlt (Nat.lt_irrefl _), fun _ => le_refl _⟩
  | succ k ih =>
    rw [varintBytesFrom_succ, varintBytesFrom_succ]
    by_cases hsmall : a < 128
    · -- the byte of the last group of `a` has no continuation bit
      refine ⟨fun _ => keysInStep_of_lt hsmall, fun _ => ?_⟩
      rw [if_pos hsmall]
      split
      · rw [memcmp_cons_le_cons, ofNat_lt_ofNat (by omega) (by omega)]
        rcases Nat.lt_or_eq_of_le hab with hlt | rfl
        · exact .inl hlt
        · exact .inr ⟨rfl, le_refl _⟩
      · rw [memcmp_cons_le_cons, ofNat_lt_ofNat (by omega) (by omega)]
        exact .inl (by omega)
    · rw [if_neg hsmall, if_neg (by omega), memcmp_cons_le_cons,
        ofNat_lt_ofNat (by omega) (by omega), ofNat_eq_ofNat (by omega) (by omega)]
      rw [pow_succ] at ha hb
      rcases Nat.lt_trichotomy (a % 128) (b % 128) with hlt | heq | hgt
      · exact ⟨fun _ => keysInStep_of_group_lt hlt, fun _ => .inl (by omega)⟩
      · rw [keysInStep_div heq, ← ih (by omega) (by omega) (by omega), heq]
        constructor
        · rintro (hlt | ⟨-, hle⟩)
          · exact absurd hlt (Nat.lt_irrefl _)
          · exact hle
        · exact fun hle => .inr ⟨rfl, hle⟩
      · refine ⟨?_, fun hstep => absurd hstep (not_keysInStep (by omega) hgt)⟩
        rintro (hlt | ⟨heq, -⟩)
        · omega
        · omega

/-- **the order of the keys**: that of two timestamps when they are in step -/
theorem varintBytes_le_iff (hb : b < 2 ^ 56) (hab : a ≤ b) :
    varintBytes a ≤ varintBytes b ↔ KeysInStep a b := by
  apply varintBytesFrom_le_iff _ _ hab
  · norm_num at *
    omega
  · norm_num at *
    omega

theorem varintBytes_injective (ha : a < 2 ^ 56) (hb : b < 2 ^ 56)
    (h : varintBytes a = varintBytes b) : a = b := by
  have hpow : (2 : Nat) ^ 56 ≤ 128 ^ 10 := by norm_num
  have hvalue := congrArg varintValue h
  rw [varintBytes, varintBytes, varintValue_varintBytesFrom (by omega),
    varintValue_varintBytesFrom (by omega)] at hvalue
  exact hvalue

/-! ## a journal of records -/

theorem JournalRecord.Storable.buildRecord (h : record.Storable) :
    lmdbJournalstoreBuildRecord (toLex record.pair) = .ok record :=
  buildRecord_pair h.fits h.pin h.pending

theorem HoldsJournal.length (h : HoldsJournal journal records) :
    journal.pairs.length = records.length := by
  rw [h.pairs, List.length_map]

theorem HoldsJournal.pairsFrom (h : HoldsJournal journal records) (place : Option Nat) :
    pairsFrom journal.pairs place =
      (Ipfs.pairsFrom records place).map fun record => toLex record.pair := by
  rw [h.pairs]
  cases place with
  | none => rfl
  | some i => exact List.map_drop.symm

theorem mem_of_mem_pairsFrom {place : Option Nat} (h : record ∈ pairsFrom records place) :
    record ∈ records := by
  cases place with
  | none => cases h
  | some i => exact List.mem_of_mem_drop h

theorem HoldsJournal.keys (h : HoldsJournal journal records) :
    records.Pairwise fun a b => varintBytes a.timestamp ≤ varintBytes b.timestamp := by
  have hsorted := journal.sorted
  rw [h.pairs, List.pairwise_map] at hsorted
  exact hsorted.imp fun hle => Prod.Lex.monotone_fst _ _ hle

theorem HoldsJournal.nodup (h : HoldsJournal journal records) : records.Nodup := by
  have hnodup := journal.nodup
  rw [h.pairs] at hnodup
  exact hnodup.of_map _

/-! ## from the last record back -/

theorem cursorGet_none (h : HoldsJournal journal records) :
    lmdbJournalstoreCursorGet op journal cursor none =
      .ok ((pairsFrom records (mdbCursorGet op journal cursor)).head?.elim (false, none, cursor)
        fun record => (true, some record, mdbCursorGet op journal cursor)) := by
  unfold lmdbJournalstoreCursorGet
  simp only [h.pairsFrom]
  cases hat : pairsFrom records (mdbCursorGet op journal cursor) with
  | nil => rfl
  | cons record rest =>
    have hmem : record ∈ records :=
      mem_of_mem_pairsFrom (by rw [hat]; exact List.mem_cons_self)
    show (lmdbJournalstoreBuildRecord (toLex record.pair) >>= _) = _
    rw [(h.storable record hmem).buildRecord]
    rfl

theorem walkPrevious_eq (h : HoldsJournal journal records) {i fuel : Nat} (hi : i < records.length)
    (hfuel : i < fuel) : walkPrevious journal fuel (some i) = .ok (records.take i).reverse := by
  induction i generalizing fuel with
  | zero =>
    obtain ⟨fuel, rfl⟩ := Nat.exists_eq_add_one_of_ne_zero (Nat.ne_of_gt hfuel)
    unfold walkPrevious
    rw [cursorGet_none h]
    rfl
  | succ i ih =>
    obtain ⟨fuel, rfl⟩ := Nat.exists_eq_add_one_of_ne_zero (Nat.ne_of_gt (Nat.zero_lt_of_lt hfuel))
    have hplace : mdbCursorGet .previous journal (some (i + 1)) = some i := rfl
    have hat : pairsFrom records (some i) = records[i] :: records.drop (i + 1) :=
      List.drop_eq_getElem_cons (by omega)
    unfold walkPrevious
    rw [cursorGet_none h, hplace, hat]
    show (walkPrevious journal fuel (some i) >>= _) = _
    rw [ih (by omega) (by omega), List.take_succ_eq_append_getElem (by omega),
      List.reverse_concat]
    rfl

theorem mdbCursorGet_last (h : HoldsJournal journal records) (hne : records ≠ []) :
    mdbCursorGet .last journal cursor = some (records.length - 1) := by
  show (if 0 < journal.pairs.length then some (journal.pairs.length - 1) else none) = _
  rw [h.length, if_pos (List.length_pos_iff.2 hne)]

/-- the walk visits all the records, the last one first -/
theorem walkBack_eq (h : HoldsJournal journal records) :
    walkBack journal = .ok records.reverse := by
  unfold walkBack
  rw [cursorGet_none h]
  rcases List.eq_nil_or_concat' records with rfl | ⟨front, last, rfl⟩
  · have hplace : mdbCursorGet .last journal none = none := if_neg (by rw [h.length]; simp)
    rw [hplace]
    rfl
  · have hat : pairsFrom (front ++ [last]) (some front.length) = [last] := List.drop_left
    rw [mdbCursorGet_last h (by simp), List.length_append, List.length_singleton,
      Nat.add_sub_cancel, hat]
    show (walkPrevious journal _ (some front.length) >>= _) = _
    rw [walkPrevious_eq h (by simp) (by rw [h.length]; simp), List.take_left, List.reverse_concat]
    rfl

/-- **when the walk goes back in time** -/
theorem timeOrdered_iff (h : HoldsJournal journal records) :
    TimeOrdered journal ↔ ∀ a ∈ records, ∀ b ∈ records, a.timestamp < b.timestamp →
      KeysInStep a.timestamp b.timestamp := by
  have hkey {a b : JournalRecord} (hb : b ∈ records) (hlt : a.timestamp < b.timestamp) :
      varintBytes a.timestamp ≤ varintBytes b.timestamp ↔
        KeysInStep a.timestamp b.timestamp :=
    varintBytes_le_iff (h.storable b hb).fits (Nat.le_of_lt hlt)
  constructor
  · intro ⟨visited, hwalk, hordered⟩ a ha b hb hlt
    rw [walkBack_eq h] at hwalk
    cases hwalk
    rw [List.pairwise_reverse] at hordered
    rw [← hkey hb hlt]
    -- of two records the first one in the table has the smaller key
    have hforth : records.Pairwise fun a b => a.timestamp < b.timestamp →
        varintBytes a.timestamp ≤ varintBytes b.timestamp :=
      h.keys.imp fun {a b} hle (_ : a.timestamp < b.timestamp) => hle
    have hback : records.Pairwise fun a b => b.timestamp < a.timestamp →
        varintBytes b.timestamp ≤ varintBytes a.timestamp :=
      hordered.imp fun hle hlt => absurd hlt (Nat.not_lt.2 hle)
    exact hforth.forall_of_forall_of_flip (fun a _ _ => le_refl _) hback ha hb hlt
  · intro hstep
    refine ⟨records.reverse, walkBack_eq h, ?_⟩
    rw [List.pairwise_reverse]
    refine h.keys.imp_of_mem fun {a b} ha hb hle => ?_
    by_contra hlt
    have hlt := Nat.lt_of_not_le hlt
    have hback := (hkey ha hlt).2 (hstep b hb a ha hlt)
    have heq := varintBytes_injective (h.storable a ha).fits (h.storable b hb).fits
      (le_antisymm hle hback)
    omega

/-! ## looking for a record -/

theorem compare_eq_zero_iff :
    lmdbJournalstoreCompositeKeyCompare wanted record = 0 ↔ Wanted wanted record := by
  rw [compositeKeyCompare_eq_zero]
  exact ⟨fun h => ⟨h.1.symm, h.2.symm⟩, fun h => ⟨h.1.symm, h.2.symm⟩⟩

theorem Wanted.merge (h : Wanted wanted record) :
    { wanted with pending := record.pending, pin := record.pin } = record := by
  obtain ⟨timestamp, pin, pending, hash⟩ := record
  obtain ⟨rfl, rfl⟩ := h
  rfl

theorem cursorFlip_cons (hr : record.Storable) {pairs : List (List UInt8 ×ₗ List UInt8)}
    {i : Nat} :
    cursorFlip wanted (toLex record.pair :: pairs) i =
      if Wanted wanted record then .ok (some record, i)
      else if wanted.timestamp ≠ record.timestamp then .ok (none, i)
      else cursorFlip wanted pairs (i + 1) := by
  show (lmdbJournalstoreBuildRecord (toLex record.pair) >>= _) = _
  rw [hr.buildRecord, ok_bind]
  simp only [compare_eq_zero_iff]

/-- the flipping stops at the first record that is not passed over -/
theorem cursorFlip_eq (hs : ∀ record ∈ records, record.Storable) (hhash : wanted.hash ≠ [])
    {i : Nat} : cursorFlip wanted (records.map fun record => toLex record.pair) i =
      match records.dropWhile (passedOver wanted) with
      | [] => .error .diverges
      | record :: _ => .ok (if Wanted wanted record then some record else none,
          i + (records.takeWhile (passedOver wanted)).length) := by
  induction records generalizing i with
  | nil => rfl
  | cons head rest ih =>
    have ih := @ih (fun record hr => hs record (List.mem_cons_of_mem _ hr)) (i + 1)
    rw [List.map_cons, cursorFlip_cons (hs head List.mem_cons_self)]
    by_cases hpass : passedOver wanted head = true
    · obtain ⟨-, hts, hother⟩ := of_decide_eq_true hpass
      rw [if_neg (fun hw => hother hw.2), if_neg (not_not_intro hts.symm), ih,
        List.dropWhile_cons_of_pos hpass, List.takeWhile_cons_of_pos hpass, List.length_cons]
      split
      · rfl
      · rw [Nat.add_assoc, Nat.add_comm 1]
    · rw [List.dropWhile_cons_of_neg hpass, List.takeWhile_cons_of_neg hpass]
      by_cases hw : Wanted wanted head
      · rw [if_pos hw]
        show _ = Except.ok (if Wanted wanted head then _ else _, _)
        rw [if_pos hw]
        rfl
      · have hts : wanted.timestamp ≠ head.timestamp := by
          intro hts
          refine hpass (decide_eq_true ⟨hhash, hts.symm, fun hh => hw ⟨hts.symm, hh⟩⟩)
        rw [if_neg hw, if_pos hts]
        show _ = Except.ok (if Wanted wanted head then _ else _, _)
        rw [if_neg hw]
        rfl

/-- where the search from a place on stops -/
def stopOf (records : List JournalRecord) (place : Option Nat) (wanted : JournalRecord) : Nat :=
  place.getD 0 + ((pairsFrom records place).takeWhile (passedOver wanted)).length

/-- **what a search comes to** -/
theorem cursorGet_some (h : HoldsJournal journal records) (hts : wanted.timestamp < 2 ^ 56) :
    lmdbJournalstoreCursorGet op journal cursor (some wanted) =
      match (pairsFrom records (mdbCursorGet op journal cursor)).dropWhile
        (passedOver wanted) with
      | [] =>
        if pairsFrom records (mdbCursorGet op journal cursor) = [] then
          .ok (false, some wanted, cursor)
        else .error .diverges
      | record :: _ =>
        .ok (if Wanted wanted record ∨ wanted.hash = [] then
          (true, some record, some (stopOf records (mdbCursorGet op journal cursor) wanted))
        else (false, some wanted,
          some (stopOf records (mdbCursorGet op journal cursor) wanted))) := by
  have hmem : ∀ record ∈ pairsFrom records (mdbCursorGet op journal cursor), record.Storable :=
    fun record hr => h.storable record (mem_of_mem_pairsFrom hr)
  unfold lmdbJournalstoreCursorGet
  simp only
  rw [generateKey_eq_ok.2 ⟨hts, rfl⟩, ok_bind, h.pairsFrom]
  cases hplace : mdbCursorGet op journal cursor with
  | none => rfl
  | some i =>
    rw [hplace] at hmem
    unfold stopOf
    cases hat : pairsFrom records (some i) with
    | nil => rfl
    | cons head rest =>
      rw [hat] at hmem
      by_cases hhash : wanted.hash = []
      · have hpass : ¬ passedOver wanted head = true := fun hp => (of_decide_eq_true hp).1 hhash
        rw [List.dropWhile_cons_of_neg hpass, List.takeWhile_cons_of_neg hpass]
        show (if 0 < wanted.hash.length then _ else _) = _
        rw [if_neg (by rw [hhash]; exact Nat.lt_irrefl 0)]
        show (lmdbJournalstoreBuildRecord (toLex head.pair) >>= _) = Except.ok (if _ then _ else _)
        rw [(hmem head List.mem_cons_self).buildRecord, if_pos (Or.inr hhash)]
        rfl
      · show (if 0 < wanted.hash.length then _ else _) = _
        rw [if_pos (List.length_pos_iff.2 hhash)]
        show (cursorFlip wanted ((head :: rest).map fun record => toLex record.pair) i >>= _) = _
        rw [cursorFlip_eq hmem hhash]
        cases (head :: rest).dropWhile (passedOver wanted) with
        | nil => rfl
        | cons record post =>
          by_cases hw : Wanted wanted record
          · simp only [hw, ite_true, true_or, ok_bind]
            rw [hw.merge]
            rfl
          · simp only [hw, hhash, if_false, or_self, ok_bind]
            rfl

/-- a search stops at a record of the table, and not at one to pass over -/
theorem mem_of_stop {place : Option Nat} {post : List JournalRecord}
    (h : (pairsFrom records place).dropWhile (passedOver wanted) = record :: post) :
    record ∈ records ∧ ¬ passedOver wanted record = true := by
  constructor
  · apply mem_of_mem_pairsFrom
    apply (List.dropWhile_suffix (passedOver wanted) (l := pairsFrom records place)).subset
    rw [h]
    exact List.mem_cons_self
  · have hhead := List.head?_dropWhile_not (passedOver wanted) (pairsFrom records place)
    rw [h] at hhead
    show ¬ passedOver wanted record = true
    rw [hhead]
    exact Bool.false_ne_true

/-- **when a search ends, and ends right** -/
theorem exactSearch_iff (h : HoldsJournal journal records) :
    ExactSearch op journal cursor records wanted ↔ wanted.timestamp < 2 ^ 56 ∧
      SearchStops records (pairsFrom records (mdbCursorGet op journal cursor)) wanted := by
  unfold ExactSearch SearchStops
  by_cases hts : wanted.timestamp < 2 ^ 56
  swap
  · refine ⟨fun ⟨found, result, cursor', hget, _⟩ => ?_, fun hs => absurd hs.1 hts⟩
    obtain ⟨key, hkey, -⟩ := bind_eq_ok.1 hget
    exact absurd (generateKey_eq_ok.1 hkey).1 hts
  rw [cursorGet_some h hts]
  generalize mdbCursorGet op journal cursor = place
  cases hdrop : (pairsFrom records place).dropWhile (passedOver wanted) with
  | nil =>
    by_cases hnil : pairsFrom records place = []
    · rw [hnil]
      simp only [if_true]
      constructor
      · intro ⟨found, result, cursor', hget, hfound, _⟩
        cases hget
        exact ⟨hts, trivial, fun hin => absurd (hfound.2 hin) Bool.false_ne_true⟩
      · intro ⟨_, _, habsent⟩
        exact ⟨false, wanted, cursor, rfl, ⟨fun hf => absurd hf Bool.false_ne_true,
          fun hin => absurd hin habsent⟩, fun hf => absurd hf Bool.false_ne_true⟩
    · simp only [if_neg hnil]
      constructor
      · intro ⟨found, result, cursor', hget, _⟩
        cases hget
      · intro ⟨_, hn, _⟩
        exact absurd hn hnil
  | cons record post =>
    obtain ⟨hmem, hpass⟩ := mem_of_stop hdrop
    simp only
    by_cases hw : Wanted wanted record
    · rw [if_pos (Or.inl hw)]
      exact ⟨fun _ => ⟨hts, .inl hw⟩, fun _ => ⟨true, record, _, rfl,
        ⟨fun _ => ⟨record, hmem, hw⟩, fun _ => rfl⟩, fun _ => ⟨hmem, hw⟩⟩⟩
    · by_cases hhash : wanted.hash = []
      · rw [if_pos (Or.inr hhash)]
        constructor
        · intro ⟨found, result, cursor', hget, _, hresult⟩
          cases hget
          exact absurd (hresult rfl).2 hw
        · intro ⟨_, hstop⟩
          rcases hstop with hwanted | ⟨hne, _⟩
          · exact absurd hwanted hw
          · exact absurd hhash hne
      · have hts' : record.timestamp ≠ wanted.timestamp := by
          intro heq
          exact hpass (decide_eq_true ⟨hhash, heq, fun hh => hw ⟨heq, hh⟩⟩)
        rw [if_neg (not_or.2 ⟨hw, hhash⟩)]
        constructor
        · intro ⟨found, result, cursor', hget, hfound, _⟩
          cases hget
          exact ⟨hts, .inr ⟨hhash, hts', fun hin => absurd (hfound.2 hin) Bool.false_ne_true⟩⟩
        · intro ⟨_, hstop⟩
          have habsent := (hstop.resolve_left hw).2.2
          exact ⟨false, wanted, _, rfl, ⟨fun hf => absurd hf Bool.false_ne_true,
            fun hin => absurd hin habsent⟩, fun hf => absurd hf Bool.false_ne_true⟩

end

/-! ## two journals -/

def journalOf (records : List JournalRecord)
    (hsorted : (records.map fun record => toLex record.pair).Pairwise (· ≤ ·))
    (hnodup : (records.map fun record => toLex record.pair).Nodup) : MdbTable where
  pairs := records.map fun record => toLex record.pair
  sorted := hsorted
  nodup := hnodup

def recordAt (timestamp : Nat) (hash : List UInt8) : JournalRecord where
  timestamp := timestamp
  pin := 1
  pending := 1
  hash := hash

theorem storable_recordAt {timestamp : Nat} {hash : List UInt8} (h : timestamp < 2 ^ 56) :
    (recordAt timestamp hash).Storable :=
  ⟨h, rfl, rfl⟩

/-- the keys are `[128, 2]` and `[129, 1]` -/
def outOfStep : List JournalRecord := [recordAt 256 [2], recordAt 129 [1]]

def journalOutOfStep : MdbTable := journalOf outOfStep (by decide) (by decide)

theorem holdsJournal_outOfStep : HoldsJournal journalOutOfStep outOfStep where
  storable := List.forall_mem_cons.2 ⟨storable_recordAt (by norm_num),
    List.forall_mem_singleton.2 (storable_recordAt (by norm_num))⟩
  pairs := rfl

theorem timeOrdered_iff_outOfStep :
    TimeOrdered journalOutOfStep ↔ ∀ a ∈ outOfStep, ∀ b ∈ outOfStep,
      a.timestamp < b.timestamp → KeysInStep a.timestamp b.timestamp :=
  timeOrdered_iff holdsJournal_outOfStep

/-- the walk comes to 129 first, and then to 256 -/
theorem not_timeOrdered_outOfStep : ¬ ∀ journal records, HoldsJournal journal records →
    TimeOrdered journal := by
  intro hall
  obtain ⟨visited, hwalk, hordered⟩ := hall _ _ holdsJournal_outOfStep
  rw [walkBack_eq holdsJournal_outOfStep] at hwalk
  cases hwalk
  revert hordered
  decide

/-- a journal of one record -/
def journalOfOne : MdbTable := journalOf [recordAt 5 [1]] (by decide) (by decide)

theorem holdsJournal_one : HoldsJournal journalOfOne [recordAt 5 [1]] where
  storable := List.forall_mem_singleton.2 (storable_recordAt (by norm_num))
  pairs := rfl

theorem exactSearch_iff_one :
    ExactSearch .first journalOfOne none [recordAt 5 [1]] (recordAt 5 [2]) ↔ 5 < 2 ^ 56 ∧
      SearchStops [recordAt 5 [1]] (pairsFrom [recordAt 5 [1]]
        (mdbCursorGet .first journalOfOne none)) (recordAt 5 [2]) :=
  exactSearch_iff holdsJournal_one

/-- behind the last record of its timestamp the search for another hash goes on for ever -/
theorem not_exactSearch_one : ¬ ∀ op journal cursor records wanted,
    HoldsJournal journal records → ExactSearch op journal cursor records wanted := by
  intro hall
  obtain ⟨found, result, cursor', hget, -⟩ :=
    hall .first journalOfOne none [recordAt 5 [1]] (recordAt 5 [2]) holdsJournal_one
  revert hget
  have hdiverges : lmdbJournalstoreCursorGet .first journalOfOne none (some (recordAt 5 [2])) =
      .error .diverges := by decide
  rw [hdiverges]
  intro hget
  cases hget

end Ipfs
