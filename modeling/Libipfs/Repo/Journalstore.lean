import Libipfs.Lmdb.Table
import Libipfs.Protobuf.Varint

/-!
# The journal

The journal has a record for each file that was put into the datastore.  Its table is keyed by the
timestamp; the value is the two flags and the hash.

* `mdbCursorGet`                the place of a cursor after one of the four operations;
* `lmdbJournalstoreCursorGet`   looks for a record of a given timestamp and hash, and leaves the
                                cursor where it has looked last;
* `lmdbJournalstoreJournalAdd`, `lmdbJournalstoreCursorPut`   write one; the pair they write lies in
                                arrays whose function has returned, see `DeadFrame`.
-/

namespace Ipfs
open CSem Libp2p Lmdb

structure JournalRecord where
  timestamp : Nat
  pin : Int
  pending : Int
  hash : List UInt8
  deriving DecidableEq

/-- what reading the arrays `time_varint` and `record` gives when the functions they belong to have
returned: byte `i`, where `b` was stored -/
structure DeadFrame where
  timeVarint : Nat → UInt8 → UInt8
  record : Nat → UInt8 → UInt8

/-- nothing has used the stack since -/
def DeadFrame.intact : DeadFrame where
  timeVarint _ b := b
  record _ b := b

/-- the tables of a transaction; it is `failed` after an error it cannot be committed with -/
structure MdbTxn where
  datastore : MdbTable
  journal : MdbTable
  failed : Bool

def lmdbJournalstoreGenerateKey (journalRecord : JournalRecord) : Exec (List UInt8) :=
  varintEncode journalRecord.timestamp 8

def lmdbJournalstoreBuildKeyValuePair (journalRecord : JournalRecord) :
    Exec (List UInt8 × List UInt8) := do
  let key ← lmdbJournalstoreGenerateKey journalRecord
  .ok (key, UInt8.ofInt journalRecord.pin :: UInt8.ofInt journalRecord.pending ::
    journalRecord.hash)

def lmdbJournalstoreBuildRecord (pair : List UInt8 ×ₗ List UInt8) : Exec JournalRecord := do
  let key := (ofLex pair).1
  let value := (ofLex pair).2
  let (timestamp, _) ← varintDecode (toInt32 key.length) key
  match value with
  | pin :: pending :: hash =>
    .ok { timestamp := timestamp, pin := pin.toNat, pending := pending.toNat, hash := hash }
  | _ => .error .outOfBounds

/-! ## searching -/

/-- the loop of `lmdb_journalstore_composite_key_compare` -/
def hashCompare : List UInt8 → List UInt8 → Int
  | a :: as, b :: bs => if a ≠ b then b.toNat - a.toNat else hashCompare as bs
  | _, _ => 0

def lmdbJournalstoreCompositeKeyCompare (a b : JournalRecord) : Int :=
  if a.timestamp ≠ b.timestamp then if b.timestamp < a.timestamp then -1 else 1
  else if a.hash.length ≠ b.hash.length then if b.hash.length < a.hash.length then -1 else 1
  else hashCompare a.hash b.hash

inductive DatastoreCursorOp where
  | first
  | next
  | last
  | previous
  deriving DecidableEq, Repr

/-- the index of the pair that `mdb_cursor_get` leads to; `none` is `MDB_NOTFOUND`, and the cursor
stays where it is.  A cursor that has not been anywhere is led to one of the two ends. -/
def mdbCursorGet (op : DatastoreCursorOp) (journal : MdbTable) (cursor : Option Nat) :
    Option Nat :=
  let total := journal.pairs.length
  match op, cursor with
  | .first, _ | .next, none => if 0 < total then some 0 else none
  | .last, _ | .previous, none => if 0 < total then some (total - 1) else none
  | .next, some i => if i + 1 < total then some (i + 1) else none
  | .previous, some i => if 0 < i then some (i - 1) else none

/-- what is in a table from a place on -/
def pairsFrom {α : Type} (pairs : List α) : Option Nat → List α
  | none => []
  | some i => pairs.drop i

/-- flipping through the pairs from the cursor on, with the place at which it is left.  Behind the last
one `mdb_cursor_get` leaves key and value as they are, and what it returns is not looked at. -/
def cursorFlip (record : JournalRecord) :
    List (List UInt8 ×ₗ List UInt8) → Nat → Exec (Option JournalRecord × Nat)
  | [], _ => .error .diverges
  | pair :: pairs, i => do
    let currRecord ← lmdbJournalstoreBuildRecord pair
    if lmdbJournalstoreCompositeKeyCompare record currRecord = 0 then .ok (some currRecord, i)
    else if record.timestamp ≠ currRecord.timestamp then .ok (none, i)
    else cursorFlip record pairs (i + 1)

/-- what the function returns, the record behind the pointer, and the cursor -/
def lmdbJournalstoreCursorGet (op : DatastoreCursorOp) (journal : MdbTable)
    (cursor : Option Nat) (record : Option JournalRecord) :
    Exec (Bool × Option JournalRecord × Option Nat) :=
  let place := mdbCursorGet op journal cursor
  match record with
  | none =>
    match pairsFrom journal.pairs place with
    | [] => .ok (false, none, cursor)
    | pair :: _ => do
      let journalRecord ← lmdbJournalstoreBuildRecord pair
      .ok (true, some journalRecord, place)
  | some record => do
    let _ ← lmdbJournalstoreGenerateKey record
    match pairsFrom journal.pairs place with
    | [] => .ok (false, some record, cursor)
    | pair :: pairs =>
      if 0 < record.hash.length then do
        let (found, i) ← cursorFlip record (pair :: pairs) (place.getD 0)
        match found with
        | some currRecord =>
          .ok (true, some { record with pending := currRecord.pending, pin := currRecord.pin },
            some i)
        | none => .ok (false, some record, some i)
      else do
        let journalRecord ← lmdbJournalstoreBuildRecord pair
        .ok (true, some journalRecord, place)

def lmdbJournalstoreGetRecord (record : Option JournalRecord) (journal : MdbTable) :
    Exec (Bool × Option JournalRecord) := do
  let (found, record, _) ← lmdbJournalstoreCursorGet .first journal none record
  .ok (found, record)

/-! ## writing -/

/-- the pair as `mdb_put` gets to see it -/
def DeadFrame.read (frame : DeadFrame) (pair : List UInt8 × List UInt8) :
    List UInt8 × List UInt8 :=
  (pair.1.mapIdx frame.timeVarint, pair.2.mapIdx frame.record)

/-- an insertion for which there is no page makes the transaction fail -/
def MdbTxn.putJournal (full : Bool) (pair : List UInt8 × List UInt8) (txn : MdbTxn) :
    Int × MdbTxn :=
  let put := mdbPut false full pair.1 pair.2 txn.journal
  (put.1, { txn with journal := put.2, failed := txn.failed || put.1 == mdbMapFull })

def lmdbJournalstoreJournalAdd (frame : DeadFrame) (full : Bool) (journalRecord : JournalRecord)
    (txn : MdbTxn) : Exec (Bool × MdbTxn) := do
  let pair ← lmdbJournalstoreBuildKeyValuePair journalRecord
  let put := txn.putJournal full (frame.read pair)
  .ok (put.1 == 0, put.2)

/-- a put at the cursor of the journal goes where the key belongs, as one into the table does -/
def lmdbJournalstoreCursorPut (frame : DeadFrame) (full : Bool) (journalRecord : JournalRecord)
    (txn : MdbTxn) : Exec (Bool × MdbTxn) :=
  lmdbJournalstoreJournalAdd frame full journalRecord txn

/-! ## what they do -/

section
variable {journalRecord a b : JournalRecord} {frame : DeadFrame} {full : Bool} {txn : MdbTxn}

theorem hashCompare_eq_zero {as bs : List UInt8} (h : as.length = bs.length) :
    hashCompare as bs = 0 ↔ as = bs := by
  induction as generalizing bs with
  | nil =>
    obtain rfl := List.length_eq_zero_iff.1 h.symm
    exact ⟨fun _ => rfl, fun _ => rfl⟩
  | cons a as ih =>
    cases bs with
    | nil => cases h
    | cons b bs =>
      unfold hashCompare
      by_cases hab : a = b
      · rw [if_neg (not_not_intro hab), ih (Nat.succ.inj h), hab]
        exact ⟨fun h => by rw [h], fun h => (List.cons.inj h).2⟩
      · rw [if_pos hab]
        constructor
        · intro h0
          refine absurd (UInt8.toNat_inj.1 ?_) hab
          omega
        · intro he
          exact absurd (List.cons.inj he).1 hab

/-- the comparison finds the record of the timestamp and the hash -/
theorem compositeKeyCompare_eq_zero :
    lmdbJournalstoreCompositeKeyCompare a b = 0 ↔ a.timestamp = b.timestamp ∧ a.hash = b.hash := by
  unfold lmdbJournalstoreCompositeKeyCompare
  by_cases ht : a.timestamp = b.timestamp
  · rw [if_neg (not_not_intro ht)]
    by_cases hl : a.hash.length = b.hash.length
    · rw [if_neg (not_not_intro hl), hashCompare_eq_zero hl]
      exact ⟨fun h => ⟨ht, h⟩, fun h => h.2⟩
    · rw [if_pos hl]
      constructor
      · intro h
        split at h <;> cases h
      · rintro ⟨-, h⟩
        exact absurd (congrArg List.length h) hl
  · rw [if_pos ht]
    constructor
    · intro h
      split at h <;> cases h
    · rintro ⟨h, -⟩
      exact absurd h ht

/-- whatever a search for a hash comes to, the record has the timestamp and the hash it was
searched with -/
theorem getRecord_some {journal : MdbTable} {found : Bool} {result : Option JournalRecord}
    (hh : 0 < a.hash.length)
    (h : lmdbJournalstoreGetRecord (some a) journal = .ok (found, result)) :
    ∃ j, result = some j ∧ j.timestamp = a.timestamp ∧ j.hash = a.hash := by
  obtain ⟨⟨_, _, cursor⟩, hget, h⟩ := bind_eq_ok.1 h
  cases h
  obtain ⟨-, -, hget⟩ := bind_eq_ok.1 hget
  cases hpairs : pairsFrom journal.pairs (mdbCursorGet .first journal none) with
  | nil =>
    rw [hpairs] at hget
    cases hget
    exact ⟨a, rfl, rfl, rfl⟩
  | cons pair pairs =>
    rw [hpairs] at hget
    simp only [if_pos hh] at hget
    obtain ⟨⟨found', i⟩, -, hget⟩ := bind_eq_ok.1 hget
    cases found' with
    | none =>
      cases hget
      exact ⟨a, rfl, rfl, rfl⟩
    | some currRecord =>
      cases hget
      exact ⟨_, rfl, rfl, rfl⟩

theorem generateKey_eq_ok {key : List UInt8} :
    lmdbJournalstoreGenerateKey journalRecord = .ok key ↔
      journalRecord.timestamp < 2 ^ 56 ∧ key = varintBytes journalRecord.timestamp := by
  unfold lmdbJournalstoreGenerateKey
  rw [varintEncode_eq_ok_of_short (by norm_num) (by norm_num)]
  norm_num

/-- the pair of a record whose timestamp fits -/
def JournalRecord.pair (journalRecord : JournalRecord) : List UInt8 × List UInt8 :=
  (varintBytes journalRecord.timestamp,
    UInt8.ofInt journalRecord.pin :: UInt8.ofInt journalRecord.pending :: journalRecord.hash)

theorem buildKeyValuePair_eq (h : journalRecord.timestamp < 2 ^ 56) :
    lmdbJournalstoreBuildKeyValuePair journalRecord = .ok journalRecord.pair := by
  unfold lmdbJournalstoreBuildKeyValuePair
  rw [generateKey_eq_ok.2 ⟨h, rfl⟩]
  rfl

theorem journalAdd_eq (h : journalRecord.timestamp < 2 ^ 56) :
    lmdbJournalstoreJournalAdd frame full journalRecord txn =
      .ok ((txn.putJournal full (frame.read journalRecord.pair)).1 == 0,
        (txn.putJournal full (frame.read journalRecord.pair)).2) := by
  unfold lmdbJournalstoreJournalAdd
  rw [buildKeyValuePair_eq h]
  rfl

theorem cursorPut_eq (h : journalRecord.timestamp < 2 ^ 56) :
    lmdbJournalstoreCursorPut frame full journalRecord txn =
      .ok ((txn.putJournal full (frame.read journalRecord.pair)).1 == 0,
        (txn.putJournal full (frame.read journalRecord.pair)).2) :=
  journalAdd_eq h

/-- the sizes of a pair do not depend on what the dead arrays hold -/
theorem fits_read : Fits (frame.read journalRecord.pair).1 (frame.read journalRecord.pair).2 ↔
    journalRecord.hash.length + 2 ≤ mdbMaxkeysize := by
  have hpos := varintBytes_length_pos journalRecord.timestamp
  have hle := varintBytes_length_le journalRecord.timestamp
  have hkey : (frame.read journalRecord.pair).1.length =
      (varintBytes journalRecord.timestamp).length := List.length_mapIdx
  have hvalue : (frame.read journalRecord.pair).2.length = journalRecord.hash.length + 2 :=
    List.length_mapIdx
  unfold Fits mdbMaxkeysize
  rw [hkey, hvalue]
  omega

/-- a record whose pair is read as it was written -/
theorem buildRecord_pair (h : journalRecord.timestamp < 2 ^ 56)
    (hpin : UInt8.toNat (UInt8.ofInt journalRecord.pin) = journalRecord.pin)
    (hpending : UInt8.toNat (UInt8.ofInt journalRecord.pending) = journalRecord.pending) :
    lmdbJournalstoreBuildRecord (toLex journalRecord.pair) = .ok journalRecord := by
  have hle := varintBytes_length_le journalRecord.timestamp
  have hdec : varintDecode (varintBytes journalRecord.timestamp).length
      (varintBytes journalRecord.timestamp ++ []) = _ :=
    varintDecode_varintBytes (by omega) (varintFits_of_le (Int.le_refl _))
  have hint : toInt32 ((varintBytes journalRecord.timestamp).length : Nat) =
      (varintBytes journalRecord.timestamp).length := toInt32_natCast_of_lt (by omega)
  unfold lmdbJournalstoreBuildRecord
  show (varintDecode (toInt32 (varintBytes journalRecord.timestamp).length)
    (varintBytes journalRecord.timestamp) >>= _) = _
  rw [List.append_nil] at hdec
  rw [hint, hdec, ok_bind]
  show Except.ok _ = _
  rw [hpin, hpending]

end

end Ipfs
