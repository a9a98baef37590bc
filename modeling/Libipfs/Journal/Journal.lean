import Libipfs.Journal.JournalMessage
import Libipfs.Repo.LmdbDatastore
import Libipfs.Blocks.Block

/-!
# The journal protocol

A node that is sent a journal message looks up each file it names: one it does not hold is asked
for, one it has a newer timestamp of gets the older one.

* `journalSendMessage`       what is written: the header, then the message;
* `journalBuildTodo`, `journalAdjustTime`   what there is to do, and the doing;
* `journalHandleMessage`     the handler;
* `JournalLaw`               what handling a message is to do to the node;
* `journalSynchronise_keeps`   what becomes of a message that has been decoded;
* `not_received`             the framing: **behind the header the handler reads one byte more than
                             there is, and a message that comes by itself has been freed**;
* `not_journalLaw`           so no message gets as far as the law.
-/

namespace Ipfs
open CSem Libp2p Lmdb

/-- `/ipfs/journalio/1.0.0` -/
def journalProtocol : List UInt8 :=
  [47, 105, 112, 102, 115, 47, 106, 111, 117, 114, 110, 97, 108, 105, 111, 47, 49, 46, 48, 46, 48]

/-- what is sent ahead of the message: the protocol and a line feed -/
def journalHeader : List UInt8 := journalProtocol ++ [10]

/-- the two writes to the stream -/
def journalSendMessage (message : JournalMessage) : Exec (List UInt8 × List UInt8) := do
  let size ← journalMessageEncodeSize message
  let size ← stackArray size
  let msg ← journalMessageEncode message size
  .ok (journalHeader, msg)

/-- the datastore, and the CIDs the exchange has been asked for -/
structure JournalNode where
  context : LmdbContext
  requested : List Cid := []

/-- the clock, and for each thing to do the surroundings of the put and what the exchange answers -/
structure JournalEnv where
  now : UInt64
  put : Nat → PutEnv
  getBlockAsync : Nat → Cid → Bool × Option Block

/-! ## what there is to do -/

inductive JournalAction where
  | entryNeeded
  | timeAdjust
  | remoteNeeds
  deriving DecidableEq, Repr

structure JournalToDo where
  action : JournalAction
  localTimestamp : Nat := 0
  remoteTimestamp : Nat
  hash : List UInt8
  deriving DecidableEq, Repr

def journalBuildTodo (context : LmdbContext) : List JournalEntry → Exec (List JournalToDo)
  | [] => .ok []
  | entry :: entries => do
    let datastoreRecord ← repoFsrepoLmdbGet entry.hash context
    let todos ← journalBuildTodo context entries
    match datastoreRecord with
    | none =>
      .ok ({ action := .entryNeeded, hash := entry.hash,
             remoteTimestamp := entry.timestamp.toNat } :: todos)
    | some record =>
      -- do we need to adjust the time?
      if (record.timestamp = 0 ∧ entry.timestamp.toNat ≠ 0) ∨
          (entry.timestamp.toNat ≠ 0 ∧ entry.timestamp.toNat < record.timestamp) then
        .ok ({ action := .timeAdjust, hash := entry.hash, localTimestamp := record.timestamp,
               remoteTimestamp := entry.timestamp.toNat } :: todos)
      else .ok todos

/-- `false` when the function returns 0.  The pointer to the record is compared with 0, its
timestamp is not. -/
def journalAdjustTime (env : PutEnv) (todo : JournalToDo) (context : LmdbContext) :
    Exec (Bool × LmdbContext) := do
  match ← repoFsrepoLmdbGet todo.hash context with
  | none => .ok (false, context)
  | some record =>
    if todo.remoteTimestamp ≠ 0 ∧ ¬ todo.remoteTimestamp < record.timestamp then
      .ok (true, context)
    else do
      let record :=
        if todo.remoteTimestamp ≠ 0 then { record with timestamp := todo.remoteTimestamp }
        else record
      let (retVal, _, context) ← repoFsrepoLmdbPut env record context
      .ok (retVal ≠ 0, context)

def journalDo (env : JournalEnv) (i : Nat) (todo : JournalToDo) (node : JournalNode) :
    Exec JournalNode :=
  match todo.action with
  | .entryNeeded => do
    let cid := cidNew 0 todo.hash 0x70
    let node := { node with requested := node.requested ++ [cid] }
    match env.getBlockAsync i cid with
    | (true, some _) => do
      let (_, context) ← journalAdjustTime (env.put i) todo node.context
      .ok { node with context := context }
    | _ => .ok node
  | .timeAdjust => do
    let (_, context) ← journalAdjustTime (env.put i) todo node.context
    .ok { node with context := context }
  | .remoteNeeds => .ok node

def journalDoAll (env : JournalEnv) : Nat → List JournalToDo → JournalNode → Exec JournalNode
  | _, [], node => .ok node
  | i, todo :: todos, node => do
    let node ← journalDo env i todo node
    journalDoAll env (i + 1) todos node

/-! ## the handler -/

/-- the difference of the clocks, as a `long long` -/
def ourTimeDiff (now currentEpoch : UInt64) : Int :=
  Int.bmod (now.toNat - currentEpoch.toNat) 18446744073709551616

/-- what is done with a message once it has been decoded; `llabs` is not defined on the least
`long long` -/
def journalSynchronise (env : JournalEnv) (message : JournalMessage) (node : JournalNode) :
    Exec (Int × JournalNode) := do
  require .overflow (ourTimeDiff env.now message.currentEpoch ≠ -2 ^ 63)
  if 300 < (ourTimeDiff env.now message.currentEpoch).natAbs then .ok (-1, node)
  else do
    let todos ← journalBuildTodo node.context message.journalEntries
    let node ← journalDoAll env 0 todos node
    .ok (1, node)

/-- where the handler looks for the message: in a buffer that is said to have `size` bytes, or in
one that has been freed -/
inductive IncomingPos where
  | within (bytes : List UInt8) (size : Nat)
  | freed
  deriving DecidableEq, Repr

/-- the search for the line feed; `none` when the next segment cannot be read -/
def journalFindMessage (data : List UInt8) (next : Option (List UInt8)) :
    List UInt8 → Nat → Option IncomingPos
  | [], _ => some (.within data data.length)
  | b :: rest, i =>
    if b = 10 then
      if i + 1 < data.length then some (.within rest (data.length - i))
      else
        match next with
        | none => none
        -- the segment is freed at the end of this pass, which is the last
        | some _ => some .freed
    else journalFindMessage data next rest (i + 1)

/-- the incoming segment, and the next one there is to read -/
def journalHandleMessage (env : JournalEnv) (data : List UInt8) (next : Option (List UInt8))
    (node : JournalNode) : Exec (Int × JournalNode) :=
  match journalFindMessage data next data 0 with
  | none => .ok (-1, node)
  | some .freed => .error .freed
  | some (.within bytes size) => do
    match ← journalMessageDecode bytes size with
    | none => .ok (-1, node)
    | some message => journalSynchronise env message node

/-! ## the law -/

/-- the least of the timestamps that are not 0 -/
def agreedTimestamp (timestamps : List Nat) : Nat := (timestamps.filter (· ≠ 0)).min?.getD 0

/-- the timestamps a message has for a file -/
def JournalMessage.timestamps (message : JournalMessage) (hash : List UInt8) : List Nat :=
  (message.journalEntries.filter fun entry => entry.hash = hash).map fun entry =>
    entry.timestamp.toNat

/-- the message says when the file was made -/
def JournalMessage.Dates (message : JournalMessage) (hash : List UInt8) : Prop :=
  ∃ timestamp ∈ message.timestamps hash, timestamp ≠ 0

/-- the node does not hold the file -/
def absent (context : LmdbContext) (hash : List UInt8) : Bool :=
  match repoFsrepoLmdbGet hash context with
  | .ok none => true
  | _ => false

/-- what is asked for: the CID of each entry whose file is absent -/
def neededCids (context : LmdbContext) (entries : List JournalEntry) : List Cid :=
  (entries.filter fun entry => absent context entry.hash).map fun entry =>
    cidNew 0 entry.hash 0x70

/-- the node after the message against the node before -/
structure Synchronised (message : JournalMessage) (node node' : JournalNode) : Prop where
  dated : ∀ hash record, repoFsrepoLmdbGet hash node.context = .ok (some record) →
    message.Dates hash → repoFsrepoLmdbGet hash node'.context = .ok (some { record with
      timestamp := agreedTimestamp (record.timestamp :: message.timestamps hash) })
  requested : node'.requested = node.requested ++ neededCids node.context message.journalEntries
  others : ∀ hash, ¬ message.Dates hash →
    repoFsrepoLmdbGet hash node'.context = repoFsrepoLmdbGet hash node.context

/-- a message as it arrives: in one segment with the header, or in the segment behind it -/
inductive Delivered (message : JournalMessage) : List UInt8 → Option (List UInt8) → Prop
  | together {header msg : List UInt8} {next : Option (List UInt8)}
      (h : journalSendMessage message = .ok (header, msg)) :
      Delivered message (header ++ msg) next
  | apart {header msg : List UInt8} (h : journalSendMessage message = .ok (header, msg)) :
      Delivered message header (some msg)

/-- the decoder is given the bytes behind the line feed, and their count -/
def Framed (message : JournalMessage) (data : List UInt8) (next : Option (List UInt8)) : Prop :=
  ∃ header msg, journalSendMessage message = .ok (header, msg) ∧
    journalFindMessage data next data 0 = some (.within msg msg.length)

/-- what the decoder is given, it decodes into the message that was sent -/
def DecodedSame (message : JournalMessage) (data : List UInt8) (next : Option (List UInt8)) :
    Prop :=
  ∃ bytes size, journalFindMessage data next data 0 = some (.within bytes size) ∧
    journalMessageDecode bytes size = .ok (some message)

/-- handling the segments does what the message is for, within the window, and nothing outside -/
def JournalLaw (env : JournalEnv) (message : JournalMessage) (data : List UInt8)
    (next : Option (List UInt8)) (node : JournalNode) : Prop :=
  ∃ retVal node', journalHandleMessage env data next node = .ok (retVal, node') ∧
    ((ourTimeDiff env.now message.currentEpoch).natAbs ≤ 300 → Synchronised message node node') ∧
    (300 < (ourTimeDiff env.now message.currentEpoch).natAbs → node' = node)

section
variable {env : JournalEnv} {message : JournalMessage} {node node' : JournalNode}
variable {context context' : LmdbContext} {hash : List UInt8}

/-! ## what becomes of a message that has been decoded -/

theorem absent_eq_true :
    absent context hash = true ↔ repoFsrepoLmdbGet hash context = .ok none := by
  unfold absent
  split
  · next h => exact ⟨fun _ => h, fun _ => rfl⟩
  · next h =>
    refine ⟨fun hf => ?_, fun hn => absurd hn h⟩
    cases hf

theorem key_of_repoFsrepoLmdbGet {record : DatastoreRecord}
    (h : repoFsrepoLmdbGet hash context = .ok (some record)) : record.key = hash := by
  unfold repoFsrepoLmdbGet repoFsrepoLmdbGetWithTransaction at h
  split at h
  · cases h
  · obtain ⟨r, hr, h⟩ := bind_eq_ok.1 h
    obtain ⟨⟨timestamp, size⟩, -, hr⟩ := bind_eq_ok.1 hr
    cases hr
    cases h
    rfl

/-- an adjustment leaves the other files alone -/
theorem journalAdjustTime_get {putEnv : PutEnv} {todo : JournalToDo} {retVal : Bool}
    (h : journalAdjustTime putEnv todo context = .ok (retVal, context')) (hne : hash ≠ todo.hash) :
    repoFsrepoLmdbGet hash context' = repoFsrepoLmdbGet hash context := by
  obtain ⟨found, hget, h⟩ := bind_eq_ok.1 h
  cases found with
  | none =>
    cases h
    rfl
  | some record =>
    simp only at h
    split at h
    · cases h
      rfl
    · obtain ⟨⟨ret, after, context''⟩, hput, h⟩ := bind_eq_ok.1 h
      cases h
      obtain ⟨existingRecord, journalRecord, -, -, hts, -, hw⟩ := repoFsrepoLmdbPut_eq_ok.1 hput
      rcases written_datastore hts hw with hsame | ⟨-, hins⟩
      · exact get_congr (by rw [hsame])
      · refine get_congr ?_
        have hkey : record.key = todo.hash := key_of_repoFsrepoLmdbGet hget
        rw [hins, Multimap.values_insert_of_ne]
        rw [stamped_key, lowered_key]
        split
        · rwa [hkey]
        · rwa [hkey]

/-- nor does it touch a file that is absent -/
theorem journalAdjustTime_absent {putEnv : PutEnv} {todo : JournalToDo} {retVal : Bool}
    (h : journalAdjustTime putEnv todo context = .ok (retVal, context'))
    (habsent : repoFsrepoLmdbGet todo.hash context = .ok none) : context' = context := by
  unfold journalAdjustTime at h
  rw [habsent] at h
  cases h
  rfl

/-- what there is to do about a file: to ask for it if it is absent, to date it otherwise -/
theorem journalBuildTodo_mem {entries : List JournalEntry} {todos : List JournalToDo}
    {todo : JournalToDo} (h : journalBuildTodo context entries = .ok todos) (htodo : todo ∈ todos) :
    ∃ entry ∈ entries, entry.hash = todo.hash ∧
      (todo.action = .entryNeeded ∧ repoFsrepoLmdbGet todo.hash context = .ok none ∨
        todo.action = .timeAdjust ∧ entry.timestamp.toNat ≠ 0) := by
  induction entries generalizing todos with
  | nil =>
    cases h
    cases htodo
  | cons entry entries ih =>
    obtain ⟨found, hget, h⟩ := bind_eq_ok.1 h
    obtain ⟨rest, hrest, h⟩ := bind_eq_ok.1 h
    have hlater (hmem : todo ∈ rest) := ih hrest hmem
    cases found with
    | none =>
      cases h
      rcases List.mem_cons.1 htodo with rfl | htodo
      · exact ⟨entry, List.mem_cons_self, rfl, .inl ⟨rfl, hget⟩⟩
      · obtain ⟨e, he, hr⟩ := hlater htodo
        exact ⟨e, List.mem_cons_of_mem _ he, hr⟩
    | some record =>
      simp only at h
      split at h
      · next hdate =>
        cases h
        rcases List.mem_cons.1 htodo with rfl | htodo
        · refine ⟨entry, List.mem_cons_self, rfl, .inr ⟨rfl, ?_⟩⟩
          rcases hdate with ⟨-, hne⟩ | ⟨hne, -⟩
          · exact hne
          · exact hne
        · obtain ⟨e, he, hr⟩ := hlater htodo
          exact ⟨e, List.mem_cons_of_mem _ he, hr⟩
      · cases h
        obtain ⟨e, he, hr⟩ := hlater htodo
        exact ⟨e, List.mem_cons_of_mem _ he, hr⟩

theorem journalBuildTodo_needed {entries : List JournalEntry} {todos : List JournalToDo}
    (h : journalBuildTodo context entries = .ok todos) :
    ((todos.filter fun todo => todo.action = .entryNeeded).map fun todo =>
      cidNew 0 todo.hash 0x70) = neededCids context entries := by
  induction entries generalizing todos with
  | nil =>
    cases h
    rfl
  | cons entry entries ih =>
    obtain ⟨found, hget, h⟩ := bind_eq_ok.1 h
    obtain ⟨rest, hrest, h⟩ := bind_eq_ok.1 h
    have hih := ih hrest
    unfold neededCids at hih ⊢
    cases found with
    | none =>
      cases h
      have hkeep : (entry :: entries).filter (fun entry => absent context entry.hash) =
          entry :: entries.filter fun entry => absent context entry.hash :=
        List.filter_cons_of_pos (absent_eq_true.2 hget)
      rw [hkeep, List.map_cons, ← hih]
      rfl
    | some record =>
      have hheld : ¬ absent context entry.hash = true := by
        rw [absent_eq_true, hget]
        exact fun hn => Option.some_ne_none _ (Except.ok.inj hn)
      have hdrop : (entry :: entries).filter (fun entry => absent context entry.hash) =
          entries.filter fun entry => absent context entry.hash :=
        List.filter_cons_of_neg hheld
      rw [hdrop, ← hih]
      simp only at h
      split at h
      · cases h
        rfl
      · cases h
        rfl

/-- one thing done: what has been asked for -/
theorem journalDo_requested {i : Nat} {todo : JournalToDo}
    (h : journalDo env i todo node = .ok node') :
    node'.requested = node.requested ++
      ([todo].filter fun todo => todo.action = .entryNeeded).map fun todo =>
        cidNew 0 todo.hash 0x70 := by
  obtain ⟨action, localTimestamp, remoteTimestamp, hash⟩ := todo
  cases action with
  | entryNeeded =>
    unfold journalDo at h
    simp only at h
    split at h
    · obtain ⟨⟨retVal, context⟩, -, h⟩ := bind_eq_ok.1 h
      cases h
      rfl
    · cases h
      rfl
  | timeAdjust =>
    obtain ⟨⟨retVal, context⟩, -, h⟩ := bind_eq_ok.1 h
    cases h
    exact (List.append_nil _).symm
  | remoteNeeds =>
    cases h
    exact (List.append_nil _).symm

/-- one thing done: a file it is not about, or that is absent, is as it was -/
theorem journalDo_get {i : Nat} {todo : JournalToDo} (h : journalDo env i todo node = .ok node')
    (hother : hash = todo.hash → repoFsrepoLmdbGet hash node.context = .ok none) :
    repoFsrepoLmdbGet hash node'.context = repoFsrepoLmdbGet hash node.context := by
  have hadjust {putEnv : PutEnv} {retVal : Bool} {context' : LmdbContext}
      (hadjust : journalAdjustTime putEnv todo node.context = .ok (retVal, context')) :
      repoFsrepoLmdbGet hash context' = repoFsrepoLmdbGet hash node.context := by
    by_cases hh : hash = todo.hash
    · have habsent := hother hh
      rw [hh] at habsent
      rw [journalAdjustTime_absent hadjust habsent]
    · exact journalAdjustTime_get hadjust hh
  unfold journalDo at h
  split at h
  · simp only at h
    split at h
    · obtain ⟨⟨retVal, context'⟩, ha, h⟩ := bind_eq_ok.1 h
      cases h
      exact hadjust ha
    · cases h
      rfl
  · obtain ⟨⟨retVal, context'⟩, ha, h⟩ := bind_eq_ok.1 h
    cases h
    exact hadjust ha
  · cases h
    rfl

theorem journalDoAll_requested {i : Nat} {todos : List JournalToDo}
    (h : journalDoAll env i todos node = .ok node') :
    node'.requested = node.requested ++
      (todos.filter fun todo => todo.action = .entryNeeded).map fun todo =>
        cidNew 0 todo.hash 0x70 := by
  induction todos generalizing i node with
  | nil =>
    cases h
    exact (List.append_nil _).symm
  | cons todo todos ih =>
    obtain ⟨between, hdo, h⟩ := bind_eq_ok.1 h
    rw [ih h, journalDo_requested hdo, List.append_assoc, ← List.map_append, ← List.filter_append]
    rfl

theorem journalDoAll_get {i : Nat} {todos : List JournalToDo}
    (h : journalDoAll env i todos node = .ok node')
    (hother : ∀ todo ∈ todos, hash = todo.hash →
      repoFsrepoLmdbGet hash node.context = .ok none) :
    repoFsrepoLmdbGet hash node'.context = repoFsrepoLmdbGet hash node.context := by
  induction todos generalizing i node with
  | nil =>
    cases h
    rfl
  | cons todo todos ih =>
    obtain ⟨between, hdo, h⟩ := bind_eq_ok.1 h
    have hfirst := journalDo_get hdo (hother todo List.mem_cons_self)
    rw [← hfirst]
    refine ih h fun t ht hh => ?_
    rw [hfirst]
    exact hother t (List.mem_cons_of_mem _ ht) hh

/-- within the window, each file that is absent is asked for, once for each entry -/
theorem journalSynchronise_requested {retVal : Int}
    (h : journalSynchronise env message node = .ok (retVal, node'))
    (hwindow : (ourTimeDiff env.now message.currentEpoch).natAbs ≤ 300) :
    node'.requested = node.requested ++ neededCids node.context message.journalEntries := by
  obtain ⟨-, h⟩ := require_bind_eq_ok.1 h
  rw [if_neg (Nat.not_lt.2 hwindow)] at h
  obtain ⟨todos, htodos, h⟩ := bind_eq_ok.1 h
  obtain ⟨after, hall, h⟩ := bind_eq_ok.1 h
  cases h
  rw [journalDoAll_requested hall, journalBuildTodo_needed htodos]

/-- and a file that the message does not date is left alone -/
theorem journalSynchronise_get {retVal : Int}
    (h : journalSynchronise env message node = .ok (retVal, node'))
    (hdates : ¬ message.Dates hash) :
    repoFsrepoLmdbGet hash node'.context = repoFsrepoLmdbGet hash node.context := by
  obtain ⟨-, h⟩ := require_bind_eq_ok.1 h
  split at h
  · cases h
    rfl
  · obtain ⟨todos, htodos, h⟩ := bind_eq_ok.1 h
    obtain ⟨after, hall, h⟩ := bind_eq_ok.1 h
    cases h
    refine journalDoAll_get hall fun todo ht hh => ?_
    obtain ⟨entry, hentry, hhash, hkind⟩ := journalBuildTodo_mem htodos ht
    rcases hkind with ⟨-, habsent⟩ | ⟨-, hts⟩
    · rw [hh]
      exact habsent
    · refine absurd ⟨entry.timestamp.toNat, ?_, hts⟩ hdates
      refine List.mem_map.2 ⟨entry, List.mem_filter.2 ⟨hentry, ?_⟩, rfl⟩
      exact decide_eq_true (hhash.trans hh.symm)

/-- **a message asks for what is absent**, and what it does not date is left alone; out of the window
nothing changes -/
theorem journalSynchronise_keeps {retVal : Int}
    (h : journalSynchronise env message node = .ok (retVal, node')) :
    ((ourTimeDiff env.now message.currentEpoch).natAbs ≤ 300 →
        node'.requested = node.requested ++ neededCids node.context message.journalEntries) ∧
      (300 < (ourTimeDiff env.now message.currentEpoch).natAbs → node' = node) ∧
      ∀ hash, ¬ message.Dates hash →
        repoFsrepoLmdbGet hash node'.context = repoFsrepoLmdbGet hash node.context := by
  refine ⟨journalSynchronise_requested h, fun hout => ?_, fun hash => journalSynchronise_get h⟩
  obtain ⟨-, h⟩ := require_bind_eq_ok.1 h
  rw [if_pos hout] at h
  exact (Prod.mk.inj (Except.ok.inj h)).2.symm

/-! ## what becomes of a message that is sent -/

theorem journalFindMessage_cons {data rest : List UInt8} {next : Option (List UInt8)} {b : UInt8}
    {i : Nat} (hb : b ≠ 10) :
    journalFindMessage data next (b :: rest) i = journalFindMessage data next rest (i + 1) := by
  show (if b = 10 then _ else _) = _
  rw [if_neg hb]

theorem journalFindMessage_feed {data rest : List UInt8} {next : Option (List UInt8)} {i : Nat}
    (hi : i + 1 < data.length) :
    journalFindMessage data next (10 :: rest) i = some (.within rest (data.length - i)) := by
  show (if (10 : UInt8) = 10 then if i + 1 < data.length then _ else _ else _) = _
  rw [if_pos rfl, if_pos hi]

theorem journalFindMessage_last {data rest msg : List UInt8} {i : Nat}
    (hi : ¬ i + 1 < data.length) :
    journalFindMessage data (some msg) (10 :: rest) i = some .freed := by
  show (if (10 : UInt8) = 10 then if i + 1 < data.length then _ else _ else _) = _
  rw [if_pos rfl, if_neg hi]

/-- in front of the first line feed nothing is found -/
theorem journalFindMessage_line {data line rest : List UInt8} {next : Option (List UInt8)}
    {i : Nat} (hline : 10 ∉ line) :
    journalFindMessage data next (line ++ 10 :: rest) i =
      journalFindMessage data next (10 :: rest) (i + line.length) := by
  induction line generalizing i with
  | nil => rfl
  | cons b line ih =>
    have hb : b ≠ 10 := fun h => hline (by rw [h]; exact List.mem_cons_self)
    have hrest : 10 ∉ line := fun h => hline (List.mem_cons_of_mem _ h)
    have hi : i + 1 + line.length = i + (b :: line).length := by
      rw [List.length_cons]
      omega
    rw [List.cons_append, journalFindMessage_cons hb, ih hrest, hi]

theorem journalSendMessage_eq_ok {header msg : List UInt8}
    (h : journalSendMessage message = .ok (header, msg)) :
    header = journalHeader ∧ msg = journalMessageBytes message ∧ msg ≠ [] ∧
      msg.length + 1 ≤ 2 ^ 31 := by
  obtain ⟨size, hsize, h⟩ := bind_eq_ok.1 h
  obtain ⟨room, hroom, h⟩ := bind_eq_ok.1 h
  obtain ⟨bytes, hbytes, h⟩ := bind_eq_ok.1 h
  cases h
  obtain ⟨rfl, hle⟩ := journalMessageEncode_ok hbytes
  obtain ⟨-, h⟩ := require_bind_eq_ok.1 hroom
  cases h
  have hint := journalMessageEncodeSize_lt hsize
  have hpos := journalMessageBytes_pos message
  refine ⟨rfl, rfl, ?_, by omega⟩
  intro hnil
  rw [hnil, List.length_nil] at hpos
  exact absurd hpos (Nat.lt_irrefl 0)

theorem journalProtocol_line : 10 ∉ journalProtocol := by decide

/-- together with its header a message is found where it begins, and one byte too long -/
theorem journalFindMessage_together {header msg : List UInt8} {next : Option (List UInt8)}
    (h : journalSendMessage message = .ok (header, msg)) :
    journalFindMessage (header ++ msg) next (header ++ msg) 0 =
      some (.within msg (msg.length + 1)) := by
  obtain ⟨rfl, rfl, hne, hlen⟩ := journalSendMessage_eq_ok h
  have hpos := List.length_pos_iff.2 hne
  have hdata : journalHeader ++ journalMessageBytes message =
      journalProtocol ++ 10 :: journalMessageBytes message := by
    rw [journalHeader, List.append_assoc]
    rfl
  have hsize : (journalHeader ++ journalMessageBytes message).length =
      journalProtocol.length + ((journalMessageBytes message).length + 1) := by
    rw [hdata, List.length_append, List.length_cons]
  nth_rewrite 2 [hdata]
  rw [journalFindMessage_line journalProtocol_line, journalFindMessage_feed (by omega), hsize,
    Nat.zero_add, Nat.add_sub_cancel_left]

/-- in a segment of its own it is freed before it is looked at -/
theorem journalFindMessage_apart {header msg : List UInt8}
    (h : journalSendMessage message = .ok (header, msg)) :
    journalFindMessage header (some msg) header 0 = some .freed := by
  obtain ⟨rfl, -, -, -⟩ := journalSendMessage_eq_ok h
  show journalFindMessage journalHeader (some msg) (journalProtocol ++ 10 :: []) 0 = some .freed
  rw [journalFindMessage_line journalProtocol_line]
  exact journalFindMessage_last (by decide)

/-- what is said to have a byte more than it has is not decoded -/
theorem journalMessageDecode_sent {header msg : List UInt8}
    (h : journalSendMessage message = .ok (header, msg)) :
    journalMessageDecode msg (msg.length + 1) = .error .outOfBounds := by
  obtain ⟨-, rfl, -, hlen⟩ := journalSendMessage_eq_ok h
  exact journalMessageDecode_beyond hlen

/-- **a message that is sent is never handled** -/
theorem journalHandleMessage_delivered {data : List UInt8} {next : Option (List UInt8)}
    (h : Delivered message data next) :
    journalHandleMessage env data next node = .error .outOfBounds ∨
      journalHandleMessage env data next node = .error .freed := by
  cases h with
  | @together header msg next h =>
    refine .inl ?_
    unfold journalHandleMessage
    rw [journalFindMessage_together h]
    show (journalMessageDecode _ _ >>= _) = _
    rw [journalMessageDecode_sent h]
    rfl
  | @apart header msg h =>
    refine .inr ?_
    unfold journalHandleMessage
    rw [journalFindMessage_apart h]

/-- what the handler finds of a message that is sent -/
theorem journalFindMessage_delivered {data : List UInt8} {next : Option (List UInt8)}
    (h : Delivered message data next) :
    journalFindMessage data next data 0 = some .freed ∨
      ∃ header msg, journalSendMessage message = .ok (header, msg) ∧
        journalFindMessage data next data 0 = some (.within msg (msg.length + 1)) := by
  cases h with
  | @together header msg next h => exact .inr ⟨header, msg, h, journalFindMessage_together h⟩
  | @apart header msg h => exact .inl (journalFindMessage_apart h)

theorem not_framed {data : List UInt8} {next : Option (List UInt8)}
    (h : Delivered message data next) : ¬ Framed message data next := by
  intro ⟨header, msg, hsend, hfind⟩
  rcases journalFindMessage_delivered h with hfreed | ⟨header', msg', hsend', hfound⟩
  · rw [hfreed] at hfind
    cases hfind
  · rw [hsend] at hsend'
    cases hsend'
    rw [hfound] at hfind
    have hsize : msg.length + 1 = msg.length := by
      injection hfind with hfind
      injection hfind
    omega

theorem not_decodedSame {data : List UInt8} {next : Option (List UInt8)}
    (h : Delivered message data next) : ¬ DecodedSame message data next := by
  intro ⟨bytes, size, hfind, hdecode⟩
  rcases journalFindMessage_delivered h with hfreed | ⟨header, msg, hsend, hfound⟩
  · rw [hfreed] at hfind
    cases hfind
  · rw [hfound] at hfind
    cases hfind
    rw [journalMessageDecode_sent hsend] at hdecode
    cases hdecode

/-- **no message is framed as it was sent, and none is decoded**, whichever way it arrives -/
theorem not_received {data : List UInt8} {next : Option (List UInt8)}
    (h : Delivered message data next) :
    ¬ Framed message data next ∧ ¬ DecodedSame message data next :=
  ⟨not_framed h, not_decodedSame h⟩

/-- **the law holds of no message** -/
theorem not_journalLaw {data : List UInt8} {next : Option (List UInt8)}
    (h : Delivered message data next) : ¬ JournalLaw env message data next node := by
  rintro ⟨retVal, node', hhandle, -⟩
  rcases @journalHandleMessage_delivered env message node data next h with hf | hf
  · rw [hf] at hhandle
    cases hhandle
  · rw [hf] at hhandle
    cases hhandle

end

/-- a message of now that dates one file -/
def datedMessage : JournalMessage where
  currentEpoch := 1000
  startEpoch := 900
  endEpoch := 900
  journalEntries := [{ timestamp := 900, pin := 1, hash := [7] }]

def datedMessageBytes : List UInt8 :=
  [8, 232, 7, 16, 132, 7, 24, 132, 7, 34, 8, 8, 132, 7, 18, 1, 7, 24, 1]

theorem journalSendMessage_datedMessage :
    journalSendMessage datedMessage = .ok (journalHeader, datedMessageBytes) := by
  decide +kernel

/-- a node with empty tables, whose clock is right -/
def journalEnvAtThousand : JournalEnv where
  now := 1000
  put := fun _ => { now := 1000, datastoreFull := false, journalFull := false,
                    frame := DeadFrame.intact }
  getBlockAsync := fun _ _ => (true, none)

def journalNodeOpened : JournalNode where
  context := { datastore := Multimap.empty, journal := Multimap.empty }

/-- a file that is not there is asked for -/
theorem journalSynchronise_keeps_datedMessage : ∃ retVal node',
    journalSynchronise journalEnvAtThousand datedMessage journalNodeOpened = .ok (retVal, node') ∧
      ((ourTimeDiff journalEnvAtThousand.now datedMessage.currentEpoch).natAbs ≤ 300 →
        node'.requested = journalNodeOpened.requested ++
          neededCids journalNodeOpened.context datedMessage.journalEntries) ∧
      (300 < (ourTimeDiff journalEnvAtThousand.now datedMessage.currentEpoch).natAbs →
        node' = journalNodeOpened) ∧
      ∀ hash, ¬ datedMessage.Dates hash →
        repoFsrepoLmdbGet hash node'.context = repoFsrepoLmdbGet hash journalNodeOpened.context := by
  obtain ⟨⟨retVal, node'⟩, hrun, -⟩ := exists_of_toOption_map (f := Prod.fst) (b := 1)
    (x := journalSynchronise journalEnvAtThousand datedMessage journalNodeOpened) (by decide)
  exact ⟨retVal, node', hrun, journalSynchronise_keeps hrun⟩

theorem not_journalLaw_datedMessage : ¬ JournalLaw journalEnvAtThousand datedMessage
    (journalHeader ++ datedMessageBytes) none journalNodeOpened :=
  not_journalLaw (.together journalSendMessage_datedMessage)

theorem not_received_datedMessage :
    ¬ Framed datedMessage (journalHeader ++ datedMessageBytes) none ∧
      ¬ DecodedSame datedMessage (journalHeader ++ datedMessageBytes) none :=
  not_received (.together journalSendMessage_datedMessage)

/-- of the nineteen bytes behind the line feed the decoder is told there are twenty -/
theorem not_forall_received : ¬ ∀ message data next, Delivered message data next →
    Framed message data next ∧ DecodedSame message data next := by
  intro hall
  obtain ⟨⟨header, msg, hsend, hfind⟩, -⟩ := hall datedMessage (journalHeader ++ datedMessageBytes)
    none (.together journalSendMessage_datedMessage)
  rw [journalSendMessage_datedMessage] at hsend
  cases hsend
  revert hfind
  decide

theorem not_forall_journalLaw : ¬ ∀ env message data next node, Delivered message data next →
    JournalLaw env message data next node := by
  intro hall
  have hdelivered : Delivered datedMessage (journalHeader ++ datedMessageBytes) none :=
    .together journalSendMessage_datedMessage
  obtain ⟨retVal, node', hhandle, -⟩ :=
    hall journalEnvAtThousand datedMessage _ none journalNodeOpened hdelivered
  rcases @journalHandleMessage_delivered journalEnvAtThousand _ journalNodeOpened _ _ hdelivered
    with hf | hf
  · rw [hf] at hhandle
    cases hhandle
  · rw [hf] at hhandle
    cases hhandle

end Ipfs
