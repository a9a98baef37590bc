import Libipfs.Lib.Run
import Libipfs.Libp2p.Peer
import Libipfs.Libp2p.Vector
import Libipfs.Blocks.Block

/-!
# The want list

Who wants which CID: one entry for each CID, with the sessions that ask for it.  The vector of
entries is there from the first addition on.  A new entry registers its session twice, and a
session is taken out of an entry by the deletion of `Libp2p/Vector`, which loses another one.

* `Counted`, `counted_iff_nil`   what the entries are to count, and that they never do.
-/

namespace Ipfs
open CSem Libp2p

inductive WantListSessionType where
  | local
  | remote
  deriving DecidableEq, Repr

/-- the context of a remote session is a peer, that of a local one is not looked at -/
structure WantListSession where
  type : WantListSessionType := .local
  context : Option Peer := none
  deriving DecidableEq, Repr

def wantlistSessionNew : WantListSession := {}

structure WantListQueueEntry where
  cid : Option Cid := none
  priority : Int := 0
  sessionsRequesting : List (Option WantListSession) := []
  block : Option Block := none
  askedNetwork : Bool := false
  attempts : Int := 0
  deriving DecidableEq, Repr

def wantlistQueueEntryNew : WantListQueueEntry := {}

/-- `queue` is null until something is added -/
structure WantListQueue where
  queue : Option (List (Option WantListQueueEntry)) := none
  deriving DecidableEq, Repr

def wantlistQueueNew : WantListQueue := {}

/-- the slots of the vector, none when there is no vector -/
def WantListQueue.entries (wantlist : WantListQueue) : List (Option WantListQueueEntry) :=
  wantlist.queue.getD []

/-! ## sessions -/

def wantlistSessionCompare (a b : Option WantListSession) : Int :=
  match a, b with
  | none, none => 0
  | none, some _ => -1
  | some _, none => 1
  | some a, some b =>
    match a.type, b.type with
    | .local, .remote => 1
    | .remote, .local => -1
    | .local, .local => 0
    | .remote, .remote => peerCompare a.context b.context

theorem wantlistSessionCompare_self (a : Option WantListSession) :
    wantlistSessionCompare a a = 0 := by
  cases a with
  | none => rfl
  | some a =>
    obtain ⟨type, context⟩ := a
    cases type with
    | «local» => rfl
    | remote => exact peerCompare_self context

def wantlistLocalRequest (sessions : List (Option WantListSession)) : Bool :=
  sessions.any fun curr => curr.any fun s => s.type = .local

/-- take the session out of the entry -/
def wantlistQueueEntryDecrement (entry : WantListQueueEntry) (session : Option WantListSession) :
    Bool × WantListQueueEntry :=
  match entry.sessionsRequesting.findIdx? fun current =>
      wantlistSessionCompare session current = 0 with
  | none => (false, entry)
  | some i =>
    (true, { entry with sessionsRequesting := utilsVectorDelete entry.sessionsRequesting i })

/-! ## the queue -/

/-- stops at a null entry -/
def findEntryOf (cid : Option Cid) : List (Option WantListQueueEntry) → Option Nat
  | [] => none
  | none :: _ => none
  | some entry :: items =>
    if cidCompare cid entry.cid = 0 then some 0 else (findEntryOf cid items).map (· + 1)

/-- the index of the entry; the vector is followed -/
def wantlistQueueFind (wantlist : WantListQueue) (cid : Option Cid) : Exec (Option Nat) := do
  let items ← deref wantlist.queue
  .ok (findEntryOf cid items)

/-- write through the pointer to an entry -/
def updateEntry (items : List (Option WantListQueueEntry)) (i : Nat)
    (f : WantListQueueEntry → WantListQueueEntry) : List (Option WantListQueueEntry) :=
  items.modify i (Option.map f)

def addSession (session : Option WantListSession) (entry : WantListQueueEntry) :
    WantListQueueEntry :=
  { entry with sessionsRequesting := utilsVectorAdd entry.sessionsRequesting session }

/-- the index of the entry -/
def wantlistQueueAdd (wantlist : WantListQueue) (cid : Option Cid)
    (session : Option WantListSession) : Exec (Nat × WantListQueue) := do
  let items := wantlist.entries
  match ← wantlistQueueFind { queue := some items } cid with
  | some i => .ok (i, { queue := some (updateEntry items i (addSession session)) })
  | none => do
    let copy ← cidCopy cid
    let entry := addSession session { wantlistQueueEntryNew with cid := some copy, priority := 1 }
    let items := utilsVectorAdd items (some entry)
    let i := items.length - 1
    -- and once more, as for an entry that was there
    .ok (i, { queue := some (updateEntry items i (addSession session)) })

def wantlistQueueRemove (wantlist : WantListQueue) (cid : Option Cid)
    (session : Option WantListSession) : Exec (Bool × WantListQueue) := do
  match ← wantlistQueueFind wantlist cid with
  | none => .ok (false, wantlist)
  | some i =>
    .ok (true, { queue := wantlist.queue.map fun items =>
      updateEntry items i fun entry => (wantlistQueueEntryDecrement entry session).2 })

inductive WantlistOp where
  | add (cid : Option Cid) (session : Option WantListSession)
  | remove (cid : Option Cid) (session : Option WantListSession)
  | find (cid : Option Cid)
  deriving DecidableEq, Repr

def wantlistStep (op : WantlistOp) (wantlist : WantListQueue) : Exec WantListQueue :=
  match op with
  | .add cid session => Prod.snd <$> wantlistQueueAdd wantlist cid session
  | .remove cid session => Prod.snd <$> wantlistQueueRemove wantlist cid session
  | .find cid => (fun _ => wantlist) <$> wantlistQueueFind wantlist cid

/-! ## one entry for each CID -/

/-- the CIDs of the entries -/
def cidsOf (items : List (Option WantListQueueEntry)) : List (Option Cid) :=
  items.map fun entry => entry.bind WantListQueueEntry.cid

/-- every slot holds an entry with a CID, and no two of them are of one CID -/
structure OneEntry (wantlist : WantListQueue) : Prop where
  present : ∀ c ∈ cidsOf wantlist.entries, c.isSome
  distinct : (cidsOf wantlist.entries).Pairwise fun a b => cidCompare a b ≠ 0

section
variable {wantlist wantlist' : WantListQueue} {items : List (Option WantListQueueEntry)}
  {cid : Option Cid} {session : Option WantListSession}

@[simp] theorem entries_mk : (WantListQueue.mk (some items)).entries = items := rfl

theorem findEntryOf_eq_none (h : ∀ c ∈ cidsOf items, c.isSome) :
    findEntryOf cid items = none ↔ ∀ c ∈ cidsOf items, cidCompare cid c ≠ 0 := by
  induction items with
  | nil => simp [findEntryOf, cidsOf]
  | cons entry items ih =>
    have ih := ih fun c hc => h c (List.mem_cons_of_mem _ hc)
    cases entry with
    | none => exact absurd (h none List.mem_cons_self) (by simp)
    | some e =>
      have hcons : cidsOf (some e :: items) = e.cid :: cidsOf items := rfl
      rw [findEntryOf, hcons, List.forall_mem_cons, ← ih]
      by_cases h0 : cidCompare cid e.cid = 0
      · simp [h0]
      · simp [h0]

theorem OneEntry.cidCompare_null (hw : OneEntry wantlist) :
    ∀ c ∈ cidsOf wantlist.entries, cidCompare none c ≠ 0 := by
  intro c hc
  obtain ⟨c, rfl⟩ := Option.isSome_iff_exists.1 (hw.present c hc)
  simp [cidCompare]

/-- additions need a CID, everything else an addition before it -/
def WantlistGuard (op : WantlistOp) (wantlist : WantListQueue) : Prop :=
  match op with
  | .add cid _ => cid.isSome
  | .remove _ _ => wantlist.queue.isSome
  | .find _ => wantlist.queue.isSome

/-- a call that is not allowed faults -/
theorem wantlistStep_guard (op : WantlistOp) (hw : OneEntry wantlist)
    (h : wantlistStep op wantlist = .ok wantlist') : WantlistGuard op wantlist := by
  cases op with
  | add cid session =>
    cases cid with
    | some c => rfl
    | none =>
      have hnone := (findEntryOf_eq_none hw.present).2 hw.cidCompare_null
      have h : Prod.snd <$> wantlistQueueAdd wantlist none session = .ok wantlist' := h
      unfold wantlistQueueAdd wantlistQueueFind at h
      simp only [deref_some, ok_bind, hnone] at h
      cases h
  | remove cid session =>
    have h : Prod.snd <$> wantlistQueueRemove wantlist cid session = .ok wantlist' := h
    show wantlist.queue.isSome
    unfold wantlistQueueRemove wantlistQueueFind at h
    cases hq : wantlist.queue with
    | some items => rfl
    | none =>
      rw [hq] at h
      cases h
  | find cid =>
    have h : (fun _ => wantlist) <$> wantlistQueueFind wantlist cid = .ok wantlist' := h
    show wantlist.queue.isSome
    unfold wantlistQueueFind at h
    cases hq : wantlist.queue with
    | some items => rfl
    | none =>
      rw [hq] at h
      cases h

end

theorem oneEntry_new : OneEntry wantlistQueueNew where
  present c hc := by cases hc
  distinct := List.Pairwise.nil

/-! ## counting references -/

def sameSession (session current : Option WantListSession) : Bool :=
  wantlistSessionCompare session current = 0

/-- how often the session was added for the CID -/
def addsOf (ops : List WantlistOp) (cid : Option Cid) (session : Option WantListSession) : Nat :=
  ops.countP fun op =>
    match op with
    | .add c s => cidCompare cid c = 0 && sameSession session s
    | _ => false

/-- how often the session was removed for the CID -/
def removesOf (ops : List WantlistOp) (cid : Option Cid) (session : Option WantListSession) : Nat :=
  ops.countP fun op =>
    match op with
    | .remove c s => cidCompare cid c = 0 && sameSession session s
    | _ => false

/-- the entries count what the calls asked for -/
structure Counted (ops : List WantlistOp) (wantlist : WantListQueue) : Prop where
  once : (cidsOf wantlist.entries).Pairwise fun a b => cidCompare a b ≠ 0
  found : ∀ cid session, .add cid session ∈ ops →
    ∃ i, wantlistQueueFind wantlist cid = .ok (some i)
  sessions : ∀ entry, some entry ∈ wantlist.entries → ∀ session,
    entry.sessionsRequesting.countP (sameSession session) =
      addsOf ops entry.cid session - removesOf ops entry.cid session
  localRequest : ∀ entry, some entry ∈ wantlist.entries →
    (wantlistLocalRequest entry.sessionsRequesting = true ↔
      removesOf ops entry.cid (some wantlistSessionNew) <
        addsOf ops entry.cid (some wantlistSessionNew))

/-- no call faults, and after each of them the entries count the calls so far -/
def CountedAlong (ops : List WantlistOp) : Prop :=
  ∀ pre suf, ops = pre ++ suf →
    ∃ wantlist, runOps wantlistStep pre wantlistQueueNew = .ok wantlist ∧ Counted pre wantlist

theorem countedAlong_nil : CountedAlong [] := by
  intro pre suf e
  obtain ⟨rfl, rfl⟩ := List.append_eq_nil_iff.1 e.symm
  refine ⟨wantlistQueueNew, rfl, List.Pairwise.nil, fun cid session h => ?_, fun entry h => ?_,
    fun entry h => ?_⟩ <;> cases h

/-- the first addition registers its session twice -/
theorem wantlistStep_add_new (c : Cid) (session : Option WantListSession) :
    wantlistStep (.add (some c) session) wantlistQueueNew = .ok { queue := some [some
      { cid := some c, priority := 1, sessionsRequesting := [session, session] }] } := rfl

/-- the first call goes wrong already -/
theorem not_counted_first (op : WantlistOp) :
    ¬ ∃ wantlist, wantlistStep op wantlistQueueNew = .ok wantlist ∧ Counted [op] wantlist := by
  intro h
  obtain ⟨wantlist, h, hc⟩ := h
  have hg := wantlistStep_guard op oneEntry_new h
  cases op with
  | add cid session =>
    obtain ⟨c, rfl⟩ := Option.isSome_iff_exists.1 hg
    rw [wantlistStep_add_new] at h
    obtain rfl := Except.ok.inj h
    have htwo := hc.sessions _ List.mem_cons_self session
    simp [addsOf, removesOf, sameSession, wantlistSessionCompare_self, cidCompare_self] at htwo
  | remove cid session => cases hg
  | find cid => cases hg

/-- **the references are never counted right** -/
theorem counted_iff_nil (ops : List WantlistOp) : CountedAlong ops ↔ ops = [] := by
  refine ⟨fun h => ?_, fun e => e ▸ countedAlong_nil⟩
  cases ops with
  | nil => rfl
  | cons op ops =>
    obtain ⟨wantlist, hrun, hc⟩ := h [op] ops rfl
    obtain ⟨wantlist', hstep, hnil⟩ := bind_eq_ok.1 hrun
    obtain rfl := Except.ok.inj hnil
    exact absurd ⟨wantlist', hstep, hc⟩ (not_counted_first op)

/-- one local request for one CID -/
theorem not_countedAlong_add : ¬ CountedAlong
    [.add (some (cidNew 1 [7] 0x70)) (some wantlistSessionNew)] := by
  intro h
  obtain ⟨wantlist, hrun, hc⟩ := h _ [] (List.append_nil _).symm
  obtain ⟨wantlist', hstep, hnil⟩ := bind_eq_ok.1 hrun
  obtain rfl := Except.ok.inj hnil
  exact not_counted_first _ ⟨wantlist', hstep, hc⟩

end Ipfs
