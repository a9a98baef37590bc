import Libipfs.Lib.Run
import Libipfs.Yamux.Stream

/-!
# The accounting of a yamux session

* `Accounting`           a session with the record of its creations;
* `Accounting.Law`       the counter is the number of live slots and at most the capacity, no creation
                         got a slot in use, and none was refused while a slot was free;
* `Accounting.Idle`      what holds while no stream has been created;
* `holdsAlong_accounting_iff`   **the law holds along a run iff nothing is created in it**.

`num_streams` goes down in `yamux_stream_free` and up nowhere: the first stream breaks the law.
-/

set_option linter.unusedVariables false

namespace Libp2p
open CSem

/-- the slot that a creation got, or that it was refused, and the session before it -/
structure Creation where
  slot : Option Nat
  before : YamuxSession

structure Accounting where
  ctx : YamuxContext
  creations : List Creation

inductive SessionOp where
  /-- `yamux_channel_new`; the id is 0 for a local stream -/
  | create (id : UInt32)
  | reset (i : Nat)
  /-- `yamux_stream_free` of the stream of a slot, or of `NULL` -/
  | free (j : Option Nat)
  deriving DecidableEq, Repr

def Accounting.opened (acceptBacklog : Nat) (server : Bool) : Accounting :=
  { ctx := yamuxContextNew acceptBacklog server, creations := [] }

def Accounting.create (id : UInt32) (a : Accounting) : Exec Accounting := do
  let taken ← yamuxTakeSlot (a.ctx.session.takeId id).2
  let created ← yamuxChannelNew id a.ctx
  .ok { ctx := created.2
        creations := a.creations ++
          [{ slot := taken.map Prod.fst, before := (a.ctx.session.takeId id).2 }] }

def Accounting.step (net : YamuxNet) (op : SessionOp) (a : Accounting) : Exec Accounting :=
  match op with
  | .create id => a.create id
  | .reset i => .ok { a with ctx := (yamuxStreamReset net i a.ctx).2 }
  | .free none => .ok a
  | .free (some j) => do
      let session ← yamuxStreamFree j a.ctx.session
      .ok { a with ctx := { a.ctx with session := session } }

/-- the live entries of the table -/
def YamuxSession.live (session : YamuxSession) : Nat :=
  session.streams.countP YamuxSessionStream.alive

/-- the slot was not in use, and a refusal means that all were -/
def Creation.Fair (c : Creation) : Prop :=
  match c.slot with
  | some i => c.before.streams[i]?.map YamuxSessionStream.alive = some false
  | none => c.before.live = c.before.acceptBacklog

structure Accounting.Law (a : Accounting) : Prop where
  counted : a.ctx.session.numStreams.toNat = a.ctx.session.live
  bounded : a.ctx.session.numStreams.toNat ≤ a.ctx.session.capStreams
  fair : ∀ c ∈ a.creations, c.Fair

/-- a stream is freed by whoever has it: its slot is alive -/
def SessionOp.Legal (op : SessionOp) (a : Accounting) : Prop :=
  ∀ j, op = .free (some j) → ∃ s, a.ctx.session.streams[j]? =
    some { stream := .valid s, alive := true }

/-- nothing is created, or there is no slot to create anything in -/
def SessionOp.CreatesNothing (acceptBacklog : Nat) (op : SessionOp) : Prop :=
  acceptBacklog = 0 ∨ ∀ id, op ≠ .create id

/-! ## while no stream has been created -/

structure Accounting.Idle (acceptBacklog : Nat) (a : Accounting) : Prop where
  numStreams : a.ctx.session.numStreams = 0
  capStreams : a.ctx.session.capStreams = 0
  streams : a.ctx.session.streams =
    List.replicate acceptBacklog { stream := .unset, alive := false }
  fair : ∀ c ∈ a.creations, c.Fair

section
variable {net : YamuxNet} {acceptBacklog : Nat} {a a' : Accounting} {id : UInt32}

theorem Accounting.idle_opened (acceptBacklog : Nat) (server : Bool) :
    (Accounting.opened acceptBacklog server).Idle acceptBacklog where
  numStreams := rfl
  capStreams := rfl
  streams := rfl
  fair := fun c hc => nomatch hc

theorem live_of_streams {session : YamuxSession}
    (h : session.streams = List.replicate acceptBacklog { stream := .unset, alive := false }) :
    session.live = 0 := by
  unfold YamuxSession.live
  rw [h, List.countP_replicate]
  rfl

theorem Accounting.Idle.law (h : a.Idle acceptBacklog) : a.Law where
  counted := by
    rw [h.numStreams, live_of_streams h.streams]
    rfl
  bounded := by
    rw [h.numStreams]
    exact Nat.zero_le _
  fair := h.fair

@[simp] theorem YamuxSession.takeId_numStreams (session : YamuxSession) (id : UInt32) :
    (session.takeId id).2.numStreams = session.numStreams := by
  unfold YamuxSession.takeId
  split <;> rfl

@[simp] theorem YamuxSession.takeId_capStreams (session : YamuxSession) (id : UInt32) :
    (session.takeId id).2.capStreams = session.capStreams := by
  unfold YamuxSession.takeId
  split <;> rfl

@[simp] theorem YamuxSession.takeId_streams (session : YamuxSession) (id : UInt32) :
    (session.takeId id).2.streams = session.streams := by
  unfold YamuxSession.takeId
  split <;> rfl

theorem Accounting.create_eq_ok {taken : Option (Nat × YamuxSession)}
    {created : Option Nat × YamuxContext}
    (htake : yamuxTakeSlot (a.ctx.session.takeId id).2 = .ok taken)
    (hnew : yamuxChannelNew id a.ctx = .ok created) :
    a.create id = .ok
      { ctx := created.2
        creations := a.creations ++
          [{ slot := taken.map Prod.fst, before := (a.ctx.session.takeId id).2 }] } := by
  unfold Accounting.create
  rw [htake, hnew]
  rfl

/-- with nothing counted and nothing used, a creation looks at the first slot of the table -/
theorem yamuxTakeSlot_of_empty {session : YamuxSession} (hnum : session.numStreams = 0)
    (hcap : session.capStreams = 0)
    (hstreams : session.streams =
      List.replicate acceptBacklog { stream := .unset, alive := false }) :
    (acceptBacklog = 0 → yamuxTakeSlot session = .ok none) ∧
      (0 < acceptBacklog → ∃ hlt, yamuxTakeSlot session = .ok (some (0, session.grow hlt))) := by
  have hdead : session.deadSlot = none := by
    unfold YamuxSession.deadSlot
    rw [if_pos (by rw [hnum, hcap]; rfl)]
  have hlen : session.streams.length = acceptBacklog := by rw [hstreams, List.length_replicate]
  constructor
  · intro hzero
    unfold yamuxTakeSlot
    rw [hdead]
    dsimp only
    rw [dif_neg (by omega)]
  · intro hpos
    have hlt : session.capStreams < session.streams.length := by omega
    have halive : session.streams[session.capStreams].alive = false := by
      simp [hstreams]
    refine ⟨hlt, ?_⟩
    unfold yamuxTakeSlot
    rw [hdead]
    dsimp only
    rw [dif_pos hlt, if_neg (by simp [halive]), hcap]

/-- with no slots at all a creation is refused -/
theorem Accounting.Idle.create_refused (h : a.Idle 0) :
    ∃ a', a.create id = .ok a' ∧ a'.Idle 0 := by
  have htake : yamuxTakeSlot (a.ctx.session.takeId id).2 = .ok none := by
    apply (yamuxTakeSlot_of_empty _ _ _).1 rfl
    · rw [YamuxSession.takeId_numStreams, h.numStreams]
    · rw [YamuxSession.takeId_capStreams, h.capStreams]
    · rw [YamuxSession.takeId_streams, h.streams]
  have hnew : yamuxChannelNew id a.ctx =
      .ok (none, { a.ctx with session := (a.ctx.session.takeId id).2 }) := by
    unfold yamuxChannelNew
    rw [htake]
    rfl
  refine ⟨_, Accounting.create_eq_ok htake hnew, ?_⟩
  have hstreams : (a.ctx.session.takeId id).2.streams =
      List.replicate 0 { stream := .unset, alive := false } := by
    rw [YamuxSession.takeId_streams, h.streams]
  refine ⟨?_, ?_, hstreams, ?_⟩
  · show (a.ctx.session.takeId id).2.numStreams = 0
    rw [YamuxSession.takeId_numStreams, h.numStreams]
  · show (a.ctx.session.takeId id).2.capStreams = 0
    rw [YamuxSession.takeId_capStreams, h.capStreams]
  · intro c hc
    rcases List.mem_append.1 hc with hc | hc
    · exact h.fair c hc
    · rw [List.mem_singleton.1 hc]
      show (a.ctx.session.takeId id).2.live = (a.ctx.session.takeId id).2.acceptBacklog
      unfold YamuxSession.acceptBacklog
      rw [live_of_streams hstreams, hstreams]
      rfl

/-- **the first stream is not counted** -/
theorem Accounting.Idle.not_law_create (h : a.Idle acceptBacklog) (hpos : 0 < acceptBacklog)
    (hcreate : a.create id = .ok a') : ¬ a'.Law := by
  have hstreams : (a.ctx.session.takeId id).2.streams =
      List.replicate acceptBacklog { stream := .unset, alive := false } := by
    rw [YamuxSession.takeId_streams, h.streams]
  have hnum₀ : (a.ctx.session.takeId id).2.numStreams = 0 := by
    rw [YamuxSession.takeId_numStreams, h.numStreams]
  have hcap₀ : (a.ctx.session.takeId id).2.capStreams = 0 := by
    rw [YamuxSession.takeId_capStreams, h.capStreams]
  obtain ⟨hlt, htake⟩ := (yamuxTakeSlot_of_empty hnum₀ hcap₀ hstreams).2 hpos
  have hnew : yamuxChannelNew id a.ctx = .ok (some a.ctx.channels.length,
      a.ctx.addChannel (a.ctx.session.takeId id).1 0
        ((a.ctx.session.takeId id).2.grow hlt)) := by
    unfold yamuxChannelNew
    rw [htake]
    rfl
  have hctx : a'.ctx = a.ctx.addChannel (a.ctx.session.takeId id).1 0
      ((a.ctx.session.takeId id).2.grow hlt) := by
    rw [Accounting.create_eq_ok htake hnew] at hcreate
    rw [← Except.ok.inj hcreate]
  intro hlaw
  have hnum : a'.ctx.session.numStreams.toNat = 0 := by
    rw [hctx]
    show (a.ctx.session.takeId id).2.numStreams.toNat = 0
    rw [hnum₀]
    rfl
  have hlive : 0 < a'.ctx.session.live := by
    rw [hctx]
    apply List.countP_pos_iff.2
    refine ⟨{ stream := .valid (.new (a.ctx.session.takeId id).1 a.ctx.channels.length)
              alive := true }, ?_, rfl⟩
    apply List.mem_of_getElem? (i := 0)
    show ((a.ctx.session.takeId id).2.streams.set 0 _)[0]? = _
    apply List.getElem?_set_self
    rw [hstreams, List.length_replicate]
    exact hpos
  have hcounted := hlaw.counted
  omega

/-! ## runs -/

variable (net) in
theorem yamuxStreamReset_session (i : Nat) (ctx : YamuxContext) :
    (yamuxStreamReset net i ctx).2.session = ctx.session := by
  unfold yamuxStreamReset
  split
  · rfl
  · split <;> rfl

theorem Accounting.Idle.reset (h : a.Idle acceptBacklog) (i : Nat) :
    ({ a with ctx := (yamuxStreamReset net i a.ctx).2 } : Accounting).Idle acceptBacklog := by
  have hs := yamuxStreamReset_session net i a.ctx
  refine ⟨?_, ?_, ?_, h.fair⟩
  · show (yamuxStreamReset net i a.ctx).2.session.numStreams = 0
    rw [hs, h.numStreams]
  · show (yamuxStreamReset net i a.ctx).2.session.capStreams = 0
    rw [hs, h.capStreams]
  · show (yamuxStreamReset net i a.ctx).2.session.streams = _
    rw [hs, h.streams]

/-- there is no stream to be freed yet -/
theorem Accounting.Idle.not_legal_free (h : a.Idle acceptBacklog) (j : Nat) :
    ¬ (SessionOp.free (some j)).Legal a := by
  intro hlegal
  obtain ⟨s, hs⟩ := hlegal j rfl
  have hmem := List.mem_of_getElem? hs
  rw [h.streams] at hmem
  cases List.eq_of_mem_replicate hmem

variable (net) in
/-- a step other than a creation finds nothing to change -/
theorem Accounting.Idle.step (h : a.Idle acceptBacklog) {op : SessionOp} (hlegal : op.Legal a)
    (hop : op.CreatesNothing acceptBacklog) :
    ∃ a', a.step net op = .ok a' ∧ a'.Idle acceptBacklog := by
  cases op with
  | create id =>
    rcases hop with rfl | hop
    · exact h.create_refused
    · exact absurd rfl (hop id)
  | reset i => exact ⟨_, rfl, h.reset i⟩
  | free j =>
    cases j with
    | none => exact ⟨a, rfl, h⟩
    | some j => exact absurd hlegal (h.not_legal_free j)

theorem holdsAlong_accounting_iff_of_idle {ops : List SessionOp} (h : a.Idle acceptBacklog)
    (hlegal : Guarded (Accounting.step net) SessionOp.Legal ops a) :
    HoldsAlong (Accounting.step net) Accounting.Law ops a ↔
      ∀ op ∈ ops, op.CreatesNothing acceptBacklog := by
  induction ops generalizing a with
  | nil => exact iff_of_true (holdsAlong_nil.2 h.law) (fun op hop => nomatch hop)
  | cons op ops ih =>
    rw [holdsAlong_cons, List.forall_mem_cons]
    constructor
    · intro hrun
      obtain ⟨-, a', ha', hrun⟩ := hrun
      have hop : op.CreatesNothing acceptBacklog := by
        by_contra hcon
        obtain ⟨hpos, hcreate⟩ := not_or.1 hcon
        obtain ⟨id, hid⟩ := not_forall_not.1 hcreate
        rw [hid] at ha'
        obtain ⟨a₁, ha₁, hlaw⟩ := hrun [] ops rfl
        cases ha₁
        exact h.not_law_create (Nat.pos_of_ne_zero hpos) ha' hlaw
      obtain ⟨a₁, ha₁, hidle⟩ := h.step net hlegal.1 hop
      obtain rfl : a' = a₁ := Except.ok.inj (ha'.symm.trans ha₁)
      exact ⟨hop, (ih hidle (hlegal.2 a' ha')).1 hrun⟩
    · intro hops
      obtain ⟨a', ha', hidle⟩ := h.step net hlegal.1 hops.1
      exact ⟨h.law, a', ha', (ih hidle (hlegal.2 a' ha')).2 hops.2⟩

end

/-- **the law holds along a run from a new session iff the run creates nothing** -/
theorem holdsAlong_accounting_iff (net : YamuxNet) (acceptBacklog : Nat) (server : Bool)
    (ops : List SessionOp) (hlegal : Guarded (Accounting.step net) SessionOp.Legal ops
      (Accounting.opened acceptBacklog server)) :
    HoldsAlong (Accounting.step net) Accounting.Law ops (Accounting.opened acceptBacklog server) ↔
      ∀ op ∈ ops, op.CreatesNothing acceptBacklog :=
  holdsAlong_accounting_iff_of_idle (Accounting.idle_opened acceptBacklog server) hlegal

theorem holdsAlong_accounting_reset :
    HoldsAlong (Accounting.step littleNet) Accounting.Law [.reset 0, .free none]
      (Accounting.opened 256 false) := by
  apply (holdsAlong_accounting_iff littleNet 256 false _ _).2
  · intro op hop
    right
    intro id hid
    rw [hid] at hop
    simp at hop
  · refine ⟨?_, fun a ha => ⟨?_, fun a' ha' => trivial⟩⟩
    · intro j hj
      cases hj
    · intro j hj
      cases hj

/-- after the first stream of a new session the counter is still 0 -/
theorem not_holdsAlong_accounting :
    ¬ HoldsAlong (Accounting.step littleNet) Accounting.Law [.create 0]
      (Accounting.opened 256 false) := by
  intro hrun
  obtain ⟨-, a, ha, hlaw⟩ := holdsAlong_cons.1 hrun
  have hidle := Accounting.idle_opened 256 false
  exact hidle.not_law_create (by decide) ha (holdsAlong_nil.1 hlaw)

end Libp2p
