import Libipfs.Lib.Run
import Libipfs.Yamux.Contained

/-!
# The life of a yamux stream

* `StreamOp`, `LifeCycle`   local calls and incoming messages in any order, with what each led to;
* `LegalFrame`              what a peer that keeps to the protocol may send;
* `LifeCycle.Law`           the two records of a stream are at the same stage, and every event is as the
                            protocol has it;
* `StreamOp.Quiet`          the operations that leave the stage of every stream alone;
* `holdsAlong_lifeCycle_iff`   **the law holds along a run iff each of its operations is quiet**.

The calls on a channel move the state of its context only, and the frames that come in move that of
the `yamux_stream` only: the first operation that moves either breaks the law.
-/

set_option linter.unusedVariables false

namespace Libp2p
open CSem

inductive StreamOp where
  /-- `yamux_channel_new` for a local stream -/
  | open
  | init (i : Nat)
  | windowUpdate (i : Nat) (delta : Int32)
  /-- `libp2p_yamux_write` on the channel -/
  | write (i : Nat) (message : List UInt8)
  | streamWrite (i : Nat) (data : List UInt8) (rounds : Nat)
  | close (i : Nat)
  | reset (i : Nat)
  | receive (incoming : List UInt8)

/-- an operation that was performed, with the frame that came in and what was behind it -/
structure StreamEvent where
  frame : Option (YamuxFrame × List UInt8)
  before : YamuxContext
  result : Int
  after : YamuxContext

/-- the events are the latest first -/
structure LifeCycle where
  ctx : YamuxContext
  events : List StreamEvent

section
variable (net : YamuxNet)

def StreamOp.perform (op : StreamOp) (ctx : YamuxContext) : Exec (Int × YamuxContext) :=
  match op with
  | .open => yamuxChannelNew 0 ctx >>= fun r => .ok (0, r.2)
  | .init i => .ok (yamuxStreamInit net i ctx)
  | .windowUpdate i delta => .ok (yamuxStreamWindowUpdate net i delta ctx)
  | .write i message =>
      let r := libp2pYamuxWrite net (.channel i) [] message ctx
      .ok (if r.1 then 1 else 0, r.2)
  | .streamWrite i data rounds =>
      let r := yamuxStreamWrite net i data rounds ctx
      .ok (r.1.getD 0, r.2)
  | .close i => .ok (yamuxStreamClose net (some (.channel i)) ctx)
  | .reset i => .ok (yamuxStreamReset net i ctx)
  | .receive incoming => yamuxDecode net incoming ctx >>= fun r => .ok (r.1, r.2.2)

/-- the frame of an incoming message that is one of yamux -/
def StreamOp.frame (op : StreamOp) : Option (YamuxFrame × List UInt8) :=
  match op with
  | .receive incoming =>
      if incoming.length < yamuxFrameSize ∨
          (receiveFrame net.host incoming).version ≠ yamuxVersion then none
      else some (receiveFrame net.host incoming, incoming.drop yamuxFrameSize)
  | _ => none

def LifeCycle.step (op : StreamOp) (run : LifeCycle) : Exec LifeCycle := do
  let r ← op.perform net run.ctx
  .ok { ctx := r.2
        events := { frame := op.frame net
                    before := run.ctx
                    result := r.1
                    after := r.2 } :: run.events }

end

/-- a connection without streams; `state` is that of the negotiation of yamux -/
def LifeCycle.opened (acceptBacklog : Nat) (server : Bool) (state : YamuxStreamState) :
    LifeCycle :=
  { ctx := { yamuxContextNew acceptBacklog server with state := state }, events := [] }

/-! ## what a peer may send -/

/-- a `SYN` for the stream has gone out -/
def YamuxContext.SynSent (ctx : YamuxContext) (id : UInt32) : Prop :=
  ∃ m ∈ ctx.sent, ∃ g ∈ m.frames, g.streamid = id ∧ g.hasFlag yamuxFrameSyn

/-- a window update has nothing behind it, a data frame as much as it says -/
def YamuxFrame.WellSized (f : YamuxFrame) (payload : List UInt8) : Prop :=
  (f.type = yamuxFrameWindowUpdate ∧ payload = []) ∨
    (f.type = yamuxFrameData ∧ payload.length = f.length.toNat)

/-- the frame opens a stream of the peer's, and there is room for it -/
def OpeningFrame (ctx : YamuxContext) (f : YamuxFrame) : Prop :=
  f.flags = yamuxFrameSyn ∧ ctx.opensForUs f.streamid = true ∧ ¬ ctx.session.Full

def PeerOpened (events : List StreamEvent) (id : UInt32) : Prop :=
  ∃ e ∈ events, ∃ f payload, e.frame = some (f, payload) ∧ f.streamid = id ∧ id ≠ 0 ∧
    OpeningFrame e.before f

/-- the peer has sent a frame of the stream with that flag -/
def PeerSent (flag : UInt16) (events : List StreamEvent) (id : UInt32) : Prop :=
  ∃ e ∈ events, ∃ f payload, e.frame = some (f, payload) ∧ f.streamid = id ∧ f.hasFlag flag

/-- a ping or a go-away, the opening of a new stream, the answer to our `SYN`, or a frame of a stream
that is open at the peer's side -/
def LegalFrame (events : List StreamEvent) (ctx : YamuxContext) (f : YamuxFrame)
    (payload : List UInt8) : Prop :=
  if f.streamid = 0 then
    (f.type = yamuxFramePing ∧ f.flags = yamuxFrameSyn) ∨ f.type = yamuxFrameGoAway
  else f.WellSized payload ∧
    ((OpeningFrame ctx f ∧ ¬ PeerOpened events f.streamid) ∨
      (f.flags = yamuxFrameAck ∧ ctx.SynSent f.streamid ∧
        ¬ PeerSent yamuxFrameAck events f.streamid) ∨
      ((f.flags = yamuxFrameNil ∨ f.flags = yamuxFrameFin ∨ f.flags = yamuxFrameRst) ∧
        (PeerOpened events f.streamid ∨
          (ctx.SynSent f.streamid ∧ PeerSent yamuxFrameAck events f.streamid)) ∧
        ¬ PeerSent yamuxFrameFin events f.streamid ∧ ¬ PeerSent yamuxFrameRst events f.streamid))

/-! ## the law -/

/-- the two records of every live stream are at the same stage -/
def YamuxContext.Agree (ctx : YamuxContext) : Prop :=
  ∀ s, { stream := .valid s, alive := true } ∈ ctx.session.slots →
    ∀ ch, ctx.channels[s.stream.context]? = some ch → ch.state = s.state

def YamuxContext.ChannelAt (ctx : YamuxContext) (id : UInt32) (state : YamuxStreamState) : Prop :=
  ∃ ch ∈ ctx.channels, ch.channel = id ∧ ch.state = state

/-- both records of the stream are at that stage -/
def YamuxContext.StreamAt (ctx : YamuxContext) (id : UInt32) (state : YamuxStreamState) : Prop :=
  ∃ s, { stream := .valid s, alive := true } ∈ ctx.session.slots ∧ s.id = id ∧ s.state = state ∧
    ∃ ch, ctx.channels[s.stream.context]? = some ch ∧ ch.state = state

/-- how many `FIN`s have gone out for the stream -/
def YamuxContext.finsSent (ctx : YamuxContext) (id : UInt32) : Nat :=
  (ctx.sent.flatMap Sent.frames).countP fun g => g.streamid == id && g.hasFlag yamuxFrameFin

/-- an `ACK` establishes the stream that waits for it; a `FIN` is answered by one `FIN`, and the
stream closes; data goes out on established streams only; and no legal frame is a protocol error -/
structure StreamEvent.Ok (e : StreamEvent) (earlier : List StreamEvent) : Prop where
  acked : ∀ f payload, e.frame = some (f, payload) → f.flags = yamuxFrameAck →
    e.before.ChannelAt f.streamid .synSent → e.after.StreamAt f.streamid .est
  finished : ∀ f payload, e.frame = some (f, payload) → f.streamid ≠ 0 →
    f.hasFlag yamuxFrameFin = true → e.before.session.HasLive f.streamid →
      e.after.finsSent f.streamid = 1 ∧
        (e.after.StreamAt f.streamid .closing ∨ e.after.StreamAt f.streamid .closed)
  data : ∀ m ∈ e.after.sent.drop e.before.sent.length, ∀ g ∈ m.frames,
    g.type = yamuxFrameData → e.after.ChannelAt g.streamid .est
  legal : ∀ f payload, e.frame = some (f, payload) → LegalFrame earlier e.before f payload →
    e.result ≠ -eproto

def EventsOk : List StreamEvent → Prop
  | [] => True
  | e :: earlier => e.Ok earlier ∧ EventsOk earlier

structure LifeCycle.Law (run : LifeCycle) : Prop where
  agree : run.ctx.Agree
  events : EventsOk run.events

/-! ## the operations that move nothing -/

/-- a call on a channel is on none, or sends nothing; what comes in does not open, reset or finish a
stream -/
def StreamOp.Quiet (net : YamuxNet) (op : StreamOp) (run : LifeCycle) : Prop :=
  match op with
  | .open => True
  | .init i => run.ctx.channels.length ≤ i
  | .windowUpdate i _ => run.ctx.channels.length ≤ i
  | .write i _ => run.ctx.channels.length ≤ i ∨ run.ctx.state ≠ .est
  | .streamWrite i data rounds => run.ctx.channels.length ≤ i ∨ data = [] ∨ rounds = 0
  | .close _ => True
  | .reset i => run.ctx.channels.length ≤ i
  | .receive incoming =>
      let f := receiveFrame net.host incoming
      incoming.length < yamuxFrameSize ∨ f.version ≠ yamuxVersion ∨ f.streamid = 0 ∨
        (run.ctx.session.HasLive f.streamid ∧ f.hasFlag yamuxFrameRst = false ∧
          f.hasFlag yamuxFrameFin = false) ∨
        (¬ run.ctx.session.HasLive f.streamid ∧ (f.hasFlag yamuxFrameSyn = false ∨
          run.ctx.opensForUs f.streamid = false ∨ run.ctx.session.Full))

/-! ## a connection on which no stream has moved -/

def YamuxChannelContext.stage (ch : YamuxChannelContext) : YamuxStreamState × Bool :=
  (ch.state, ch.closed)

/-- every stream is ours, and neither of its records has left the first stage -/
structure Untouched (ctx : YamuxContext) : Prop where
  slots : ∀ ss ∈ ctx.session.slots, ∃ s, ss = { stream := .valid s, alive := true } ∧
    s.state = .inited ∧ s.stream.context < ctx.channels.length ∧ ctx.opensForUs s.id = false
  channels : ∀ stage ∈ ctx.channels.map YamuxChannelContext.stage, stage = (.inited, false)
  covered : ∀ i < ctx.channels.length, ∃ s,
    { stream := .valid s, alive := true } ∈ ctx.session.slots ∧ s.stream.context = i
  nextid : ctx.opensForUs ctx.session.nextid = false
  sent : ∀ m ∈ ctx.sent, ∀ g ∈ m.frames, g.type = yamuxFramePing ∧ g.streamid = 0

section
variable {net : YamuxNet} {ctx ctx' : YamuxContext} {session : YamuxSession} {id : UInt32}
variable {incoming : List UInt8} {f : YamuxFrame} {run : LifeCycle}

theorem Untouched.state_of_mem (h : Untouched ctx) {ch : YamuxChannelContext}
    (hch : ch ∈ ctx.channels) : ch.state = .inited ∧ ch.closed = false :=
  Prod.mk.inj (h.channels ch.stage (List.mem_map_of_mem hch))

theorem Untouched.channel_state (h : Untouched ctx) {i : Nat} {ch : YamuxChannelContext}
    (hch : ctx.channels[i]? = some ch) : ch.state = .inited :=
  (h.state_of_mem (List.mem_of_getElem? hch)).1

theorem Untouched.agree (h : Untouched ctx) : ctx.Agree := by
  intro s hs ch hch
  obtain ⟨s', hs', hstate, -⟩ := h.slots _ hs
  obtain rfl : s = s' := StreamCell.valid.inj (congrArg YamuxSessionStream.stream hs')
  rw [h.channel_state hch, hstate]

/-- a slot of the table has the records of the channel -/
theorem Untouched.slot_of_channel (h : Untouched ctx) {i : Nat} (hi : i < ctx.channels.length) :
    ∃ s, { stream := .valid s, alive := true } ∈ ctx.session.slots ∧ s.stream.context = i ∧
      s.state = .inited := by
  obtain ⟨s, hs, hcontext⟩ := h.covered i hi
  obtain ⟨s', hs', hstate, -⟩ := h.slots _ hs
  obtain rfl : s = s' := StreamCell.valid.inj (congrArg YamuxSessionStream.stream hs')
  exact ⟨s, hs, hcontext, hstate⟩

/-- what changes neither the table nor the stage of a channel leaves the streams untouched -/
theorem Untouched.update (h : Untouched ctx) (hserver : ctx'.amServer = ctx.amServer)
    (hslots : ctx'.session.slots = ctx.session.slots)
    (hnextid : ctx'.session.nextid = ctx.session.nextid)
    (hchannels : ctx'.channels.map YamuxChannelContext.stage =
      ctx.channels.map YamuxChannelContext.stage)
    (hsent : ∀ m ∈ ctx'.sent, ∀ g ∈ m.frames, g.type = yamuxFramePing ∧ g.streamid = 0) :
    Untouched ctx' := by
  have hlength : ctx'.channels.length = ctx.channels.length := by
    have hlen := congrArg List.length hchannels
    rwa [List.length_map, List.length_map] at hlen
  have hopens (id : UInt32) : ctx'.opensForUs id = ctx.opensForUs id := by
    unfold YamuxContext.opensForUs
    rw [hserver]
  refine ⟨?_, ?_, ?_, ?_, hsent⟩
  · intro ss hss
    rw [hslots] at hss
    obtain ⟨s, hs, hstate, hcontext, hparity⟩ := h.slots ss hss
    exact ⟨s, hs, hstate, by omega, by rw [hopens, hparity]⟩
  · rw [hchannels]
    exact h.channels
  · rw [hslots, hlength]
    exact h.covered
  · rw [hopens, hnextid]
    exact h.nextid

theorem Untouched.record (h : Untouched ctx) {frames : List YamuxFrame} (message : List UInt8)
    (hframes : ∀ g ∈ frames, g.type = yamuxFramePing ∧ g.streamid = 0) :
    Untouched (ctx.record frames message) := by
  refine h.update rfl rfl rfl rfl ?_
  intro m hm
  rw [YamuxContext.record_sent] at hm
  rcases List.mem_append.1 hm with hm | hm
  · exact h.sent m hm
  · rw [List.mem_singleton.1 hm]
    exact hframes

/-- the data behind a frame is no part of the stage of a stream -/
structure SameStages (ctx ctx' : YamuxContext) : Prop where
  server : ctx'.amServer = ctx.amServer
  session : ctx'.session = ctx.session
  channels : ctx'.channels.map YamuxChannelContext.stage =
    ctx.channels.map YamuxChannelContext.stage
  sent : ctx'.sent = ctx.sent

theorem SameStages.refl (ctx : YamuxContext) : SameStages ctx ctx := ⟨rfl, rfl, rfl, rfl⟩

theorem sameStages_receive (i : Nat) (ch : YamuxChannelContext) :
    SameStages ctx (ctx.receive net i ch incoming) := by
  unfold YamuxContext.receive
  dsimp only
  split
  · exact ⟨rfl, rfl, map_modify_of_eq fun ch => rfl, rfl⟩
  · exact ⟨rfl, rfl, map_modify_of_eq fun ch => rfl, rfl⟩

theorem sameStages_process {stream : Option NetStream} {re : Int}
    (hrun : yamuxStreamProcess net stream f incoming ctx = .ok (re, ctx')) :
    SameStages ctx ctx' := by
  unfold yamuxStreamProcess at hrun
  split at hrun
  · split at hrun
    · obtain rfl := (Prod.mk.inj (Except.ok.inj hrun)).2
      exact .refl ctx
    · split at hrun
      · obtain rfl := (Prod.mk.inj (Except.ok.inj hrun)).2
        exact .refl ctx
      · split at hrun
        · cases hrun
        · split at hrun
          · obtain rfl := (Prod.mk.inj (Except.ok.inj hrun)).2
            exact .refl ctx
          · obtain rfl := (Prod.mk.inj (Except.ok.inj hrun)).2
            exact sameStages_receive _ _
  · obtain rfl := (Prod.mk.inj (Except.ok.inj hrun)).2
    exact .refl ctx

theorem Untouched.sameStages (h : Untouched ctx) (hsame : SameStages ctx ctx') :
    Untouched ctx' := by
  refine h.update hsame.server ?_ ?_ hsame.channels ?_
  · rw [hsame.session]
  · rw [hsame.session]
  · rw [hsame.sent]
    exact h.sent

/-- the window of a stream is no part of its stage -/
theorem Untouched.setStream (h : Untouched ctx) {i : Nat} {s : YamuxStream}
    (hs : ctx.session.slots[i]? = some { stream := .valid s, alive := true })
    (windowSize : UInt32) :
    Untouched (ctx.setStream i { s with windowSize := windowSize }) := by
  have hslots : (ctx.setStream i { s with windowSize := windowSize }).session.slots =
      ctx.session.slots.set i
        { stream := .valid { s with windowSize := windowSize }, alive := true } :=
    List.take_set
  obtain ⟨s', hs', hstate, hcontext, hparity⟩ := h.slots _ (List.mem_of_getElem? hs)
  obtain rfl : s = s' := StreamCell.valid.inj (congrArg YamuxSessionStream.stream hs')
  obtain ⟨hi, -⟩ := List.getElem?_eq_some_iff.1 hs
  refine ⟨?_, h.channels, ?_, h.nextid, h.sent⟩
  · intro ss hss
    rw [hslots] at hss
    rcases List.mem_or_eq_of_mem_set hss with hss | hss
    · exact h.slots ss hss
    · exact ⟨_, hss, hstate, hcontext, hparity⟩
  · intro k hk
    obtain ⟨s₁, hs₁, hcontext₁⟩ := h.covered k hk
    obtain ⟨j, hj⟩ := List.mem_iff_getElem?.1 hs₁
    rw [hslots]
    by_cases hij : i = j
    · subst hij
      have heq := Option.some.inj (hs.symm.trans hj)
      obtain rfl : s = s₁ := StreamCell.valid.inj (congrArg YamuxSessionStream.stream heq)
      refine ⟨{ s with windowSize := windowSize }, ?_, hcontext₁⟩
      exact List.mem_iff_getElem?.2 ⟨i, List.getElem?_set_self hi⟩
    · refine ⟨s₁, List.mem_iff_getElem?.2 ⟨j, ?_⟩, hcontext₁⟩
      rw [List.getElem?_set_ne hij, hj]

/-! ## a new stream of ours -/

theorem Untouched.deadSlot (h : Untouched ctx) (hsession : session.slots = ctx.session.slots) :
    session.deadSlot = none := by
  unfold YamuxSession.deadSlot
  split
  · rfl
  · rw [hsession, List.findIdx?_eq_none_iff]
    intro ss hss
    obtain ⟨s, rfl, -⟩ := h.slots ss hss
    rfl

/-- ids go up by two, so that those of the peer are never taken -/
theorem opensForUs_add_two : ctx.opensForUs (id + 2) = ctx.opensForUs id := by
  have hmod : (id + 2) % 2 = id % 2 := by
    apply UInt32.toNat_inj.1
    rw [UInt32.toNat_mod, UInt32.toNat_mod, UInt32.toNat_add]
    show (id.toNat + 2) % 2 ^ 32 % 2 = id.toNat % 2
    omega
  unfold YamuxContext.opensForUs
  rw [hmod]

theorem Untouched.takeId (h : Untouched ctx) :
    Untouched { ctx with session := (ctx.session.takeId 0).2 } := by
  refine ⟨h.slots, h.channels, h.covered, ?_, h.sent⟩
  exact opensForUs_add_two.trans h.nextid

theorem Untouched.addChannel (h : Untouched ctx) {i : Nat} {session' : YamuxSession}
    (hid : ctx.opensForUs id = false)
    (hdead : session.deadSlot = none) (hslots : session.slots = ctx.session.slots)
    (hnextid : ctx.opensForUs session'.nextid = false)
    (htake : yamuxTakeSlot session = .ok (some (i, session'))) :
    Untouched (ctx.addChannel id i session') := by
  have hnew : (ctx.addChannel id i session').session.slots =
      session.slots ++ [newSlot id ctx.channels.length] :=
    addChannel_slots_of_grow hdead htake
  have hlength : (ctx.addChannel id i session').channels.length = ctx.channels.length + 1 := by
    show (ctx.channels ++ [_]).length = _
    rw [List.length_append]
    rfl
  refine ⟨?_, ?_, ?_, hnextid, h.sent⟩
  · intro ss hss
    rw [hnew, hslots] at hss
    rcases List.mem_append.1 hss with hss | hss
    · obtain ⟨s, hs, hstate, hcontext, hparity⟩ := h.slots ss hss
      exact ⟨s, hs, hstate, by omega, hparity⟩
    · rw [List.mem_singleton.1 hss]
      exact ⟨_, rfl, rfl, by rw [hlength]; exact Nat.lt_succ_self _, hid⟩
  · intro stage hstage
    have hmap : (ctx.addChannel id i session').channels.map YamuxChannelContext.stage =
        ctx.channels.map YamuxChannelContext.stage ++ [(.inited, false)] := by
      show (ctx.channels ++ [_]).map _ = _
      rw [List.map_append]
      rfl
    rw [hmap] at hstage
    rcases List.mem_append.1 hstage with hstage | hstage
    · exact h.channels stage hstage
    · exact List.mem_singleton.1 hstage
  · intro k hk
    rw [hnew, hslots]
    rw [hlength] at hk
    by_cases hlast : k = ctx.channels.length
    · refine ⟨.new id ctx.channels.length, ?_, hlast.symm⟩
      exact List.mem_append_right _ (List.mem_singleton_self _)
    · obtain ⟨s, hs, hcontext⟩ := h.covered k (by omega)
      exact ⟨s, List.mem_append_left _ hs, hcontext⟩

/-- **opening a stream leaves the others, and itself, at the first stage** -/
theorem Untouched.open (h : Untouched ctx) :
    ∃ r, yamuxChannelNew 0 ctx = .ok r ∧ Untouched r.2 := by
  have hdead : (ctx.session.takeId 0).2.deadSlot = none := h.deadSlot rfl
  obtain ⟨taken, htake⟩ : Safe (yamuxTakeSlot (ctx.session.takeId 0).2) := by
    apply safe_yamuxTakeSlot.2
    intro i hi
    rw [hdead] at hi
    cases hi
  unfold yamuxChannelNew
  rw [htake, ok_bind]
  cases taken with
  | none => exact ⟨_, rfl, h.takeId⟩
  | some r =>
    obtain ⟨i, session'⟩ := r
    refine ⟨_, rfl, h.addChannel h.nextid hdead rfl ?_ htake⟩
    have hnextid : session'.nextid = ctx.session.nextid + 2 := by
      rcases yamuxTakeSlot_eq_some htake with ⟨ss, s, -, -, -, -, rfl⟩ | ⟨hlt, -, -, rfl⟩
      · rfl
      · rfl
    rw [hnextid, opensForUs_add_two]
    exact h.nextid

/-! ## quiet calls -/

/-- a call on a channel that is not there, and one that sends nothing -/
theorem Untouched.call (h : Untouched ctx) {op : StreamOp} {events : List StreamEvent}
    (hquiet : op.Quiet net { ctx := ctx, events := events })
    (hop : ∀ incoming, op ≠ .receive incoming) :
    ∃ r, op.perform net ctx = .ok r ∧ Untouched r.2 := by
  have hnone {i : Nat} (hi : ctx.channels.length ≤ i) : ctx.channels[i]? = none :=
    List.getElem?_eq_none_iff.2 hi
  cases op with
  | «open» =>
    obtain ⟨r, hr, huntouched⟩ := h.open
    exact ⟨(0, r.2), by show yamuxChannelNew 0 ctx >>= _ = _; rw [hr]; rfl, huntouched⟩
  | init i =>
    have hrun : yamuxStreamInit net i ctx = (-einval, ctx) := by
      unfold yamuxStreamInit
      simp only [hnone hquiet]
    exact ⟨_, congrArg Except.ok hrun, h⟩
  | windowUpdate i delta =>
    have hrun : yamuxStreamWindowUpdate net i delta ctx = (-einval, ctx) := by
      unfold yamuxStreamWindowUpdate
      simp only [hnone hquiet]
    exact ⟨_, congrArg Except.ok hrun, h⟩
  | reset i =>
    have hrun : yamuxStreamReset net i ctx = (-einval, ctx) := by
      unfold yamuxStreamReset
      simp only [hnone hquiet]
    exact ⟨_, congrArg Except.ok hrun, h⟩
  | close i =>
    have hrun : yamuxStreamClose net (some (.channel i)) ctx = (-einval, ctx) := by
      unfold yamuxStreamClose
      cases hch : ctx.channels[i]? with
      | none => simp only [hch]
      | some ch =>
        simp only [hch]
        rw [if_pos]
        left
        rw [h.channel_state hch]
        exact YamuxStreamState.noConfusion
    exact ⟨_, congrArg Except.ok hrun, h⟩
  | write i message =>
    refine ⟨_, rfl, ?_⟩
    show Untouched (libp2pYamuxWrite net (.channel i) [] message ctx).2
    unfold libp2pYamuxWrite
    split
    · exact h
    · rename_i hnull
      rw [if_pos]
      · exact h.record message fun g hg => nomatch hg
      · rcases hquiet with hi | hstate
        · exfalso
          apply hnull
          show ctx.channels[i]?.isNone = true
          rw [hnone hi]
          rfl
        · exact hstate
  | streamWrite i data rounds =>
    refine ⟨_, rfl, ?_⟩
    show Untouched (yamuxStreamWrite net i data rounds ctx).2
    unfold yamuxStreamWrite
    split
    · exact h
    · rename_i ch hch
      split
      · exact h
      · rename_i hdata
        rcases hquiet with hi | hi | hi
        · rw [hnone hi] at hch
          cases hch
        · exact absurd hi hdata
        · obtain rfl : rounds = 0 := hi
          exact h
  | receive incoming => exact absurd rfl (hop incoming)

/-! ## quiet frames -/

theorem Untouched.sessionFrame (h : Untouched ctx) : Untouched (yamuxSessionFrame net f ctx).2 := by
  unfold yamuxSessionFrame
  split
  · split
    · unfold yamuxSessionPing
      split
      · exact h
      · apply h.record
        intro g hg
        rw [List.mem_singleton.1 hg]
        exact ⟨rfl, rfl⟩
    · exact h
  · split
    · exact h.update rfl rfl rfl rfl h.sent
    · exact h

variable (net) (ctx) in
/-- a stream at the first stage takes no flags but those that end it -/
theorem yamuxStreamFlags_inited {s : YamuxStream} (hs : s.state = .inited)
    (hrst : f.hasFlag yamuxFrameRst = false) (hfin : f.hasFlag yamuxFrameFin = false) :
    yamuxStreamFlags net f s ctx = none ∨ yamuxStreamFlags net f s ctx = some (s.state, ctx) := by
  unfold yamuxStreamFlags
  rw [if_neg (by simp [hrst]), if_neg (by simp [hfin])]
  split
  · left
    rw [if_pos]
    rw [hs]
    exact YamuxStreamState.noConfusion
  · split
    · exact .inl rfl
    · exact .inr rfl

theorem Untouched.streamFrame (h : Untouched ctx) {i : Nat} {s : YamuxStream}
    (hs : ctx.session.slots[i]? = some { stream := .valid s, alive := true })
    (hstate : s.state = .inited) (hrst : f.hasFlag yamuxFrameRst = false)
    (hfin : f.hasFlag yamuxFrameFin = false) :
    ∃ r, yamuxStreamFrame net i s f incoming ctx = .ok r ∧ Untouched r.2 := by
  unfold yamuxStreamFrame
  rcases yamuxStreamFlags_inited net ctx hstate hrst hfin with hflags | hflags
  · rw [hflags]
    exact ⟨_, rfl, h⟩
  · rw [hflags]
    have hset : Untouched (ctx.setStream i { s with windowSize := f.window s.windowSize }) :=
      h.setStream hs _
    obtain ⟨re, ctx', hrun, -⟩ : ∃ re ctx', yamuxStreamProcess net (some s.stream) f
        (incoming.drop yamuxFrameSize)
        (ctx.setStream i { s with windowSize := f.window s.windowSize }) = .ok (re, ctx') ∧ _ :=
      process_some s.stream
    refine ⟨(if re < 0 then re else re + incoming.length, ctx'), ?_, hset.sameStages (sameStages_process hrun)⟩
    dsimp only
    rw [hrun]
    rfl

theorem Untouched.scan_isOpen (h : Untouched ctx) (id : UInt32) :
    ∃ found, scan (·.isOpen id) ctx.session.slots = .ok found := by
  apply safe_scan.2
  intro i ss hss hbefore
  obtain ⟨s, rfl, -⟩ := h.slots ss (List.mem_of_getElem? hss)
  exact YamuxSessionStream.safe_isOpen.2 fun _ => ⟨s, rfl⟩

/-- a live stream is ours -/
theorem Untouched.not_opens_of_hasLive (h : Untouched ctx) (hlive : ctx.session.HasLive id) :
    ctx.opensForUs id = false := by
  obtain ⟨ss, hss, hopen⟩ := hlive
  obtain ⟨s, rfl, -, -, hparity⟩ := h.slots ss hss
  obtain ⟨-, s', hs', -, hid⟩ := YamuxSessionStream.isOpen_eq_true.1 hopen
  obtain rfl : s = s' := StreamCell.valid.inj hs'
  rw [← hid, hparity]

theorem Untouched.decode (h : Untouched ctx) {events : List StreamEvent}
    (hquiet : (StreamOp.receive incoming).Quiet net { ctx := ctx, events := events }) :
    ∃ r, yamuxDecode net incoming ctx = .ok r ∧ Untouched r.2.2 := by
  unfold yamuxDecode
  dsimp only
  by_cases hlen : incoming.length < yamuxFrameSize
  · rw [if_pos hlen]
    exact ⟨_, rfl, h⟩
  rw [if_neg hlen]
  by_cases hversion : (receiveFrame net.host incoming).version ≠ yamuxVersion
  · rw [if_pos hversion]
    exact ⟨_, rfl, h⟩
  rw [if_neg hversion]
  by_cases hid : (receiveFrame net.host incoming).streamid = 0
  · rw [if_pos hid]
    exact ⟨_, rfl, h.sessionFrame⟩
  rw [if_neg hid]
  have hframe := ((hquiet.resolve_left hlen).resolve_left hversion).resolve_left hid
  generalize receiveFrame net.host incoming = f at hid hframe ⊢
  obtain ⟨found, hscan⟩ := h.scan_isOpen f.streamid
  unfold yamuxFrameIn
  rw [hscan, ok_bind]
  cases found with
  | some i =>
    obtain ⟨hlive, -⟩ := YamuxSession.scan_isOpen_eq_some hscan
    obtain ⟨ss, hss, -, -⟩ := scan_eq_some.1 hscan
    obtain ⟨s, rfl, hstate, -⟩ := h.slots ss (List.mem_of_getElem? hss)
    obtain ⟨-, hrst, hfin⟩ := hframe.resolve_right fun hcon => hcon.1 hlive
    obtain ⟨r, hr, huntouched⟩ : ∃ r, yamuxStreamFrame net i s f incoming ctx = .ok r ∧
        Untouched r.2 := h.streamFrame hss hstate hrst hfin
    refine ⟨(r.1, none, r.2), ?_, huntouched⟩
    simp only [YamuxSession.slots_getElem? hss]
    rw [hr]
    rfl
  | none =>
    have hlive := YamuxSession.not_hasLive_of_scan hscan
    obtain ⟨-, hopens⟩ := hframe.resolve_left fun hcon => hlive hcon.1
    dsimp only
    by_cases hsyn : f.hasFlag yamuxFrameSyn = true
    · rw [if_pos hsyn]
      by_cases hparity : ctx.opensForUs f.streamid = true
      · rw [if_pos hparity]
        have hfull : ctx.session.Full := by
          rcases hopens with hopens | hopens | hopens
          · rw [hopens] at hsyn
            cases hsyn
          · rw [hopens] at hparity
            cases hparity
          · exact hopens
        rw [yamuxNewStream_of_full hid hfull]
        exact ⟨_, rfl, h⟩
      · rw [if_neg hparity]
        exact ⟨_, rfl, h⟩
    · rw [if_neg hsyn]
      exact ⟨_, rfl, h⟩

/-! ## what is legal for an untouched stream -/

def NoOpening (events : List StreamEvent) : Prop :=
  ∀ e ∈ events, ∀ f payload, e.frame = some (f, payload) → f.streamid ≠ 0 →
    ¬ OpeningFrame e.before f

theorem not_peerOpened {events : List StreamEvent} (h : NoOpening events) :
    ¬ PeerOpened events id := by
  intro hopened
  obtain ⟨e, he, f, payload, hf, hid, hne, hopening⟩ := hopened
  rw [← hid] at hne
  exact h e he f payload hf hne hopening

theorem Untouched.not_synSent (h : Untouched ctx) (hid : id ≠ 0) : ¬ ctx.SynSent id := by
  intro hsent
  obtain ⟨m, hm, g, hg, hstream, -⟩ := hsent
  rw [(h.sent m hm g hg).2] at hstream
  exact hid hstream.symm

/-- a quiet frame does not open a stream -/
theorem Untouched.not_opening (h : Untouched ctx)
    (hquiet : (ctx.session.HasLive f.streamid ∧ f.hasFlag yamuxFrameRst = false ∧
        f.hasFlag yamuxFrameFin = false) ∨
      (¬ ctx.session.HasLive f.streamid ∧ (f.hasFlag yamuxFrameSyn = false ∨
        ctx.opensForUs f.streamid = false ∨ ctx.session.Full))) :
    ¬ OpeningFrame ctx f := by
  intro hopening
  obtain ⟨hflags, hparity, hroom⟩ := hopening
  rcases hquiet with ⟨hlive, -⟩ | ⟨-, hsyn | hopens | hfull⟩
  · rw [h.not_opens_of_hasLive hlive] at hparity
    cases hparity
  · have hset : f.hasFlag yamuxFrameSyn = true := by
      unfold YamuxFrame.hasFlag
      rw [hflags]
      decide
    rw [hset] at hsyn
    cases hsyn
  · rw [hopens] at hparity
    cases hparity
  · exact hroom hfull

/-- the peer has nothing to say to a stream that no `SYN` was sent for -/
theorem Untouched.not_legal (h : Untouched ctx) {events : List StreamEvent}
    {payload : List UInt8} (hevents : NoOpening events) (hid : f.streamid ≠ 0)
    (hopening : ¬ OpeningFrame ctx f) : ¬ LegalFrame events ctx f payload := by
  intro hlegal
  unfold LegalFrame at hlegal
  rw [if_neg hid] at hlegal
  rcases hlegal.2 with hlegal | hlegal | hlegal
  · exact hopening hlegal.1
  · exact h.not_synSent hid hlegal.2.1
  · rcases hlegal.2.1 with hopened | hacked
    · exact not_peerOpened hevents hopened
    · exact h.not_synSent hid hacked.1

/-- what is legal on the session is no error -/
theorem sessionFrame_of_legal {events : List StreamEvent} {payload : List UInt8}
    (hid : f.streamid = 0) (hlegal : LegalFrame events ctx f payload) :
    (yamuxSessionFrame net f ctx).1 = 0 := by
  unfold LegalFrame at hlegal
  rw [if_pos hid] at hlegal
  unfold yamuxSessionFrame
  rcases hlegal with ⟨htype, hflags⟩ | htype
  · have hsyn : f.hasFlag yamuxFrameSyn = true := by
      unfold YamuxFrame.hasFlag
      rw [hflags]
      decide
    rw [if_pos htype, if_pos hsyn]
  · have hping : f.type ≠ yamuxFramePing := by
      rw [htype]
      decide
    rw [if_neg hping, if_pos htype]

theorem StreamOp.frame_eq_some {payload : List UInt8} {op : StreamOp}
    (h : op.frame net = some (f, payload)) :
    ∃ incoming, op = .receive incoming ∧ yamuxFrameSize ≤ incoming.length ∧
      receiveFrame net.host incoming = f ∧ f.version = yamuxVersion := by
  cases op with
  | receive incoming =>
    unfold StreamOp.frame at h
    dsimp only at h
    split at h
    · cases h
    · rename_i hvalid
      obtain ⟨hlen, hversion⟩ := not_or.1 hvalid
      have hf := (Prod.mk.inj (Option.some.inj h)).1
      refine ⟨incoming, rfl, Nat.not_lt.1 hlen, hf, ?_⟩
      rw [← hf]
      exact not_not.1 hversion
  | _ => cases h

/-- what the protocol asks of a quiet event -/
theorem eventOk_of_untouched {op : StreamOp} {events : List StreamEvent} {r : Int × YamuxContext}
    (h : Untouched ctx) (hafter : Untouched r.2) (hevents : NoOpening events)
    (hquiet : op.Quiet net { ctx := ctx, events := events })
    (hrun : op.perform net ctx = .ok r) :
    StreamEvent.Ok { frame := op.frame net, before := ctx, result := r.1, after := r.2 }
        events ∧
      ∀ f payload, op.frame net = some (f, payload) → f.streamid ≠ 0 → ¬ OpeningFrame ctx f := by
  have hopening : ∀ f payload, op.frame net = some (f, payload) → f.streamid ≠ 0 →
      (ctx.session.HasLive f.streamid → f.hasFlag yamuxFrameFin = false) ∧
        ¬ OpeningFrame ctx f := by
    intro f payload hf hid
    obtain ⟨incoming, rfl, hlen, rfl, hversion⟩ := StreamOp.frame_eq_some hf
    have hframe := ((hquiet.resolve_left (Nat.not_lt.2 hlen)).resolve_left
      (not_not.2 hversion)).resolve_left hid
    refine ⟨fun hlive => ?_, h.not_opening hframe⟩
    rcases hframe with hframe | hframe
    · exact hframe.2.2
    · exact absurd hlive hframe.1
  refine ⟨⟨?_, ?_, ?_, ?_⟩, fun f payload hf hid => (hopening f payload hf hid).2⟩
  · intro f payload hf hflags hat
    obtain ⟨ch, hch, -, hstate⟩ := hat
    rw [(h.state_of_mem hch).1] at hstate
    cases hstate
  · intro f payload hf hid hfin hlive
    rw [(hopening f payload hf hid).1 hlive] at hfin
    cases hfin
  · intro m hm g hg htype
    have hping := (hafter.sent m (List.mem_of_mem_drop hm) g hg).1
    rw [htype] at hping
    exact absurd hping (by decide)
  · intro f payload hf hlegal
    by_cases hid : f.streamid = 0
    · obtain ⟨incoming, rfl, hlen, rfl, hversion⟩ := StreamOp.frame_eq_some hf
      have hresult : r.1 = 0 := by
        obtain ⟨r', hdecode, hr⟩ := bind_eq_ok.1 hrun
        unfold yamuxDecode at hdecode
        dsimp only at hdecode
        rw [if_neg (Nat.not_lt.2 hlen), if_neg (not_not.2 hversion), if_pos hid,
          sessionFrame_of_legal hid hlegal] at hdecode
        rw [← Except.ok.inj hr, ← Except.ok.inj hdecode]
      rw [hresult]
      show (0 : Int) ≠ -eproto
      decide
    · exact absurd hlegal (h.not_legal hevents hid (hopening f payload hf hid).2)

/-! ## the first operation that is not quiet -/

/-- the context of the channel has left the first stage -/
def YamuxContext.Started (ctx : YamuxContext) (i : Nat) : Prop :=
  ∃ ch, ctx.channels[i]? = some ch ∧ ch.state ≠ .inited

theorem started_setChannelState {i : Nat} {state : YamuxStreamState} (hi : i < ctx.channels.length)
    (hstate : state ≠ .inited) : (ctx.setChannelState i state).Started i := by
  refine ⟨{ ctx.channels[i] with state := state }, ?_, hstate⟩
  show (ctx.channels.modify i _)[i]? = _
  rw [List.getElem?_modify_eq, List.getElem?_eq_getElem hi]
  rfl

theorem YamuxContext.Started.lt {i : Nat} (h : ctx.Started i) : i < ctx.channels.length := by
  obtain ⟨ch, hch, -⟩ := h
  exact (List.getElem?_eq_some_iff.1 hch).1

theorem YamuxStreamState.flags_ne_inited (state : YamuxStreamState) : state.flags.2 ≠ .inited := by
  cases state <;> exact YamuxStreamState.noConfusion

/-- **asking for the flags of a channel moves it on** -/
theorem started_getFlags {i : Nat} (hi : i < ctx.channels.length) :
    (getFlags (.channel i) ctx).2.Started i := by
  unfold getFlags
  simp only [List.getElem?_eq_getElem hi]
  exact started_setChannelState hi (YamuxStreamState.flags_ne_inited _)

/-- a slot of the table is at the first stage, and has the channel -/
def YamuxContext.Waits (ctx : YamuxContext) (i : Nat) : Prop :=
  ∃ s, { stream := .valid s, alive := true } ∈ ctx.session.slots ∧ s.stream.context = i ∧
    s.state = .inited

/-- when the context of a channel has moved on and its slot has not, the records disagree -/
theorem YamuxContext.Started.not_agree {i : Nat} (hstarted : ctx.Started i) (hwaits : ctx.Waits i) :
    ¬ ctx.Agree := by
  obtain ⟨s, hs, hcontext, hstate⟩ := hwaits
  obtain ⟨ch, hch, hne⟩ := hstarted
  intro hagree
  have hsame := hagree s hs ch (by rw [hcontext, hch])
  rw [hstate] at hsame
  exact hne hsame

theorem Untouched.not_agree_of_started (h : Untouched ctx) {i : Nat}
    (hi : i < ctx.channels.length) (hsession : ctx'.session = ctx.session)
    (hstarted : ctx'.Started i) : ¬ ctx'.Agree := by
  apply hstarted.not_agree
  unfold YamuxContext.Waits
  rw [hsession]
  exact h.slot_of_channel hi

/-- by induction on the rounds: the first one moves the channel on, and the others leave it there -/
theorem streamWriteLoop_started {i : Nat} {ws id : UInt32} {dataLength : Nat} (rounds : Nat)
    {data : List UInt8} (hi : i < ctx.channels.length)
    (hstart : ctx.Started i ∨ (data ≠ [] ∧ rounds ≠ 0)) :
    (yamuxStreamWriteLoop net i ws id dataLength rounds data ctx).2.session = ctx.session ∧
      (yamuxStreamWriteLoop net i ws id dataLength rounds data ctx).2.Started i := by
  induction rounds generalizing data ctx with
  | zero =>
    refine ⟨rfl, ?_⟩
    rcases hstart with hstart | hstart
    · exact hstart
    · exact absurd rfl hstart.2
  | succ rounds ih =>
    unfold yamuxStreamWriteLoop
    split
    · rename_i hdata
      refine ⟨rfl, ?_⟩
      rcases hstart with hstart | hstart
      · exact hstart
      · exact absurd hdata hstart.1
    · have hsession : (getFlags (.channel i) ctx).2.session = ctx.session :=
        (sameStreams_getFlags i).session
      have hstarted : (getFlags (.channel i) ctx).2.Started i := started_getFlags hi
      have hrest {ctx₁ : YamuxContext} {data₁ : List UInt8} (hs : ctx₁.session = ctx.session)
          (hst : ctx₁.Started i) :
          (yamuxStreamWriteLoop net i ws id dataLength rounds data₁ ctx₁).2.session =
              ctx.session ∧
            (yamuxStreamWriteLoop net i ws id dataLength rounds data₁ ctx₁).2.Started i := by
        obtain ⟨hs₁, hst₁⟩ := @ih ctx₁ data₁ hst.lt (.inl hst)
        exact ⟨hs₁.trans hs, hst₁⟩
      dsimp only
      split
      · exact hrest hsession hstarted
      · exact ⟨hsession, hstarted⟩

/-- a call on a channel that is there, and sends something, moves the context only -/
theorem Untouched.not_agree_call (h : Untouched ctx) {op : StreamOp} {events : List StreamEvent}
    {r : Int × YamuxContext} (hquiet : ¬ op.Quiet net { ctx := ctx, events := events })
    (hop : ∀ incoming, op ≠ .receive incoming) (hrun : op.perform net ctx = .ok r) :
    ¬ r.2.Agree := by
  have hget {i : Nat} (hi : i < ctx.channels.length) :
      ctx.channels[i]? = some ctx.channels[i] := List.getElem?_eq_getElem hi
  have hfirst {i : Nat} (hi : i < ctx.channels.length) :
      ctx.channels[i].state = .inited ∧ ctx.channels[i].closed = false :=
    h.state_of_mem (List.getElem_mem hi)
  cases op with
  | «open» => exact absurd trivial hquiet
  | close i => exact absurd trivial hquiet
  | receive incoming => exact absurd rfl (hop incoming)
  | init i =>
    have hi : i < ctx.channels.length := Nat.not_le.1 hquiet
    rw [← Except.ok.inj hrun]
    unfold yamuxStreamInit
    simp only [hget hi]
    rw [if_neg (by simp [hfirst hi])]
    exact h.not_agree_of_started hi rfl (started_setChannelState hi YamuxStreamState.noConfusion)
  | windowUpdate i delta =>
    have hi : i < ctx.channels.length := Nat.not_le.1 hquiet
    rw [← Except.ok.inj hrun]
    unfold yamuxStreamWindowUpdate
    simp only [hget hi]
    rw [if_neg (by simp [hfirst hi])]
    exact h.not_agree_of_started hi (sameStreams_getFlags i).session (started_getFlags hi)
  | reset i =>
    have hi : i < ctx.channels.length := Nat.not_le.1 hquiet
    rw [← Except.ok.inj hrun]
    unfold yamuxStreamReset
    simp only [hget hi]
    rw [if_neg (by simp [hfirst hi])]
    exact h.not_agree_of_started hi rfl (started_setChannelState hi YamuxStreamState.noConfusion)
  | write i message =>
    obtain ⟨hi, hest⟩ := not_or.1 hquiet
    have hi : i < ctx.channels.length := Nat.not_le.1 hi
    have hnull : YamuxHandle.isNull (.channel i) ctx = false := by
      show ctx.channels[i]?.isNone = false
      rw [hget hi]
      rfl
    rw [← Except.ok.inj hrun]
    show ¬ (libp2pYamuxWrite net (.channel i) [] message ctx).2.Agree
    have hsession : (libp2pYamuxWrite net (.channel i) [] message ctx).2.session = ctx.session :=
      (sameStreams_write i message).session
    apply h.not_agree_of_started hi hsession
    unfold libp2pYamuxWrite
    rw [if_neg (by simp [hnull]), if_neg hest]
    dsimp only
    rw [libp2pYamuxStreamid_channel]
    exact started_getFlags hi
  | streamWrite i data rounds =>
    obtain ⟨hi, hquiet⟩ := not_or.1 hquiet
    have hi : i < ctx.channels.length := Nat.not_le.1 hi
    rw [← Except.ok.inj hrun]
    show ¬ (yamuxStreamWrite net i data rounds ctx).2.Agree
    unfold yamuxStreamWrite
    simp only [hget hi]
    rw [if_neg (not_or.1 hquiet).1]
    obtain ⟨hsession, hstarted⟩ : (yamuxStreamWriteLoop net i ctx.channels[i].windowSize
        ctx.channels[i].channel data.length rounds data ctx).2.session = ctx.session ∧ _ :=
      streamWriteLoop_started rounds hi (.inr (not_or.1 hquiet))
    exact h.not_agree_of_started hi hsession hstarted

/-! ## frames that are not quiet -/

/-- **a frame that ends a stream closes the record of the table only** -/
theorem Untouched.not_agree_ended (h : Untouched ctx) {i : Nat} {s : YamuxStream}
    {r : Int × YamuxContext}
    (hs : ctx.session.slots[i]? = some { stream := .valid s, alive := true })
    (hend : f.hasFlag yamuxFrameRst = true ∨ f.hasFlag yamuxFrameFin = true)
    (hrun : yamuxStreamFrame net i s f incoming ctx = .ok r) : ¬ r.2.Agree := by
  obtain ⟨s', hs', -, hcontext, -⟩ := h.slots _ (List.mem_of_getElem? hs)
  obtain rfl : s = s' := StreamCell.valid.inj (congrArg YamuxSessionStream.stream hs')
  obtain ⟨ctx₁, hflags⟩ : ∃ ctx₁, yamuxStreamFlags net f s ctx = some (.closed, ctx₁) := by
    unfold yamuxStreamFlags
    by_cases hrst : f.hasFlag yamuxFrameRst = true
    · rw [if_pos hrst]
      exact ⟨ctx, rfl⟩
    · rw [if_neg hrst, if_pos (hend.resolve_left hrst)]
      exact ⟨_, rfl⟩
  obtain rfl := yamuxStreamFlags_ctx hflags
  unfold yamuxStreamFrame at hrun
  rw [hflags] at hrun
  obtain ⟨processed, hprocess, hr⟩ := bind_eq_ok.1 hrun
  have hsame := sameStages_process hprocess
  rw [← Except.ok.inj hr]
  show ¬ processed.2.Agree
  intro hagree
  obtain ⟨ch, hch⟩ : ∃ ch, processed.2.channels[s.stream.context]? = some ch := by
    have hlength := congrArg List.length hsame.channels
    rw [List.length_map, List.length_map] at hlength
    exact ⟨_, List.getElem?_eq_getElem (hlength.symm ▸ hcontext)⟩
  have hstate : ch.state = .inited := by
    have hmem : ch.stage ∈ processed.2.channels.map YamuxChannelContext.stage :=
      List.mem_map_of_mem (List.mem_of_getElem? hch)
    rw [hsame.channels] at hmem
    exact (Prod.mk.inj (h.channels _ hmem)).1
  have hclosed := hagree { s with state := .closed, windowSize := f.window s.windowSize } ?_ ch hch
  · rw [hstate] at hclosed
    cases hclosed
  · rw [hsame.session]
    have hi := (List.getElem?_eq_some_iff.1 hs).1
    apply List.mem_iff_getElem?.2
    refine ⟨i, ?_⟩
    show ((ctx₁.session.streams.set i _).take ctx₁.session.capStreams)[i]? = _
    rw [List.take_set]
    exact List.getElem?_set_self hi

theorem YamuxContext.Started.modify {i k : Nat} {u : YamuxChannelContext → YamuxChannelContext}
    (h : ctx.Started i) (hchannels : ctx'.channels = ctx.channels.modify k u)
    (hu : ∀ ch, (u ch).state = ch.state) : ctx'.Started i := by
  obtain ⟨ch, hch, hne⟩ := h
  by_cases hk : k = i
  · refine ⟨u ch, ?_, by rw [hu]; exact hne⟩
    rw [hchannels, hk, List.getElem?_modify_eq, hch]
    rfl
  · refine ⟨ch, ?_, hne⟩
    rw [hchannels, List.getElem?_modify_ne _ _ hk, hch]

theorem YamuxContext.Started.write {i : Nat} {message : List UInt8} (h : ctx.Started i) :
    (libp2pYamuxWrite net (.channel i) [] message ctx).2.Started i := by
  unfold libp2pYamuxWrite
  split
  · exact h
  · split
    · exact h
    · dsimp only
      rw [libp2pYamuxStreamid_channel]
      exact started_getFlags h.lt

theorem YamuxContext.Started.answerWindow {i : Nat} (h : ctx.Started i) :
    (yamuxAnswerWindow net i f ctx).Started i := by
  unfold yamuxAnswerWindow yamuxStreamWindowUpdate
  split
  · split
    · exact h
    · split
      · exact h
      · exact started_getFlags h.lt
  · exact h

/-- a protocol on top of the channel leaves both records where they are -/
theorem handleUpgrade_keeps {i : Nat} {stream : NetStream} {r : Bool × YamuxContext}
    (hrun : libp2pYamuxHandleUpgrade i stream ctx = .ok r) (hcontext : stream.context = i)
    (hstarted : ctx.Started i) (hwaits : ctx.Waits i) : r.2.Started i ∧ r.2.Waits i := by
  unfold libp2pYamuxHandleUpgrade at hrun
  split at hrun
  · cases hrun
  · obtain ⟨found, -, hrun⟩ := bind_eq_ok.1 hrun
    cases found with
    | none =>
      rw [← Except.ok.inj hrun]
      exact ⟨hstarted.modify rfl fun ch => rfl, hwaits⟩
    | some k =>
      rw [← Except.ok.inj hrun]
      refine ⟨hstarted.modify rfl fun ch => rfl, ?_⟩
      obtain ⟨s, hs, hsame, hstate⟩ := hwaits
      obtain ⟨j, hj⟩ := List.mem_iff_getElem?.1 hs
      unfold YamuxSession.slots at hj
      rw [List.getElem?_take] at hj
      split at hj
      · rename_i hlt
        by_cases hk : k = j
        · refine ⟨{ s with stream := stream }, List.mem_iff_getElem?.2 ⟨j, ?_⟩, hcontext, hstate⟩
          show ((ctx.session.streams.modify k _).take ctx.session.capStreams)[j]? = _
          rw [List.getElem?_take, if_pos hlt, hk, List.getElem?_modify_eq, hj]
          rfl
        · refine ⟨s, List.mem_iff_getElem?.2 ⟨j, ?_⟩, hsame, hstate⟩
          show ((ctx.session.streams.modify k _).take ctx.session.capStreams)[j]? = _
          rw [List.getElem?_take, if_pos hlt, List.getElem?_modify_ne _ _ hk, hj]
      · cases hj

/-- **a stream of the peer's moves the context of its channel only** -/
theorem Untouched.not_agree_opened (h : Untouched ctx) {r : Int × YamuxContext}
    (hid : f.streamid ≠ 0) (hroom : ¬ ctx.session.Full)
    (hrun : yamuxNewStream net f incoming ctx = .ok r) : ¬ r.2.Agree := by
  have hdead : ctx.session.deadSlot = none := h.deadSlot rfl
  obtain ⟨taken, htake⟩ : Safe (yamuxTakeSlot ctx.session) := by
    apply safe_yamuxTakeSlot.2
    intro i hi
    rw [hdead] at hi
    cases hi
  cases taken with
  | none => exact absurd (yamuxTakeSlot_eq_none.1 htake) hroom
  | some taken =>
    obtain ⟨i, session'⟩ := taken
    rw [yamuxNewStream_eq net incoming hid htake] at hrun
    obtain ⟨-, -, hrun⟩ := bind_eq_ok.1 hrun
    obtain ⟨processed, hprocess, hrun⟩ := bind_eq_ok.1 hrun
    obtain ⟨ctx', hmultistream, hr⟩ := bind_eq_ok.1 hrun
    obtain ⟨upgraded, hupgrade, hctx⟩ := bind_eq_ok.1 hmultistream
    have hsame := sameStages_process hprocess
    have hwaits : processed.2.Waits ctx.channels.length := by
      refine ⟨.new f.streamid ctx.channels.length, ?_, rfl, rfl⟩
      rw [hsame.session, addChannel_slots_of_grow hdead htake]
      exact List.mem_append_right _ (List.mem_singleton_self _)
    have hlt : ctx.channels.length < processed.2.channels.length := by
      have hlength := congrArg List.length hsame.channels
      rw [List.length_map, List.length_map] at hlength
      rw [hlength]
      show _ < (ctx.channels ++ [_]).length
      rw [List.length_append]
      exact Nat.lt_succ_self _
    have hstarted : (processed.2.setChannelState ctx.channels.length .synRecv).Started
        ctx.channels.length := started_setChannelState hlt YamuxStreamState.noConfusion
    have hanswered : SameStreams (processed.2.setChannelState ctx.channels.length .synRecv)
        (yamuxAnswerWindow net ctx.channels.length f
          (processed.2.setChannelState ctx.channels.length .synRecv)) :=
      sameStreams_answerWindow _
    obtain ⟨hstarted', hwaits'⟩ := handleUpgrade_keeps hupgrade rfl hstarted.answerWindow (by
      unfold YamuxContext.Waits
      rw [hanswered.session]
      exact hwaits)
    have hwrite : SameStreams upgraded.2 (libp2pYamuxWrite net (.channel ctx.channels.length) []
        multistreamMessage upgraded.2).2 := sameStreams_write _ _
    rw [← Except.ok.inj hr, ← Except.ok.inj hctx]
    apply hstarted'.write.not_agree
    unfold YamuxContext.Waits
    rw [hwrite.session]
    exact hwaits'

theorem Untouched.not_agree_decode (h : Untouched ctx) {events : List StreamEvent}
    {r : Int × Option (List UInt8) × YamuxContext}
    (hquiet : ¬ (StreamOp.receive incoming).Quiet net { ctx := ctx, events := events })
    (hrun : yamuxDecode net incoming ctx = .ok r) : ¬ r.2.2.Agree := by
  obtain ⟨hlen, hquiet⟩ := not_or.1 hquiet
  obtain ⟨hversion, hquiet⟩ := not_or.1 hquiet
  obtain ⟨hid, hquiet⟩ := not_or.1 hquiet
  obtain ⟨hended, hopened⟩ := not_or.1 hquiet
  unfold yamuxDecode at hrun
  dsimp only at hrun
  rw [if_neg hlen, if_neg hversion, if_neg hid] at hrun
  generalize receiveFrame net.host incoming = f at hid hended hopened hrun
  obtain ⟨found, hscan⟩ := h.scan_isOpen f.streamid
  unfold yamuxFrameIn at hrun
  rw [hscan, ok_bind] at hrun
  cases found with
  | some i =>
    obtain ⟨hlive, -⟩ := YamuxSession.scan_isOpen_eq_some hscan
    obtain ⟨ss, hss, -, -⟩ := scan_eq_some.1 hscan
    obtain ⟨s, rfl, -⟩ := h.slots ss (List.mem_of_getElem? hss)
    simp only [YamuxSession.slots_getElem? hss] at hrun
    obtain ⟨r', hr', hr⟩ := bind_eq_ok.1 hrun
    rw [← Except.ok.inj hr]
    refine h.not_agree_ended hss ?_ hr'
    by_contra hend
    obtain ⟨hrst, hfin⟩ := not_or.1 hend
    exact hended ⟨hlive, Bool.eq_false_iff.2 hrst, Bool.eq_false_iff.2 hfin⟩
  | none =>
    have hlive := YamuxSession.not_hasLive_of_scan hscan
    have hopens := fun hcon => hopened ⟨hlive, hcon⟩
    obtain ⟨hsyn, hopens⟩ := not_or.1 hopens
    obtain ⟨hparity, hroom⟩ := not_or.1 hopens
    dsimp only at hrun
    rw [if_pos (Bool.not_eq_false _ ▸ hsyn), if_pos (Bool.not_eq_false _ ▸ hparity)] at hrun
    obtain ⟨r', hr', hr⟩ := bind_eq_ok.1 hrun
    rw [← Except.ok.inj hr]
    exact h.not_agree_opened hid hroom hr'

/-! ## runs -/

/-- what holds as long as every operation is quiet -/
structure LifeCycle.Still (run : LifeCycle) : Prop where
  ctx : Untouched run.ctx
  opening : NoOpening run.events
  events : EventsOk run.events

theorem LifeCycle.Still.law (h : run.Still) : run.Law := ⟨h.ctx.agree, h.events⟩

theorem still_opened (acceptBacklog : Nat) (server : Bool) (state : YamuxStreamState) :
    (LifeCycle.opened acceptBacklog server state).Still := by
  refine ⟨⟨?_, ?_, ?_, ?_, ?_⟩, ?_, trivial⟩
  · intro ss hss
    cases hss
  · intro stage hstage
    cases hstage
  · intro i hi
    cases hi
  · cases server with
    | false => rfl
    | true =>
      show (((2 : UInt32) % 2 == 0 && !true) || ((2 : UInt32) % 2 == 1 && true)) = false
      decide
  · intro m hm
    cases hm
  · intro e he
    cases he

/-- **a quiet operation is performed, and moves no stream** -/
theorem LifeCycle.Still.step {op : StreamOp} (h : run.Still) (hquiet : op.Quiet net run) :
    ∃ run', LifeCycle.step net op run = .ok run' ∧ run'.Still := by
  obtain ⟨r, hrun, hafter⟩ : ∃ r, op.perform net run.ctx = .ok r ∧ Untouched r.2 := by
    by_cases hop : ∃ incoming, op = .receive incoming
    · obtain ⟨incoming, rfl⟩ := hop
      obtain ⟨r, hr, hafter⟩ := h.ctx.decode hquiet
      exact ⟨(r.1, r.2.2), by show yamuxDecode net incoming run.ctx >>= _ = _; rw [hr]; rfl, hafter⟩
    · exact h.ctx.call hquiet fun incoming heq => hop ⟨incoming, heq⟩
  obtain ⟨hok, hopening⟩ := eventOk_of_untouched h.ctx hafter h.opening hquiet hrun
  let e : StreamEvent :=
    { frame := op.frame net
      before := run.ctx
      result := r.1
      after := r.2 }
  have hstep : LifeCycle.step net op run = .ok { ctx := r.2, events := e :: run.events } := by
    unfold LifeCycle.step
    rw [hrun]
    rfl
  refine ⟨_, hstep, hafter, ?_, hok, h.events⟩
  intro e he
  rcases List.mem_cons.1 he with rfl | he
  · exact hopening
  · exact h.opening e he

/-- **any other moves one record of a stream** -/
theorem LifeCycle.Still.not_law {op : StreamOp} {run' : LifeCycle} (h : run.Still)
    (hquiet : ¬ op.Quiet net run) (hrun : LifeCycle.step net op run = .ok run') : ¬ run'.Law := by
  obtain ⟨r, hr, hrun⟩ := bind_eq_ok.1 hrun
  rw [← Except.ok.inj hrun]
  intro hlaw
  have hagree : r.2.Agree := hlaw.agree
  by_cases hop : ∃ incoming, op = .receive incoming
  · obtain ⟨incoming, rfl⟩ := hop
    obtain ⟨r', hr', hinj⟩ := bind_eq_ok.1 hr
    rw [← Except.ok.inj hinj] at hagree
    exact h.ctx.not_agree_decode hquiet hr' hagree
  · exact h.ctx.not_agree_call hquiet (fun incoming heq => hop ⟨incoming, heq⟩) hr hagree

end

/-- **the law holds along a run of a connection iff each of its operations is quiet** -/
theorem holdsAlong_lifeCycle_iff (net : YamuxNet) (acceptBacklog : Nat) (server : Bool)
    (state : YamuxStreamState) (ops : List StreamOp) :
    HoldsAlong (LifeCycle.step net) LifeCycle.Law ops
        (LifeCycle.opened acceptBacklog server state) ↔
      Guarded (LifeCycle.step net) (StreamOp.Quiet net) ops
        (LifeCycle.opened acceptBacklog server state) :=
  holdsAlong_iff_guarded (fun run h => h.law) (fun op run h hquiet => h.step hquiet)
    (fun op run run' h hquiet hrun => h.not_law hquiet hrun)
    (still_opened acceptBacklog server state)

/-- the `SYN` of a stream is recorded in its context, and not in the table -/
theorem not_holdsAlong_lifeCycle :
    ¬ HoldsAlong (LifeCycle.step littleNet) LifeCycle.Law [.open, .init 0]
      (LifeCycle.opened 256 false .est) := by
  have hlook : (runOps (LifeCycle.step littleNet) [.open, .init 0]
      (LifeCycle.opened 256 false .est) >>= fun run =>
        .ok (run.ctx.channels[0]?.map YamuxChannelContext.state, run.ctx.session.slots[0]?)) =
      (.ok (some .synSent, some { stream := .valid (.new 1 0), alive := true }) : Exec _) := by
    decide +kernel
  intro h
  obtain ⟨run, hrun, hlaw⟩ := h.last
  rw [hrun, ok_bind] at hlook
  obtain ⟨hchannel, hslot⟩ := Prod.mk.inj (Except.ok.inj hlook)
  obtain ⟨ch, hch, hstate⟩ := Option.map_eq_some_iff.1 hchannel
  have hsame : ch.state = .inited := hlaw.agree _ (List.mem_of_getElem? hslot) ch hch
  rw [hstate] at hsame
  cases hsame

end Libp2p
