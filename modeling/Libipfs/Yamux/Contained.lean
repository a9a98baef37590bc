import Libipfs.Yamux.Decode
import Mathlib.Algebra.Order.BigOperators.Group.List

/-!
# What an incoming frame touches

* `DecodeContained`      `yamux_decode` reads no slot that is not there and no stream that is gone,
                         a frame for no live stream opens one or is refused, and no more bytes go to
                         the channels than came in;
* `Decodable`            when that is so;
* `consumed_yamuxDecode`     the bytes, in every case;
* `decodeContained_iff`  **it is so in exactly that case**.

A frame that opens a stream reads the slot whose index is the stream's id, and processes what is
behind it for a record that has no channel.
-/

set_option linter.unusedVariables false

namespace Libp2p
open CSem

/-- a stream of the table that is alive and not closed has that id -/
def YamuxSession.HasLive (session : YamuxSession) (id : UInt32) : Prop :=
  ∃ ss ∈ session.slots, ss.isOpen id = .ok true

/-- the bytes that have gone to the channels -/
def YamuxContext.consumed (ctx : YamuxContext) : Nat :=
  (ctx.channels.map fun ch => ch.buffer.length).sum +
    (ctx.marshalled.map fun m => m.2.length).sum

def DecodeContained (net : YamuxNet) (incoming : List UInt8) (ctx : YamuxContext) : Prop :=
  ∃ re message ctx', yamuxDecode net incoming ctx = .ok (re, message, ctx') ∧
    (yamuxFrameSize ≤ incoming.length →
      (receiveFrame net.host incoming).streamid ≠ 0 →
      ¬ ctx.session.HasLive (receiveFrame net.host incoming).streamid →
      (receiveFrame net.host incoming).hasFlag yamuxFrameSyn ∧
          ctx'.session.HasLive (receiveFrame net.host incoming).streamid ∨ re < 0) ∧
    ctx'.consumed ≤ ctx.consumed + incoming.length

/-! ## the condition -/

/-- the live slots in front of the stream have their memory -/
def YamuxSession.Readable (session : YamuxSession) (id : UInt32) : Prop :=
  ∀ i ss, session.slots[i]? = some ss → (∀ y ∈ session.slots.take i, y.isOpen id = .ok false) →
    ss.alive = true → ∃ s, ss.stream = .valid s

/-- so has the dead slot that a new stream gets -/
def YamuxSession.Reusable (session : YamuxSession) : Prop :=
  ∀ i, session.deadSlot = some i → ∃ ss s, session.streams[i]? = some ss ∧ ss.stream = .valid s

/-- no slot is left for a new stream -/
def YamuxSession.Full (session : YamuxSession) : Prop :=
  session.deadSlot = none ∧ (session.capStreams = session.acceptBacklog ∨
    session.streams[session.capStreams]?.map YamuxSessionStream.alive = some true)

/-- the slots in front of the number, dead or alive, have their memory -/
def YamuxSession.Searchable (session : YamuxSession) (number : UInt32) : Prop :=
  ∀ i ss, session.slots[i]? = some ss →
    (∀ y ∈ session.slots.take i, y.hasNumber number = .ok false) → ∃ s, ss.stream = .valid s

/-- bytes behind the frame that are for a channel -/
def YamuxFrame.HasPayload (f : YamuxFrame) (incoming : List UInt8) : Prop :=
  incoming ≠ [] ∧ (f.type = yamuxFrameWindowUpdate ∨
    f.type = yamuxFrameData ∧ incoming.length = f.length.toNat)

/-- the frame opens a stream of ours to open, and either there is no room for it, or the table has a
slot of its id and nothing is behind the frame -/
structure YamuxFrame.Opens (f : YamuxFrame) (incoming : List UInt8) (ctx : YamuxContext) :
    Prop where
  parity : ctx.opensForUs f.streamid = true
  reusable : ctx.session.Reusable
  room : ctx.session.Full ∨
    (f.streamid.toNat < ctx.session.acceptBacklog ∧
      ¬ f.HasPayload (incoming.drop yamuxFrameSize) ∧
      (ctx.session.deadSlot = none → ctx.session.Searchable f.streamid))

/-- the message is too short for a frame, or is for the session, or for a live stream, or the frame
opens no stream, or one that there is a place for -/
def Decodable (net : YamuxNet) (incoming : List UInt8) (ctx : YamuxContext) : Prop :=
  let f := receiveFrame net.host incoming
  incoming.length < yamuxFrameSize ∨ f.streamid = 0 ∨
    if f.version ≠ yamuxVersion then ctx.session.HasLive f.streamid
    else ctx.session.Readable f.streamid ∧
      (ctx.session.HasLive f.streamid ∨ f.hasFlag yamuxFrameSyn = false ∨ f.Opens incoming ctx)

section
variable {net : YamuxNet} {ctx ctx' : YamuxContext} {session : YamuxSession} {id : UInt32}
variable {ss : YamuxSessionStream} {incoming : List UInt8} {f : YamuxFrame}

/-! ## looking at a slot -/

theorem YamuxSessionStream.isOpen_of_dead (h : ss.alive = false) : ss.isOpen id = .ok false := by
  unfold YamuxSessionStream.isOpen
  rw [if_neg (by simp [h])]

theorem YamuxSessionStream.isOpen_of_valid {s : YamuxStream} (halive : ss.alive = true)
    (hs : ss.stream = .valid s) :
    ss.isOpen id = .ok (s.state != .closed && s.id == id) := by
  unfold YamuxSessionStream.isOpen
  rw [if_pos halive, hs]
  rfl

theorem YamuxSessionStream.isOpen_eq_true : ss.isOpen id = .ok true ↔
    ss.alive = true ∧ ∃ s, ss.stream = .valid s ∧ s.state ≠ .closed ∧ s.id = id := by
  constructor
  · intro h
    cases halive : ss.alive with
    | false =>
      rw [YamuxSessionStream.isOpen_of_dead halive] at h
      cases h
    | true =>
      unfold YamuxSessionStream.isOpen at h
      rw [if_pos halive] at h
      obtain ⟨s, hs, h⟩ := bind_eq_ok.1 h
      have h' := Except.ok.inj h
      rw [Bool.and_eq_true, bne_iff_ne, beq_iff_eq] at h'
      exact ⟨rfl, s, StreamCell.read_eq_ok.1 hs, h'⟩
  · intro h
    obtain ⟨halive, s, hs, hstate, hid⟩ := h
    rw [YamuxSessionStream.isOpen_of_valid halive hs, hid]
    simp [hstate]

theorem YamuxSessionStream.safe_isOpen :
    Safe (ss.isOpen id) ↔ (ss.alive = true → ∃ s, ss.stream = .valid s) := by
  constructor
  · intro h halive
    unfold YamuxSessionStream.isOpen at h
    rw [if_pos halive] at h
    obtain ⟨s, hs, -⟩ := safe_bind.1 h
    exact ⟨s, StreamCell.read_eq_ok.1 hs⟩
  · intro h
    cases halive : ss.alive with
    | false => exact ⟨false, YamuxSessionStream.isOpen_of_dead halive⟩
    | true =>
      obtain ⟨s, hs⟩ := h halive
      exact ⟨_, YamuxSessionStream.isOpen_of_valid halive hs⟩

theorem YamuxSessionStream.hasNumber_of_valid {s : YamuxStream} (hs : ss.stream = .valid s) :
    ss.hasNumber id = .ok (s.stream.number == id) := by
  unfold YamuxSessionStream.hasNumber
  rw [hs]
  rfl

theorem YamuxSessionStream.safe_hasNumber :
    Safe (ss.hasNumber id) ↔ ∃ s, ss.stream = .valid s := by
  constructor
  · intro h
    obtain ⟨s, hs, -⟩ := safe_bind.1 h
    exact ⟨s, StreamCell.read_eq_ok.1 hs⟩
  · intro h
    obtain ⟨s, hs⟩ := h
    exact ⟨_, YamuxSessionStream.hasNumber_of_valid hs⟩

/-! ## the loops over the table -/

theorem YamuxSession.safe_scan_isOpen :
    Safe (scan (·.isOpen id) session.slots) ↔ session.Readable id := by
  rw [safe_scan]
  unfold YamuxSession.Readable
  simp only [YamuxSessionStream.safe_isOpen]

theorem YamuxSession.safe_scan_hasNumber :
    Safe (scan (·.hasNumber id) session.slots) ↔ session.Searchable id := by
  rw [safe_scan]
  unfold YamuxSession.Searchable
  simp only [YamuxSessionStream.safe_hasNumber]

theorem YamuxSession.slots_getElem? {i : Nat} (h : session.slots[i]? = some ss) :
    session.streams[i]? = some ss := by
  unfold YamuxSession.slots at h
  rw [List.getElem?_take] at h
  split at h
  · exact h
  · cases h

/-- the loop stops at a live stream of that id -/
theorem YamuxSession.scan_isOpen_eq_some {i : Nat}
    (h : scan (·.isOpen id) session.slots = .ok (some i)) :
    session.HasLive id ∧ ∃ s, session.streams[i]? = some { stream := .valid s, alive := true } ∧
      s.state ≠ .closed ∧ s.id = id := by
  obtain ⟨ss, hss, hopen, -⟩ := scan_eq_some.1 h
  refine ⟨⟨ss, List.mem_of_getElem? hss, hopen⟩, ?_⟩
  obtain ⟨halive, s, hs, hstate, hid⟩ := YamuxSessionStream.isOpen_eq_true.1 hopen
  obtain ⟨stream, alive⟩ := ss
  obtain rfl : stream = .valid s := hs
  obtain rfl : alive = true := halive
  exact ⟨s, YamuxSession.slots_getElem? hss, hstate, hid⟩

theorem YamuxSession.not_hasLive_of_scan (h : scan (·.isOpen id) session.slots = .ok none) :
    ¬ session.HasLive id := by
  intro hlive
  obtain ⟨ss, hmem, hopen⟩ := hlive
  rw [scan_eq_none.1 h ss hmem] at hopen
  cases hopen

/-! ## the slot of a new stream -/

theorem safe_yamuxTakeSlot : Safe (yamuxTakeSlot session) ↔ session.Reusable := by
  unfold YamuxSession.Reusable
  cases hdead : session.deadSlot with
  | none =>
    apply iff_of_true
    · unfold yamuxTakeSlot
      rw [hdead]
      dsimp only
      split
      · split
        · exact safe_ok _
        · exact safe_ok _
      · exact safe_ok _
    · intro i hi
      cases hi
  | some k =>
    obtain ⟨-, ss, hss, -⟩ := YamuxSession.deadSlot_eq_some hdead
    have htake : yamuxTakeSlot session = ss.stream.read >>= fun _ => .ok (some (k, session)) := by
      unfold yamuxTakeSlot
      rw [hdead]
      simp only [hss]
    rw [htake]
    constructor
    · intro h i hi
      obtain ⟨s, hs, -⟩ := safe_bind.1 h
      cases hi
      exact ⟨ss, s, hss, StreamCell.read_eq_ok.1 hs⟩
    · intro h
      obtain ⟨ss', s, hss', hs⟩ := h k rfl
      obtain rfl : ss = ss' := Option.some.inj (hss.symm.trans hss')
      rw [hs]
      exact safe_ok _

theorem yamuxTakeSlot_eq_none : yamuxTakeSlot session = .ok none ↔ session.Full := by
  unfold YamuxSession.Full YamuxSession.acceptBacklog
  cases hdead : session.deadSlot with
  | some k =>
    obtain ⟨-, ss, hss, -⟩ := YamuxSession.deadSlot_eq_some hdead
    apply iff_of_false
    · intro h
      unfold yamuxTakeSlot at h
      rw [hdead] at h
      simp only [hss] at h
      obtain ⟨s, -, h⟩ := bind_eq_ok.1 h
      cases h
    · intro h
      cases h.1
  | none =>
    have hle := session.cap_le
    unfold yamuxTakeSlot
    rw [hdead]
    dsimp only
    by_cases hlt : session.capStreams < session.streams.length
    · rw [dif_pos hlt, List.getElem?_eq_getElem hlt, Option.map_some]
      have hne : session.capStreams ≠ session.streams.length := by omega
      cases halive : session.streams[session.capStreams].alive with
      | true => simp
      | false => simp [hne]
    · rw [dif_neg hlt]
      have heq : session.capStreams = session.streams.length := by omega
      simp [heq]

theorem YamuxSession.hasLive_iff : session.HasLive id ↔
    ∃ i ss, i < session.capStreams ∧ session.streams[i]? = some ss ∧ ss.isOpen id = .ok true := by
  unfold YamuxSession.HasLive YamuxSession.slots
  constructor
  · intro h
    obtain ⟨ss, hmem, hopen⟩ := h
    obtain ⟨i, hi⟩ := List.mem_iff_getElem?.1 hmem
    rw [List.getElem?_take] at hi
    split at hi
    · rename_i hlt
      exact ⟨i, ss, hlt, hi, hopen⟩
    · cases hi
  · intro h
    obtain ⟨i, ss, hlt, hss, hopen⟩ := h
    refine ⟨ss, List.mem_iff_getElem?.2 ⟨i, ?_⟩, hopen⟩
    rw [List.getElem?_take, if_pos hlt, hss]

/-- the slot of a new stream, once it is filled -/
def newSlot (id : UInt32) (context : Nat) : YamuxSessionStream :=
  { stream := .valid (.new id context), alive := true }

theorem newSlot_isOpen (id : UInt32) (context : Nat) : (newSlot id context).isOpen id = .ok true :=
  YamuxSessionStream.isOpen_eq_true.2 ⟨rfl, _, rfl, YamuxStreamState.noConfusion, rfl⟩

theorem newSlot_hasNumber (id : UInt32) (context : Nat) :
    (newSlot id context).hasNumber id = .ok true := by
  rw [YamuxSessionStream.hasNumber_of_valid rfl]
  show (.ok (id == id) : Exec Bool) = _
  rw [beq_self_eq_true]

/-- **a new stream is a live one** -/
theorem hasLive_addChannel {i : Nat} {session' : YamuxSession}
    (h : yamuxTakeSlot session = .ok (some (i, session'))) :
    (ctx.addChannel id i session').session.HasLive id := by
  have hset : i < session'.capStreams ∧ i < session'.streams.length := by
    rcases yamuxTakeSlot_eq_some h with ⟨ss, s, hss, -, -, hlt, rfl⟩ | ⟨hlt, rfl, -, rfl⟩
    · exact ⟨hlt, lt_of_lt_of_le hlt session'.cap_le⟩
    · exact ⟨Nat.lt_succ_self _, hlt⟩
  apply YamuxSession.hasLive_iff.2
  refine ⟨i, newSlot id ctx.channels.length, hset.1, ?_, newSlot_isOpen id _⟩
  exact List.getElem?_set_self hset.2

theorem YamuxSession.length_slots (session : YamuxSession) :
    session.slots.length = session.capStreams := by
  unfold YamuxSession.slots
  rw [List.length_take, Nat.min_eq_left session.cap_le]

theorem addChannel_slots_of_dead {i k : Nat} {session' : YamuxSession}
    (hdead : session.deadSlot = some k) (h : yamuxTakeSlot session = .ok (some (i, session'))) :
    (ctx.addChannel id i session').session.slots =
      session.slots.set k (newSlot id ctx.channels.length) := by
  unfold yamuxTakeSlot at h
  obtain ⟨-, ss, hss, -⟩ := YamuxSession.deadSlot_eq_some hdead
  rw [hdead] at h
  simp only [hss] at h
  obtain ⟨s, -, h⟩ := bind_eq_ok.1 h
  obtain ⟨rfl, rfl⟩ := Prod.mk.inj (Option.some.inj (Except.ok.inj h))
  show (session.streams.set k (newSlot id ctx.channels.length)).take session.capStreams = _
  rw [List.take_set]
  rfl

theorem addChannel_slots_of_grow {i : Nat} {session' : YamuxSession}
    (hdead : session.deadSlot = none) (h : yamuxTakeSlot session = .ok (some (i, session'))) :
    (ctx.addChannel id i session').session.slots =
      session.slots ++ [newSlot id ctx.channels.length] := by
  unfold yamuxTakeSlot at h
  rw [hdead] at h
  dsimp only at h
  split at h
  · rename_i hlt
    split at h
    · cases h
    · obtain ⟨rfl, rfl⟩ := Prod.mk.inj (Option.some.inj (Except.ok.inj h))
      show (session.streams.set session.capStreams (newSlot id ctx.channels.length)).take
        (session.capStreams + 1) = _
      have hlen : (session.streams.take session.capStreams).length = session.capStreams :=
        session.length_slots
      rw [List.take_set, List.take_add_one, List.getElem?_eq_getElem hlt,
        List.set_append_right _ _ hlen.le, hlen]
      simp [YamuxSession.slots]
  · cases h

/-- the search for the number of a new stream stops at its slot, if it gets there -/
theorem searchable_addChannel {i : Nat} {session' : YamuxSession}
    (hlive : scan (·.isOpen id) session.slots = .ok none)
    (h : yamuxTakeSlot session = .ok (some (i, session'))) :
    (ctx.addChannel id i session').session.Searchable id ↔
      (session.deadSlot = none → session.Searchable id) := by
  have hvalid : ∀ ss ∈ session.slots, ss.alive = true → ∃ s, ss.stream = .valid s := by
    intro ss hss halive
    exact YamuxSessionStream.safe_isOpen.1 ⟨false, scan_eq_none.1 hlive ss hss⟩ halive
  have hnew : Safe ((newSlot id ctx.channels.length).hasNumber id) :=
    ⟨true, newSlot_hasNumber id _⟩
  rw [← YamuxSession.safe_scan_hasNumber, ← YamuxSession.safe_scan_hasNumber]
  cases hdead : session.deadSlot with
  | some k =>
    -- the slots in front of a dead one that is used again are alive
    apply iff_of_true _ (fun hnone => nomatch hnone)
    rw [addChannel_slots_of_dead hdead h, safe_scan]
    intro j ss hss hbefore
    rw [List.getElem?_set] at hss
    split at hss
    · split at hss
      · rwa [← Option.some.inj hss]
      · cases hss
    · by_cases hj : j < k
      · have halive := YamuxSession.deadSlot_first hdead hj hss
        exact YamuxSessionStream.safe_hasNumber.2 (hvalid ss (List.mem_of_getElem? hss) halive)
      · have hmem : newSlot id ctx.channels.length ∈
            (session.slots.set k (newSlot id ctx.channels.length)).take j := by
          have hk := (YamuxSession.deadSlot_eq_some hdead).1
          have hlen := session.length_slots
          apply List.mem_iff_getElem?.2
          refine ⟨k, ?_⟩
          rw [List.getElem?_take, if_pos (by omega), List.getElem?_set_self (by omega)]
        have hfalse := hbefore _ hmem
        rw [newSlot_hasNumber] at hfalse
        cases hfalse
  | none =>
    rw [addChannel_slots_of_grow hdead h, safe_scan_concat hnew]
    exact ⟨fun hsafe _ => hsafe, fun hsafe => hsafe rfl⟩

/-! ## the data behind a frame -/

theorem process_of_not_hasPayload (h : ¬ f.HasPayload incoming) (stream : Option NetStream) :
    ∃ re, yamuxStreamProcess net stream f incoming ctx = .ok (re, ctx) := by
  unfold yamuxStreamProcess
  split
  · rename_i htype
    split
    · exact ⟨_, rfl⟩
    · rename_i hlength
      split
      · exact ⟨_, rfl⟩
      · rename_i hne
        exfalso
        apply h
        refine ⟨hne, ?_⟩
        rcases htype with htype | htype
        · exact .inl htype
        · refine .inr ⟨htype, ?_⟩
          by_contra hlen
          exact hlength ⟨hlen, htype⟩
  · exact ⟨_, rfl⟩

theorem YamuxFrame.HasPayload.fits (h : f.HasPayload incoming) :
    ¬ (incoming.length ≠ f.length.toNat ∧ f.type = yamuxFrameData) := by
  intro hnot
  rcases h.2 with htype | htype
  · rw [hnot.2] at htype
    exact absurd htype (by decide)
  · exact hnot.1 htype.2

/-- bytes for a channel get as far as the stream's pointer -/
theorem process_none_of_hasPayload (h : f.HasPayload incoming) :
    yamuxStreamProcess net none f incoming ctx = .error .null := by
  unfold yamuxStreamProcess
  rw [if_pos (h.2.imp id And.left), if_neg h.fits, if_neg h.1]

theorem sum_map_modify {α : Type} {l : List α} {i : Nat} {x : α} (g : α → Nat) (u : α → α)
    (h : l[i]? = some x) : ((l.modify i u).map g).sum + g x = (l.map g).sum + g (u x) := by
  induction l generalizing i with
  | nil => cases h
  | cons y l ih =>
    cases i with
    | zero =>
      obtain rfl : y = x := Option.some.inj h
      simp only [List.modify_zero_cons, List.map_cons, List.sum_cons]
      omega
    | succ i =>
      have hl := ih h
      simp only [List.modify_succ_cons, List.map_cons, List.sum_cons]
      omega

/-- what goes to a channel is counted once -/
theorem YamuxContext.consumed_receive {i : Nat} {ch : YamuxChannelContext}
    (hch : ctx.channels[i]? = some ch) :
    (ctx.receive net i ch incoming).consumed = ctx.consumed + incoming.length := by
  unfold YamuxContext.receive
  dsimp only
  split
  · have hsum := sum_map_modify (fun ch => ch.buffer.length)
      (fun ch : YamuxChannelContext => { ch with buffer := [] }) hch
    unfold YamuxContext.consumed
    simp only [List.map_append, List.sum_append, List.map_cons, List.map_nil, List.sum_cons,
      List.sum_nil, List.length_append, List.length_nil] at hsum ⊢
    omega
  · have hsum := sum_map_modify (fun ch => ch.buffer.length)
      (fun ch' : YamuxChannelContext => { ch' with buffer := ch.buffer ++ incoming }) hch
    unfold YamuxContext.consumed
    simp only [List.length_append] at hsum ⊢
    omega

/-- **with a channel the data is processed, whatever it is** -/
theorem process_some (stream : NetStream) :
    ∃ re ctx', yamuxStreamProcess net (some stream) f incoming ctx = .ok (re, ctx') ∧
      ctx'.consumed ≤ ctx.consumed + incoming.length := by
  by_cases h : f.HasPayload incoming
  · unfold yamuxStreamProcess
    rw [if_pos (h.2.imp id And.left), if_neg h.fits, if_neg h.1]
    cases hch : ctx.channels[stream.context]? with
    | none =>
      refine ⟨-eproto, ctx, ?_, Nat.le_add_right _ _⟩
      simp only [hch]
    | some ch =>
      refine ⟨incoming.length, ctx.receive net stream.context ch incoming, ?_, ?_⟩
      · simp only [hch]
      · exact (YamuxContext.consumed_receive hch).le
  · obtain ⟨re, hre⟩ : ∃ re, yamuxStreamProcess net (some stream) f incoming ctx =
        .ok (re, ctx) := process_of_not_hasPayload h (some stream)
    exact ⟨re, ctx, hre, Nat.le_add_right _ _⟩

/-! ## a frame for a live stream -/

/-- a `FIN` finds no channel context to close -/
theorem yamuxStreamFlags_ctx {s : YamuxStream} {state : YamuxStreamState}
    (h : yamuxStreamFlags net f s ctx = some (state, ctx')) : ctx' = ctx := by
  unfold yamuxStreamFlags at h
  rw [libp2pYamuxGetParentChannelContext_eq_none] at h
  split at h
  · exact (Prod.mk.inj (Option.some.inj h)).2.symm
  · split at h
    · have hctx := (Prod.mk.inj (Option.some.inj h)).2
      split at hctx
      · exact hctx.symm
      · exact hctx.symm
    · split at h
      · split at h
        · cases h
        · exact (Prod.mk.inj (Option.some.inj h)).2.symm
      · split at h
        · cases h
        · exact (Prod.mk.inj (Option.some.inj h)).2.symm

theorem yamuxStreamFrame_ok (i : Nat) (s : YamuxStream) :
    ∃ re ctx', yamuxStreamFrame net i s f incoming ctx = .ok (re, ctx') ∧
      ctx'.consumed ≤ ctx.consumed + incoming.length := by
  unfold yamuxStreamFrame
  cases hflags : yamuxStreamFlags net f s ctx with
  | none => exact ⟨_, _, rfl, Nat.le_add_right _ _⟩
  | some r =>
    obtain ⟨state, ctx₁⟩ := r
    obtain rfl := yamuxStreamFlags_ctx hflags
    let s' : YamuxStream := { s with state := state, windowSize := f.window s.windowSize }
    obtain ⟨re, ctx₂, hprocess, hconsumed⟩ : ∃ re ctx₂,
        yamuxStreamProcess net (some s.stream) f (incoming.drop yamuxFrameSize)
          (ctx₁.setStream i s') = .ok (re, ctx₂) ∧
        ctx₂.consumed ≤ (ctx₁.setStream i s').consumed + (incoming.drop yamuxFrameSize).length :=
      process_some s.stream
    have hsame : (ctx₁.setStream i s').consumed = ctx₁.consumed := rfl
    refine ⟨if re < 0 then re else re + incoming.length, ctx₂, ?_, ?_⟩
    · dsimp only
      rw [hprocess]
      rfl
    have hdrop : (incoming.drop yamuxFrameSize).length ≤ incoming.length := by
      rw [List.length_drop]
      omega
    omega

/-! ## what leaves the table and the buffers alone -/

theorem map_modify_of_eq {α β : Type} {l : List α} {i : Nat} {u : α → α} {g : α → β}
    (h : ∀ x, g (u x) = g x) : (l.modify i u).map g = l.map g := by
  induction l generalizing i with
  | nil => cases i <;> rfl
  | cons x l ih =>
    cases i with
    | zero => rw [List.modify_zero_cons, List.map_cons, h, List.map_cons]
    | succ i => rw [List.modify_succ_cons, List.map_cons, ih, List.map_cons]

theorem YamuxContext.consumed_modify {i : Nat} {u : YamuxChannelContext → YamuxChannelContext}
    (hchannels : ctx'.channels = ctx.channels.modify i u)
    (hmarshalled : ctx'.marshalled = ctx.marshalled) (hu : ∀ ch, (u ch).buffer = ch.buffer) :
    ctx'.consumed = ctx.consumed := by
  have hmap : (ctx.channels.modify i u).map (fun ch => ch.buffer.length) =
      ctx.channels.map fun ch => ch.buffer.length :=
    map_modify_of_eq fun ch => congrArg List.length (hu ch)
  unfold YamuxContext.consumed
  rw [hchannels, hmarshalled, hmap]

/-- the two contexts have the same table, and their channels the same numbers and bytes -/
structure SameStreams (ctx ctx' : YamuxContext) : Prop where
  session : ctx'.session = ctx.session
  channels : ctx'.channels.map YamuxChannelContext.channel =
    ctx.channels.map YamuxChannelContext.channel
  consumed : ctx'.consumed = ctx.consumed

theorem SameStreams.refl (ctx : YamuxContext) : SameStreams ctx ctx := ⟨rfl, rfl, rfl⟩

theorem SameStreams.trans {ctx₁ ctx₂ : YamuxContext} (h₁ : SameStreams ctx ctx₁)
    (h₂ : SameStreams ctx₁ ctx₂) : SameStreams ctx ctx₂ :=
  ⟨h₂.session.trans h₁.session, h₂.channels.trans h₁.channels, h₂.consumed.trans h₁.consumed⟩

theorem sameStreams_setChannelState (i : Nat) (state : YamuxStreamState) :
    SameStreams ctx (ctx.setChannelState i state) where
  session := rfl
  channels := map_modify_of_eq fun ch => rfl
  consumed := YamuxContext.consumed_modify rfl rfl fun ch => rfl

theorem sameStreams_record (frames : List YamuxFrame) (message : List UInt8) :
    SameStreams ctx (ctx.record frames message) := ⟨rfl, rfl, rfl⟩

theorem sameStreams_getFlags (i : Nat) : SameStreams ctx (getFlags (.channel i) ctx).2 := by
  unfold getFlags
  split
  · split
    · exact .refl ctx
    · exact sameStreams_setChannelState _ _
  · rename_i h
    cases h

theorem sameStreams_windowUpdate (i : Nat) (delta : Int32) :
    SameStreams ctx (yamuxStreamWindowUpdate net i delta ctx).2 := by
  unfold yamuxStreamWindowUpdate
  split
  · exact .refl ctx
  · split
    · exact .refl ctx
    · exact (sameStreams_getFlags i).trans (sameStreams_record _ _)

theorem sameStreams_answerWindow (i : Nat) :
    SameStreams ctx (yamuxAnswerWindow net i f ctx) := by
  unfold yamuxAnswerWindow
  split
  · exact sameStreams_windowUpdate i _
  · exact .refl ctx

theorem libp2pYamuxStreamid_channel (i : Nat) :
    (libp2pYamuxStreamid (.channel i) ctx).2 = ctx := by
  unfold libp2pYamuxStreamid
  dsimp only
  split <;> rfl

theorem sameStreams_write (i : Nat) (message : List UInt8) :
    SameStreams ctx (libp2pYamuxWrite net (.channel i) [] message ctx).2 := by
  unfold libp2pYamuxWrite
  split
  · exact .refl ctx
  · split
    · exact sameStreams_record _ _
    · dsimp only
      rw [libp2pYamuxStreamid_channel]
      exact (sameStreams_getFlags i).trans (sameStreams_record _ _)

/-! ## putting a protocol on top -/

theorem YamuxSessionStream.isOpen_putOnTop (stream : NetStream) :
    (ss.putOnTop stream).isOpen id = ss.isOpen id := by
  obtain ⟨cell, alive⟩ := ss
  cases cell <;> rfl

theorem YamuxSession.HasLive.modify {session' : YamuxSession} {k : Nat} {stream : NetStream}
    (h : session.HasLive id) (hcap : session'.capStreams = session.capStreams)
    (hstreams : session'.streams = session.streams.modify k (·.putOnTop stream)) :
    session'.HasLive id := by
  obtain ⟨i, ss, hlt, hss, hopen⟩ := YamuxSession.hasLive_iff.1 h
  apply YamuxSession.hasLive_iff.2
  by_cases hk : k = i
  · refine ⟨i, ss.putOnTop stream, by omega, ?_, ?_⟩
    · rw [hstreams, hk, List.getElem?_modify_eq, hss]
      rfl
    · rw [YamuxSessionStream.isOpen_putOnTop, hopen]
  · refine ⟨i, ss, by omega, ?_, hopen⟩
    rw [hstreams, List.getElem?_modify_ne _ _ hk, hss]

/-- the upgrade of a channel looks for the slot of its number, and keeps the streams alive -/
theorem handleUpgrade_spec {i : Nat} {ch : YamuxChannelContext} (hch : ctx.channels[i]? = some ch)
    (stream : NetStream) :
    (Safe (libp2pYamuxHandleUpgrade i stream ctx) ↔ ctx.session.Searchable ch.channel) ∧
      ∀ r, libp2pYamuxHandleUpgrade i stream ctx = .ok r →
        (∀ id, ctx.session.HasLive id → r.2.session.HasLive id) ∧
          r.2.consumed = ctx.consumed := by
  have hconsumed (session : YamuxSession) :
      ({ ctx with
         session := session
         channels := ctx.channels.modify i fun ch => { ch with childStream := true } } :
        YamuxContext).consumed = ctx.consumed :=
    YamuxContext.consumed_modify rfl rfl fun ch => rfl
  rw [← YamuxSession.safe_scan_hasNumber]
  unfold libp2pYamuxHandleUpgrade
  simp only [hch]
  cases hscan : scan (·.hasNumber ch.channel) ctx.session.slots with
  | error e => simp
  | ok k =>
    refine ⟨iff_of_true ?_ (safe_ok k), ?_⟩
    · cases k <;> exact safe_ok _
    · intro r hr
      cases k with
      | none =>
        rw [← Except.ok.inj hr]
        exact ⟨fun id h => h, hconsumed ctx.session⟩
      | some k =>
        rw [← Except.ok.inj hr]
        exact ⟨fun id h => h.modify rfl rfl, hconsumed _⟩

/-! ## a frame that opens a stream -/

theorem YamuxSession.takeId_of_ne (h : id ≠ 0) : session.takeId id = (id, session) := by
  unfold YamuxSession.takeId
  rw [if_neg h]

theorem yamuxChannelNew_of_ne (h : id ≠ 0) : yamuxChannelNew id ctx =
    yamuxTakeSlot ctx.session >>= fun taken =>
      match taken with
      | none => .ok (none, ctx)
      | some (i, session) => .ok (some ctx.channels.length, ctx.addChannel id i session) := by
  unfold yamuxChannelNew
  rewrite [YamuxSession.takeId_of_ne h]
  rfl

theorem yamuxNewStream_of_full (hid : f.streamid ≠ 0) (hfull : ctx.session.Full) :
    yamuxNewStream net f incoming ctx = .ok (-eproto, ctx) := by
  unfold yamuxNewStream
  rw [yamuxChannelNew_of_ne hid, yamuxTakeSlot_eq_none.2 hfull]
  rfl

theorem length_addChannel {i : Nat} {session' : YamuxSession}
    (h : yamuxTakeSlot ctx.session = .ok (some (i, session'))) :
    (ctx.addChannel id i session').session.streams.length = ctx.session.acceptBacklog := by
  show (session'.streams.set i _).length = _
  rw [List.length_set]
  rcases yamuxTakeSlot_eq_some h with ⟨ss, s, -, -, -, -, rfl⟩ | ⟨hlt, -, -, rfl⟩
  · rfl
  · rfl

theorem consumed_addChannel (i : Nat) (session' : YamuxSession) :
    (ctx.addChannel id i session').consumed = ctx.consumed := by
  unfold YamuxContext.consumed YamuxContext.addChannel
  rw [List.map_append, List.sum_append]
  rfl

/-- the channel of a new stream, after the window has been answered -/
theorem channel_of_sameStreams {i : Nat} {session' : YamuxSession}
    (h : SameStreams (ctx.addChannel id i session') ctx') :
    ∃ ch, ctx'.channels[ctx.channels.length]? = some ch ∧ ch.channel = id := by
  have hmap : (ctx'.channels.map YamuxChannelContext.channel)[ctx.channels.length]? =
      some id := by
    rw [h.channels]
    show ((ctx.channels ++ [YamuxChannelContext.new id]).map _)[ctx.channels.length]? = _
    rw [List.getElem?_map, List.getElem?_concat_length]
    rfl
  rw [List.getElem?_map, Option.map_eq_some_iff] at hmap
  exact hmap

variable (net) (incoming) in
/-- with a slot of its own, a new stream is made before the table is looked at -/
theorem yamuxNewStream_eq (hid : f.streamid ≠ 0) {i : Nat} {session' : YamuxSession}
    (h : yamuxTakeSlot ctx.session = .ok (some (i, session'))) :
    yamuxNewStream net f incoming ctx =
      require .outOfBounds (f.streamid.toNat < ctx.session.acceptBacklog) >>= fun _ =>
        yamuxStreamProcess net none f (incoming.drop yamuxFrameSize)
          (ctx.addChannel f.streamid i session') >>= fun processed =>
            libp2pNetMultistreamStreamNew net ctx.channels.length f.streamid
              (yamuxAnswerWindow net ctx.channels.length f
                (processed.2.setChannelState ctx.channels.length .synRecv)) >>= fun ctx' =>
                  .ok (0, ctx') := by
  unfold yamuxNewStream
  rw [yamuxChannelNew_of_ne hid, h, ← length_addChannel h]
  rfl

/-- it is opened iff the table has a slot of its id, nothing is behind the frame, and the slot it got
is found again -/
theorem yamuxNewStream_of_some (hid : f.streamid ≠ 0) {i : Nat} {session' : YamuxSession}
    (h : yamuxTakeSlot ctx.session = .ok (some (i, session'))) :
    (Safe (yamuxNewStream net f incoming ctx) ↔
      f.streamid.toNat < ctx.session.acceptBacklog ∧
        ¬ f.HasPayload (incoming.drop yamuxFrameSize) ∧
        (ctx.addChannel f.streamid i session').session.Searchable f.streamid) ∧
      ∀ re ctx', yamuxNewStream net f incoming ctx = .ok (re, ctx') →
        ctx'.session.HasLive f.streamid ∧ ctx'.consumed = ctx.consumed := by
  rw [yamuxNewStream_eq net incoming hid h]
  by_cases hroom : f.streamid.toNat < ctx.session.acceptBacklog
  · rw [require_pos hroom, ok_bind]
    by_cases hpayload : f.HasPayload (incoming.drop yamuxFrameSize)
    · rw [process_none_of_hasPayload hpayload, error_bind]
      simp [hpayload]
    · obtain ⟨re, hprocess⟩ : ∃ re, yamuxStreamProcess net none f (incoming.drop yamuxFrameSize)
          (ctx.addChannel f.streamid i session') =
            .ok (re, ctx.addChannel f.streamid i session') := process_of_not_hasPayload hpayload none
      rw [hprocess, ok_bind]
      have hsame : SameStreams (ctx.addChannel f.streamid i session')
          (yamuxAnswerWindow net ctx.channels.length f
            ((ctx.addChannel f.streamid i session').setChannelState ctx.channels.length
              .synRecv)) :=
        (sameStreams_setChannelState _ _).trans (sameStreams_answerWindow _)
      obtain ⟨ch, hch, hnumber⟩ := channel_of_sameStreams hsame
      dsimp only
      generalize yamuxAnswerWindow net ctx.channels.length f
        ((ctx.addChannel f.streamid i session').setChannelState ctx.channels.length .synRecv) =
          ctx₁ at hsame hch ⊢
      obtain ⟨hsafe, hresult⟩ := handleUpgrade_spec hch
        (.over (net.unset ctx₁) (.channel f.streamid ctx.channels.length))
      rw [hnumber, hsame.session] at hsafe
      unfold libp2pNetMultistreamStreamNew
      constructor
      · rw [← hsafe]
        simp only [hroom, hpayload, not_false_eq_true, true_and, safe_bind, safe_ok, and_true]
        constructor
        · intro hrun
          obtain ⟨ctx₂, hctx₂⟩ := hrun
          obtain ⟨r, hr, -⟩ := bind_eq_ok.1 hctx₂
          exact ⟨r, hr⟩
        · intro hrun
          obtain ⟨r, hr⟩ := hrun
          exact ⟨_, by rw [hr]; rfl⟩
      · intro re' ctx' hrun
        obtain ⟨ctx₂, hctx₂, hrun⟩ := bind_eq_ok.1 hrun
        obtain ⟨r, hr, hctx₂⟩ := bind_eq_ok.1 hctx₂
        obtain ⟨hlive, hconsumed⟩ := hresult r hr
        have hwrite : SameStreams r.2 (libp2pYamuxWrite net (.channel ctx.channels.length) []
            multistreamMessage r.2).2 := sameStreams_write _ _
        obtain rfl : ctx₂ = ctx' := (Prod.mk.inj (Except.ok.inj hrun)).2
        rw [← Except.ok.inj hctx₂, hwrite.session, hwrite.consumed, hconsumed, hsame.consumed,
          consumed_addChannel]
        refine ⟨hlive _ ?_, rfl⟩
        rw [hsame.session]
        exact hasLive_addChannel h
  · rw [require_neg hroom, error_bind]
    simp [hroom]

variable (net) (incoming) in
theorem yamuxNewStream_contained_iff (hid : f.streamid ≠ 0)
    (hlive : scan (·.isOpen f.streamid) ctx.session.slots = .ok none) :
    (∃ re ctx', yamuxNewStream net f incoming ctx = .ok (re, ctx') ∧
        (ctx'.session.HasLive f.streamid ∨ re < 0) ∧
        ctx'.consumed ≤ ctx.consumed + incoming.length) ↔
      ctx.session.Reusable ∧ (ctx.session.Full ∨
        (f.streamid.toNat < ctx.session.acceptBacklog ∧
          ¬ f.HasPayload (incoming.drop yamuxFrameSize) ∧
          (ctx.session.deadSlot = none → ctx.session.Searchable f.streamid))) := by
  cases htake : yamuxTakeSlot ctx.session with
  | error e =>
    apply iff_of_false
    · intro h
      obtain ⟨re, ctx', hrun, -⟩ := h
      unfold yamuxNewStream at hrun
      rw [yamuxChannelNew_of_ne hid, htake] at hrun
      cases hrun
    · intro h
      have hsafe := safe_yamuxTakeSlot.2 h.1
      rw [htake] at hsafe
      exact not_safe_error e hsafe
  | ok taken =>
    have hreusable : ctx.session.Reusable := safe_yamuxTakeSlot.1 ⟨taken, htake⟩
    cases taken with
    | none =>
      have hfull := yamuxTakeSlot_eq_none.1 htake
      apply iff_of_true _ ⟨hreusable, .inl hfull⟩
      exact ⟨_, _, yamuxNewStream_of_full hid hfull, .inr (by decide), Nat.le_add_right _ _⟩
    | some r =>
      obtain ⟨i, session'⟩ := r
      have hnotFull : ¬ ctx.session.Full := by
        intro hfull
        rw [yamuxTakeSlot_eq_none.2 hfull] at htake
        cases Except.ok.inj htake
      obtain ⟨hsafe, hresult⟩ : (Safe (yamuxNewStream net f incoming ctx) ↔ _) ∧ _ :=
        yamuxNewStream_of_some hid htake
      rw [searchable_addChannel hlive htake] at hsafe
      constructor
      · intro h
        obtain ⟨re, ctx', hrun, -⟩ := h
        exact ⟨hreusable, .inr (hsafe.1 ⟨_, hrun⟩)⟩
      · intro h
        obtain ⟨r, hr⟩ := hsafe.2 (h.2.resolve_left hnotFull)
        obtain ⟨hopened, hconsumed⟩ := hresult r.1 r.2 hr
        refine ⟨r.1, r.2, hr, .inl hopened, ?_⟩
        rw [hconsumed]
        exact Nat.le_add_right _ _

/-! ## every frame -/

theorem consumed_yamuxSessionFrame : (yamuxSessionFrame net f ctx).2.consumed = ctx.consumed := by
  unfold yamuxSessionFrame
  split
  · split
    · unfold yamuxSessionPing
      split <;> rfl
    · rfl
  · split <;> rfl

/-- what a result has to be for a frame of that stream -/
def FrameResult (f : YamuxFrame) (incoming : List UInt8) (ctx : YamuxContext) (re : Int)
    (ctx' : YamuxContext) : Prop :=
  (f.streamid ≠ 0 → ¬ ctx.session.HasLive f.streamid →
    f.hasFlag yamuxFrameSyn ∧ ctx'.session.HasLive f.streamid ∨ re < 0) ∧
  ctx'.consumed ≤ ctx.consumed + incoming.length

theorem frameResult_of_hasLive {re : Int} (hlive : ctx.session.HasLive f.streamid)
    (hconsumed : ctx'.consumed ≤ ctx.consumed + incoming.length) :
    FrameResult f incoming ctx re ctx' :=
  ⟨fun _ hnot => absurd hlive hnot, hconsumed⟩

theorem frameResult_of_neg {re : Int} (hre : re < 0) :
    FrameResult f incoming ctx re ctx :=
  ⟨fun _ _ => .inr hre, Nat.le_add_right _ _⟩

variable (net) (incoming) (ctx) in
theorem yamuxFrameIn_contained_iff (hid : f.streamid ≠ 0) :
    (∃ re message ctx', yamuxFrameIn net f incoming ctx = .ok (re, message, ctx') ∧
        FrameResult f incoming ctx re ctx') ↔
      ctx.session.Readable f.streamid ∧
        (ctx.session.HasLive f.streamid ∨ f.hasFlag yamuxFrameSyn = false ∨
          f.Opens incoming ctx) := by
  rw [← YamuxSession.safe_scan_isOpen]
  cases hscan : scan (·.isOpen f.streamid) ctx.session.slots with
  | error e =>
    apply iff_of_false
    · intro h
      obtain ⟨re, message, ctx', hrun, -⟩ := h
      unfold yamuxFrameIn at hrun
      rw [hscan] at hrun
      cases hrun
    · intro h
      exact not_safe_error e h.1
  | ok found =>
    cases found with
    | some i =>
      obtain ⟨hlive, s, hs, -⟩ := YamuxSession.scan_isOpen_eq_some hscan
      obtain ⟨re, ctx', hrun, hconsumed⟩ : ∃ re ctx',
          yamuxStreamFrame net i s f incoming ctx = .ok (re, ctx') ∧
            ctx'.consumed ≤ ctx.consumed + incoming.length := yamuxStreamFrame_ok i s
      apply iff_of_true _ ⟨safe_ok _, .inl hlive⟩
      refine ⟨re, none, ctx', ?_, frameResult_of_hasLive hlive hconsumed⟩
      unfold yamuxFrameIn
      rw [hscan, ok_bind]
      simp only [hs]
      rw [hrun]
      rfl
    | none =>
      have hlive := YamuxSession.not_hasLive_of_scan hscan
      have hin : yamuxFrameIn net f incoming ctx =
          if f.hasFlag yamuxFrameSyn then
            if ctx.opensForUs f.streamid then
              yamuxNewStream net f incoming ctx >>= fun r =>
                .ok (r.1, yamuxPullMessageFromFrame incoming, r.2)
            else .ok (0, yamuxPullMessageFromFrame incoming, ctx)
          else .ok (-eproto, none, ctx) := by
        unfold yamuxFrameIn
        rw [hscan]
        rfl
      rw [hin]
      cases hsyn : f.hasFlag yamuxFrameSyn with
      | false =>
        apply iff_of_true _ ⟨safe_ok _, .inr (.inl rfl)⟩
        exact ⟨-eproto, none, ctx, rfl, frameResult_of_neg (by decide)⟩
      | true =>
        rw [if_pos rfl]
        cases hparity : ctx.opensForUs f.streamid with
        | false =>
          apply iff_of_false
          · intro h
            obtain ⟨re, message, ctx', hrun, hresult⟩ := h
            have hinj := Prod.mk.inj (Except.ok.inj hrun)
            have hctx := (Prod.mk.inj hinj.2).2
            rcases hresult.1 hid hlive with h | h
            · rw [← hctx] at h
              exact hlive h.2
            · rw [← hinj.1] at h
              exact absurd h (by decide)
          · intro h
            rcases h.2 with h | h | h
            · exact hlive h
            · cases h
            · rw [h.parity] at hparity
              cases hparity
        | true =>
          rw [if_pos rfl]
          have hnew := yamuxNewStream_contained_iff net incoming hid hscan
          constructor
          · intro h
            obtain ⟨re, message, ctx', hrun, hresult⟩ := h
            obtain ⟨r, hr, hrun⟩ := bind_eq_ok.1 hrun
            have hinj := Prod.mk.inj (Except.ok.inj hrun)
            have hctx : r.2 = ctx' := (Prod.mk.inj hinj.2).2
            obtain ⟨hreusable, hroom⟩ := hnew.1 ⟨r.1, r.2, hr, by
              rw [hctx, hinj.1]
              exact ⟨(hresult.1 hid hlive).imp And.right id, hresult.2⟩⟩
            exact ⟨safe_ok _, .inr (.inr ⟨hparity, hreusable, hroom⟩)⟩
          · intro h
            have hopens : f.Opens incoming ctx := by
              rcases h.2 with h | h | h
              · exact absurd h hlive
              · cases h
              · exact h
            obtain ⟨re, ctx', hrun, hopened, hconsumed⟩ := hnew.2 ⟨hopens.reusable, hopens.room⟩
            refine ⟨re, yamuxPullMessageFromFrame incoming, ctx', ?_, ?_, hconsumed⟩
            · rw [hrun]
              rfl
            · intro _ _
              exact hopened.imp (fun h => ⟨hsyn, h⟩) id

end

/-- **a frame touches nothing but what is there exactly in the cases of `Decodable`** -/
theorem decodeContained_iff (net : YamuxNet) (incoming : List UInt8) (ctx : YamuxContext) :
    DecodeContained net incoming ctx ↔ Decodable net incoming ctx := by
  unfold DecodeContained Decodable yamuxDecode
  dsimp only
  by_cases hlen : incoming.length < yamuxFrameSize
  · rw [if_pos hlen]
    apply iff_of_true _ (.inl hlen)
    exact ⟨0, none, ctx, rfl, fun h => absurd hlen (Nat.not_lt.2 h), Nat.le_add_right _ _⟩
  · rw [if_neg hlen]
    have hge := Nat.not_lt.1 hlen
    by_cases hversion : (receiveFrame net.host incoming).version ≠ yamuxVersion
    · rw [if_pos hversion, if_pos hversion]
      constructor
      · intro h
        obtain ⟨re, message, ctx', hrun, hresult, -⟩ := h
        have hinj := Prod.mk.inj (Except.ok.inj hrun)
        have hctx := (Prod.mk.inj hinj.2).2
        by_contra hcon
        obtain ⟨-, hcon⟩ := not_or.1 hcon
        obtain ⟨hid, hlive⟩ := not_or.1 hcon
        rcases hresult hge hid hlive with h | h
        · rw [← hctx] at h
          exact hlive h.2
        · rw [← hinj.1] at h
          exact absurd h (by decide)
      · intro h
        refine ⟨0, none, ctx, rfl, fun _ hid hlive => ?_, Nat.le_add_right _ _⟩
        rcases h with h | h | h
        · exact absurd h hlen
        · exact absurd h hid
        · exact absurd h hlive
    · rw [if_neg hversion, if_neg hversion]
      by_cases hid : (receiveFrame net.host incoming).streamid = 0
      · rw [if_pos hid]
        apply iff_of_true _ (.inr (.inl hid))
        refine ⟨_, _, _, rfl, fun _ h => absurd hid h, ?_⟩
        rw [consumed_yamuxSessionFrame]
        exact Nat.le_add_right _ _
      · rw [if_neg hid]
        have hframe := yamuxFrameIn_contained_iff net ctx incoming hid
        constructor
        · intro h
          obtain ⟨re, message, ctx', hrun, hresult⟩ := h
          exact .inr (.inr (hframe.1 ⟨re, message, ctx', hrun, hresult.1 hge, hresult.2⟩))
        · intro h
          obtain ⟨re, message, ctx', hrun, hresult⟩ :=
            hframe.2 ((h.resolve_left hlen).resolve_left hid)
          exact ⟨re, message, ctx', hrun, fun _ => hresult.1, hresult.2⟩

/-- a `SYN` for stream 301 at a server makes it read slot 301 of 256 -/
theorem not_decodeContained_syn : ¬ DecodeContained littleNet
    [0x00, 0x01, 0x00, 0x01, 0x00, 0x00, 0x01, 0x2d, 0x00, 0x00, 0x00, 0x00]
    (yamuxContextNew 256 true) := by
  have hrun : yamuxDecode littleNet
      [0x00, 0x01, 0x00, 0x01, 0x00, 0x00, 0x01, 0x2d, 0x00, 0x00, 0x00, 0x00]
      (yamuxContextNew 256 true) = .error .outOfBounds := by
    decide +kernel
  intro h
  obtain ⟨re, message, ctx', h, -⟩ := h
  rw [hrun] at h
  cases h

end Libp2p
