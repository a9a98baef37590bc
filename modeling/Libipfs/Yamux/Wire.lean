import Libipfs.Yamux.Stream

/-!
# What the receiver decodes

* `YamuxSend`             every sender of the library, with its arguments;
* `Sent.Received`         the receiver of a message decodes each frame that was set for it;
* `YamuxSend.Encoded`     when that is so: a ping and a go-away are sent without `encode_frame`, and a
                          go-away written to the yamux stream is wrapped in a data frame;
* `yamuxSend_received_iff`   **what a sender emits is received as it was set in exactly that case**.
-/

set_option linter.unusedVariables false

namespace Libp2p
open CSem

inductive YamuxSend where
  | streamInit (i : Nat)
  | streamClose (context : Option YamuxHandle)
  | streamReset (i : Nat)
  | windowUpdate (i : Nat) (delta : Int32)
  | streamWrite (i : Nat) (data : List UInt8) (rounds : Nat)
  | write (context : YamuxHandle) (message : List UInt8)
  | sendFIN (i : Nat)
  | ping (value : UInt32) (pong : Bool)
  | sessionClose (err : YamuxError)
  | goAway (stream : YamuxHandle)

def YamuxSend.run (net : YamuxNet) (op : YamuxSend) (ctx : YamuxContext) : YamuxContext :=
  match op with
  | .streamInit i => (yamuxStreamInit net i ctx).2
  | .streamClose context => (yamuxStreamClose net context ctx).2
  | .streamReset i => (yamuxStreamReset net i ctx).2
  | .windowUpdate i delta => (yamuxStreamWindowUpdate net i delta ctx).2
  | .streamWrite i data rounds => (yamuxStreamWrite net i data rounds ctx).2
  | .write context message => (libp2pYamuxWrite net context [] message ctx).2
  | .sendFIN i => (libp2pYamuxChannelSendFIN net i ctx).2
  | .ping value pong => (yamuxSessionPing net value pong ctx).2
  | .sessionClose err => (yamuxSessionClose net err ctx).2
  | .goAway stream => (libp2pYamuxSendGoAway net stream ctx).2

/-- what the sender gives to the connection below -/
def YamuxSend.emitted (net : YamuxNet) (op : YamuxSend) (ctx : YamuxContext) : List Sent :=
  (op.run net ctx).sent.drop ctx.sent.length

def Sent.Received (receiver : ByteOrder) (s : Sent) : Prop :=
  ∀ f ∈ s.frames, receiveFrame receiver s.message = f

/-- the frames of the sender are encoded, and are not put into another one -/
def YamuxSend.Encoded (host : ByteOrder) (op : YamuxSend) (ctx : YamuxContext) : Prop :=
  match op with
  | .ping _ _ => ctx.session.closed ∨ host = .big
  | .sessionClose err =>
      ctx.session.closed ∨ (ctx.state ≠ .est ∧ (host = .big ∨ err = .normal))
  | .goAway (.channel i) => ctx.channels.length ≤ i ∨ ctx.state ≠ .est
  | _ => True

section
variable {net : YamuxNet} {ctx : YamuxContext} {receiver : ByteOrder}

/-! ## one message -/

theorem received_nil (message : List UInt8) :
    Sent.Received receiver { frames := [], message := message } := by
  intro f hf
  cases hf

/-- an encoded frame in front of its payload -/
theorem received_encodeFrame (host : ByteOrder) (f : YamuxFrame) (payload : List UInt8) :
    Sent.Received receiver
      { frames := [f], message := (encodeFrame host f).bytes host ++ payload } := by
  intro g hg
  rw [List.mem_singleton.1 hg]
  exact receiveFrame_encodeFrame host receiver f payload

/-- a frame as it is in the host's memory -/
theorem received_raw {host : ByteOrder} {f : YamuxFrame} :
    (∀ receiver, Sent.Received receiver { frames := [f], message := f.bytes host }) ↔
      encodeFrame host f = f := by
  have h (receiver : ByteOrder) : receiveFrame receiver (f.bytes host) = encodeFrame host f := by
    rw [← List.append_nil (f.bytes host), receiveFrame_raw]
  constructor
  · intro hr
    have hf : receiveFrame host (f.bytes host) = f := hr host f (List.mem_singleton_self f)
    rw [← h host, hf]
  · intro he receiver g hg
    rw [List.mem_singleton.1 hg]
    show receiveFrame receiver (f.bytes host) = f
    rw [h receiver, he]

/-- a frame that is in the payload of another is not what is decoded -/
theorem not_received_wrapped {host : ByteOrder} {f g : YamuxFrame} {payload : List UInt8}
    (hne : f ≠ g) : ¬ ∀ receiver, Sent.Received receiver
      { frames := [f, g], message := (encodeFrame host f).bytes host ++ payload } := by
  intro hr
  have hg := hr host g (List.mem_cons_of_mem f (List.mem_singleton_self g))
  rw [receiveFrame_encodeFrame] at hg
  exact hne hg

/-! ## what each sender emits -/

theorem YamuxSend.emitted_of_sent {op : YamuxSend} {l : List Sent}
    (h : (op.run net ctx).sent = ctx.sent ++ l) : op.emitted net ctx = l := by
  unfold YamuxSend.emitted
  rw [h]
  exact List.drop_left

/-- every message that went out between two states is received -/
def EmitsReceived (receiver : ByteOrder) (ctx ctx' : YamuxContext) : Prop :=
  ∃ l, ctx'.sent = ctx.sent ++ l ∧ ∀ s ∈ l, s.Received receiver

theorem EmitsReceived.refl : EmitsReceived receiver ctx ctx :=
  ⟨[], (List.append_nil ctx.sent).symm, fun s hs => nomatch hs⟩

theorem EmitsReceived.record {ctx' : YamuxContext} {frames : List YamuxFrame}
    {message : List UInt8} (h : ctx'.sent = ctx.sent)
    (hr : Sent.Received receiver { frames := frames, message := message }) :
    EmitsReceived receiver ctx (ctx'.record frames message) := by
  refine ⟨[{ frames := frames, message := message }], ?_, ?_⟩
  · rw [YamuxContext.record_sent, h]
  · intro s hs
    rw [List.mem_singleton.1 hs]
    exact hr

theorem EmitsReceived.trans {ctx₁ ctx₂ : YamuxContext} (h₁ : EmitsReceived receiver ctx ctx₁)
    (h₂ : EmitsReceived receiver ctx₁ ctx₂) : EmitsReceived receiver ctx ctx₂ := by
  obtain ⟨l₁, hl₁, hr₁⟩ := h₁
  obtain ⟨l₂, hl₂, hr₂⟩ := h₂
  refine ⟨l₁ ++ l₂, ?_, ?_⟩
  · rw [hl₂, hl₁, List.append_assoc]
  · intro s hs
    rcases List.mem_append.1 hs with hs | hs
    · exact hr₁ s hs
    · exact hr₂ s hs

theorem emitsReceived_writeFrame {ctx' : YamuxContext} (f : YamuxFrame)
    (h : ctx'.sent = ctx.sent) :
    EmitsReceived receiver ctx (yamuxWriteFrame net f ctx').2 := by
  apply EmitsReceived.record h
  rw [← List.append_nil ((encodeFrame net.host f).bytes net.host)]
  exact received_encodeFrame net.host f []

theorem emitsReceived_streamInit (i : Nat) :
    EmitsReceived receiver ctx (yamuxStreamInit net i ctx).2 := by
  unfold yamuxStreamInit
  split
  · exact .refl
  · split
    · exact .refl
    · exact emitsReceived_writeFrame _ rfl

theorem emitsReceived_streamClose (context : Option YamuxHandle) :
    EmitsReceived receiver ctx (yamuxStreamClose net context ctx).2 := by
  unfold yamuxStreamClose
  split
  · exact .refl
  · split
    · exact .refl
    · split
      · exact .refl
      · exact emitsReceived_writeFrame _ rfl
  · exact emitsReceived_writeFrame _ rfl

theorem emitsReceived_streamReset (i : Nat) :
    EmitsReceived receiver ctx (yamuxStreamReset net i ctx).2 := by
  unfold yamuxStreamReset
  split
  · exact .refl
  · split
    · exact .refl
    · exact emitsReceived_writeFrame _ rfl

theorem emitsReceived_windowUpdate (i : Nat) (delta : Int32) :
    EmitsReceived receiver ctx (yamuxStreamWindowUpdate net i delta ctx).2 := by
  unfold yamuxStreamWindowUpdate
  split
  · exact .refl
  · split
    · exact .refl
    · exact emitsReceived_writeFrame _ (getFlags_sent _)

/-- by induction on the rounds: each emits one frame in front of a piece of the data -/
theorem emitsReceived_streamWriteLoop (i : Nat) (ws id : UInt32) (dataLength rounds : Nat)
    (data : List UInt8) :
    EmitsReceived receiver ctx (yamuxStreamWriteLoop net i ws id dataLength rounds data ctx).2 := by
  induction rounds generalizing data ctx with
  | zero => exact .refl
  | succ rounds ih =>
    unfold yamuxStreamWriteLoop
    split
    · exact .refl
    · dsimp only
      split
      · exact (EmitsReceived.record (getFlags_sent _) (received_encodeFrame _ _ _)).trans (ih _)
      · exact EmitsReceived.record (getFlags_sent _) (received_encodeFrame _ _ _)

theorem emitsReceived_streamWrite (i : Nat) (data : List UInt8) (rounds : Nat) :
    EmitsReceived receiver ctx (yamuxStreamWrite net i data rounds ctx).2 := by
  unfold yamuxStreamWrite
  split
  · exact .refl
  · split
    · exact .refl
    · exact emitsReceived_streamWriteLoop i _ _ _ rounds data

variable (net) in
theorem libp2pYamuxWrite_sent_of_est (context : YamuxHandle) (frames : List YamuxFrame)
    (message : List UInt8) (hnull : context.isNull ctx = false) (h : ctx.state = .est) :
    ∃ flags id,
    (libp2pYamuxWrite net context frames message ctx).2.sent = ctx.sent ++
      [{ frames := yamuxDataFrame flags id (UInt32.ofNat message.length) :: frames
         message := (encodeFrame net.host (yamuxDataFrame flags id
           (UInt32.ofNat message.length))).bytes net.host ++ message }] := by
  unfold libp2pYamuxWrite
  rw [if_neg (by simp [hnull]), if_neg (by simp [h])]
  dsimp only
  rw [YamuxContext.record_sent, libp2pYamuxStreamid_sent, getFlags_sent]
  exact ⟨_, _, rfl⟩

variable (net) in
theorem libp2pYamuxWrite_sent_of_ne (context : YamuxHandle) (frames : List YamuxFrame)
    (message : List UInt8) (hnull : context.isNull ctx = false) (h : ctx.state ≠ .est) :
    (libp2pYamuxWrite net context frames message ctx).2.sent =
      ctx.sent ++ [{ frames := frames, message := message }] := by
  unfold libp2pYamuxWrite
  rw [if_neg (by simp [hnull]), if_pos h, YamuxContext.record_sent]

theorem emitsReceived_write (context : YamuxHandle) (message : List UInt8) :
    EmitsReceived receiver ctx (libp2pYamuxWrite net context [] message ctx).2 := by
  cases hnull : context.isNull ctx with
  | true =>
    unfold libp2pYamuxWrite
    rw [if_pos hnull]
    exact .refl
  | false =>
    by_cases hest : ctx.state = .est
    · obtain ⟨flags, id, hsent⟩ := libp2pYamuxWrite_sent_of_est net context [] message hnull hest
      refine ⟨_, hsent, ?_⟩
      intro s hs
      rw [List.mem_singleton.1 hs]
      exact received_encodeFrame _ _ _
    · refine ⟨_, libp2pYamuxWrite_sent_of_ne net context [] message hnull hest, ?_⟩
      intro s hs
      rw [List.mem_singleton.1 hs]
      exact received_nil message

theorem emitsReceived_sendFIN (i : Nat) :
    EmitsReceived receiver ctx (libp2pYamuxChannelSendFIN net i ctx).2 := by
  unfold libp2pYamuxChannelSendFIN
  split
  · exact .refl
  · exact emitsReceived_writeFrame _ rfl

/-! ## the frames of the session -/

theorem encodeFrame_ping_eq_iff {host : ByteOrder} {value : UInt32} {pong : Bool} :
    encodeFrame host (yamuxPingFrame value pong) = yamuxPingFrame value pong ↔ host = .big := by
  cases host with
  | little =>
    have hsyn : htons .little yamuxFrameSyn ≠ yamuxFrameSyn := by decide
    have hack : htons .little yamuxFrameAck ≠ yamuxFrameAck := by decide
    have hflags : htons .little (yamuxPingFrame value pong).flags ≠
        (yamuxPingFrame value pong).flags := by
      cases pong with
      | false => exact hsyn
      | true => exact hack
    constructor
    · intro h
      exact absurd (congrArg YamuxFrame.flags h) hflags
    · intro h
      cases h
  | big => simp

theorem encodeFrame_goAway_eq_iff {host : ByteOrder} {err : YamuxError} :
    encodeFrame host (yamuxCloseFrame err) = yamuxCloseFrame err ↔
      host = .big ∨ err = .normal := by
  cases host with
  | little => cases err <;> decide
  | big => simp

/-- a frame of a session is not one of data -/
theorem yamuxDataFrame_ne {f : YamuxFrame} (h : f.type = yamuxFrameGoAway) (flags : UInt16)
    (id adv : UInt32) : yamuxDataFrame flags id adv ≠ f := by
  intro he
  have htype : yamuxFrameData = yamuxFrameGoAway := by
    rw [← h, ← he]
    rfl
  exact absurd htype (by decide)

/-- the frames of one message are received iff those of the sender's one message are -/
theorem received_emitted_singleton {op : YamuxSend} {m : Sent}
    (h : (op.run net ctx).sent = ctx.sent ++ [m]) :
    (∀ receiver, ∀ s ∈ op.emitted net ctx, s.Received receiver) ↔
      ∀ receiver, m.Received receiver := by
  rw [YamuxSend.emitted_of_sent h]
  constructor
  · intro hr receiver
    exact hr receiver m (List.mem_singleton_self m)
  · intro hr receiver s hs
    rw [List.mem_singleton.1 hs]
    exact hr receiver

theorem received_emitted_nil {op : YamuxSend} (h : (op.run net ctx).sent = ctx.sent) :
    ∀ receiver, ∀ s ∈ op.emitted net ctx, s.Received receiver := by
  intro receiver s hs
  rw [YamuxSend.emitted_of_sent (h.trans (List.append_nil ctx.sent).symm)] at hs
  cases hs

theorem received_emitted_of {op : YamuxSend}
    (h : ∀ receiver, EmitsReceived receiver ctx (op.run net ctx)) :
    ∀ receiver, ∀ s ∈ op.emitted net ctx, s.Received receiver := by
  intro receiver s hs
  obtain ⟨l, hl, hr⟩ := h receiver
  rw [YamuxSend.emitted_of_sent hl] at hs
  exact hr s hs

theorem received_ping_iff (value : UInt32) (pong : Bool) :
    (∀ receiver, ∀ s ∈ (YamuxSend.ping value pong).emitted net ctx, s.Received receiver) ↔
      (YamuxSend.ping value pong).Encoded net.host ctx := by
  show _ ↔ ctx.session.closed ∨ net.host = .big
  by_cases hclosed : ctx.session.closed = true
  · have hsent : ((YamuxSend.ping value pong).run net ctx).sent = ctx.sent := by
      show (yamuxSessionPing net value pong ctx).2.sent = _
      unfold yamuxSessionPing
      rw [if_pos hclosed]
    exact iff_of_true (received_emitted_nil hsent) (.inl hclosed)
  · have hsent : ((YamuxSend.ping value pong).run net ctx).sent = ctx.sent ++
        [{ frames := [yamuxPingFrame value pong]
           message := (yamuxPingFrame value pong).bytes net.host }] := by
      show (yamuxSessionPing net value pong ctx).2.sent = _
      unfold yamuxSessionPing
      rw [if_neg hclosed]
      rfl
    rw [received_emitted_singleton hsent, received_raw, encodeFrame_ping_eq_iff]
    exact (or_iff_right hclosed).symm

theorem received_sessionClose_iff (err : YamuxError) :
    (∀ receiver, ∀ s ∈ (YamuxSend.sessionClose err).emitted net ctx, s.Received receiver) ↔
      (YamuxSend.sessionClose err).Encoded net.host ctx := by
  show _ ↔ ctx.session.closed ∨ (ctx.state ≠ .est ∧ (net.host = .big ∨ err = .normal))
  have hrun (hclosed : ¬ ctx.session.closed = true) :
      ((YamuxSend.sessionClose err).run net ctx).sent =
        (libp2pYamuxWrite net .connection [yamuxCloseFrame err]
          ((yamuxCloseFrame err).bytes net.host) ctx.closeSession).2.sent := by
    show (yamuxSessionClose net err ctx).2.sent = _
    unfold yamuxSessionClose
    rw [if_neg hclosed]
  by_cases hclosed : ctx.session.closed = true
  · have hsent : ((YamuxSend.sessionClose err).run net ctx).sent = ctx.sent := by
      show (yamuxSessionClose net err ctx).2.sent = _
      unfold yamuxSessionClose
      rw [if_pos hclosed]
    exact iff_of_true (received_emitted_nil hsent) (.inl hclosed)
  · by_cases hest : ctx.closeSession.state = .est
    · obtain ⟨flags, id, hsent⟩ := libp2pYamuxWrite_sent_of_est net .connection
        [yamuxCloseFrame err] ((yamuxCloseFrame err).bytes net.host) rfl hest
      rw [received_emitted_singleton ((hrun hclosed).trans hsent)]
      apply iff_of_false
      · apply not_received_wrapped
        exact yamuxDataFrame_ne rfl _ _ _
      · intro h
        rcases h with h | h
        · exact hclosed h
        · exact h.1 hest
    · have hsent := libp2pYamuxWrite_sent_of_ne net .connection
        [yamuxCloseFrame err] ((yamuxCloseFrame err).bytes net.host) rfl hest
      rw [received_emitted_singleton ((hrun hclosed).trans hsent), received_raw,
        encodeFrame_goAway_eq_iff]
      exact ((or_iff_right hclosed).trans (and_iff_right hest)).symm

theorem received_goAway_iff (stream : YamuxHandle) :
    (∀ receiver, ∀ s ∈ (YamuxSend.goAway stream).emitted net ctx, s.Received receiver) ↔
      (YamuxSend.goAway stream).Encoded net.host ctx := by
  cases stream with
  | connection =>
    apply iff_of_true _ trivial
    apply received_emitted_of
    intro receiver
    exact emitsReceived_writeFrame (yamuxGoAwayFrame 0) rfl
  | channel i =>
    show _ ↔ ctx.channels.length ≤ i ∨ ctx.state ≠ .est
    cases hch : ctx.channels[i]? with
    | none =>
      have hsent : ((YamuxSend.goAway (.channel i)).run net ctx).sent = ctx.sent := by
        show (libp2pYamuxSendGoAway net (.channel i) ctx).2.sent = _
        unfold libp2pYamuxSendGoAway
        simp only [hch]
      exact iff_of_true (received_emitted_nil hsent) (.inl (List.getElem?_eq_none_iff.1 hch))
    | some ch =>
      have hi : ¬ ctx.channels.length ≤ i := by
        obtain ⟨hlt, -⟩ := List.getElem?_eq_some_iff.1 hch
        omega
      have hrun : ((YamuxSend.goAway (.channel i)).run net ctx).sent =
          (libp2pYamuxWrite net .connection [yamuxGoAwayFrame ch.channel]
            ((encodeFrame net.host (yamuxGoAwayFrame ch.channel)).bytes net.host) ctx).2.sent := by
        show (libp2pYamuxSendGoAway net (.channel i) ctx).2.sent = _
        unfold libp2pYamuxSendGoAway
        simp only [hch]
      by_cases hest : ctx.state = .est
      · obtain ⟨flags, id, hsent⟩ := libp2pYamuxWrite_sent_of_est net .connection
          [yamuxGoAwayFrame ch.channel] ((encodeFrame net.host
            (yamuxGoAwayFrame ch.channel)).bytes net.host) rfl hest
        rw [received_emitted_singleton (hrun.trans hsent)]
        apply iff_of_false
        · apply not_received_wrapped
          exact yamuxDataFrame_ne rfl _ _ _
        · intro h
          rcases h with h | h
          · exact hi h
          · exact h hest
      · have hsent := libp2pYamuxWrite_sent_of_ne net .connection
          [yamuxGoAwayFrame ch.channel] ((encodeFrame net.host
            (yamuxGoAwayFrame ch.channel)).bytes net.host) rfl hest
        rw [received_emitted_singleton (hrun.trans hsent)]
        apply iff_of_true _ (.inr hest)
        intro receiver
        rw [← List.append_nil ((encodeFrame net.host (yamuxGoAwayFrame ch.channel)).bytes _)]
        exact received_encodeFrame net.host _ []

end

/-- **what a sender emits is received as it was set in exactly the cases of `Encoded`** -/
theorem yamuxSend_received_iff (net : YamuxNet) (op : YamuxSend) (ctx : YamuxContext) :
    (∀ receiver, ∀ s ∈ op.emitted net ctx, s.Received receiver) ↔ op.Encoded net.host ctx := by
  cases op with
  | ping value pong => exact received_ping_iff value pong
  | sessionClose err => exact received_sessionClose_iff err
  | goAway stream => exact received_goAway_iff stream
  | streamInit i =>
    exact iff_of_true (received_emitted_of fun _ => emitsReceived_streamInit i) trivial
  | streamClose context =>
    exact iff_of_true (received_emitted_of fun _ => emitsReceived_streamClose context) trivial
  | streamReset i =>
    exact iff_of_true (received_emitted_of fun _ => emitsReceived_streamReset i) trivial
  | windowUpdate i delta =>
    exact iff_of_true (received_emitted_of fun _ => emitsReceived_windowUpdate i delta) trivial
  | streamWrite i data rounds =>
    exact iff_of_true (received_emitted_of fun _ => emitsReceived_streamWrite i data rounds) trivial
  | write context message =>
    exact iff_of_true (received_emitted_of fun _ => emitsReceived_write context message) trivial
  | sendFIN i =>
    exact iff_of_true (received_emitted_of fun _ => emitsReceived_sendFIN i) trivial

/-- a ping from a little-endian host arrives with flags 0x100 for 0x001 -/
theorem not_received_ping : ¬ ∀ receiver,
    ∀ s ∈ (YamuxSend.ping 7 false).emitted littleNet (yamuxContextNew 256 false),
      s.Received receiver := by
  intro h
  have hs : { frames := [yamuxPingFrame 7 false]
              message := (yamuxPingFrame 7 false).bytes .little } ∈
      (YamuxSend.ping 7 false).emitted littleNet (yamuxContextNew 256 false) :=
    List.mem_singleton_self _
  have hf := h .big _ hs (yamuxPingFrame 7 false) (List.mem_singleton_self _)
  exact absurd hf (by decide)

end Libp2p
