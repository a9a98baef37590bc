import Libipfs.Yamux.Session

/-!
# What is sent on a yamux connection

The senders of `libp2p/yamux/stream.c`, `session.c` and `yamux.c`. Each sets the fields of a frame
of its own and hands the bytes to the stream below.

* `yamuxStreamInit`, `yamuxStreamClose`, `yamuxStreamReset`, `yamuxStreamWindowUpdate`   frames
                      without data, through `yamuxWriteFrame`;
* `yamuxStreamWrite`, `libp2pYamuxWrite`    data;
* `yamuxSessionPing`, `yamuxSessionClose`, `libp2pYamuxSendGoAway`   frames of the session.

`ctx.sent` grows by what the connection below is given. The stream that `yamux_session_close` writes
to is the yamux stream itself, so that its frame goes through `libp2p_yamux_write`.
-/

namespace Libp2p
open CSem

/-- a pointer to the context of the connection or of a channel -/
inductive YamuxHandle where
  | connection
  | channel (i : Nat)
  deriving DecidableEq, Repr

/-- `enum yamux_error` -/
inductive YamuxError where
  | normal
  | protoc
  | intern
  deriving DecidableEq, Repr

def YamuxError.code : YamuxError → UInt32
  | .normal => 0x00
  | .protoc => 0x01
  | .intern => 0x02

def YamuxContext.record (ctx : YamuxContext) (frames : List YamuxFrame) (message : List UInt8) :
    YamuxContext :=
  { ctx with sent := ctx.sent ++ [{ frames := frames, message := message }] }

def YamuxContext.setChannelState (ctx : YamuxContext) (i : Nat) (state : YamuxStreamState) :
    YamuxContext :=
  { ctx with channels := ctx.channels.modify i fun ch => { ch with state := state } }

def YamuxContext.closeSession (ctx : YamuxContext) : YamuxContext :=
  { ctx with session := { ctx.session with closed := true } }

section
variable (net : YamuxNet)

def yamuxWriteFrame (f : YamuxFrame) (ctx : YamuxContext) : Int × YamuxContext :=
  let message := (encodeFrame net.host f).bytes net.host
  (if net.write ctx.sent message then yamuxFrameSize else 0, ctx.record [f] message)

/-! ## frames without data -/

def yamuxStreamInit (i : Nat) (ctx : YamuxContext) : Int × YamuxContext :=
  match ctx.channels[i]? with
  | none => (-einval, ctx)
  | some ch =>
      if ch.state ≠ .inited ∨ ch.closed then (-einval, ctx)
      else
        yamuxWriteFrame net
          { version := yamuxVersion
            type := yamuxFrameWindowUpdate
            flags := yamuxFrameSyn
            streamid := ch.channel
            length := 0 }
          (ctx.setChannelState i .synSent)

def yamuxStreamClose (context : Option YamuxHandle) (ctx : YamuxContext) : Int × YamuxContext :=
  match context with
  | none => (0, ctx)
  | some (.channel i) =>
      match ctx.channels[i]? with
      | none => (-einval, ctx)
      | some ch =>
          if ch.state ≠ .est ∨ ch.closed then (-einval, ctx)
          else
            yamuxWriteFrame net
              { version := yamuxVersion
                type := yamuxFrameWindowUpdate
                flags := yamuxFrameFin
                streamid := ch.channel
                length := 0 }
              (ctx.setChannelState i .closing)
  | some .connection =>
      yamuxWriteFrame net
        { version := yamuxVersion
          type := yamuxFrameWindowUpdate
          flags := yamuxFrameFin
          streamid := 0
          length := 0 }
        ctx

def yamuxStreamReset (i : Nat) (ctx : YamuxContext) : Int × YamuxContext :=
  match ctx.channels[i]? with
  | none => (-einval, ctx)
  | some ch =>
      if ch.closed then (-einval, ctx)
      else
        yamuxWriteFrame net
          { version := yamuxVersion
            type := yamuxFrameWindowUpdate
            flags := yamuxFrameRst
            streamid := ch.channel
            length := 0 }
          (ctx.setChannelState i .closed)

/-- the flag that a frame sent in a state carries, and the state it leads to -/
def YamuxStreamState.flags : YamuxStreamState → UInt16 × YamuxStreamState
  | .inited => (yamuxFrameSyn, .synSent)
  | .synRecv => (yamuxFrameAck, .est)
  | state => (0, state)

def getFlags (context : YamuxHandle) (ctx : YamuxContext) : UInt16 × YamuxContext :=
  match context with
  | .channel i =>
      match ctx.channels[i]? with
      | none => (0, ctx)
      | some ch => (ch.state.flags.1, ctx.setChannelState i ch.state.flags.2)
  | .connection => (ctx.state.flags.1, { ctx with state := ctx.state.flags.2 })

def yamuxStreamWindowUpdate (i : Nat) (delta : Int32) (ctx : YamuxContext) : Int × YamuxContext :=
  match ctx.channels[i]? with
  | none => (-einval, ctx)
  | some ch =>
      if ch.state = .closed ∨ ch.state = .closing ∨ ch.closed then (-einval, ctx)
      else
        yamuxWriteFrame net
          { version := yamuxVersion
            type := yamuxFrameWindowUpdate
            flags := (getFlags (.channel i) ctx).1
            streamid := ch.channel
            length := delta.toUInt32 }
          (getFlags (.channel i) ctx).2

/-! ## data -/

/-- `MIN` -/
def yamuxMin (x y : UInt32) : UInt32 := y ^^^ ((x ^^^ y) &&& (if x < y then -1 else 0))

/-- the frame of one round of `yamux_stream_write` -/
def yamuxDataFrame (flags : UInt16) (id adv : UInt32) : YamuxFrame :=
  { version := yamuxVersion
    type := yamuxFrameData
    flags := flags
    streamid := id
    length := adv }

/-- the rounds of the loop; it is still running when they are used up, as it is for ever when the
window is empty -/
def yamuxStreamWriteLoop (i : Nat) (ws id : UInt32) (dataLength : Nat) :
    Nat → List UInt8 → YamuxContext → Option Int × YamuxContext
  | 0, _, ctx => (none, ctx)
  | rounds + 1, data, ctx =>
      if data = [] then (some dataLength, ctx)
      else
        let adv := yamuxMin (UInt32.ofNat data.length) ws
        let f := yamuxDataFrame (getFlags (.channel i) ctx).1 id adv
        let message := (encodeFrame net.host f).bytes net.host ++ data.take adv.toNat
        let ctx' := (getFlags (.channel i) ctx).2.record [f] message
        if net.write ctx.sent message then
          yamuxStreamWriteLoop i ws id dataLength rounds (data.drop adv.toNat) ctx'
        else (some adv.toNat, ctx')

def yamuxStreamWrite (i : Nat) (data : List UInt8) (rounds : Nat) (ctx : YamuxContext) :
    Option Int × YamuxContext :=
  match ctx.channels[i]? with
  | none => (some (-einval), ctx)
  | some ch =>
      if data = [] then (some (-einval), ctx)
      else yamuxStreamWriteLoop net i ch.windowSize ch.channel data.length rounds data ctx

/-- an odd id is a client's, an even one a server's -/
def libp2pYamuxGetNextId (ctx : YamuxContext) : UInt32 × YamuxContext :=
  let nextid := ctx.session.nextid
  let id := if (ctx.amServer ∧ nextid % 2 = 1) ∨ (¬ ctx.amServer ∧ nextid % 2 = 0) then nextid + 1
    else nextid
  (id, { ctx with session := { ctx.session with nextid := id + 1 } })

/-- the stream id of a message: that of the channel, or the next one -/
def libp2pYamuxStreamid (context : YamuxHandle) (ctx : YamuxContext) : UInt32 × YamuxContext :=
  match context with
  | .connection => libp2pYamuxGetNextId ctx
  | .channel i =>
      match ctx.channels[i]? with
      | none => (0, ctx)
      | some ch => (ch.channel, ctx)

def YamuxHandle.isNull (context : YamuxHandle) (ctx : YamuxContext) : Bool :=
  match context with
  | .connection => false
  | .channel i => ctx.channels[i]?.isNone

/-- the message is in a data frame once yamux is negotiated; `frames` are those in it already -/
def libp2pYamuxWrite (context : YamuxHandle) (frames : List YamuxFrame) (message : List UInt8)
    (ctx : YamuxContext) : Bool × YamuxContext :=
  if context.isNull ctx then (false, ctx)
  else if ctx.state ≠ .est then (net.write ctx.sent message, ctx.record frames message)
  else
    let ctx₁ := (getFlags context ctx).2
    let f := yamuxDataFrame (getFlags context ctx).1 (libp2pYamuxStreamid context ctx₁).1
      (UInt32.ofNat message.length)
    let outgoing := (encodeFrame net.host f).bytes net.host ++ message
    (net.write ctx.sent outgoing,
      (libp2pYamuxStreamid context ctx₁).2.record (f :: frames) outgoing)

/-! ## frames of the session -/

def yamuxPingFrame (value : UInt32) (pong : Bool) : YamuxFrame :=
  { version := yamuxVersion
    type := yamuxFramePing
    flags := if pong then yamuxFrameAck else yamuxFrameSyn
    streamid := yamuxStreamidSession
    length := value }

/-- the frame is not encoded -/
def yamuxSessionPing (value : UInt32) (pong : Bool) (ctx : YamuxContext) : Int × YamuxContext :=
  if ctx.session.closed then (-einval, ctx)
  else
    let f := yamuxPingFrame value pong
    let message := f.bytes net.host
    (if net.write ctx.sent message then yamuxFrameSize else 0, ctx.record [f] message)

def yamuxCloseFrame (err : YamuxError) : YamuxFrame :=
  { version := yamuxVersion
    type := yamuxFrameGoAway
    flags := 0
    streamid := yamuxStreamidSession
    length := err.code }

/-- the frame is not encoded, and is written to the yamux stream -/
def yamuxSessionClose (err : YamuxError) (ctx : YamuxContext) : Int × YamuxContext :=
  if ctx.session.closed then (0, ctx)
  else
    let f := yamuxCloseFrame err
    let out := libp2pYamuxWrite net .connection [f] (f.bytes net.host) ctx.closeSession
    (if out.1 then yamuxFrameSize else 0, out.2)

def yamuxGoAwayFrame (streamid : UInt32) : YamuxFrame :=
  { version := 0
    type := yamuxFrameGoAway
    flags := yamuxFrameFin
    streamid := streamid
    length := 0 }

/-- the stream below that of a channel is the yamux stream -/
def libp2pYamuxSendGoAway (stream : YamuxHandle) (ctx : YamuxContext) : Bool × YamuxContext :=
  match stream with
  | .connection =>
      let f := yamuxGoAwayFrame 0
      (true, ctx.record [f] ((encodeFrame net.host f).bytes net.host))
  | .channel i =>
      match ctx.channels[i]? with
      | none => (false, ctx)
      | some ch =>
          let f := yamuxGoAwayFrame ch.channel
          (true, (libp2pYamuxWrite net .connection [f] ((encodeFrame net.host f).bytes net.host) ctx).2)

def libp2pYamuxChannelSendFIN (i : Nat) (ctx : YamuxContext) : Bool × YamuxContext :=
  match ctx.channels[i]? with
  | none => (false, ctx)
  | some ch =>
      let f : YamuxFrame :=
        { version := 0
          type := yamuxFrameWindowUpdate
          flags := yamuxFrameFin
          streamid := ch.channel
          length := 0 }
      (true, ctx.record [f] ((encodeFrame net.host f).bytes net.host))

end

/-! ## small lemmas -/

section
variable {net : YamuxNet} {ctx : YamuxContext}

theorem yamuxMin_eq (x y : UInt32) : yamuxMin x y = if x < y then x else y := by
  unfold yamuxMin
  split
  · have hones : (x ^^^ y) &&& (-1 : UInt32) = x ^^^ y := UInt32.and_neg_one
    rw [hones, UInt32.xor_comm x y, ← UInt32.xor_assoc, UInt32.xor_self, UInt32.zero_xor]
  · rw [UInt32.and_zero, UInt32.xor_zero]

@[simp] theorem YamuxContext.record_sent (frames : List YamuxFrame) (message : List UInt8) :
    (ctx.record frames message).sent = ctx.sent ++ [{ frames := frames, message := message }] :=
  rfl

@[simp] theorem YamuxContext.setChannelState_sent (i : Nat) (state : YamuxStreamState) :
    (ctx.setChannelState i state).sent = ctx.sent := rfl

@[simp] theorem yamuxWriteFrame_snd (f : YamuxFrame) :
    (yamuxWriteFrame net f ctx).2 =
      ctx.record [f] ((encodeFrame net.host f).bytes net.host) := rfl

@[simp] theorem getFlags_sent (context : YamuxHandle) :
    (getFlags context ctx).2.sent = ctx.sent := by
  unfold getFlags
  split
  · split <;> rfl
  · rfl

@[simp] theorem libp2pYamuxStreamid_sent (context : YamuxHandle) :
    (libp2pYamuxStreamid context ctx).2.sent = ctx.sent := by
  unfold libp2pYamuxStreamid
  split
  · rfl
  · split <;> rfl

end

end Libp2p
