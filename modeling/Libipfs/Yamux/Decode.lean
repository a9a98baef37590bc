import Libipfs.Yamux.Stream

/-!
# What a yamux session does with what it receives

`yamux_decode` and `yamux_stream_process`, with what they call of `yamux.c` and `multistream.c`.

* `yamuxStreamProcess`      a window update or the data behind a frame, for one stream;
* `yamuxStreamFrame`        a frame for a stream of the table;
* `yamuxNewStream`          a frame that opens a stream;
* `yamuxDecode`             an incoming message.

A callback of the session that the library leaves `NULL` is left out, and so is the thread that
reads from the buffer of a channel with a protocol on top.
-/

namespace Libp2p
open CSem

/-! ## the streams below a stream -/

/-- the walk down to the stream of yamux type -/
def NetStream.context : NetStream → Nat
  | .channel _ context => context
  | .over _ parent => parent.context

/-- the walk stops at the channel context, and then `NULL` is returned: the context is only looked
at to go on when there is none -/
def libp2pYamuxGetParentChannelContext : NetStream → Option YamuxHandle
  | .channel _ _ => none
  | .over _ parent => libp2pYamuxGetParentChannelContext parent

theorem libp2pYamuxGetParentChannelContext_eq_none (stream : NetStream) :
    libp2pYamuxGetParentChannelContext stream = none := by
  induction stream with
  | channel number context => rfl
  | «over» number parent ih => exact ih

/-! ## the data behind a frame -/

section
variable (net : YamuxNet)

/-- the bytes go into the buffer of the channel; when nothing is on top of the channel and they make
a message of a known protocol, it is handed to the handlers -/
def YamuxContext.receive (i : Nat) (ch : YamuxChannelContext) (incoming : List UInt8)
    (ctx : YamuxContext) : YamuxContext :=
  let buffer := ch.buffer ++ incoming
  if ¬ ch.childStream ∧ net.isValidProtocol buffer then
    { ctx with
      channels := ctx.channels.modify i fun ch => { ch with buffer := [] }
      marshalled := ctx.marshalled ++ [(i, buffer)] }
  else { ctx with channels := ctx.channels.modify i fun ch => { ch with buffer := buffer } }

/-- a window update adds its length to the window, as a 32-bit number -/
def YamuxFrame.window (f : YamuxFrame) (windowSize : UInt32) : UInt32 :=
  if f.type = yamuxFrameWindowUpdate then windowSize + f.length else windowSize

/-- what is behind a window update is data as well; `stream` is the pointer of the stream record -/
def yamuxStreamProcess (stream : Option NetStream) (f : YamuxFrame) (incoming : List UInt8)
    (ctx : YamuxContext) : Exec (Int × YamuxContext) :=
  if f.type = yamuxFrameWindowUpdate ∨ f.type = yamuxFrameData then
    if incoming.length ≠ f.length.toNat ∧ f.type = yamuxFrameData then .ok (-1, ctx)
    else if incoming = [] then .ok (0, ctx)
    else
      match stream with
      | none => .error .null
      | some stream =>
          match ctx.channels[stream.context]? with
          | none => .ok (-eproto, ctx)
          | some ch => .ok (incoming.length, ctx.receive net stream.context ch incoming)
  else .ok (-eproto, ctx)

/-! ## a frame for a stream of the table -/

/-- the slot is alive, and its stream has that id and is not closed -/
def YamuxSessionStream.isOpen (id : UInt32) (ss : YamuxSessionStream) : Exec Bool :=
  if ss.alive then ss.stream.read >>= fun s => .ok (s.state != .closed && s.id == id)
  else .ok false

/-- what the flags of the frame do to the stream; `none` for `-EPROTO` -/
def yamuxStreamFlags (f : YamuxFrame) (s : YamuxStream) (ctx : YamuxContext) :
    Option (YamuxStreamState × YamuxContext) :=
  if f.hasFlag yamuxFrameRst then some (.closed, ctx)
  else if f.hasFlag yamuxFrameFin then
    let ctx' :=
      if s.state ≠ .closing then
        (yamuxStreamClose net (libp2pYamuxGetParentChannelContext s.stream) ctx).2
      else ctx
    some (.closed, ctx')
  else if f.hasFlag yamuxFrameAck then
    if s.state ≠ .synSent then none else some (.est, ctx)
  else if f.flags ≠ 0 then none
  else some (s.state, ctx)

def YamuxContext.setStream (ctx : YamuxContext) (i : Nat) (s : YamuxStream) : YamuxContext :=
  { ctx with session := ctx.session.setSlot i { stream := .valid s, alive := true } }

def yamuxStreamFrame (i : Nat) (s : YamuxStream) (f : YamuxFrame) (incoming : List UInt8)
    (ctx : YamuxContext) : Exec (Int × YamuxContext) :=
  match yamuxStreamFlags net f s ctx with
  | none => .ok (-eproto, ctx)
  | some (state, ctx') => do
      let s' : YamuxStream := { s with state := state, windowSize := f.window s.windowSize }
      let processed ← yamuxStreamProcess net (some s.stream) f (incoming.drop yamuxFrameSize)
        (ctx'.setStream i s')
      let re := processed.1
      .ok (if re < 0 then re else re + incoming.length, processed.2)

/-! ## a frame that opens a stream -/

/-- `yamux_get_session_stream`: the stream of the slot has that number -/
def YamuxSessionStream.hasNumber (number : UInt32) (ss : YamuxSessionStream) : Exec Bool :=
  ss.stream.read >>= fun s => .ok (s.stream.number == number)

def YamuxSessionStream.putOnTop (stream : NetStream) (ss : YamuxSessionStream) :
    YamuxSessionStream :=
  match ss.stream with
  | .valid s => { ss with stream := .valid { s with stream := stream } }
  | _ => ss

/-- a protocol is put on top of channel `i`, in its context and in the slot of its number -/
def libp2pYamuxHandleUpgrade (i : Nat) (newStream : NetStream) (ctx : YamuxContext) :
    Exec (Bool × YamuxContext) :=
  match ctx.channels[i]? with
  | none => .error .null
  | some ch => do
      let ctx' : YamuxContext :=
        { ctx with channels := ctx.channels.modify i fun ch => { ch with childStream := true } }
      match ← scan (·.hasNumber ch.channel) ctx.session.slots with
      | none => .ok (false, ctx')
      | some k =>
          .ok (true, { ctx' with session :=
            { ctx.session with
              streams := ctx.session.streams.modify k (·.putOnTop newStream)
              cap_le := by
                rw [List.length_modify]
                exact ctx.session.cap_le } })

/-- the id of the multistream protocol behind the varint of its length -/
def multistreamMessage : List UInt8 :=
  19 :: "/multistream/1.0.0\n".toList.map fun c => UInt8.ofNat c.toNat

/-- `libp2p_net_multistream_stream_new` on the stream of channel `i` -/
def libp2pNetMultistreamStreamNew (i : Nat) (number : UInt32) (ctx : YamuxContext) :
    Exec YamuxContext := do
  let upgraded ← libp2pYamuxHandleUpgrade i (.over (net.unset ctx) (.channel number i)) ctx
  .ok (libp2pYamuxWrite net (.channel i) [] multistreamMessage upgraded.2).2

/-- the reply to the window update of a new stream -/
def yamuxAnswerWindow (i : Nat) (f : YamuxFrame) (ctx : YamuxContext) : YamuxContext :=
  if f.type = yamuxFrameWindowUpdate then
    (yamuxStreamWindowUpdate net i (f.window 0).toInt32 ctx).2
  else ctx

/-- the slot with the stream's id for its index is copied, and the copy given a stream record of its
own, which is what the data is processed with: the table keeps the record of `yamux_channel_new` -/
def yamuxNewStream (f : YamuxFrame) (incoming : List UInt8) (ctx : YamuxContext) :
    Exec (Int × YamuxContext) := do
  let created ← yamuxChannelNew f.streamid ctx
  match created.1 with
  | none => .ok (-eproto, created.2)
  | some i => do
      require .outOfBounds (f.streamid.toNat < created.2.session.streams.length)
      let processed ← yamuxStreamProcess net none f (incoming.drop yamuxFrameSize) created.2
      let ctx' ← libp2pNetMultistreamStreamNew net i f.streamid
        (yamuxAnswerWindow net i f (processed.2.setChannelState i .synRecv))
      .ok (0, ctx')

/-! ## an incoming message -/

/-- an even id is opened by a server, an odd one by a client -/
def YamuxContext.opensForUs (ctx : YamuxContext) (id : UInt32) : Bool :=
  (id % 2 == 0 && !ctx.amServer) || (id % 2 == 1 && ctx.amServer)

/-- a frame for the session; without a `pong_fn` the answer to a ping is an error -/
def yamuxSessionFrame (f : YamuxFrame) (ctx : YamuxContext) : Int × YamuxContext :=
  if f.type = yamuxFramePing then
    if f.hasFlag yamuxFrameSyn then (0, (yamuxSessionPing net f.length true ctx).2)
    else (-eproto, ctx)
  else if f.type = yamuxFrameGoAway then (0, ctx.closeSession)
  else (-eproto, ctx)

/-- `yamux_pull_message_from_frame` -/
def yamuxPullMessageFromFrame (incoming : List UInt8) : Option (List UInt8) :=
  if incoming.length ≤ yamuxFrameSize then none else some (incoming.drop yamuxFrameSize)

/-- with the message for the caller, which only a frame that opens a stream leads to -/
def yamuxFrameIn (f : YamuxFrame) (incoming : List UInt8) (ctx : YamuxContext) :
    Exec (Int × Option (List UInt8) × YamuxContext) := do
  match ← scan (·.isOpen f.streamid) ctx.session.slots with
  | some i =>
      match ctx.session.streams[i]? with
      | some { stream := .valid s, alive := _ } => do
          let (re, ctx') ← yamuxStreamFrame net i s f incoming ctx
          .ok (re, none, ctx')
      | _ => .error .null
  | none =>
      if f.hasFlag yamuxFrameSyn then
        if ctx.opensForUs f.streamid then do
          let (re, ctx') ← yamuxNewStream net f incoming ctx
          .ok (re, yamuxPullMessageFromFrame incoming, ctx')
        else .ok (0, yamuxPullMessageFromFrame incoming, ctx)
      else .ok (-eproto, none, ctx)

def yamuxDecode (incoming : List UInt8) (ctx : YamuxContext) :
    Exec (Int × Option (List UInt8) × YamuxContext) :=
  let f := receiveFrame net.host incoming
  if incoming.length < yamuxFrameSize then .ok (0, none, ctx)
  else if f.version ≠ yamuxVersion then .ok (0, none, ctx)
  else if f.streamid = 0 then
    .ok ((yamuxSessionFrame net f ctx).1, none, (yamuxSessionFrame net f ctx).2)
  else yamuxFrameIn net f incoming ctx

end

end Libp2p
