import Libipfs.Lib.Scan
import Libipfs.Yamux.Frame

/-!
# Yamux sessions

`libp2p/yamux/session.c` and `libp2p/yamux/stream.c`: the table of streams of a connection, and the
contexts of its channels. A stream has two records, the `yamux_stream` that its slot of the table
points to and the `YamuxChannelContext` that its user holds.

* `YamuxContext`      a connection: the session with its table, the channel contexts, and what has
                      been written to the connection below;
* `yamuxSessionNew`, `yamuxContextNew`   a new connection;
* `yamuxTakeSlot`, `yamuxChannelNew`     a new stream, local or remote;
* `yamuxStreamFree`   a stream is given up;
* `yamuxTakeSlot_eq_some`   what a creation does to the table.

A pointer to a channel context is its index; an index that is not there stands for `NULL`.
-/

namespace Libp2p
open CSem

/-- `enum yamux_stream_state` -/
inductive YamuxStreamState where
  | inited
  | synSent
  | synRecv
  | est
  | closing
  | closed
  deriving DecidableEq, Repr

structure YamuxChannelContext where
  channel : UInt32
  windowSize : UInt32
  state : YamuxStreamState
  closed : Bool
  buffer : List UInt8
  /-- a protocol has been put on top of the channel -/
  childStream : Bool
  deriving DecidableEq, Repr

/-- a `struct Stream` with the streams below it, down to that of a channel context; `number` is the
`channel` of the struct, which is not set for a protocol's stream -/
inductive NetStream where
  | channel (number : UInt32) (context : Nat)
  | over (number : UInt32) (parent : NetStream)
  deriving DecidableEq, Repr

def NetStream.number : NetStream → UInt32
  | .channel number _ => number
  | .over number _ => number

/-- the stream of a slot; its channel has been made with it -/
structure YamuxStream where
  id : UInt32
  state : YamuxStreamState
  windowSize : UInt32
  stream : NetStream
  deriving DecidableEq, Repr

/-- the memory behind the pointer of a slot -/
inductive StreamCell where
  | unset
  | freed
  | valid (s : YamuxStream)
  deriving DecidableEq, Repr

structure YamuxSessionStream where
  stream : StreamCell
  alive : Bool
  deriving DecidableEq, Repr

/-- the session; the table has a slot for each stream of `config->accept_backlog` -/
structure YamuxSession where
  numStreams : UInt64
  capStreams : Nat
  streams : List YamuxSessionStream
  nextid : UInt32
  closed : Bool
  cap_le : capStreams ≤ streams.length
  deriving DecidableEq, Repr

/-- a message as the connection was given it, with the frames that its senders set -/
structure Sent where
  frames : List YamuxFrame
  message : List UInt8
  deriving DecidableEq, Repr

structure YamuxContext where
  session : YamuxSession
  amServer : Bool
  state : YamuxStreamState
  channels : List YamuxChannelContext
  sent : List Sent
  /-- what has been handed to the protocol handlers, with its channel -/
  marshalled : List (Nat × List UInt8)
  deriving DecidableEq, Repr

/-- what is around the connection: the host's byte order, whether a write succeeds, whether a
message starts a known protocol, and what a field that nobody has set holds -/
structure YamuxNet where
  host : ByteOrder
  write : List Sent → List UInt8 → Bool
  isValidProtocol : List UInt8 → Bool
  unset : YamuxContext → UInt32

/-- a host of the usual byte order on a connection that takes every message -/
def littleNet : YamuxNet :=
  { host := .little
    write := fun _ _ => true
    isValidProtocol := fun _ => false
    unset := fun _ => 0 }

def einval : Int := 22
def eproto : Int := 71

def yamuxDefaultWindow : UInt32 := 0x100 * 0x400

/-! ## the table -/

def YamuxSession.acceptBacklog (session : YamuxSession) : Nat := session.streams.length

/-- the slots that are in use or have been -/
def YamuxSession.slots (session : YamuxSession) : List YamuxSessionStream :=
  session.streams.take session.capStreams

def YamuxSession.setSlot (session : YamuxSession) (i : Nat) (ss : YamuxSessionStream) :
    YamuxSession :=
  { session with
    streams := session.streams.set i ss
    cap_le := by
      rw [List.length_set]
      exact session.cap_le }

def StreamCell.read : StreamCell → Exec YamuxStream
  | .unset => .error .uninitialized
  | .freed => .error .freed
  | .valid s => .ok s

@[simp] theorem StreamCell.read_valid (s : YamuxStream) : (StreamCell.valid s).read = .ok s := rfl

theorem StreamCell.read_eq_ok {cell : StreamCell} {s : YamuxStream} :
    cell.read = .ok s ↔ cell = .valid s := by
  cases cell <;> simp [StreamCell.read]

def yamuxSessionNew (acceptBacklog : Nat) (server : Bool) : YamuxSession :=
  { numStreams := 0
    capStreams := 0
    streams := List.replicate acceptBacklog { stream := .unset, alive := false }
    nextid := if server then 2 else 1
    closed := false
    cap_le := Nat.zero_le _ }

def yamuxContextNew (acceptBacklog : Nat) (server : Bool) : YamuxContext :=
  { session := yamuxSessionNew acceptBacklog server
    amServer := server
    state := .inited
    channels := []
    sent := []
    marshalled := [] }

/-! ## a new stream -/

/-- the slot of a stream that is gone; none is looked for when the counter says that all are taken -/
def YamuxSession.deadSlot (session : YamuxSession) : Option Nat :=
  if session.numStreams = UInt64.ofNat session.capStreams then none
  else session.slots.findIdx? fun ss => !ss.alive

/-- one more slot of the table is used -/
def YamuxSession.grow (session : YamuxSession) (h : session.capStreams < session.streams.length) :
    YamuxSession :=
  { session with capStreams := session.capStreams + 1, cap_le := h }

/-- the slot of a new stream; that of a dead one is used again with the memory it points to -/
def yamuxTakeSlot (session : YamuxSession) : Exec (Option (Nat × YamuxSession)) :=
  match session.deadSlot with
  | some i =>
      match session.streams[i]? with
      | none => .error .outOfBounds
      | some ss => do
        let _ ← ss.stream.read
        .ok (some (i, session))
  | none =>
      if h : session.capStreams < session.streams.length then
        if session.streams[session.capStreams].alive then .ok none
        else .ok (some (session.capStreams, session.grow h))
      else .ok none

/-- `libp2p_yamux_channel_stream_new` and what `yamux_channel_new` sets behind it -/
def YamuxChannelContext.new (id : UInt32) : YamuxChannelContext :=
  { channel := id
    windowSize := 0
    state := .inited
    closed := false
    buffer := []
    childStream := false }

def YamuxStream.new (id : UInt32) (context : Nat) : YamuxStream :=
  { id := id
    state := .inited
    windowSize := yamuxDefaultWindow
    stream := .channel id context }

/-- the id of a new stream, the next one of the session when none is given -/
def YamuxSession.takeId (session : YamuxSession) (id : UInt32) : UInt32 × YamuxSession :=
  if id = 0 then (session.nextid, { session with nextid := session.nextid + 2 })
  else (id, session)

/-- the new stream in its slot, and its channel -/
def YamuxContext.addChannel (ctx : YamuxContext) (id : UInt32) (i : Nat)
    (session : YamuxSession) : YamuxContext :=
  { ctx with
    session := session.setSlot i
      { stream := .valid (.new id ctx.channels.length), alive := true }
    channels := ctx.channels ++ [.new id] }

def yamuxChannelNew (id : UInt32) (ctx : YamuxContext) : Exec (Option Nat × YamuxContext) := do
  match ← yamuxTakeSlot (ctx.session.takeId id).2 with
  | none => .ok (none, { ctx with session := (ctx.session.takeId id).2 })
  | some (i, session) =>
    .ok (some ctx.channels.length, ctx.addChannel (ctx.session.takeId id).1 i session)

/-! ## a stream is given up -/

/-- the slot is alive and has a stream of that id -/
def YamuxSessionStream.hasId (id : UInt32) (ss : YamuxSessionStream) : Exec Bool :=
  if ss.alive then ss.stream.read >>= fun s => .ok (s.id == id) else .ok false

/-- the slot dies: the counter goes down, and the last slot is given back -/
def YamuxSession.dropSlot (session : YamuxSession) (i : Nat) : YamuxSession :=
  { session with
    numStreams := session.numStreams - 1
    capStreams := if i = session.capStreams - 1 then session.capStreams - 1 else session.capStreams
    streams := session.streams.modify i fun ss => { ss with alive := false }
    cap_le := by
      have h := session.cap_le
      rw [List.length_modify]
      split <;> omega }

/-- `free` of the stream of slot `j` -/
def YamuxSession.freeCell (session : YamuxSession) (j : Nat) : YamuxSession :=
  { session with
    streams := session.streams.modify j fun ss => { ss with stream := .freed }
    cap_le := by
      rw [List.length_modify]
      exact session.cap_le }

/-- the stream is that of slot `j`; the slot that dies is the first with a stream of its id -/
def yamuxStreamFree (j : Nat) (session : YamuxSession) : Exec YamuxSession :=
  match session.streams[j]? with
  | none => .error .outOfBounds
  | some ss => do
    let s ← ss.stream.read
    match ← scan (·.hasId s.id) session.slots with
    | none => .ok (session.freeCell j)
    | some i => .ok ((session.dropSlot i).freeCell j)

/-! ## what a creation does to the table -/

section
variable {session session' : YamuxSession} {ctx ctx' : YamuxContext} {id : UInt32} {i : Nat}

theorem YamuxSession.deadSlot_eq_some (h : session.deadSlot = some i) :
    i < session.capStreams ∧ ∃ ss, session.streams[i]? = some ss ∧ ss.alive = false := by
  unfold YamuxSession.deadSlot at h
  split at h
  · cases h
  · obtain ⟨hi, hdead, -⟩ := List.findIdx?_eq_some_iff_getElem.1 h
    have hlen : session.slots.length = session.capStreams := by
      unfold YamuxSession.slots
      rw [List.length_take, Nat.min_eq_left session.cap_le]
    have hcap : i < session.capStreams := by omega
    have hi' : i < session.streams.length := lt_of_lt_of_le hcap session.cap_le
    have hslot : session.slots[i] = session.streams[i] := by
      unfold YamuxSession.slots
      exact List.getElem_take
    refine ⟨hcap, session.streams[i], List.getElem?_eq_getElem _, ?_⟩
    rw [hslot] at hdead
    simpa using hdead

theorem YamuxSession.deadSlot_first (h : session.deadSlot = some i) {j : Nat}
    {ss : YamuxSessionStream} (hj : j < i) (hss : session.slots[j]? = some ss) :
    ss.alive = true := by
  unfold YamuxSession.deadSlot at h
  split at h
  · cases h
  · obtain ⟨hi, hdead, hbefore⟩ := List.findIdx?_eq_some_iff_getElem.1 h
    obtain ⟨hlt, hget⟩ := List.getElem?_eq_some_iff.1 hss
    have hnot := hbefore j hj
    rw [hget] at hnot
    simpa using hnot

/-- a creation takes a dead slot whose memory is there, or the next one of the table -/
theorem yamuxTakeSlot_eq_some (h : yamuxTakeSlot session = .ok (some (i, session'))) :
    (∃ ss s, session.streams[i]? = some ss ∧ ss.alive = false ∧ ss.stream = .valid s ∧
        i < session.capStreams ∧ session' = session) ∨
      (∃ hlt : session.capStreams < session.streams.length, i = session.capStreams ∧
        session.streams[i]?.map YamuxSessionStream.alive = some false ∧
        session' = session.grow hlt) := by
  unfold yamuxTakeSlot at h
  cases hdead : session.deadSlot with
  | some k =>
    obtain ⟨hk, ss, hss, halive⟩ := YamuxSession.deadSlot_eq_some hdead
    rw [hdead] at h
    simp only [hss] at h
    obtain ⟨s, hs, h⟩ := bind_eq_ok.1 h
    obtain ⟨rfl, rfl⟩ := Prod.mk.inj (Option.some.inj (Except.ok.inj h))
    exact .inl ⟨ss, s, hss, halive, StreamCell.read_eq_ok.1 hs, hk, rfl⟩
  | none =>
    rw [hdead] at h
    dsimp only at h
    split at h
    · rename_i hlt
      split at h
      · cases h
      · rename_i halive
        obtain ⟨rfl, rfl⟩ := Prod.mk.inj (Option.some.inj (Except.ok.inj h))
        refine .inr ⟨hlt, rfl, ?_, rfl⟩
        rw [List.getElem?_eq_getElem hlt]
        simpa using halive
    · cases h

end

end Libp2p
