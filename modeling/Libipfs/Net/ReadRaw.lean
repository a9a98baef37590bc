import Libipfs.Lib.Run

/-!
# Raw reads

`libp2p_yamux_read_raw` and `libp2p_secio_read_raw` hand out a message in pieces of the caller's
size.  What is left of a message stays in the context with the position it is read from; after a
piece that leaves something, that position is the size of the piece, wherever the piece began.  The
secio function does not subtract the position from what there is to read, either.

* `readRaw`          both functions, by when they ask for a message and how much they copy;
* `threadsafeBufferRead`, `libp2pYamuxChannelReadRaw`   the same for a channel, from a queue of bytes;
* `Conserved`        what has been returned and what is left make up what is received;
* `TakesRest`        a read that begins inside a message takes all that is left of it;
* `readRaw_holdsAlong_iff`   **nothing is lost, repeated or read beyond a message** iff every read
                     does;
* `rawReads_iff`     the same for each of the two functions, with the sizes that do it.
-/

set_option linter.unusedVariables false

namespace Libp2p
open CSem

/-- what a read of the stream itself gives: a message, none although it succeeds (the frame was for
a channel and has been dealt with), or a failure -/
inductive MessageRead where
  | message (data : List UInt8)
  | handled
  | failed
  deriving DecidableEq, Repr

/-- the fields of a context that a raw read uses, and what the network has for it; the position is
`none` for -1 -/
structure BufferedReader where
  bufferedMessage : Option (List UInt8) := none
  bufferedMessagePos : Option Nat := none
  incoming : List MessageRead
  deriving DecidableEq, Repr

/-! ## the two functions -/

/-- `false` when the stream cannot be read -/
def BufferedReader.fetch (reader : BufferedReader) : Bool × BufferedReader :=
  match reader.incoming with
  | [] => (false, reader)
  | .failed :: incoming => (false, { reader with incoming := incoming })
  | .handled :: incoming =>
    (true, { bufferedMessage := none, bufferedMessagePos := some 0, incoming := incoming })
  | .message data :: incoming =>
    (true, { bufferedMessage := some data, bufferedMessagePos := some 0, incoming := incoming })

/-- a piece is copied, and the position is set behind it as if it had begun at 0 -/
def BufferedReader.copy (reader : BufferedReader) (data : List UInt8) (pos maxToRead : Nat) :
    Exec (Option (List UInt8) × BufferedReader) := do
  require .outOfBounds (pos + maxToRead ≤ data.length)
  let piece := (data.drop pos).take maxToRead
  if pos + maxToRead = data.length then
    .ok (some piece, { reader with bufferedMessage := none, bufferedMessagePos := none })
  else
    .ok (some piece, { reader with bufferedMessagePos := some maxToRead })

/-- the position as an index -/
def BufferedReader.pos (reader : BufferedReader) : Exec Nat :=
  match reader.bufferedMessagePos with
  | none => .error .outOfBounds
  | some pos => .ok pos

/-- `none` for -1 -/
def readRaw (needsMessage : BufferedReader → Bool) (maxToRead : Nat → Nat → Nat → Nat)
    (bufferSize : Nat) (reader : BufferedReader) : Exec (Option (List UInt8) × BufferedReader) :=
  let fetched := if needsMessage reader then reader.fetch else (true, reader)
  if fetched.1 then do
    let data ← deref fetched.2.bufferedMessage
    let pos ← fetched.2.pos
    fetched.2.copy data pos (maxToRead bufferSize data.length pos)
  else .ok (none, fetched.2)

/-- the lesser of what is left and the size of the buffer -/
def yamuxMaxToRead (bufferSize dataSize pos : Nat) : Nat :=
  if dataSize - pos < bufferSize then dataSize - pos else bufferSize

/-- the lesser of the whole message and the size of the buffer -/
def secioMaxToRead (bufferSize dataSize pos : Nat) : Nat :=
  if dataSize < bufferSize then dataSize else bufferSize

/-- on a connection -/
def libp2pYamuxReadRaw : Nat → BufferedReader → Exec (Option (List UInt8) × BufferedReader) :=
  readRaw (fun reader => reader.bufferedMessagePos.isNone || reader.bufferedMessage.isNone)
    yamuxMaxToRead

def libp2pSecioReadRaw : Nat → BufferedReader → Exec (Option (List UInt8) × BufferedReader) :=
  readRaw (fun reader => reader.bufferedMessagePos.isNone) secioMaxToRead

/-- the bytes of the messages that are received -/
def receivedBytes : List MessageRead → List UInt8
  | [] => []
  | .message data :: incoming => data ++ receivedBytes incoming
  | _ :: incoming => receivedBytes incoming

/-- what is left of the message, and what is still to come -/
def BufferedReader.unread (reader : BufferedReader) : List UInt8 :=
  match reader.bufferedMessage, reader.bufferedMessagePos with
  | some data, some pos => data.drop pos ++ receivedBytes reader.incoming
  | _, _ => receivedBytes reader.incoming

/-! ## reads in sequence -/

/-- a context with all that has been returned -/
structure RawReads where
  reader : BufferedReader
  returned : List UInt8 := []
  deriving DecidableEq, Repr

def rawStep (read : Nat → BufferedReader → Exec (Option (List UInt8) × BufferedReader))
    (bufferSize : Nat) (s : RawReads) : Exec RawReads := do
  let (piece, reader) ← read bufferSize s.reader
  .ok { reader := reader, returned := s.returned ++ piece.getD [] }

/-- a new context -/
def rawStart (incoming : List MessageRead) : RawReads := { reader := { incoming := incoming } }

/-- what has been returned, then what is left, is what is received -/
def Conserved (received : List UInt8) (s : RawReads) : Prop :=
  s.returned ++ s.reader.unread = received

/-- a read inside a message takes all that is left, and one that needs a message is given one -/
def TakesRest (maxToRead : Nat → Nat → Nat → Nat) (bufferSize : Nat) (s : RawReads) : Prop :=
  match s.reader.bufferedMessage, s.reader.bufferedMessagePos with
  | some data, some pos => pos = 0 ∨ maxToRead bufferSize data.length pos = data.length - pos
  | _, _ => s.reader.incoming.head? ≠ some .handled

/-- no message, or one that something is left of -/
def BufferedReader.Holds (reader : BufferedReader) : Prop :=
  (reader.bufferedMessage = none ∧ reader.bufferedMessagePos = none) ∨
    ∃ data pos, reader.bufferedMessage = some data ∧ reader.bufferedMessagePos = some pos ∧
      pos < data.length

theorem BufferedReader.Holds.pos_isNone {reader : BufferedReader} (h : reader.Holds) :
    reader.bufferedMessagePos.isNone = reader.bufferedMessage.isNone := by
  rcases h with h | h
  · rw [h.1, h.2]
    rfl
  · obtain ⟨data, pos, hmessage, hpos, -⟩ := h
    rw [hmessage, hpos]
    rfl

section
variable {needsMessage : BufferedReader → Bool} {maxToRead : Nat → Nat → Nat → Nat}
  {bufferSize : Nat} {reader : BufferedReader} {s s' : RawReads} {received data : List UInt8}
  {pos : Nat} {incoming : List MessageRead}

/-- a copy that takes all that is left, or begins at 0 -/
theorem copy_keeps (hmessage : reader.bufferedMessage = some data) (hpos : pos ≤ data.length)
    {n : Nat} (hn : n ≤ data.length - pos) (hrest : pos = 0 ∨ n = data.length - pos) :
    ∃ reader', reader.copy data pos n = .ok (some ((data.drop pos).take n), reader') ∧
      (data.drop pos).take n ++ reader'.unread =
        data.drop pos ++ receivedBytes reader.incoming ∧ reader'.Holds := by
  unfold BufferedReader.copy
  by_cases hlast : pos + n = data.length
  · rw [require_pos (by omega), if_pos hlast]
    refine ⟨_, rfl, ?_, .inl ⟨rfl, rfl⟩⟩
    have htake : (data.drop pos).take n = data.drop pos :=
      List.take_of_length_le (by rw [List.length_drop]; omega)
    rw [htake]
    rfl
  · have hzero : pos = 0 := by omega
    subst hzero
    rw [require_pos (by omega), if_neg hlast]
    refine ⟨_, rfl, ?_, .inr ⟨data, n, hmessage, rfl, by omega⟩⟩
    have hunread : BufferedReader.unread { reader with bufferedMessagePos := some n } =
        data.drop n ++ receivedBytes reader.incoming := by
      unfold BufferedReader.unread
      rw [hmessage]
    rw [hunread, List.drop_zero, ← List.append_assoc, List.take_append_drop]

/-- a read of a message that is there -/
theorem rawStep_held (hmessage : s.reader.bufferedMessage = some data)
    (hpos : s.reader.bufferedMessagePos = some pos) (hneeds : needsMessage s.reader = false) :
    rawStep (readRaw needsMessage maxToRead) bufferSize s =
      s.reader.copy data pos (maxToRead bufferSize data.length pos) >>= fun r =>
        .ok { reader := r.2, returned := s.returned ++ r.1.getD [] } := by
  have hread : readRaw needsMessage maxToRead bufferSize s.reader =
      s.reader.copy data pos (maxToRead bufferSize data.length pos) := by
    have hread : s.reader.pos = .ok pos := by
      unfold BufferedReader.pos
      rw [hpos]
    unfold readRaw
    rw [hneeds]
    show (deref s.reader.bufferedMessage >>= fun data => s.reader.pos >>= fun pos =>
      s.reader.copy data pos (maxToRead bufferSize data.length pos)) = _
    rw [hmessage, hread]
    rfl
  unfold rawStep
  rw [hread]

/-- a read that needs a message, and is given one -/
theorem rawStep_message (hneeds : needsMessage s.reader = true)
    (hincoming : s.reader.incoming = .message data :: incoming) :
    rawStep (readRaw needsMessage maxToRead) bufferSize s =
      BufferedReader.copy ⟨some data, some 0, incoming⟩ data 0
          (maxToRead bufferSize data.length 0) >>= fun r =>
        .ok { reader := r.2, returned := s.returned ++ r.1.getD [] } := by
  unfold rawStep readRaw BufferedReader.fetch
  rw [hneeds, hincoming]
  rfl

variable (hneeds : ∀ reader : BufferedReader, reader.Holds →
    needsMessage reader = reader.bufferedMessage.isNone)
  (hmax : ∀ bufferSize dataSize, maxToRead bufferSize dataSize 0 ≤ dataSize)

include hneeds hmax in
/-- **a read that takes the rest** keeps what is received together -/
theorem rawStep_keeps (h : Conserved received s ∧ s.reader.Holds)
    (hrest : TakesRest maxToRead bufferSize s) :
    ∃ s', rawStep (readRaw needsMessage maxToRead) bufferSize s = .ok s' ∧
      Conserved received s' ∧ s'.reader.Holds := by
  obtain ⟨hconserved, hholds⟩ := h
  have hneed := hneeds _ hholds
  unfold TakesRest at hrest
  unfold Conserved BufferedReader.unread at hconserved
  rcases hholds with hnone | hsome
  · obtain ⟨hmessage, hpos⟩ := hnone
    rw [hmessage] at hneed hrest hconserved
    cases hincoming : s.reader.incoming with
    | nil =>
      have hread : rawStep (readRaw needsMessage maxToRead) bufferSize s =
          .ok ⟨s.reader, s.returned ++ []⟩ := by
        unfold rawStep readRaw BufferedReader.fetch
        rw [hneed, hincoming]
        rfl
      refine ⟨_, hread, ?_, .inl ⟨hmessage, hpos⟩⟩
      unfold Conserved BufferedReader.unread
      rw [hmessage, List.append_nil]
      exact hconserved
    | cons first incoming =>
      rw [hincoming] at hrest hconserved
      cases first with
      | handled => exact absurd rfl hrest
      | failed =>
        have hread : rawStep (readRaw needsMessage maxToRead) bufferSize s =
            .ok ⟨{ s.reader with incoming := incoming }, s.returned ++ []⟩ := by
          unfold rawStep readRaw BufferedReader.fetch
          rw [hneed, hincoming]
          rfl
        refine ⟨_, hread, ?_, .inl ⟨hmessage, hpos⟩⟩
        unfold Conserved BufferedReader.unread
        rw [hmessage, List.append_nil]
        exact hconserved
      | message data =>
        have hmessage' : (⟨some data, some 0, incoming⟩ : BufferedReader).bufferedMessage =
            some data := rfl
        have hn : maxToRead bufferSize data.length 0 ≤ data.length - 0 := hmax _ _
        obtain ⟨reader', hcopy, hbytes, hholds'⟩ := copy_keeps hmessage' (Nat.zero_le _) hn
          (.inl rfl)
        rw [rawStep_message hneed hincoming, hcopy]
        refine ⟨_, rfl, ?_, hholds'⟩
        show s.returned ++ _ ++ reader'.unread = received
        rw [List.append_assoc, Option.getD_some, hbytes]
        exact hconserved
  · obtain ⟨data, pos, hmessage, hpos, hlt⟩ := hsome
    rw [hmessage] at hneed
    rw [hmessage, hpos] at hrest hconserved
    have hn : maxToRead bufferSize data.length pos ≤ data.length - pos := by
      rcases hrest with rfl | hrest
      · exact hmax _ _
      · exact Nat.le_of_eq hrest
    obtain ⟨reader', hcopy, hbytes, hholds'⟩ := copy_keeps hmessage (Nat.le_of_lt hlt) hn hrest
    rw [rawStep_held hmessage hpos hneed, hcopy]
    refine ⟨_, rfl, ?_, hholds'⟩
    show s.returned ++ _ ++ reader'.unread = received
    rw [List.append_assoc, Option.getD_some, hbytes]
    exact hconserved

include hneeds in
/-- **any other read** faults, or leaves the wrong bytes -/
theorem rawStep_breaks (h : Conserved received s ∧ s.reader.Holds)
    (hrest : ¬ TakesRest maxToRead bufferSize s)
    (hread : rawStep (readRaw needsMessage maxToRead) bufferSize s = .ok s') :
    ¬ Conserved received s' := by
  obtain ⟨hconserved, hholds⟩ := h
  have hneed := hneeds _ hholds
  unfold TakesRest at hrest
  unfold Conserved BufferedReader.unread at hconserved
  rcases hholds with hnone | hsome
  · obtain ⟨hmessage, hpos⟩ := hnone
    rw [hmessage] at hneed hrest
    have hhead := not_not.1 hrest
    obtain ⟨incoming, hincoming⟩ := List.head?_eq_some_iff.1 hhead
    unfold rawStep readRaw BufferedReader.fetch at hread
    rw [hneed, hincoming] at hread
    cases hread
  · obtain ⟨data, pos, hmessage, hpos, hlt⟩ := hsome
    rw [hmessage] at hneed
    rw [hmessage, hpos] at hrest hconserved
    obtain ⟨hbegin, hnot⟩ := not_or.1 hrest
    rw [rawStep_held hmessage hpos hneed] at hread
    generalize maxToRead bufferSize data.length pos = n at hread hnot
    unfold BufferedReader.copy at hread
    obtain ⟨r, hr, hread⟩ := bind_eq_ok.1 hread
    obtain ⟨hle, hr⟩ := require_bind_eq_ok.1 hr
    dsimp only at hr
    rw [if_neg (by omega)] at hr
    cases hr
    cases hread
    -- the position was not 0, and is counted once less
    intro hafter
    have hbefore := congrArg List.length hconserved
    unfold Conserved BufferedReader.unread at hafter
    rw [hmessage] at hafter
    have hafter := congrArg List.length hafter
    simp only [Option.getD_some, List.length_append, List.length_take, List.length_drop] at hbefore hafter
    omega

include hneeds hmax in
/-- **nothing is lost, repeated or read beyond a message** iff every read takes the rest -/
theorem readRaw_holdsAlong_iff {sizeOk : Nat → RawReads → Prop}
    (hsize : ∀ bufferSize s, s.reader.Holds →
      (TakesRest maxToRead bufferSize s ↔ sizeOk bufferSize s))
    (incoming : List MessageRead) (bufferSizes : List Nat) :
    HoldsAlong (rawStep (readRaw needsMessage maxToRead)) (Conserved (receivedBytes incoming))
        bufferSizes (rawStart incoming) ↔
      Guarded (rawStep (readRaw needsMessage maxToRead)) sizeOk bufferSizes
        (rawStart incoming) := by
  refine holdsAlong_iff_guarded
    (I := fun s => Conserved (receivedBytes incoming) s ∧ s.reader.Holds) (fun _ h => h.1) ?_ ?_
    ⟨rfl, .inl ⟨rfl, rfl⟩⟩
  · intro bufferSize s h hok
    exact rawStep_keeps hneeds hmax h ((hsize bufferSize s h.2).2 hok)
  · intro bufferSize s s' h hnot hread
    have hrest : ¬ TakesRest maxToRead bufferSize s := by
      rw [hsize bufferSize s h.2]
      exact hnot
    exact rawStep_breaks hneeds h hrest hread

end

/-! ## a channel -/

/-- the bytes and what is left of the buffer -/
def threadsafeBufferRead (buffer : List UInt8) (resultsSize : Nat) : List UInt8 × List UInt8 :=
  let bytesRead := if resultsSize < buffer.length then resultsSize else buffer.length
  (buffer.take bytesRead, buffer.drop bytesRead)

/-- `libp2p_yamux_read_raw` on a channel, when it has waited long enough -/
def libp2pYamuxChannelReadRaw (bufferSize : Nat) (buffer : List UInt8) : List UInt8 × List UInt8 :=
  threadsafeBufferRead buffer bufferSize

/-- the buffer of a channel, with all that has been written to it and returned from it -/
structure ChannelReads where
  buffer : List UInt8 := []
  received : List UInt8 := []
  returned : List UInt8 := []

inductive ChannelRead where
  | receive (data : List UInt8)
  | readRaw (bufferSize : Nat)

def channelReadStep (op : ChannelRead) (s : ChannelReads) : Exec ChannelReads :=
  match op with
  | .receive data =>
    .ok { s with buffer := s.buffer ++ data, received := s.received ++ data }
  | .readRaw bufferSize =>
    let read := libp2pYamuxChannelReadRaw bufferSize s.buffer
    .ok { s with buffer := read.2, returned := s.returned ++ read.1 }

/-- **a channel** loses nothing -/
theorem channelRead_holdsAlong (ops : List ChannelRead) :
    HoldsAlong channelReadStep (fun s => s.returned ++ s.buffer = s.received) ops {} := by
  have hguard : ∀ (ops : List ChannelRead) (s : ChannelReads),
      Guarded channelReadStep (fun _ _ => True) ops s := by
    intro ops
    induction ops with
    | nil => exact fun _ => trivial
    | cons op ops ih => exact fun s => ⟨trivial, fun s' _ => ih s'⟩
  refine holdsAlong_of_step (G := fun _ _ => True) ?_ rfl (hguard ops {})
  intro op s h _
  cases op with
  | receive data =>
    refine ⟨_, rfl, ?_⟩
    show s.returned ++ (s.buffer ++ data) = s.received ++ data
    rw [← h, List.append_assoc]
  | readRaw bufferSize =>
    refine ⟨_, rfl, ?_⟩
    show s.returned ++ s.buffer.take _ ++ s.buffer.drop _ = s.received
    rw [List.append_assoc, List.take_append_drop, h]

/-! ## the sizes -/

/-- inside a message, the rest or more is asked for -/
def YamuxSizeOk (bufferSize : Nat) (s : RawReads) : Prop :=
  match s.reader.bufferedMessage, s.reader.bufferedMessagePos with
  | some data, some pos => pos = 0 ∨ data.length - pos ≤ bufferSize
  | _, _ => s.reader.incoming.head? ≠ some .handled

/-- inside a message, exactly the rest is asked for -/
def SecioSizeOk (bufferSize : Nat) (s : RawReads) : Prop :=
  match s.reader.bufferedMessage, s.reader.bufferedMessagePos with
  | some data, some pos => pos = 0 ∨ bufferSize = data.length - pos
  | _, _ => s.reader.incoming.head? ≠ some .handled

section
variable {bufferSize : Nat} {s : RawReads}

theorem takesRest_yamux : TakesRest yamuxMaxToRead bufferSize s ↔ YamuxSizeOk bufferSize s := by
  have hsize : ∀ size pos, yamuxMaxToRead bufferSize size pos = size - pos ↔
      size - pos ≤ bufferSize := by
    intro size pos
    unfold yamuxMaxToRead
    split
    · omega
    · omega
  unfold TakesRest YamuxSizeOk
  split
  · rw [hsize]
  · rfl

/-- as long as something of the message has been taken, and something is left -/
theorem takesRest_secio (h : s.reader.Holds) :
    TakesRest secioMaxToRead bufferSize s ↔ SecioSizeOk bufferSize s := by
  have hsize : ∀ size pos, 0 < pos → pos < size →
      (secioMaxToRead bufferSize size pos = size - pos ↔ bufferSize = size - pos) := by
    intro size pos hpos hlt
    unfold secioMaxToRead
    split
    · omega
    · omega
  unfold TakesRest SecioSizeOk
  rcases h with h | h
  · rw [h.1]
  · obtain ⟨data, pos, hmessage, hpos, hlt⟩ := h
    rw [hmessage, hpos]
    by_cases hzero : pos = 0
    · exact iff_of_true (.inl hzero) (.inl hzero)
    · show pos = 0 ∨ _ ↔ pos = 0 ∨ _
      rw [hsize data.length pos (by omega) hlt]

end

/-- **the three readers**: on a yamux connection nothing is lost or repeated iff each read inside a
message asks for the rest at least, on a secio stream iff it asks for exactly the rest, and on a
channel never -/
theorem rawReads_iff (incoming : List MessageRead) (bufferSizes : List Nat)
    (ops : List ChannelRead) :
    (HoldsAlong (rawStep libp2pYamuxReadRaw) (Conserved (receivedBytes incoming)) bufferSizes
        (rawStart incoming) ↔
      Guarded (rawStep libp2pYamuxReadRaw) YamuxSizeOk bufferSizes (rawStart incoming)) ∧
    (HoldsAlong (rawStep libp2pSecioReadRaw) (Conserved (receivedBytes incoming)) bufferSizes
        (rawStart incoming) ↔
      Guarded (rawStep libp2pSecioReadRaw) SecioSizeOk bufferSizes (rawStart incoming)) ∧
    HoldsAlong channelReadStep (fun s => s.returned ++ s.buffer = s.received) ops {} := by
  refine ⟨?_, ?_, channelRead_holdsAlong ops⟩
  · apply readRaw_holdsAlong_iff
    · intro reader hholds
      rw [hholds.pos_isNone, Bool.or_self]
    · intro bufferSize dataSize
      unfold yamuxMaxToRead
      split
      · exact Nat.sub_le dataSize 0
      · omega
    · exact fun bufferSize s _ => takesRest_yamux
  · apply readRaw_holdsAlong_iff
    · exact fun reader hholds => hholds.pos_isNone
    · intro bufferSize dataSize
      unfold secioMaxToRead
      split
      · exact Nat.le_refl dataSize
      · omega
    · exact fun bufferSize s h => takesRest_secio h

/-- four bytes in pieces of one: yamux returns the second twice; in two pieces of three secio reads
behind the message -/
theorem not_rawReads :
    (∃ s, runOps (rawStep libp2pYamuxReadRaw) [1, 1, 1] (rawStart [.message [1, 2, 3, 4]]) = .ok s ∧
        ¬ s.returned <+: receivedBytes [.message [1, 2, 3, 4]]) ∧
      runOps (rawStep libp2pSecioReadRaw) [3, 3] (rawStart [.message [1, 2, 3, 4]]) =
        .error .outOfBounds := by
  refine ⟨⟨⟨⟨some [1, 2, 3, 4], some 1, []⟩, [1, 2, 2]⟩, ?_, ?_⟩, ?_⟩
  · decide
  · decide
  · decide

end Libp2p
