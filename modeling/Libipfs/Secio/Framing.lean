import Libipfs.Lib.ByteOrder
import Libipfs.Lib.Transfer
import Mathlib.Data.List.Basic

/-!
# Messages with their size in front

A message goes out behind its size, four bytes in network order, and comes in the same way.  The
socket may take or give only a part of what it is asked for.  The loop that writes the size counts
what is left, and begins each time at the first byte.

* `writeStep`      one `socket_write` of `libp2p_secio_unencrypted_write`;
* `readStep`       one `socket_read` of `libp2p_secio_unencrypted_read`;
* `frame`          the message with its size;
* `sizeLoop_eq`, `dataLoop_eq`   the two loops of the writer, for every sequence of parts;
* `readsFrame`     **the reader** takes the frame and nothing behind it;
* `framed_iff`     **when framing survives** parts.
-/

set_option linter.unusedVariables false

namespace Libp2p
open CSem

/-! ## writing -/

/-- what `send` comes to; `again` for `EAGAIN` and `EWOULDBLOCK` -/
inductive SendResult where
  | accepted (n : Nat)
  | again
  | failed
  deriving DecidableEq

inductive WriteStage where
  | size
  | data
  | done (numBytes : Nat)
  deriving DecidableEq

/-- `wire` is what the socket has taken -/
structure WriteState where
  stage : WriteStage
  left : Int
  written : Nat
  wire : List UInt8
  deriving DecidableEq

/-- `left` bytes from a place on, of which the socket takes some; `none` for an error -/
def socketWrite (bytes : List UInt8) (left : Int) (place : Nat) (result : SendResult) :
    Exec (Option (List UInt8)) :=
  match result with
  | .accepted n => do
    require .outOfBounds (0 ≤ left ∧ place + left ≤ bytes.length)
    .ok (some ((bytes.drop place).take (min n left.toNat)))
  | .again => .ok (some [])
  | .failed => .ok none

/-- the size as the host has it in memory -/
def sizeAsChar (host : ByteOrder) (dataSize : Nat) : List UInt8 :=
  store host 4 (toNetwork host 4 (dataSize % 2 ^ 32))

/-- an empty message is not written -/
def writeStart (msg : List UInt8) : WriteState :=
  if msg.length > 0 then { stage := .size, left := 4, written := 0, wire := [] }
  else { stage := .done 0, left := 0, written := 0, wire := [] }

/-- the loop of the size leaves `written` where it is -/
def writeStep (host : ByteOrder) (msg : List UInt8) (result : SendResult) (s : WriteState) :
    Exec WriteState :=
  match s.stage with
  | .done _ => .ok s
  | .size => do
    match ← socketWrite (sizeAsChar host msg.length) s.left s.written result with
    | none => .ok { s with stage := .done 0 }
    | some taken =>
      let left := s.left - taken.length
      if left > 0 then .ok { s with left := left, wire := s.wire ++ taken }
      else
        .ok { stage := .data, left := toInt32 msg.length, written := 0, wire := s.wire ++ taken }
  | .data => do
    match ← socketWrite msg s.left s.written result with
    | none => .ok { s with stage := .done 0 }
    | some taken =>
      let left := s.left - taken.length
      let written := s.written + taken.length
      .ok { stage := if left > 0 then .data else .done written, left := left, written := written
            wire := s.wire ++ taken }

/-! ## reading -/

inductive Errno where
  | none
  | inProgress
  | again
  | other
  deriving DecidableEq

/-- what `recv` comes to: not more than `n + 1` bytes, 0, or -1 -/
inductive RecvResult where
  | part (n : Nat)
  | nothing (errno : Errno)
  | failed (errno : Errno)
  deriving DecidableEq

inductive ReadStage where
  | size
  | data
  | done (ret : Nat)
  deriving DecidableEq

/-- `incoming` is what the socket still has; `size` and `data` are what has been read of the size
and the message, `bufferSize` is the size of the message -/
structure ReadState where
  stage : ReadStage
  left : Int
  size : List UInt8
  bufferSize : Nat
  data : List UInt8
  timeLeft : Int
  incoming : List UInt8
  shutDown : Bool
  deriving DecidableEq

def readStart (timeoutSecs : Int) (incoming : List UInt8) : ReadState where
  stage := .size
  left := 4
  size := []
  bufferSize := 0
  data := []
  timeLeft := timeoutSecs
  incoming := incoming
  shutDown := false

/-- behind the loop of the size; bytes that have not been read are 0 -/
def sizeRead (host : ByteOrder) (timeoutSecs : Int) (s : ReadState) : ReadState :=
  let bufferSize := toNetwork host 4 (load host (s.size ++ List.replicate (4 - s.size.length) 0))
  if bufferSize = 0 then { s with stage := .done 0 }
  else { s with
    stage := .data, left := toInt32 bufferSize, bufferSize := bufferSize, timeLeft := timeoutSecs }

/-- behind the other loop, or once more in it -/
def dataRead (s : ReadState) : ReadState :=
  if s.left > 0 then s else { s with stage := .done s.bufferSize }

/-- the size is read one byte at a time; a size that is negative as an `int` gets no buffer -/
def readStep (host : ByteOrder) (timeoutSecs : Int) (result : RecvResult) (s : ReadState) :
    Exec ReadState :=
  match s.stage with
  | .done _ => .ok s
  | .size =>
    match result with
    | .part n =>
      match s.incoming with
      | [] => .ok { s with stage := .done 0, shutDown := true }
      | byte :: incoming =>
        let s := { s with left := s.left - 1, size := s.size ++ [byte], incoming := incoming }
        if s.left > 0 then .ok s else .ok (sizeRead host timeoutSecs s)
    | .nothing .inProgress | .failed .inProgress =>
      let s := { s with timeLeft := s.timeLeft - 1 }
      if s.timeLeft = 0 then .ok (sizeRead host timeoutSecs s) else .ok s
    | .nothing .none | .failed .none => .ok { s with stage := .done 0, shutDown := true }
    | _ => .ok { s with stage := .done 0 }
  | .data =>
    match result with
    | .part n => do
      require .null (0 ≤ s.left)
      let piece := s.incoming.take (min (n + 1) s.left.toNat)
      if piece = [] then .ok { s with stage := .done 0 }
      else .ok (dataRead { s with
        left := s.left - piece.length, data := s.data ++ piece
        incoming := s.incoming.drop piece.length })
    | .nothing _ => .ok { s with stage := .done 0 }
    | .failed .inProgress =>
      let s := { s with timeLeft := s.timeLeft - 1 }
      if s.timeLeft = 0 then .ok { s with stage := .done s.bufferSize } else .ok (dataRead s)
    | .failed .again => .ok (dataRead s)
    | .failed _ => .ok { s with stage := .done 0 }

/-! ## what framing is for -/

/-- four bytes of size, the highest first, and the message -/
def frame (msg : List UInt8) : List UInt8 := (leBytes 4 msg.length).reverse ++ msg

def SendResult.amount : SendResult → Nat
  | .accepted n => n
  | _ => 0

/-- a socket that takes parts, or asks to try again, and goes on taking -/
structure Accepting where
  result : Nat → SendResult
  noError : ∀ i, result i ≠ .failed
  live : ∀ i, ∃ j, i ≤ j ∧ 0 < (result j).amount

/-- the frame goes out and its length comes back -/
def WritesFrame (host : ByteOrder) (msg : List UInt8) (sends : Accepting) : Prop :=
  ∃ n s, runFor (writeStep host msg) sends.result n (writeStart msg) = .ok s ∧
    s.stage = .done msg.length ∧ s.wire = frame msg

/-- the message comes in, and what is behind it stays -/
def ReadsFrame (host : ByteOrder) (timeoutSecs : Int) (msg behind : List UInt8)
    (parts : Nat → Nat) : Prop :=
  ∃ n s, runFor (readStep host timeoutSecs) (fun i => .part (parts i)) n
      (readStart timeoutSecs (frame msg ++ behind)) = .ok s ∧
    s.stage = .done msg.length ∧ s.bufferSize = msg.length ∧ s.data = msg ∧ s.incoming = behind

/-- from one side to the other, whatever the parts -/
def Framed (sender receiver : ByteOrder) (timeoutSecs : Int) (msg behind : List UInt8)
    (sends : Accepting) (parts : Nat → Nat) : Prop :=
  WritesFrame sender msg sends ∧ ReadsFrame receiver timeoutSecs msg behind parts

/-- how many bytes of the size have been taken after so many turns -/
def sizeTaken (sends : Accepting) : Nat → Nat := through (fun i => (sends.result i).amount) 4

/-- the bytes of the size that are due at each turn are those it begins with -/
def SizeInOrder (msg : List UInt8) (sends : Accepting) : Prop :=
  ∀ i, (leBytes 4 msg.length).reverse.take (sizeTaken sends (i + 1) - sizeTaken sends i) =
    ((leBytes 4 msg.length).reverse.drop (sizeTaken sends i)).take
      (sizeTaken sends (i + 1) - sizeTaken sends i)

section
variable {host : ByteOrder} {msg behind : List UInt8} {sends : Accepting} {s s' : WriteState}
  {result : SendResult} {i n : Nat}

/-! ## the writer -/

theorem sizeAsChar_eq (host : ByteOrder) (n : Nat) :
    sizeAsChar host n = (leBytes 4 (n % 2 ^ 32)).reverse := store_toNetwork host 4 _

theorem length_sizeAsChar : (sizeAsChar host n).length = 4 := by
  rw [sizeAsChar_eq, List.length_reverse, length_leBytes]

/-- what the socket takes of `left` bytes at a place -/
theorem socketWrite_eq {bytes : List UInt8} {left place : Nat} (h : place + left ≤ bytes.length)
    (hfailed : result ≠ .failed) : socketWrite bytes left place result =
      .ok (some ((bytes.drop place).take (min result.amount left))) := by
  cases result with
  | accepted n =>
    unfold socketWrite
    dsimp only
    rw [require_pos ⟨by omega, by exact_mod_cast h⟩]
    rfl
  | again =>
    show _ = Except.ok (some (List.take (min 0 left) _))
    rw [Nat.zero_min, List.take_zero]
    rfl
  | failed => exact absurd rfl hfailed

theorem length_taken {bytes : List UInt8} {left place k : Nat} (h : place + left ≤ bytes.length) :
    ((bytes.drop place).take (min k left)).length = min k left := by
  rw [List.length_take, List.length_drop]
  omega

/-- the pieces of the size that are taken: each begins at its first byte -/
def sizePiece (host : ByteOrder) (msg : List UInt8) (sends : Accepting) (i : Nat) : List UInt8 :=
  (sizeAsChar host msg.length).take (sizeTaken sends (i + 1) - sizeTaken sends i)

theorem sizeTaken_le (i : Nat) : sizeTaken sends i ≤ 4 := through_le _ 4 i

theorem sizeTaken_succ (i : Nat) : sizeTaken sends (i + 1) - sizeTaken sends i =
    min (sends.result i).amount (4 - sizeTaken sends i) := by
  have h := through_succ_eq (fun i => (sends.result i).amount) 4 i
  unfold sizeTaken
  omega

theorem length_sizePiece (i : Nat) :
    (sizePiece host msg sends i).length = sizeTaken sends (i + 1) - sizeTaken sends i := by
  have hle : sizeTaken sends (i + 1) ≤ 4 := sizeTaken_le (i + 1)
  rw [sizePiece, List.length_take, length_sizeAsChar]
  omega

/-- the left of the size, when the turn has been -/
theorem sizeLeft_succ (i : Nat) : ((4 - sizeTaken sends i : Nat) : Int) -
    (sizeTaken sends (i + 1) - sizeTaken sends i : Nat) = (4 - sizeTaken sends (i + 1) : Nat) := by
  have hmono : sizeTaken sends i ≤ sizeTaken sends (i + 1) := through_le_succ _ 4 i
  have hle : sizeTaken sends (i + 1) ≤ 4 := through_le _ 4 (i + 1)
  omega

/-- **the loop of the size**, as long as it is not through -/
theorem sizeLoop_eq (hmsg : msg ≠ []) (h : ∀ j ≤ i, sizeTaken sends j < 4) :
    runFor (writeStep host msg) sends.result i (writeStart msg) =
      .ok { stage := .size, left := (4 - sizeTaken sends i : Nat), written := 0
            wire := gathered (sizePiece host msg sends) i } := by
  induction i with
  | zero =>
    rw [runFor, writeStart, if_pos (List.length_pos_iff.2 hmsg)]
    rfl
  | succ i ih =>
    have hnext := h (i + 1) (Nat.le_refl _)
    have hdue := @sizeTaken_succ sends i
    have hroom : 0 + (4 - sizeTaken sends i) ≤ (sizeAsChar host msg.length).length := by
      rw [length_sizeAsChar]
      omega
    rw [runFor, ih fun j hj => h j (Nat.le_succ_of_le hj), ok_bind]
    unfold writeStep
    dsimp only
    rw [socketWrite_eq hroom (sends.noError i), ok_bind]
    dsimp only
    rw [length_taken hroom, List.drop_zero, ← hdue, sizeLeft_succ,
      if_pos (show ((4 - sizeTaken sends (i + 1) : Nat) : Int) > 0 by omega)]
    rfl

/-- the turn that brings the last byte of the size -/
theorem sizeLoop_last (hmsg : msg ≠ []) (h : ∀ j ≤ i, sizeTaken sends j < 4)
    (hlast : sizeTaken sends (i + 1) = 4) :
    runFor (writeStep host msg) sends.result (i + 1) (writeStart msg) =
      .ok { stage := .data, left := toInt32 msg.length, written := 0
            wire := gathered (sizePiece host msg sends) (i + 1) } := by
  have hdue := @sizeTaken_succ sends i
  have hroom : 0 + (4 - sizeTaken sends i) ≤ (sizeAsChar host msg.length).length := by
    rw [length_sizeAsChar]
    omega
  rw [runFor, sizeLoop_eq hmsg h, ok_bind]
  unfold writeStep
  dsimp only
  rw [socketWrite_eq hroom (sends.noError i), ok_bind]
  dsimp only
  rw [length_taken hroom, List.drop_zero, ← hdue, sizeLeft_succ,
    if_neg (show ¬ ((4 - sizeTaken sends (i + 1) : Nat) : Int) > 0 by omega)]
  rfl

/-- how many bytes of the message have been taken since the size was -/
def dataTaken (sends : Accepting) (length start : Nat) : Nat → Nat :=
  through (fun i => (sends.result (start + i)).amount) length

theorem dataTaken_le {length start : Nat} (i : Nat) : dataTaken sends length start i ≤ length :=
  through_le _ length i

theorem dataTaken_succ {length start : Nat} (i : Nat) : dataTaken sends length start (i + 1) =
    dataTaken sends length start i +
      min (sends.result (start + i)).amount (length - dataTaken sends length start i) :=
  through_succ_eq _ length i

/-- a turn of the loop of the message, of which `k` bytes are through -/
theorem writeStep_data {k : Nat} {wire : List UInt8} (hk : k ≤ msg.length)
    (hfailed : result ≠ .failed) :
    writeStep host msg result
        { stage := .data, left := (msg.length - k : Nat), written := k, wire := wire } =
      .ok
        { stage := if k + min result.amount (msg.length - k) < msg.length then .data
            else .done (k + min result.amount (msg.length - k))
          left := (msg.length - (k + min result.amount (msg.length - k)) : Nat)
          written := k + min result.amount (msg.length - k)
          wire := wire ++ (msg.drop k).take (min result.amount (msg.length - k)) } := by
  have hroom : k + (msg.length - k) ≤ msg.length := by omega
  unfold writeStep
  dsimp only
  rw [socketWrite_eq hroom hfailed, ok_bind]
  dsimp only
  rw [length_taken hroom]
  generalize hm : min result.amount (msg.length - k) = m
  have hle : m ≤ msg.length - k := hm ▸ Nat.min_le_right _ _
  have hleft : ((msg.length - k : Nat) : Int) - (m : Nat) = (msg.length - (k + m) : Nat) := by omega
  rw [hleft]
  by_cases hmore : k + m < msg.length
  · rw [if_pos (show ((msg.length - (k + m) : Nat) : Int) > 0 by omega), if_pos hmore]
  · rw [if_neg (show ¬ ((msg.length - (k + m) : Nat) : Int) > 0 by omega), if_neg hmore]

/-- **the loop of the message**, as long as it is not through -/
theorem dataLoop_eq {start : Nat} {wire : List UInt8}
    (h : ∀ j ≤ i, dataTaken sends msg.length start j < msg.length) :
    runFor (writeStep host msg) (fun i => sends.result (start + i)) i
        { stage := .data, left := msg.length, written := 0, wire := wire } =
      .ok { stage := .data, left := (msg.length - dataTaken sends msg.length start i : Nat)
            written := dataTaken sends msg.length start i
            wire := wire ++ msg.take (dataTaken sends msg.length start i) } := by
  induction i with
  | zero =>
    rw [runFor, dataTaken, through_zero, List.take_zero, List.append_nil, Nat.sub_zero]
  | succ i ih =>
    have hnext := h (i + 1) (Nat.le_refl _)
    rw [runFor, ih fun j hj => h j (Nat.le_succ_of_le hj), ok_bind,
      writeStep_data (dataTaken_le i) (sends.noError _), ← dataTaken_succ, if_pos hnext,
      List.append_assoc, ← List.take_add, ← dataTaken_succ]

/-- the turn that brings the last of it -/
theorem dataLoop_last {start : Nat} {wire : List UInt8}
    (h : ∀ j ≤ i, dataTaken sends msg.length start j < msg.length)
    (hlast : dataTaken sends msg.length start (i + 1) = msg.length) :
    runFor (writeStep host msg) (fun i => sends.result (start + i)) (i + 1)
        { stage := .data, left := msg.length, written := 0, wire := wire } =
      .ok { stage := .done msg.length, left := (msg.length - msg.length : Nat)
            written := msg.length, wire := wire ++ msg } := by
  rw [runFor, dataLoop_eq h, ok_bind, writeStep_data (dataTaken_le i) (sends.noError _),
    ← dataTaken_succ, hlast, if_neg (Nat.lt_irrefl _), List.append_assoc, ← List.take_add,
    ← dataTaken_succ, hlast, List.take_length]

/-! ### when the frame goes out -/

/-- **the frame goes out** when the parts of the size come in order -/
theorem writesFrame_of_order (hmsg : msg ≠ []) (hlen : msg.length < 2 ^ 31)
    (horder : SizeInOrder msg sends) : WritesFrame host msg sends := by
  obtain ⟨m, hlast, hfirst⟩ := exists_first_through 4 (by decide) sends.live
  have hlive : ∀ i, ∃ j, i ≤ j ∧ 0 < (sends.result (m + 1 + j)).amount := by
    intro i
    obtain ⟨j, hij, hj⟩ := sends.live (m + 1 + i)
    exact ⟨j - (m + 1), by omega, by rwa [Nat.add_sub_cancel' (by omega)]⟩
  obtain ⟨n, hdone, hbefore⟩ := exists_first_through msg.length (List.length_pos_iff.2 hmsg) hlive
  have hsize : sizeAsChar host msg.length = (leBytes 4 msg.length).reverse := by
    rw [sizeAsChar_eq, Nat.mod_eq_of_lt (by omega)]
  have hwire : gathered (sizePiece host msg sends) (m + 1) = (leBytes 4 msg.length).reverse := by
    have hgather := (@gathered_eq_take_iff _ _ _ _ (sizeAsChar host msg.length) length_sizePiece
      (by rw [length_sizeAsChar]) (m + 1)).2 fun j _ => by
        have := horder j
        rw [← hsize] at this
        exact this
    rw [hgather, hlast, List.take_of_length_le (Nat.le_of_eq length_sizeAsChar), hsize]
  have hrun := @sizeLoop_last host msg sends m hmsg hfirst hlast
  rw [hwire, toInt32_natCast_of_lt hlen] at hrun
  exact ⟨m + 1 + (n + 1), _, (runFor_add hrun).trans (dataLoop_last hbefore hdone), rfl, rfl⟩

theorem length_le_of_socketWrite {bytes taken : List UInt8} {left : Int} {place : Nat}
    (h : socketWrite bytes left place result = .ok (some taken)) :
    taken = [] ∨ (taken.length : Int) ≤ left := by
  cases result with
  | accepted n =>
    obtain ⟨⟨h0, -⟩, h⟩ := require_bind_eq_ok.1 h
    cases h
    right
    rw [List.length_take]
    omega
  | again =>
    cases h
    exact .inl rfl
  | failed => cases h

/-- **what a turn can do**: nothing when all is done, the end at an error, and some bytes more of
the size or of the message -/
inductive WriteTurn (msg : List UInt8) (s : WriteState) : WriteState → Prop
  | ended : WriteTurn msg s s
  | failed (hstage : s.stage = .size ∨ s.stage = .data) : WriteTurn msg s { s with stage := .done 0 }
  | size (taken : List UInt8) (hstage : s.stage = .size)
      (htaken : taken = [] ∨ (taken.length : Int) ≤ s.left) (hmore : s.left - taken.length > 0) :
      WriteTurn msg s { s with left := s.left - taken.length, wire := s.wire ++ taken }
  | sizeEnds (taken : List UInt8) (hstage : s.stage = .size)
      (htaken : taken = [] ∨ (taken.length : Int) ≤ s.left) (hends : ¬ s.left - taken.length > 0) :
      WriteTurn msg s
        { stage := .data, left := toInt32 msg.length, written := 0, wire := s.wire ++ taken }
  | data (taken : List UInt8) (hstage : s.stage = .data)
      (htaken : taken = [] ∨ (taken.length : Int) ≤ s.left) :
      WriteTurn msg s
        { stage := if s.left - taken.length > 0 then .data else .done (s.written + taken.length)
          left := s.left - taken.length, written := s.written + taken.length
          wire := s.wire ++ taken }

theorem writeTurn_of_writeStep (h : writeStep host msg result s = .ok s') : WriteTurn msg s s' := by
  unfold writeStep at h
  split at h
  · cases h
    exact .ended
  · next hstage =>
    obtain ⟨taken, htaken, h⟩ := bind_eq_ok.1 h
    cases taken with
    | none =>
      cases h
      exact .failed (.inl hstage)
    | some taken =>
      have hle := length_le_of_socketWrite htaken
      dsimp only at h
      split at h
      · next hmore =>
        cases h
        exact .size taken hstage hle hmore
      · next hends =>
        cases h
        exact .sizeEnds taken hstage hle hends
  · next hstage =>
    obtain ⟨taken, htaken, h⟩ := bind_eq_ok.1 h
    cases taken with
    | none =>
      cases h
      exact .failed (.inr hstage)
    | some taken =>
      cases h
      exact .data taken hstage (length_le_of_socketWrite htaken)

/-- nothing is taken back from the wire -/
theorem prefix_wire (h : writeStep host msg result s = .ok s') : s.wire <+: s'.wire := by
  cases writeTurn_of_writeStep h with
  | ended => exact List.prefix_refl _
  | failed hstage => exact List.prefix_refl _
  | size taken hstage htaken hmore => exact List.prefix_append _ _
  | sizeEnds taken hstage htaken hends => exact List.prefix_append _ _
  | data taken hstage htaken => exact List.prefix_append _ _

/-- not more goes out than the size, and the message as an `int` counts it -/
structure WireBounded (msg : List UInt8) (s : WriteState) : Prop where
  size : s.stage = .size → s.wire.length + s.left = 4 ∧ 0 < s.left
  data : s.stage = .data → s.left + s.written = toInt32 msg.length ∧ s.wire.length = 4 + s.written ∧
    (0 < s.written → 0 < s.left)
  done : ∀ n, s.stage = .done n → s.wire.length ≤ 4 + max 0 (toInt32 msg.length)

/-- before all is done -/
theorem WireBounded.length_le (hs : WireBounded msg s) (hstage : s.stage = .size ∨ s.stage = .data) :
    s.wire.length ≤ 4 + max 0 (toInt32 msg.length) := by
  rcases hstage with hstage | hstage
  · have h := hs.size hstage
    omega
  · have h := hs.data hstage
    omega

theorem wireBounded_writeStep (hs : WireBounded msg s) (h : writeStep host msg result s = .ok s') :
    WireBounded msg s' := by
  cases writeTurn_of_writeStep h with
  | ended => exact hs
  | failed hstage =>
    exact ⟨fun h => (nomatch h), fun h => (nomatch h), fun n _ => hs.length_le hstage⟩
  | size taken hstage htaken hmore =>
    have hlen : (s.wire ++ taken).length = s.wire.length + taken.length := List.length_append
    have hsize := hs.size hstage
    exact ⟨fun _ => ⟨by dsimp only; omega, hmore⟩,
      fun h => (nomatch hstage.symm.trans h), fun n h => (nomatch hstage.symm.trans h)⟩
  | sizeEnds taken hstage htaken hends =>
    -- all four bytes are on the wire
    have hfour : (s.wire ++ taken).length = 4 := by
      have hsize := hs.size hstage
      rw [List.length_append]
      rcases htaken with rfl | hle
      · rw [List.length_nil] at hends
        omega
      · omega
    exact ⟨fun h => (nomatch h), fun _ => ⟨Int.add_zero _, hfour, fun h => (nomatch h)⟩,
      fun n h => (nomatch h)⟩
  | data taken hstage htaken =>
    have hlen : (s.wire ++ taken).length = s.wire.length + taken.length := List.length_append
    have hdata := hs.data hstage
    have hle : (taken.length : Int) = 0 ∨ (taken.length : Int) ≤ s.left := by
      rcases htaken with rfl | hle
      · exact .inl rfl
      · exact .inr hle
    by_cases hmore : s.left - taken.length > 0
    · rw [if_pos hmore]
      exact ⟨fun h => (nomatch h), fun _ => ⟨by push_cast; omega, by dsimp only; omega, fun _ => hmore⟩,
        fun n h => (nomatch h)⟩
    · rw [if_neg hmore]
      exact ⟨fun h => (nomatch h), fun h => (nomatch h), fun n _ => by dsimp only; omega⟩

/-- **only a size that is an `int`** counts all bytes -/
theorem length_lt_of_writesFrame (h : WritesFrame host msg sends) : msg ≠ [] ∧ msg.length < 2 ^ 31 := by
  obtain ⟨n, s, hrun, hstage, hwire⟩ := h
  have hne : msg ≠ [] := by
    rintro rfl
    -- nothing is written of it
    have hkeep := runFor_keeps (P := fun s => s = writeStart []) (fun a s s' hs h => by
      subst hs
      exact (Except.ok.inj h).symm) rfl hrun
    rw [hkeep] at hwire
    cases hwire
  have hstart : WireBounded msg (writeStart msg) := by
    rw [writeStart, if_pos (List.length_pos_iff.2 hne)]
    exact ⟨fun _ => ⟨rfl, by decide⟩, fun h => (nomatch h), fun n h => (nomatch h)⟩
  have hbound := (runFor_keeps (fun a s s' hs h => wireBounded_writeStep hs h) hstart hrun).done _
    hstage
  have hlen : s.wire.length = 4 + msg.length := by
    rw [hwire, frame, List.length_append, List.length_reverse, length_leBytes]
  have hint := (toInt32_bounds msg.length).2
  have hpos := List.length_pos_iff.2 hne
  exact ⟨hne, by omega⟩

/-- **and the parts of the size come in order** then -/
theorem order_of_writesFrame (h : WritesFrame host msg sends) : SizeInOrder msg sends := by
  obtain ⟨hne, hlt⟩ := length_lt_of_writesFrame h
  obtain ⟨n, s, hrun, hstage, hwire⟩ := h
  obtain ⟨m, hlast, hfirst⟩ := exists_first_through 4 (by decide) sends.live
  have hsize : sizeAsChar host msg.length = (leBytes 4 msg.length).reverse := by
    rw [sizeAsChar_eq, Nat.mod_eq_of_lt (by omega)]
  -- the writer was done when the size was through
  have hafter : m + 1 ≤ n := by
    by_contra hlt
    have heq := @sizeLoop_eq host msg sends n hne fun j hj => hfirst j (by omega)
    rw [hrun] at heq
    cases heq
    cases hstage
  obtain ⟨k, rfl⟩ := Nat.exists_eq_add_of_le hafter
  have hthen := @sizeLoop_last host msg sends m hne hfirst hlast
  rw [runFor_add hthen] at hrun
  have hprefix := runFor_keeps (P := fun s => gathered (sizePiece host msg sends) (m + 1) <+: s.wire)
    (fun a s s' hs h => hs.trans (prefix_wire h)) (List.prefix_refl _) hrun
  have hlen := length_gathered (@length_sizePiece host msg sends) (m + 1)
  rw [hlast] at hlen
  have htake := List.prefix_iff_eq_take.1 hprefix
  rw [hwire, frame, ← hsize, hlen, List.take_append_of_le_length (Nat.le_of_eq length_sizeAsChar.symm),
    ← hlast] at htake
  have hpieces := (gathered_eq_take_iff (@length_sizePiece host msg sends)
    (Nat.le_of_eq length_sizeAsChar.symm) (m + 1)).1 htake
  intro i
  rw [← hsize]
  by_cases hi : i < m + 1
  · exact hpieces i hi
  · have hall := through_eq_of_le _ 4 hlast (Nat.le_of_not_lt hi)
    have hnext := through_eq_of_le _ 4 hlast (Nat.le_succ_of_le (Nat.le_of_not_lt hi))
    show List.take (through _ 4 (i + 1) - through _ 4 i) _ = _
    rw [hall, hnext, Nat.sub_self, List.take_zero]
    unfold sizeTaken
    rw [hall, hnext, Nat.sub_self, List.take_zero]

theorem writesFrame_iff : WritesFrame host msg sends ↔
    msg ≠ [] ∧ msg.length < 2 ^ 31 ∧ SizeInOrder msg sends :=
  ⟨fun h => ⟨(length_lt_of_writesFrame h).1, (length_lt_of_writesFrame h).2, order_of_writesFrame h⟩,
    fun h => writesFrame_of_order h.1 h.2.1 h.2.2⟩

end

/-! ## the reader -/

section
variable {host : ByteOrder} {msg behind : List UInt8} {timeoutSecs : Int} {parts : Nat → Nat}
  {i k part : Nat} {s : ReadState}

/-- in the message, with `k` bytes of it read -/
def reading (msg behind size : List UInt8) (timeoutSecs : Int) (k : Nat) : ReadState where
  stage := .data
  left := (msg.length - k : Nat)
  size := size
  bufferSize := msg.length
  data := msg.take k
  timeLeft := timeoutSecs
  incoming := msg.drop k ++ behind
  shutDown := false

/-- **the size**, one byte at a time -/
theorem sizeReads_eq (hmsg : msg ≠ []) (hlen : msg.length < 2 ^ 31) :
    runFor (readStep host timeoutSecs) (fun i => .part (parts i)) 4
        (readStart timeoutSecs (frame msg ++ behind)) =
      .ok (reading msg behind (leBytes 4 msg.length).reverse timeoutSecs 0) := by
  have hpos := List.length_pos_iff.2 hmsg
  have hfour : (leBytes 4 msg.length).reverse.length = 4 := by
    rw [List.length_reverse, length_leBytes]
  have hload := @toNetwork_load 4 msg.length host (by omega)
  obtain ⟨a, b, c, d, hsize⟩ := List.length_eq_four.1 hfour
  rw [frame, hsize]
  rw [hsize] at hload
  have hrun : runFor (readStep host timeoutSecs) (fun i => .part (parts i)) 4
      (readStart timeoutSecs ([a, b, c, d] ++ msg ++ behind)) = .ok (sizeRead host timeoutSecs
        { stage := .size, left := 0, size := [a, b, c, d], bufferSize := 0, data := []
          timeLeft := timeoutSecs, incoming := msg ++ behind, shutDown := false }) := rfl
  have hvalue : toNetwork host 4
      (load host ([a, b, c, d] ++ List.replicate (4 - [a, b, c, d].length) 0)) = msg.length := hload
  rw [hrun]
  unfold sizeRead
  dsimp only
  rw [hvalue, if_neg (by omega), toInt32_natCast_of_lt hlen]
  rfl

/-- a read inside the message -/
theorem readStep_reading {size : List UInt8} (hk : k < msg.length) :
    readStep host timeoutSecs (.part part) (reading msg behind size timeoutSecs k) =
      .ok (dataRead
        (reading msg behind size timeoutSecs (k + min (part + 1) (msg.length - k)))) := by
  generalize hm : min (part + 1) (msg.length - k) = m
  have hpos : 0 < m := by omega
  have hle : m ≤ (msg.drop k).length := by
    rw [List.length_drop]
    omega
  have hpiece : (msg.drop k ++ behind).take m = (msg.drop k).take m :=
    List.take_append_of_le_length hle
  have hlen : ((msg.drop k).take m).length = m := List.length_take_of_le hle
  have hne : (msg.drop k).take m ≠ [] := by
    intro hnil
    rw [hnil] at hlen
    exact absurd hlen (Nat.ne_of_lt hpos)
  rw [List.length_drop] at hle
  have hleft : ((msg.length - k : Nat) : Int) - (m : Nat) = (msg.length - (k + m) : Nat) := by omega
  unfold readStep reading
  dsimp only
  rw [require_pos (Int.natCast_nonneg _), ok_bind, Int.toNat_natCast, hm, hpiece, if_neg hne, hlen,
    hleft, ← List.take_add, List.drop_append_of_le_length (by rw [List.length_drop]; exact hle),
    List.drop_drop]

theorem dataRead_reading_of_lt {size : List UInt8} (hk : k < msg.length) :
    dataRead (reading msg behind size timeoutSecs k) = reading msg behind size timeoutSecs k :=
  if_pos (show ((msg.length - k : Nat) : Int) > 0 by omega)

/-- **the reads of the message**, as long as there is more of it -/
theorem dataReads_eq {size : List UInt8}
    (h : ∀ j ≤ i, through (fun i => parts (4 + i) + 1) msg.length j < msg.length) :
    runFor (readStep host timeoutSecs) (fun i => .part (parts (4 + i))) i
        (reading msg behind size timeoutSecs 0) =
      .ok (reading msg behind size timeoutSecs
        (through (fun i => parts (4 + i) + 1) msg.length i)) := by
  induction i with
  | zero => rfl
  | succ i ih =>
    rw [runFor, ih fun j hj => h j (Nat.le_succ_of_le hj), ok_bind,
      readStep_reading (h i (Nat.le_succ i)), ← through_succ_eq,
      dataRead_reading_of_lt (h (i + 1) (Nat.le_refl _))]

/-- **the reader** takes the frame and nothing behind it -/
theorem readsFrame (hmsg : msg ≠ []) (hlen : msg.length < 2 ^ 31) :
    ReadsFrame host timeoutSecs msg behind parts := by
  have hlive : ∀ i, ∃ j, i ≤ j ∧ 0 < parts (4 + j) + 1 := fun i =>
    ⟨i, Nat.le_refl i, Nat.succ_pos _⟩
  obtain ⟨n, hdone, hbefore⟩ := exists_first_through msg.length (List.length_pos_iff.2 hmsg) hlive
  have hsize := @sizeReads_eq host msg behind timeoutSecs parts hmsg hlen
  have hdata := @dataReads_eq host msg behind timeoutSecs parts n (leBytes 4 msg.length).reverse hbefore
  have hlast := @readStep_reading host msg behind timeoutSecs _ (parts (4 + n))
    (leBytes 4 msg.length).reverse (hbefore n (Nat.le_refl n))
  rw [← through_succ_eq (fun i => parts (4 + i) + 1), hdone] at hlast
  have hend : ¬ ((msg.length - msg.length : Nat) : Int) > 0 := by omega
  refine ⟨4 + (n + 1), _, (runFor_add hsize).trans (runFor_succ_eq_ok.2 ⟨_, hdata, hlast⟩), ?_⟩
  unfold dataRead
  rw [if_neg (show ¬ (reading msg behind _ timeoutSecs msg.length).left > 0 from hend)]
  refine ⟨rfl, rfl, List.take_length, ?_⟩
  show msg.drop msg.length ++ behind = behind
  rw [List.drop_length, List.nil_append]

end

/-! ## from one side to the other -/

/-- **when framing survives** parts: there is something to send, its length is an `int`, and the
bytes of the size that the socket takes at each turn are those the size begins with -/
theorem framed_iff (sender receiver : ByteOrder) (timeoutSecs : Int) (msg behind : List UInt8)
    (sends : Accepting) (parts : Nat → Nat) :
    Framed sender receiver timeoutSecs msg behind sends parts ↔
      msg ≠ [] ∧ msg.length < 2 ^ 31 ∧ SizeInOrder msg sends := by
  constructor
  · exact fun h => writesFrame_iff.1 h.1
  · exact fun h => ⟨writesFrame_iff.2 h, readsFrame h.1 h.2.1⟩

/-- a socket that takes so much at a time -/
def steady (n : Nat) : Accepting where
  result := fun _ => .accepted (n + 1)
  noError := fun _ h => nomatch h
  live := fun i => ⟨i, Nat.le_refl i, Nat.succ_pos n⟩

/-- two bytes of the size at a time: the first two go out twice -/
theorem not_framed : ¬ Framed .little .little 10 [104, 105] [] (steady 1) fun _ => 0 := by
  rintro ⟨hwrites, -⟩
  have horder := order_of_writesFrame hwrites 1
  exact absurd horder (by decide)

end Libp2p
