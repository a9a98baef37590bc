import Libipfs.Protobuf.Varint

/-!
# Multistream messages

A message is written with a varint of its length in front.  It is read with one raw read for each
byte of the varint, and one for the body, which has to give all of it at once.

* `ParentStream`     the stream below: the bytes it has, and how many each call of its `read_raw` gives
                     at most;
* `libp2pNetMultistreamWrite`, `libp2pNetMultistreamRead`   the two functions;
* `FramesRoundTrip`  the messages written come back one by one, and nothing else is read;
* `BodiesWhole`      each body is given by the call that asks for it;
* `libp2pNetMultistreamRead_frame`   reading one message;
* `framesRoundTrip_iff`   **the messages come back** iff their bodies are given whole.
-/

namespace Libp2p
open CSem

/-! ## writing -/

/-- `none` when there is no memory -/
def libp2pNetMultistreamPrepareToSend (incoming : List UInt8) : Exec (Option (List UInt8)) := do
  let varint ← varintEncode incoming.length 12
  .ok (if ptrdiffMax < varint.length + incoming.length then none else some (varint ++ incoming))

/-- the number of bytes written and what the stream below has been given; it takes all of it -/
def libp2pNetMultistreamWriteWithoutCheck (incoming sent : List UInt8) :
    Exec (Int × List UInt8) :=
  if 0 < incoming.length then do
    let out ← libp2pNetMultistreamPrepareToSend incoming
    let out ← deref out
    let numBytes := toInt32 out.length
    -- the varint does not count when all went well
    let numBytes := if toUInt64 numBytes = out.length then toInt32 incoming.length else numBytes
    .ok (numBytes, sent ++ out)
  else .ok (0, sent)

/-- `ready` when the protocol has been negotiated -/
def libp2pNetMultistreamWrite (ready : Bool) (incoming sent : List UInt8) :
    Exec (Int × List UInt8) :=
  if ready then libp2pNetMultistreamWriteWithoutCheck incoming sent else .ok (0, sent)

/-- messages, one call after the other -/
def writeMessages : List (List UInt8) → List UInt8 → Exec (List UInt8)
  | [], sent => .ok sent
  | message :: messages, sent => do
    let (_, sent) ← libp2pNetMultistreamWrite true message sent
    writeMessages messages sent

/-! ## reading -/

/-- the bytes the stream has, and how often it has been read -/
structure ParentStream where
  incoming : List UInt8
  calls : Nat := 0
  deriving DecidableEq, Repr

section
variable (more : Nat → Nat)

/-- `read_raw` of the stream below: one byte, and in each call up to `more` others; `none` for -1 -/
def ParentStream.readRaw (bufferSize : Int) (parent : ParentStream) :
    Option (List UInt8) × ParentStream :=
  if parent.incoming = [] then (none, { parent with calls := parent.calls + 1 })
  else
    let count := min bufferSize.toNat (1 + more parent.calls)
    (some (parent.incoming.take count),
      { incoming := parent.incoming.drop count, calls := parent.calls + 1 })

/-- the loop over the bytes of the varint; a byte that is not given is 0 -/
def readVarint : Nat → List UInt8 → ParentStream → Exec (Option Nat × ParentStream)
  | 0, _, parent => .ok (some 0, parent)
  | rounds + 1, varint, parent =>
    match parent.readRaw more 1 with
    | (none, parent) => .ok (none, parent)
    | (some bytes, parent) =>
      let varint := varint ++ [bytes.headD 0]
      if (bytes.headD 0).toNat < 128 then do
        let (numBytesRequested, _) ← varintDecode varint.length varint
        .ok (some numBytesRequested, parent)
      else readVarint rounds varint parent

/-- `none` when the function returns 0 -/
def libp2pNetMultistreamRead (parent : ParentStream) :
    Exec (Option (List UInt8) × ParentStream) := do
  let (requested, parent) ← readVarint more 12 [] parent
  match requested with
  | none => .ok (none, parent)
  | some numBytesRequested =>
    if numBytesRequested = 0 then .ok (none, parent)
    else if ptrdiffMax < numBytesRequested then .error .null
    else
      match parent.readRaw more (toInt32 numBytesRequested) with
      | (none, parent) => .ok (none, parent)
      | (some bytes, parent) =>
        .ok (if bytes.length = numBytesRequested then some bytes else none, parent)

/-- `n` messages, as long as there is one -/
def readMessages : Nat → ParentStream → Exec (Option (List (List UInt8)) × ParentStream)
  | 0, parent => .ok (some [], parent)
  | n + 1, parent => do
    match ← libp2pNetMultistreamRead more parent with
    | (none, parent) => .ok (none, parent)
    | (some message, parent) => do
      let (messages, parent) ← readMessages n parent
      .ok (messages.map (message :: ·), parent)

/-- the messages that are written are read, and the bytes behind them are left -/
def FramesRoundTrip (calls : Nat) (messages : List (List UInt8)) (rest : List UInt8) : Prop :=
  ∃ sent parent, writeMessages messages [] = .ok sent ∧
    readMessages more messages.length { incoming := sent ++ rest, calls := calls } =
      .ok (some messages, parent) ∧ parent.incoming = rest

/-- the call that asks for a body gives all of it -/
def BodiesWhole : Nat → List (List UInt8) → Prop
  | _, [] => True
  | calls, message :: messages =>
    message.length ≤ 1 + more (calls + (varintBytes message.length).length) ∧
      BodiesWhole (calls + (varintBytes message.length).length + 1) messages

end

/-- the varint of the length, and the message -/
def multistreamFrame (message : List UInt8) : List UInt8 :=
  varintBytes message.length ++ message

section
variable {more : Nat → Nat} {message rest sent : List UInt8} {messages : List (List UInt8)}
  {calls : Nat}

theorem writeMessages_eq (hm : ∀ message ∈ messages, message ≠ [] ∧ message.length < 2 ^ 31) :
    writeMessages messages sent = .ok (sent ++ messages.flatMap multistreamFrame) := by
  induction messages generalizing sent with
  | nil =>
    rw [List.flatMap_nil, List.append_nil]
    rfl
  | cons message messages ih =>
    obtain ⟨hne, hlt⟩ := hm message List.mem_cons_self
    have hpos : 0 < message.length := List.length_pos_iff.2 hne
    have hvarint := varintBytes_length_le message.length
    have hencode : varintEncode message.length 12 = .ok (varintBytes message.length) :=
      varintEncode_of_le (by omega) (by omega) (by norm_num)
    have hroom : ¬ ptrdiffMax < (varintBytes message.length).length + message.length := by
      unfold ptrdiffMax
      omega
    have hprepare : libp2pNetMultistreamPrepareToSend message =
        .ok (some (multistreamFrame message)) := by
      unfold libp2pNetMultistreamPrepareToSend
      rw [hencode, ok_bind, if_neg hroom]
      rfl
    have hrest : ∀ m ∈ messages, m ≠ [] ∧ m.length < 2 ^ 31 :=
      fun m h => hm m (List.mem_cons_of_mem _ h)
    unfold writeMessages libp2pNetMultistreamWrite libp2pNetMultistreamWriteWithoutCheck
    rw [if_pos rfl, if_pos hpos, hprepare]
    show writeMessages messages (sent ++ multistreamFrame message) = _
    rw [ih hrest, List.flatMap_cons, List.append_assoc]

/-! ## one message -/

theorem ParentStream.readRaw_one (b : UInt8) :
    ParentStream.readRaw more 1 ⟨b :: rest, calls⟩ = (some [b], ⟨rest, calls + 1⟩) := by
  have hcount : min (1 : Int).toNat (1 + more calls) = 1 := by
    show min 1 (1 + more calls) = 1
    omega
  unfold ParentStream.readRaw
  rw [if_neg (List.cons_ne_nil b rest)]
  dsimp only
  rw [hcount]
  rfl

/-- the varint is read up to its end -/
theorem readVarint_eq {k rounds n : Nat} {varint : List UInt8} (hk : 0 < k) (hn : n < 128 ^ k)
    (hrounds : k ≤ rounds) :
    readVarint more rounds varint ⟨varintBytesFrom k n ++ rest, calls⟩ =
      varintDecode (varint ++ varintBytesFrom k n).length (varint ++ varintBytesFrom k n) >>=
        fun r => .ok (some r.1, ⟨rest, calls + (varintBytesFrom k n).length⟩) := by
  induction k generalizing rounds n varint calls with
  | zero => omega
  | succ k ih =>
    obtain ⟨rounds, rfl⟩ : ∃ j, rounds = j + 1 := ⟨rounds - 1, by omega⟩
    rw [varintBytesFrom_succ]
    by_cases hlast : n < 128
    · have hbyte : (UInt8.ofNat n).toNat < 128 := by
        rw [UInt8.toNat_ofNat_of_lt' (by omega : n < 256)]
        exact hlast
      rw [if_pos hlast]
      unfold readVarint
      rw [List.singleton_append, ParentStream.readRaw_one]
      show (if (UInt8.ofNat n).toNat < 128 then _ else _) = _
      rw [if_pos hbyte]
      rfl
    · have hbyte : ¬ (UInt8.ofNat (n % 128 + 128)).toNat < 128 := by
        rw [UInt8.toNat_ofNat_of_lt' (by omega : n % 128 + 128 < 256)]
        omega
      have hdiv : n / 128 < 128 ^ k := by
        rw [Nat.div_lt_iff_lt_mul (by norm_num)]
        rwa [pow_succ] at hn
      have hk' : 0 < k := by
        rcases Nat.eq_zero_or_pos k with rfl | hk'
        · rw [pow_zero] at hdiv
          omega
        · exact hk'
      have hrounds : k ≤ rounds := by omega
      rw [if_neg hlast]
      unfold readVarint
      rw [List.cons_append, ParentStream.readRaw_one]
      show (if (UInt8.ofNat (n % 128 + 128)).toNat < 128 then _ else _) = _
      rw [if_neg hbyte]
      show readVarint more rounds (varint ++ [UInt8.ofNat (n % 128 + 128)]) _ = _
      rw [ih hk' hdiv hrounds, List.append_assoc, List.singleton_append, List.length_cons,
        Nat.add_assoc, Nat.add_comm 1]

/-- the body, as far as the call gives it -/
theorem ParentStream.readRaw_body (hne : message ≠ []) (hlt : message.length < 2 ^ 31) :
    ParentStream.readRaw more (toInt32 message.length) ⟨message ++ rest, calls⟩ =
      (some (message.take (min message.length (1 + more calls))),
        ⟨(message ++ rest).drop (min message.length (1 + more calls)), calls + 1⟩) := by
  have hincoming : message ++ rest ≠ [] := by
    intro h
    exact hne (List.append_eq_nil_iff.1 h).1
  unfold ParentStream.readRaw
  rw [if_neg hincoming, toInt32_natCast_of_lt hlt]
  dsimp only
  rw [Int.toNat_natCast, List.take_append_of_le_length (Nat.min_le_left _ _)]

/-- **reading one message** -/
theorem libp2pNetMultistreamRead_frame (hne : message ≠ []) (hlt : message.length < 2 ^ 31) :
    libp2pNetMultistreamRead more ⟨multistreamFrame message ++ rest, calls⟩ =
      .ok (if message.length ≤ 1 + more (calls + (varintBytes message.length).length)
          then some message else none,
        ⟨(message ++ rest).drop
            (min message.length (1 + more (calls + (varintBytes message.length).length))),
          calls + (varintBytes message.length).length + 1⟩) := by
  have hpos : 0 < message.length := List.length_pos_iff.2 hne
  have hdecode : varintDecode (varintBytes message.length).length (varintBytes message.length) =
      .ok (message.length, (varintBytes message.length).length) := by
    have hfit : varintFits (varintBytes message.length).length
        (varintBytes message.length).length := varintFits_of_le (Int.le_refl _)
    have hlen : message.length < 2 ^ 64 := by omega
    have h := @varintDecode_varintBytes _ _ [] hlen hfit
    rwa [List.append_nil] at h
  have hvarint : readVarint more 12 [] ⟨multistreamFrame message ++ rest, calls⟩ =
      .ok (some message.length,
        ⟨message ++ rest, calls + (varintBytes message.length).length⟩) := by
    have h := @readVarint_eq more (message ++ rest) calls 10 12 message.length [] (by norm_num)
      (by norm_num; omega) (by norm_num)
    rw [List.nil_append] at h
    rw [multistreamFrame, List.append_assoc]
    refine h.trans ?_
    show (varintDecode (varintBytes message.length).length (varintBytes message.length) >>= _) = _
    rw [hdecode]
    rfl
  have hmalloc : ¬ ptrdiffMax < message.length := by
    unfold ptrdiffMax
    omega
  unfold libp2pNetMultistreamRead
  rw [hvarint, ok_bind]
  dsimp only
  rw [if_neg (by omega), if_neg hmalloc, ParentStream.readRaw_body hne hlt]
  dsimp only
  rw [List.length_take]
  by_cases hwhole : message.length ≤ 1 + more (calls + (varintBytes message.length).length)
  · rw [if_pos (by omega), if_pos hwhole, List.take_of_length_le (by omega)]
  · rw [if_neg (by omega), if_neg hwhole]

/-! ## the round trip -/

/-- messages are read up to the first whose body is not given whole -/
theorem readMessages_frames (hm : ∀ message ∈ messages, message ≠ [] ∧ message.length < 2 ^ 31) :
    (∃ parent, readMessages more messages.length
        ⟨messages.flatMap multistreamFrame ++ rest, calls⟩ = .ok (some messages, parent) ∧
          parent.incoming = rest) ↔ BodiesWhole more calls messages := by
  induction messages generalizing calls with
  | nil => exact iff_of_true ⟨_, rfl, rfl⟩ trivial
  | cons message messages ih =>
    obtain ⟨hne, hlt⟩ := hm message List.mem_cons_self
    have hrest : ∀ m ∈ messages, m ≠ [] ∧ m.length < 2 ^ 31 :=
      fun m h => hm m (List.mem_cons_of_mem _ h)
    rw [List.flatMap_cons, List.append_assoc, List.length_cons, BodiesWhole, readMessages,
      libp2pNetMultistreamRead_frame hne hlt, ok_bind]
    by_cases hwhole : message.length ≤ 1 + more (calls + (varintBytes message.length).length)
    · rw [if_pos hwhole, and_iff_right hwhole, ← ih hrest, Nat.min_eq_left hwhole, List.drop_left]
      dsimp only
      constructor
      · intro h
        obtain ⟨parent, hread, hrest⟩ := h
        obtain ⟨r, hr, hread⟩ := bind_eq_ok.1 hread
        obtain ⟨found, parent'⟩ := r
        cases found with
        | none => cases hread
        | some found =>
          cases hread
          exact ⟨parent', hr, hrest⟩
      · intro h
        obtain ⟨parent, hread, hrest⟩ := h
        rw [hread]
        exact ⟨parent, rfl, hrest⟩
    · rw [if_neg hwhole]
      dsimp only
      refine iff_of_false ?_ (fun h => hwhole h.1)
      intro h
      obtain ⟨parent, hread, -⟩ := h
      cases hread

/-- what is written are the frames, one behind the other -/
theorem framesRoundTrip_iff_reads
    (hm : ∀ message ∈ messages, message ≠ [] ∧ message.length < 2 ^ 31) :
    FramesRoundTrip more calls messages rest ↔ ∃ parent,
      readMessages more messages.length ⟨messages.flatMap multistreamFrame ++ rest, calls⟩ =
        .ok (some messages, parent) ∧ parent.incoming = rest := by
  have hwrite : writeMessages messages [] = .ok (messages.flatMap multistreamFrame) :=
    writeMessages_eq hm
  constructor
  · intro h
    obtain ⟨sent, parent, hsent, hread, hrest⟩ := h
    rw [hwrite] at hsent
    cases hsent
    exact ⟨parent, hread, hrest⟩
  · intro h
    obtain ⟨parent, hread, hrest⟩ := h
    exact ⟨_, parent, hwrite, hread, hrest⟩

/-- **messages come back** one by one, with nothing else read, iff each body is given whole by the
call that asks for it -/
theorem framesRoundTrip_iff (more : Nat → Nat) (calls : Nat) (rest : List UInt8)
    (hm : ∀ message ∈ messages, message ≠ [] ∧ message.length < 2 ^ 31) :
    FramesRoundTrip more calls messages rest ↔ BodiesWhole more calls messages := by
  rw [framesRoundTrip_iff_reads hm, readMessages_frames hm]

end

/-- a stream that gives all that is asked for -/
theorem framesRoundTrip_whole :
    FramesRoundTrip (fun _ => 100) 0 [[1], [2, 3, 4]] [5] :=
  (framesRoundTrip_iff (fun _ => 100) 0 [5] (by decide)).2 ⟨by decide, by decide, trivial⟩

/-- two bytes from a stream that gives one in a call -/
theorem not_framesRoundTrip : ¬ FramesRoundTrip (fun _ => 0) 0 [[1, 2]] [] := by
  rw [framesRoundTrip_iff_reads (by decide), readMessages_frames (by decide)]
  intro h
  exact absurd h.1 (by decide)

end Libp2p
