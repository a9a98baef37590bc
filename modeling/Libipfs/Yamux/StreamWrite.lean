import Libipfs.Yamux.Stream

/-!
# Writing to a channel

`yamux_stream_write` cuts the data into pieces of the size of the channel's window, which it reads
once and never changes.  An empty window, with which every channel starts and which no window update
reaches, gives empty pieces, for as long as the connection below takes them.

* `WritesOnce`       what a call should do: it ends, what it writes is the data up to the number it
                     returns, and the window pays for it;
* `RefusesEmpty`     the connection below refuses one of the empty frames;
* `yamuxStreamWriteLoop_window`   the window stays as it is;
* `yamuxStreamWrite_once_iff`   **a call does what it should** iff there is nothing to write, or the
                     window is empty and the connection below refuses an empty frame.
-/

namespace Libp2p
open CSem

/-- what is behind the frame -/
def Sent.payload (s : Sent) : List UInt8 := s.message.drop yamuxFrameSize

/-- each piece fits what is left of the window when it is sent -/
def WithinWindow : Nat → List (List UInt8) → Prop
  | _, [] => True
  | window, piece :: pieces => piece.length ≤ window ∧ WithinWindow (window - piece.length) pieces

section
variable (net : YamuxNet)

/-- the messages that the connection below took -/
def takenMessages : List Sent → List Sent → List Sent
  | _, [] => []
  | before, s :: messages =>
    if net.write before s.message then s :: takenMessages (before ++ [s]) messages
    else takenMessages (before ++ [s]) messages

/-- the messages between two states; one that was refused may be counted as written or not -/
def writtenMessages (refused : Bool) (ctx ctx' : YamuxContext) : List Sent :=
  let messages := ctx'.sent.drop ctx.sent.length
  if refused then messages else takenMessages net ctx.sent messages

/-- a call that ends, and writes what it says once, within the window -/
def WritesOnce (refused : Bool) (i : Nat) (data : List UInt8) (ctx : YamuxContext)
    (ch : YamuxChannelContext) : Prop :=
  ∃ rounds returned ctx' ch', yamuxStreamWrite net i data rounds ctx = (some returned, ctx') ∧
    ctx'.channels[i]? = some ch' ∧
    ((writtenMessages net refused ctx ctx').map Sent.payload).flatten =
      data.take returned.toNat ∧
    WithinWindow ch.windowSize.toNat ((writtenMessages net refused ctx ctx').map Sent.payload) ∧
    ch'.windowSize.toNat +
      ((writtenMessages net refused ctx ctx').map Sent.payload).flatten.length =
        ch.windowSize.toNat

/-! ## rounds with an empty window -/

def emptyMessage (i : Nat) (id : UInt32) (ctx : YamuxContext) : List UInt8 :=
  (encodeFrame net.host (yamuxDataFrame (getFlags (.channel i) ctx).1 id 0)).bytes net.host

def emptyRound (i : Nat) (id : UInt32) (ctx : YamuxContext) : YamuxContext :=
  (getFlags (.channel i) ctx).2.record [yamuxDataFrame (getFlags (.channel i) ctx).1 id 0]
    (emptyMessage net i id ctx)

def emptyRounds (i : Nat) (id : UInt32) : Nat → YamuxContext → YamuxContext
  | 0, ctx => ctx
  | k + 1, ctx => emptyRounds i id k (emptyRound net i id ctx)

/-- after some rounds the empty frame is refused -/
def RefusesEmpty (i : Nat) (id : UInt32) (ctx : YamuxContext) : Prop :=
  ∃ k, net.write (emptyRounds net i id k ctx).sent
    (emptyMessage net i id (emptyRounds net i id k ctx)) = false

end

section
variable {net : YamuxNet} {refused : Bool} {i : Nat} {ws id : UInt32} {n rounds : Nat}
  {data : List UInt8} {ctx ctx' : YamuxContext} {ch ch' : YamuxChannelContext}

/-! ## the window -/

theorem getFlags_window (j : Nat) :
    ((getFlags (.channel i) ctx).2.channels[j]?).map YamuxChannelContext.windowSize =
      (ctx.channels[j]?).map YamuxChannelContext.windowSize := by
  unfold getFlags
  dsimp only
  split
  · rfl
  · show ((ctx.channels.modify i _)[j]?).map _ = _
    by_cases hij : i = j
    · subst hij
      rw [List.getElem?_modify_eq]
      cases ctx.channels[i]? <;> rfl
    · rw [List.getElem?_modify_ne _ _ hij]

/-- one round: the piece of the data that its frame is in front of -/
theorem yamuxStreamWriteLoop_succ (hdata : data ≠ []) :
    yamuxStreamWriteLoop net i ws id n (rounds + 1) data ctx =
      let adv := yamuxMin (UInt32.ofNat data.length) ws
      let f := yamuxDataFrame (getFlags (.channel i) ctx).1 id adv
      let message := (encodeFrame net.host f).bytes net.host ++ data.take adv.toNat
      let ctx' := (getFlags (.channel i) ctx).2.record [f] message
      if net.write ctx.sent message then
        yamuxStreamWriteLoop net i ws id n rounds (data.drop adv.toNat) ctx'
      else (some adv.toNat, ctx') := by
  rw [yamuxStreamWriteLoop, if_neg hdata]

/-- **the window is not changed** by a call -/
theorem yamuxStreamWriteLoop_window (j : Nat) :
    ((yamuxStreamWriteLoop net i ws id n rounds data ctx).2.channels[j]?).map
        YamuxChannelContext.windowSize =
      (ctx.channels[j]?).map YamuxChannelContext.windowSize := by
  induction rounds generalizing data ctx with
  | zero => rfl
  | succ rounds ih =>
    by_cases hdata : data = []
    · rw [yamuxStreamWriteLoop, if_pos hdata]
    · rw [yamuxStreamWriteLoop_succ hdata]
      dsimp only
      split
      · rw [ih]
        exact getFlags_window j
      · exact getFlags_window j

/-- what has been sent before is not changed either -/
theorem yamuxStreamWriteLoop_sent :
    ∃ messages, (yamuxStreamWriteLoop net i ws id n rounds data ctx).2.sent =
      ctx.sent ++ messages := by
  induction rounds generalizing data ctx with
  | zero => exact ⟨[], (List.append_nil _).symm⟩
  | succ rounds ih =>
    by_cases hdata : data = []
    · rw [yamuxStreamWriteLoop, if_pos hdata]
      exact ⟨[], (List.append_nil _).symm⟩
    · rw [yamuxStreamWriteLoop_succ hdata]
      dsimp only
      split
      · obtain ⟨messages, hmessages⟩ := ih
        rw [hmessages, YamuxContext.record_sent, getFlags_sent, List.append_assoc]
        exact ⟨_, rfl⟩
      · rw [YamuxContext.record_sent, getFlags_sent]
        exact ⟨_, rfl⟩

theorem Sent.payload_frame (frames : List YamuxFrame) (f : YamuxFrame) (piece : List UInt8) :
    Sent.payload ⟨frames, f.bytes net.host ++ piece⟩ = piece := by
  unfold Sent.payload
  exact List.drop_left' (YamuxFrame.length_bytes net.host f)

/-! ## an empty window -/

theorem yamuxMin_zero (x : UInt32) : yamuxMin x 0 = 0 := by
  rw [yamuxMin_eq, if_neg]
  exact Nat.not_lt_zero _

theorem yamuxStreamWriteLoop_empty (hdata : data ≠ []) :
    yamuxStreamWriteLoop net i 0 id n (rounds + 1) data ctx =
      if net.write ctx.sent (emptyMessage net i id ctx) then
        yamuxStreamWriteLoop net i 0 id n rounds data (emptyRound net i id ctx)
      else (some 0, emptyRound net i id ctx) := by
  rw [yamuxStreamWriteLoop_succ hdata, yamuxMin_zero]
  dsimp only
  rw [UInt32.toNat_zero, List.take_zero, List.drop_zero, List.append_nil]
  rfl

/-- the loop ends only when a frame is refused -/
theorem refusesEmpty_of_some {returned : Int} (hdata : data ≠ [])
    (h : yamuxStreamWriteLoop net i 0 id n rounds data ctx = (some returned, ctx')) :
    RefusesEmpty net i id ctx := by
  induction rounds generalizing ctx with
  | zero => cases h
  | succ rounds ih =>
    rw [yamuxStreamWriteLoop_empty hdata] at h
    by_cases hwrite : net.write ctx.sent (emptyMessage net i id ctx) = true
    · rw [if_pos hwrite] at h
      obtain ⟨k, hk⟩ := ih h
      exact ⟨k + 1, hk⟩
    · exact ⟨0, Bool.eq_false_iff.2 hwrite⟩

theorem RefusesEmpty.some (hdata : data ≠ []) (h : RefusesEmpty net i id ctx) :
    ∃ rounds k, yamuxStreamWriteLoop net i 0 id n rounds data ctx =
      (some 0, emptyRounds net i id k ctx) := by
  obtain ⟨k, hk⟩ := h
  induction k generalizing ctx with
  | zero =>
    refine ⟨1, 1, ?_⟩
    have hk : net.write ctx.sent (emptyMessage net i id ctx) = false := hk
    rw [yamuxStreamWriteLoop_empty hdata, if_neg (by simp [hk])]
    rfl
  | succ k ih =>
    by_cases hwrite : net.write ctx.sent (emptyMessage net i id ctx) = true
    · obtain ⟨rounds, m, hloop⟩ := ih hk
      refine ⟨rounds + 1, m + 1, ?_⟩
      rw [yamuxStreamWriteLoop_empty hdata, if_pos hwrite, hloop]
      rfl
    · refine ⟨1, 1, ?_⟩
      rw [yamuxStreamWriteLoop_empty hdata, if_neg hwrite]
      rfl

/-- the rounds send frames with nothing behind them -/
theorem emptyRounds_sent (k : Nat) : ∃ messages,
    (emptyRounds net i id k ctx).sent = ctx.sent ++ messages ∧
      ∀ s ∈ messages, s.payload = [] := by
  induction k generalizing ctx with
  | zero => exact ⟨[], (List.append_nil _).symm, fun s hs => nomatch hs⟩
  | succ k ih =>
    obtain ⟨messages, hsent, hempty⟩ := @ih (emptyRound net i id ctx)
    have hround : (emptyRound net i id ctx).sent = ctx.sent ++
        [⟨[yamuxDataFrame (getFlags (.channel i) ctx).1 id 0], emptyMessage net i id ctx⟩] := by
      unfold emptyRound
      rw [YamuxContext.record_sent, getFlags_sent]
    rw [hround, List.append_assoc] at hsent
    refine ⟨_, hsent, ?_⟩
    intro s hs
    rcases List.mem_cons.1 hs with rfl | hs
    · have hpayload := @Sent.payload_frame net
        [yamuxDataFrame (getFlags (.channel i) ctx).1 id 0]
        (encodeFrame net.host (yamuxDataFrame (getFlags (.channel i) ctx).1 id 0)) []
      rw [List.append_nil] at hpayload
      exact hpayload
    · exact hempty s hs

/-! ## what a call writes -/

theorem mem_takenMessages {before messages : List Sent} {s : Sent}
    (h : s ∈ takenMessages net before messages) : s ∈ messages := by
  induction messages generalizing before with
  | nil => exact h
  | cons t messages ih =>
    unfold takenMessages at h
    split at h
    · rcases List.mem_cons.1 h with rfl | h
      · exact List.mem_cons_self
      · exact List.mem_cons_of_mem _ (ih h)
    · exact List.mem_cons_of_mem _ (ih h)

theorem mem_writtenMessages {messages : List Sent} {s : Sent}
    (hsent : ctx'.sent = ctx.sent ++ messages) (h : s ∈ writtenMessages net refused ctx ctx') :
    s ∈ messages := by
  unfold writtenMessages at h
  rw [hsent, List.drop_left] at h
  dsimp only at h
  split at h
  · exact h
  · exact mem_takenMessages h

theorem withinWindow_of_empty {pieces : List (List UInt8)} (window : Nat)
    (h : ∀ piece ∈ pieces, piece = []) : WithinWindow window pieces := by
  induction pieces generalizing window with
  | nil => trivial
  | cons piece pieces ih =>
    rw [h piece List.mem_cons_self]
    exact ⟨Nat.zero_le _, ih _ fun p hp => h p (List.mem_cons_of_mem _ hp)⟩

/-- with an empty window the call does what it should as soon as it ends -/
theorem writesOnce_of_refusesEmpty (hch : ctx.channels[i]? = some ch) (hwindow : ch.windowSize = 0)
    (hdata : data ≠ []) (h : RefusesEmpty net i ch.channel ctx) :
    WritesOnce net refused i data ctx ch := by
  obtain ⟨rounds, k, hloop⟩ := RefusesEmpty.some (n := data.length) hdata h
  obtain ⟨messages, hsent, hempty⟩ := @emptyRounds_sent net i ch.channel ctx k
  have hsame := @yamuxStreamWriteLoop_window net i 0 ch.channel data.length rounds data ctx i
  rw [hloop, hch] at hsame
  obtain ⟨ch', hch', hwindow'⟩ := Option.map_eq_some_iff.1 hsame
  have hpieces : ∀ piece ∈ (writtenMessages net refused ctx
      (emptyRounds net i ch.channel k ctx)).map Sent.payload, piece = [] := by
    intro piece hpiece
    obtain ⟨s, hs, rfl⟩ := List.mem_map.1 hpiece
    exact hempty s (mem_writtenMessages hsent hs)
  have hflatten := List.flatten_eq_nil_iff.2 hpieces
  refine ⟨rounds, 0, _, ch', ?_, hch', ?_, withinWindow_of_empty _ hpieces, ?_⟩
  · unfold yamuxStreamWrite
    rw [hch]
    dsimp only
    rw [if_neg hdata, hwindow, hloop]
  · rw [hflatten]
    rfl
  · rw [hflatten, hwindow']
    rfl

theorem writesOnce_nil (hch : ctx.channels[i]? = some ch) :
    WritesOnce net refused i [] ctx ch := by
  have hwrite : yamuxStreamWrite net i [] 0 ctx = (some (-einval), ctx) := by
    unfold yamuxStreamWrite
    rw [hch]
    rfl
  have hmessages : writtenMessages net refused ctx ctx = [] := by
    unfold writtenMessages
    rw [List.drop_length]
    cases refused <;> rfl
  refine ⟨0, -einval, ctx, ch, hwrite, hch, ?_, ?_, ?_⟩
  · rw [hmessages]
    rfl
  · rw [hmessages]
    trivial
  · rw [hmessages]
    rfl

/-- a piece of the data is not empty -/
theorem yamuxMin_pos (hdata : data ≠ []) (hlen : data.length < 2 ^ 32) (hws : ws ≠ 0) :
    0 < (yamuxMin (UInt32.ofNat data.length) ws).toNat := by
  have hpos : 0 < data.length := List.length_pos_iff.2 hdata
  have hws : ws.toNat ≠ 0 := fun h => hws (UInt32.toNat_inj.1 h)
  have hn : (UInt32.ofNat data.length).toNat = data.length := UInt32.toNat_ofNat_of_lt' hlen
  rw [yamuxMin_eq]
  split
  · omega
  · omega

/-- the first message counts when it is taken -/
theorem mem_writtenMessages_first {first : Sent} {messages : List Sent}
    (hsent : ctx'.sent = ctx.sent ++ (first :: messages))
    (hok : net.write ctx.sent first.message = true) :
    first ∈ writtenMessages net refused ctx ctx' := by
  unfold writtenMessages
  rw [hsent, List.drop_left]
  dsimp only
  split
  · exact List.mem_cons_self
  · unfold takenMessages
    rw [if_pos hok]
    exact List.mem_cons_self

/-- a window that is not empty is not paid from: either something is written, or the number
returned is that of a frame that was refused -/
theorem not_writesOnce (hch : ctx.channels[i]? = some ch) (hwindow : ch.windowSize ≠ 0)
    (hdata : data ≠ []) (hlen : data.length < 2 ^ 32) :
    ¬ WritesOnce net refused i data ctx ch := by
  intro h
  obtain ⟨rounds, returned, ctx', ch', hwrite, hch', hpieces, -, hpaid⟩ := h
  have hloop : yamuxStreamWriteLoop net i ch.windowSize ch.channel data.length rounds data ctx =
      (some returned, ctx') := by
    unfold yamuxStreamWrite at hwrite
    rw [hch] at hwrite
    dsimp only at hwrite
    rwa [if_neg hdata] at hwrite
  -- the window is what it was, so nothing has been written
  have hsame := @yamuxStreamWriteLoop_window net i ch.windowSize ch.channel data.length rounds
    data ctx i
  rw [hloop, hch, hch', Option.map_some, Option.map_some] at hsame
  rw [Option.some.inj hsame] at hpaid
  have hnothing : ((writtenMessages net refused ctx ctx').map Sent.payload).flatten = [] :=
    List.eq_nil_of_length_eq_zero (by omega)
  have hadv := yamuxMin_pos hdata hlen hwindow
  have hpiece : data.take (yamuxMin (UInt32.ofNat data.length) ch.windowSize).toNat ≠ [] := by
    rw [Ne, List.take_eq_nil_iff, not_or]
    exact ⟨by omega, hdata⟩
  cases rounds with
  | zero => cases hloop
  | succ rounds =>
    rw [yamuxStreamWriteLoop_succ hdata] at hloop
    dsimp only at hloop
    split at hloop
    · rename_i hok
      obtain ⟨messages, hsent⟩ := @yamuxStreamWriteLoop_sent net i ch.windowSize ch.channel
        data.length rounds
        (data.drop (yamuxMin (UInt32.ofNat data.length) ch.windowSize).toNat)
        ((getFlags (.channel i) ctx).2.record _ _)
      rw [hloop, YamuxContext.record_sent, getFlags_sent, List.append_assoc] at hsent
      have hmem : _ ∈ writtenMessages net refused ctx ctx' := mem_writtenMessages_first hsent hok
      have hfirst := List.flatten_eq_nil_iff.1 hnothing _ (List.mem_map_of_mem hmem)
      rw [Sent.payload_frame] at hfirst
      exact hpiece hfirst
    · cases hloop
      rw [hnothing] at hpieces
      exact hpiece hpieces.symm

/-- **a call does what it should** iff there is nothing to write, or the window is empty and the
connection below refuses an empty frame -/
theorem yamuxStreamWrite_once_iff (hch : ctx.channels[i]? = some ch)
    (hlen : data.length < 2 ^ 32) :
    WritesOnce net refused i data ctx ch ↔
      data = [] ∨ (ch.windowSize = 0 ∧ RefusesEmpty net i ch.channel ctx) := by
  by_cases hdata : data = []
  · subst hdata
    exact iff_of_true (writesOnce_nil hch) (.inl rfl)
  · rw [or_iff_right hdata]
    by_cases hwindow : ch.windowSize = 0
    · rw [and_iff_right hwindow]
      constructor
      · intro h
        obtain ⟨rounds, returned, ctx', ch', hwrite, -⟩ := h
        unfold yamuxStreamWrite at hwrite
        rw [hch] at hwrite
        dsimp only at hwrite
        rw [if_neg hdata, hwindow] at hwrite
        exact refusesEmpty_of_some hdata hwrite
      · exact writesOnce_of_refusesEmpty hch hwindow hdata
    · exact iff_of_false (not_writesOnce hch hwindow hdata hlen) (fun h => hwindow h.1)

end

/-- a connection with one channel -/
def oneChannel (windowSize : UInt32) : YamuxContext :=
  { yamuxContextNew 1 false with channels := [{ YamuxChannelContext.new 1 with windowSize := windowSize }] }

/-- a connection below that has been closed -/
def closedNet : YamuxNet := { littleNet with write := fun _ _ => false }

theorem yamuxStreamWrite_once_closed : WritesOnce closedNet true 0 [1] (oneChannel 0)
    { YamuxChannelContext.new 1 with windowSize := 0 } :=
  (yamuxStreamWrite_once_iff rfl (by decide)).2 (.inr ⟨rfl, 0, rfl⟩)

/-- one byte for an empty window, and two for a window of one -/
theorem not_yamuxStreamWrite_once :
    ¬ WritesOnce littleNet true 0 [1] (oneChannel 0)
        { YamuxChannelContext.new 1 with windowSize := 0 } ∧
      ¬ WritesOnce littleNet true 0 [1, 2] (oneChannel 1)
        { YamuxChannelContext.new 1 with windowSize := 1 } := by
  constructor
  · intro h
    obtain ⟨rounds, returned, ctx', ch', hwrite, -⟩ := h
    have hloop : yamuxStreamWriteLoop littleNet 0 0 1 1 rounds [1] (oneChannel 0) =
      (some returned, ctx') := hwrite
    obtain ⟨k, hk⟩ := refusesEmpty_of_some (by decide) hloop
    cases hk
  · exact not_writesOnce rfl (by decide) (by decide) (by decide)

end Libp2p
