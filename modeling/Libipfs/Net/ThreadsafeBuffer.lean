import Libipfs.Lib.Fifo
import Libipfs.Lib.Region
import Libipfs.Net.ReadRaw

/-!
# The buffer of a channel

A `struct ThreadsafeBufferContext` is a region of exactly the bytes that have not been read yet, or
null when there are none.  A write grows it; a read that leaves something moves the rest into a new
region.  A peek is a read that does not do the second half.

* `ThreadsafeBufferContext.peek`, `.read`, `.write`   the three functions;
* `ThreadsafeBufferContext.Holds`   the region is that of the unread bytes;
* `ThreadsafeBufferContext.read_eq` what a read gives and leaves is what `threadsafeBufferRead` says;
* `ByteFifo`           the bytes come out in the order in which they went in, and are counted;
* `threadsafeBuffer_fifo`   **so it is after every sequence of calls**.
-/

namespace Libp2p
open CSem

/-- an array that a caller hands over -/
structure ByteArg where
  bytes : List UInt8
  object : bytes.length ≤ ptrdiffMax

structure ThreadsafeBufferContext where
  bufferSize : Nat
  buffer : Option Region

/-- null when there is no memory for it -/
def threadsafeBufferContextNew (allocated : Bool) : Option ThreadsafeBufferContext :=
  if allocated then some { bufferSize := 0, buffer := none } else none

/-! ## the functions -/

/-- the bytes; their number is what is returned -/
def ThreadsafeBufferContext.peek (context : ThreadsafeBufferContext) (resultsSize : Nat) :
    Exec (List UInt8) :=
  match context.buffer with
  | none => .ok []
  | some buffer =>
    if 0 < context.bufferSize then
      buffer.load 0 (if resultsSize < context.bufferSize then resultsSize else context.bufferSize)
    else .ok []

/-- the first half is that of a peek; the new region is written to without a look at whether there
is one -/
def ThreadsafeBufferContext.read (context : ThreadsafeBufferContext) (resultsSize : Nat) :
    Exec (List UInt8 × ThreadsafeBufferContext) := do
  let results ← context.peek resultsSize
  let bytesRead := results.length
  if 0 < bytesRead then
    if 0 < context.bufferSize - bytesRead then do
      let newBufferSize := context.bufferSize - bytesRead
      let newBuffer ← deref (Region.malloc newBufferSize)
      let buffer ← deref context.buffer
      let rest ← buffer.load bytesRead newBufferSize
      let newBuffer ← newBuffer.store 0 rest
      .ok (results, { bufferSize := newBufferSize, buffer := some newBuffer })
    else .ok (results, { bufferSize := 0, buffer := none })
  else .ok (results, context)

/-- the bytes copied; 0 when there is no memory for the two together -/
def ThreadsafeBufferContext.write (context : ThreadsafeBufferContext) (bytes : List UInt8) :
    Exec (Nat × ThreadsafeBufferContext) :=
  if bytes.length = 0 then .ok (0, context)
  else
    match (context.buffer.getD []).realloc (toUInt64 (context.bufferSize + bytes.length)) with
    | none => .ok (0, context)
    | some newBuffer => do
      let newBuffer ← newBuffer.store context.bufferSize bytes
      .ok (bytes.length, { bufferSize := context.bufferSize + bytes.length, buffer := some newBuffer })

/-! ## the bytes that are held -/

structure ThreadsafeBufferContext.Holds (context : ThreadsafeBufferContext) (held : List UInt8) :
    Prop where
  size : context.bufferSize = held.length
  buffer : context.buffer = if held = [] then none else some held
  room : held.length ≤ ptrdiffMax

section
variable {context : ThreadsafeBufferContext} {held bytes : List UInt8} {n : Nat}

theorem ThreadsafeBufferContext.Holds.nil :
    ThreadsafeBufferContext.Holds { bufferSize := 0, buffer := none } [] where
  size := rfl
  buffer := rfl
  room := Nat.zero_le _

theorem ThreadsafeBufferContext.Holds.buffer_some (h : context.Holds held) (hne : held ≠ []) :
    context.buffer = some held := by
  rw [h.buffer, if_neg hne]

theorem ThreadsafeBufferContext.Holds.peek_eq (h : context.Holds held) (n : Nat) :
    context.peek n = .ok (held.take n) := by
  unfold ThreadsafeBufferContext.peek
  by_cases hne : held = []
  · rw [h.buffer, if_pos hne, hne, List.take_nil]
  · have hpos := List.length_pos_of_ne_nil hne
    rw [h.buffer_some hne]
    show (if 0 < context.bufferSize then _ else _) = _
    rw [h.size, if_pos hpos, Region.load_pos (by split <;> omega), List.drop_zero]
    split
    · rfl
    · rw [List.take_length, List.take_of_length_le (by omega)]

theorem threadsafeBufferRead_eq (held : List UInt8) (n : Nat) :
    threadsafeBufferRead held n = (held.take n, held.drop n) := by
  unfold threadsafeBufferRead
  dsimp only
  split
  · rfl
  · rw [List.take_length, List.drop_length, List.take_of_length_le (by omega),
      List.drop_of_length_le (by omega)]

/-- **what a read gives and leaves** -/
theorem ThreadsafeBufferContext.Holds.read_eq (h : context.Holds held) (n : Nat) :
    ∃ context', context.read n = .ok ((threadsafeBufferRead held n).1, context') ∧
      context'.Holds (threadsafeBufferRead held n).2 := by
  rw [threadsafeBufferRead_eq]
  have hlen : (held.take n).length = min n held.length := List.length_take
  unfold ThreadsafeBufferContext.read
  rw [h.peek_eq, ok_bind]
  dsimp only
  by_cases hread : 0 < (held.take n).length
  · have hne : held ≠ [] := by
      rintro rfl
      rw [List.take_nil] at hread
      exact absurd hread (Nat.lt_irrefl 0)
    rw [if_pos hread, h.size]
    by_cases hmore : 0 < held.length - (held.take n).length
    · -- more remains
      have hn : (held.take n).length = n := by omega
      have hload : Region.load held n (held.length - n) = .ok (held.drop n) := by
        rw [Region.load_pos (by omega), List.take_of_length_le (by rw [List.length_drop])]
      have hroom := h.room
      refine ⟨{ bufferSize := held.length - n, buffer := some (held.drop n) }, ?_, ?_⟩
      · rw [if_pos hmore, hn, Region.malloc_pos (by omega), deref_some, ok_bind, h.buffer_some hne,
          deref_some, ok_bind, hload, ok_bind, Region.store_malloc List.length_drop, ok_bind]
      · have hrest : held.drop n ≠ [] := by
          intro e
          have := congrArg List.length e
          rw [List.length_drop, List.length_nil] at this
          omega
        refine { size := List.length_drop.symm, buffer := (if_neg hrest).symm, room := ?_ }
        rw [List.length_drop]
        omega
    · -- everything has been read
      rw [if_neg hmore, List.drop_of_length_le (by omega)]
      exact ⟨_, rfl, Holds.nil⟩
  · rw [if_neg hread]
    refine ⟨context, rfl, ?_⟩
    have hdrop : held.drop n = held := by
      rcases Nat.eq_zero_or_pos n with rfl | hn
      · rfl
      · have hnil : held = [] := List.eq_nil_of_length_eq_zero (by omega)
        rw [hnil, List.drop_nil]
    rw [hdrop]
    exact h

/-- **a write** adds the bytes at the end, or nothing -/
theorem ThreadsafeBufferContext.Holds.write_eq (h : context.Holds held)
    (hobject : bytes.length ≤ ptrdiffMax) :
    ∃ copied context', context.write bytes = .ok (copied, context') ∧
      context'.Holds (held ++ bytes.take copied) := by
  have hrefused : context.Holds (held ++ bytes.take 0) := by
    rw [List.take_zero, List.append_nil]
    exact h
  unfold ThreadsafeBufferContext.write
  by_cases h0 : bytes.length = 0
  · rw [if_pos h0]
    exact ⟨0, context, rfl, hrefused⟩
  · have hgetD : context.buffer.getD [] = held := by
      rw [h.buffer]
      split
      · next hnil => exact hnil.symm
      · rfl
    have hroom := h.room
    have hsum : toUInt64 (context.bufferSize + bytes.length) = held.length + bytes.length := by
      rw [h.size]
      exact toUInt64_natCast_of_lt (by unfold ptrdiffMax at *; omega)
    rw [if_neg h0, hgetD, hsum]
    by_cases hfit : held.length + bytes.length ≤ ptrdiffMax
    · rw [Region.realloc_pos hfit]
      dsimp only
      rw [h.size, Region.store_realloc]
      refine ⟨bytes.length, _, rfl, ?_⟩
      have hne : held ++ bytes ≠ [] := by
        intro e
        rw [(List.append_eq_nil_iff.1 e).2] at h0
        exact h0 rfl
      rw [List.take_length]
      exact { size := List.length_append.symm, buffer := (if_neg hne).symm,
              room := by rw [List.length_append]; exact hfit }
    · rw [Region.realloc_neg hfit]
      exact ⟨0, context, rfl, hrefused⟩

end

/-! ## sequences of calls -/

inductive BufferOp where
  | write (arg : ByteArg)
  | read (resultsSize : Nat)
  | peek (resultsSize : Nat)

/-- a buffer, and what its user has seen of it, the latest first -/
structure BufferRun where
  context : Option ThreadsafeBufferContext
  log : List (FifoEvent UInt8) := []

/-- all three functions return 0 for a null context -/
def bufferStep (op : BufferOp) (s : BufferRun) : Exec BufferRun :=
  match op, s.context with
  | .write _, none => .ok { s with log := .wrote [] :: s.log }
  | .read n, none => .ok { s with log := .took n [] :: s.log }
  | .peek n, none => .ok { s with log := .peeked n [] :: s.log }
  | .write arg, some context => do
    let (copied, context) ← context.write arg.bytes
    .ok { context := some context, log := .wrote (arg.bytes.take copied) :: s.log }
  | .read n, some context => do
    let (results, context) ← context.read n
    .ok { context := some context, log := .took n results :: s.log }
  | .peek n, some context => do
    let results ← context.peek n
    .ok { s with log := .peeked n results :: s.log }

/-- the bytes of the region, as many as `buffer_size` says -/
def heldBytes : Option ThreadsafeBufferContext → List UInt8
  | none => []
  | some context => (context.buffer.getD []).take context.bufferSize

def bufferSize : Option ThreadsafeBufferContext → Nat
  | none => 0
  | some context => context.bufferSize

/-- the bytes read and then those held are those written, `buffer_size` counts the unread ones, a
read or a peek gives what was asked for or all, and each read is related by `R` to the peeks since
the read before it -/
structure ByteFifo (R : Nat × List UInt8 → Nat × List UInt8 → Prop) (s : BufferRun) : Prop where
  conserved : taken s.log ++ heldBytes s.context = written s.log
  size : (taken s.log).length + bufferSize s.context = (written s.log).length
  served : Served s.log
  ahead : PeeksAhead R s.log

/-- what is kept by every call -/
structure BufferRun.Good (s : BufferRun) (held : List UInt8) : Prop where
  fifo : Fifo s.log held
  holds : ∀ context, s.context = some context → context.Holds held
  null : s.context = none → held = []

section
variable {s s' : BufferRun} {held : List UInt8} {op : BufferOp} {n : Nat}

theorem BufferRun.Good.byteFifo (h : s.Good held) : ByteFifo Agree s := by
  have hheld : heldBytes s.context = held := by
    cases hc : s.context with
    | none => exact (h.null hc).symm
    | some context =>
      have hh := h.holds context hc
      show (context.buffer.getD []).take context.bufferSize = held
      rw [hh.size, hh.buffer]
      split
      · next hnil => rw [hnil]; rfl
      · exact List.take_length
  have hsize : bufferSize s.context = held.length := by
    cases hc : s.context with
    | none =>
      rw [h.null hc]
      rfl
    | some context => exact (h.holds context hc).size
  refine { conserved := ?_, size := ?_, served := h.fifo.served, ahead := h.fifo.ahead }
  · rw [hheld]
    exact h.fifo.conserved
  · rw [hsize, ← List.length_append, h.fifo.conserved]

theorem BufferRun.Good.new (allocated : Bool) :
    BufferRun.Good { context := threadsafeBufferContextNew allocated } [] where
  fifo := Fifo.nil
  holds context h := by
    cases allocated with
    | true =>
      cases h
      exact ThreadsafeBufferContext.Holds.nil
    | false => cases h
  null _ := rfl

/-- **a call** -/
theorem BufferRun.Good.step (h : s.Good held) (op : BufferOp) :
    ∃ s' held', bufferStep op s = .ok s' ∧ s'.Good held' := by
  obtain ⟨context, log⟩ := s
  cases context with
  | none =>
    obtain rfl : held = [] := h.null rfl
    have hnone : ∀ {log' : List (FifoEvent UInt8)}, Fifo log' [] →
        BufferRun.Good { context := none, log := log' } [] :=
      fun hlog => { fifo := hlog, holds := fun _ e => (nomatch e), null := fun _ => rfl }
    cases op with
    | write arg => exact ⟨_, [], rfl, hnone (h.fifo.write [])⟩
    | read n =>
      have htake := h.fifo.take n
      rw [List.take_nil, List.drop_nil] at htake
      exact ⟨_, [], rfl, hnone htake⟩
    | peek n =>
      have hpeek := h.fifo.peek n
      rw [List.take_nil] at hpeek
      exact ⟨_, [], rfl, hnone hpeek⟩
  | some context =>
    have hc := h.holds context rfl
    have hsome : ∀ {context' : ThreadsafeBufferContext} {log' : List (FifoEvent UInt8)} {held'},
        context'.Holds held' → Fifo log' held' →
          BufferRun.Good { context := some context', log := log' } held' := fun hc' hlog =>
      { fifo := hlog, holds := fun _ e => Option.some.inj e ▸ hc', null := fun e => (nomatch e) }
    cases op with
    | write arg =>
      obtain ⟨copied, context', heq, hc'⟩ := hc.write_eq arg.object
      refine ⟨_, held ++ arg.bytes.take copied, ?_, hsome hc' (h.fifo.write _)⟩
      show (context.write arg.bytes >>= _) = _
      rw [heq]
      rfl
    | read n =>
      obtain ⟨context', heq, hc'⟩ := hc.read_eq n
      rw [threadsafeBufferRead_eq] at heq hc'
      refine ⟨_, held.drop n, ?_, hsome hc' (h.fifo.take n)⟩
      show (context.read n >>= _) = _
      rw [heq]
      rfl
    | peek n =>
      refine ⟨_, held, ?_, hsome hc (h.fifo.peek n)⟩
      show (context.peek n >>= _) = _
      rw [hc.peek_eq]
      rfl

theorem bufferRun_holdsAlong (allocated : Bool) (ops : List BufferOp) :
    HoldsAlong bufferStep (ByteFifo Agree) ops
      { context := threadsafeBufferContextNew allocated } := by
  have hall : ∀ (ops : List BufferOp) (s : BufferRun), (∃ held, s.Good held) →
      HoldsAlong bufferStep (fun s => ∃ held, s.Good held) ops s := by
    intro ops
    induction ops with
    | nil => exact fun s hs => holdsAlong_nil.2 hs
    | cons op ops ih =>
      rintro s ⟨held, hs⟩
      obtain ⟨s', held', hstep, hs'⟩ := hs.step op
      exact holdsAlong_cons.2 ⟨⟨held, hs⟩, s', hstep, ih s' ⟨held', hs'⟩⟩
  exact (hall ops _ ⟨[], BufferRun.Good.new allocated⟩).mono fun s hs =>
    hs.elim fun _ => BufferRun.Good.byteFifo

/-- a peek writes to none of the fields -/
theorem peek_context (h : bufferStep (.peek n) s = .ok s') : s'.context = s.context := by
  obtain ⟨context, log⟩ := s
  cases context with
  | none =>
    cases h
    rfl
  | some context =>
    obtain ⟨results, -, h⟩ := bind_eq_ok.1 h
    cases h
    rfl

end

/-- **first in, first out** after every sequence of calls, and a peek changes nothing -/
theorem threadsafeBuffer_fifo (allocated : Bool) (ops : List BufferOp) :
    HoldsAlong bufferStep (ByteFifo Agree) ops
        { context := threadsafeBufferContextNew allocated } ∧
      ∀ n s s', bufferStep (.peek n) s = .ok s' → s'.context = s.context :=
  ⟨bufferRun_holdsAlong allocated ops, fun _ _ _ => peek_context⟩

/-- three bytes, looked at and read one by one -/
def shortReads : List BufferOp :=
  [.write ⟨[1, 2, 3], by decide⟩, .peek 2, .read 1]

/-- a read of less than was looked at gives less -/
theorem not_threadsafeBuffer_fifo : ¬ ∀ (allocated : Bool) (ops : List BufferOp),
    HoldsAlong bufferStep (ByteFifo fun p t => p.2 <+: t.2) ops
      { context := threadsafeBufferContextNew allocated } := by
  intro h
  obtain ⟨s, hrun, hs⟩ := (h true shortReads).last
  have hlog : s.log = [.took 1 [1], .peeked 2 [1, 2], .wrote [1, 2, 3]] := by
    have hsize : toUInt64 ((0 : Nat) + ([1, 2, 3] : List UInt8).length) = 3 :=
      toUInt64_natCast_of_lt (by norm_num)
    have hwrite : ThreadsafeBufferContext.write { bufferSize := 0, buffer := none } [1, 2, 3] =
        .ok (3, { bufferSize := 3, buffer := some [1, 2, 3] }) := by
      unfold ThreadsafeBufferContext.write
      rw [if_neg (by decide)]
      dsimp only
      rw [hsize]
      rfl
    have hfirst : bufferStep (.write ⟨[1, 2, 3], by decide⟩)
        { context := threadsafeBufferContextNew true } =
        .ok { context := some { bufferSize := 3, buffer := some [1, 2, 3] },
              log := [.wrote [1, 2, 3]] } := by
      show (ThreadsafeBufferContext.write _ _ >>= _) = _
      rw [hwrite]
      rfl
    rw [shortReads, runOps_cons, hfirst] at hrun
    cases hrun
    rfl
  have hahead := hs.ahead
  rw [hlog] at hahead
  have hprefix : [1, 2] <+: [(1 : UInt8)] := hahead.1 (2, [1, 2]) List.mem_cons_self
  exact absurd hprefix.length_le (by decide)

end Libp2p
