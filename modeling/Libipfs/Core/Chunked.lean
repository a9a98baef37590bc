import Libipfs.Lib.Numeral

/-!
# Chunked bodies

The server reads a chunked body through a buffer of 32 KiB that begins with what came with the
header.  It reads once after each copy out of the buffer, and looks for the line of the next chunk
in what is there then; behind what has been read the buffer holds what it held before.

* `readChunked`, `apiSendRespChunks`   the two sides;
* `chunkedEncoding`       a body cut into chunks, as it is sent;
* `Holds`                 the buffer and the reads to come hold what is left of it;
* `Fed`                   each line is there when the server looks for it;
* `Transfer`              a body, its chunks, and how the reads cut it;
* `comesBack_iff`         **a body comes back** when it is not empty, begins with the header and
  is fed that way.
-/

set_option linter.unusedVariables false

namespace Ipfs
open CSem

def maxRead : Nat := 32 * 1024
def maxChunk : Nat := 32 * 1024

def crlf : List UInt8 := [13, 10]

/-! ## the buffer -/

/-- the buffer and how much of it is filled, what is left of what came with the header, and what
the reads to come give, one after the other; nothing is ready after the last of them -/
structure ReadBuffer where
  cells : List UInt8
  size : Nat
  already : List UInt8
  later : List (List UInt8)
  deriving DecidableEq, Repr

/-- a request, of which the body begins at `offset` -/
structure BodyRequest where
  size : Nat
  offset : Nat
  body : List UInt8 := []
  deriving DecidableEq, Repr

/-- what came with the header goes to the beginning of the buffer, also when that is filled -/
def ReadBuffer.refill (buffer : ReadBuffer) : ReadBuffer :=
  let r := min buffer.already.length (maxRead - buffer.size)
  { buffer with
    cells := buffer.already.take r ++ buffer.cells.drop r
    size := buffer.size + r
    already := buffer.already.drop r }

/-- `none` when nothing is ready; what does not fit is left for the next read -/
def ReadBuffer.receive (buffer : ReadBuffer) : Option (Nat × ReadBuffer) :=
  match buffer.later with
  | [] => none
  | piece :: later =>
    let r := min piece.length (maxRead - buffer.size)
    some (r,
      { buffer with
        cells :=
          buffer.cells.take buffer.size ++ piece.take r ++ buffer.cells.drop (buffer.size + r)
        size := buffer.size + r
        later := if r < piece.length then piece.drop r :: later else later })

/-! ## read_chunked -/

/-- the place behind the line, and the size it says; how much of the buffer is filled is not
looked at -/
def findChunk (buf : List UInt8) : Exec (Option (Nat × Nat)) := do
  let (size, p) ← strtol 16 buf
  if 10 < p then .ok none
  else if crlf <+: buf.drop p then .ok (some (p + 2, toUInt64 size))
  else .ok none

/-- at `CPCHUNK`: what there is of the chunk is copied, and the rest moved to the front -/
def copyPart (buffer : ReadBuffer) (request : BodyRequest) (pos nsize : Nat) :
    Exec (ReadBuffer × BodyRequest × Nat) := do
  let size := toUInt64 (buffer.size - pos)
  let r := min nsize size
  require .outOfBounds (pos + r ≤ buffer.cells.length)
  require .outOfBounds (request.offset + request.body.length + r ≤ request.size)
  let rest := size - r
  require .outOfBounds (pos + r + rest ≤ buffer.cells.length)
  .ok ({ buffer with
    cells := (buffer.cells.drop (pos + r)).take rest ++ buffer.cells.drop rest
    size := rest }, { request with body := request.body ++ (buffer.cells.drop pos).take r },
    nsize - r)

inductive Copied where
  | failed
  | ended (request : BodyRequest)
  | copied (buffer : ReadBuffer) (request : BodyRequest)

/-- the rest of a chunk; when nothing comes any more this never ends -/
def copyChunk : Nat → ReadBuffer → BodyRequest → Nat → Nat → Exec Copied
  | 0, _, _, _, _ => .error .diverges
  | fuel + 1, buffer, request, pos, nsize => do
    let (buffer, request, nsize) ← copyPart buffer request pos nsize
    match buffer.refill.receive with
    | none =>
      if 0 < nsize then copyChunk fuel buffer.refill request 0 nsize
      else .ok (.copied buffer.refill request)
    | some (r, buffer) =>
      if r = 0 then .ok (if nsize = 0 then .ended request else .failed)
      else if 0 < nsize then copyChunk fuel buffer request 0 nsize
      else .ok (.copied buffer request)

/-- how many bytes are still to come into the buffer -/
def ReadBuffer.unread (buffer : ReadBuffer) : Nat :=
  buffer.already.length + buffer.later.flatten.length

/-- `none` when the function returns 0 -/
def readChunks : Nat → ReadBuffer → BodyRequest → Exec (Option BodyRequest)
  | 0, _, _ => .error .diverges
  | fuel + 1, buffer, request =>
    if buffer.size = 0 then .ok (some request)
    else do
      match ← findChunk buffer.cells with
      | none => .ok none
      | some (pos, nsize) =>
        if nsize = 0 then .ok (some request)
        else if ptrdiffMax < toUInt64 (request.size + nsize : Nat) then .ok none
        else do
          let request := { request with size := toUInt64 (request.size + nsize : Nat) }
          match ← copyChunk (buffer.unread + 1) buffer request pos nsize with
          | .failed => .ok none
          | .ended request => .ok (some request)
          | .copied buffer request =>
            if crlf <+: buffer.cells then readChunks fuel buffer request else .ok none

/-- `stack` is what the buffer holds before -/
def readChunked (stack : List UInt8) (request : BodyRequest) (already : List UInt8)
    (later : List (List UInt8)) : Exec (Option BodyRequest) :=
  let r := min already.length maxRead
  let buffer : ReadBuffer :=
    { cells := already.take r ++ stack.drop r
      size := r
      already := already.drop r
      later := later }
  readChunks (already.length + later.flatten.length + 1) buffer request

/-! ## api_send_resp_chunks -/

/-- `0` and two line ends -/
def lastChunk : List UInt8 := 48 :: (crlf ++ crlf)

/-- the last chunk is sent behind the last one that is not empty -/
def apiSendRespChunks (buf : List UInt8) : List UInt8 :=
  if h : 0 < buf.length then
    let s := min buf.length maxChunk
    numeral 16 s ++ crlf ++ buf.take s ++
      (if buf.length - s = 0 then crlf ++ lastChunk else crlf) ++ apiSendRespChunks (buf.drop s)
  else []
termination_by buf.length
decreasing_by
  rw [List.length_drop]
  unfold maxChunk
  omega

/-! ## what is sent, and how it is cut -/

def chunkLine (chunk : List UInt8) : List UInt8 := numeral 16 chunk.length ++ crlf

def chunkedEncoding : List (List UInt8) → List UInt8
  | [] => lastChunk
  | chunk :: chunks => chunkLine chunk ++ (chunk ++ (crlf ++ chunkedEncoding chunks))

/-- the buffer without its first `k` bytes -/
def ReadBuffer.shift (buffer : ReadBuffer) (k : Nat) : ReadBuffer :=
  { buffer with
    cells := (buffer.cells.drop k).take (buffer.size - k) ++ buffer.cells.drop (buffer.size - k)
    size := buffer.size - k }

/-- the buffer after a read, if anything is ready -/
def ReadBuffer.received (buffer : ReadBuffer) : ReadBuffer :=
  match buffer.receive with
  | none => buffer
  | some (_, buffer) => buffer

/-- the buffer when `n` bytes behind the first `pos` have been taken out of it, with a read behind
each taking -/
def ReadBuffer.drain : Nat → ReadBuffer → Nat → Nat → ReadBuffer
  | 0, buffer, _, _ => buffer
  | fuel + 1, buffer, pos, n =>
    if n ≤ buffer.size - pos then (buffer.shift (pos + n)).received
    else (buffer.shift buffer.size).received.drain fuel 0 (n - (buffer.size - pos))

/-- the whole line of a chunk is in the buffer, and no more than ten characters, each time that
the server looks for it; the last line may be made up by what is behind -/
def Fed : List UInt8 → List (List UInt8) → ReadBuffer → Prop
  | _, [], buffer => crlf <+: buffer.cells ∧ ∃ pos, findChunk buffer.cells = .ok (some (pos, 0))
  | before, chunk :: chunks, buffer =>
    (before ++ chunkLine chunk).length ≤ buffer.size ∧
      (before ++ numeral 16 chunk.length).length ≤ 10 ∧
      Fed crlf chunks (ReadBuffer.drain (buffer.later.flatten.length + 1) buffer
        (before ++ chunkLine chunk).length chunk.length)

/-! ## the buffer holds what is left -/

/-- the buffer is filled with the beginning of `stream`, and the reads to come give the rest -/
structure ReadBuffer.Holds (buffer : ReadBuffer) (stream : List UInt8) : Prop where
  full : buffer.cells.length = maxRead
  fits : buffer.size ≤ maxRead
  done : buffer.already = []
  read : ∀ piece ∈ buffer.later, piece ≠ []
  left : buffer.cells.take buffer.size ++ buffer.later.flatten = stream

section
variable {buffer : ReadBuffer} {request : BodyRequest} {before front data stream rest : List UInt8}
  {chunk : List UInt8} {chunks : List (List UInt8)} {fuel pos n : Nat}

theorem ReadBuffer.refill_of_done (h : buffer.already = []) : buffer.refill = buffer := by
  obtain ⟨cells, size, already, later⟩ := buffer
  obtain rfl : already = [] := h
  unfold ReadBuffer.refill
  simp only [List.length_nil, Nat.zero_min, List.take_nil, List.drop_zero, List.nil_append,
    Nat.add_zero]

theorem ReadBuffer.Holds.shift (h : buffer.Holds (front ++ stream))
    (hsize : front.length ≤ buffer.size) : (buffer.shift front.length).Holds stream := by
  have hfits := h.fits
  have hfull := h.full
  have hleft := h.left
  have hlen : ((buffer.cells.drop front.length).take (buffer.size - front.length)).length =
      buffer.size - front.length := by
    rw [List.length_take, List.length_drop]
    omega
  refine ⟨?_, ?_, h.done, h.read, ?_⟩
  · show ((buffer.cells.drop front.length).take _ ++ _).length = _
    rw [List.length_append, hlen, List.length_drop]
    omega
  · show buffer.size - front.length ≤ _
    omega
  · show ((buffer.cells.drop front.length).take _ ++ _).take (buffer.size - front.length) ++
      buffer.later.flatten = stream
    rw [List.take_left' hlen, ← List.drop_take]
    have hcut := congrArg (List.drop front.length) hleft
    rw [List.drop_left, List.drop_append_of_le_length] at hcut
    · exact hcut
    · rw [List.length_take]
      omega

/-- a read when there is room -/
theorem ReadBuffer.Holds.receive (h : buffer.Holds stream) (hroom : buffer.size < maxRead)
    (hlater : buffer.later ≠ []) :
    ∃ r, buffer.receive = some (r, buffer.received) ∧ 0 < r ∧ buffer.received.Holds stream ∧
      buffer.received.size = buffer.size + r ∧
      buffer.received.later.flatten.length + r = buffer.later.flatten.length := by
  obtain ⟨piece, later, hcons⟩ := List.exists_cons_of_ne_nil hlater
  have hfull := h.full
  have hne := h.read piece (by rw [hcons]; exact List.mem_cons_self)
  have hpos := List.length_pos_iff.2 hne
  have hleft := h.left
  rw [hcons, List.flatten_cons] at hleft
  unfold ReadBuffer.received ReadBuffer.receive
  rw [hcons]
  simp only
  have htake : (buffer.cells.take buffer.size).length = buffer.size := by
    rw [List.length_take]
    omega
  have hpiece : (piece.take (min piece.length (maxRead - buffer.size))).length =
      min piece.length (maxRead - buffer.size) := by
    rw [List.length_take]
    omega
  -- what the reads to come give, with and without a rest of this one
  have hflat : (if min piece.length (maxRead - buffer.size) < piece.length then
        piece.drop (min piece.length (maxRead - buffer.size)) :: later else later).flatten =
      piece.drop (min piece.length (maxRead - buffer.size)) ++ later.flatten := by
    split
    · rfl
    · rw [List.drop_of_length_le (by omega), List.nil_append]
  refine ⟨_, rfl, by omega, ⟨?_, ?_, h.done, ?_, ?_⟩, rfl, ?_⟩
  · show (_ ++ _ ++ buffer.cells.drop _).length = _
    rw [List.length_append, List.length_append, htake, hpiece, List.length_drop]
    omega
  · show buffer.size + min _ _ ≤ _
    omega
  · intro other hother
    have hlater : ∀ other ∈ later, other ≠ [] := fun other hm =>
      h.read other (by rw [hcons]; exact List.mem_cons_of_mem _ hm)
    have hother : other ∈ (if min piece.length (maxRead - buffer.size) < piece.length then
        piece.drop (min piece.length (maxRead - buffer.size)) :: later else later) := hother
    split at hother
    · next hlt =>
      rcases List.mem_cons.1 hother with rfl | hm
      · rw [← List.length_pos_iff, List.length_drop]
        omega
      · exact hlater other hm
    · exact hlater other hother
  · show List.take (buffer.size + _) (_ ++ _ ++ _) ++ List.flatten _ = stream
    rw [hflat, List.take_left' (by rw [List.length_append, htake, hpiece]), List.append_assoc,
      ← List.append_assoc (piece.take _), List.take_append_drop]
    exact hleft
  · show (List.flatten _).length + _ = _
    rw [hflat, List.length_append, List.length_drop, List.flatten_cons, List.length_append]
    omega

theorem ReadBuffer.receive_of_nil (h : buffer.later = []) : buffer.receive = none := by
  unfold ReadBuffer.receive
  rw [h]

/-- what is in the buffer is the beginning of the stream -/
theorem ReadBuffer.Holds.take_size (h : buffer.Holds stream) :
    buffer.cells.take buffer.size = stream.take buffer.size := by
  have hfull := h.full
  have hfits := h.fits
  rw [← h.left, List.take_left']
  rw [List.length_take]
  omega

/-! ## lines -/

/-- in front of a line there is nothing, or the end of the chunk before -/
def Before (before : List UInt8) : Prop := before = [] ∨ before = crlf

theorem Before.isSpace (h : Before before) : ∀ s ∈ before, isSpace s = true := by
  rcases h with rfl | rfl
  · intro s hs
    cases hs
  · intro s hs
    rcases List.mem_cons.1 hs with rfl | hs
    · decide
    · obtain rfl := List.mem_singleton.1 hs
      decide

theorem numeral_ne_cr {c : UInt8} (h : c ∈ numeral 16 n) : c ≠ 13 := by
  obtain ⟨d, hd⟩ := exists_digit_of_mem_numeral (by decide) (by decide) h
  rintro rfl
  exact absurd (lt_of_digitIn hd) (by decide)

/-- **a whole line** is found when it has no more than ten characters -/
theorem findChunk_line (hbefore : Before before) :
    findChunk ((before ++ (numeral 16 n ++ crlf)) ++ rest) =
      if (before ++ numeral 16 n).length ≤ 10 then
        .ok (some ((before ++ (numeral 16 n ++ crlf)).length, n))
      else .ok none := by
  have hshape : (before ++ (numeral 16 n ++ crlf)) ++ rest =
      before ++ (numeral 16 n ++ 13 :: (10 :: rest)) := by
    rw [List.append_assoc, List.append_assoc]
    rfl
  have hread := @strtol_numeral 16 n 13 before (10 :: rest) (by decide) (by decide)
    hbefore.isSpace (by decide) (by decide)
  unfold findChunk
  rw [hshape, hread, ok_bind, List.length_append]
  show (if 10 < before.length + (numeral 16 n).length then _ else if crlf <+: List.drop
    (before.length + (numeral 16 n).length) _ then _ else _) = _
  have hdrop : (before ++ (numeral 16 n ++ 13 :: (10 :: rest))).drop
      (before.length + (numeral 16 n).length) = 13 :: (10 :: rest) := by
    rw [← List.length_append, ← List.append_assoc, List.drop_left]
  by_cases hten : before.length + (numeral 16 n).length ≤ 10
  · have hcrlf : crlf <+: 13 :: (10 :: rest) := ⟨rest, rfl⟩
    have hn : n < 16 ^ 10 := (length_numeral_le_iff (by decide) (by decide)).1 (by omega)
    rw [if_neg (by omega), hdrop, if_pos hcrlf, if_pos hten, toLong_natCast_of_lt (by omega),
      toUInt64_natCast_of_lt (by omega)]
    simp only [List.length_append, Nat.add_assoc]
    rfl
  · rw [if_pos (by omega), if_neg hten]

/-- a number that is not zero has a digit, and a line end behind it -/
theorem findChunk_some {cells : List UInt8} (h : findChunk cells = .ok (some (pos, n)))
    (hn : n ≠ 0) : 2 < pos ∧ pos ≤ 12 ∧ cells[pos - 2]? = some 13 ∧ cells[pos - 1]? = some 10 := by
  obtain ⟨⟨size, p⟩, hread, h⟩ := bind_eq_ok.1 h
  have h : (if 10 < p then (.ok none : Exec (Option (Nat × Nat)))
      else if crlf <+: cells.drop p then .ok (some (p + 2, toUInt64 size))
      else .ok none) = .ok (some (pos, n)) := h
  by_cases hten : 10 < p
  · rw [if_pos hten] at h
    cases h
  rw [if_neg hten] at h
  by_cases hcrlf : crlf <+: cells.drop p
  · rw [if_pos hcrlf] at h
    cases h
    have hp : 0 < p := by
      obtain ⟨-, hread⟩ := require_bind_eq_ok.1 hread
      split at hread
      · cases hread
        exact absurd (by unfold toUInt64; rfl) hn
      · next hdigits =>
        cases hread
        have hpos := List.length_pos_iff.2 hdigits
        omega
    obtain ⟨rest, hrest⟩ := hcrlf
    have h0 : (cells.drop p)[0]? = some 13 := by rw [← hrest]; rfl
    have h1 : (cells.drop p)[1]? = some 10 := by rw [← hrest]; rfl
    rw [List.getElem?_drop] at h0 h1
    exact ⟨by omega, by omega, h0, h1⟩
  · rw [if_neg hcrlf] at h
    cases h

/-- **a line that is found** in what has been read is whole -/
theorem line_of_findChunk (hbefore : Before before)
    (h : buffer.Holds (before ++ (numeral 16 n ++ crlf) ++ rest))
    (hfound : findChunk buffer.cells = .ok (some (pos, fuel))) (hne : fuel ≠ 0)
    (hpos : pos ≤ buffer.size) : (before ++ (numeral 16 n ++ crlf)).length ≤ buffer.size := by
  obtain ⟨hlow, -, h13, -⟩ := findChunk_some hfound hne
  by_contra hlt
  rw [← List.append_assoc, List.length_append] at hlt
  have hcrlf : crlf.length = 2 := rfl
  -- the end of the line that was found lies before the end of the line
  have hin : (before ++ numeral 16 n)[pos - 2]? = some 13 := by
    have hcell : (buffer.cells.take buffer.size)[pos - 2]? = some 13 := by
      rw [List.getElem?_take_of_lt (by omega)]
      exact h13
    rw [h.take_size, List.getElem?_take_of_lt (by omega), ← List.append_assoc,
      List.append_assoc (before ++ numeral 16 n), List.getElem?_append_left (by omega)] at hcell
    exact hcell
  have hmem : 13 ∈ numeral 16 n := by
    rcases hbefore with rfl | rfl
    · rw [List.nil_append] at hin
      exact List.mem_of_getElem? hin
    · by_cases h3 : pos = 3
      · rw [h3] at hin
        exact absurd (Option.some.inj hin) (by decide)
      · rw [List.getElem?_append_right (by rw [hcrlf]; omega)] at hin
        exact List.mem_of_getElem? hin
  exact numeral_ne_cr hmem rfl

/-! ## copying a chunk -/

/-- a part of a chunk whose beginning is in the buffer -/
theorem copyPart_eq (h : buffer.Holds (front ++ (data ++ rest)))
    (hsize : front.length ≤ buffer.size)
    (hroom : request.offset + request.body.length + data.length ≤ request.size) :
    copyPart buffer request front.length data.length =
      .ok (buffer.shift (front.length + min data.length (buffer.size - front.length)),
        { request with body := request.body ++ data.take (buffer.size - front.length) },
        data.length - min data.length (buffer.size - front.length)) := by
  have hfull := h.full
  have hfits := h.fits
  unfold maxRead at hfull hfits
  have hsub : toUInt64 (buffer.size - front.length) = buffer.size - front.length := by
    rw [← Nat.cast_sub hsize]
    exact toUInt64_natCast_of_lt (by omega)
  -- what is copied is the beginning of the data
  have hcopied : (buffer.cells.drop front.length).take
      (min data.length (buffer.size - front.length)) = data.take (buffer.size - front.length) := by
    have hcut := congrArg (List.drop front.length) h.take_size
    rw [List.drop_take, List.drop_take, List.drop_left] at hcut
    rw [← List.take_take, hcut, List.take_take, Nat.min_comm, ← List.take_take, List.take_left]
  unfold copyPart
  rw [hsub]
  simp only
  rw [require_pos (by omega), ok_bind, require_pos (by omega), ok_bind, require_pos (by omega),
    ok_bind, hcopied]
  unfold ReadBuffer.shift
  have hrest : buffer.size - (front.length + min data.length (buffer.size - front.length)) =
      buffer.size - front.length - min data.length (buffer.size - front.length) := by omega
  rw [hrest]

/-- what is copied beyond what has been read is moved from beyond the buffer -/
theorem copyPart_beyond {request' : BodyRequest} {buffer' : ReadBuffer} {left : Nat}
    (hfull : buffer.cells.length = maxRead) (hpos : pos ≤ 12) (hlt : buffer.size < pos) :
    copyPart buffer request pos n ≠ .ok (buffer', request', left) := by
  intro h
  unfold copyPart at h
  obtain ⟨-, h⟩ := require_bind_eq_ok.1 h
  obtain ⟨-, h⟩ := require_bind_eq_ok.1 h
  obtain ⟨hin, -⟩ := require_bind_eq_ok.1 h
  have hwrap : 2 ^ 64 - 12 ≤ toUInt64 (buffer.size - pos) := by
    unfold toUInt64
    norm_num
    omega
  rw [hfull] at hin
  unfold maxRead at hin
  omega

theorem copyChunk_succ {left : Nat} {buffer' : ReadBuffer} {request' : BodyRequest}
    (h : copyPart buffer request pos n = .ok (buffer', request', left))
    (hdone : buffer'.already = []) :
    copyChunk (fuel + 1) buffer request pos n = match buffer'.receive with
      | none =>
        if 0 < left then copyChunk fuel buffer' request' 0 left
        else .ok (.copied buffer' request')
      | some (r, buffer) =>
        if r = 0 then .ok (if left = 0 then .ended request' else .failed)
        else if 0 < left then copyChunk fuel buffer request' 0 left
        else .ok (.copied buffer request') := by
  rw [copyChunk, h, ok_bind]
  simp only [ReadBuffer.refill_of_done hdone]

/-- nothing more is read where the buffer has all that is left -/
theorem ReadBuffer.Holds.later_ne_nil (h : buffer.Holds stream) (hempty : buffer.size = 0)
    (hne : stream ≠ []) : buffer.later ≠ [] := by
  intro hlater
  have hleft := h.left
  rw [hempty, hlater] at hleft
  exact hne hleft.symm

/-- **the last part** of a chunk, and what is behind it -/
theorem copyChunk_last (h : buffer.Holds (front ++ (data ++ rest)))
    (hsize : front.length ≤ buffer.size) (hdata : data ≠ []) (hrest : rest ≠ [])
    (hroom : request.offset + request.body.length + data.length ≤ request.size)
    (hwhole : data.length ≤ buffer.size - front.length) :
    copyChunk (fuel + 1) buffer request front.length data.length =
        .ok (.copied (buffer.shift (front.length + data.length)).received
          { request with body := request.body ++ data }) ∧
      (buffer.shift (front.length + data.length)).received.Holds rest ∧
      0 < (buffer.shift (front.length + data.length)).received.size := by
  have hpos := List.length_pos_iff.2 hdata
  have hfits := h.fits
  have hpart := copyPart_eq h hsize hroom
  rw [Nat.min_eq_left hwhole, List.take_of_length_le hwhole, Nat.sub_self] at hpart
  have hshape : (front ++ data).length = front.length + data.length := List.length_append
  have hnext : (buffer.shift (front.length + data.length)).Holds rest := by
    rw [← hshape]
    refine ReadBuffer.Holds.shift ?_ (by omega)
    rw [List.append_assoc]
    exact h
  rw [copyChunk_succ hpart h.done]
  by_cases hlater : buffer.later = []
  · have hnone := @ReadBuffer.receive_of_nil (buffer.shift (front.length + data.length)) hlater
    have hsame : (buffer.shift (front.length + data.length)).received =
        buffer.shift (front.length + data.length) := by
      unfold ReadBuffer.received
      rw [hnone]
    rw [hnone, hsame]
    refine ⟨rfl, hnext, Nat.pos_of_ne_zero fun hzero => ?_⟩
    exact hnext.later_ne_nil hzero hrest hlater
  · have hroom : (buffer.shift (front.length + data.length)).size < maxRead := by
      show buffer.size - (front.length + data.length) < maxRead
      unfold maxRead at *
      omega
    obtain ⟨r, hreceive, hr, hholds, hnew, -⟩ := hnext.receive hroom hlater
    rw [hreceive]
    refine ⟨?_, hholds, by omega⟩
    show (if r = 0 then _ else _) = _
    rw [if_neg (by omega), if_neg (Nat.lt_irrefl 0)]

/-- **a part** of a chunk that goes on: all there is in the buffer, and a read behind it -/
theorem copyChunk_part (h : buffer.Holds (front ++ (data ++ rest)))
    (hsize : front.length ≤ buffer.size)
    (hroom : request.offset + request.body.length + data.length ≤ request.size)
    (hlt : buffer.size - front.length < data.length) :
    copyChunk (fuel + 1) buffer request front.length data.length =
        copyChunk fuel (buffer.shift buffer.size).received
          { request with body := request.body ++ data.take (buffer.size - front.length) } 0
          (data.drop (buffer.size - front.length)).length ∧
      (buffer.shift buffer.size).received.Holds
        (data.drop (buffer.size - front.length) ++ rest) ∧
      (buffer.shift buffer.size).received.later.flatten.length < buffer.later.flatten.length := by
  have hpart := copyPart_eq h hsize hroom
  have hall : front.length + (buffer.size - front.length) = buffer.size := by omega
  rw [Nat.min_eq_right (by omega), hall] at hpart
  have hshape : (front ++ data.take (buffer.size - front.length)).length = buffer.size := by
    rw [List.length_append, List.length_take]
    omega
  have hnext : (buffer.shift buffer.size).Holds
      (data.drop (buffer.size - front.length) ++ rest) := by
    have hshift := @ReadBuffer.Holds.shift buffer
      (front ++ data.take (buffer.size - front.length))
      (data.drop (buffer.size - front.length) ++ rest)
    rw [hshape] at hshift
    refine hshift ?_ (Nat.le_refl _)
    rw [List.append_assoc, ← List.append_assoc (data.take _), List.take_append_drop]
    exact h
  have hmore : 0 < (data.drop (buffer.size - front.length)).length := by
    rw [List.length_drop]
    omega
  have hempty : (buffer.shift buffer.size).size = 0 := Nat.sub_self _
  have hlater := hnext.later_ne_nil hempty fun hnil =>
    List.length_pos_iff.1 hmore (List.append_eq_nil_iff.1 hnil).1
  have hroom' : (buffer.shift buffer.size).size < maxRead := by
    rw [hempty]
    decide
  obtain ⟨r, hreceive, hr, hholds, -, hunread⟩ := hnext.receive hroom' hlater
  have hunread : (buffer.shift buffer.size).received.later.flatten.length + r =
      buffer.later.flatten.length := hunread
  refine ⟨?_, hholds, by omega⟩
  rw [copyChunk_succ hpart h.done, hreceive, ← List.length_drop]
  show (if r = 0 then _ else _) = _
  rw [if_neg (by omega), if_pos hmore]

/-- **a chunk** is copied whole, and the buffer then holds what is behind it -/
theorem copyChunk_eq (h : buffer.Holds (front ++ (data ++ rest)))
    (hsize : front.length ≤ buffer.size) (hdata : data ≠ []) (hrest : rest ≠ [])
    (hroom : request.offset + request.body.length + data.length ≤ request.size)
    (hfuel : buffer.later.flatten.length < fuel) :
    copyChunk fuel buffer request front.length data.length =
        .ok (.copied (buffer.drain fuel front.length data.length)
          { request with body := request.body ++ data }) ∧
      (buffer.drain fuel front.length data.length).Holds rest ∧
      0 < (buffer.drain fuel front.length data.length).size := by
  induction fuel generalizing buffer request front data with
  | zero => exact absurd hfuel (Nat.not_lt_zero _)
  | succ fuel ih =>
    rw [ReadBuffer.drain]
    by_cases hwhole : data.length ≤ buffer.size - front.length
    · rw [if_pos hwhole]
      exact copyChunk_last h hsize hdata hrest hroom hwhole
    · have hlt : buffer.size - front.length < data.length := Nat.lt_of_not_le hwhole
      obtain ⟨hstep, hholds, hunread⟩ := @copyChunk_part _ _ _ _ _ fuel h hsize hroom hlt
      have hmore : data.drop (buffer.size - front.length) ≠ [] := by
        rw [← List.length_pos_iff, List.length_drop]
        omega
      have hrec := @ih (buffer.shift buffer.size).received
        { request with body := request.body ++ data.take (buffer.size - front.length) } []
        (data.drop (buffer.size - front.length)) hholds (Nat.zero_le _) hmore ?_ (by omega)
      · rw [List.append_assoc, List.take_append_drop] at hrec
        rw [if_neg hwhole, hstep, ← List.length_drop]
        exact hrec
      · show request.offset + (request.body ++ data.take _).length + _ ≤ request.size
        rw [List.length_append, List.length_take, List.length_drop]
        omega

/-! ## reading the chunks -/

theorem readChunks_empty (hsize : buffer.size = 0) :
    readChunks (fuel + 1) buffer request = .ok (some request) := by
  rw [readChunks, if_pos hsize]

/-- a pass of the loop -/
theorem readChunks_succ (hsize : 0 < buffer.size) :
    readChunks (fuel + 1) buffer request = findChunk buffer.cells >>= fun found =>
      match found with
      | none => .ok none
      | some (pos, nsize) =>
        if nsize = 0 then .ok (some request)
        else if ptrdiffMax < toUInt64 (request.size + nsize : Nat) then .ok none
        else copyChunk (buffer.unread + 1) buffer
            { request with size := toUInt64 (request.size + nsize : Nat) } pos nsize >>=
          fun copied =>
            match copied with
            | .failed => .ok none
            | .ended request => .ok (some request)
            | .copied buffer request =>
              if crlf <+: buffer.cells then readChunks fuel buffer request else .ok none := by
  rw [readChunks, if_neg (by omega)]

/-- a line that is not whole is not copied behind -/
theorem readChunks_beyond {request' : BodyRequest} (hfull : buffer.cells.length = maxRead)
    (hsize : 0 < buffer.size) (hfound : findChunk buffer.cells = .ok (some (pos, n))) (hn : n ≠ 0)
    (hlt : buffer.size < pos) : readChunks (fuel + 1) buffer request ≠ .ok (some request') := by
  intro h
  obtain ⟨-, hpos, -⟩ := findChunk_some hfound hn
  rw [readChunks_succ hsize, hfound, ok_bind] at h
  simp only at h
  rw [if_neg hn] at h
  split at h
  · cases h
  · obtain ⟨copied, hcopied, -⟩ := bind_eq_ok.1 h
    obtain ⟨⟨buffer', request', left⟩, hpart, -⟩ := bind_eq_ok.1 hcopied
    exact copyPart_beyond hfull hpos hlt hpart

/-- **behind the last chunk** the server stops when what the buffer begins with says zero -/
theorem readChunks_last (h : buffer.Holds (crlf ++ lastChunk)) (hsize : 0 < buffer.size) :
    (∃ request', readChunks (fuel + 1) buffer request = .ok (some request') ∧
      request'.body = request.body) ↔ ∃ pos, findChunk buffer.cells = .ok (some (pos, 0)) := by
  constructor
  · rintro ⟨request', hread, -⟩
    have hfirst := hread
    rw [readChunks_succ hsize] at hfirst
    obtain ⟨found, hfound, hrest⟩ := bind_eq_ok.1 hfirst
    cases found with
    | none => cases hrest
    | some found =>
      obtain ⟨pos, n⟩ := found
      by_cases hn : n = 0
      · rw [hn] at hfound
        exact ⟨pos, hfound⟩
      · by_cases hpos : pos ≤ buffer.size
        · -- the line is whole, and says zero
          have hlast : crlf ++ lastChunk = crlf ++ (numeral 16 0 ++ crlf) ++ crlf := by decide
          rw [hlast] at h
          have hline := line_of_findChunk (.inr rfl) h hfound hn hpos
          have hcells : buffer.cells = (crlf ++ (numeral 16 0 ++ crlf)) ++
              buffer.cells.drop (crlf ++ (numeral 16 0 ++ crlf)).length := by
            have htake := congrArg (List.take (crlf ++ (numeral 16 0 ++ crlf)).length) h.take_size
            rw [List.take_take, List.take_take, Nat.min_eq_left hline, List.take_left] at htake
            have happ := List.take_append_drop (crlf ++ (numeral 16 0 ++ crlf)).length buffer.cells
            rw [htake] at happ
            exact happ.symm
          rw [hcells, findChunk_line (.inr rfl), if_pos (by decide)] at hfound
          cases hfound
          exact absurd rfl hn
        · exact absurd hread (readChunks_beyond h.full hsize hfound hn (by omega))
  · rintro ⟨pos, hfound⟩
    refine ⟨request, ?_, rfl⟩
    rw [readChunks_succ hsize, hfound]
    rfl

/-- a whole line in front of what is in the buffer -/
theorem ReadBuffer.Holds.line {line : List UInt8} (h : buffer.Holds (line ++ rest))
    (hline : line.length ≤ buffer.size) : ∃ more, buffer.cells = line ++ more := by
  have htake := congrArg (List.take line.length) h.take_size
  rw [List.take_take, List.take_take, Nat.min_eq_left hline, List.take_left] at htake
  have happ := List.take_append_drop line.length buffer.cells
  rw [htake] at happ
  exact ⟨_, happ.symm⟩

theorem chunkedEncoding_ne_nil (chunks : List (List UInt8)) : chunkedEncoding chunks ≠ [] := by
  cases chunks with
  | nil => exact List.cons_ne_nil _ _
  | cons chunk chunks =>
    intro h
    have hline := (List.append_eq_nil_iff.1 h).1
    have hcrlf := (List.append_eq_nil_iff.1 hline).2
    cases hcrlf

/-- what is fed begins with the end of the chunk before -/
theorem ReadBuffer.Holds.fed_crlf (h : buffer.Holds (crlf ++ chunkedEncoding chunks))
    (hfed : Fed crlf chunks buffer) : crlf <+: buffer.cells := by
  cases chunks with
  | nil => exact hfed.1
  | cons chunk chunks =>
    have h' : buffer.Holds ((crlf ++ chunkLine chunk) ++
        (chunk ++ (crlf ++ chunkedEncoding chunks))) := by
      rw [List.append_assoc]
      exact h
    obtain ⟨more, hcells⟩ := h'.line hfed.1
    rw [hcells, List.append_assoc]
    exact List.prefix_append _ _

/-- the buffer behind a chunk -/
def ReadBuffer.behind (buffer : ReadBuffer) (before chunk : List UInt8) : ReadBuffer :=
  buffer.drain (buffer.later.flatten.length + 1) (before ++ chunkLine chunk).length chunk.length

/-- a chunk behind a line that is there -/
theorem copyChunk_line
    (h : buffer.Holds ((before ++ chunkLine chunk) ++ (chunk ++ (crlf ++ chunkedEncoding chunks))))
    (hline : (before ++ chunkLine chunk).length ≤ buffer.size) (hne : chunk ≠ [])
    (hroom : request.offset + request.body.length + chunk.length ≤ request.size) :
    copyChunk (buffer.unread + 1) buffer request (before ++ chunkLine chunk).length chunk.length =
        .ok (.copied (buffer.behind before chunk)
          { request with body := request.body ++ chunk }) ∧
      (buffer.behind before chunk).Holds (crlf ++ chunkedEncoding chunks) ∧
      0 < (buffer.behind before chunk).size := by
  have hrest : crlf ++ chunkedEncoding chunks ≠ [] := fun hnil =>
    chunkedEncoding_ne_nil chunks (List.append_eq_nil_iff.1 hnil).2
  have hunread : buffer.unread = buffer.later.flatten.length := by
    unfold ReadBuffer.unread
    rw [h.done, List.length_nil, Nat.zero_add]
  rw [hunread]
  exact copyChunk_eq h hline hne hrest hroom (Nat.lt_succ_self _)

/-- **a pass on a line that is there**: the chunk is copied when its number is short, there is
memory for it, and a line end follows -/
theorem readChunks_line (hbefore : Before before)
    (h : buffer.Holds ((before ++ chunkLine chunk) ++ (chunk ++ (crlf ++ chunkedEncoding chunks))))
    (hline : (before ++ chunkLine chunk).length ≤ buffer.size) (hne : chunk ≠ [])
    (hrequest : request.offset + request.body.length = request.size)
    (hmax : request.size ≤ ptrdiffMax) :
    readChunks (fuel + 1) buffer request =
      if (before ++ numeral 16 chunk.length).length ≤ 10 ∧
          request.size + chunk.length ≤ ptrdiffMax ∧ crlf <+: (buffer.behind before chunk).cells
      then readChunks fuel (buffer.behind before chunk)
        { request with size := request.size + chunk.length, body := request.body ++ chunk }
      else .ok none := by
  have hpos := List.length_pos_iff.2 hne
  obtain ⟨more, hcells⟩ := h.line hline
  have hfound := @findChunk_line before more chunk.length hbefore
  unfold chunkLine at hcells
  rw [← hcells] at hfound
  have hsize : 0 < buffer.size := by
    have hcrlf : crlf.length = 2 := rfl
    rw [List.length_append, chunkLine, List.length_append] at hline
    omega
  rw [readChunks_succ hsize, hfound]
  by_cases hten : (before ++ numeral 16 chunk.length).length ≤ 10
  · have hsmall : chunk.length < 16 ^ 10 := by
      refine (length_numeral_le_iff (by decide) (by decide)).1 ?_
      rw [List.length_append] at hten
      omega
    rw [if_pos hten, ok_bind]
    simp only
    rw [if_neg (by omega), toUInt64_natCast_of_lt (by unfold ptrdiffMax at hmax; omega)]
    by_cases hfits : request.size + chunk.length ≤ ptrdiffMax
    · obtain ⟨hcopy, -, -⟩ := @copyChunk_line buffer
        { request with size := request.size + chunk.length } before chunk chunks h hline hne
        (by rw [← hrequest])
      unfold chunkLine at hcopy
      rw [if_neg (by omega), hcopy, ok_bind]
      simp only [hten, hfits, true_and]
    · rw [if_pos (by omega), if_neg fun hall => hfits hall.2.1]
  · rw [if_neg hten, ok_bind, if_neg fun hall => hten hall.1]

/-- **without the line** the server fails, or stops with a part of the body -/
theorem readChunks_cut (hbefore : Before before)
    (h : buffer.Holds ((before ++ chunkLine chunk) ++ rest)) (hsize : 0 < buffer.size)
    (hline : ¬ (before ++ chunkLine chunk).length ≤ buffer.size) {request' : BodyRequest}
    (hread : readChunks (fuel + 1) buffer request = .ok (some request')) :
    request'.body = request.body := by
  have hfirst := hread
  rw [readChunks_succ hsize] at hfirst
  obtain ⟨found, hfound, hrest⟩ := bind_eq_ok.1 hfirst
  cases found with
  | none => cases hrest
  | some found =>
    obtain ⟨pos, n⟩ := found
    by_cases hn : n = 0
    · simp only at hrest
      rw [if_pos hn] at hrest
      cases hrest
      rfl
    · by_cases hin : pos ≤ buffer.size
      · exact absurd (line_of_findChunk hbefore h hfound hn hin) hline
      · exact absurd hread (readChunks_beyond h.full hsize hfound hn (by omega))

/-- **the chunks come back** when each line is in the buffer as it is looked for -/
theorem readChunks_iff (hbefore : before = [] ∧ chunks ≠ [] ∨ before = crlf ∧ crlf <+: buffer.cells)
    (h : buffer.Holds (before ++ chunkedEncoding chunks)) (hsize : 0 < buffer.size)
    (hchunks : ∀ chunk ∈ chunks, chunk ≠ []) (hfuel : chunks.length < fuel)
    (hrequest : request.offset + request.body.length = request.size)
    (hmax : request.size ≤ ptrdiffMax) :
    (∃ request', readChunks fuel buffer request = .ok (some request') ∧
      request'.body = request.body ++ chunks.flatten) ↔
    Fed before chunks buffer ∧ request.size + chunks.flatten.length ≤ ptrdiffMax := by
  induction chunks generalizing buffer request before fuel with
  | nil =>
    obtain ⟨fuel, rfl⟩ : ∃ k, fuel = k + 1 := ⟨fuel - 1, by omega⟩
    rcases hbefore with hbefore | ⟨rfl, hcrlf⟩
    · exact absurd rfl hbefore.2
    · rw [List.flatten_nil, List.append_nil, readChunks_last h hsize]
      exact ⟨fun hlast => ⟨⟨hcrlf, hlast⟩, hmax⟩, fun hfed => hfed.1.2⟩
  | cons chunk chunks ih =>
    rw [List.length_cons] at hfuel
    obtain ⟨fuel, rfl⟩ : ∃ k, fuel = k + 1 := ⟨fuel - 1, by omega⟩
    have hbefore' : Before before := hbefore.imp And.left And.left
    have hne := hchunks chunk List.mem_cons_self
    have hpos := List.length_pos_iff.2 hne
    have h' : buffer.Holds ((before ++ chunkLine chunk) ++
        (chunk ++ (crlf ++ chunkedEncoding chunks))) := by
      rw [List.append_assoc]
      exact h
    rw [List.flatten_cons, List.length_append]
    show _ ↔ (_ ∧ _ ∧ Fed crlf chunks (buffer.behind before chunk)) ∧ _
    by_cases hline : (before ++ chunkLine chunk).length ≤ buffer.size
    · rw [readChunks_line hbefore' h' hline hne hrequest hmax]
      split
      · next hall =>
        obtain ⟨hten, hfits, hcrlf⟩ := hall
        obtain ⟨-, hnext, hsize'⟩ := @copyChunk_line buffer
          { request with size := request.size + chunk.length } before chunk chunks h' hline hne
          (by rw [← hrequest])
        have hrec := @ih _ { request with
            size := request.size + chunk.length
            body := request.body ++ chunk } crlf fuel (.inr ⟨rfl, hcrlf⟩) hnext hsize'
          (fun c hc => hchunks c (List.mem_cons_of_mem _ hc)) (by omega)
          (by show request.offset + (request.body ++ chunk).length = request.size + chunk.length
              rw [List.length_append]
              omega) hfits
        rw [← List.append_assoc]
        refine hrec.trans ?_
        show Fed crlf chunks _ ∧ request.size + chunk.length + chunks.flatten.length ≤ _ ↔ _
        rw [Nat.add_assoc]
        exact ⟨fun hfed => ⟨⟨hline, hten, hfed.1⟩, hfed.2⟩, fun hfed => ⟨hfed.1.2.2, hfed.2⟩⟩
      · next hnot =>
        refine ⟨fun hread => ?_, fun hfed => absurd ?_ hnot⟩
        · obtain ⟨_, hread, -⟩ := hread
          cases hread
        · obtain ⟨⟨-, hten, hmore⟩, hfits⟩ := hfed
          have hfits' : request.size + chunk.length ≤ ptrdiffMax := by omega
          obtain ⟨-, hnext, -⟩ := @copyChunk_line buffer
            { request with size := request.size + chunk.length } before chunk chunks h' hline hne
            (by rw [← hrequest])
          exact ⟨hten, hfits', hnext.fed_crlf hmore⟩
    · refine ⟨fun ⟨request', hread, hbody⟩ => ?_, fun hfed => absurd hfed.1.1 hline⟩
      rw [readChunks_cut hbefore' h' hsize hline hread] at hbody
      have hlen := congrArg List.length hbody
      rw [List.length_append, List.length_append] at hlen
      omega

theorem length_le_chunkedEncoding (chunks : List (List UInt8)) :
    chunks.length ≤ (chunkedEncoding chunks).length := by
  induction chunks with
  | nil => exact Nat.zero_le _
  | cons chunk chunks ih =>
    have hcrlf : crlf.length = 2 := rfl
    rw [chunkedEncoding, List.length_cons, List.length_append, List.length_append,
      List.length_append, hcrlf]
    omega

end

/-! ## sending a body -/

/-- what is sent is the whole encoding of the body, cut into chunks in some way -/
def Sends (body : List UInt8) : Prop :=
  ∃ chunks, (∀ chunk ∈ chunks, chunk ≠ []) ∧ chunks.flatten = body ∧
    apiSendRespChunks body = chunkedEncoding chunks

theorem apiSendRespChunks_nil : apiSendRespChunks [] = [] := by
  rw [apiSendRespChunks]
  exact dif_neg (Nat.lt_irrefl 0)

/-- **a body is sent whole** if there is anything of it -/
theorem sends_iff (body : List UInt8) : Sends body ↔ body ≠ [] := by
  constructor
  · rintro ⟨chunks, -, -, hsend⟩ rfl
    rw [apiSendRespChunks_nil] at hsend
    exact chunkedEncoding_ne_nil chunks hsend.symm
  · intro hne
    induction body using apiSendRespChunks.induct with
    | case1 buf h s ih =>
      have hpos : 0 < min buf.length maxChunk := by
        have hmax : 0 < maxChunk := by decide
        omega
      have hlen : (buf.take (min buf.length maxChunk)).length = min buf.length maxChunk := by
        rw [List.length_take]
        omega
      have hchunk : buf.take (min buf.length maxChunk) ≠ [] := by
        rw [← List.length_pos_iff, hlen]
        exact hpos
      have hline : chunkLine (buf.take (min buf.length maxChunk)) =
          numeral 16 (min buf.length maxChunk) ++ crlf := by
        rw [chunkLine, hlen]
      by_cases hlast : buf.length ≤ maxChunk
      · have hmin : min buf.length maxChunk = buf.length := Nat.min_eq_left hlast
        refine ⟨[buf], ?_, List.flatten_singleton, ?_⟩
        · intro chunk hmem
          rw [List.mem_singleton.1 hmem]
          exact hne
        · rw [apiSendRespChunks, dif_pos h]
          simp only [hmin, Nat.sub_self, if_true, List.take_length, List.drop_length,
            apiSendRespChunks_nil, List.append_nil, chunkedEncoding, chunkLine, List.append_assoc]
      · have hmin : min buf.length maxChunk = maxChunk := Nat.min_eq_right (by omega)
        have hrest : buf.drop (min buf.length maxChunk) ≠ [] := by
          rw [← List.length_pos_iff, List.length_drop]
          omega
        obtain ⟨chunks, hchunks, hflat, hsend⟩ := ih hrest
        refine ⟨buf.take (min buf.length maxChunk) :: chunks, ?_, ?_, ?_⟩
        · intro chunk hmem
          rcases List.mem_cons.1 hmem with rfl | hmem
          · exact hchunk
          · exact hchunks chunk hmem
        · rw [List.flatten_cons, hflat]
          exact List.take_append_drop _ _
        · have hsend : apiSendRespChunks (buf.drop (min buf.length maxChunk)) =
              chunkedEncoding chunks := hsend
          rw [apiSendRespChunks, dif_pos h]
          simp only
          rw [if_neg (by omega), hsend, chunkedEncoding, hline]
          simp only [List.append_assoc]
    | case2 buf h => exact absurd (List.length_pos_iff.2 hne) h

/-! ## a transfer -/

/-- a body in chunks, what the buffer holds before, the header, and how the reads cut what is sent:
the header and what came with it were read at once into a buffer of the same size -/
structure Transfer where
  chunks : List (List UInt8)
  nonempty : ∀ chunk ∈ chunks, chunk ≠ []
  stack : List UInt8
  full : stack.length = maxRead
  size : Nat
  allocated : size ≤ ptrdiffMax
  already : List UInt8
  fits : already.length ≤ maxRead
  later : List (List UInt8)
  read : ∀ piece ∈ later, piece ≠ []
  cut : already ++ later.flatten = chunkedEncoding chunks

namespace Transfer

/-- the request, whose body begins behind the header -/
def request (transfer : Transfer) : BodyRequest :=
  { size := transfer.size, offset := transfer.size }

/-- the buffer when the first line is looked for -/
def buffer (transfer : Transfer) : ReadBuffer where
  cells := transfer.already ++ transfer.stack.drop transfer.already.length
  size := transfer.already.length
  already := []
  later := transfer.later

/-- the server reads the body that was sent, and sends it -/
def ComesBack (transfer : Transfer) : Prop :=
  (∃ request, readChunked transfer.stack transfer.request transfer.already transfer.later =
      .ok (some request) ∧ request.body = transfer.chunks.flatten) ∧
    Sends transfer.chunks.flatten

structure Served (transfer : Transfer) : Prop where
  body : transfer.chunks ≠ []
  begun : transfer.already ≠ []
  fed : Fed [] transfer.chunks transfer.buffer
  memory : transfer.size + transfer.chunks.flatten.length ≤ ptrdiffMax

theorem holds (transfer : Transfer) :
    transfer.buffer.Holds ([] ++ chunkedEncoding transfer.chunks) := by
  have hfull := transfer.full
  have hfits := transfer.fits
  refine ⟨?_, hfits, rfl, transfer.read, ?_⟩
  · show (transfer.already ++ transfer.stack.drop _).length = maxRead
    rw [List.length_append, List.length_drop]
    omega
  · show (transfer.already ++ transfer.stack.drop _).take transfer.already.length ++ _ = _
    rw [List.take_left]
    exact transfer.cut

theorem readChunked_eq (transfer : Transfer) :
    readChunked transfer.stack transfer.request transfer.already transfer.later =
      readChunks (transfer.already.length + transfer.later.flatten.length + 1) transfer.buffer
        transfer.request := by
  unfold readChunked
  simp only [Nat.min_eq_left transfer.fits, List.take_length, List.drop_length]
  rfl

theorem flatten_eq_nil_iff (transfer : Transfer) :
    transfer.chunks.flatten = [] ↔ transfer.chunks = [] := by
  refine ⟨fun h => ?_, fun h => by rw [h]; rfl⟩
  by_contra hne
  obtain ⟨chunk, chunks, hcons⟩ := List.exists_cons_of_ne_nil hne
  rw [hcons, List.flatten_cons] at h
  refine transfer.nonempty chunk ?_ (List.append_eq_nil_iff.1 h).1
  rw [hcons]
  exact List.mem_cons_self

end Transfer

/-- **a body comes back** when there is one, it begins with the header, and each line is in the
buffer when the server looks for it -/
theorem comesBack_iff (transfer : Transfer) : transfer.ComesBack ↔ transfer.Served := by
  unfold Transfer.ComesBack
  rw [sends_iff, transfer.readChunked_eq, Ne, transfer.flatten_eq_nil_iff]
  have hcount := length_le_chunkedEncoding transfer.chunks
  rw [← transfer.cut, List.length_append] at hcount
  have hread := fun hne hsize => @readChunks_iff transfer.buffer transfer.request []
    transfer.chunks (transfer.already.length + transfer.later.flatten.length + 1) (.inl ⟨rfl, hne⟩)
    transfer.holds hsize transfer.nonempty (by omega) rfl transfer.allocated
  constructor
  · rintro ⟨hback, hne⟩
    have hbegun : transfer.already ≠ [] := by
      intro hnil
      obtain ⟨request, hrequest, hbody⟩ := hback
      have hempty : transfer.buffer.size = 0 := by
        show transfer.already.length = 0
        rw [hnil]
        rfl
      -- nothing is read
      rw [readChunks_empty hempty] at hrequest
      cases hrequest
      exact hne (transfer.flatten_eq_nil_iff.1 hbody.symm)
    obtain ⟨hfed, hmemory⟩ := (hread hne (List.length_pos_iff.2 hbegun)).1 hback
    exact ⟨hne, hbegun, hfed, hmemory⟩
  · rintro ⟨hne, hbegun, hfed, hmemory⟩
    exact ⟨(hread hne (List.length_pos_iff.2 hbegun)).2 ⟨hfed, hmemory⟩, hne⟩

/-- one chunk of one byte, which the header came without -/
def headerAlone : Transfer where
  chunks := [[97]]
  nonempty := by decide
  stack := List.replicate maxRead 0
  full := List.length_replicate
  size := 100
  allocated := by unfold ptrdiffMax; omega
  already := []
  fits := Nat.zero_le _
  later := [chunkedEncoding [[97]]]
  read := by decide
  cut := List.append_nil _

/-- **a header alone** ends the body before it begins -/
theorem not_forall_comesBack : ¬ ∀ transfer : Transfer, transfer.ComesBack := by
  intro h
  obtain ⟨⟨request, hrequest, hbody⟩, -⟩ := h headerAlone
  rw [headerAlone.readChunked_eq, readChunks_empty rfl] at hrequest
  cases hrequest
  cases hbody

end Ipfs
