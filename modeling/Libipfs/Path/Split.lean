import Libipfs.Lib.Split
import Libipfs.Path.Path

/-!
# Splitting a path, and joining it

`ipfs_path_split_n` counts the delimiters in one loop and cuts a copy of the path in another, with
a zero at each delimiter it finds.  Both loops step over a delimiter by an `int`.

* `pathSplitN`, `pathSplitSegments`, `pathFromSegments`   the functions, on their buffers;
* `cutDelims_eq`          what the cutting loop leaves in the buffer;
* `pathSplit_iff`         when the pieces make up the path again.
-/

set_option linter.unusedVariables false

namespace Ipfs
namespace Buffers
open CSem

/-! ## the functions -/

/-- `c += dlen`, where `c` is a place in a buffer -/
def skipDelim (size c : Nat) (dlen : Int) : Exec Nat := do
  require .outOfBounds (0 ≤ c + dlen ∧ c + dlen < size)
  .ok (c + dlen).toNat

/-- one more than the delimiters from `c` on, added to `n`; the `int` can be counted up `room`
times -/
def countDelims (p delim : List UInt8) (dlen : Int) : Nat → Nat → Nat → Exec Nat
  | 0, _, _ => .error .overflow
  | room + 1, c, n =>
    match findSub delim (p.drop c) with
    | none => .ok (n + 1)
    | some i => do
      let c ← skipDelim (p.length + 1) (c + i) dlen
      countDelims p delim dlen room c (n + 1)

/-- the buffer with a zero at each delimiter, and the pieces, at most `n` -/
def cutDelims (delim : List UInt8) (dlen : Int) : Nat → List UInt8 → Nat →
    Exec (List UInt8 × List Nat)
  | 0, rbuf, _ => .ok (rbuf, [])
  | n + 1, rbuf, c =>
    match findSub delim (cstr rbuf c) with
    | none => .ok (rbuf, [c])
    | some i => do
      let next ← skipDelim rbuf.length (c + i) dlen
      let (rbuf, r) ← cutDelims delim dlen n (rbuf.set (c + i) 0) next
      .ok (rbuf, c :: r)

/-- the pointers in front of the null one are places of the buffer -/
structure Segments where
  rbuf : List UInt8
  r : List Nat
  deriving DecidableEq, Repr

def Segments.texts (s : Segments) : List (List UInt8) := s.r.map (cstr s.rbuf)

/-- the number of pieces that are cut, an `int` -/
def pieceLimit (p delim : List UInt8) (n : Int) : Exec Nat :=
  if n < 0 then countDelims p delim (toInt32 delim.length) (2 ^ 31 - 1) 0 0
  else do
    require .overflow (n + 1 < 2 ^ 31)
    .ok (n + 1).toNat

def pathSplitN (p delim : List UInt8) (n : Int) : Exec (Option Segments) :=
  if n = 0 then .ok none
  else do
    let n ← pieceLimit p delim n
    if ptrdiffMax < p.length + 1 then .ok none
    else do
      -- the null pointer behind the pieces
      require .overflow (n + 1 < 2 ^ 31)
      if ptrdiffMax < 8 * (n + 1) then .ok none
      else do
        let (rbuf, r) ← cutDelims delim (toInt32 delim.length) n (p ++ [0]) 0
        .ok (some { rbuf := rbuf, r := r })

/-- a slash in front is ignored -/
def pathSplitSegments (p : List UInt8) : Exec (Option Segments) :=
  pathSplitN (if p.head? = some 47 then p.tail else p) [47] (-1)

def strncat (size : Nat) (dest src : List UInt8) (n : Nat) : Exec (List UInt8) :=
  strcat size dest (src.take n)

/-- a slash and a segment -/
def appendSegment (retlen : Int) (ret segment : List UInt8) : Exec (List UInt8) := do
  let ret ← strncat (retlen + 1).toNat ret [47] (toUInt64 (retlen - ret.length))
  strncat (retlen + 1).toNat ret segment (toUInt64 (retlen - ret.length))

/-- each segment takes a slash too -/
def segmentsLength (pre : List UInt8) (seg : List (List UInt8)) : Int :=
  seg.foldl (fun retlen segment => toInt32 (retlen + (segment.length + 1))) (toInt32 pre.length)

def pathFromSegments (pre : List UInt8) (seg : List (List UInt8)) : Exec (Option (List UInt8)) := do
  let retlen := segmentsLength pre seg
  require .overflow (retlen + 1 < 2 ^ 31)
  if ptrdiffMax < toUInt64 (retlen + 1) then .ok none
  else do
    require .outOfBounds (0 ≤ retlen)
    let ret ← seg.foldlM (appendSegment retlen) (pre.take retlen.toNat)
    .ok (some ret)

/-! ## cutting -/

/-- what the loop cuts when it steps over a delimiter by `skip` -/
def skippedPieces (delim : List UInt8) (skip : Nat) : Nat → List UInt8 → List (List UInt8)
  | 0, _ => []
  | n + 1, text =>
    match findSub delim text with
    | none => [text]
    | some i => text.take i :: skippedPieces delim skip n (text.drop (i + skip))

section
variable {delim text p : List UInt8} {n skip i : Nat}

theorem skippedPieces_none (h : findSub delim text = none) :
    skippedPieces delim skip (n + 1) text = [text] := by
  rw [skippedPieces, h]

theorem skippedPieces_some (h : findSub delim text = some i) :
    skippedPieces delim skip (n + 1) text =
      text.take i :: skippedPieces delim skip n (text.drop (i + skip)) := by
  rw [skippedPieces, h]

theorem skippedPieces_length (delim : List UInt8) (n : Nat) (text : List UInt8) :
    skippedPieces delim delim.length n text = firstPieces delim n text := by
  induction n generalizing text with
  | zero => rfl
  | succ n ih =>
    cases hfind : findSub delim text with
    | none => rw [skippedPieces_none hfind, firstPieces_none hfind]
    | some i => rw [skippedPieces_some hfind, firstPieces_some hfind, ih]

theorem skipDelim_pos {size c : Nat} (h : c + skip < size) :
    skipDelim size c skip = .ok (c + skip) := by
  unfold skipDelim
  rw [require_pos ⟨by omega, by omega⟩]
  exact congrArg Except.ok (by omega)

/-- a text around what is stepped over -/
theorem eq_around_skip (hskip : 0 < skip) (h : i + skip ≤ text.length) :
    ∃ b mid, text = text.take i ++ b :: (mid ++ text.drop (i + skip)) ∧ mid.length + 1 = skip := by
  obtain ⟨b, mid, hmid⟩ : ∃ b mid, (text.drop i).take skip = b :: mid := by
    cases hcut : (text.drop i).take skip with
    | nil =>
      have e := congrArg List.length hcut
      rw [List.length_take, List.length_drop, List.length_nil] at e
      omega
    | cons b mid => exact ⟨b, mid, rfl⟩
  refine ⟨b, mid, ?_, ?_⟩
  · rw [← List.cons_append, ← hmid, ← List.drop_drop, List.take_append_drop, List.take_append_drop]
  · have e := congrArg List.length hmid
    rw [List.length_take, List.length_drop, List.length_cons] at e
    omega

/-- **what the cutting loop leaves**: behind what is in front of it the pieces, each one with a
zero behind it -/
theorem cutDelims_eq (hskip : 0 < skip) (hle : skip ≤ delim.length) (n : Nat)
    (front text : List UInt8) (h0 : 0 ∉ text) :
    ∃ back r, cutDelims delim skip n (front ++ (text ++ [0])) front.length =
        .ok (front ++ back, r) ∧
      back.length = text.length + 1 ∧
      r.map (cstr (front ++ back)) = skippedPieces delim skip n text := by
  induction n generalizing front text with
  | zero => exact ⟨text ++ [0], [], rfl, List.length_append, rfl⟩
  | succ n ih =>
    rw [cutDelims, cstr_append h0]
    cases hfind : findSub delim text with
    | none =>
      refine ⟨text ++ [0], [front.length], rfl, List.length_append, ?_⟩
      rw [skippedPieces_none hfind, List.map_singleton, cstr_append h0]
    | some i =>
      have hi := findSub_le hfind
      obtain ⟨b, mid, htext, hmid⟩ := @eq_around_skip text skip i hskip (by omega)
      have htake : (text.take i).length = i := List.length_take_of_le (by omega)
      obtain ⟨back, r, hcut, hback, hr⟩ := ih (front ++ text.take i ++ 0 :: mid)
        (text.drop (i + skip)) (fun h => h0 (List.mem_of_mem_drop h))
      have hset : (front ++ (text ++ [0])).set (front.length + i) 0 =
          front ++ text.take i ++ 0 :: mid ++ (text.drop (i + skip) ++ [0]) := by
        have e : front ++ (text ++ [0]) =
            front ++ text.take i ++ b :: (mid ++ (text.drop (i + skip) ++ [0])) := by
          conv_lhs => rw [htext]
          simp
        have hplace : front.length + i = (front ++ text.take i).length := by
          rw [List.length_append, htake]
        rw [e, hplace, List.set_append_right _ _ (Nat.le_refl _), Nat.sub_self, List.set_cons_zero]
        simp
      have hlen : (front ++ text.take i ++ 0 :: mid).length = front.length + i + skip := by
        rw [List.length_append, List.length_append, htake, List.length_cons, hmid]
      have hstep : skipDelim (front ++ (text ++ [0])).length (front.length + i) skip =
          .ok (front.length + i + skip) := by
        apply skipDelim_pos
        rw [List.length_append, List.length_append, List.length_singleton]
        omega
      have hbuf : front ++ text.take i ++ 0 :: mid ++ back =
          front ++ (text.take i ++ 0 :: (mid ++ back)) := by
        simp
      refine ⟨text.take i ++ 0 :: (mid ++ back), front.length :: r, ?_, ?_, ?_⟩
      · show (skipDelim _ _ _ >>= _) = _
        rw [hstep, ok_bind, hset, ← hlen, hcut, ← hbuf]
        rfl
      · rw [List.length_append, htake, List.length_cons, List.length_append, hback,
          List.length_drop]
        omega
      · rw [skippedPieces_some hfind, List.map_cons, ← hr, hbuf,
          cstr_append fun h => h0 (List.mem_of_mem_take h)]

/-! ## counting -/

/-- **the count** is one more than the occurrences -/
theorem countDelims_eq (hd : delim ≠ []) (room c n : Nat) :
    countDelims p delim delim.length room c n =
      if occurrences delim (p.drop c) < room then .ok (n + occurrences delim (p.drop c) + 1)
      else .error .overflow := by
  induction room generalizing c n with
  | zero => rfl
  | succ room ih =>
    rw [countDelims]
    cases hfind : findSub delim (p.drop c) with
    | none =>
      rw [occurrences_none hfind, if_pos (Nat.succ_pos room)]
    | some i =>
      have hle := findSub_le hfind
      have hpos := List.length_pos_iff.2 hd
      have e : (p.drop c).drop (i + delim.length) = p.drop (c + i + delim.length) := by
        rw [List.drop_drop, Nat.add_assoc]
      rw [List.length_drop] at hle
      show (skipDelim _ _ _ >>= _) = _
      rw [skipDelim_pos (by omega), ok_bind, ih, occurrences_some hd hfind, e]
      by_cases hroom : occurrences delim (p.drop (c + i + delim.length)) < room
      · rw [if_pos hroom, if_pos (Nat.succ_lt_succ hroom)]
        exact congrArg Except.ok (by omega)
      · rw [if_neg hroom, if_neg fun h => hroom (Nat.lt_of_succ_lt_succ h)]

/-- a delimiter that is stepped over backwards is counted again, until the count overflows -/
theorem countDelims_backward {dlen : Int} {place : Nat} (hdlen : dlen ≤ 0)
    (hplace : findSub delim p = some place) (room c n : Nat) (hc : c ≤ place) :
    ¬ Safe (countDelims p delim dlen room c n) := by
  induction room generalizing c n with
  | zero => exact not_safe_error _
  | succ room ih =>
    rw [countDelims, findSub_drop hplace hc]
    rintro ⟨m, hm⟩
    obtain ⟨next, hnext, hm⟩ := bind_eq_ok.1 hm
    unfold skipDelim at hnext
    obtain ⟨⟨h0, hlt⟩, hnext⟩ := require_bind_eq_ok.1 hnext
    cases hnext
    exact ih _ _ (by omega) ⟨m, hm⟩

/-- nothing is left behind the pieces that are counted -/
theorem countDelims_forward (hskip : 0 < skip) {m : Nat} (room c n : Nat)
    (h : countDelims p delim skip room c n = .ok m) : ∃ k, m = n + k ∧
      skippedPieces delim skip (k + 1) (p.drop c) = skippedPieces delim skip k (p.drop c) := by
  induction room generalizing c n with
  | zero => cases h
  | succ room ih =>
    rw [countDelims] at h
    cases hfind : findSub delim (p.drop c) with
    | none =>
      rw [hfind] at h
      cases h
      exact ⟨1, rfl, by rw [skippedPieces_none hfind, skippedPieces_none hfind]⟩
    | some i =>
      rw [hfind] at h
      obtain ⟨next, hnext, h⟩ := bind_eq_ok.1 h
      unfold skipDelim at hnext
      obtain ⟨-, hnext⟩ := require_bind_eq_ok.1 hnext
      cases hnext
      obtain ⟨k, rfl, hk⟩ := ih _ _ h
      have e : (p.drop c).drop (i + skip) = p.drop (((c + i : Nat) : Int) + skip).toNat := by
        rw [List.drop_drop]
        exact congrArg (fun place => p.drop place) (by omega)
      refine ⟨k + 1, by omega, ?_⟩
      rw [skippedPieces_some hfind, skippedPieces_some hfind, e, hk]

/-! ## a delimiter longer than an `int` -/

/-- fewer pieces than are asked for leave nothing behind -/
theorem skippedPieces_of_length_lt (h : (skippedPieces delim skip n text).length < n) :
    skippedPieces delim skip (n + 1) text = skippedPieces delim skip n text := by
  induction n generalizing text with
  | zero => exact absurd h (Nat.not_lt_zero _)
  | succ n ih =>
    cases hfind : findSub delim text with
    | none => rw [skippedPieces_none hfind, skippedPieces_none hfind]
    | some i =>
      rw [skippedPieces_some hfind, List.length_cons] at h
      rw [skippedPieces_some hfind, skippedPieces_some hfind, ih (Nat.lt_of_succ_lt_succ h)]

theorem skippedPieces_succ_ne_nil (delim : List UInt8) (skip n : Nat) (text : List UInt8) :
    skippedPieces delim skip (n + 1) text ≠ [] := by
  rw [skippedPieces]
  split <;> exact List.cons_ne_nil _ _

/-- pieces with nothing left behind, joined with the delimiter between them: each one brings in
what was not stepped over -/
theorem length_intercalate_skippedPieces (hle : skip ≤ delim.length)
    (h : skippedPieces delim skip (n + 1) text = skippedPieces delim skip n text) :
    text.length ≤ (delim.intercalate (skippedPieces delim skip n text)).length := by
  induction n generalizing text with
  | zero => exact absurd h (skippedPieces_succ_ne_nil delim skip 0 text)
  | succ n ih =>
    cases hfind : findSub delim text with
    | none =>
      rw [skippedPieces_none hfind, List.intercalate_singleton]
    | some i =>
      rw [skippedPieces_some hfind, skippedPieces_some hfind] at h
      have h := (List.cons.inj h).2
      have hne := h ▸ skippedPieces_succ_ne_nil delim skip n (text.drop (i + skip))
      have hi := findSub_le hfind
      have := ih h
      rw [List.length_drop] at this
      rw [skippedPieces_some hfind, List.intercalate_cons_of_ne_nil hne, List.length_append,
        List.length_append, List.length_take]
      omega

/-- **a delimiter that is stepped over in part** is there twice -/
theorem intercalate_skippedPieces_ne (hlt : skip < delim.length)
    (hfind : findSub delim text = some i)
    (h : skippedPieces delim skip (n + 1) text = skippedPieces delim skip n text) :
    delim.intercalate (skippedPieces delim skip n text) ≠ text := by
  cases n with
  | zero => exact absurd h (skippedPieces_succ_ne_nil delim skip 0 text)
  | succ n =>
    intro e
    rw [skippedPieces_some hfind, skippedPieces_some hfind] at h
    have h := (List.cons.inj h).2
    have hne := h ▸ skippedPieces_succ_ne_nil delim skip n (text.drop (i + skip))
    have hi := findSub_le hfind
    have hlen := length_intercalate_skippedPieces (Nat.le_of_lt hlt) h
    have e := congrArg List.length e
    rw [skippedPieces_some hfind, List.intercalate_cons_of_ne_nil hne, List.length_append,
      List.length_append, List.length_take] at e
    rw [List.length_drop] at hlen
    omega

/-- there is no delimiter in what is in front of the first -/
theorem findSub_behind_eq_none (hd : delim ≠ []) (hfind : findSub delim p = some i) (c : Nat) :
    findSub delim ((p.take i).drop c) = none := by
  refine findSub_eq_none.2 fun hin => not_infix_take hd hfind ?_
  exact hin.trans (List.drop_suffix _ _).isInfix

/-- **a delimiter that is stepped over backwards**: a zero is there already -/
theorem cutDelims_backward {dlen : Int} (hd : delim ≠ []) (h0 : 0 ∉ p)
    (hfind : findSub delim p = some i) (hdlen : dlen ≤ 0) (n : Nat) :
    (i + dlen < 0 → cutDelims delim dlen (n + 2) (p ++ [0]) 0 = .error .outOfBounds) ∧
    (0 ≤ i + dlen → ∃ rbuf r, cutDelims delim dlen (n + 2) (p ++ [0]) 0 = .ok (rbuf, r) ∧
      r.map (cstr rbuf) = [p.take i, (p.take i).drop (i + dlen).toNat]) := by
  have hi := findSub_le hfind
  have hpos := List.length_pos_iff.2 hd
  have htake : (p.take i).length = i := List.length_take_of_le (by omega)
  have h0take : 0 ∉ p.take i := fun h => h0 (List.mem_of_mem_take h)
  obtain ⟨b, mid, hp, -⟩ := @eq_around_skip p 1 i Nat.one_pos (by omega)
  have hset : (p ++ [0]).set (0 + i) 0 = p.take i ++ 0 :: (mid ++ (p.drop (i + 1) ++ [0])) := by
    have e : p ++ [0] = p.take i ++ b :: (mid ++ (p.drop (i + 1) ++ [0])) := by
      conv_lhs => rw [hp]
      simp
    have hplace : 0 + i = (p.take i).length := by rw [htake, Nat.zero_add]
    rw [e, hplace, List.set_append_right _ _ (Nat.le_refl _), Nat.sub_self, List.set_cons_zero]
  have hfirst : cstr (p ++ [0]) 0 = p := cstr_append h0 [] []
  have hcut : cutDelims delim dlen (n + 2) (p ++ [0]) 0 =
      skipDelim (p ++ [0]).length (0 + i) dlen >>= fun next =>
        cutDelims delim dlen (n + 1) ((p ++ [0]).set (0 + i) 0) next >>= fun q =>
          .ok (q.1, 0 :: q.2) := by
    rw [cutDelims, hfirst, hfind]
  have hlength : (p ++ [0]).length = p.length + 1 := List.length_append
  rw [hcut]
  constructor
  · intro hneg
    unfold skipDelim
    rw [require_neg (by omega)]
    rfl
  · intro hnonneg
    obtain ⟨next, hnext⟩ : ∃ next : Nat, (next : Int) = i + dlen :=
      ⟨(i + dlen).toNat, by omega⟩
    have hskip : skipDelim (p ++ [0]).length (0 + i) dlen = .ok next := by
      unfold skipDelim
      rw [require_pos (by omega)]
      exact congrArg Except.ok (by omega)
    have htoNat : (i + dlen).toNat = next := by omega
    have hcstr : ∀ c ≤ i, cstr ((p ++ [0]).set (0 + i) 0) c = (p.take i).drop c := by
      intro c hc
      have hlen : ((p.take i).take c).length = c := List.length_take_of_le (by omega)
      have e := @cstr_append ((p.take i).drop c) (fun h => h0take (List.mem_of_mem_drop h))
        ((p.take i).take c) (mid ++ (p.drop (i + 1) ++ [0]))
      rw [← List.append_assoc, List.take_append_drop, hlen] at e
      rw [hset, e]
    have hrest := findSub_behind_eq_none hd hfind next
    refine ⟨(p ++ [0]).set (0 + i) 0, [0, next], ?_, ?_⟩
    · rw [hskip, ok_bind, cutDelims, hcstr next (by omega), hrest]
      rfl
    · rw [List.map_cons, List.map_singleton, hcstr 0 (Nat.zero_le i), hcstr next (by omega),
        List.drop_zero, htoNat]

end

/-! ## splitting -/

/-- one cut for each delimiter, or as many as a limit allows -/
def cutsOf (path delim : CString) (n : Int32) : Nat :=
  if n.toInt < 0 then occurrences delim.text path.text else n.toInt.toNat - 1

/-- **the law of a split**: the pieces are those around the delimiters, up to the limit; they are
one more than the delimiters, or at most so many as the limit says; and joining them gives the
path -/
structure SplitsInto (path delim : CString) (n : Int32) (pieces : List (List UInt8)) : Prop where
  cut : pieces = piecesUpTo delim.text (cutsOf path delim n) path.text
  all : n.toInt < 0 → pieces.length = occurrences delim.text path.text + 1
  limit : 0 < n.toInt → pieces.length ≤ n.toInt
  joined : delim.text.intercalate pieces = path.text

def SplitLaw (path delim : CString) (n : Int32) : Prop :=
  ∃ s, pathSplitN path.text delim.text n.toInt = .ok (some s) ∧ SplitsInto path delim n s.texts

/-- the delimiter is too long for an `int`, which steps back over it; what is behind the only one
is by chance the end of what is in front of it -/
def StepsBack (path delim : CString) : Prop :=
  ∃ i, findSub delim.text path.text = some i ∧ toInt32 delim.text.length ≤ 0 ∧
    0 ≤ i + toInt32 delim.text.length ∧
    path.text.drop (i + delim.text.length) =
      (path.text.take i).drop (i + toInt32 delim.text.length).toNat

/-- **the condition**: what is counted fits in an `int`, a limit is more than there are delimiters,
and the delimiter is not too long for an `int`, unless there is none -/
structure SplitFits (path delim : CString) (n : Int32) : Prop where
  counted : n.toInt < 0 → occurrences delim.text path.text + 2 < 2 ^ 31
  limited : 0 < n.toInt → occurrences delim.text path.text < n.toInt ∧ n.toInt + 2 < 2 ^ 31
  steps : delim.text.length < 2 ^ 31 ∨ occurrences delim.text path.text = 0 ∨
    (0 < n.toInt ∧ StepsBack path delim)

section
variable {path delim : CString} {n : Int32} {i m : Nat} {pieces : List (List UInt8)}

theorem SplitsInto.of_eq (hd : delim.text ≠ []) (hn : n.toInt ≠ 0)
    (h : pieces = piecesUpTo delim.text (cutsOf path delim n) path.text) :
    SplitsInto path delim n pieces := by
  have hlength := length_piecesUpTo hd (cutsOf path delim n) path.text
  refine { cut := h, all := fun hneg => ?_, limit := fun hpos => ?_, joined := ?_ }
  · rw [h, hlength, cutsOf, if_pos hneg, Nat.min_self]
  · rw [h, hlength, cutsOf, if_neg (by omega)]
    omega
  · rw [h]
    exact intercalate_piecesUpTo _ _ _

/-- **the buffer and the pointers** are what the loops make of them -/
theorem pathSplitN_eq_ok {s : Segments} (hn : n.toInt ≠ 0) :
    pathSplitN path.text delim.text n.toInt = .ok (some s) ↔
      ∃ m, pieceLimit path.text delim.text n.toInt = .ok m ∧ m + 1 < 2 ^ 31 ∧
        cutDelims delim.text (toInt32 delim.text.length) m (path.text ++ [0]) 0 =
          .ok (s.rbuf, s.r) := by
  have hfits : ¬ ptrdiffMax < path.text.length + 1 := Nat.not_lt.2 path.fits
  have hroom : ∀ m, m + 1 < 2 ^ 31 → ¬ ptrdiffMax < 8 * (m + 1) := by
    intro m hm
    unfold ptrdiffMax
    omega
  unfold pathSplitN
  rw [if_neg hn]
  constructor
  · intro hs
    obtain ⟨m, hm, hs⟩ := bind_eq_ok.1 hs
    rw [if_neg hfits] at hs
    obtain ⟨hlt, hs⟩ := require_bind_eq_ok.1 hs
    have hlt : m + 1 < 2 ^ 31 := by exact_mod_cast hlt
    rw [if_neg (hroom m hlt)] at hs
    obtain ⟨⟨rbuf, r⟩, hcut, hs⟩ := bind_eq_ok.1 hs
    cases hs
    exact ⟨m, hm, hlt, hcut⟩
  · rintro ⟨m, hm, hlt, hcut⟩
    rw [hm, ok_bind, if_neg hfits, require_pos (by exact_mod_cast hlt), ok_bind,
      if_neg (hroom m hlt), hcut]
    rfl

theorem splitLaw_iff (hd : delim.text ≠ []) (hn : n.toInt ≠ 0) : SplitLaw path delim n ↔
    ∃ m, pieceLimit path.text delim.text n.toInt = .ok m ∧ m + 1 < 2 ^ 31 ∧
      ∃ rbuf r, cutDelims delim.text (toInt32 delim.text.length) m (path.text ++ [0]) 0 =
          .ok (rbuf, r) ∧
        r.map (cstr rbuf) = piecesUpTo delim.text (cutsOf path delim n) path.text := by
  constructor
  · rintro ⟨s, hs, hinto⟩
    obtain ⟨m, hm, hlt, hcut⟩ := (pathSplitN_eq_ok hn).1 hs
    exact ⟨m, hm, hlt, s.rbuf, s.r, hcut, hinto.cut⟩
  · rintro ⟨m, hm, hlt, rbuf, r, hcut, hr⟩
    exact ⟨{ rbuf := rbuf, r := r }, (pathSplitN_eq_ok hn).2 ⟨m, hm, hlt, hcut⟩,
      SplitsInto.of_eq hd hn hr⟩

theorem pieceLimit_pos (hpos : 0 < n.toInt) : pieceLimit path.text delim.text n.toInt = .ok m ↔
    n.toInt + 1 < 2 ^ 31 ∧ (m : Int) = n.toInt + 1 := by
  unfold pieceLimit
  rw [if_neg (by omega), require_bind_eq_ok, Except.ok.injEq]
  refine and_congr_right fun h => ?_
  omega

theorem pieceLimit_neg (hneg : n.toInt < 0) : pieceLimit path.text delim.text n.toInt =
    countDelims path.text delim.text (toInt32 delim.text.length) (2 ^ 31 - 1) 0 0 := if_pos hneg

/-- **no delimiter**: the path is the only piece -/
theorem splitLaw_of_none (hd : delim.text ≠ []) (hn : n.toInt ≠ 0)
    (hfind : findSub delim.text path.text = none) :
    SplitLaw path delim n ↔ SplitFits path delim n := by
  have hocc := occurrences_none hfind
  have hcut : ∀ m, cutDelims delim.text (toInt32 delim.text.length) (m + 1) (path.text ++ [0]) 0 =
      .ok (path.text ++ [0], [0]) := by
    intro m
    have hfirst : cstr (path.text ++ [0]) 0 = path.text := cstr_append path.noZero [] []
    rw [cutDelims, hfirst, hfind]
  have hone : [0].map (cstr (path.text ++ [0])) =
      piecesUpTo delim.text (cutsOf path delim n) path.text := by
    rw [piecesUpTo_none hfind]
    exact congrArg (· :: []) (cstr_append path.noZero [] [])
  rw [splitLaw_iff hd hn]
  rcases Int.lt_or_gt_of_ne hn with hneg | hpos
  · refine iff_of_true ?_
      { counted := fun _ => ?_, limited := fun h => ?_, steps := .inr (.inl hocc) }
    · refine ⟨1, ?_, by norm_num, _, _, hcut 0, hone⟩
      rw [pieceLimit_neg hneg]
      show countDelims _ _ _ ((2 ^ 31 - 2) + 1) 0 0 = _
      rw [countDelims, List.drop_zero, hfind]
    · rw [hocc]
      norm_num
    · omega
  · constructor
    · rintro ⟨m, hm, hlt, -⟩
      have hm := (pieceLimit_pos hpos).1 hm
      refine { counted := fun h => ?_, limited := fun _ => ?_, steps := .inr (.inl hocc) }
      · omega
      · rw [hocc]
        omega
    · intro h
      have hlimit := h.limited hpos
      refine ⟨n.toInt.toNat + 1, (pieceLimit_pos hpos).2 ⟨by omega, by omega⟩, by omega,
        _, _, hcut _, hone⟩

/-- what the cutting loop makes of the whole path -/
theorem cutDelims_path {skip : Nat} (hskip : 0 < skip) (hle : skip ≤ delim.text.length) (m : Nat) :
    ∃ rbuf r, cutDelims delim.text skip m (path.text ++ [0]) 0 = .ok (rbuf, r) ∧
      r.map (cstr rbuf) = skippedPieces delim.text skip m path.text := by
  obtain ⟨back, r, hcut, -, hr⟩ := cutDelims_eq hskip hle m [] path.text path.noZero
  exact ⟨back, r, hcut, hr⟩

/-- so many pieces cut off are those that were asked for -/
theorem firstPieces_eq_cutsOf_iff (hd : delim.text ≠ []) (hpos : 0 < n.toInt)
    (hm : (m : Int) = n.toInt + 1) :
    firstPieces delim.text m path.text =
      piecesUpTo delim.text (cutsOf path delim n) path.text ↔
        occurrences delim.text path.text < n.toInt := by
  have hcuts : cutsOf path delim n = n.toInt.toNat - 1 := if_neg (by omega)
  obtain ⟨k, rfl⟩ : ∃ k, m = k + 1 := ⟨m - 1, by omega⟩
  have hlength := length_piecesUpTo hd (n.toInt.toNat - 1) path.text
  rw [hcuts]
  constructor
  · intro e
    rw [← e] at hlength
    by_contra hge
    by_cases hmore : k + 1 ≤ occurrences delim.text path.text
    · rw [length_firstPieces hd hmore] at hlength
      omega
    · rw [firstPieces_eq_piecesUpTo hd (by omega), length_piecesUpTo hd] at hlength
      omega
  · intro hlt
    rw [firstPieces_eq_piecesUpTo hd (by omega)]
    exact piecesUpTo_eq hd (by omega) (by omega)

/-- **a delimiter that fits**: too many pieces are cut off when there are as many delimiters as the
limit says -/
theorem splitLaw_of_short (hd : delim.text ≠ []) (hn : n.toInt ≠ 0)
    (hshort : delim.text.length < 2 ^ 31) :
    SplitLaw path delim n ↔ SplitFits path delim n := by
  have hdlen : toInt32 delim.text.length = delim.text.length := toInt32_natCast_of_lt hshort
  have hcut : ∀ m, ∃ rbuf r, cutDelims delim.text delim.text.length m (path.text ++ [0]) 0 =
      .ok (rbuf, r) ∧ r.map (cstr rbuf) = firstPieces delim.text m path.text := by
    intro m
    rw [← skippedPieces_length]
    exact cutDelims_path (List.length_pos_iff.2 hd) (Nat.le_refl _) m
  rw [splitLaw_iff hd hn, hdlen]
  rcases Int.lt_or_gt_of_ne hn with hneg | hpos
  · have hcuts : cutsOf path delim n = occurrences delim.text path.text := if_pos hneg
    rw [pieceLimit_neg hneg, hdlen, countDelims_eq hd, List.drop_zero, Nat.zero_add, hcuts]
    constructor
    · rintro ⟨m, hm, hlt, -⟩
      refine { counted := fun _ => ?_, limited := fun h => ?_, steps := .inl hshort }
      · by_cases hroom : occurrences delim.text path.text < 2 ^ 31 - 1
        · rw [if_pos hroom] at hm
          cases hm
          exact hlt
        · rw [if_neg hroom] at hm
          cases hm
      · omega
    · intro h
      have hcounted := h.counted hneg
      obtain ⟨rbuf, r, hcutr, hr⟩ := hcut (occurrences delim.text path.text + 1)
      refine ⟨_, if_pos (by omega), by omega, rbuf, r, hcutr, ?_⟩
      rw [hr]
      exact firstPieces_eq_piecesUpTo hd (Nat.le_refl _)
  · constructor
    · rintro ⟨m, hm, hlt, rbuf, r, hcutr, hr⟩
      have hm := (pieceLimit_pos hpos).1 hm
      obtain ⟨rbuf', r', hcutr', hr'⟩ := hcut m
      rw [hcutr'] at hcutr
      cases hcutr
      rw [hr', firstPieces_eq_cutsOf_iff hd hpos hm.2] at hr
      refine { counted := fun h => ?_, limited := fun _ => ⟨hr, ?_⟩, steps := .inl hshort }
      · omega
      · omega
    · intro h
      have hlimit := h.limited hpos
      obtain ⟨rbuf, r, hcutr, hr⟩ := hcut (n.toInt.toNat + 1)
      refine ⟨n.toInt.toNat + 1, (pieceLimit_pos hpos).2 ⟨by omega, by omega⟩, by omega, rbuf, r,
        hcutr, ?_⟩
      rw [hr, firstPieces_eq_cutsOf_iff hd hpos (by omega)]
      exact hlimit.1

/-- **a delimiter that does not fit**, stepped over in part: joining the pieces makes more than
the path -/
theorem not_splitLaw_of_forward {skip : Nat} (hd : delim.text ≠ []) (hn : n.toInt ≠ 0)
    (hfind : findSub delim.text path.text = some i) (hskip : 0 < skip)
    (hlt : skip < delim.text.length) (hdlen : toInt32 delim.text.length = skip) :
    ¬ SplitLaw path delim n := by
  intro hlaw
  obtain ⟨m, hm, -, rbuf, r, hcutr, hr⟩ := (splitLaw_iff hd hn).1 hlaw
  obtain ⟨rbuf', r', hcutr', hr'⟩ := @cutDelims_path path delim skip hskip (Nat.le_of_lt hlt) m
  rw [hdlen, hcutr'] at hcutr
  cases hcutr
  rw [hr'] at hr
  have hinto := SplitsInto.of_eq hd hn hr
  have hdone : skippedPieces delim.text skip (m + 1) path.text =
      skippedPieces delim.text skip m path.text := by
    rcases Int.lt_or_gt_of_ne hn with hneg | hpos
    · rw [pieceLimit_neg hneg, hdlen] at hm
      obtain ⟨k, rfl, hk⟩ := countDelims_forward hskip _ _ _ hm
      rw [Nat.zero_add]
      exact hk
    · have hlimit := hinto.limit hpos
      have hm := (pieceLimit_pos hpos).1 hm
      exact skippedPieces_of_length_lt (by omega)
  exact intercalate_skippedPieces_ne hlt hfind hdone hinto.joined

theorem cutsOf_of_pos (hpos : 0 < n.toInt) : cutsOf path delim n = n.toInt.toNat - 1 := by
  unfold cutsOf
  rw [if_neg (by omega)]

/-- two pieces, of which the second is what is behind the place the loop steps back to -/
theorem splitFits_of_backward (hd : delim.text ≠ []) (hpos : 0 < n.toInt)
    (hfind : findSub delim.text path.text = some i) (hdlen : toInt32 delim.text.length ≤ 0)
    (hlaw : SplitLaw path delim n) : SplitFits path delim n := by
  have hocc := occurrences_some hd hfind
  have hcut := fun k => cutDelims_backward hd path.noZero hfind hdlen k
  obtain ⟨m, hm, hlt, rbuf, r, hcutr, hr⟩ := (splitLaw_iff hd (by omega)).1 hlaw
  have hm := (pieceLimit_pos hpos).1 hm
  obtain ⟨k, rfl⟩ : ∃ k, m = k + 2 := ⟨m - 2, by omega⟩
  have hback : 0 ≤ i + toInt32 delim.text.length := by
    by_contra hneg
    rw [(hcut k).1 (by omega)] at hcutr
    cases hcutr
  obtain ⟨rbuf', r', hcutr', hr'⟩ := (hcut k).2 hback
  rw [hcutr'] at hcutr
  cases hcutr
  have hcuts : cutsOf path delim n = k := by
    rw [cutsOf_of_pos hpos]
    omega
  rw [hr', hcuts] at hr
  obtain ⟨k, rfl⟩ : ∃ j, k = j + 1 := by
    cases k with
    | zero => exact absurd (congrArg List.length hr) (by simp [piecesUpTo])
    | succ j => exact ⟨j, rfl⟩
  rw [piecesUpTo_some hfind] at hr
  have hrest := congrArg delim.text.intercalate (List.cons.inj hr).2
  rw [List.intercalate_singleton, intercalate_piecesUpTo] at hrest
  rw [← hrest, occurrences_none (findSub_behind_eq_none hd hfind _)] at hocc
  refine { counted := fun h => ?_, limited := fun _ => ⟨?_, ?_⟩, steps := .inr (.inr ⟨hpos, ?_⟩) }
  · omega
  · omega
  · omega
  · exact ⟨i, hfind, hdlen, hback, hrest.symm⟩

theorem splitLaw_of_splitFits_backward (hd : delim.text ≠ []) (hpos : 0 < n.toInt)
    (hfind : findSub delim.text path.text = some i) (hdlen : toInt32 delim.text.length ≤ 0)
    (hlong : ¬ delim.text.length < 2 ^ 31) (hocc0 : occurrences delim.text path.text ≠ 0)
    (h : SplitFits path delim n) : SplitLaw path delim n := by
  have hlimit := h.limited hpos
  obtain ⟨-, j, hj, -, hback, hrest⟩ := (h.steps.resolve_left hlong).resolve_left hocc0
  rw [hfind] at hj
  cases hj
  obtain ⟨k, hk⟩ : ∃ k : Nat, n.toInt = k + 2 := ⟨n.toInt.toNat - 2, by omega⟩
  have hcuts : cutsOf path delim n = k + 1 := by
    rw [cutsOf_of_pos hpos]
    omega
  obtain ⟨rbuf, r, hcutr, hr⟩ := (cutDelims_backward hd path.noZero hfind hdlen (k + 1)).2 hback
  refine (splitLaw_iff hd (by omega)).2
    ⟨k + 3, (pieceLimit_pos hpos).2 ⟨by omega, by omega⟩, by omega, rbuf, r, hcutr, ?_⟩
  rw [hr, hcuts, piecesUpTo_some hfind, hrest,
    piecesUpTo_none (findSub_behind_eq_none hd hfind _)]

/-- **a delimiter that does not fit**, stepped over backwards -/
theorem splitLaw_of_backward (hd : delim.text ≠ []) (hn : n.toInt ≠ 0)
    (hfind : findSub delim.text path.text = some i) (hdlen : toInt32 delim.text.length ≤ 0) :
    SplitLaw path delim n ↔ SplitFits path delim n := by
  have hlong : ¬ delim.text.length < 2 ^ 31 := by
    intro h
    have hpos := List.length_pos_iff.2 hd
    rw [toInt32_natCast_of_lt h] at hdlen
    omega
  have hocc0 : occurrences delim.text path.text ≠ 0 := by
    rw [occurrences_some hd hfind]
    exact Nat.succ_ne_zero _
  rcases Int.lt_or_gt_of_ne hn with hneg | hpos
  · refine iff_of_false ?_ ?_
    · rw [splitLaw_iff hd hn, pieceLimit_neg hneg]
      rintro ⟨m, hm, -⟩
      exact countDelims_backward hdlen hfind _ 0 0 (Nat.zero_le i) ⟨m, hm⟩
    · intro h
      rcases h.steps with hs | hs | ⟨hs, -⟩
      · exact hlong hs
      · exact hocc0 hs
      · omega
  · exact ⟨splitFits_of_backward hd hpos hfind hdlen,
      splitLaw_of_splitFits_backward hd hpos hfind hdlen hlong hocc0⟩

/-- **splitting** keeps its law iff the condition is met -/
theorem splitLaw_iff_splitFits (hd : delim.text ≠ []) (hn : n.toInt ≠ 0) :
    SplitLaw path delim n ↔ SplitFits path delim n := by
  cases hfind : findSub delim.text path.text with
  | none => exact splitLaw_of_none hd hn hfind
  | some i =>
    have hle := toInt32_le_natCast delim.text.length
    have hbounds := toInt32_bounds delim.text.length
    by_cases hback : toInt32 delim.text.length ≤ 0
    · exact splitLaw_of_backward hd hn hfind hback
    · by_cases hshort : delim.text.length < 2 ^ 31
      · exact splitLaw_of_short hd hn hshort
      · obtain ⟨skip, hskip⟩ : ∃ skip : Nat, toInt32 delim.text.length = skip :=
          ⟨(toInt32 delim.text.length).toNat, by omega⟩
        have hlaw : ¬ SplitLaw path delim n :=
          not_splitLaw_of_forward hd hn hfind (by omega) (by omega) hskip
        refine iff_of_false hlaw fun h => ?_
        rcases h.steps with hs | hs | ⟨-, j, -, hj, -⟩
        · exact hshort hs
        · rw [occurrences_some hd hfind] at hs
          exact absurd hs (Nat.succ_ne_zero _)
        · exact hback hj

/-- **all the pieces**, wherever the function returns them -/
theorem splitsInto_of_eq_ok {s : Segments} (hd : delim.text ≠ [])
    (hshort : delim.text.length < 2 ^ 31) (hneg : n.toInt < 0)
    (hs : pathSplitN path.text delim.text n.toInt = .ok (some s)) :
    SplitsInto path delim n s.texts := by
  have hn : n.toInt ≠ 0 := by omega
  obtain ⟨m, hm, hlt, hcut⟩ := (pathSplitN_eq_ok hn).1 hs
  rw [pieceLimit_neg hneg, toInt32_natCast_of_lt hshort, countDelims_eq hd, List.drop_zero] at hm
  have hfits : SplitFits path delim n := by
    refine { counted := fun _ => ?_, limited := fun h => ?_, steps := .inl hshort }
    · by_cases hroom : occurrences delim.text path.text < 2 ^ 31 - 1
      · rw [if_pos hroom] at hm
        cases hm
        omega
      · rw [if_neg hroom] at hm
        cases hm
    · omega
  obtain ⟨s', hs', hinto⟩ := (splitLaw_iff_splitFits hd hn).2 hfits
  rw [hs] at hs'
  cases hs'
  exact hinto

end

/-! ## segments -/

/-- a segment and the slash in front of it -/
def slashed (seg : List (List UInt8)) : List UInt8 := seg.flatMap fun segment => 47 :: segment

section
variable {seg : List (List UInt8)} {ret text pre : List UInt8} {retlen : Int}

theorem slashed_cons (segment : List UInt8) (seg : List (List UInt8)) :
    slashed (segment :: seg) = 47 :: segment ++ slashed seg := rfl

theorem slashed_eq (hne : seg ≠ []) : slashed seg = 47 :: [47].intercalate seg := by
  induction seg with
  | nil => exact absurd rfl hne
  | cons segment seg ih =>
    cases seg with
    | nil => simp [slashed]
    | cons next seg =>
      rw [slashed_cons, ih (List.cons_ne_nil _ _),
        List.intercalate_cons_of_ne_nil (List.cons_ne_nil _ _)]
      simp

theorem toInt32_toInt32_add (x y : Int) : toInt32 (toInt32 x + y) = toInt32 (x + y) := by
  unfold toInt32
  exact Int.bmod_add_bmod ..

/-- the length is added up modulo `2 ^ 32` -/
theorem segmentsLength_eq (pre : List UInt8) (seg : List (List UInt8)) :
    segmentsLength pre seg = toInt32 ((pre ++ slashed seg).length : Nat) := by
  have hfold : ∀ z : Int, seg.foldl (fun retlen segment => toInt32 (retlen + (segment.length + 1)))
      (toInt32 z) = toInt32 (z + (slashed seg).length) := by
    induction seg with
    | nil => exact fun z => congrArg toInt32 (Int.add_zero z).symm
    | cons segment seg ih =>
      intro z
      rw [List.foldl_cons, toInt32_toInt32_add, ih, slashed_cons, List.length_append,
        List.length_cons]
      push_cast
      exact congrArg toInt32 (by omega)
  rw [List.length_append]
  exact_mod_cast hfold pre.length

theorem appendSegment_eq {segment : List UInt8} (hfit : retlen < 2 ^ 31)
    (h : (ret.length : Int) + segment.length + 1 ≤ retlen) :
    appendSegment retlen ret segment = .ok (ret ++ 47 :: segment) := by
  have hroom : ∀ text : List UInt8, (text.length : Int) ≤ retlen →
      toUInt64 (retlen - text.length) = (retlen - text.length).toNat := by
    intro text htext
    obtain ⟨k, hk⟩ : ∃ k : Nat, retlen - text.length = k := ⟨(retlen - text.length).toNat, by omega⟩
    rw [hk, toUInt64_natCast_of_lt (by omega), Int.toNat_natCast]
  unfold appendSegment strncat
  rw [hroom ret (by omega), List.take_of_length_le (by rw [List.length_singleton]; omega),
    strcat_pos (by rw [List.length_singleton]; omega), ok_bind,
    hroom (ret ++ [47]) (by rw [List.length_append, List.length_singleton]; omega),
    List.take_of_length_le (by rw [List.length_append, List.length_singleton]; omega),
    strcat_pos (by rw [List.length_append, List.length_singleton]; omega), List.append_assoc]
  rfl

theorem length_of_appendSegment {segment : List UInt8} (h0 : 0 ≤ retlen)
    (h : appendSegment retlen ret segment = .ok text) : (text.length : Int) ≤ retlen := by
  obtain ⟨slash, -, h⟩ := bind_eq_ok.1 h
  obtain ⟨hlt, rfl⟩ := strcat_eq_ok.1 h
  rw [List.length_append]
  omega

theorem foldlM_appendSegment (hfit : retlen < 2 ^ 31)
    (h : ((ret ++ slashed seg).length : Int) ≤ retlen) :
    seg.foldlM (appendSegment retlen) ret = .ok (ret ++ slashed seg) := by
  induction seg generalizing ret with
  | nil => exact congrArg Except.ok (List.append_nil ret).symm
  | cons segment seg ih =>
    have e : ret ++ slashed (segment :: seg) = (ret ++ 47 :: segment) ++ slashed seg := by
      rw [slashed_cons, List.append_assoc]
    rw [e] at h ⊢
    have hlen := h
    rw [List.length_append, List.length_append, List.length_cons] at hlen
    rw [List.foldlM_cons, appendSegment_eq hfit (by omega)]
    exact ih h

theorem length_of_foldlM_appendSegment (h0 : 0 ≤ retlen) (hret : (ret.length : Int) ≤ retlen)
    (h : seg.foldlM (appendSegment retlen) ret = .ok text) : (text.length : Int) ≤ retlen := by
  induction seg generalizing ret with
  | nil =>
    cases h
    exact hret
  | cons segment seg ih =>
    rw [List.foldlM_cons] at h
    obtain ⟨next, hnext, h⟩ := bind_eq_ok.1 h
    exact ih (length_of_appendSegment h0 hnext) h

/-- **segments are joined** iff the length of the path, and the zero behind it, is an `int` -/
theorem pathFromSegments_iff : pathFromSegments pre seg = .ok (some (pre ++ slashed seg)) ↔
    (pre ++ slashed seg).length < 2 ^ 31 - 1 := by
  have hlength := segmentsLength_eq pre seg
  have hbounds := toInt32_bounds ((pre ++ slashed seg).length : Nat)
  unfold pathFromSegments
  constructor
  · intro h
    obtain ⟨hlt, h⟩ := require_bind_eq_ok.1 h
    by_cases hnull : ptrdiffMax < toUInt64 (segmentsLength pre seg + 1)
    · rw [if_pos hnull] at h
      cases h
    · rw [if_neg hnull] at h
      obtain ⟨h0, h⟩ := require_bind_eq_ok.1 h
      obtain ⟨text, hfold, h⟩ := bind_eq_ok.1 h
      cases h
      have hpre : ((pre.take (segmentsLength pre seg).toNat).length : Int) ≤
          segmentsLength pre seg := by
        rw [List.length_take]
        omega
      have := length_of_foldlM_appendSegment h0 hpre hfold
      omega
  · intro h
    have hint := @toInt32_natCast_of_lt (pre ++ slashed seg).length (by omega)
    rw [hint] at hlength
    have hnull : ¬ ptrdiffMax < toUInt64 (segmentsLength pre seg + 1) := by
      rw [hlength, ← Int.natCast_succ, toUInt64_natCast_of_lt (by omega)]
      unfold ptrdiffMax
      omega
    have hpre : pre.take (segmentsLength pre seg).toNat = pre := by
      apply List.take_of_length_le
      rw [hlength, Int.toNat_natCast, List.length_append]
      omega
    show (require _ _ >>= _) = _
    rw [require_pos (by omega), ok_bind, if_neg hnull, require_pos (by omega), ok_bind, hpre,
      foldlM_appendSegment (by omega) (by omega)]
    rfl

end

/-! ## splitting and joining -/

/-- what is behind the first character -/
def tailOf (path : CString) : CString where
  text := path.text.tail
  noZero := fun h => path.noZero (List.mem_of_mem_tail h)
  fits := Nat.lt_of_le_of_lt (by rw [List.length_tail]; exact Nat.sub_le _ _) path.fits

def slash : CString := { text := [47], noZero := by decide, fits := by decide }

/-- **the law of segments**: the path is put together again -/
def SegmentsLaw (path : CString) : Prop :=
  ∃ s, pathSplitSegments path.text = .ok (some s) ∧
    pathFromSegments [] s.texts = .ok (some path.text)

theorem segmentsLaw_iff {path : CString} (hslash : path.text.head? = some 47) :
    SegmentsLaw path ↔ path.text.length < 2 ^ 31 - 1 := by
  obtain ⟨text, htext⟩ : ∃ text, path.text = 47 :: text := by
    cases hp : path.text with
    | nil =>
      rw [hp] at hslash
      cases hslash
    | cons b text =>
      rw [hp] at hslash
      cases hslash
      exact ⟨text, rfl⟩
  have htail : (tailOf path).text = text := by
    show path.text.tail = text
    rw [htext]
    rfl
  have hsplit : pathSplitSegments path.text =
      pathSplitN (tailOf path).text slash.text (-1 : Int32).toInt := by
    unfold pathSplitSegments
    rw [if_pos hslash]
    rfl
  have hjoin : ∀ s, SplitsInto (tailOf path) slash (-1) s → [] ++ slashed s = path.text := by
    intro pieces hinto
    have hne : pieces ≠ [] := by
      have hlength := hinto.all (by decide)
      exact List.ne_nil_of_length_eq_add_one hlength
    have hjoined : [47].intercalate pieces = text := htail ▸ hinto.joined
    rw [List.nil_append, slashed_eq hne, hjoined, htext]
  unfold SegmentsLaw
  rw [hsplit]
  constructor
  · rintro ⟨s, hs, hfrom⟩
    have hinto := splitsInto_of_eq_ok (by decide) (by decide) (by decide) hs
    rw [← hjoin _ hinto] at hfrom ⊢
    exact pathFromSegments_iff.1 hfrom
  · intro hlt
    have hocc := @occurrences_le _ _ slash.text (by decide) (tailOf path).text
    have hlength : (tailOf path).text.length + 1 = path.text.length := by
      rw [htail, htext]
      rfl
    obtain ⟨s, hs, hinto⟩ := (@splitLaw_iff_splitFits (tailOf path) slash (-1) (by decide)
      (by decide)).2
        { counted := fun _ => by omega, limited := fun h => absurd h (by decide),
          steps := .inl (by decide) }
    refine ⟨s, hs, ?_⟩
    rw [← hjoin _ hinto] at hlt ⊢
    exact pathFromSegments_iff.2 hlt

/-- **splitting and joining are inverse** iff the conditions are met; a path that starts with a
slash is split and put together again iff its length, and the zero behind it, is an `int` -/
theorem pathSplit_iff (path delim : CString) (n : Int32) :
    (delim.text ≠ [] → n.toInt ≠ 0 → (SplitLaw path delim n ↔ SplitFits path delim n)) ∧
      (path.text.head? = some 47 → (SegmentsLaw path ↔ path.text.length < 2 ^ 31 - 1)) :=
  ⟨fun hd hn => splitLaw_iff_splitFits hd hn, fun hslash => segmentsLaw_iff hslash⟩

/-- `"a/b"` in two, and `"/a"` put together again -/
theorem pathSplit_twoSegments :
    SplitLaw { text := [97, 47, 98], noZero := by decide, fits := by decide } slash 2 ∧
      SegmentsLaw { text := [47, 97], noZero := by decide, fits := by decide } := by
  refine ⟨((pathSplit_iff _ slash 2).1 (by decide) (by decide)).2 ?_,
    ((pathSplit_iff _ slash 2).2 rfl).2 (by decide)⟩
  exact { counted := fun h => absurd h (by decide), limited := fun _ => by decide,
          steps := .inl (by decide) }

/-- `"a/b/c"`, split at one slash at most: two pieces, and the third is lost -/
theorem not_pathSplit : ¬ SplitLaw
    { text := [97, 47, 98, 47, 99], noZero := by decide, fits := by decide } slash 1 := by
  intro h
  have hfits := (splitLaw_iff_splitFits (by decide) (by decide)).1 h
  exact absurd (hfits.limited (by decide)).1 (by decide)

end Buffers
end Ipfs
