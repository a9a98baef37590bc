import Libipfs.Core.Chunked
import Libipfs.Lib.Split

/-!
# The first part of a multipart body

The server looks for the delimiter line in the body, which is a string, and then for the closing
delimiter in the bytes that are left of the request.  Both searches go on after an occurrence that
is not followed by the boundary: the first one at the beginning of the body again, the second one
with the limit it began with.

* `boundaryFind`, `boundarySize`   the two searches, with the passes they are given;
* `firstDelimiter`, `headerEnd`    the first delimiter line of a body, and the end of its header;
* `FindsPart`, `MeasuresPart`      **the search ends with what is asked for**;
* `PartAhead`                      the first `--` is followed by the boundary, and a delimiter line
  is there before the end of the header;
* `ClosedOrPlain`                  the closing delimiter is there, or nothing that begins like it;
* `multipartScan_iff`              these are the conditions.
-/

namespace Ipfs
open CSem

def dashes : List UInt8 := [45, 45]
def crlfDashes : List UInt8 := [13, 10, 45, 45]
def headerClose : List UInt8 := [13, 10, 13, 10]
def boundaryClose : List UInt8 := [45, 45, 13, 10]

/-! ## str_tok and bin_tok -/

/-- the spaces behind the token are skipped -/
def strTok (str tok : List UInt8) : Option Nat :=
  (findSub tok str).map fun i =>
    i + tok.length + ((str.drop (i + tok.length)).takeWhile (· = 32)).length

/-- what is read when there is an occurrence ends with it -/
def memmem (mem : List UInt8) (p limit : Nat) (needle : List UInt8) : Exec (Option Nat) :=
  match findSub needle ((mem.drop p).take limit) with
  | some i => .ok (some (p + i))
  | none => do
    require .outOfBounds (p + limit ≤ mem.length)
    .ok none

def binTok (mem : List UInt8) (p limit : Nat) (tok : List UInt8) : Exec (Option Nat) := do
  return (← memmem mem p limit tok).map (· + tok.length)

/-- `strstart` and `cstrstart`: as many bytes are compared as the word has -/
def startsAt (mem : List UInt8) (p : Nat) (word : List UInt8) : Exec Bool := do
  require .outOfBounds (p + word.length ≤ mem.length)
  .ok (decide (word <+: mem.drop p))

/-! ## boundary_find and boundary_size -/

/-- the next search is for the same token in the same string -/
def boundaryFindFrom (str boundary : List UInt8) : Nat → Option Nat → Exec (Option Nat)
  | _, none => .ok none
  | 0, some _ => .error .diverges
  | passes + 1, some p => do
    if ← startsAt (str ++ [0]) p boundary then
      .ok ((findSub headerClose (str.drop p)).map (p + · + 4))
    else boundaryFindFrom str boundary passes (strTok str dashes)

def boundaryFind (passes : Nat) (str boundary : List UInt8) : Exec (Option Nat) :=
  boundaryFindFrom str boundary passes (strTok str dashes)

/-- the two comparisons behind `\r\n--` -/
def closesAt (mem : List UInt8) (p : Nat) (boundary : List UInt8) : Exec Bool := do
  if ← startsAt mem p boundary then startsAt mem (p + boundary.length) boundaryClose
  else .ok false

/-- the next search is behind the last one, up to `limit` bytes from there -/
def boundarySizeFrom (mem boundary : List UInt8) (limit : Nat) : Nat → Option Nat → Exec Nat
  | _, none => .ok 0
  | 0, some _ => .error .diverges
  | passes + 1, some p => do
    if ← closesAt mem p boundary then .ok (p - 4)
    else boundarySizeFrom mem boundary limit passes (← binTok mem p limit crlfDashes)

/-- `mem` is what may be read: the bytes within the limit -/
def boundarySize (passes : Nat) (mem boundary : List UInt8) : Exec Nat := do
  boundarySizeFrom mem boundary mem.length passes (← binTok mem 0 mem.length crlfDashes)

/-! ## a part of a body -/

/-- a delimiter line begins at `i` -/
def DelimiterAt (str boundary : List UInt8) (i : Nat) : Prop :=
  (i = 0 ∨ crlf <:+ str.take i) ∧ dashes ++ boundary <+: str.drop i

instance (str boundary : List UInt8) (i : Nat) : Decidable (DelimiterAt str boundary i) :=
  inferInstanceAs (Decidable (_ ∧ _))

def firstDelimiter (str boundary : List UInt8) : Option Nat :=
  (List.range (str.length + 1)).find? fun i => DelimiterAt str boundary i

/-- behind the empty line -/
def headerEnd (str : List UInt8) (i : Nat) : Option Nat :=
  (findSub headerClose (str.drop i)).map (i + · + 4)

def closingDelimiter (boundary : List UInt8) : List UInt8 := crlfDashes ++ boundary ++ boundaryClose

/-- the search ends, behind the header of the first delimiter line -/
def FindsPart (str boundary : List UInt8) : Prop :=
  ∃ passes, boundaryFind passes str boundary =
    .ok ((firstDelimiter str boundary).bind (headerEnd str))

/-- the search ends, within its limit, with what is before the closing delimiter -/
def MeasuresPart (mem boundary : List UInt8) : Prop :=
  ∃ passes, boundarySize passes mem boundary =
    .ok ((findSub (closingDelimiter boundary) mem).getD 0)

/-- the condition for `boundary_find`: there is no `--`, or the boundary is behind the first one,
and a delimiter line begins before the empty line that ends what is there -/
def PartAhead (str boundary : List UInt8) : Prop :=
  ∀ p, strTok str dashes = some p → boundary <+: (str ++ [0]).drop p ∧
    ∀ stop, headerEnd str p = some stop → ∃ i, i + 4 ≤ stop ∧ DelimiterAt str boundary i

/-- the condition for `boundary_size`: the closing delimiter is there, or no `\r\n--` is -/
def ClosedOrPlain (mem boundary : List UInt8) : Prop :=
  ¬ crlfDashes <:+: mem ∨ closingDelimiter boundary <:+: mem

/-! ## measuring -/

section
variable {mem boundary word : List UInt8} {p q i c passes limit : Nat}

theorem startsAt_pos (h : p + word.length ≤ mem.length) :
    startsAt mem p word = .ok (decide (word <+: mem.drop p)) := by
  rw [startsAt, require_pos h]
  rfl

theorem startsAt_eq_ok {b : Bool} (h : startsAt mem p word = .ok b) :
    b = decide (word <+: mem.drop p) := by
  rw [startsAt, require_bind_eq_ok] at h
  exact (Except.ok.inj h.2).symm

/-- the closing delimiter at a place is `\r\n--` there, and what the code compares behind it -/
theorem closingDelimiter_prefix_iff : closingDelimiter boundary <+: mem.drop i ↔
    crlfDashes <+: mem.drop i ∧ boundary <+: mem.drop (i + 4) ∧
      boundaryClose <+: mem.drop (i + 4 + boundary.length) := by
  rw [closingDelimiter, List.append_assoc, append_prefix_iff, append_prefix_iff, List.drop_drop,
    List.drop_drop]
  rfl

/-- two occurrences of `\r\n--` have nothing in common -/
theorem add_four_le_of_crlfDashes (hi : crlfDashes <+: mem.drop i) (hc : crlfDashes <+: mem.drop c)
    (hlt : i < c) : i + 4 ≤ c := by
  have hget (k : Nat) (hk : k < 4) : mem[i + k]? = crlfDashes[k]? := by
    rw [← List.getElem?_drop]
    exact (List.prefix_iff_getElem?.1 hi k hk).trans (List.getElem?_eq_getElem hk).symm
  have hfirst : mem[c]? = some 13 := by
    have := List.prefix_iff_getElem?.1 hc 0 (by decide)
    rwa [List.getElem?_drop] at this
  by_contra hnot
  obtain ⟨k, hk, rfl⟩ : ∃ k, k < 4 ∧ c = i + k := ⟨c - i, by omega, by omega⟩
  rw [hget k hk] at hfirst
  have hnone : ∀ k < 4, crlfDashes[k]? = some 13 → k = 0 := by decide
  have := hnone k hk hfirst
  omega

/-- an occurrence is found, whatever is behind the limit -/
theorem binTok_eq_some (h : findSub crlfDashes (mem.drop p) = some i) :
    binTok mem p mem.length crlfDashes = .ok (some (p + i + 4)) := by
  rw [binTok, memmem, List.take_of_length_le (by rw [List.length_drop]; omega), h]
  rfl

theorem closesAt_pos (hp : i + 4 + boundary.length + 4 ≤ mem.length) (hi : crlfDashes <+: mem.drop i) :
    closesAt mem (i + 4) boundary = .ok (decide (closingDelimiter boundary <+: mem.drop i)) := by
  rw [closesAt, startsAt_pos (by omega), ok_bind]
  by_cases hb : boundary <+: mem.drop (i + 4)
  · rw [if_pos (decide_eq_true hb), startsAt_pos hp]
    exact congrArg Except.ok (decide_eq_decide.2
      ⟨fun h => closingDelimiter_prefix_iff.2 ⟨hi, hb, h⟩,
        fun h => (closingDelimiter_prefix_iff.1 h).2.2⟩)
  · rw [if_neg (fun h => hb (of_decide_eq_true h)),
      decide_eq_false (fun h => hb (closingDelimiter_prefix_iff.1 h).2.1)]

theorem closingDelimiter_of_closesAt (hi : crlfDashes <+: mem.drop i)
    (h : closesAt mem (i + 4) boundary = .ok true) : closingDelimiter boundary <+: mem.drop i := by
  rw [closesAt, bind_eq_ok] at h
  obtain ⟨b, hb, h⟩ := h
  cases b with
  | false => exact nomatch h
  | true =>
    rw [if_pos rfl] at h
    exact closingDelimiter_prefix_iff.2 ⟨hi, of_decide_eq_true (startsAt_eq_ok hb).symm,
      of_decide_eq_true (startsAt_eq_ok h).symm⟩

/-- **the closing delimiter is reached** from any place before it: there is one occurrence less
between them after each pass -/
theorem exists_boundarySizeFrom (hfind : findSub (closingDelimiter boundary) mem = some c)
    (hq : q ≤ c) : ∃ passes, (binTok mem q mem.length crlfDashes >>=
      boundarySizeFrom mem boundary mem.length passes) = .ok c := by
  induction hn : c - q using Nat.strongRecOn generalizing q with
  | _ n ih =>
    have hclose := prefix_drop_of_findSub hfind
    have hc := (closingDelimiter_prefix_iff.1 hclose).1
    have hlen := findSub_le hfind
    have hlong : (closingDelimiter boundary).length = boundary.length + 8 := by
      rw [closingDelimiter, List.length_append, List.length_append]
      simp +arith [crlfDashes, boundaryClose]
    obtain ⟨j, hj, hnext⟩ : ∃ j ≤ c - q, findSub crlfDashes (mem.drop q) = some j := by
      apply exists_findSub_le
      rwa [List.drop_drop, Nat.add_sub_cancel' hq]
    have hhere : crlfDashes <+: mem.drop (q + j) := by
      rw [← List.drop_drop]
      exact prefix_drop_of_findSub hnext
    by_cases heq : closingDelimiter boundary <+: mem.drop (q + j)
    · obtain ⟨i, hi, hfirst⟩ := exists_findSub_le heq
      have hij : q + j = c := by
        rw [hfind] at hfirst
        cases hfirst
        omega
      refine ⟨1, ?_⟩
      rw [binTok_eq_some hnext, ok_bind, boundarySizeFrom, closesAt_pos (by omega) hhere, ok_bind,
        if_pos (decide_eq_true heq), Nat.add_sub_cancel, hij]
    · have hlt : q + j < c := by
        rcases Nat.lt_or_eq_of_le (show q + j ≤ c by omega) with h | h
        · exact h
        · exact absurd (h ▸ hclose) heq
      have hstep := add_four_le_of_crlfDashes hhere hc hlt
      obtain ⟨passes, hpasses⟩ := ih (c - (q + j + 4)) (by omega) hstep rfl
      refine ⟨passes + 1, ?_⟩
      rw [binTok_eq_some hnext, ok_bind, boundarySizeFrom, closesAt_pos (by omega) hhere, ok_bind,
        if_neg (fun h => heq (of_decide_eq_true h)), hpasses]

/-- **without one the search does not end within its limit**, once it has begun -/
theorem boundarySizeFrom_ne_ok (h : ¬ closingDelimiter boundary <:+: mem) {size : Nat}
    (hi : crlfDashes <+: mem.drop i) :
    boundarySizeFrom mem boundary mem.length passes (some (i + 4)) ≠ .ok size := by
  induction passes generalizing i with
  | zero =>
    intro hok
    cases hok
  | succ passes ih =>
    intro hok
    rw [boundarySizeFrom, bind_eq_ok] at hok
    obtain ⟨closes, hcloses, hok⟩ := hok
    have hfalse : closes ≠ true := by
      rintro rfl
      have hclose := closingDelimiter_of_closesAt hi hcloses
      exact h (hclose.isInfix.trans (List.drop_suffix i mem).isInfix)
    rw [if_neg hfalse] at hok
    cases hnext : findSub crlfDashes (mem.drop (i + 4)) with
    | some j =>
      have hj : crlfDashes <+: mem.drop (i + 4 + j) := by
        rw [← List.drop_drop]
        exact prefix_drop_of_findSub hnext
      rw [binTok_eq_some hnext, ok_bind] at hok
      exact ih hj hok
    | none =>
      rw [binTok, memmem, List.take_of_length_le (by rw [List.length_drop]; omega), hnext] at hok
      have hout : require .outOfBounds (i + 4 + mem.length ≤ mem.length) = .error .outOfBounds :=
        require_neg (by omega)
      simp only [hout, error_bind] at hok
      cases hok

theorem measuresPart_iff : MeasuresPart mem boundary ↔ ClosedOrPlain mem boundary := by
  rw [ClosedOrPlain]
  by_cases hclose : closingDelimiter boundary <:+: mem
  · refine iff_of_true ?_ (.inr hclose)
    cases hfind : findSub (closingDelimiter boundary) mem with
    | none => exact absurd hclose (findSub_eq_none.1 hfind)
    | some c =>
      obtain ⟨passes, h⟩ := exists_boundarySizeFrom hfind (Nat.zero_le c)
      exact ⟨passes, by rw [hfind]; exact h⟩
  · rw [or_iff_left hclose]
    cases hfind : findSub crlfDashes mem with
    | none =>
      refine iff_of_true ⟨0, ?_⟩ (findSub_eq_none.1 hfind)
      rw [findSub_eq_none.2 hclose, boundarySize, binTok, memmem, List.drop_zero, List.take_length,
        hfind]
      dsimp only
      rw [require_pos (by omega)]
      rfl
    | some i =>
      refine iff_of_false ?_ (fun h => by rw [findSub_eq_none.2 h] at hfind; exact nomatch hfind)
      rintro ⟨passes, h⟩
      rw [boundarySize, binTok_eq_some (p := 0) (by rwa [List.drop_zero]), ok_bind] at h
      rw [Nat.zero_add] at h
      exact boundarySizeFrom_ne_ok hclose (prefix_drop_of_findSub hfind) h

end

/-! ## finding -/

section
variable {str boundary : List UInt8} {s p i stop passes : Nat}

theorem strTok_eq_some (h : strTok str dashes = some p) : ∃ s, findSub dashes str = some s ∧
    p = s + 2 + ((str.drop (s + 2)).takeWhile (· = 32)).length :=
  let ⟨s, hs, hp⟩ := Option.map_eq_some_iff.1 h
  ⟨s, hs, hp.symm⟩

theorem firstDelimiter_le (h : DelimiterAt str boundary i) :
    ∃ d ≤ i, firstDelimiter str boundary = some d := by
  have hi : i < str.length + 1 := by
    have hle := h.2.length_le
    rw [List.length_append, List.length_drop] at hle
    simp only [dashes, List.length_cons, List.length_nil] at hle
    omega
  cases hfirst : firstDelimiter str boundary with
  | none => exact absurd h (by simpa using List.find?_range_eq_none.1 hfirst i hi)
  | some d =>
    obtain ⟨-, -, hbefore⟩ := List.find?_range_eq_some.1 hfirst
    refine ⟨d, ?_, rfl⟩
    by_contra hlt
    exact absurd h (by simpa using hbefore i (by omega))

theorem delimiterAt_of_first (h : firstDelimiter str boundary = some i) :
    DelimiterAt str boundary i :=
  of_decide_eq_true (List.find?_range_eq_some.1 h).1

theorem le_of_delimiterAt (hs : findSub dashes str = some s) (h : DelimiterAt str boundary i) :
    s ≤ i := by
  obtain ⟨first, hle, hfirst⟩ := exists_findSub_le ((List.prefix_append dashes boundary).trans h.2)
  rw [hs] at hfirst
  cases hfirst
  exact hle

/-- there is no line end among the dashes and the spaces behind them -/
theorem ne_cr_of_mem (hs : findSub dashes str = some s)
    (hp : p = s + 2 + ((str.drop (s + 2)).takeWhile (· = 32)).length) (hi : s ≤ i) {x : UInt8}
    (hx : x ∈ (str.drop i).take (p - i)) : x ≠ 13 := by
  have hdash : str.drop s = dashes ++ str.drop (s + 2) := by
    obtain ⟨rest, hrest⟩ := prefix_drop_of_findSub hs
    rw [← List.drop_drop, ← hrest]
    rfl
  have hpart : (str.drop s).take (p - s) =
      dashes ++ (str.drop (s + 2)).takeWhile (· = 32) := by
    have hlen : p - s = dashes.length + ((str.drop (s + 2)).takeWhile (· = 32)).length := by
      rw [hp]
      simp only [dashes, List.length_cons, List.length_nil]
      omega
    rw [hdash, hlen, List.take_length_add_append]
    exact congrArg _ (List.prefix_iff_eq_take.1 (List.takeWhile_prefix _)).symm
  have hmem : x ∈ (str.drop s).take (p - s) := by
    have hcut : (str.drop i).take (p - i) = ((str.drop s).take (p - s)).drop (i - s) := by
      rw [List.drop_take, List.drop_drop, Nat.add_sub_cancel' hi]
      congr 1
      omega
    rw [hcut] at hx
    exact List.mem_of_mem_drop hx
  rw [hpart, List.mem_append] at hmem
  rintro rfl
  rcases hmem with h | h
  · exact absurd h (by decide)
  · exact absurd (List.all_eq_true.1 List.all_takeWhile _ h) (by decide)

/-- the end of the header from behind the first dashes is that from any place at or behind them,
up to there -/
theorem headerEnd_eq (hs : findSub dashes str = some s)
    (hp : p = s + 2 + ((str.drop (s + 2)).takeWhile (· = 32)).length) (hpl : p ≤ str.length)
    (hi : s ≤ i) (hip : i ≤ p) : headerEnd str i = headerEnd str p := by
  have hfind : findSub headerClose (str.drop i) =
      (findSub headerClose (str.drop p)).map (· + (p - i)) := by
    rw [headerClose, findSub_drop_of_ne (fun x hx => ne_cr_of_mem hs hp hi hx)
      (by rw [List.length_drop]; omega), List.drop_drop, Nat.add_sub_cancel' hip]
  rw [headerEnd, headerEnd, hfind, Option.map_map]
  congr 1
  funext k
  simp only [Function.comp_apply]
  omega

theorem add_four_le_headerEnd (h : headerEnd str i = some stop) : i + 4 ≤ stop := by
  obtain ⟨k, -, rfl⟩ := Option.map_eq_some_iff.1 h
  omega

theorem headerEnd_of_none (hip : p ≤ i) (h : headerEnd str p = none) : headerEnd str i = none := by
  rw [headerEnd, Option.map_eq_none_iff, findSub_eq_none] at h ⊢
  refine fun hin => h (hin.trans ?_)
  obtain ⟨k, rfl⟩ := Nat.exists_eq_add_of_le hip
  rw [← List.drop_drop]
  exact (List.drop_suffix k _).isInfix

theorem headerEnd_of_some (hip : p ≤ i) (h : headerEnd str p = some stop) (hi : i + 4 ≤ stop) :
    headerEnd str i = some stop := by
  obtain ⟨k, hk, rfl⟩ := Option.map_eq_some_iff.1 h
  obtain ⟨c, rfl⟩ := Nat.exists_eq_add_of_le hip
  rw [headerEnd, ← List.drop_drop, findSub_drop hk (by omega), Option.map_some]
  congr 1
  omega

/-- **what is found is what is asked for** when a delimiter line begins before the end of it -/
theorem headerEnd_eq_firstDelimiter (hs : findSub dashes str = some s)
    (hp : p = s + 2 + ((str.drop (s + 2)).takeWhile (· = 32)).length) (hpl : p ≤ str.length) :
    headerEnd str p = (firstDelimiter str boundary).bind (headerEnd str) ↔
      ∀ stop, headerEnd str p = some stop → ∃ i, i + 4 ≤ stop ∧ DelimiterAt str boundary i := by
  have hsame (i : Nat) (hi : s ≤ i) (hip : i ≤ p) := headerEnd_eq hs hp hpl hi hip
  cases hstop : headerEnd str p with
  | none =>
    refine iff_of_true ?_ (fun stop h => nomatch h)
    cases hfirst : firstDelimiter str boundary with
    | none => rfl
    | some i =>
      rw [Option.bind_some]
      rcases Nat.le_total i p with hip | hip
      · rw [hsame i (le_of_delimiterAt hs (delimiterAt_of_first hfirst)) hip, hstop]
      · exact (headerEnd_of_none hip hstop).symm
  | some stop =>
    constructor
    · intro h stop' hstop'
      cases hstop'
      obtain ⟨i, hfirst, hi⟩ := Option.bind_eq_some_iff.1 h.symm
      exact ⟨i, add_four_le_headerEnd hi, delimiterAt_of_first hfirst⟩
    · intro h
      obtain ⟨d, hd, hat⟩ := h stop rfl
      obtain ⟨i, hid, hfirst⟩ := firstDelimiter_le hat
      rw [hfirst, Option.bind_some]
      rcases Nat.le_total i p with hip | hip
      · rw [hsame i (le_of_delimiterAt hs (delimiterAt_of_first hfirst)) hip, hstop]
      · exact (headerEnd_of_some hip hstop (by omega)).symm

/-- **where the boundary is not behind the first dashes the search begins again**, with the same
dashes -/
theorem boundaryFindFrom_ne_ok (hp : strTok str dashes = some p)
    (h : ¬ boundary <+: (str ++ [0]).drop p) {found : Option Nat} :
    boundaryFindFrom str boundary passes (some p) ≠ .ok found := by
  induction passes with
  | zero => exact fun h => nomatch h
  | succ passes ih =>
    intro hok
    rw [boundaryFindFrom, bind_eq_ok] at hok
    obtain ⟨starts, hstarts, hok⟩ := hok
    rw [startsAt_eq_ok hstarts, if_neg (fun hd => h (of_decide_eq_true hd)), hp] at hok
    exact ih hok

theorem boundaryFindFrom_pos (hpl : p ≤ str.length) (h : boundary <+: (str ++ [0]).drop p) :
    boundaryFindFrom str boundary (passes + 1) (some p) = .ok (headerEnd str p) := by
  have hle : p + boundary.length ≤ (str ++ [0]).length := by
    have := h.length_le
    rw [List.length_drop] at this
    rw [List.length_append, List.length_singleton] at *
    omega
  rw [boundaryFindFrom, startsAt_pos hle, ok_bind, if_pos (decide_eq_true h)]
  rfl

theorem findsPart_iff : FindsPart str boundary ↔ PartAhead str boundary := by
  cases hstart : strTok str dashes with
  | none =>
    have hno : findSub dashes str = none := Option.map_eq_none_iff.1 hstart
    refine iff_of_true ⟨0, ?_⟩ (fun p hp => by rw [hstart] at hp; exact nomatch hp)
    have hfirst : firstDelimiter str boundary = none := by
      cases hfirst : firstDelimiter str boundary with
      | none => rfl
      | some i =>
        have hat := (delimiterAt_of_first hfirst).2
        obtain ⟨s, -, hs⟩ := exists_findSub_le ((List.prefix_append dashes boundary).trans hat)
        rw [hno] at hs
        exact nomatch hs
    rw [boundaryFind, hstart, hfirst]
    rfl
  | some p =>
    obtain ⟨s, hs, hp⟩ := strTok_eq_some hstart
    have hpl : p ≤ str.length := by
      have hle := findSub_le hs
      have hspaces := (List.takeWhile_prefix (fun c : UInt8 => c = 32) (l := str.drop (s + 2))).length_le
      rw [List.length_drop] at hspaces
      simp only [dashes, List.length_cons, List.length_nil] at hle
      omega
    have hahead : PartAhead str boundary ↔ boundary <+: (str ++ [0]).drop p ∧
        ∀ stop, headerEnd str p = some stop → ∃ i, i + 4 ≤ stop ∧ DelimiterAt str boundary i := by
      rw [PartAhead, hstart]
      exact ⟨fun h => h p rfl, fun h q hq => Option.some.inj hq ▸ h⟩
    rw [hahead, ← headerEnd_eq_firstDelimiter hs hp hpl, FindsPart]
    constructor
    · rintro ⟨passes, hok⟩
      rw [boundaryFind, hstart] at hok
      by_cases hb : boundary <+: (str ++ [0]).drop p
      · refine ⟨hb, ?_⟩
        cases passes with
        | zero => exact nomatch hok
        | succ passes =>
          rw [boundaryFindFrom_pos hpl hb] at hok
          exact Except.ok.inj hok
      · exact absurd hok (boundaryFindFrom_ne_ok hstart hb)
    · rintro ⟨hb, hstop⟩
      exact ⟨1, by rw [boundaryFind, hstart, boundaryFindFrom_pos hpl hb, hstop]⟩

end

/-- **multipart scanning**: exactly when each of the two searches ends with what is asked for -/
theorem multipartScan_iff (str mem boundary : List UInt8) :
    (FindsPart str boundary ↔ PartAhead str boundary) ∧
      (MeasuresPart mem boundary ↔ ClosedOrPlain mem boundary) :=
  ⟨findsPart_iff, measuresPart_iff⟩

/-- a dash too many in front of the delimiter line, and a line of dashes without a closing
delimiter -/
theorem not_multipartScan :
    ¬ FindsPart [45, 45, 45, 98, 13, 10, 13, 10, 97] [98] ∧
      ¬ MeasuresPart [97, 13, 10, 45, 45, 45] [98] := by
  rw [findsPart_iff, measuresPart_iff]
  constructor
  · intro h
    exact absurd (h 2 (by decide)).1 (by decide)
  · rw [ClosedOrPlain]
    decide

end Ipfs
