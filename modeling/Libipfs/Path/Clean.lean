import Libipfs.Path.Split

/-!
# Cleaning a path

`ipfs_path_clean_path` puts the segments of a path together again, one by one, and cuts off the
last one for a `..`.  The text it has so far stands for a stack of names.

* `lexicalClean`        what the documentation of the function asks for;
* `Buffers.pathCleanPath`   the function, on its buffer;
* `pathCleanPath_eq`    a buffer that is not too long for an `int` has room for all of it;
* `foldl_cleanSegment_rooted`, `foldl_keepStep`   the stack behind the text of a rooted path;
* `cleanPath_iff`         when the function does what its documentation says.
-/

set_option linter.unusedVariables false

namespace Ipfs
open CSem

/-! ## lexical processing -/

/-- the names so far, and one more element of the path -/
def lexStep (rooted : Bool) (names : List (List UInt8)) (name : List UInt8) : List (List UInt8) :=
  if name = [] ∨ name = [46] then names
  else if name = [46, 46] then
    match names.getLast? with
    | none => if rooted then [] else [name]
    | some top => if top = [46, 46] then names ++ [name] else names.dropLast
  else names ++ [name]

def isRooted (path : List UInt8) : Bool := path.head? = some 47

/-- what is left of the elements of a path -/
def lexNames (path : List UInt8) : List (List UInt8) :=
  (path.splitOn 47).foldl (lexStep (isRooted path)) []

/-- **the documented processing**: no slash is doubled, none at the end but that of the root, no
`.`, and no `..` behind a name or at the root; `"."` when nothing is left -/
def lexicalClean (path : List UInt8) : List UInt8 :=
  let text := (if isRooted path then [47] else []) ++ [47].intercalate (lexNames path)
  if text = [] then [46] else text

/-- a name that stays -/
structure ProperName (name : List UInt8) : Prop where
  slashFree : 47 ∉ name
  nonempty : name ≠ []
  notDot : name ≠ [46]

section
variable {names segs : List (List UInt8)} {name : List UInt8} {path : List UInt8} {rooted : Bool}

theorem lexStep_skip (h : name = [] ∨ name = [46]) : lexStep rooted names name = names := if_pos h

theorem lexStep_push (h : ProperName name) (hup : name ≠ [46, 46]) :
    lexStep rooted names name = names ++ [name] := by
  unfold lexStep
  rw [if_neg (not_or.2 ⟨h.nonempty, h.notDot⟩), if_neg hup]

/-- an element is skipped, or goes up, or is pushed -/
theorem element_cases (h : 47 ∉ name) :
    (name = [] ∨ name = [46]) ∨ name = [46, 46] ∨ (ProperName name ∧ name ≠ [46, 46]) := by
  by_cases hskip : name = [] ∨ name = [46]
  · exact .inl hskip
  · by_cases hup : name = [46, 46]
    · exact .inr (.inl hup)
    · rw [not_or] at hskip
      exact .inr (.inr ⟨⟨h, hskip.1, hskip.2⟩, hup⟩)

theorem lexStep_proper (hnames : ∀ n ∈ names, ProperName n) (hname : 47 ∉ name) :
    ∀ n ∈ lexStep rooted names name, ProperName n := by
  intro n hn
  rcases element_cases hname with hskip | rfl | ⟨hproper, hup⟩
  · rw [lexStep_skip hskip] at hn
    exact hnames n hn
  · have hself : ProperName [46, 46] := ⟨by decide, by decide, by decide⟩
    rw [lexStep, if_neg (by decide), if_pos rfl] at hn
    cases hlast : names.getLast? with
    | none =>
      rw [hlast] at hn
      dsimp only at hn
      split at hn
      · cases hn
      · cases List.mem_singleton.1 hn
        exact hself
    | some top =>
      rw [hlast] at hn
      dsimp only at hn
      split at hn
      · rcases List.mem_append.1 hn with hn | hn
        · exact hnames n hn
        · cases List.mem_singleton.1 hn
          exact hself
      · exact hnames n (List.mem_of_mem_dropLast hn)
  · rw [lexStep_push hproper hup] at hn
    rcases List.mem_append.1 hn with hn | hn
    · exact hnames n hn
    · cases List.mem_singleton.1 hn
      exact hproper

theorem foldl_lexStep_proper (hnames : ∀ n ∈ names, ProperName n) (hsegs : ∀ s ∈ segs, 47 ∉ s) :
    ∀ n ∈ segs.foldl (lexStep rooted) names, ProperName n := by
  induction segs generalizing names with
  | nil => exact hnames
  | cons seg segs ih =>
    exact ih (lexStep_proper hnames (hsegs seg List.mem_cons_self))
      fun s hs => hsegs s (List.mem_cons_of_mem seg hs)

theorem lexNames_proper (path : List UInt8) : ∀ n ∈ lexNames path, ProperName n :=
  foldl_lexStep_proper (fun n hn => absurd hn List.not_mem_nil) fun s hs => not_mem_of_mem_splitOn hs

end

/-! ## the function on its buffer -/

namespace Buffers

/-- the path so far, in a buffer of `l + 1` bytes -/
def cleanSegment (l : Int) (r segment : List UInt8) : Exec (List UInt8) :=
  if segment = [] ∧ r = [] then .ok (List.take l.toNat [47])
  else if segment = [46, 46] then
    .ok (match strrchr 47 r with
      | some s => if 0 < s then r.take s else r
      | none => r)
  else if segment ≠ [] ∧ segment.head? ≠ some 47 ∧ segment ≠ [46] then do
    let r ←
      if r = [] then strncat (l + 1).toNat r [46, 47] (toUInt64 (l - r.length))
      else if r.getLast? ≠ some 47 then strncat (l + 1).toNat r [47] (toUInt64 (l - r.length))
      else .ok r
    strncat (l + 1).toNat r segment (toUInt64 (l - r.length))
  else .ok r

/-- a copy of what is in the buffer -/
def copyText (buf : List UInt8) : Exec (Option (List UInt8)) :=
  let l := toInt32 (buf.length + 1)
  if ptrdiffMax < toUInt64 l then .ok none else .ok (some (buf.take l.toNat))

/-- the first byte of the buffer is written before the pointer is checked -/
def pathCleanPath (str : List UInt8) : Exec (Option (List UInt8)) := do
  let l := toInt32 (str.length + 3)
  require .null (toUInt64 l ≤ ptrdiffMax)
  require .outOfBounds (0 < l)
  match ← pathSplitN str [47] (-1) with
  | none => .ok none
  | some path => do
    let buf ← path.texts.foldlM (cleanSegment (l - 1)) []
    copyText buf

section
variable {l : Nat} {r segment : List UInt8}

/-- in a buffer with room for a slash the text is the one without a buffer -/
theorem cleanSegment_eq (hl : 1 ≤ l) (hint : l < 2 ^ 31) (hr : r.length ≤ l) :
    cleanSegment l r segment = .ok (Ipfs.cleanSegment l r segment) ∧
      (Ipfs.cleanSegment l r segment).length ≤ l := by
  have hroom : ∀ text : List UInt8, text.length ≤ l →
      toUInt64 ((l : Int) - text.length) = l - text.length := by
    intro text htext
    have e : (l : Int) - text.length = (l - text.length : Nat) := by omega
    rw [e, toUInt64_natCast_of_lt (by omega)]
  have hcat : ∀ text more : List UInt8, text.length ≤ l →
      strncat ((l : Int) + 1).toNat text more (toUInt64 ((l : Int) - text.length)) =
          .ok (Ipfs.strncat text more (l - text.length)) ∧
        (Ipfs.strncat text more (l - text.length)).length ≤ l := by
    intro text more htext
    have hlen : (more.take (l - text.length)).length ≤ l - text.length := List.length_take_le _ _
    constructor
    · unfold strncat
      rw [hroom text htext, strcat_pos (by omega)]
      rfl
    · unfold Ipfs.strncat
      rw [List.length_append]
      omega
  unfold cleanSegment Ipfs.cleanSegment
  by_cases hroot : segment = [] ∧ r = []
  · rw [if_pos hroot, if_pos hroot]
    exact ⟨congrArg Except.ok (List.take_of_length_le (by simpa using hl)), hl⟩
  · rw [if_neg hroot, if_neg hroot]
    by_cases hup : segment = [46, 46]
    · rw [if_pos hup, if_pos hup]
      refine ⟨rfl, ?_⟩
      cases strrchr 47 r with
      | none => exact hr
      | some s =>
        dsimp only
        split
        · rw [List.length_take]
          omega
        · exact hr
    · rw [if_neg hup, if_neg hup]
      by_cases hname : segment ≠ [] ∧ segment.head? ≠ some 47 ∧ segment ≠ [46]
      · rw [if_pos hname, if_pos hname]
        by_cases hnil : r = []
        · obtain ⟨h1, h2⟩ := hcat r [46, 47] hr
          rw [if_pos hnil, if_pos hnil, h1, ok_bind]
          exact hcat _ segment h2
        · rw [if_neg hnil, if_neg hnil]
          by_cases hslash : r.getLast? ≠ some 47
          · obtain ⟨h1, h2⟩ := hcat r [47] hr
            rw [if_pos hslash, if_pos hslash, h1, ok_bind]
            exact hcat _ segment h2
          · rw [if_neg hslash, if_neg hslash, ok_bind]
            exact hcat r segment hr
      · rw [if_neg hname, if_neg hname]
        exact ⟨rfl, hr⟩

theorem foldlM_cleanSegment_eq (hl : 1 ≤ l) (hint : l < 2 ^ 31) (segs : List (List UInt8))
    (hr : r.length ≤ l) :
    segs.foldlM (cleanSegment l) r = .ok (segs.foldl (Ipfs.cleanSegment l) r) ∧
      (segs.foldl (Ipfs.cleanSegment l) r).length ≤ l := by
  induction segs generalizing r with
  | nil => exact ⟨rfl, hr⟩
  | cons segment segs ih =>
    obtain ⟨hstep, hlen⟩ := @cleanSegment_eq l r segment hl hint hr
    rw [List.foldlM_cons, hstep]
    exact ih hlen

/-- all segments, as `List.splitOn` has them -/
theorem pathSplitN_all {path : CString} (hlen : path.text.length + 3 < 2 ^ 31) :
    ∃ s, pathSplitN path.text [47] (-1) = .ok (some s) ∧ s.texts = path.text.splitOn 47 := by
  have hocc := @occurrences_le _ _ slash.text (by decide) path.text
  obtain ⟨s, hs, hinto⟩ := (@splitLaw_iff_splitFits path slash (-1) (by decide) (by decide)).2
    { counted := fun _ => by omega, limited := fun h => absurd h (by decide),
      steps := .inl (by decide) }
  refine ⟨s, hs, ?_⟩
  rw [hinto.cut, cutsOf, if_pos (by decide)]
  exact piecesUpTo_singleton (Nat.le_refl _)

theorem copyText_eq {buf : List UInt8} (h : buf.length + 1 < 2 ^ 31) :
    copyText buf = .ok (some buf) := by
  have hl : toInt32 ((buf.length : Int) + 1) = (buf.length + 1 : Nat) := toInt32_natCast_of_lt h
  unfold copyText
  rw [hl]
  dsimp only
  rw [toUInt64_natCast_of_lt (by omega), if_neg (by unfold ptrdiffMax; omega), Int.toNat_natCast,
    List.take_of_length_le (Nat.le_succ _)]

/-- **a path that is not too long for an `int`** is cleaned within its buffer -/
theorem pathCleanPath_eq {path : CString} (hlen : path.text.length + 3 < 2 ^ 31) :
    pathCleanPath path.text = .ok (Ipfs.pathCleanPath path.text) := by
  obtain ⟨s, hs, htexts⟩ := pathSplitN_all hlen
  have hl : toInt32 ((path.text.length : Int) + 3) = (path.text.length + 3 : Nat) :=
    toInt32_natCast_of_lt hlen
  obtain ⟨hfold, hbuf⟩ := @foldlM_cleanSegment_eq (path.text.length + 2) [] (by omega) (by omega)
    (path.text.splitOn 47) (Nat.zero_le _)
  have hl' : ((path.text.length + 3 : Nat) : Int) - 1 = (path.text.length + 2 : Nat) := by omega
  unfold pathCleanPath
  rw [hl]
  show (require _ _ >>= fun _ => require _ _ >>= fun _ => pathSplitN path.text [47] (-1) >>= _) = _
  rw [require_pos (by rw [toUInt64_natCast_of_lt (by omega)]; unfold ptrdiffMax; omega), ok_bind,
    require_pos (by omega), ok_bind, hs, ok_bind]
  show (s.texts.foldlM _ _ >>= _) = _
  rw [htexts, hl', hfold, ok_bind, copyText_eq (by omega)]
  rfl

/-- **a path that is too long for an `int`**, as far as its length is negative then -/
theorem not_safe_pathCleanPath {str : List UInt8} (hlen : 2 ^ 31 ≤ str.length + 3)
    (hlen' : str.length + 3 ≤ 2 ^ 32) : ¬ Safe (pathCleanPath str) := by
  have hl : toInt32 ((str.length : Int) + 3) ≤ 0 := by
    rcases Nat.lt_or_ge (str.length + 3) (2 ^ 32) with hlt | hge
    · exact Int.le_of_lt (toInt32_natCast_neg hlen hlt)
    · have e : (str.length : Int) + 3 = 2 ^ 32 := by omega
      rw [e]
      unfold toInt32
      decide
  rintro ⟨r, hr⟩
  obtain ⟨-, hr⟩ := require_bind_eq_ok.1 hr
  obtain ⟨hpos, -⟩ := require_bind_eq_ok.1 hr
  omega

end

end Buffers

/-! ## a rooted path -/

/-- what the function makes of the names so far: a `..` takes the last one off, but not the only
one -/
def keepStep (names : List (List UInt8)) (name : List UInt8) : List (List UInt8) :=
  if name = [] ∨ name = [46] then names
  else if name = [46, 46] then (if 2 ≤ names.length then names.dropLast else names)
  else names ++ [name]

/-- the text that stands for them -/
def rootText (names : List (List UInt8)) : List UInt8 :=
  if names = [] then [47] else Buffers.slashed names

section
open Buffers
variable {names segs : List (List UInt8)} {name path : List UInt8} {l : Nat}

theorem slashed_concat (names : List (List UInt8)) (name : List UInt8) :
    slashed (names ++ [name]) = slashed names ++ 47 :: name := by
  unfold slashed
  rw [List.flatMap_append, List.flatMap_singleton]

/-- the text ends in the last name -/
theorem getLast?_slashed (h : ProperName name) :
    (slashed names ++ 47 :: name).getLast? ≠ some 47 := by
  intro e
  have hlast : (slashed names ++ 47 :: name).getLast? = name.getLast? := by
    rw [List.append_cons, List.getLast?_append_of_ne_nil _ h.nonempty]
  rw [hlast] at e
  exact h.slashFree (List.mem_of_getLast? e)

theorem rootText_concat (names : List (List UInt8)) (name : List UInt8) :
    rootText (names ++ [name]) = slashed names ++ 47 :: name := by
  unfold rootText
  rw [if_neg (by simp), slashed_concat]

theorem rootText_ne_nil (names : List (List UInt8)) : rootText names ≠ [] := by
  rcases List.eq_nil_or_concat names with rfl | ⟨init, last, rfl⟩
  · exact List.cons_ne_nil _ _
  · rw [List.concat_eq_append, rootText_concat]
    simp

/-- **a segment** behind the text of the names so far, where there is room for it -/
theorem cleanSegment_rootText (hnames : ∀ n ∈ names, ProperName n) (hname : 47 ∉ name)
    (hroom : (slashed names).length + name.length + 1 ≤ l) :
    cleanSegment l (rootText names) name = rootText (keepStep names name) := by
  unfold cleanSegment keepStep
  rw [if_neg fun h => rootText_ne_nil names h.2]
  rcases element_cases hname with hskip | rfl | ⟨hproper, hup⟩
  · have hup : name ≠ [46, 46] := by
      rcases hskip with rfl | rfl <;> decide
    rw [if_neg hup, if_neg fun h => hskip.elim h.1 h.2.2, if_pos hskip]
  · rw [if_pos rfl, if_neg (by decide), if_pos rfl]
    rcases List.eq_nil_or_concat names with rfl | ⟨init, last, rfl⟩
    · rfl
    · rw [List.concat_eq_append] at hnames ⊢
      have hlast := hnames last (List.mem_append_right _ List.mem_cons_self)
      rw [rootText_concat, strrchr_append hlast.slashFree]
      dsimp only
      by_cases hinit : init = []
      · subst hinit
        have hone : ¬ 2 ≤ ([] ++ [last]).length := by simp
        have hzero : ¬ 0 < (slashed []).length := Nat.lt_irrefl 0
        rw [if_neg hzero, if_neg hone, rootText_concat]
      · have hpos : 0 < (slashed init).length := by
          rw [slashed_eq hinit]
          exact Nat.succ_pos _
        have htwo : 2 ≤ (init ++ [last]).length := by
          have := List.length_pos_iff.2 hinit
          rw [List.length_append, List.length_singleton]
          omega
        rw [if_pos hpos, List.take_left, if_pos htwo, List.dropLast_concat, rootText, if_neg hinit]
  · have hsegment : name ≠ [] ∧ name.head? ≠ some 47 ∧ name ≠ [46] :=
      ⟨hproper.nonempty, fun e => hname (List.mem_of_head? e), hproper.notDot⟩
    rw [if_neg hup, if_pos hsegment, if_neg (not_or.2 ⟨hproper.nonempty, hproper.notDot⟩),
      if_neg hup, if_neg (rootText_ne_nil names), rootText_concat]
    rcases List.eq_nil_or_concat names with rfl | ⟨init, last, rfl⟩
    · show Ipfs.strncat [47] name (l - 1) = 47 :: name
      unfold Ipfs.strncat
      rw [List.take_of_length_le (by omega)]
      rfl
    · rw [List.concat_eq_append] at hnames hroom ⊢
      have hlast := hnames last (List.mem_append_right _ List.mem_cons_self)
      have htext : rootText (init ++ [last]) = slashed (init ++ [last]) := by
        rw [rootText_concat, slashed_concat]
      rw [htext, if_pos (by rw [slashed_concat]; exact getLast?_slashed hlast)]
      have hroot : (slashed (init ++ [last])).length + 1 + name.length ≤ l := by omega
      have hslash : Ipfs.strncat (slashed (init ++ [last])) [47]
          (l - (slashed (init ++ [last])).length) = slashed (init ++ [last]) ++ [47] := by
        unfold Ipfs.strncat
        rw [@List.take_of_length_le _ _ [47] (by rw [List.length_singleton]; omega)]
      rw [hslash]
      show slashed (init ++ [last]) ++ [47] ++ List.take _ name = _
      rw [List.take_of_length_le (by rw [List.length_append, List.length_singleton]; omega),
        List.append_assoc]
      rfl

/-- a name that is no `..` either -/
def Inner (names : List (List UInt8)) : Prop := ∀ n ∈ names, ProperName n ∧ n ≠ [46, 46]

theorem Inner.nil : Inner [] := fun n hn => absurd hn List.not_mem_nil

theorem Inner.dropLast (h : Inner names) : Inner names.dropLast :=
  fun n hn => h n (List.mem_of_mem_dropLast hn)

theorem Inner.push (h : Inner names) (hproper : ProperName name) (hup : name ≠ [46, 46]) :
    Inner (names ++ [name]) := by
  intro n hn
  rcases List.mem_append.1 hn with hn | hn
  · exact h n hn
  · cases List.mem_singleton.1 hn
    exact ⟨hproper, hup⟩

/-- at the root, and behind a name -/
theorem lexStep_up (h : Inner names) : lexStep true names [46, 46] = names.dropLast := by
  unfold lexStep
  rw [if_neg (by decide), if_pos rfl]
  cases hlast : names.getLast? with
  | none =>
    rw [List.getLast?_eq_none_iff.1 hlast]
    rfl
  | some top => exact if_neg (h top (List.mem_of_getLast? hlast)).2

theorem Inner.lexStep (h : Inner names) (hname : 47 ∉ name) : Inner (lexStep true names name) := by
  rcases element_cases hname with hskip | rfl | ⟨hproper, hup⟩
  · rw [lexStep_skip hskip]
    exact h
  · rw [lexStep_up h]
    exact h.dropLast
  · rw [lexStep_push hproper hup]
    exact h.push hproper hup

theorem Inner.foldl_lexStep (h : Inner names) (hsegs : ∀ s ∈ segs, 47 ∉ s) :
    Inner (segs.foldl (Ipfs.lexStep true) names) := by
  induction segs generalizing names with
  | nil => exact h
  | cons seg segs ih =>
    exact ih (h.lexStep (hsegs seg List.mem_cons_self)) fun s hs => hsegs s (List.mem_cons_of_mem seg hs)

theorem keepStep_up (names : List (List UInt8)) :
    keepStep names [46, 46] = if 2 ≤ names.length then names.dropLast else names := by
  unfold keepStep
  rw [if_neg (by decide), if_pos rfl]

theorem keepStep_push (h : ProperName name) (hup : name ≠ [46, 46]) :
    keepStep names name = names ++ [name] := by
  unfold keepStep
  rw [if_neg (not_or.2 ⟨h.nonempty, h.notDot⟩), if_neg hup]

theorem keepStep_proper (h : ∀ n ∈ names, ProperName n) (hname : 47 ∉ name) :
    (∀ n ∈ keepStep names name, ProperName n) ∧
      (slashed (keepStep names name)).length ≤ (slashed names).length + (name.length + 1) := by
  rcases element_cases hname with hskip | rfl | ⟨hproper, hup⟩
  · rw [keepStep, if_pos hskip]
    exact ⟨h, Nat.le_add_right _ _⟩
  · rw [keepStep_up]
    split
    · rcases List.eq_nil_or_concat names with rfl | ⟨init, last, rfl⟩
      · exact ⟨h, Nat.le_add_right _ _⟩
      · rw [List.concat_eq_append] at h ⊢
        rw [List.dropLast_concat, slashed_concat, List.length_append]
        exact ⟨fun n hn => h n (List.mem_append_left _ hn), by omega⟩
    · exact ⟨h, Nat.le_add_right _ _⟩
  · rw [keepStep_push hproper hup, slashed_concat, List.length_append, List.length_cons]
    refine ⟨fun n hn => ?_, Nat.le_refl _⟩
    rcases List.mem_append.1 hn with hn | hn
    · exact h n hn
    · cases List.mem_singleton.1 hn
      exact hproper

/-- **the stack behind the text** of a rooted path -/
theorem foldl_cleanSegment_rooted (hnames : ∀ n ∈ names, ProperName n) (hsegs : ∀ s ∈ segs, 47 ∉ s)
    (hroom : (slashed names).length + (segs.map fun seg => seg.length + 1).sum ≤ l) :
    segs.foldl (cleanSegment l) (rootText names) = rootText (segs.foldl keepStep names) ∧
      (slashed (segs.foldl keepStep names)).length ≤
        (slashed names).length + (segs.map fun seg => seg.length + 1).sum := by
  induction segs generalizing names with
  | nil => exact ⟨rfl, Nat.le_refl _⟩
  | cons seg segs ih =>
    have hseg := hsegs seg List.mem_cons_self
    obtain ⟨hproper, hlen⟩ := keepStep_proper hnames hseg
    rw [List.map_cons, List.sum_cons] at hroom ⊢
    obtain ⟨hfold, hle⟩ := ih hproper (fun s hs => hsegs s (List.mem_cons_of_mem seg hs)) (by omega)
    rw [List.foldl_cons, List.foldl_cons, cleanSegment_rootText hnames hseg (by omega)]
    exact ⟨hfold, by omega⟩

/-- **the only name is kept**: a name that stays below the stack the documentation asks for -/
theorem foldl_keepStep_cons (first : List UInt8) (hnames : Inner names)
    (hsegs : ∀ s ∈ segs, 47 ∉ s) :
    segs.foldl keepStep (first :: names) = first :: segs.foldl (lexStep true) names := by
  induction segs generalizing names with
  | nil => rfl
  | cons seg segs ih =>
    have hseg := hsegs seg List.mem_cons_self
    have hstep : keepStep (first :: names) seg = first :: lexStep true names seg := by
      rcases element_cases hseg with hskip | rfl | ⟨hproper, hup⟩
      · rw [lexStep_skip hskip]
        exact if_pos hskip
      · rw [keepStep_up, lexStep_up hnames]
        cases names with
        | nil => rfl
        | cons second names => rfl
      · rw [lexStep_push hproper hup, keepStep_push hproper hup]
        rfl
    rw [List.foldl_cons, List.foldl_cons, hstep]
    exact ih (hnames.lexStep hseg) fun s hs => hsegs s (List.mem_cons_of_mem seg hs)

/-- no `..` comes when there is exactly one name -/
def NeverEmpties (names segs : List (List UInt8)) : Prop :=
  ∀ front back, segs = front ++ [46, 46] :: back →
    (front.foldl (lexStep true) names).length ≠ 1

/-- **the stacks agree** as long as no `..` takes off the only name, and differ ever after -/
theorem foldl_keepStep (hnames : Inner names) (hsegs : ∀ s ∈ segs, 47 ∉ s) :
    (NeverEmpties names segs → segs.foldl keepStep names = segs.foldl (lexStep true) names) ∧
    (¬ NeverEmpties names segs → ∃ first, first ≠ [] ∧
      segs.foldl keepStep names = first :: segs.foldl (lexStep true) names) := by
  induction segs generalizing names with
  | nil =>
    refine ⟨fun _ => rfl, fun h => absurd (fun front back e => ?_) h⟩
    exact absurd e.symm (by simp)
  | cons seg segs ih =>
    have hseg := hsegs seg List.mem_cons_self
    have hrest : ∀ s ∈ segs, 47 ∉ s := fun s hs => hsegs s (List.mem_cons_of_mem seg hs)
    by_cases hone : seg = [46, 46] ∧ names.length = 1
    · obtain ⟨rfl, hone⟩ := hone
      obtain ⟨first, rfl⟩ := List.length_eq_one_iff.1 hone
      refine ⟨fun h => absurd hone (h [] segs rfl), fun _ => ⟨first, ?_, ?_⟩⟩
      · exact (hnames first List.mem_cons_self).1.nonempty
      · rw [List.foldl_cons, List.foldl_cons, lexStep_up hnames]
        exact foldl_keepStep_cons first Inner.nil hrest
    · have hstep : keepStep names seg = lexStep true names seg := by
        rcases element_cases hseg with hskip | rfl | ⟨hproper, hup⟩
        · rw [lexStep_skip hskip]
          exact if_pos hskip
        · rw [keepStep_up, lexStep_up hnames]
          have hlen : names.length ≠ 1 := fun h => hone ⟨rfl, h⟩
          split
          · rfl
          · have hnil : names = [] := List.eq_nil_of_length_eq_zero (by omega)
            rw [hnil]
            rfl
        · rw [lexStep_push hproper hup, keepStep_push hproper hup]
      have hnever : NeverEmpties names (seg :: segs) ↔
          NeverEmpties (lexStep true names seg) segs := by
        constructor
        · intro h front back e
          exact h (seg :: front) back (by rw [e, List.cons_append])
        · intro h front back e
          cases front with
          | nil =>
            obtain ⟨rfl, -⟩ := List.cons.inj e
            exact fun hlen => hone ⟨rfl, hlen⟩
          | cons first front =>
            obtain ⟨hfirst, hback⟩ := List.cons.inj e
            subst hfirst
            exact h front back hback
      rw [hnever, List.foldl_cons, List.foldl_cons, hstep]
      exact ih (hnames.lexStep hseg) hrest

end

/-! ## a relative path -/

/-- nothing yet, a dot, a dot and a name, or the root: what the function makes of a path that is
not rooted -/
def RelativeText (r : List UInt8) : Prop :=
  r = [] ∨ r = [46] ∨ [46, 47] <+: r ∨ r.head? = some 47

section
variable {r segment path : List UInt8} {segs : List (List UInt8)} {l : Nat}

theorem RelativeText.append (h : [46, 47] <+: r ∨ r.head? = some 47) (more : List UInt8) :
    RelativeText (r ++ more) := by
  rcases h with h | h
  · exact .inr (.inr (.inl (h.trans (List.prefix_append r more))))
  · refine .inr (.inr (.inr ?_))
    cases r with
    | nil => cases h
    | cons b r => exact h

theorem RelativeText.take (h : [46, 47] <+: r ∨ r.head? = some 47) {n : Nat} (hn : 0 < n) :
    RelativeText (r.take n) := by
  obtain ⟨n, rfl⟩ : ∃ k, n = k + 1 := ⟨n - 1, by omega⟩
  rcases h with ⟨rest, rfl⟩ | h
  · cases n with
    | zero => exact .inr (.inl rfl)
    | succ n => exact .inr (.inr (.inl ⟨rest.take n, rfl⟩))
  · refine .inr (.inr (.inr ?_))
    cases r with
    | nil => cases h
    | cons b r => exact h

theorem RelativeText.cleanSegment (hl : 2 ≤ l) (h : RelativeText r) :
    RelativeText (cleanSegment l r segment) := by
  unfold Ipfs.cleanSegment
  by_cases hroot : segment = [] ∧ r = []
  · rw [if_pos hroot]
    exact .inr (.inr (.inr rfl))
  · rw [if_neg hroot]
    by_cases hup : segment = [46, 46]
    · rw [if_pos hup]
      rcases h with rfl | rfl | h
      · exact .inl rfl
      · exact .inr (.inl rfl)
      · cases strrchr 47 r with
        | none => exact .inr (.inr h)
        | some s =>
          dsimp only
          split
          · exact RelativeText.take h ‹_›
          · exact .inr (.inr h)
    · rw [if_neg hup]
      by_cases hname : segment ≠ [] ∧ segment.head? ≠ some 47 ∧ segment ≠ [46]
      · rw [if_pos hname]
        unfold strncat
        dsimp only
        rcases h with rfl | rfl | h
        · have hdot : [] ++ ([46, 47] : List UInt8).take (l - ([] : List UInt8).length) = [46, 47] := by
            rw [List.nil_append, List.length_nil, List.take_of_length_le hl]
          rw [if_pos rfl, hdot]
          exact RelativeText.append (.inl (List.prefix_refl _)) _
        · have hdot : [46] ++ [47].take (l - ([46] : List UInt8).length) = ([46, 47] : List UInt8) := by
            rw [List.take_of_length_le (by simp; omega)]
            rfl
          rw [if_neg (List.cons_ne_nil _ _), if_pos (by decide), hdot]
          exact RelativeText.append (.inl (List.prefix_refl _)) _
        · have hne : r ≠ [] := by
            rintro rfl
            rcases h with h | h
            · exact absurd h (by decide)
            · cases h
          rw [if_neg hne]
          split
          · rw [List.append_assoc]
            exact RelativeText.append h _
          · exact RelativeText.append h _
      · rw [if_neg hname]
        exact h

theorem RelativeText.foldl_cleanSegment (hl : 2 ≤ l) (h : RelativeText r) :
    RelativeText (segs.foldl (Ipfs.cleanSegment l) r) := by
  induction segs generalizing r with
  | nil => exact h
  | cons segment segs ih => exact ih (h.cleanSegment hl)

/-- **only a dot** is the documented text of a path that is not rooted -/
theorem RelativeText.eq_dot (hrel : isRooted path = false) (h : RelativeText (lexicalClean path)) :
    lexicalClean path = [46] := by
  have hproper := lexNames_proper path
  unfold lexicalClean at h ⊢
  rw [hrel] at h ⊢
  dsimp only at h ⊢
  rw [if_neg Bool.false_ne_true, List.nil_append] at h ⊢
  cases hnames : lexNames path with
  | nil => rfl
  | cons name names =>
    have hname := hproper name (hnames ▸ List.mem_cons_self)
    obtain ⟨b, rest, rfl⟩ := List.exists_cons_of_ne_nil hname.nonempty
    have htext : [47].intercalate ((b :: rest) :: names) = b :: (rest ++ Buffers.slashed names) := by
      have e := Buffers.slashed_eq (List.cons_ne_nil (b :: rest) names)
      rw [Buffers.slashed_cons] at e
      exact (List.cons.inj e).2.symm
    rw [hnames, htext, if_neg (List.cons_ne_nil _ _)] at h
    rw [htext, if_neg (List.cons_ne_nil _ _)]
    rcases h with h | h | h | h
    · cases h
    · exact h
    · obtain ⟨hb, hprefix⟩ := List.cons_prefix_cons.1 h
      cases rest with
      | nil => exact absurd (congrArg (· :: []) hb.symm) hname.notDot
      | cons c rest =>
        obtain ⟨hc, -⟩ := List.cons_prefix_cons.1 hprefix
        exact absurd (hc ▸ List.mem_cons_of_mem b List.mem_cons_self) hname.slashFree
    · cases h
      exact absurd List.mem_cons_self hname.slashFree

end

/-! ## the documentation of the function -/

/-- **the law of cleaning**: the function returns the documented text, from within its buffer, and
returns that text unchanged when it is given it -/
structure CleanLaw (path : CString) : Prop where
  cleaned : Buffers.pathCleanPath path.text = .ok (some (lexicalClean path.text))
  idempotent : Buffers.pathCleanPath (lexicalClean path.text) = .ok (some (lexicalClean path.text))

/-- **the condition**: the path starts with a slash, no `..` comes when there is exactly one name
left, and the length of the buffer is an `int` -/
structure CleanFits (path : CString) : Prop where
  rooted : isRooted path.text = true
  inner : NeverEmpties [] (path.text.splitOn 47)
  length : path.text.length + 3 < 2 ^ 31

section
variable {path : CString} {names : List (List UInt8)} {text : List UInt8}

theorem splitOn_rooted (h : isRooted text = true) :
    text.splitOn 47 = [] :: text.tail.splitOn 47 := by
  cases text with
  | nil => cases h
  | cons b text =>
    cases Option.some.inj (of_decide_eq_true h)
    rw [List.splitOn_cons_eq_if_modifyHead, if_pos (beq_self_eq_true _)]
    rfl

/-- the documented text of a rooted path -/
theorem lexicalClean_rooted (h : isRooted text = true) :
    lexicalClean text = rootText (lexNames text) := by
  unfold lexicalClean rootText
  rw [if_pos h]
  dsimp only
  rw [List.singleton_append, if_neg (List.cons_ne_nil _ _)]
  by_cases hnil : lexNames text = []
  · rw [if_pos hnil, hnil]
    rfl
  · rw [if_neg hnil, Buffers.slashed_eq hnil]

/-- **what the function makes of a rooted path** -/
theorem pathCleanPath_rooted (h : isRooted text = true) : pathCleanPath text =
    some (rootText ((text.splitOn 47).foldl keepStep [])) ∧
      (rootText ((text.splitOn 47).foldl keepStep [])).length ≤ text.length := by
  have hsum := length_splitOn 47 text.tail
  have hlength : text.tail.length + 1 = text.length := by
    cases text with
    | nil => cases h
    | cons b text => rfl
  obtain ⟨hfold, hle⟩ := @foldl_cleanSegment_rooted [] (text.tail.splitOn 47) (text.length + 2)
    (fun n hn => absurd hn List.not_mem_nil) (fun s hs => not_mem_of_mem_splitOn hs)
    (by show 0 + _ ≤ _; omega)
  have hkeep : (text.splitOn 47).foldl keepStep [] =
      (text.tail.splitOn 47).foldl keepStep [] := by
    rw [splitOn_rooted h]
    rfl
  rw [hkeep]
  constructor
  · show some ((text.splitOn 47).foldl _ _) = _
    rw [splitOn_rooted h]
    exact congrArg some hfold
  · unfold rootText
    split
    · rw [List.length_singleton]
      omega
    · exact le_trans hle (by show 0 + _ ≤ _; omega)

/-- **a documented text** stands for its names -/
theorem splitOn_rootText (h : Inner names) :
    NeverEmpties [] ((rootText names).splitOn 47) ∧ lexNames (rootText names) = names := by
  have hpush : ∀ (segs acc : List (List UInt8)), Inner segs →
      segs.foldl (lexStep true) acc = acc ++ segs := by
    intro segs
    induction segs with
    | nil => exact fun acc _ => (List.append_nil acc).symm
    | cons seg segs ih =>
      intro acc hsegs
      obtain ⟨hproper, hup⟩ := hsegs seg List.mem_cons_self
      rw [List.foldl_cons, lexStep_push hproper hup,
        ih _ fun n hn => hsegs n (List.mem_cons_of_mem seg hn), List.append_assoc,
        List.singleton_append]
  by_cases hnil : names = []
  · subst hnil
    refine ⟨fun front back e => ?_, rfl⟩
    have hm : [46, 46] ∈ (rootText []).splitOn 47 := e ▸ List.mem_append_right _ List.mem_cons_self
    exact absurd hm (by decide)
  · have htext : rootText names = 47 :: [47].intercalate names := by
      rw [rootText, if_neg hnil, Buffers.slashed_eq hnil]
    have hroot : isRooted (rootText names) = true := by
      rw [htext]
      rfl
    have hsplit : (rootText names).splitOn 47 = [] :: names := by
      rw [splitOn_rooted hroot, htext]
      exact congrArg (List.cons []) (List.splitOn_intercalate 47 (fun n hn => (h n hn).1.slashFree) hnil)
    constructor
    · intro front back e
      rw [hsplit] at e
      have hm : [46, 46] ∈ [] :: names := e ▸ List.mem_append_right _ List.mem_cons_self
      rcases List.mem_cons.1 hm with hm | hm
      · cases hm
      · exact absurd rfl (h _ hm).2
    · rw [lexNames, hroot, hsplit, List.foldl_cons, lexStep_skip (.inl rfl)]
      exact hpush names [] h

/-- no name is made up -/
theorem mem_foldl_lexStep {segs : List (List UInt8)} (hnames : Inner names)
    (hsegs : ∀ s ∈ segs, 47 ∉ s) :
    ∀ n ∈ segs.foldl (lexStep true) names, n ∈ names ∨ n ∈ segs := by
  induction segs generalizing names with
  | nil => exact fun n hn => .inl hn
  | cons seg segs ih =>
    intro n hn
    have hseg := hsegs seg List.mem_cons_self
    rcases ih (hnames.lexStep hseg) (fun s hs => hsegs s (List.mem_cons_of_mem seg hs)) n hn
      with hn | hn
    · rcases element_cases hseg with hskip | rfl | ⟨hproper, hup⟩
      · rw [lexStep_skip hskip] at hn
        exact .inl hn
      · rw [lexStep_up hnames] at hn
        exact .inl (List.mem_of_mem_dropLast hn)
      · rw [lexStep_push hproper hup, List.mem_append, List.mem_singleton] at hn
        rcases hn with hn | rfl
        · exact .inl hn
        · exact .inr List.mem_cons_self
    · exact .inr (List.mem_cons_of_mem seg hn)

theorem slash_free (text : List UInt8) : ∀ s ∈ text.splitOn 47, 47 ∉ s :=
  fun s hs => not_mem_of_mem_splitOn hs

/-- **under the condition** the function returns the documented text -/
theorem CleanFits.cleaned (h : CleanFits path) :
    Buffers.pathCleanPath path.text = .ok (some (lexicalClean path.text)) ∧
      (lexicalClean path.text).length ≤ path.text.length := by
  obtain ⟨hclean, hle⟩ := pathCleanPath_rooted h.rooted
  have hnames : lexNames path.text = (path.text.splitOn 47).foldl (lexStep true) [] := by
    rw [lexNames, h.rooted]
  rw [(foldl_keepStep Inner.nil (slash_free path.text)).1 h.inner, ← hnames,
    ← lexicalClean_rooted h.rooted] at hclean hle
  rw [Buffers.pathCleanPath_eq h.length, hclean]
  exact ⟨rfl, hle⟩

/-- no zero comes in -/
theorem rootText_noZero (h : ∀ n ∈ names, (0 : UInt8) ∉ n) : 0 ∉ rootText names := by
  unfold rootText
  split
  · decide
  · intro h0
    obtain ⟨n, hn, h0⟩ := List.mem_flatMap.1 h0
    rcases List.mem_cons.1 h0 with h0 | h0
    · exact absurd h0 (by decide)
    · exact h n hn h0

theorem rootText_rooted (names : List (List UInt8)) : isRooted (rootText names) = true := by
  cases names with
  | nil => rfl
  | cons name names => rfl

theorem CleanFits.law (h : CleanFits path) : CleanLaw path := by
  obtain ⟨hclean, hle⟩ := h.cleaned
  refine { cleaned := hclean, idempotent := ?_ }
  have hnames : lexNames path.text = (path.text.splitOn 47).foldl (lexStep true) [] := by
    rw [lexNames, h.rooted]
  have hinner : Inner (lexNames path.text) := by
    rw [hnames]
    exact Inner.nil.foldl_lexStep (slash_free path.text)
  have hzero : ∀ n ∈ lexNames path.text, (0 : UInt8) ∉ n := by
    intro n hn h0
    rw [hnames] at hn
    rcases mem_foldl_lexStep Inner.nil (slash_free path.text) n hn with hn | hn
    · exact absurd hn List.not_mem_nil
    · exact path.noZero (of_mem_splitOn hn h0).1
  have hroot := lexicalClean_rooted h.rooted
  obtain ⟨hnever, hagain⟩ := splitOn_rootText hinner
  rw [hroot] at hle ⊢
  let again : CString := {
    text := rootText (lexNames path.text)
    noZero := rootText_noZero hzero
    fits := Nat.lt_of_le_of_lt hle path.fits }
  have hlength : (rootText (lexNames path.text)).length + 3 < 2 ^ 31 := by
    have := h.length
    omega
  have hfits : CleanFits again :=
    { rooted := rootText_rooted _, inner := hnever, length := hlength }
  have e : Buffers.pathCleanPath (rootText (lexNames path.text)) =
      .ok (some (lexicalClean (rootText (lexNames path.text)))) := hfits.cleaned.1
  rw [e, lexicalClean_rooted (rootText_rooted _), hagain]

/-- a stack with one name more makes another text -/
theorem rootText_cons_ne {first : List UInt8} (hfirst : first ≠ []) (names : List (List UInt8)) :
    rootText (first :: names) ≠ rootText names := by
  intro e
  have e := congrArg List.length e
  have hpos := List.length_pos_iff.2 hfirst
  rw [rootText, if_neg (List.cons_ne_nil _ _), Buffers.slashed_cons, List.length_append,
    List.length_cons] at e
  cases names with
  | nil =>
    rw [rootText, if_pos rfl, List.length_singleton] at e
    omega
  | cons name names =>
    rw [rootText, if_neg (List.cons_ne_nil _ _)] at e
    omega

/-- **a path that is not rooted** is never cleaned as documented -/
theorem not_cleanLaw_of_relative (hrel : isRooted path.text = false)
    (hlength : path.text.length + 3 < 2 ^ 31) : ¬ CleanLaw path := by
  intro h
  have hclean := h.cleaned
  have hagain := h.idempotent
  rw [Buffers.pathCleanPath_eq hlength, Except.ok.injEq] at hclean
  have htext : RelativeText (lexicalClean path.text) := by
    rw [← Option.some.inj hclean]
    exact RelativeText.foldl_cleanSegment (Nat.le_add_left 2 _) (.inl rfl)
  -- a dot is cleaned to nothing
  have hdot := @Buffers.pathCleanPath_eq { text := [46], noZero := by decide, fits := by decide }
    (by decide)
  rw [RelativeText.eq_dot hrel htext] at hagain
  rw [hagain] at hdot
  exact absurd (Except.ok.inj hdot) (by decide)

theorem CleanLaw.fits (hle : path.text.length + 3 ≤ 2 ^ 32) (h : CleanLaw path) :
    CleanFits path := by
  have hlength : path.text.length + 3 < 2 ^ 31 := by
    by_contra hge
    exact Buffers.not_safe_pathCleanPath (Nat.le_of_not_lt hge) hle ⟨_, h.cleaned⟩
  have hrooted : isRooted path.text = true := by
    by_contra hrel
    exact not_cleanLaw_of_relative (Bool.eq_false_of_not_eq_true hrel) hlength h
  refine { rooted := hrooted, inner := ?_, length := hlength }
  by_contra hnever
  obtain ⟨first, hfirst, hkeep⟩ := (foldl_keepStep Inner.nil (slash_free path.text)).2 hnever
  have hnames : lexNames path.text = (path.text.splitOn 47).foldl (lexStep true) [] := by
    rw [lexNames, hrooted]
  have hclean := h.cleaned
  rw [Buffers.pathCleanPath_eq hlength, (pathCleanPath_rooted hrooted).1, hkeep, ← hnames,
    lexicalClean_rooted hrooted, Except.ok.injEq, Option.some.injEq] at hclean
  exact rootText_cons_ne hfirst _ hclean

/-- **the documentation is met** under the condition; and, as long as the length of the buffer
does not come out as a small positive `int` again, under no other -/
theorem cleanPath_iff (path : CString) : (CleanFits path → CleanLaw path) ∧
    (path.text.length + 3 ≤ 2 ^ 32 → CleanLaw path → CleanFits path) :=
  ⟨CleanFits.law, CleanLaw.fits⟩

/-- `"/a/.."` is cleaned to `"/a"` -/
theorem not_cleanPath : ¬ ∀ path, CleanLaw path := by
  intro h
  have hlaw := h { text := [47, 97, 47, 46, 46], noZero := by decide, fits := by decide }
  have hfits := hlaw.fits (by decide)
  exact absurd rfl (hfits.inner [[], [97]] [] rfl)

end

end Ipfs
