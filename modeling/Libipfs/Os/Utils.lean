import Libipfs.Lib.CString
import Mathlib.Data.List.DropRight

/-!
# Joining file paths

`os_utils_filepath_join` looks at the last character of the root, and counts no place for the slash
that it may have to add.

* `joinPath`                 a root and an extension, with a slash between them if there is none;
* `filepathJoin_eq_some`     when the function joins them;
* `filepathJoin_eq_none`     when it returns 0;
* `withOneSlash`             a root and an extension with exactly one slash between them;
* `joinPath_eq`              **the slashes between them** are those that are there, or one;
* `joinsInside_iff`          when the function stays in its buffer and leaves one slash.
-/

namespace Libp2p
open CSem

/-- the character in front of the zero byte -/
def lastChar (text : List UInt8) : Exec UInt8 :=
  match text.getLast? with
  | none => .error .outOfBounds
  | some c => .ok c

/-- one of the two should have a slash -/
def addSlash (maxLen : Nat) (root ext : List UInt8) : Exec (List UInt8) := do
  let last ← lastChar root
  if last ≠ 47 ∧ ext.head? ≠ some 47 then strcat maxLen root [47] else .ok root

/-- `none` when the function returns 0 -/
def filepathJoin (root ext : List UInt8) (maxLen : Nat) : Exec (Option (List UInt8)) :=
  if root.length + ext.length + 1 > maxLen then .ok none
  else do
    let results ← strcpy maxLen root
    let results ← addSlash maxLen results ext
    let results ← strcat maxLen results ext
    .ok (some results)

/-- neither has a slash where they meet -/
def NeedsSlash (root ext : List UInt8) : Prop := root.getLast? ≠ some 47 ∧ ext.head? ≠ some 47

instance (root ext : List UInt8) : Decidable (NeedsSlash root ext) :=
  inferInstanceAs (Decidable (_ ∧ _))

def joinPath (root ext : List UInt8) : List UInt8 :=
  if NeedsSlash root ext then root ++ 47 :: ext else root ++ ext

section
variable {root ext out : List UInt8} {maxLen : Nat}

theorem joinPath_pos (h : NeedsSlash root ext) : joinPath root ext = root ++ 47 :: ext := if_pos h

theorem joinPath_neg (h : ¬ NeedsSlash root ext) : joinPath root ext = root ++ ext := if_neg h

theorem length_joinPath (root ext : List UInt8) : (joinPath root ext).length =
    root.length + ext.length + if NeedsSlash root ext then 1 else 0 := by
  by_cases h : NeedsSlash root ext
  · rw [joinPath_pos h, if_pos h, List.length_append, List.length_cons]
    omega
  · rw [joinPath_neg h, if_neg h, List.length_append]
    rfl

/-- a root with a last character has its slash added, where there is room -/
theorem addSlash_eq (hne : root ≠ []) : addSlash maxLen root ext =
    if NeedsSlash root ext then strcat maxLen root [47] else .ok root := by
  have hlast := List.getLast?_eq_some_getLast hne
  have hcond : (root.getLast hne ≠ 47 ∧ ext.head? ≠ some 47) ↔ NeedsSlash root ext := by
    unfold NeedsSlash
    rw [hlast, Ne, Ne, Ne, Option.some.injEq]
  unfold addSlash lastChar
  rw [hlast]
  dsimp only
  rw [ok_bind]
  by_cases h : NeedsSlash root ext
  · rw [if_pos h, if_pos (hcond.2 h)]
  · rw [if_neg h, if_neg (hcond.not.2 h)]

/-- the character in front of an empty root is not one of it -/
theorem addSlash_nil : addSlash maxLen [] ext = .error .outOfBounds := rfl

/-- **what is joined**, when there is room for the slash too -/
theorem filepathJoin_eq_some : filepathJoin root ext maxLen = .ok (some out) ↔
    root ≠ [] ∧ (joinPath root ext).length < maxLen ∧ out = joinPath root ext := by
  have hlen := length_joinPath root ext
  unfold filepathJoin
  by_cases hroom : root.length + ext.length + 1 > maxLen
  · rw [if_pos hroom]
    exact iff_of_false (fun h => by cases h) fun h => by omega
  rw [if_neg hroom, strcpy_pos (by omega), ok_bind]
  by_cases hne : root = []
  · rw [hne, addSlash_nil]
    exact iff_of_false (fun h => by cases h) fun h => h.1 rfl
  rw [addSlash_eq hne]
  by_cases h : NeedsSlash root ext
  · rw [if_pos h] at hlen
    rw [if_pos h, joinPath_pos h]
    constructor
    · intro hjoin
      obtain ⟨results, hresults, hjoin⟩ := bind_eq_ok.1 hjoin
      obtain ⟨results', hresults', hjoin⟩ := bind_eq_ok.1 hjoin
      cases hjoin
      obtain ⟨-, rfl⟩ := strcat_eq_ok.1 hresults
      obtain ⟨hfits, rfl⟩ := strcat_eq_ok.1 hresults'
      rw [← List.length_append, List.append_assoc] at hfits
      exact ⟨hne, hfits, List.append_assoc _ _ _⟩
    · rintro ⟨-, hfits, rfl⟩
      rw [List.length_append, List.length_cons] at hfits
      rw [strcat_pos (by rw [List.length_singleton]; omega), ok_bind,
        strcat_pos (by rw [List.length_append, List.length_singleton]; omega), ok_bind,
        List.append_assoc]
      rfl
  · rw [if_neg h, ok_bind, joinPath_neg h, List.length_append]
    constructor
    · intro hjoin
      obtain ⟨results, hresults, hjoin⟩ := bind_eq_ok.1 hjoin
      cases hjoin
      obtain ⟨hfits, rfl⟩ := strcat_eq_ok.1 hresults
      exact ⟨hne, hfits, rfl⟩
    · rintro ⟨-, hfits, rfl⟩
      rw [strcat_pos hfits, ok_bind]

/-- the length is looked at first -/
theorem filepathJoin_eq_none : filepathJoin root ext maxLen = .ok none ↔
    maxLen < root.length + ext.length + 1 := by
  unfold filepathJoin
  by_cases hroom : root.length + ext.length + 1 > maxLen
  · rw [if_pos hroom]
    exact ⟨fun _ => hroom, fun _ => rfl⟩
  · rw [if_neg hroom]
    refine iff_of_false (fun h => ?_) hroom
    obtain ⟨copied, -, h⟩ := bind_eq_ok.1 h
    obtain ⟨slashed, -, h⟩ := bind_eq_ok.1 h
    obtain ⟨results, -, h⟩ := bind_eq_ok.1 h
    cases h

end

/-! ## one slash -/

/-- the slashes at the end of the root and at the beginning of the extension -/
def slashesBetween (root ext : List UInt8) : Nat :=
  (root.rtakeWhile (· = 47)).length + (ext.takeWhile (· = 47)).length

/-- the root without the slashes at its end, a slash, and the extension without those in front -/
def withOneSlash (root ext : List UInt8) : List UInt8 :=
  root.rdropWhile (· = 47) ++ 47 :: ext.dropWhile (· = 47)

section
variable {root ext : List UInt8} {maxLen : Nat}

theorem rtakeWhile_slash (root : List UInt8) :
    root.rtakeWhile (· = 47) = List.replicate (root.rtakeWhile (· = 47)).length 47 := by
  refine List.eq_replicate_length.2 fun b hb => ?_
  have hslash := List.mem_rtakeWhile_imp hb
  exact of_decide_eq_true hslash

theorem takeWhile_slash (ext : List UInt8) :
    ext.takeWhile (· = 47) = List.replicate (ext.takeWhile (· = 47)).length 47 := by
  refine List.eq_replicate_length.2 fun b hb => ?_
  have hslash := List.mem_takeWhile_imp hb
  exact of_decide_eq_true hslash

theorem rtakeWhile_slash_eq_nil : root.rtakeWhile (· = 47) = [] ↔ root.getLast? ≠ some 47 := by
  rw [List.rtakeWhile_eq_nil_iff]
  by_cases hne : root = []
  · rw [hne]
    exact iff_of_true (fun h => absurd rfl h) nofun
  · have hlast : root.getLast? ≠ some 47 ↔ root.getLast hne ≠ 47 := by
      rw [List.getLast?_eq_some_getLast hne]
      exact not_congr Option.some_inj
    rw [hlast]
    exact ⟨fun h h47 => h hne (decide_eq_true h47), fun h _ h47 => h (of_decide_eq_true h47)⟩

theorem takeWhile_slash_eq_nil : ext.takeWhile (· = 47) = [] ↔ ext.head? ≠ some 47 := by
  cases ext with
  | nil => exact iff_of_true rfl nofun
  | cons c ext =>
    rw [List.takeWhile_cons, List.head?_cons]
    by_cases hc : c = 47
    · rw [if_pos (decide_eq_true hc), hc]
      exact iff_of_false (List.cons_ne_nil _ _) (not_not_intro rfl)
    · rw [if_neg (by rwa [decide_eq_true_iff])]
      exact iff_of_true rfl fun h => hc (Option.some.inj h)

/-- a slash is needed when there is none -/
theorem needsSlash_iff : NeedsSlash root ext ↔ slashesBetween root ext = 0 := by
  unfold NeedsSlash slashesBetween
  rw [← rtakeWhile_slash_eq_nil, ← takeWhile_slash_eq_nil, Nat.add_eq_zero_iff,
    List.length_eq_zero_iff, List.length_eq_zero_iff]

/-- **the slashes between the two**: one is added to none, and none is taken away -/
theorem joinPath_eq (root ext : List UInt8) : joinPath root ext =
    root.rdropWhile (· = 47) ++ (List.replicate (max 1 (slashesBetween root ext)) 47 ++
      ext.dropWhile (· = 47)) := by
  have hroot := @List.rdropWhile_append_rtakeWhile _ (fun b : UInt8 => decide (b = 47)) root
  have hext := @List.takeWhile_append_dropWhile _ (fun b : UInt8 => decide (b = 47)) ext
  by_cases h : NeedsSlash root ext
  · rw [rtakeWhile_slash_eq_nil.2 h.1, List.append_nil] at hroot
    rw [takeWhile_slash_eq_nil.2 h.2, List.nil_append] at hext
    rw [joinPath_pos h, needsSlash_iff.1 h, hroot, hext]
    rfl
  · have hpos : 1 ≤ slashesBetween root ext :=
      Nat.one_le_iff_ne_zero.2 fun h0 => h (needsSlash_iff.2 h0)
    have hall : joinPath root ext = root.rdropWhile (· = 47) ++ root.rtakeWhile (· = 47) ++
        (ext.takeWhile (· = 47) ++ ext.dropWhile (· = 47)) := by
      rw [joinPath_neg h, hroot, hext]
    rw [hall, rtakeWhile_slash, takeWhile_slash, Nat.max_eq_right hpos, slashesBetween,
      List.replicate_add, List.append_assoc, List.append_assoc]

theorem joinPath_eq_withOneSlash :
    joinPath root ext = withOneSlash root ext ↔ slashesBetween root ext ≤ 1 := by
  rw [joinPath_eq, withOneSlash, List.append_cancel_left_eq]
  constructor
  · intro h
    have hlen := congrArg List.length h
    rw [List.length_append, List.length_replicate, List.length_cons] at hlen
    omega
  · intro h
    rw [Nat.max_eq_left h]
    rfl

/-- 0 is returned, or nothing is written behind the buffer, the zero byte included, and there is one
slash between the two -/
def JoinsInside (root ext : List UInt8) (maxLen : Nat) : Prop :=
  ∃ result, filepathJoin root ext maxLen = .ok result ∧
    ∀ out, result = some out → out.length + 1 ≤ maxLen ∧ out = withOneSlash root ext

/-- **joining** is right when the two are too long, or have one slash between them, or none and room
for one more -/
theorem joinsInside_iff (root ext : List UInt8) (maxLen : Nat) :
    JoinsInside root ext maxLen ↔ maxLen < root.length + ext.length + 1 ∨
      (root ≠ [] ∧ slashesBetween root ext ≤ 1 ∧
        (slashesBetween root ext = 0 → root.length + ext.length + 1 < maxLen)) := by
  have hlen := length_joinPath root ext
  by_cases hroom : maxLen < root.length + ext.length + 1
  · exact iff_of_true ⟨none, filepathJoin_eq_none.2 hroom, nofun⟩ (.inl hroom)
  have hfits : (joinPath root ext).length < maxLen ↔
      (slashesBetween root ext = 0 → root.length + ext.length + 1 < maxLen) := by
    rw [hlen, ← needsSlash_iff]
    by_cases h : NeedsSlash root ext
    · rw [if_pos h]
      exact ⟨fun hlt _ => hlt, fun hlt => hlt h⟩
    · rw [if_neg h]
      exact iff_of_true (by omega) fun h' => absurd h' h
  constructor
  · intro h
    obtain ⟨result, hresult, hall⟩ := h
    cases result with
    | none => exact .inl (filepathJoin_eq_none.1 hresult)
    | some out =>
      obtain ⟨hne, hlt, rfl⟩ := filepathJoin_eq_some.1 hresult
      exact .inr ⟨hne, joinPath_eq_withOneSlash.1 (hall _ rfl).2, hfits.1 hlt⟩
  · intro h
    obtain ⟨hne, hone, hmore⟩ := h.resolve_left hroom
    have hlt := hfits.2 hmore
    refine ⟨some (joinPath root ext), filepathJoin_eq_some.2 ⟨hne, hlt, rfl⟩, ?_⟩
    intro out hout
    cases hout
    exact ⟨hlt, joinPath_eq_withOneSlash.2 hone⟩

/-- a slash behind the end of the buffer, two slashes, and a root that is empty -/
theorem not_joinsInside : ¬ JoinsInside (asciiBytes "a") (asciiBytes "b") 3 ∧
    ¬ JoinsInside (asciiBytes "a/") (asciiBytes "/b") 10 ∧
    ¬ JoinsInside [] (asciiBytes "b") 10 := by
  refine ⟨fun h => ?_, fun h => ?_, fun h => ?_⟩
  · obtain ⟨result, hresult, -⟩ := h
    have hoverflow : filepathJoin (asciiBytes "a") (asciiBytes "b") 3 = .error .overflow := by
      decide
    cases hoverflow.symm.trans hresult
  · obtain ⟨result, hresult, hall⟩ := h
    have hjoined : filepathJoin (asciiBytes "a/") (asciiBytes "/b") 10 =
        .ok (some (asciiBytes "a//b")) := by decide
    cases hjoined.symm.trans hresult
    have hone := (hall _ rfl).2
    revert hone
    decide
  · obtain ⟨result, hresult, -⟩ := h
    have hread : filepathJoin [] (asciiBytes "b") 10 = .error .outOfBounds := rfl
    cases hread.symm.trans hresult

end

end Libp2p
