import Libipfs.Lib.Split
import Mathlib.Data.List.Forall2

/-!
# Searching a text of which only a part is known

A cell of a template holds an element that is known, or any but those that are to be avoided.  The
search gives up where the template does not say whether the delimiter is there.

* `Fills avoid cells text`  the text is one of the template;
* `findIn`                  the place of the first occurrence, if the template tells it;
* `findSub_of_findIn`       **what is found in the template** is found in every text of it;
* `drop_flatten_of_fills`   the parts of a text are where the template has them.
-/

set_option linter.unusedSectionVars false

namespace CSem

section
variable {α : Type} [DecidableEq α] {avoid : List α} {cells cells' : List (Option α)}
variable {text text' delim : List α} {b : Bool} {k : Nat} {parts : List (List α)}
variable {template : List (List (Option α))}

/-- the text is one of the template -/
def Fills (avoid : List α) (cells : List (Option α)) (text : List α) : Prop :=
  List.Forall₂ (fun c a => match c with | some x => a = x | none => a ∉ avoid) cells text

/-- whether the text begins with the delimiter, if the template tells it -/
def beginsIn (avoid : List α) : List α → List (Option α) → Option Bool
  | [], _ => some true
  | _ :: _, [] => some false
  | x :: delim, some a :: cells => if x = a then beginsIn avoid delim cells else some false
  | x :: delim, none :: cells =>
    if x ∈ avoid then some false
    else if beginsIn avoid delim cells = some false then some false else none

def findIn (avoid delim : List α) : List (Option α) → Option (Option Nat)
  | [] => some (if delim = [] then some 0 else none)
  | c :: cells =>
    match beginsIn avoid delim (c :: cells) with
    | none => none
    | some true => some (some 0)
    | some false => (findIn avoid delim cells).map fun r => r.map (· + 1)

/-! ## texts of a template -/

theorem fills_known (text : List α) : Fills avoid (text.map some) text := by
  induction text with
  | nil => exact .nil
  | cons a text ih => exact .cons rfl ih

theorem fills_unknown (h : ∀ a ∈ text, a ∉ avoid) : Fills avoid (List.replicate text.length none) text := by
  induction text with
  | nil => exact .nil
  | cons a text ih =>
    exact .cons (h a List.mem_cons_self) (ih fun a ha => h a (List.mem_cons_of_mem _ ha))

theorem Fills.append (h : Fills avoid cells text) (h' : Fills avoid cells' text') :
    Fills avoid (cells ++ cells') (text ++ text') := by
  induction h with
  | nil => exact h'
  | cons hc _ ih => exact .cons hc ih

theorem Fills.length (h : Fills avoid cells text) : cells.length = text.length := List.Forall₂.length_eq h

theorem Fills.drop (h : Fills avoid cells text) (k : Nat) : Fills avoid (cells.drop k) (text.drop k) :=
  List.forall₂_drop k h

theorem fills_flatten (h : List.Forall₂ (Fills avoid) template parts) :
    Fills avoid template.flatten parts.flatten := by
  induction h with
  | nil => exact .nil
  | cons hc _ ih => exact hc.append ih

/-- what the template knows is there -/
theorem Fills.eq_append (h : Fills avoid cells text) (hknown : cells.take delim.length = delim.map some) :
    text = delim ++ text.drop delim.length := by
  induction delim generalizing cells text with
  | nil => rfl
  | cons a delim ih =>
    cases h with
    | nil => cases hknown
    | cons hc hrest =>
      rw [List.length_cons, List.take_succ_cons, List.map_cons] at hknown
      obtain ⟨rfl, htail⟩ := List.cons.inj hknown
      rw [List.length_cons, List.drop_succ_cons, List.cons_append, ← ih hrest htail]
      exact congrArg (· :: _) hc

/-- the parts of a text are where the template has them -/
theorem drop_flatten_of_fills (h : List.Forall₂ (Fills avoid) template parts)
    (hk : parts[k]? = some text) :
    parts.flatten.drop (template.take k).flatten.length = text ++ (parts.drop (k + 1)).flatten := by
  induction h generalizing k with
  | nil => cases hk
  | cons hc _ ih =>
    cases k with
    | zero =>
      obtain rfl := Option.some.inj hk
      rfl
    | succ k =>
      rw [List.take_succ_cons, List.flatten_cons, List.flatten_cons, List.length_append, hc.length,
        List.drop_length_add_append, ih hk]
      rfl

/-! ## what the template tells -/

theorem beginsIn_spec (h : Fills avoid cells text) (hb : beginsIn avoid delim cells = some b) :
    delim <+: text ↔ b = true := by
  induction delim generalizing cells text b with
  | nil =>
    rw [beginsIn] at hb
    obtain rfl := Option.some.inj hb
    simp
  | cons x delim ih =>
    cases h with
    | nil =>
      rw [beginsIn] at hb
      obtain rfl := Option.some.inj hb
      simp
    | @cons c a cells text hc hrest =>
      rw [List.cons_prefix_cons]
      cases c with
      | some y =>
        have hc : a = y := hc
        rw [beginsIn] at hb
        split at hb
        · rename_i hxy
          rw [← ih hrest hb, hc]
          simp [hxy]
        · rename_i hxy
          obtain rfl := Option.some.inj hb
          simp [hc, hxy]
      | none =>
        have hc : a ∉ avoid := hc
        rw [beginsIn] at hb
        split at hb
        · rename_i hx
          obtain rfl := Option.some.inj hb
          have hne : x ≠ a := fun heq => hc (heq ▸ hx)
          simp [hne]
        · split at hb
          · rename_i hfalse
            obtain rfl := Option.some.inj hb
            simp [ih hrest hfalse]
          · cases hb

/-- **what is found in the template** is found in every text of it -/
theorem findSub_of_findIn {r : Option Nat} (h : Fills avoid cells text)
    (hr : findIn avoid delim cells = some r) : findSub delim text = r := by
  induction h generalizing r with
  | nil =>
    rw [findIn] at hr
    exact Option.some.inj hr
  | @cons c a cells text hc hrest ih =>
    rw [findIn] at hr
    have hfills : Fills avoid (c :: cells) (a :: text) := .cons hc hrest
    cases hbegins : beginsIn avoid delim (c :: cells) with
    | none =>
      rw [hbegins] at hr
      cases hr
    | some b =>
      have hspec := beginsIn_spec hfills hbegins
      rw [hbegins] at hr
      cases b with
      | true =>
        rw [findSub_cons_pos (hspec.2 rfl)]
        exact Option.some.inj hr
      | false =>
        obtain ⟨r', hr', rfl⟩ := Option.map_eq_some_iff.1 hr
        rw [findSub_cons_neg fun hp => absurd (hspec.1 hp) Bool.false_ne_true, ih hr']

end

end CSem
