import Libipfs.Lib.Exec
import Mathlib.Data.List.Basic

/-!
# Asking one after the other

Some of the items of a list are asked, in the order of the list, and nobody is asked any more when
one has answered.  An answer may fault.

* `askInTurn wants ask items`   the places of those who were asked, and the answer;
* `InTurn wants answers items k a`   it is the turn of `a` at the place `k`: nobody in front of it
                         answers;
* `exists_inTurn`        whoever is to be asked is asked, or somebody in front of it is;
* `InTurn.unique`        only one of those whose turn comes answers;
* `safe_askInTurn`       nothing faults iff nobody does whose turn comes;
* `askedInTurn`          who was asked, and what the answer is.
-/

set_option linter.unusedSectionVars false
set_option linter.unusedVariables false

namespace CSem

section
variable {α β : Type} (wants : α → Prop) [DecidablePred wants]

/-- `ask k a` is what comes of asking `a` at the place `k` -/
def askInTurn : List α → (Nat → α → Exec (Option β)) → Exec (List Nat × Option β)
  | [], _ => .ok ([], none)
  | a :: items, ask =>
    if wants a then do
      match ← ask 0 a with
      | some answer => .ok ([0], some answer)
      | none => do
        let (asked, answer) ← askInTurn items fun k => ask (k + 1)
        .ok (0 :: asked.map (· + 1), answer)
    else do
      let (asked, answer) ← askInTurn items fun k => ask (k + 1)
      .ok (asked.map (· + 1), answer)

/-- `a` is to be asked, and nobody in front of it answers -/
structure InTurn (answers : Nat → α → Prop) (items : List α) (k : Nat) (a : α) : Prop where
  item : items[k]? = some a
  wanted : wants a
  before : ∀ j < k, ∀ b, items[j]? = some b → wants b → ¬ answers j b

end

section
variable {α β : Type} {wants : α → Prop} {answers answers' : Nat → α → Prop} {items : List α}
  {k : Nat} {a b : α}

theorem inTurn_zero : InTurn wants answers (a :: items) 0 b ↔ b = a ∧ wants a := by
  constructor
  · intro h
    obtain rfl : a = b := Option.some.inj h.item
    exact ⟨rfl, h.wanted⟩
  · rintro ⟨rfl, hwants⟩
    exact ⟨rfl, hwants, fun j hj => absurd hj (Nat.not_lt_zero j)⟩

theorem inTurn_succ : InTurn wants answers (a :: items) (k + 1) b ↔
    (wants a → ¬ answers 0 a) ∧ InTurn wants (fun j => answers (j + 1)) items k b := by
  constructor
  · intro h
    refine ⟨h.before 0 (Nat.succ_pos k) a rfl, h.item, h.wanted, fun j hj c hc => ?_⟩
    exact h.before (j + 1) (Nat.succ_lt_succ hj) c hc
  · rintro ⟨hfirst, h⟩
    refine ⟨h.item, h.wanted, fun j hj c hc => ?_⟩
    cases j with
    | zero =>
      obtain rfl : a = c := Option.some.inj hc
      exact hfirst
    | succ j => exact h.before j (Nat.lt_of_succ_lt_succ hj) c hc

/-- it only matters who answers of those who are to be asked -/
theorem inTurn_congr
    (h : ∀ j b, items[j]? = some b → wants b → (answers j b ↔ answers' j b)) :
    InTurn wants answers items k a ↔ InTurn wants answers' items k a := by
  have hbefore : ∀ {p q : Nat → α → Prop},
      (∀ j b, items[j]? = some b → wants b → (p j b ↔ q j b)) →
      InTurn wants p items k a → InTurn wants q items k a := by
    intro p q hpq hp
    exact ⟨hp.item, hp.wanted, fun j hj b hb hwants hq =>
      hp.before j hj b hb hwants ((hpq j b hb hwants).2 hq)⟩
  exact ⟨hbefore h, hbefore fun j b hb hwants => (h j b hb hwants).symm⟩

/-- **the first of them** has its turn -/
theorem exists_inTurn (hitem : items[k]? = some a) (hwants : wants a) :
    ∃ j b, InTurn wants answers items j b ∧ (answers k a → answers j b) := by
  induction k using Nat.strong_induction_on generalizing a with
  | _ k ih =>
    by_cases hbefore : ∀ j < k, ∀ b, items[j]? = some b → wants b → ¬ answers j b
    · exact ⟨k, a, ⟨hitem, hwants, hbefore⟩, id⟩
    · push Not at hbefore
      obtain ⟨j, hj, b, hb, hwants', hanswers⟩ := hbefore
      obtain ⟨i, c, hturn, hanswers'⟩ := ih j hj hb hwants'
      exact ⟨i, c, hturn, fun _ => hanswers' hanswers⟩

/-- **whoever answers when its turn comes** is the only one -/
theorem InTurn.unique {k' : Nat} {a' : α} (h : InTurn wants answers items k a)
    (h' : InTurn wants answers items k' a') (hanswers : answers k a) (hanswers' : answers k' a') :
    k = k' ∧ a = a' := by
  obtain hlt | rfl | hlt := Nat.lt_trichotomy k k'
  · exact absurd hanswers (h'.before k hlt a h.item h.wanted)
  · exact ⟨rfl, Option.some.inj (h.item.symm.trans h'.item)⟩
  · exact absurd hanswers' (h.before k' hlt a' h'.item h'.wanted)

end

/-! ## what comes of it -/

section
variable {α β : Type} {wants : α → Prop} [DecidablePred wants] {items : List α}
  {ask : Nat → α → Exec (Option β)} {asked : List Nat} {answer : Option β}

/-- `a` at the place `k` answers -/
def Answered (ask : Nat → α → Exec (Option β)) (k : Nat) (a : α) : Prop :=
  ∃ answer, ask k a = .ok (some answer)

variable {a : α} {found : β}

/-- the place of the first, when it is to be asked -/
def firstAsked (wants : α → Prop) [DecidablePred wants] (a : α) : List Nat :=
  if wants a then [0] else []

theorem mem_firstAsked {k : Nat} : k ∈ firstAsked wants a ↔ k = 0 ∧ wants a := by
  unfold firstAsked
  by_cases h : wants a
  · rw [if_pos h, List.mem_singleton]
    exact ⟨fun hk => ⟨hk, h⟩, And.left⟩
  · rw [if_neg h]
    exact ⟨fun hk => absurd hk List.not_mem_nil, fun hk => absurd hk.2 h⟩

theorem askInTurn_answered (h : wants a) (hask : ask 0 a = .ok (some found)) :
    askInTurn wants (a :: items) ask = .ok ([0], some found) := by
  rw [askInTurn, if_pos h, hask, ok_bind]

theorem askInTurn_fault {e : Fault} (h : wants a) (hask : ask 0 a = .error e) :
    askInTurn wants (a :: items) ask = .error e := by
  rw [askInTurn, if_pos h, hask, error_bind]

/-- the first is not to be asked, or does not answer -/
theorem askInTurn_next (h : wants a → ask 0 a = .ok none) :
    askInTurn wants (a :: items) ask =
      (askInTurn wants items fun k => ask (k + 1)) >>= fun rest =>
        .ok (firstAsked wants a ++ rest.1.map (· + 1), rest.2) := by
  unfold firstAsked
  by_cases hwants : wants a
  · rw [askInTurn, if_pos hwants, h hwants, ok_bind, if_pos hwants]
    rfl
  · rw [askInTurn, if_neg hwants, if_neg hwants]
    rfl

theorem not_answered (hask : ask 0 a = .ok none) : ¬ Answered ask 0 a := by
  rintro ⟨found, h⟩
  cases hask.symm.trans h

/-- the turns of the others come when the first does not answer -/
theorem turn_next {k : Nat} {b : α} (h : wants a → ask 0 a = .ok none) :
    InTurn wants (Answered ask) (a :: items) (k + 1) b ↔
      InTurn wants (Answered fun k => ask (k + 1)) items k b :=
  inTurn_succ.trans ⟨And.right, fun hturn => ⟨fun hwants => not_answered (h hwants), hturn⟩⟩

/-- **nothing faults** iff nobody does whose turn comes -/
theorem safe_askInTurn : Safe (askInTurn wants items ask) ↔
    ∀ k a, InTurn wants (Answered ask) items k a → Safe (ask k a) := by
  induction items generalizing ask with
  | nil => exact ⟨fun _ k a h => (nomatch h.item), fun _ => ⟨_, rfl⟩⟩
  | cons a items ih =>
    have hnext : (wants a → ask 0 a = .ok none) →
        (Safe (askInTurn wants (a :: items) ask) ↔
          ∀ k b, InTurn wants (Answered ask) (a :: items) k b → Safe (ask k b)) := by
      intro h
      have hrest := @ih fun k => ask (k + 1)
      rw [askInTurn_next h, safe_bind]
      constructor
      · rintro ⟨rest, hdone, -⟩ k b hturn
        cases k with
        | zero =>
          obtain ⟨rfl, hwants⟩ := inTurn_zero.1 hturn
          exact ⟨none, h hwants⟩
        | succ k => exact hrest.1 ⟨rest, hdone⟩ k b ((turn_next h).1 hturn)
      · intro hall
        obtain ⟨rest, hdone⟩ := hrest.2 fun k b hturn => hall (k + 1) b ((turn_next h).2 hturn)
        exact ⟨rest, hdone, safe_ok _⟩
    by_cases hwants : wants a
    · cases hask : ask 0 a with
      | error e =>
        rw [askInTurn_fault hwants hask]
        refine ⟨fun h => absurd h (not_safe_error e), fun h => ?_⟩
        have hfirst := h 0 a (inTurn_zero.2 ⟨rfl, hwants⟩)
        rw [hask] at hfirst
        exact absurd hfirst (not_safe_error e)
      | ok answer =>
        cases answer with
        | none => exact hnext fun _ => hask
        | some found =>
          rw [askInTurn_answered hwants hask]
          refine ⟨fun _ k b hturn => ?_, fun _ => safe_ok _⟩
          cases k with
          | zero =>
            obtain ⟨rfl, -⟩ := inTurn_zero.1 hturn
            exact ⟨_, hask⟩
          | succ k => exact absurd ⟨found, hask⟩ ((inTurn_succ.1 hturn).1 hwants)
    · exact hnext fun h => absurd h hwants

/-- who was asked, and what the answer is -/
structure AskedInTurn (wants : α → Prop) (ask : Nat → α → Exec (Option β)) (items : List α)
    (asked : List Nat) (answer : Option β) : Prop where
  ordered : asked.Pairwise (· < ·)
  asked : ∀ k, k ∈ asked ↔ ∃ a, InTurn wants (Answered ask) items k a
  answer : ∀ found, answer = some found ↔
    ∃ k a, InTurn wants (Answered ask) items k a ∧ ask k a = .ok (some found)

theorem askedInTurn_nil : AskedInTurn wants ask [] [] none where
  ordered := List.Pairwise.nil
  asked := fun k => ⟨fun h => absurd h List.not_mem_nil, fun ⟨a, h⟩ => (nomatch h.item)⟩
  answer := fun found => ⟨(nomatch ·), fun ⟨k, a, h, _⟩ => (nomatch h.item)⟩

theorem askedInTurn_answered (hwants : wants a) (hask : ask 0 a = .ok (some found)) :
    AskedInTurn wants ask (a :: items) [0] (some found) where
  ordered := List.pairwise_singleton _ 0
  asked := by
    intro k
    cases k with
    | zero => exact ⟨fun _ => ⟨a, inTurn_zero.2 ⟨rfl, hwants⟩⟩, fun _ => List.mem_singleton.2 rfl⟩
    | succ k =>
      refine ⟨fun hk => absurd (List.mem_singleton.1 hk) (Nat.succ_ne_zero k), ?_⟩
      rintro ⟨b, hturn⟩
      exact absurd ⟨found, hask⟩ ((inTurn_succ.1 hturn).1 hwants)
  answer := by
    have hturn : InTurn wants (Answered ask) (a :: items) 0 a := inTurn_zero.2 ⟨rfl, hwants⟩
    intro found'
    constructor
    · intro h
      exact ⟨0, a, hturn, h ▸ hask⟩
    · rintro ⟨k, b, hturn', hask'⟩
      obtain ⟨rfl, rfl⟩ := hturn.unique hturn' ⟨found, hask⟩ ⟨found', hask'⟩
      exact Except.ok.inj (hask.symm.trans hask')

theorem AskedInTurn.next (h : wants a → ask 0 a = .ok none)
    (hrest : AskedInTurn wants (fun k => ask (k + 1)) items asked answer) :
    AskedInTurn wants ask (a :: items) (firstAsked wants a ++ asked.map (· + 1)) answer where
  ordered := by
    have hsingle : (firstAsked wants a).Pairwise (· < ·) := by
      unfold firstAsked
      split
      · exact List.pairwise_singleton _ 0
      · exact List.Pairwise.nil
    refine List.pairwise_append.2
      ⟨hsingle, hrest.ordered.map _ fun j k hjk => Nat.succ_lt_succ hjk, fun j hj k hk => ?_⟩
    obtain ⟨i, -, rfl⟩ := List.mem_map.1 hk
    rw [(mem_firstAsked.1 hj).1]
    exact Nat.succ_pos i
  asked := by
    intro k
    rw [List.mem_append, mem_firstAsked]
    cases k with
    | zero =>
      constructor
      · rintro (⟨-, hwants⟩ | hk)
        · exact ⟨a, inTurn_zero.2 ⟨rfl, hwants⟩⟩
        · obtain ⟨j, -, hj⟩ := List.mem_map.1 hk
          exact absurd hj (Nat.succ_ne_zero j)
      · rintro ⟨b, hturn⟩
        exact .inl ⟨rfl, (inTurn_zero.1 hturn).2⟩
    | succ k =>
      have hmem : k + 1 ∈ asked.map (· + 1) ↔ k ∈ asked :=
        List.mem_map_of_injective Nat.succ_injective
      rw [hmem, hrest.asked k]
      constructor
      · rintro (⟨hk, -⟩ | ⟨b, hturn⟩)
        · exact absurd hk (Nat.succ_ne_zero k)
        · exact ⟨b, (turn_next h).2 hturn⟩
      · rintro ⟨b, hturn⟩
        exact .inr ⟨b, (turn_next h).1 hturn⟩
  answer := by
    intro found
    rw [hrest.answer found]
    constructor
    · rintro ⟨k, b, hturn, hask⟩
      exact ⟨k + 1, b, (turn_next h).2 hturn, hask⟩
    · rintro ⟨k, b, hturn, hask⟩
      cases k with
      | zero =>
        obtain ⟨rfl, hwants⟩ := inTurn_zero.1 hturn
        cases (h hwants).symm.trans hask
      | succ k => exact ⟨k, b, (turn_next h).1 hturn, hask⟩

/-- **who was asked**: all those whose turn comes, in their order; and **the answer** is that of
one of them -/
theorem askedInTurn (h : askInTurn wants items ask = .ok (asked, answer)) :
    AskedInTurn wants ask items asked answer := by
  induction items generalizing ask asked with
  | nil =>
    cases h
    exact askedInTurn_nil
  | cons a items ih =>
    have hnext : (wants a → ask 0 a = .ok none) →
        AskedInTurn wants ask (a :: items) asked answer := by
      intro hsilent
      rw [askInTurn_next hsilent] at h
      obtain ⟨⟨rest, answer'⟩, hdone, h⟩ := bind_eq_ok.1 h
      cases h
      exact (ih hdone).next hsilent
    by_cases hwants : wants a
    · cases hask : ask 0 a with
      | error e =>
        rw [askInTurn_fault hwants hask] at h
        cases h
      | ok answer' =>
        cases answer' with
        | none => exact hnext fun _ => hask
        | some found =>
          rw [askInTurn_answered hwants hask] at h
          cases h
          exact askedInTurn_answered hwants hask
    · exact hnext fun hw => absurd hw hwants

end

end CSem
