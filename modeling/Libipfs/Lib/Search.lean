import Libipfs.Lib.Exec
import Mathlib.Data.Fintype.Card
import Mathlib.Data.Set.Finite.Lattice
import Mathlib.Logic.Relation

/-!
# Searching a graph that is read as it is searched

The vertices a vertex leads to are looked up, which may fault; a vertex that is not there leads
nowhere.  The search is a recursion without a record of where it has been, so it ends for the
reason that there are no cycles, and it may be told which vertices not to enter.

* `Leads look x y`        `x` is there and leads to `y`;
* `Below look root x`     `x` is reached from the root;
* `FiniteDag look root`   what is below the root can be looked up, is finite, and has no cycle;
* `FiniteDag.induction`   what holds of a vertex when it holds of all it leads to, holds of the root;
* `search`                the recursion, with fuel for its depth;
* `Settles f b`           with fuel enough the result is `b`, and stays so;
* `search_settles`        the search finds what is reached through the vertices it enters.
-/

namespace CSem
open Relation

/-! ## the graph -/

section
variable {α : Type} {look : α → Exec (Option (List α))} {root x y : α}

def Leads (look : α → Exec (Option (List α))) (x y : α) : Prop :=
  ∃ ys, look x = .ok (some ys) ∧ y ∈ ys

def Present (look : α → Exec (Option (List α))) (x : α) : Prop := ∃ ys, look x = .ok (some ys)

def Below (look : α → Exec (Option (List α))) (root x : α) : Prop :=
  ReflTransGen (Leads look) root x

structure FiniteDag (look : α → Exec (Option (List α))) (root : α) : Prop where
  safe : ∀ x, Below look root x → Safe (look x)
  finite : {x | Below look root x}.Finite
  acyclic : ∀ x, Below look root x → ¬ TransGen (Leads look) x x

theorem present_of_leads (h : Leads look x y) : Present look x := by
  obtain ⟨ys, hlook, -⟩ := h
  exact ⟨ys, hlook⟩

theorem present_of_transGen (h : TransGen (Leads look) x y) : Present look x := by
  obtain ⟨z, hz, -⟩ := TransGen.head'_iff.1 h
  exact present_of_leads hz

/-- induction from the vertices that lead nowhere up to the root -/
@[elab_as_elim]
theorem FiniteDag.induction {motive : α → Prop} (h : FiniteDag look root)
    (step : ∀ x, Below look root x → (∀ y, Leads look x y → motive y) → motive x) :
    motive root := by
  let above (a b : {x | Below look root x}) : Prop := TransGen (Leads look) b.1 a.1
  have hfinite : Finite {x | Below look root x} := h.finite
  have htrans : IsTrans {x | Below look root x} above := ⟨fun a b c hab hbc => hbc.trans hab⟩
  have hirrefl : Std.Irrefl above := ⟨fun a => h.acyclic a.1 a.2⟩
  have hwf : WellFounded above := Finite.wellFounded_of_trans_of_irrefl above
  have hall : ∀ a : {x | Below look root x}, motive a.1 := by
    intro a
    induction a using hwf.induction with
    | _ a ih =>
      refine step a.1 a.2 fun y hy => ?_
      exact ih ⟨y, ReflTransGen.tail a.2 hy⟩ (TransGen.single hy)
  exact hall ⟨root, ReflTransGen.refl⟩

/-- numbers that go down along the way leave no cycle -/
theorem not_transGen_self {r : α → α → Prop} (rank : α → Nat)
    (h : ∀ x y, r x y → rank y < rank x) (x : α) : ¬ TransGen r x x := by
  have hlt : ∀ y, TransGen r x y → rank y < rank x := by
    intro y hy
    induction hy with
    | single hr => exact h _ _ hr
    | tail _ hr ih => exact (h _ _ hr).trans ih
  intro hx
  exact Nat.lt_irrefl _ (hlt x hx)

end

/-! ## the search -/

/-- the results for more and more fuel come to rest -/
def Settles {β : Type} (f : Nat → Exec β) (b : β) : Prop :=
  ∃ depth, ∀ fuel, depth ≤ fuel → f fuel = .ok b

theorem Settles.unique {β : Type} {f : Nat → Exec β} {b b' : β} (h : Settles f b)
    (h' : Settles f b') : b = b' := by
  obtain ⟨depth, hb⟩ := h
  obtain ⟨depth', hb'⟩ := h'
  have hboth := (hb (max depth depth') (by omega)).symm.trans (hb' (max depth depth') (by omega))
  exact Except.ok.inj hboth

/-- finitely many of them come to rest together -/
theorem exists_settled {α β : Type} {f : Nat → α → Exec β} {b : α → β} {xs : List α}
    (h : ∀ x ∈ xs, Settles (fun fuel => f fuel x) (b x)) :
    ∃ depth, ∀ fuel, depth ≤ fuel → ∀ x ∈ xs, f fuel x = .ok (b x) := by
  induction xs with
  | nil => exact ⟨0, fun fuel _ x hx => absurd hx List.not_mem_nil⟩
  | cons x xs ih =>
    obtain ⟨depth, hrest⟩ := ih fun y hy => h y (List.mem_cons_of_mem x hy)
    obtain ⟨depth', hx⟩ := h x List.mem_cons_self
    refine ⟨max depth depth', fun fuel hfuel y hy => ?_⟩
    rcases List.mem_cons.1 hy with rfl | hy
    · exact hx fuel (by omega)
    · exact hrest fuel (by omega) y hy

theorem anyM_eq_ok {α : Type} {p : α → Exec Bool} {b : α → Bool} {xs : List α}
    (h : ∀ x ∈ xs, p x = .ok (b x)) : xs.anyM p = .ok (xs.any b) := by
  induction xs with
  | nil => rfl
  | cons x xs ih =>
    rw [List.anyM_cons, h x List.mem_cons_self, ok_bind, List.any_cons]
    cases b x with
    | true => rfl
    | false => exact ih fun y hy => h y (List.mem_cons_of_mem x hy)

theorem anyM_map {α β : Type} (f : α → β) (p : β → Exec Bool) (xs : List α) :
    (xs.map f).anyM p = xs.anyM fun x => p (f x) := by
  induction xs with
  | nil => rfl
  | cons x xs ih => rw [List.map_cons, List.anyM_cons, List.anyM_cons, ih]

section
variable {α : Type} [DecidableEq α] (look : α → Exec (Option (List α))) (enter : α → Bool)
variable (target : α)

/-- is the target there, or do the vertices that are entered lead to it -/
def search : Nat → α → Exec Bool
  | 0, _ => .error .diverges
  | fuel + 1, x => do
    match ← look x with
    | none => .ok false
    | some ys =>
      if x = target then .ok true
      else ys.anyM fun y =>
        if y = target then .ok true else if enter y then search fuel y else .ok false

/-- a step to a vertex that is entered -/
def Enters (x y : α) : Prop := Leads look x y ∧ enter y = true

variable {look enter target} {root x : α}

theorem search_absent (h : look x = .ok none) :
    Settles (fun fuel => search look enter target fuel x) false := by
  refine ⟨1, fun fuel hfuel => ?_⟩
  obtain ⟨fuel, rfl⟩ : ∃ n, fuel = n + 1 := ⟨fuel - 1, by omega⟩
  show search look enter target (fuel + 1) x = _
  rw [search, h]
  rfl

/-- one step down, when the results below are known -/
theorem search_present {ys : List α} {found : α → Bool} (h : look x = .ok (some ys))
    (hfound : ∀ y ∈ ys, Settles (fun fuel => search look enter target fuel y) (found y)) :
    Settles (fun fuel => search look enter target fuel x)
      (decide (x = target) || ys.any fun y => decide (y = target) || (enter y && found y)) := by
  obtain ⟨depth, hall⟩ := exists_settled hfound
  refine ⟨depth + 1, fun fuel hfuel => ?_⟩
  obtain ⟨fuel, rfl⟩ : ∃ n, fuel = n + 1 := ⟨fuel - 1, by omega⟩
  show search look enter target (fuel + 1) x = _
  rw [search, h, ok_bind]
  simp only
  by_cases hx : x = target
  · rw [if_pos hx, decide_eq_true hx, Bool.true_or]
  · rw [if_neg hx, decide_eq_false hx, Bool.false_or]
    refine anyM_eq_ok fun y hy => ?_
    rw [hall fuel (by omega) y hy]
    by_cases hy : y = target
    · rw [if_pos hy, decide_eq_true hy, Bool.true_or]
    · rw [if_neg hy, decide_eq_false hy, Bool.false_or]
      cases enter y <;> rfl

/-- **the search** ends, and has found the target when the root is the target, or leads to it
through vertices that are entered -/
theorem search_settles (hdag : FiniteDag look root) (henter : enter target = true) :
    ∃ found, Settles (fun fuel => search look enter target fuel root) found ∧
      (found = true ↔
        (Present look root ∧ root = target) ∨ TransGen (Enters look enter) root target) := by
  refine hdag.induction fun x hx ih => ?_
  obtain ⟨r, hlook⟩ := hdag.safe x hx
  cases r with
  | none =>
    refine ⟨false, search_absent hlook, ?_⟩
    have habsent : ¬ Present look x := by
      intro ⟨ys, hys⟩
      rw [hlook] at hys
      cases hys
    have hleads : ¬ TransGen (Enters look enter) x target := fun h =>
      habsent (present_of_transGen (TransGen.mono (fun a b hab => hab.1) _ _ h))
    simp [habsent, hleads]
  | some ys =>
    have hleads (y : α) : Leads look x y ↔ y ∈ ys := by
      constructor
      · rintro ⟨zs, hzs, hy⟩
        rw [hlook] at hzs
        cases hzs
        exact hy
      · intro hy
        exact ⟨ys, hlook, hy⟩
    choose! found hsettles hfound using ih
    refine ⟨_, search_present hlook fun y hy => hsettles y ((hleads y).2 hy), ?_⟩
    have hpresent : Present look x := ⟨ys, hlook⟩
    rw [TransGen.head'_iff, Bool.or_eq_true, decide_eq_true_iff, List.any_eq_true]
    refine or_congr ⟨fun h => ⟨hpresent, h⟩, fun h => h.2⟩ (exists_congr fun y => ?_)
    rw [Bool.or_eq_true, Bool.and_eq_true, decide_eq_true_iff, reflTransGen_iff_eq_or_transGen]
    unfold Enters
    rw [hleads]
    constructor
    · rintro ⟨hy, rfl | ⟨hin, hf⟩⟩
      · exact ⟨⟨hy, henter⟩, .inl rfl⟩
      · rcases (hfound y ((hleads y).2 hy)).1 hf with ⟨-, rfl⟩ | htrans
        · exact ⟨⟨hy, hin⟩, .inl rfl⟩
        · exact ⟨⟨hy, hin⟩, .inr htrans⟩
    · rintro ⟨⟨hy, hin⟩, rfl | htrans⟩
      · exact ⟨hy, .inl rfl⟩
      · exact ⟨hy, .inr ⟨hin, (hfound y ((hleads y).2 hy)).2 (.inr htrans)⟩⟩

end

end CSem
