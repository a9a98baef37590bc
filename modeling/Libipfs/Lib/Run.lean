import Libipfs.Lib.Exec

/-!
# Runs of a machine whose steps may fault

`runOps step ops s` performs the operations of a list one after the other.

* `HoldsAlong step P ops s`   no operation of the list faults and every state on the way, the
                              first and the last included, satisfies `P`;
* `Guarded step G ops s`      every operation is performed in a state where `G` allows it;
* `HoldsReached step P ops s` every state that the run gets to satisfies `P`;
* `holdsAlong_of_step`, `holdsReached_of_step`   a guard that preserves an invariant gives it along
                              the whole run;
* `holdsAlong_iff_guarded`    so does it for a weaker law that every forbidden step breaks;
* `holdsAlong_iff_of_step`    a guard that is exact for one step is exact for the whole run.
-/

namespace CSem

section
variable {α : Type} {σ : Type} (step : α → σ → Exec σ)

def runOps : List α → σ → Exec σ
  | [], s => .ok s
  | a :: as, s => step a s >>= runOps as

@[simp] theorem runOps_nil (s : σ) : runOps step [] s = .ok s := rfl
@[simp] theorem runOps_cons (a : α) (as : List α) (s : σ) :
    runOps step (a :: as) s = step a s >>= runOps step as := rfl

theorem runOps_append (as bs : List α) (s : σ) :
    runOps step (as ++ bs) s = runOps step as s >>= runOps step bs := by
  induction as generalizing s with
  | nil => rfl
  | cons a as ih =>
    rw [List.cons_append, runOps_cons, runOps_cons, bind_assoc]
    exact bind_congr fun s' => ih s'

/-- the run is safe and `P` holds in every state it passes through -/
def HoldsAlong (P : σ → Prop) (ops : List α) (s : σ) : Prop :=
  ∀ pre suf, ops = pre ++ suf → ∃ s', runOps step pre s = .ok s' ∧ P s'

/-- `P` holds in every state that the run gets to; it may fault on the way -/
def HoldsReached (P : σ → Prop) (ops : List α) (s : σ) : Prop :=
  ∀ pre suf s', ops = pre ++ suf → runOps step pre s = .ok s' → P s'

/-- every operation of the run is allowed by `G` in the state it is performed in -/
def Guarded (G : α → σ → Prop) : List α → σ → Prop
  | [], _ => True
  | a :: as, s => G a s ∧ ∀ s', step a s = .ok s' → Guarded G as s'

instance decidableGuarded {G : α → σ → Prop} [∀ a s, Decidable (G a s)] :
    ∀ (ops : List α) (s : σ), Decidable (Guarded step G ops s)
  | [], _ => isTrue trivial
  | a :: as, s =>
    match h : step a s with
    | .error e => decidable_of_iff (G a s) ⟨fun hG => ⟨hG, fun s' hs => by cases h.symm.trans hs⟩,
        And.left⟩
    | .ok s' =>
      have : Decidable (Guarded step G as s') := decidableGuarded as s'
      decidable_of_iff (G a s ∧ Guarded step G as s')
        ⟨fun hG => ⟨hG.1, fun t ht => by cases h.symm.trans ht; exact hG.2⟩,
          fun hG => ⟨hG.1, hG.2 s' h⟩⟩

variable {step}

theorem holdsAlong_nil {P : σ → Prop} {s : σ} : HoldsAlong step P [] s ↔ P s := by
  constructor
  · intro h
    obtain ⟨s', hs, hP⟩ := h [] [] rfl
    cases hs
    exact hP
  · intro h pre suf e
    obtain ⟨rfl, rfl⟩ := List.append_eq_nil_iff.1 e.symm
    exact ⟨s, rfl, h⟩

theorem holdsAlong_cons {P : σ → Prop} {a : α} {as : List α} {s : σ} :
    HoldsAlong step P (a :: as) s ↔
      P s ∧ ∃ s', step a s = .ok s' ∧ HoldsAlong step P as s' := by
  constructor
  · intro h
    obtain ⟨s0, hs0, hP⟩ := h [] (a :: as) rfl
    cases hs0
    obtain ⟨s1, hs1, -⟩ := h [a] as rfl
    obtain ⟨s', hs', -⟩ := bind_eq_ok.1 hs1
    refine ⟨hP, s', hs', fun pre suf e => ?_⟩
    obtain ⟨s2, hs2, hP2⟩ := h (a :: pre) suf (by rw [e]; rfl)
    rw [runOps_cons, hs', ok_bind] at hs2
    exact ⟨s2, hs2, hP2⟩
  · rintro ⟨hP, s', hs', h⟩ pre suf e
    cases pre with
    | nil => exact ⟨s, rfl, hP⟩
    | cons b pre =>
      obtain ⟨rfl, e'⟩ := List.cons.inj e
      obtain ⟨s2, hs2, hP2⟩ := h pre suf e'
      exact ⟨s2, by rw [runOps_cons, hs', ok_bind, hs2], hP2⟩

theorem HoldsAlong.last {P : σ → Prop} {ops : List α} {s : σ} (h : HoldsAlong step P ops s) :
    ∃ s', runOps step ops s = .ok s' ∧ P s' :=
  h ops [] (List.append_nil ops).symm

theorem HoldsAlong.mono {P Q : σ → Prop} (hPQ : ∀ s, P s → Q s) {ops : List α} {s : σ}
    (h : HoldsAlong step P ops s) : HoldsAlong step Q ops s := by
  intro pre suf e
  obtain ⟨s', hs', hP⟩ := h pre suf e
  exact ⟨s', hs', hPQ s' hP⟩

/-- what every step keeps holds along with whatever else does -/
theorem HoldsAlong.and_of_step {J P : σ → Prop}
    (hstep : ∀ a s s', J s → step a s = .ok s' → J s') {ops : List α} {s : σ} (hJ : J s)
    (h : HoldsAlong step P ops s) : HoldsAlong step (fun s => J s ∧ P s) ops s := by
  induction ops generalizing s with
  | nil => exact holdsAlong_nil.2 ⟨hJ, holdsAlong_nil.1 h⟩
  | cons a as ih =>
    obtain ⟨hP, s', hs', h'⟩ := holdsAlong_cons.1 h
    exact holdsAlong_cons.2 ⟨⟨hJ, hP⟩, s', hs', ih (hstep a s s' hJ hs') h'⟩

/-- **the invariant rule**: what each allowed step keeps, the whole run keeps -/
theorem holdsAlong_of_step {I : σ → Prop} {G : α → σ → Prop}
    (hstep : ∀ a s, I s → G a s → ∃ s', step a s = .ok s' ∧ I s')
    {ops : List α} {s : σ} (hI : I s) (hG : Guarded step G ops s) :
    HoldsAlong step I ops s := by
  induction ops generalizing s with
  | nil => exact holdsAlong_nil.2 hI
  | cons a as ih =>
    obtain ⟨s', hs', hI'⟩ := hstep a s hI hG.1
    exact holdsAlong_cons.2 ⟨hI, s', hs', ih hI' (hG.2 s' hs')⟩

/-- a run that is gone through -/
theorem exists_of_toOption_map {β : Type} {x : Exec σ} {f : σ → β} {b : β}
    (h : x.toOption.map f = some b) : ∃ a, x = .ok a ∧ f a = b := by
  cases x with
  | error e => cases h
  | ok a => exact ⟨a, rfl, Option.some.inj h⟩

/-- the same for runs that may fault -/
theorem holdsReached_of_step {I : σ → Prop} {G : α → σ → Prop}
    (hstep : ∀ a s s', I s → G a s → step a s = .ok s' → I s')
    {ops : List α} {s : σ} (hI : I s) (hG : Guarded step G ops s) :
    HoldsReached step I ops s := by
  intro pre suf s' he hrun
  induction pre generalizing ops s with
  | nil =>
    cases hrun
    exact hI
  | cons a pre ih =>
    subst he
    obtain ⟨t, ht, hrun⟩ := bind_eq_ok.1 hrun
    exact ih (hstep a s t hI hG.1 ht) (hG.2 t ht) rfl hrun

/-- when a step that the guard forbids breaks the law, the guard is exact for the run -/
theorem holdsAlong_iff_guarded {I P : σ → Prop} {G : α → σ → Prop} (hIP : ∀ s, I s → P s)
    (hkeep : ∀ a s, I s → G a s → ∃ s', step a s = .ok s' ∧ I s')
    (hbreak : ∀ a s s', I s → ¬ G a s → step a s = .ok s' → ¬ P s') {ops : List α} {s : σ}
    (hI : I s) : HoldsAlong step P ops s ↔ Guarded step G ops s := by
  constructor
  · intro h
    induction ops generalizing s with
    | nil => trivial
    | cons a as ih =>
      obtain ⟨-, s', hs', h'⟩ := holdsAlong_cons.1 h
      have hG : G a s := by
        by_contra hG
        obtain ⟨s₁, hs₁, hP⟩ := h' [] as rfl
        cases hs₁
        exact hbreak a s s' hI hG hs' hP
      obtain ⟨s₁, hs₁, hI₁⟩ := hkeep a s hI hG
      refine ⟨hG, fun t ht => ?_⟩
      obtain rfl : s₁ = t := Except.ok.inj (hs₁.symm.trans ht)
      obtain rfl : s' = s₁ := Except.ok.inj (hs'.symm.trans hs₁)
      exact ih hI₁ h'
  · intro h
    exact HoldsAlong.mono hIP (holdsAlong_of_step hkeep hI h)

/-- a guard that is exact for one step is exact for the run -/
theorem holdsAlong_iff_of_step {I : σ → Prop} {G : α → σ → Prop}
    (hstep : ∀ a s, I s → (G a s ↔ ∃ s', step a s = .ok s' ∧ I s'))
    {ops : List α} {s : σ} (hI : I s) :
    HoldsAlong step I ops s ↔ Guarded step G ops s := by
  constructor
  · intro h
    induction ops generalizing s with
    | nil => trivial
    | cons a as ih =>
      obtain ⟨-, s', hs', h'⟩ := holdsAlong_cons.1 h
      obtain ⟨s1, hs1, hI1⟩ := h' [] as rfl
      cases hs1
      refine ⟨(hstep a s hI).2 ⟨s', hs', hI1⟩, fun t ht => ?_⟩
      obtain rfl : s' = t := Except.ok.inj (hs'.symm.trans ht)
      exact ih hI1 h'
  · exact holdsAlong_of_step (fun a s hs hg => (hstep a s hs).1 hg) hI

end

end CSem
