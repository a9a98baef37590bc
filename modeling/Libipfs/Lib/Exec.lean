import Mathlib.Data.Int.ModEq
import Mathlib.Tactic.Ring
import Mathlib.Tactic.Linarith

/-!
# Executions that may fault

A run of C code either yields a value or leaves the language: it reads past the end of an
object, follows a null or freed pointer, fails an `assert`, or never returns.

* `Exec α`      a computation that yields an `α` or a `Fault`;
* `Safe x`      the computation yields a value;
* `bind_eq_ok`  the shape of a successful sequence, the lemma every decoder is taken apart with;
* `toInt32`, `toUInt64`   the conversions of C between integers of different widths.
-/

namespace CSem

/-- the ways a run leaves the language -/
inductive Fault where
  | outOfBounds
  | overflow
  | assertion
  | shift
  | null
  | uninitialized
  | freed
  | diverges
  deriving DecidableEq, Repr

abbrev Exec (α : Type) : Type := Except Fault α

-- a list is gone through, also where its elements are of a finite type
instance decidableForallMem {α : Type} {p : α → Prop} [DecidablePred p] (l : List α) :
    Decidable (∀ a ∈ l, p a) := List.decidableBAll p l

/-! ## sequencing -/

section
variable {α : Type} {β : Type} {x : Exec α} {f : α → Exec β}

@[simp] theorem ok_bind (a : α) : ((.ok a : Exec α) >>= f) = f a := rfl
@[simp] theorem error_bind (e : Fault) : ((.error e : Exec α) >>= f) = .error e := rfl
@[simp] theorem pure_eq_ok (a : α) : (pure a : Exec α) = .ok a := rfl
@[simp] theorem throw_eq_error (e : Fault) : (throw e : Exec α) = .error e := rfl

theorem ok_ne_error {a : α} {e : Fault} : (.ok a : Exec α) ≠ .error e := by
  intro h
  cases h

/-- whatever the errors are -/
theorem except_bind_eq_ok {ε : Type} {x : Except ε α} {f : α → Except ε β} {b : β} :
    (x >>= f) = .ok b ↔ ∃ a, x = .ok a ∧ f a = .ok b := by
  cases x with
  | error e => exact ⟨fun h => (nomatch h), fun ⟨_, h, _⟩ => (nomatch h)⟩
  | ok a => exact ⟨fun h => ⟨a, rfl, h⟩, fun ⟨_, h, hf⟩ => Except.ok.inj h ▸ hf⟩

theorem except_map_eq_ok {ε : Type} {x : Except ε α} {g : α → β} {b : β} (h : x.map g = .ok b) :
    ∃ a, x = .ok a ∧ g a = b := by
  cases x with
  | error e => cases h
  | ok a => exact ⟨a, rfl, Except.ok.inj h⟩

theorem bind_eq_ok {b : β} : (x >>= f) = .ok b ↔ ∃ a, x = .ok a ∧ f a = .ok b :=
  except_bind_eq_ok

theorem bind_eq_error {e : Fault} :
    (x >>= f) = .error e ↔ x = .error e ∨ ∃ a, x = .ok a ∧ f a = .error e := by
  cases x with
  | error e' => simp
  | ok a => simp

/-- a fault that neither part ends with -/
theorem bind_ne_error {e : Fault} (hx : x ≠ .error e) (hf : ∀ a, x = .ok a → f a ≠ .error e) :
    (x >>= f) ≠ .error e := by
  intro h
  obtain h | ⟨a, ha, h⟩ := bind_eq_error.1 h
  · exact hx h
  · exact hf a ha h

/-- the computation yields a value -/
def Safe {α : Type} (x : Exec α) : Prop := ∃ a, x = .ok a

@[simp] theorem safe_ok (a : α) : Safe (.ok a : Exec α) := ⟨a, rfl⟩
@[simp] theorem not_safe_error (e : Fault) : ¬ Safe (.error e : Exec α) := by
  rintro ⟨a, ha⟩; cases ha

theorem safe_bind : Safe (x >>= f) ↔ ∃ a, x = .ok a ∧ Safe (f a) := by
  cases x with
  | error e => simp
  | ok a => simp

theorem Safe.of_bind (h : Safe (x >>= f)) : Safe x := by
  obtain ⟨a, ha, -⟩ := safe_bind.1 h
  exact ⟨a, ha⟩

end

instance {α : Type} (x : Exec α) : Decidable (Safe x) :=
  match x with
  | .ok a => isTrue ⟨a, rfl⟩
  | .error e => isFalse (not_safe_error e)

/-! ## checks and pointers -/

/-- go on when `p` holds, fault with `e` otherwise -/
def require (e : Fault) (p : Prop) [Decidable p] : Exec Unit :=
  if p then .ok () else .error e

@[simp] theorem require_eq_ok {e : Fault} {p : Prop} [Decidable p] {u : Unit} :
    require e p = .ok u ↔ p := by
  unfold require
  split <;> simp_all

theorem require_pos {e : Fault} {p : Prop} [Decidable p] (h : p) : require e p = .ok () := by
  simp [h]

theorem require_neg {e : Fault} {p : Prop} [Decidable p] (h : ¬ p) :
    require e p = .error e := by
  simp [require, h]

theorem require_eq_error {e e' : Fault} {p : Prop} [Decidable p] :
    require e p = .error e' ↔ ¬ p ∧ e = e' := by
  unfold require
  split <;> simp_all

theorem require_ne_error {e e' : Fault} {p : Prop} [Decidable p] (h : e ≠ e') :
    require e p ≠ .error e' := fun he => h (require_eq_error.1 he).2

theorem require_bind_eq_ok {β : Type} {e : Fault} {p : Prop} [Decidable p]
    {f : Unit → Exec β} {b : β} : (require e p >>= f) = .ok b ↔ p ∧ f () = .ok b := by
  rw [bind_eq_ok]
  constructor
  · rintro ⟨u, hp, hf⟩
    exact ⟨require_eq_ok.1 hp, hf⟩
  · rintro ⟨hp, hf⟩
    exact ⟨(), require_pos hp, hf⟩

/-- follow a pointer that may be null -/
def deref {α : Type} : Option α → Exec α
  | none => .error .null
  | some a => .ok a

@[simp] theorem deref_none {α : Type} : deref (none : Option α) = .error .null := rfl
@[simp] theorem deref_some {α : Type} (a : α) : deref (some a) = .ok a := rfl

theorem deref_eq_ok {α : Type} {p : Option α} {a : α} : deref p = .ok a ↔ p = some a := by
  cases p <;> simp

/-- what is returned as null is handed on as null -/
theorem bind_option_map {α β : Type} {x : Exec (Option α)} {f : Option α → Exec (Option β)}
    {g : α → β} (hnone : f none = .ok none) (hsome : ∀ a, f (some a) = .ok (some (g a))) :
    x >>= f = x >>= fun r => .ok (r.map g) := by
  apply bind_congr
  intro r
  cases r with
  | none => exact hnone
  | some a => exact hsome a

/-! ## conversions between widths -/

/-- conversion to a 32-bit `int` -/
@[irreducible] def toInt32 (z : Int) : Int := Int.bmod z 4294967296

/-- conversion to `size_t` or `unsigned long long` -/
@[irreducible] def toUInt64 (z : Int) : Nat := (z % 18446744073709551616).toNat

/-- the largest object `malloc` hands out -/
def ptrdiffMax : Nat := 2 ^ 63 - 1

theorem ptrdiffMax_lt : ptrdiffMax < 2 ^ 64 := by norm_num [ptrdiffMax]

/-- what an `int` can count is an object -/
theorem le_ptrdiffMax_of_lt {n : Nat} (h : n < 2 ^ 31) : n ≤ ptrdiffMax := by
  unfold ptrdiffMax
  omega

theorem toInt32_of_lt {z : Int} (h0 : -2 ^ 31 ≤ z) (h : z < 2 ^ 31) : toInt32 z = z := by
  unfold toInt32 Int.bmod
  norm_num at *
  omega

theorem toInt32_bounds (z : Int) : -2 ^ 31 ≤ toInt32 z ∧ toInt32 z < 2 ^ 31 := by
  unfold toInt32 Int.bmod
  norm_num
  omega

theorem toInt32_natCast_of_lt {n : Nat} (h : n < 2 ^ 31) : toInt32 n = n := by
  apply toInt32_of_lt
  · have : (0 : Int) ≤ n := Int.natCast_nonneg n
    omega
  · exact_mod_cast h

/-- a size that does not fit comes out as something else than itself -/
theorem toInt32_le_natCast (n : Nat) : toInt32 n ≤ n := by
  unfold toInt32 Int.bmod
  norm_num
  omega

/-- the sizes from 2^31 to 2^32 are negative -/
theorem toInt32_natCast_neg {n : Nat} (h : 2 ^ 31 ≤ n) (h' : n < 2 ^ 32) : toInt32 n < 0 := by
  unfold toInt32 Int.bmod
  norm_num at *
  omega

theorem toUInt64_natCast_of_lt {n : Nat} (h : n < 2 ^ 64) : toUInt64 n = n := by
  unfold toUInt64
  norm_num at *
  omega

/-- a size that wraps around once -/
theorem toUInt64_natCast_of_ge {n : Nat} (h : 2 ^ 64 ≤ n) (h' : n < 2 ^ 65) :
    toUInt64 n + 2 ^ 64 = n := by
  unfold toUInt64
  norm_num at *
  omega

theorem toUInt64_lt (z : Int) : toUInt64 z < 2 ^ 64 := by
  unfold toUInt64
  norm_num
  omega

end CSem
