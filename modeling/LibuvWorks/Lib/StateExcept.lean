import Mathlib.Tactic.Common

/-!
# Programs with a state that can fail

How a program of `EStateM` ends, from how its parts end: the rules to run it backwards from
its result, the errors it can fail with, and what holds of the state it leaves if it fails.
-/
namespace StateExcept

universe u

variable {ε σ α β : Type u} {x : EStateM ε σ α} {f : α → EStateM ε σ β} {s t : σ} {a : α}
  {b : β} {e : ε} {c : Prop} {y : EStateM ε σ α}

@[simp] theorem bind_eq_ok :
    (x >>= f) s = .ok b t ↔ ∃ a u, x s = .ok a u ∧ f a u = .ok b t := by
  change EStateM.bind x f s = _ ↔ _
  rw [EStateM.bind]
  cases x s <;> simp

@[simp] theorem bind_eq_error :
    (x >>= f) s = .error e t ↔
      x s = .error e t ∨ ∃ a u, x s = .ok a u ∧ f a u = .error e t := by
  change EStateM.bind x f s = _ ↔ _
  rw [EStateM.bind]
  cases x s <;> simp

@[simp] theorem pure_eq_ok {a' : α} :
    (pure a : EStateM ε σ α) s = .ok a' t ↔ a' = a ∧ t = s := by
  change EStateM.Result.ok a s = .ok a' t ↔ _
  simp [eq_comm]

@[simp] theorem pure_eq_error : ¬ (pure a : EStateM ε σ α) s = .error e t := by
  change ¬ EStateM.Result.ok a s = .error e t
  simp

@[simp] theorem throw_eq_ok : ¬ (throw e : EStateM ε σ α) s = .ok a t := by
  change ¬ EStateM.Result.error e s = .ok a t
  simp

@[simp] theorem throw_eq_error {e' : ε} :
    (throw e : EStateM ε σ α) s = .error e' t ↔ e' = e ∧ t = s := by
  change EStateM.Result.error e s = .error e' t ↔ _
  simp [eq_comm]

@[simp] theorem get_eq_ok {u : σ} : (get : EStateM ε σ σ) s = .ok u t ↔ u = s ∧ t = s := by
  change EStateM.Result.ok s s = .ok u t ↔ _
  simp [eq_comm]

@[simp] theorem get_eq_error : ¬ (get : EStateM ε σ σ) s = .error e t := by
  change ¬ EStateM.Result.ok s s = .error e t
  simp

variable {g : σ → σ}

@[simp] theorem modify_eq_ok {u : PUnit} :
    (modify g : EStateM ε σ PUnit) s = .ok u t ↔ t = g s := by
  change EStateM.Result.ok PUnit.unit (g s) = .ok u t ↔ _
  simp [eq_comm]

@[simp] theorem modify_eq_error :
    ¬ (modify g : EStateM ε σ PUnit) s = .error e t := by
  change ¬ EStateM.Result.ok PUnit.unit (g s) = .error e t
  simp

@[simp] theorem map_eq_ok {g : α → β} :
    (g <$> x) s = .ok b t ↔ ∃ a, x s = .ok a t ∧ b = g a := by
  change EStateM.map g x s = _ ↔ _
  rw [EStateM.map]
  cases x s <;> simp [eq_comm, and_comm]

@[simp] theorem map_eq_error {g : α → β} : (g <$> x) s = .error e t ↔ x s = .error e t := by
  change EStateM.map g x s = _ ↔ _
  rw [EStateM.map]
  cases x s <;> simp

@[simp] theorem branch_eq_iff [Decidable c] {r : EStateM.Result ε σ α} :
    (if c then x else y) s = r ↔ c ∧ x s = r ∨ ¬c ∧ y s = r := by
  by_cases hc : c <;> simp [hc]

/-! ### The errors -/

variable {E : ε → Prop}

/-- The program fails with an error of `E`. -/
def FailsWith (E : ε → Prop) (x : EStateM ε σ α) (s : σ) : Prop :=
  ∃ e t, E e ∧ x s = .error e t

@[simp] theorem failsWith_bind :
    FailsWith E (x >>= f) s ↔ FailsWith E x s ∨ ∃ a u, x s = .ok a u ∧ FailsWith E (f a) u := by
  constructor
  · rintro ⟨e, t, he, h⟩
    obtain h | ⟨a, u, hx, h⟩ := bind_eq_error.mp h
    · exact .inl ⟨e, t, he, h⟩
    · exact .inr ⟨a, u, hx, e, t, he, h⟩
  · rintro (⟨e, t, he, h⟩ | ⟨a, u, hx, e, t, he, h⟩)
    · exact ⟨e, t, he, bind_eq_error.mpr (.inl h)⟩
    · exact ⟨e, t, he, bind_eq_error.mpr (.inr ⟨a, u, hx, h⟩)⟩

@[simp] theorem failsWith_pure : ¬ FailsWith E (pure a : EStateM ε σ α) s := by
  simp [FailsWith]

@[simp] theorem failsWith_throw : FailsWith E (throw e : EStateM ε σ α) s ↔ E e := by
  simp [FailsWith]

@[simp] theorem failsWith_get : ¬ FailsWith E (get : EStateM ε σ σ) s := by
  simp [FailsWith]

@[simp] theorem failsWith_modify :
    ¬ FailsWith E (modify g : EStateM ε σ PUnit) s := by
  simp [FailsWith]

@[simp] theorem failsWith_map {g : α → β} : FailsWith E (g <$> x) s ↔ FailsWith E x s := by
  simp [FailsWith]

@[simp] theorem failsWith_branch [Decidable c] :
    FailsWith E (if c then x else y) s ↔ c ∧ FailsWith E x s ∨ ¬c ∧ FailsWith E y s := by
  by_cases hc : c <;> simp [hc]

/-! ### The state that a failure leaves -/

variable {P : σ → Prop}

/-- If the program fails, it leaves a state in `P`. -/
def FailsIn (P : σ → Prop) (x : EStateM ε σ α) (s : σ) : Prop := ∀ e t, x s = .error e t → P t

@[simp] theorem failsIn_bind :
    FailsIn P (x >>= f) s ↔ FailsIn P x s ∧ ∀ a u, x s = .ok a u → FailsIn P (f a) u := by
  constructor
  · intro h
    exact ⟨fun e t hx => h e t (bind_eq_error.mpr (.inl hx)), fun a u hx e t hf =>
      h e t (bind_eq_error.mpr (.inr ⟨a, u, hx, hf⟩))⟩
  · rintro ⟨hx, hf⟩ e t h
    obtain h | ⟨a, u, hxu, h⟩ := bind_eq_error.mp h
    · exact hx e t h
    · exact hf a u hxu e t h

@[simp] theorem failsIn_pure : FailsIn P (pure a : EStateM ε σ α) s := by
  simp [FailsIn]

@[simp] theorem failsIn_throw : FailsIn P (throw e : EStateM ε σ α) s ↔ P s := by
  simp [FailsIn]

@[simp] theorem failsIn_get : FailsIn P (get : EStateM ε σ σ) s := by
  simp [FailsIn]

@[simp] theorem failsIn_modify :
    FailsIn P (modify g : EStateM ε σ PUnit) s := by
  simp [FailsIn]

@[simp] theorem failsIn_map {g : α → β} : FailsIn P (g <$> x) s ↔ FailsIn P x s := by
  simp [FailsIn]

@[simp] theorem failsIn_branch [Decidable c] :
    FailsIn P (if c then x else y) s ↔ (c → FailsIn P x s) ∧ (¬c → FailsIn P y s) := by
  by_cases hc : c <;> simp [hc]

end StateExcept
