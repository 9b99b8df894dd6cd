import Mathlib.Tactic.TypeStar

/-!
# Results of computations that may fail

What a chain of steps returns is returned by its last step, on what the steps before it returned.
-/

namespace Except

variable {ε ε' α α' β β' γ δ : Type*} {x : Except ε α}

theorem bind_eq_ok_iff {f : α → Except ε β} {b : β} :
    x.bind f = .ok b ↔ ∃ a, x = .ok a ∧ f a = .ok b := by
  cases x with
  | error e => simp [Except.bind]
  | ok a => simp [Except.bind]

theorem mapError_eq_ok_iff {f : ε → ε'} {a : α} : x.mapError f = .ok a ↔ x = .ok a := by
  cases x with
  | error e => constructor <;> intro h <;> cases h
  | ok a' =>
      constructor
      · intro h
        cases h
        rfl
      · intro h
        cases h
        rfl

/-- Two results whose values agree under maps are the same failure, or two values that agree. -/
theorem map_eq_map_iff {f : α → γ} {f' : α' → γ} {x' : Except ε α'} :
    x.map f = x'.map f' ↔
      (∃ e, x = .error e ∧ x' = .error e) ∨ ∃ a a', x = .ok a ∧ x' = .ok a' ∧ f a = f' a' := by
  cases x <;> cases x' <;> simp [Except.map, eq_comm]

/-- Two chains of steps that agree in every step agree in what they return. -/
theorem map_bind_eq {f : α → γ} {f' : α' → γ} {k : β → δ} {k' : β' → δ} {x' : Except ε α'}
    {g : α → Except ε β} {g' : α' → Except ε β'} (h : x.map f = x'.map f')
    (hstep : ∀ a a', x = .ok a → x' = .ok a' → f a = f' a' → (g a).map k = (g' a').map k') :
    (x.bind g).map k = (x'.bind g').map k' := by
  obtain ⟨e, rfl, rfl⟩ | ⟨a, a', rfl, rfl, hvalue⟩ := map_eq_map_iff.1 h
  · rfl
  · exact hstep a a' rfl rfl hvalue

/-- Two chains of steps that begin alike agree when they go on alike from what is returned. -/
theorem bind_congr_of_ok {f g : α → Except ε β} (h : ∀ a, x = .ok a → f a = g a) :
    x.bind f = x.bind g := by
  cases x with
  | error e => rfl
  | ok a => exact h a rfl

/-! ## Errors that are not reported -/

/-- No error with the property is reported. -/
def Avoids (P : ε → Prop) (x : Except ε α) : Prop := ∀ e, x = .error e → ¬P e

theorem avoids_ok {P : ε → Prop} (a : α) : Avoids P (.ok a) := by
  intro e h
  cases h

theorem avoids_error {P : ε → Prop} {e : ε} (he : ¬P e) : (.error e : Except ε α).Avoids P := by
  intro e' h
  cases h
  exact he

/-- What no step reports is not reported by the chain. -/
theorem Avoids.bind {P : ε → Prop} {f : α → Except ε β} (h : x.Avoids P)
    (hnext : ∀ a, x = .ok a → (f a).Avoids P) : (x.bind f).Avoids P := by
  cases x with
  | error e => exact avoids_error (h e rfl)
  | ok a => exact hnext a rfl

theorem Avoids.mapError {Q : ε' → Prop} {f : ε → ε'} (h : x.Avoids fun e => Q (f e)) :
    (x.mapError f).Avoids Q := by
  cases x with
  | error e => exact avoids_error (h e rfl)
  | ok a => exact avoids_ok a

/-! ## Folds -/

/-- What every step of a fold keeps holds of its result. -/
theorem of_foldlM {P : β → Prop} {step : β → α → Except ε β} {l : List α} {b b' : β}
    (hstep : ∀ b, ∀ a ∈ l, ∀ b', P b → step b a = .ok b' → P b') (hb : P b)
    (h : l.foldlM step b = .ok b') : P b' := by
  induction l generalizing b with
  | nil =>
      cases h
      exact hb
  | cons a l ih =>
      rw [List.foldlM_cons] at h
      obtain ⟨next, hnext, h⟩ := bind_eq_ok_iff.1 h
      exact ih (fun b a ha => hstep b a (List.mem_cons_of_mem _ ha))
        (hstep b a List.mem_cons_self next hb hnext) h

/-- Folds agree whose steps agree wherever what every step keeps holds. -/
theorem foldlM_congr {P : β → Prop} {step step' : β → α → Except ε β} {l : List α} {b : β}
    (hstep : ∀ b, ∀ a ∈ l, P b → step b a = step' b a)
    (hkeep : ∀ b, ∀ a ∈ l, ∀ b', P b → step' b a = .ok b' → P b') (hb : P b) :
    l.foldlM step b = l.foldlM step' b := by
  induction l generalizing b with
  | nil => rfl
  | cons a l ih =>
      rw [List.foldlM_cons, List.foldlM_cons, hstep b a List.mem_cons_self hb]
      apply bind_congr_of_ok
      intro next hnext
      exact ih (fun b a ha => hstep b a (List.mem_cons_of_mem _ ha))
        (fun b a ha => hkeep b a (List.mem_cons_of_mem _ ha))
        (hkeep b a List.mem_cons_self next hb hnext)

end Except
