import Mathlib.Data.Nat.Notation

/-!
# LemonDB.Lib.Transition

Systems that take labelled steps, and what holds along their runs.

A `Transition` is an executable step function: `step s a = none` when the
label `a` is not possible in `s`.  `Runs guard s t` says that some sequence
of steps leads from `s` to `t`, each taken from a state in which `guard`
holds for its label; `Reachable` is the unguarded case.  The rules for runs are
stated once here: an invariant of the steps is an invariant of the runs
(`Runs.invariant`), and a system whose steps are runs of another one has no
other runs (`Runs.map`, and `Runs.simulate` for related states).
-/

/-- A system whose steps are chosen by labels. -/
structure Transition (σ : Type u) (α : Type v) where
  step : σ → α → Option σ

namespace Transition

variable {σ : Type u} {α : Type v} (T : Transition σ α) (guard : σ → α → Prop)

/-- Runs all of whose steps are taken from states that satisfy the guard. -/
inductive Runs : σ → σ → Prop
  | refl (s : σ) : Runs s s
  | tail {s t u : σ} {a : α} : Runs s t → guard t a → T.step t a = some u → Runs s u

/-- Runs without a condition on their steps. -/
abbrev Reachable : σ → σ → Prop := T.Runs fun _ _ => True

variable {T guard}

/-- The invariant rule. -/
theorem Runs.invariant {I : σ → Prop} {s t : σ} (run : T.Runs guard s t) (start : I s)
    (step : ∀ t a u, I t → guard t a → T.step t a = some u → I u) : I t := by
  induction run with
  | refl => exact start
  | tail _ hg hs ih => exact step _ _ _ ih hg hs

/-- The invariant rule for an invariant that may use what already holds along
the run. -/
theorem Runs.invariant_of {I J : σ → Prop} {s t : σ} (run : T.Runs guard s t)
    (known : ∀ u, T.Runs guard s u → J u) (start : I s)
    (step : ∀ t a u, J t → J u → I t → guard t a → T.step t a = some u → I u) : I t := by
  induction run with
  | refl => exact start
  | tail hr hg hs ih => exact step _ _ _ (known _ hr) (known _ (hr.tail hg hs)) ih hg hs

/-- A weaker guard has more runs. -/
theorem Runs.mono {guard' : σ → α → Prop} {s t : σ} (run : T.Runs guard s t)
    (h : ∀ t a, guard t a → guard' t a) : T.Runs guard' s t := by
  induction run with
  | refl => exact .refl _
  | tail _ hg hs ih => exact ih.tail (h _ _ hg) hs

theorem Runs.reachable {s t : σ} (run : T.Runs guard s t) : T.Reachable s t :=
  run.mono fun _ _ _ => trivial

theorem Runs.trans {s t u : σ} (h₁ : T.Runs guard s t) (h₂ : T.Runs guard t u) :
    T.Runs guard s u := by
  induction h₂ with
  | refl => exact h₁
  | tail _ hg hs ih => exact ih.tail hg hs

/-- Runs of a system each of whose steps is a run of another one. -/
theorem Runs.map {τ : Type w} {β : Type x} {U : Transition τ β} {f : σ → τ} {s t : σ}
    (run : T.Runs guard s t) (step : ∀ t a u, T.step t a = some u → U.Reachable (f t) (f u)) :
    U.Reachable (f s) (f t) := by
  induction run with
  | refl => exact .refl _
  | tail _ _ hs ih => exact ih.trans (step _ _ _ hs)

/-- Forward simulation: each step is matched by a run of the other system. -/
theorem Runs.simulate {τ : Type w} {β : Type x} {U : Transition τ β} {R : σ → τ → Prop} {s t : σ}
    {x : τ} (run : T.Runs guard s t) (start : R s x)
    (step : ∀ t a u y, U.Reachable x y → R t y → T.step t a = some u →
      ∃ z, U.Reachable y z ∧ R u z) : ∃ y, U.Reachable x y ∧ R t y := by
  induction run with
  | refl => exact ⟨x, .refl x, start⟩
  | tail _ _ hs ih =>
      obtain ⟨y, hy, hr⟩ := ih
      obtain ⟨z, hz, hr⟩ := step _ _ _ y hy hr hs
      exact ⟨z, hy.trans hz, hr⟩

variable (T)

/-- Execute a list of labels, checking a decidable guard before each step. -/
def execute (check : σ → α → Bool) : σ → List α → Option σ
  | s, [] => some s
  | s, a :: as => if check s a then (T.step s a).bind fun t => execute check t as else none

variable {T}

/-- An execution is a run. -/
theorem runs_of_execute {check : σ → α → Bool} (hc : ∀ s a, check s a = true → guard s a) :
    (as : List α) → (s : σ) → {t : σ} → T.execute check s as = some t → T.Runs guard s t
  | [], s, t, h => by
      rw [execute, Option.some.injEq] at h
      exact h ▸ .refl s
  | a :: as, s, t, h => by
      rw [execute] at h
      split at h
      · next hg =>
          obtain ⟨u, hs, hu⟩ := Option.bind_eq_some_iff.mp h
          exact (Runs.refl s |>.tail (hc s a hg) hs).trans (runs_of_execute hc as u hu)
      · contradiction

/-- If no step from a state with an invariant increases a measure, and the steps with
certain labels decrease it, then the measure bounds how many of them an execution
has. -/
theorem countP_execute_le {check : σ → α → Bool} {I : σ → Prop} {m : σ → Nat}
    {p : α → Bool} (step : ∀ s a t, I s → T.step s a = some t →
      I t ∧ (if p a then 1 else 0) + m t ≤ m s) :
    (as : List α) → {s t : σ} → I s → T.execute check s as = some t →
      as.countP p + m t ≤ m s
  | [], s, t, _, h => by
      obtain rfl : s = t := Option.some.inj h
      simp
  | a :: as, s, t, hI, h => by
      rw [execute] at h
      split at h
      · obtain ⟨u, hs, hu⟩ := Option.bind_eq_some_iff.mp h
        obtain ⟨hI, hle⟩ := step s a u hI hs
        have hrest := countP_execute_le step as hI hu
        rw [List.countP_cons]
        omega
      · contradiction

/-- An execution that ends in a state with a decidable property reaches such a
state. -/
theorem exists_of_execute (guard : σ → α → Prop) [∀ s a, Decidable (guard s a)] (p : σ → Prop)
    [DecidablePred p] (s : σ) (as : List α)
    (h : (T.execute (fun s a => decide (guard s a)) s as).any (fun t => decide (p t)) = true) :
    ∃ t, T.Runs guard s t ∧ p t := by
  cases he : T.execute (fun s a => decide (guard s a)) s as with
  | none => rw [he] at h; contradiction
  | some t =>
      rw [he] at h
      exact ⟨t, runs_of_execute (fun _ _ hg => of_decide_eq_true hg) as s he,
        of_decide_eq_true h⟩

end Transition
