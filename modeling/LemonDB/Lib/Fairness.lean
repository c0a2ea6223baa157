import LemonDB.Lib.Transition
import Mathlib.Data.Nat.Init
import Mathlib.Data.Set.Defs

/-!
# LemonDB.Lib.Fairness

Infinite schedules, and what happens in the fair ones.

A schedule says which label is tried next, forever; a label that is not possible
changes nothing (`along`).  In a fair schedule some of the labels come again and
again.  The rule for these is `Progresses.eventually`: as long as the goal is not
reached, some of the fair labels helps, and every step lowers a rank or keeps who
helps, and brings the goal closer if it is the helper's.
-/

namespace Transition

variable {σ : Type u} {α : Type v} (T : Transition σ α)

/-- The states that a schedule goes through. -/
def along (schedule : Nat → α) (s : σ) : Nat → σ
  | 0 => s
  | n + 1 => (T.step (along schedule s n) (schedule n)).getD (along schedule s n)

/-- Each of the labels comes again and again. -/
def Fair (labels : Set α) (schedule : Nat → α) : Prop :=
  ∀ a ∈ labels, ∀ n, ∃ m, n ≤ m ∧ schedule m = a

/-- Taking turns is fair. -/
theorem fair_mod (k : Nat) : Fair {i | i < k} (· % k) := by
  intro i hi n
  have hi : i < k := hi
  refine ⟨k * n + i, ?_, by simp [Nat.mod_eq_of_lt hi]⟩
  exact Nat.le_add_right_of_le (Nat.le_mul_of_pos_left n (Nat.zero_lt_of_lt hi))

variable {T} {labels : Set α} {schedule : Nat → α} {s : σ}

theorem along_of_some {n : Nat} {t : σ} (h : T.step (T.along schedule s n) (schedule n) = some t) :
    T.along schedule s (n + 1) = t := by
  rw [along, h, Option.getD_some]

theorem along_of_none {n : Nat} (h : T.step (T.along schedule s n) (schedule n) = none) :
    T.along schedule s (n + 1) = T.along schedule s n := by
  rw [along, h, Option.getD_none]

/-- A schedule is a run. -/
theorem reachable_along (schedule : Nat → α) (s : σ) : (n : Nat) →
    T.Reachable s (T.along schedule s n)
  | 0 => .refl s
  | n + 1 => by
      have ih := reachable_along schedule s n
      cases h : T.step (T.along schedule s n) (schedule n) with
      | none => rwa [along_of_none h]
      | some t =>
          rw [along_of_some h]
          exact ih.tail trivial h

variable (T labels)

/-- How the goal is reached: from every state with the invariant, some label helps, and
goes on to help until the rank gets lower; each of its steps takes it closer. -/
structure Progresses (I goal : σ → Prop) (rank : σ → Nat) (helps : σ → α → Prop)
    (dist : σ → α → Nat) : Prop where
  helper : ∀ {s}, I s → ¬ goal s → ∃ a ∈ labels, helps s a
  enabled : ∀ {s a}, I s → ¬ goal s → helps s a → ∃ t, T.step s a = some t
  step : ∀ {s b t}, I s → ¬ goal s → T.step s b = some t → I t ∧ (rank t < rank s ∨
    rank t = rank s ∧ ∀ a, helps s a → helps t a ∧ dist t a ≤ dist s a ∧
      (b = a → dist t a < dist s a))

variable {T labels} {I goal : σ → Prop} {rank : σ → Nat} {helps : σ → α → Prop}
  {dist : σ → α → Nat}

namespace Progresses

/-- The rank gets lower, at the latest when the helper is close enough.  The induction
is on the distance of the helper, and on the time until it comes. -/
theorem lowers (h : Progresses T labels I goal rank helps dist) (hfair : Fair labels schedule)
    {a : α} (ha : a ∈ labels) : (d n : Nat) → I (T.along schedule s n) →
    helps (T.along schedule s n) a → dist (T.along schedule s n) a ≤ d →
    ∃ m, goal (T.along schedule s m) ∨
      I (T.along schedule s m) ∧ rank (T.along schedule s m) < rank (T.along schedule s n) := by
  intro d
  induction d using Nat.strong_induction_on with
  | h d ihd =>
  intro n
  obtain ⟨m, hm, hsched⟩ := hfair a ha n
  obtain ⟨k, rfl⟩ := Nat.exists_eq_add_of_le hm
  induction k generalizing n with
  | zero =>
      intro hI hhelps hd
      by_cases hgoal : goal (T.along schedule s n)
      · exact ⟨n, .inl hgoal⟩
      obtain ⟨t, hs⟩ := h.enabled hI hgoal hhelps
      obtain ⟨hI', hrank⟩ := h.step hI hgoal hs
      have hnext : T.along schedule s (n + 1) = t := along_of_some (hsched ▸ hs)
      obtain hlt | ⟨heq, hkeep⟩ := hrank
      · exact ⟨n + 1, .inr (hnext ▸ ⟨hI', hlt⟩)⟩
      · obtain ⟨hhelps', _, hlt⟩ := hkeep a hhelps
        have hrec := ihd _ (Nat.lt_of_lt_of_le (hlt rfl) hd) (n + 1)
        rw [hnext, heq] at hrec
        exact hrec hI' hhelps' (Nat.le_refl _)
  | succ k ihk =>
      intro hI hhelps hd
      have hrec := ihk (n + 1) (by omega) (by rw [← hsched]; congr 1; omega)
      cases hs : T.step (T.along schedule s n) (schedule n) with
      | none =>
          rw [along_of_none hs] at hrec
          exact hrec hI hhelps hd
      | some t =>
          by_cases hgoal : goal (T.along schedule s n)
          · exact ⟨n, .inl hgoal⟩
          obtain ⟨hI', hrank⟩ := h.step hI hgoal hs
          rw [along_of_some hs] at hrec
          obtain hlt | ⟨heq, hkeep⟩ := hrank
          · exact ⟨n + 1, .inr (along_of_some hs ▸ ⟨hI', hlt⟩)⟩
          · obtain ⟨hhelps', hle, _⟩ := hkeep a hhelps
            rw [heq] at hrec
            exact hrec hI' hhelps' (Nat.le_trans hle hd)

/-- **A fair schedule reaches the goal.** -/
theorem eventually (h : Progresses T labels I goal rank helps dist) (hfair : Fair labels schedule)
    (hs : I s) : ∃ n, goal (T.along schedule s n) := by
  suffices hrank : ∀ r n, I (T.along schedule s n) → rank (T.along schedule s n) = r →
      ∃ m, goal (T.along schedule s m) from hrank _ 0 hs rfl
  intro r
  induction r using Nat.strong_induction_on with
  | h r ih =>
  rintro n hI rfl
  by_cases hgoal : goal (T.along schedule s n)
  · exact ⟨n, hgoal⟩
  obtain ⟨a, ha, hhelps⟩ := h.helper hI hgoal
  obtain ⟨m, hm | ⟨hI', hlt⟩⟩ := h.lowers hfair ha _ n hI hhelps (Nat.le_refl _)
  · exact ⟨m, hm⟩
  · exact ih _ hlt m hI' rfl

end Progresses

end Transition
