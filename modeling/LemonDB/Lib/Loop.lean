import Mathlib.Data.Nat.Notation

/-!
# LemonDB.Lib.Loop

`while (true)` loops whose termination is part of the definition.

A `MeasuredLoop` is a loop body together with a measure that every further
round strictly decreases.  `MeasuredLoop.run` is then a total function: the
measure bounds the number of rounds, so no fuel argument shows in a caller,
and it reduces structurally, so `by decide` can execute it.

* `run_eq` — the unfolding equation of the loop;
* `run_induction` — the proof rule: a relation between the state a round
  starts from and the value the loop returns, proved backwards along the
  rounds.

For a loop that need not end, `Returns body n s r` says that it does: after `n`
further rounds, with the value `r`.
-/

/-- A loop with this body goes round `n` times and then returns. -/
inductive Returns {σ : Type u} {ρ : Type v} (body : σ → σ ⊕ ρ) : ℕ → σ → ρ → Prop
  | leave {s : σ} {r : ρ} (h : body s = .inr r) : Returns body 0 s r
  | round {n : ℕ} {s s' : σ} {r : ρ} (h : body s = .inl s') (rest : Returns body n s' r) :
      Returns body (n + 1) s r

/-- What every round decreases bounds the number of rounds. -/
theorem Returns.rounds_le {σ : Type u} {ρ : Type v} {body : σ → σ ⊕ ρ} {m : σ → ℕ} {n : ℕ} {s : σ}
    {r : ρ} (hm : ∀ {s s' : σ}, body s = .inl s' → m s' < m s) (h : Returns body n s r) :
    n ≤ m s := by
  induction h with
  | leave _ => exact Nat.zero_le _
  | round hb _ ih => exact Nat.lt_of_le_of_lt ih (hm hb)

/-- A loop: the body either goes round again (`inl`) with a state of smaller
measure, or leaves the loop with a value (`inr`). -/
structure MeasuredLoop (σ : Type u) (ρ : Type v) where
  body : σ → σ ⊕ ρ
  measure : σ → ℕ
  decreases : ∀ {s s' : σ}, body s = .inl s' → measure s' < measure s

namespace MeasuredLoop

variable {σ : Type u} {ρ : Type v} (L : MeasuredLoop σ ρ)

/-- Run the loop from a state whose measure is below `n`. -/
def runFor : (n : ℕ) → (s : σ) → L.measure s < n → ρ
  | 0, _, h => (Nat.not_lt_zero _ h).elim
  | n + 1, s, h => match hb : L.body s with
    | .inl s' => runFor n s' (Nat.lt_of_lt_of_le (L.decreases hb) (Nat.le_of_lt_succ h))
    | .inr r => r

/-- Run the loop until it returns. -/
def run (s : σ) : ρ := L.runFor (L.measure s + 1) s (Nat.lt_succ_self _)

/-- The bound on the number of rounds does not matter. -/
theorem runFor_eq_runFor : (n m : ℕ) → (s : σ) → (hn : L.measure s < n) → (hm : L.measure s < m) →
    L.runFor n s hn = L.runFor m s hm
  | 0, _, _, hn, _ => (Nat.not_lt_zero _ hn).elim
  | _, 0, _, _, hm => (Nat.not_lt_zero _ hm).elim
  | n + 1, m + 1, s, _, _ => by
      rw [runFor, runFor]
      split
      · exact runFor_eq_runFor n m _ _ _
      · rfl

/-- The unfolding equation: one round, then the rest of the loop. -/
theorem run_eq (s : σ) : L.run s = match L.body s with
    | .inl s' => L.run s'
    | .inr r => r := by
  rw [run, runFor]
  split
  · next s' hb =>
      simp only [hb]
      exact L.runFor_eq_runFor _ _ _ _ _
  · next r hb => simp only [hb]

theorem run_of_continue {s s' : σ} (h : L.body s = .inl s') : L.run s = L.run s' := by
  rw [run_eq, h]

theorem run_of_return {s : σ} {r : ρ} (h : L.body s = .inr r) : L.run s = r := by
  rw [run_eq, h]

/-- The proof rule of the loop, by induction on the rounds still to come. -/
theorem run_induction {P : σ → ρ → Prop}
    (ret : ∀ s r, L.body s = .inr r → P s r)
    (round : ∀ s s' r, L.body s = .inl s' → P s' r → P s r) (s : σ) : P s (L.run s) := by
  induction hn : L.measure s using Nat.strongRecOn generalizing s with
  | ind n ih =>
      cases hb : L.body s with
      | inr r =>
          rw [L.run_of_return hb]
          exact ret s r hb
      | inl s' =>
          rw [L.run_of_continue hb]
          exact round s s' _ hb (ih _ (hn ▸ L.decreases hb) s' rfl)

/-- A measured loop returns after finitely many rounds. -/
theorem returns_run (s : σ) : ∃ n, Returns L.body n s (L.run s) := by
  refine L.run_induction (P := fun s r => ∃ n, Returns L.body n s r) ?_ ?_ s
  · exact fun s r hb => ⟨0, .leave hb⟩
  · intro s s' r hb ⟨n, hn⟩
    exact ⟨n + 1, .round hb hn⟩

/-- The measure of the state that a loop starts from bounds its rounds. -/
theorem returns_run_le (s : σ) : ∃ n ≤ L.measure s, Returns L.body n s (L.run s) := by
  obtain ⟨n, hn⟩ := L.returns_run s
  exact ⟨n, hn.rounds_le L.decreases, hn⟩

end MeasuredLoop
