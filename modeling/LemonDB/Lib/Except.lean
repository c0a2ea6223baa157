import Mathlib.Data.Nat.Notation

/-!
# LemonDB.Lib.Except

Reasoning about `Except` programs that return a value: a bind and a monadic
fold are taken apart into the values they went through.
-/

namespace Except

/-- A bind that returns a value, taken apart. -/
theorem of_bind_eq_ok {ε : Type u} {α β : Type v} {x : Except ε α} {f : α → Except ε β} {b : β}
    (h : (x >>= f) = .ok b) : ∃ a, x = .ok a ∧ f a = .ok b := by
  cases x with
  | error e => contradiction
  | ok a => exact ⟨a, rfl, h⟩

/-- A bind that raises an exception: one of its two parts raises it. -/
theorem of_bind_eq_error {ε : Type u} {α β : Type v} {x : Except ε α} {f : α → Except ε β} {e : ε}
    (h : (x >>= f) = .error e) : x = .error e ∨ ∃ a, x = .ok a ∧ f a = .error e := by
  cases x with
  | error e' => exact .inl (congrArg _ (Except.error.inj h))
  | ok a => exact .inr ⟨a, rfl, h⟩

/-- What each step of a fold does, the whole fold does. -/
theorem foldlM_induction {ε : Type u} {α : Type w} {β : Type v} {f : β → α → Except ε β}
    {P : β → List α → β → Prop} (nil : ∀ b, P b [] b)
    (cons : ∀ b a as b₁ b', f b a = .ok b₁ → P b₁ as b' → P b (a :: as) b') :
    (as : List α) → (b b' : β) → as.foldlM f b = .ok b' → P b as b'
  | [], b, b', h => by
      rw [List.foldlM_nil, pure, Applicative.toPure] at h
      exact Except.ok.inj h ▸ nil b
  | a :: as, b, b', h => by
      rw [List.foldlM_cons] at h
      obtain ⟨b₁, h₁, h⟩ := of_bind_eq_ok h
      exact cons b a as b₁ b' h₁ (foldlM_induction nil cons as b₁ b' h)

/-- A fold returns a value, if each of its steps does. -/
theorem foldlM_ok {ε : Type u} {α : Type w} {β : Type v} {f : β → α → Except ε β} {I : β → Prop}
    {P : α → Prop} (step : ∀ b a, I b → P a → ∃ b', f b a = .ok b' ∧ I b') :
    (as : List α) → (b : β) → I b → (∀ a ∈ as, P a) → ∃ b', as.foldlM f b = .ok b' ∧ I b'
  | [], b, hb, _ => ⟨b, rfl, hb⟩
  | a :: as, b, hb, has => by
      obtain ⟨b₁, h₁, hb₁⟩ := step b a hb (has a List.mem_cons_self)
      obtain ⟨b', h', hb'⟩ := foldlM_ok step as b₁ hb₁ fun x hx => has x (List.mem_cons_of_mem _ hx)
      exact ⟨b', by rw [List.foldlM_cons, h₁]; exact h', hb'⟩

end Except
