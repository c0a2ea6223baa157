import LemonDB.Lib.Loop
import Mathlib.Data.Finset.Card
import Mathlib.Logic.Hydra

/-!
# LemonDB.Lib.Worklist

Loops that work off a queue.  Each round takes an element from the front, and puts
what follows from it at the end; an element may also make the loop give up.

Such a loop ends if the elements of its queue are accessible: a round replaces an
element by smaller ones, which is a move of Mathlib's hydra game.  Conversely, a
queue that was worked off had accessible elements only.  On a finite graph these
are the elements that lead to no cycle.
-/

open Relation

/-! ## accessible elements of a finite graph -/

/-- An element that leads to no cycle, when finitely many elements lead anywhere. -/
theorem acc_of_acyclic {α : Type u} {R : α → α → Prop} (starts : Finset α) : (a : α) →
    (∀ b c, ReflTransGen R b a → R c b → b ∈ starts) →
    (∀ b, ReflTransGen R b a → ¬ TransGen R b b) → Acc R a := by
  classical
  induction hn : starts.card generalizing starts with
  | zero =>
      intro a hstarts _
      refine Acc.intro a fun c hc => ?_
      have hmem := hstarts a c .refl hc
      rw [Finset.card_eq_zero.mp hn] at hmem
      contradiction
  | succ n ih =>
      intro a hstarts hacyclic
      refine Acc.intro a fun c hc => ?_
      have hmem := hstarts a c .refl hc
      refine ih (starts.erase a) (by rw [Finset.card_erase_of_mem hmem, hn]; rfl) c ?_ ?_
      · intro b d hb hd
        refine Finset.mem_erase.mpr ⟨?_, hstarts b d (hb.tail hc) hd⟩
        rintro rfl
        exact hacyclic b .refl (TransGen.tail' hb hc)
      · exact fun b hb => hacyclic b (hb.tail hc)

/-- An accessible element leads to no cycle. -/
theorem Acc.acyclic {α : Type u} {R : α → α → Prop} {a b : α} (h : Acc R a)
    (hb : ReflTransGen R b a) : ¬ TransGen R b b := by
  have hself : ∀ {x : α}, Acc (TransGen R) x → ¬ TransGen R x x := by
    intro x hx
    induction hx with
    | intro x _ ih => exact fun hxx => ih x hxx hxx
  obtain rfl | hb := reflTransGen_iff_eq_or_transGen.mp hb
  · exact hself h.transGen
  · exact hself (h.inv_of_transGen hb).transGen

namespace Worklist

variable {α : Type u} {σ : Type v} {ρ : Type w}

/-- `b` is queued when `a` is worked off. -/
def Follows (succ : α → Option (List α)) (b a : α) : Prop := ∃ l, succ a = some l ∧ b ∈ l

/-- The body of a loop that works off a queue. -/
structure WorksOff (body : σ → σ ⊕ Option ρ) (queue : σ → List α) (succ : α → Option (List α))
    (inv : σ → Prop) : Prop where
  ends : ∀ {s}, inv s → queue s = [] → ∃ r, body s = .inr (some r)
  givesUp : ∀ {s a q}, inv s → queue s = a :: q → succ a = none → body s = .inr none
  goesOn : ∀ {s a q l}, inv s → queue s = a :: q → succ a = some l →
    ∃ s', body s = .inl s' ∧ inv s' ∧ queue s' = q ++ l

variable {body : σ → σ ⊕ Option ρ} {queue : σ → List α} {succ : α → Option (List α)}
  {inv : σ → Prop}

namespace WorksOff

variable (w : WorksOff body queue succ inv)

include w

/-- Accessible elements are worked off, or one of them makes the loop give up. -/
theorem returns_of_acc {s : σ} (hs : inv s) (hacc : ∀ a ∈ queue s, Acc (Follows succ) a) :
    ∃ n r, Returns body n s r := by
  let R : α → α → Prop := fun b a => Follows succ b a ∧ Acc (Follows succ) a
  have : Std.Irrefl R := ⟨fun a h => h.2.acyclic .refl (.single h.1)⟩
  have hgame : Acc (CutExpand R) (queue s : Multiset α) := acc_of_singleton fun a ha =>
    (Subrelation.accessible (fun h => h.1) (hacc a ha)).cutExpand
  generalize hm : (queue s : Multiset α) = m at hgame
  induction hgame generalizing s with
  | intro m _ ih =>
      subst hm
      cases hq : queue s with
      | nil =>
          obtain ⟨r, hr⟩ := w.ends hs hq
          exact ⟨0, some r, .leave hr⟩
      | cons a q =>
          obtain ⟨ha, hrest⟩ := List.forall_mem_cons.mp (hq ▸ hacc)
          cases hsucc : succ a with
          | none => exact ⟨0, none, .leave (w.givesUp hs hq hsucc)⟩
          | some l =>
              obtain ⟨s', hbody, hs', hq'⟩ := w.goesOn hs hq hsucc
              have hmove : CutExpand R (queue s') (queue s) := by
                refine ⟨l, a, fun b hb => ⟨⟨l, hsucc, hb⟩, ha⟩, ?_⟩
                rw [hq', hq, Multiset.coe_add, ← Multiset.coe_singleton, Multiset.coe_add,
                  Multiset.coe_eq_coe, List.cons_append]
                exact List.perm_append_singleton a (q ++ l)
              have hacc' : ∀ b ∈ queue s', Acc (Follows succ) b := by
                rw [hq', List.forall_mem_append]
                exact ⟨hrest, fun b hb => ha.inv ⟨l, hsucc, hb⟩⟩
              obtain ⟨n, r, hr⟩ := ih _ hmove hs' hacc' rfl
              exact ⟨n + 1, r, .round hbody hr⟩

/-- What one round does. -/
theorem cases {s : σ} (hs : inv s) : (queue s = [] ∧ ∃ r, body s = .inr (some r)) ∨
    ∃ a q, queue s = a :: q ∧ ((succ a = none ∧ body s = .inr none) ∨
      ∃ l s', succ a = some l ∧ body s = .inl s' ∧ inv s' ∧ queue s' = q ++ l) := by
  cases hq : queue s with
  | nil => exact .inl ⟨rfl, w.ends hs hq⟩
  | cons a q =>
      refine .inr ⟨a, q, rfl, ?_⟩
      cases hsucc : succ a with
      | none => exact .inl ⟨rfl, w.givesUp hs hq hsucc⟩
      | some l =>
          obtain ⟨s', hbody, hs', hq'⟩ := w.goesOn hs hq hsucc
          exact .inr ⟨l, s', rfl, hbody, hs', hq'⟩

/-- A queue that was worked off had accessible elements only. -/
theorem acc_of_returns {n : ℕ} {s : σ} {r : ρ} (hs : inv s) (h : Returns body n s (some r)) :
    ∀ a ∈ queue s, Acc (Follows succ) a := by
  generalize ho : some r = o at h
  induction h with
  | leave hbody =>
      subst ho
      obtain ⟨hnil, _⟩ | ⟨a, q, hq, ⟨_, hnone⟩ | ⟨l, s', _, hgo, _⟩⟩ := w.cases hs
      · rw [hnil]
        exact fun a ha => by contradiction
      · rw [hbody] at hnone
        cases Sum.inr.inj hnone
      · rw [hbody] at hgo
        contradiction
  | round hbody _ ih =>
      obtain ⟨_, r, hr⟩ | ⟨a, q, hq, ⟨_, hnone⟩ | ⟨l, s', hsucc, hgo, hs', hq'⟩⟩ := w.cases hs
      · rw [hbody] at hr
        contradiction
      · rw [hbody] at hnone
        contradiction
      · rw [hbody] at hgo
        obtain rfl := Sum.inl.inj hgo
        have ih := ih hs' ho
        rw [hq', List.forall_mem_append] at ih
        rw [hq, List.forall_mem_cons]
        refine ⟨Acc.intro a fun b ⟨l', hl', hb⟩ => ?_, ih.1⟩
        obtain rfl := Option.some.inj (hsucc.symm.trans hl')
        exact ih.2 b hb

/-- A loop that gives up has met an element that makes it do so. -/
theorem exists_of_returns {n : ℕ} {s : σ} (hs : inv s) (h : Returns body n s none) :
    ∃ a ∈ queue s, ∃ b, ReflTransGen (Follows succ) b a ∧ succ b = none := by
  generalize ho : none = o at h
  induction h with
  | leave hbody =>
      subst ho
      obtain ⟨_, r, hr⟩ | ⟨a, q, hq, ⟨hsucc, _⟩ | ⟨l, s', _, hgo, _⟩⟩ := w.cases hs
      · rw [hbody] at hr
        cases Sum.inr.inj hr
      · exact ⟨a, hq ▸ List.mem_cons_self, a, .refl, hsucc⟩
      · rw [hbody] at hgo
        contradiction
  | round hbody _ ih =>
      obtain ⟨_, r, hr⟩ | ⟨a, q, hq, ⟨_, hnone⟩ | ⟨l, s', hsucc, hgo, hs', hq'⟩⟩ := w.cases hs
      · rw [hbody] at hr
        contradiction
      · rw [hbody] at hnone
        contradiction
      · rw [hbody] at hgo
        obtain rfl := Sum.inl.inj hgo
        obtain ⟨b, hb, c, hc, hnone⟩ := ih hs' ho
        rw [hq', List.mem_append] at hb
        obtain hb | hb := hb
        · exact ⟨b, hq ▸ List.mem_cons_of_mem a hb, c, hc, hnone⟩
        · exact ⟨a, hq ▸ List.mem_cons_self, c, hc.tail ⟨l, hsucc, hb⟩, hnone⟩

end WorksOff

end Worklist
