import Mathlib.Data.Multiset.Filter
import Mathlib.Order.Basic

/-!
# LemonDB.Lib.Lane

A lane is a queue whose entries are served one at a time.  The head of the
queue is either taken straight away (`flying`) or set aside (`parked`) until it
is woken and goes back to the front; both happen only when the lane is idle,
that is when no other entry is parked or flying.  `log` has the entries taken
so far.

`Take.ordered` and `Back.ordered`: as long as that is respected, at most one
entry is away from the queue at a time, and the entries are taken in increasing
order.
-/

/-- A queue, the entries that are away from it, and the log of what was handed out. -/
structure Lane (α : Type u) where
  queue : List α
  parked : Multiset α
  flying : Multiset α
  log : List α

namespace Lane

variable {α : Type u}

/-- No entry is away from the queue. -/
def Idle (l : Lane α) : Prop := l.parked = 0 ∧ l.flying = 0

instance [DecidableEq α] (l : Lane α) : Decidable l.Idle :=
  inferInstanceAs (Decidable (_ ∧ _))

/-- The head of an idle lane is taken. -/
inductive Take : Lane α → Lane α → Prop
  | park {l : Lane α} {a rest} : l.Idle → l.queue = a :: rest →
      Take l { l with queue := rest, parked := a ::ₘ l.parked }
  | hand {l : Lane α} {a rest} : l.Idle → l.queue = a :: rest →
      Take l { l with queue := rest, flying := a ::ₘ l.flying, log := l.log ++ [a] }

/-- An entry that is away comes back to the front, gets lost or is done. -/
inductive Back : Lane α → Lane α → Prop
  | wake {l : Lane α} {a parked} : l.parked = a ::ₘ parked →
      Back l { l with queue := a :: l.queue, parked }
  | lose {l : Lane α} {a parked} : l.parked = a ::ₘ parked → Back l { l with parked }
  | land {l : Lane α} {a flying} : l.flying = a ::ₘ flying → Back l { l with flying }

/-- From an idle lane nothing can come back. -/
theorem Back.not_idle {l l' : Lane α} (h : Back l l') : ¬ l.Idle := by
  intro hidle
  cases h with
  | wake hp => exact Multiset.cons_ne_zero (hp.symm.trans hidle.1)
  | lose hp => exact Multiset.cons_ne_zero (hp.symm.trans hidle.1)
  | land hf => exact Multiset.cons_ne_zero (hf.symm.trans hidle.2)

/-- What comes back was taken before. -/
theorem Back.log {l l' : Lane α} (h : Back l l') : l'.log = l.log := by
  cases h <;> rfl

/-- What is parked was parked before. -/
theorem Back.parked_subset {l l' : Lane α} (h : Back l l') : ∀ a ∈ l'.parked, a ∈ l.parked := by
  cases h with
  | wake hp => exact fun a ha => hp ▸ Multiset.mem_cons_of_mem ha
  | lose hp => exact fun a ha => hp ▸ Multiset.mem_cons_of_mem ha
  | land _ => exact fun _ ha => ha

/-- Nothing starts to fly. -/
theorem Back.flying_eq_zero {l l' : Lane α} (h : Back l l') (hzero : l.flying = 0) :
    l'.flying = 0 := by
  cases h with
  | wake _ => exact hzero
  | lose _ => exact hzero
  | land hf => exact absurd (hf.symm.trans hzero) Multiset.cons_ne_zero

/-- The entry that was taken is away. -/
theorem Take.not_idle {l l' : Lane α} (h : Take l l') : ¬ l'.Idle := by
  intro hidle
  cases h with
  | park => exact Multiset.cons_ne_zero hidle.1
  | hand => exact Multiset.cons_ne_zero hidle.2

/-- A lane is idle if nothing is away. -/
theorem idle_iff (l : Lane α) : l.Idle ↔ l.parked.card + l.flying.card = 0 := by
  rw [Idle, ← Multiset.card_eq_zero, ← Multiset.card_eq_zero]
  omega

variable [Preorder α]

/-- One entry at a time, in increasing order. -/
structure Ordered (l : Lane α) : Prop where
  one : l.parked.card + l.flying.card ≤ 1
  queue : l.queue.Pairwise (· < ·)
  parked_lt : ∀ a ∈ l.parked, ∀ b ∈ l.queue, a < b
  log_lt : ∀ a ∈ l.log, ∀ b ∈ l.queue, a < b
  log_lt_parked : ∀ a ∈ l.log, ∀ b ∈ l.parked, a < b
  log : l.log.Pairwise (· < ·)

/-- Taking the head of an idle lane keeps it in order. -/
theorem Take.ordered {l l' : Lane α} (h : l.Ordered) (hs : Take l l') : l'.Ordered := by
  cases hs with
  | @park a rest hidle hq =>
      have hsorted := h.queue
      rw [hq, List.pairwise_cons] at hsorted
      have hlog := fun b hb => h.log_lt b hb a (by rw [hq]; exact List.mem_cons_self)
      exact { h with
        one := by simp [hidle.1, hidle.2]
        queue := hsorted.2
        parked_lt := fun b hb => by
          rw [hidle.1, Multiset.cons_zero, Multiset.mem_singleton] at hb
          exact hb ▸ hsorted.1
        log_lt := fun b hb c hc => h.log_lt b hb c (by rw [hq]; exact List.mem_cons_of_mem _ hc)
        log_lt_parked := fun b hb c hc => by
          rw [hidle.1, Multiset.cons_zero, Multiset.mem_singleton] at hc
          exact hc ▸ hlog b hb }
  | @hand a rest hidle hq =>
      have hsorted := h.queue
      rw [hq, List.pairwise_cons] at hsorted
      have hlog := fun b hb => h.log_lt b hb a (by rw [hq]; exact List.mem_cons_self)
      exact {
        one := by simp [hidle.1, hidle.2]
        queue := hsorted.2
        parked_lt := by simp [hidle.1]
        log_lt := fun b hb c hc => by
          obtain hb | hb := List.mem_append.mp hb
          · exact h.log_lt b hb c (by rw [hq]; exact List.mem_cons_of_mem _ hc)
          · rw [List.mem_singleton.mp hb]
            exact hsorted.1 c hc
        log_lt_parked := by simp [hidle.1]
        log := by
          rw [List.pairwise_append]
          exact ⟨h.log, List.pairwise_singleton _ _, fun b hb c hc => by
            rw [List.mem_singleton.mp hc]
            exact hlog b hb⟩ }

/-- An entry that comes back, gets lost or is done keeps the lane in order. -/
theorem Back.ordered {l l' : Lane α} (h : l.Ordered) (hs : Back l l') : l'.Ordered := by
  have hone := h.one
  cases hs with
  | @wake a parked hp =>
      have ha : a ∈ l.parked := by rw [hp]; exact Multiset.mem_cons_self a parked
      rw [hp, Multiset.card_cons] at hone
      have hparked : parked = 0 := Multiset.card_eq_zero.mp (by omega)
      exact { h with
        one := by simp only; omega
        queue := List.pairwise_cons.mpr ⟨h.parked_lt a ha, h.queue⟩
        parked_lt := by simp [hparked]
        log_lt := fun b hb => List.forall_mem_cons.mpr ⟨h.log_lt_parked b hb a ha, h.log_lt b hb⟩
        log_lt_parked := by simp [hparked] }
  | @lose a parked hp =>
      have hsub : ∀ b ∈ parked, b ∈ l.parked := fun b hb => by
        rw [hp]
        exact Multiset.mem_cons_of_mem hb
      rw [hp, Multiset.card_cons] at hone
      exact { h with
        one := by simp only; omega
        parked_lt := fun b hb => h.parked_lt b (hsub b hb)
        log_lt_parked := fun b hb c hc => h.log_lt_parked b hb c (hsub c hc) }
  | @land a flying hf =>
      rw [hf, Multiset.card_cons] at hone
      exact { h with one := by simp only; omega }

/-- Only one entry can come back, and then the lane is idle. -/
theorem Back.idle {l l' : Lane α} (h : l.Ordered) (hs : Back l l') : l'.Idle := by
  have hone := h.one
  rw [idle_iff]
  cases hs with
  | wake hp =>
      rw [hp, Multiset.card_cons] at hone
      simp only
      omega
  | lose hp =>
      rw [hp, Multiset.card_cons] at hone
      simp only
      omega
  | land hf =>
      rw [hf, Multiset.card_cons] at hone
      simp only
      omega

/-- The entry in flight is the last one that was taken. -/
def Latest (l : Lane α) : Prop := ∀ a ∈ l.flying, ∀ b ∈ l.log, b ≤ a

theorem Take.latest {l l' : Lane α} (h : l.Ordered) (hl : l.Latest) (hs : Take l l') :
    l'.Latest := by
  cases hs with
  | park => exact hl
  | @hand a rest hidle hq =>
      intro b hb c hc
      rw [hidle.2, Multiset.cons_zero, Multiset.mem_singleton] at hb
      obtain hc | hc := List.mem_append.mp hc
      · exact le_of_lt (hb ▸ h.log_lt c hc a (by rw [hq]; exact List.mem_cons_self))
      · exact le_of_eq ((List.mem_singleton.mp hc).trans hb.symm)

theorem Back.latest {l l' : Lane α} (hl : l.Latest) (hs : Back l l') : l'.Latest := by
  cases hs with
  | wake => exact hl
  | lose => exact hl
  | land hf => exact fun b hb => hl b (by rw [hf]; exact Multiset.mem_cons_of_mem hb)

end Lane
