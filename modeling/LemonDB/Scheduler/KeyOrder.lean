import LemonDB.Scheduler.GlobalIndex
import Mathlib.Order.Defs.Unbundled

/-!
# LemonDB.Scheduler.KeyOrder

The comparator of the global index as an order.  Stamps inside the tolerance
window count as equal, which is not a transitive relation: of three keys the
outer two can be apart although the middle one is close to both.  Such keys
contradict each other when their head sequence numbers run against their
stamps, and nothing else keeps the comparator from being a strict weak
ordering.
-/

namespace LemonDB

variable {α : Type u}

theorem QueryPriority.value_inj {p q : QueryPriority} : p.value = q.value ↔ p = q := by
  cases p <;> cases q <;> decide

/-- When a key goes behind another one. -/
theorem keyCmp_iff (a b : Key α) : keyCmp a b = true ↔
    b.pri.value < a.pri.value ∨ (a.pri.value = b.pri.value ∧
      (b.stamp + kFairnessQuantum ≤ a.stamp ∨
        (a.stamp < b.stamp + kFairnessQuantum ∧ b.stamp < a.stamp + kFairnessQuantum ∧
          b.headSeq < a.headSeq))) := by
  unfold keyCmp kFairnessQuantum
  by_cases hpri : a.pri = b.pri
  · rw [if_neg (not_not_intro hpri), hpri]
    dsimp only
    by_cases hlt : a.stamp > b.stamp
    · rw [if_pos hlt]
      split <;> rw [decide_eq_true_eq] <;> omega
    · rw [if_neg hlt]
      split <;> rw [decide_eq_true_eq] <;> omega
  · have hne := mt QueryPriority.value_inj.mp hpri
    rw [if_pos hpri, decide_eq_true_eq]
    omega

/-- Three keys of one priority that contradict each other: each is close to the
next one, but the first is not close to the last, and the head sequence numbers
do not grow with the stamps. -/
structure Conflict (x y z : Key α) : Prop where
  pri : x.pri = y.pri ∧ y.pri = z.pri
  stamp : x.stamp ≤ y.stamp ∧ y.stamp ≤ z.stamp
  near : y.stamp < x.stamp + kFairnessQuantum ∧ z.stamp < y.stamp + kFairnessQuantum
  far : x.stamp + kFairnessQuantum ≤ z.stamp
  headSeq : z.headSeq ≤ y.headSeq ∧ y.headSeq ≤ x.headSeq

/-- The relation of the comparator on a set of keys: the first key goes behind the
second one. -/
def Behind (S : Set (Key α)) (a b : S) : Prop := keyCmp a.1 b.1 = true

variable {S : Set (Key α)}

/-- No strict weak ordering has such keys: the last of them goes behind the first,
but the middle one does not, and the last does not go behind the middle one. -/
theorem Conflict.not_strictWeakOrder {x y z : Key α} (h : Conflict x y z) (hx : x ∈ S)
    (hy : y ∈ S) (hz : z ∈ S) : ¬ IsStrictWeakOrder S (Behind S) := by
  intro hS
  have hzx : keyCmp z x = true := by
    rw [keyCmp_iff, h.pri.1, h.pri.2]
    exact .inr ⟨rfl, .inl h.far⟩
  have hnot : ¬ keyCmp y x = true ∧ ¬ keyCmp z y = true := by
    obtain ⟨hpri, hstamp, hnear, hfar, hseq⟩ := h
    rw [keyCmp_iff, keyCmp_iff, hpri.1, hpri.2]
    omega
  have htrans : ∀ a b c : S, Behind S a b → Behind S b c → Behind S a c := hS.trans
  have hxy : ¬ keyCmp x y = true := fun hxy => hnot.2 (htrans ⟨z, hz⟩ ⟨x, hx⟩ ⟨y, hy⟩ hzx hxy)
  have hyz : ¬ keyCmp y z = true := fun hyz => hnot.1 (htrans ⟨y, hy⟩ ⟨z, hz⟩ ⟨x, hx⟩ hyz hzx)
  exact (hS.incomp_trans ⟨x, hx⟩ ⟨y, hy⟩ ⟨z, hz⟩ ⟨hxy, hnot.1⟩ ⟨hyz, hnot.2⟩).2 hzx

theorem conflict_iff (x y z : Key α) : Conflict x y z ↔
    (x.pri.value = y.pri.value ∧ y.pri.value = z.pri.value) ∧
    (x.stamp ≤ y.stamp ∧ y.stamp ≤ z.stamp) ∧
    (y.stamp < x.stamp + kFairnessQuantum ∧ z.stamp < y.stamp + kFairnessQuantum) ∧
    x.stamp + kFairnessQuantum ≤ z.stamp ∧ z.headSeq ≤ y.headSeq ∧ y.headSeq ≤ x.headSeq := by
  rw [QueryPriority.value_inj, QueryPriority.value_inj]
  exact ⟨fun ⟨h₁, h₂, h₃, h₄, h₅⟩ => ⟨h₁, h₂, h₃, h₄, h₅⟩,
    fun ⟨h₁, h₂, h₃, h₄, h₅⟩ => ⟨h₁, h₂, h₃, h₄, h₅⟩⟩

/-- Of two keys at most one goes behind the other. -/
theorem keyCmp_asymm {a b : Key α} (h : keyCmp a b = true) : ¬ keyCmp b a = true := by
  rw [keyCmp_iff, kFairnessQuantum] at *
  omega

/-- Keys without a conflict are compared transitively. -/
theorem keyCmp_trans {a b c : Key α} (habc : ¬ Conflict a b c) (hbca : ¬ Conflict b c a)
    (hcab : ¬ Conflict c a b) (hab : keyCmp a b = true) (hbc : keyCmp b c = true) :
    keyCmp a c = true := by
  rw [conflict_iff] at *
  rw [keyCmp_iff] at *
  omega

/-- Two keys are incomparable if they are close and have the same head. -/
theorem incomparable_iff (a b : Key α) : (¬ keyCmp a b = true ∧ ¬ keyCmp b a = true) ↔
    a.pri.value = b.pri.value ∧ a.stamp < b.stamp + kFairnessQuantum ∧
      b.stamp < a.stamp + kFairnessQuantum ∧ a.headSeq = b.headSeq := by
  rw [keyCmp_iff, keyCmp_iff, kFairnessQuantum]
  omega

theorem incomparable_trans {a b c : Key α} (habc : ¬ Conflict a b c) (hcba : ¬ Conflict c b a)
    (hab : ¬ keyCmp a b = true ∧ ¬ keyCmp b a = true)
    (hbc : ¬ keyCmp b c = true ∧ ¬ keyCmp c b = true) :
    ¬ keyCmp a c = true ∧ ¬ keyCmp c a = true := by
  rw [conflict_iff] at *
  rw [incomparable_iff] at *
  omega

/-- **The comparator is a strict weak ordering exactly on the sets of keys without a
conflict.** -/
theorem keyCmp_strictWeakOrder_iff (S : Set (Key α)) : IsStrictWeakOrder S (Behind S) ↔
    ∀ x ∈ S, ∀ y ∈ S, ∀ z ∈ S, ¬ Conflict x y z := by
  constructor
  · intro hS x hx y hy z hz h
    exact h.not_strictWeakOrder hx hy hz hS
  · intro hno
    have hno : ∀ x y z : S, ¬ Conflict x.1 y.1 z.1 := fun x y z => hno x x.2 y y.2 z z.2
    exact {
      irrefl := fun a h => keyCmp_asymm h h
      trans := fun a b c => keyCmp_trans (hno a b c) (hno b c a) (hno c a b)
      incomp_trans := fun a b c => incomparable_trans (hno a b c) (hno c b a) }

/-- A later key with an earlier head, twice. -/
theorem not_keyCmp_strictWeakOrder : ¬ ∀ a b c : Key Unit, ¬ keyCmp a a = true ∧
    (keyCmp a b = true → keyCmp b c = true → keyCmp a c = true) ∧
    (¬ keyCmp a b = true ∧ ¬ keyCmp b a = true → ¬ keyCmp b c = true ∧ ¬ keyCmp c b = true →
      ¬ keyCmp a c = true ∧ ¬ keyCmp c a = true) := by
  intro h
  have htrans := (h ⟨.normal, 0, 3, (), 1⟩ ⟨.normal, 40, 2, (), 1⟩ ⟨.normal, 80, 1, (), 1⟩).2.1
  exact absurd (htrans (by decide) (by decide)) (by decide)

end LemonDB
