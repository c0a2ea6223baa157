import Mathlib.Algebra.BigOperators.Group.List.Basic
import Mathlib.Algebra.Order.Group.Multiset

/-!
# LemonDB.Lib.Parties

What the parties of a system have altogether.  Each party has a local state, and
`total f` adds up a share `f` of each of them.  A step changes the state of one
party, so it takes the share of the old state out of the total and puts that of
the new one in (`total_set`).
-/

namespace Parties

variable {α : Type u} {M : Type v} [AddCommMonoid M] {f : α → M} {l : List α} {i j : Nat} {a b : α}

/-- What all parties have. -/
def total (f : α → M) (l : List α) : M := (l.map f).sum

/-- One party and the others. -/
theorem total_erase (f : α → M) (h : l[i]? = some a) :
    total f l = f a + total f (l.eraseIdx i) := by
  obtain ⟨hi, rfl⟩ := List.getElem?_eq_some_iff.mp h
  conv_lhs => rw [← List.take_append_drop i l, List.drop_eq_getElem_cons hi]
  rw [List.eraseIdx_eq_take_drop_succ]
  simp only [total, List.map_append, List.map_cons, List.sum_append, List.sum_cons]
  exact add_left_comm _ _ _

/-- One party changes its state. -/
theorem total_set (f : α → M) (h : l[i]? = some a) (b : α) :
    total f (l.set i b) = f b + total f (l.eraseIdx i) := by
  have hset : (l.set i b)[i]? = some b :=
    List.getElem?_set_self (List.getElem?_eq_some_iff.mp h).1
  rw [total_erase f hset, List.eraseIdx_set_eq]

/-- A part of what all parties have. -/
theorem total_map {N : Type w} [AddCommMonoid N] (g : M →+ N) (f : α → M) (l : List α) :
    g (total f l) = total (fun a => g (f a)) l := by
  rw [total, map_list_sum, List.map_map]
  rfl

/-- Two parties and the others. -/
theorem total_pair (f : α → M) (hne : i ≠ j) (hi : l[i]? = some a) (hj : l[j]? = some b) :
    ∃ rest, total f l = f a + (f b + rest) := by
  obtain ⟨k, hk⟩ := List.mem_iff_getElem?.mp
    (List.mem_eraseIdx_iff_getElem?.mpr ⟨j, hne.symm, hj⟩)
  exact ⟨_, by rw [total_erase f hi, total_erase f hk]⟩

/-- A party has its share. -/
theorem mem_total {f : α → Multiset β} {x : β} (h : x ∈ total f l) : ∃ a ∈ l, x ∈ f a := by
  induction l with
  | nil => exact absurd h (Multiset.notMem_zero x)
  | cons b l ih =>
      obtain h | h := Multiset.mem_add.mp h
      · exact ⟨b, List.mem_cons_self, h⟩
      · obtain ⟨a, ha, hx⟩ := ih h
        exact ⟨a, List.mem_cons_of_mem b ha, hx⟩

theorem total_eq_zero (h : ∀ a ∈ l, f a = 0) : total f l = 0 :=
  List.sum_eq_zero fun _ hx => by
    obtain ⟨a, ha, rfl⟩ := List.mem_map.mp hx
    exact h a ha

end Parties
