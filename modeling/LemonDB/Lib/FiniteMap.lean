import Mathlib.Data.List.AList
import Mathlib.Algebra.BigOperators.Group.List.Basic
import Mathlib.Algebra.Order.Group.Multiset

/-!
# LemonDB.Lib.FiniteMap

Finite maps for modelling `std::unordered_map`: Mathlib's `AList` at a
constant value type, under the words of a mutable map (`get?`, `set`,
`remove`), and a sum over the values.

`total f m` adds up `f` over all stored values.  `total_set` and
`total_remove` say how one write changes it, which is what accounting
arguments (nothing lost, nothing duplicated) rest on.
-/

/-- A finite map from `κ` to `β`. -/
abbrev FiniteMap (κ : Type u) (β : Type v) := AList fun _ : κ => β

namespace FiniteMap

variable {κ : Type u} {β : Type v} [DecidableEq κ]

/-- The value stored at a key. -/
def get? (m : FiniteMap κ β) (k : κ) : Option β := AList.lookup k m

/-- Store a value at a key, replacing what was there. -/
def set (m : FiniteMap κ β) (k : κ) (v : β) : FiniteMap κ β := AList.insert k v m

/-- Forget a key. -/
def remove (m : FiniteMap κ β) (k : κ) : FiniteMap κ β := AList.erase k m

@[simp] theorem get?_empty (k : κ) : get? (∅ : FiniteMap κ β) k = none := rfl

@[simp] theorem get?_set_self (m : FiniteMap κ β) (k : κ) (v : β) : (m.set k v).get? k = some v :=
  AList.lookup_insert m

theorem get?_set_of_ne (m : FiniteMap κ β) {k k' : κ} (v : β) (h : k' ≠ k) :
    (m.set k v).get? k' = m.get? k' := AList.lookup_insert_ne h

/-- The value under a key after a change of one key. -/
theorem get?_set (m : FiniteMap κ β) (k k' : κ) (v : β) :
    (m.set k v).get? k' = if k' = k then some v else m.get? k' := by
  by_cases h : k' = k
  · subst h; simp
  · rw [if_neg h, get?_set_of_ne m v h]

@[simp] theorem get?_remove_self (m : FiniteMap κ β) (k : κ) : (m.remove k).get? k = none :=
  AList.lookup_erase k m

theorem get?_remove_of_ne (m : FiniteMap κ β) {k k' : κ} (h : k' ≠ k) :
    (m.remove k).get? k' = m.get? k' := AList.lookup_erase_ne h

/-- The value under a key after the removal of one key. -/
theorem get?_remove (m : FiniteMap κ β) (k k' : κ) :
    (m.remove k).get? k' = if k' = k then none else m.get? k' := by
  by_cases h : k' = k
  · subst h; simp
  · rw [if_neg h, get?_remove_of_ne m h]

/-- A key is listed exactly when a value is stored at it. -/
theorem mem_keys_iff (m : FiniteMap κ β) (k : κ) : k ∈ m.keys ↔ ∃ v, m.get? k = some v := by
  rw [← AList.mem_keys, ← AList.lookup_isSome, Option.isSome_iff_exists, get?]

/-! ## sums over the stored values -/

variable {M : Type w} [AddCommMonoid M]

/-- The sum of `f` over the stored values. -/
def total (f : β → M) (m : FiniteMap κ β) : M := (m.entries.map fun e => f e.2).sum

omit [DecidableEq κ] in
@[simp] theorem total_empty (f : β → M) : total f (∅ : FiniteMap κ β) = 0 := rfl

/-- Taking a key out takes its value's share out of the sum. -/
theorem total_remove (f : β → M) (m : FiniteMap κ β) (k : κ) :
    (m.remove k).total f + ((m.get? k).elim 0 f) = m.total f := by
  by_cases hk : k ∈ m
  · obtain ⟨v, l₁, l₂, hnot, hm, he⟩ := List.exists_of_kerase (AList.mem_keys.mp hk)
    have hget : m.get? k = some v := by
      rw [get?, ← Option.mem_def, AList.mem_lookup_iff, hm]
      simp
    have hrem : (m.remove k).entries = l₁ ++ l₂ := he
    rw [hget, total, total, hrem, hm]
    simp only [Option.elim_some, List.map_append, List.map_cons, List.sum_append, List.sum_cons]
    rw [add_assoc, add_comm _ (f v)]
  · have hget : m.get? k = none := AList.lookup_eq_none.mpr hk
    have hrem : (m.remove k).entries = m.entries :=
      List.kerase_of_notMem_keys fun h => hk (AList.mem_keys.mpr h)
    rw [hget, total, total, hrem]
    simp

/-- Storing a value replaces the old share by the new one. -/
theorem total_set (f : β → M) (m : FiniteMap κ β) (k : κ) (v : β) :
    (m.set k v).total f + ((m.get? k).elim 0 f) = m.total f + f v := by
  have hset : (m.set k v).entries = ⟨k, v⟩ :: (m.remove k).entries := AList.entries_insert
  rw [← total_remove f m k, total, hset, List.map_cons, List.sum_cons]
  rw [add_assoc, add_comm (f v)]
  rfl

theorem elim_eq_getD (f : β → M) {d : β} (hd : f d = 0) (o : Option β) :
    o.elim 0 f = f (o.getD d) := by
  cases o with
  | none => exact hd.symm
  | some v => rfl

/-- `total_set` when an absent key reads as a value without a share. -/
theorem total_set_getD (f : β → M) {d : β} (hd : f d = 0) (m : FiniteMap κ β) (k : κ) (v : β) :
    (m.set k v).total f + f ((m.get? k).getD d) = m.total f + f v := by
  rw [← elim_eq_getD f hd, total_set]

/-- Removing a key takes its value off the total. -/
theorem total_remove_getD (f : β → M) {d : β} (hd : f d = 0) (m : FiniteMap κ β) (k : κ) :
    (m.remove k).total f + f ((m.get? k).getD d) = m.total f := by
  rw [← elim_eq_getD f hd, total_remove]

theorem get?_eq_some_iff (m : FiniteMap κ β) (k : κ) (v : β) :
    m.get? k = some v ↔ ⟨k, v⟩ ∈ m.entries := by
  rw [get?, ← Option.mem_def, AList.mem_lookup_iff]

/-- What a sum of multisets holds, some stored value holds. -/
theorem mem_total {γ : Type w} (f : β → Multiset γ) (m : FiniteMap κ β) (x : γ) :
    x ∈ m.total f ↔ ∃ k v, m.get? k = some v ∧ x ∈ f v := by
  have hsum : ∀ l : List (Sigma fun _ : κ => β),
      x ∈ (l.map fun e => f e.2).sum ↔ ∃ e ∈ l, x ∈ f e.2 := by
    intro l
    induction l with
    | nil => simp
    | cons e l ih => simp [ih]
  rw [total, hsum]
  constructor
  · intro ⟨⟨k, v⟩, he, hx⟩
    exact ⟨k, v, (m.get?_eq_some_iff k v).mpr he, hx⟩
  · intro ⟨k, v, hk, hx⟩
    exact ⟨⟨k, v⟩, (m.get?_eq_some_iff k v).mp hk, hx⟩

end FiniteMap
