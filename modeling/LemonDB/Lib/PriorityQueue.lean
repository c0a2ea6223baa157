import Mathlib.Data.Multiset.Basic

/-!
# LemonDB.Lib.PriorityQueue

Priority queues as containers: a `PriorityQueue α` says how a sequence of
entries is stored, and promises only that `push` adds its argument and that
`pop` takes out one of the stored entries and keeps the others.  Nothing is
promised about *which* entry is taken, so a result proved for every
`PriorityQueue` holds whatever the comparator is, also for one that is not a
strict weak ordering.

`binaryHeap cmp` is the usual array heap for the comparator `cmp`
(`cmp a b` means that `b` goes before `a`, as for `std::priority_queue`):
`push` appends and sifts up, `pop` moves the last entry to the root and sifts
it down.
-/

/-- A priority queue over stored sequences. -/
structure PriorityQueue (α : Type u) where
  push : α → List α → List α
  pop : List α → Option (α × List α)
  push_perm : ∀ a l, (push a l).Perm (a :: l)
  pop_nil : pop [] = none
  pop_perm : ∀ {l}, l ≠ [] → ∃ a r, pop l = some (a, r) ∧ l.Perm (a :: r)

namespace PriorityQueue

variable {α : Type u} (Q : PriorityQueue α)

theorem pop_eq_none_iff {l : List α} : Q.pop l = none ↔ l = [] := by
  constructor
  · intro h
    by_contra hl
    obtain ⟨a, r, hp, _⟩ := Q.pop_perm hl
    rw [h] at hp
    contradiction
  · rintro rfl
    exact Q.pop_nil

/-- What `pop` returns: one stored entry and the others. -/
theorem perm_of_pop {l r : List α} {a : α} (h : Q.pop l = some (a, r)) : l.Perm (a :: r) := by
  have hl : l ≠ [] := fun hl => by rw [hl, Q.pop_nil] at h; contradiction
  obtain ⟨a', r', hp, hperm⟩ := Q.pop_perm hl
  rw [h, Option.some.injEq, Prod.mk.injEq] at hp
  rw [hp.1, hp.2]
  exact hperm

theorem length_of_pop {l r : List α} {a : α} (h : Q.pop l = some (a, r)) :
    l.length = r.length + 1 := (Q.perm_of_pop h).length_eq

end PriorityQueue

/-! ## the array binary heap -/

namespace BinaryHeap

variable {α : Type u} (cmp : α → α → Bool)

/-- Swap two positions of a stored sequence. -/
def swap (a : Array α) (i j : Nat) : Array α :=
  if h : i < a.size ∧ j < a.size then a.swap i j h.1 h.2 else a

theorem swap_perm (a : Array α) (i j : Nat) : (swap a i j).Perm a := by
  unfold swap
  split
  · exact Array.swap_perm _ _
  · exact Array.Perm.refl a

/-- `cmp` on two positions; `false` outside of the sequence. -/
def cmpAt (a : Array α) (i j : Nat) : Bool :=
  match a[i]?, a[j]? with
  | some x, some y => cmp x y
  | _, _ => false

/-- Sift the entry at `i` up while its parent goes after it. -/
def siftUp : (fuel : Nat) → Array α → Nat → Array α
  | 0, a, _ => a
  | fuel + 1, a, i =>
      if i ≠ 0 ∧ cmpAt cmp a ((i - 1) / 2) i then
        siftUp fuel (swap a ((i - 1) / 2) i) ((i - 1) / 2)
      else a

/-- The child of `i` that goes first. -/
def bestChild (a : Array α) (i : Nat) : Nat :=
  if cmpAt cmp a (2 * i + 1) (2 * i + 2) then 2 * i + 2 else 2 * i + 1

/-- Sift the entry at `i` down while it goes after its first child. -/
def siftDown : (fuel : Nat) → Array α → Nat → Array α
  | 0, a, _ => a
  | fuel + 1, a, i =>
      if cmpAt cmp a i (bestChild cmp a i) then
        siftDown fuel (swap a i (bestChild cmp a i)) (bestChild cmp a i)
      else a

/-- Sifting up rearranges the array. -/
theorem siftUp_perm : (fuel : Nat) → (a : Array α) → (i : Nat) → (siftUp cmp fuel a i).Perm a
  | 0, a, _ => Array.Perm.refl a
  | fuel + 1, a, i => by
      rw [siftUp]
      split
      · exact (siftUp_perm fuel _ _).trans (swap_perm a _ _)
      · exact Array.Perm.refl a

/-- Sifting down rearranges the array. -/
theorem siftDown_perm : (fuel : Nat) → (a : Array α) → (i : Nat) → (siftDown cmp fuel a i).Perm a
  | 0, a, _ => Array.Perm.refl a
  | fuel + 1, a, i => by
      rw [siftDown]
      split
      · exact (siftDown_perm fuel _ _).trans (swap_perm a _ _)
      · exact Array.Perm.refl a

/-- Append and sift up. -/
def push (x : α) (l : List α) : List α :=
  (siftUp cmp (l.length + 1) (l ++ [x]).toArray l.length).toList

/-- Take the root out: the last entry takes its place and is sifted down. -/
def pop : List α → Option (α × List α)
  | [] => none
  | x :: l => match l.getLast? with
    | none => some (x, [])
    | some y => some (x, (siftDown cmp (l.length + 1) (y :: l.dropLast).toArray 0).toList)

/-- A push adds its entry. -/
theorem push_perm (x : α) (l : List α) : (push cmp x l).Perm (x :: l) := by
  have h := (siftUp_perm cmp (l.length + 1) (l ++ [x]).toArray l.length).toList
  exact h.trans (List.perm_append_singleton x l)

/-- A pop of a heap with entries takes one of them out. -/
theorem pop_perm : {l : List α} → l ≠ [] → ∃ a r, pop cmp l = some (a, r) ∧ l.Perm (a :: r)
  | [], h => (h rfl).elim
  | x :: l, _ => by
      cases hl : l.getLast? with
      | none =>
          have hnil : l = [] := List.getLast?_eq_none_iff.mp hl
          exact ⟨x, [], by rw [pop, hl], by rw [hnil]⟩
      | some y =>
          have hlast : l = l.dropLast ++ [y] :=
            (List.dropLast_append_getLast? y (Option.mem_def.mpr hl)).symm
          have hsift := (siftDown_perm cmp (l.length + 1) (y :: l.dropLast).toArray 0).toList
          refine ⟨x, _, by rw [pop, hl], List.Perm.cons x ?_⟩
          have hrot : l.Perm (y :: l.dropLast) := by
            rw [hlast, List.dropLast_concat]
            exact List.perm_append_singleton y _
          exact hrot.trans hsift.symm

end BinaryHeap

/-- The array binary heap for a comparator. -/
def PriorityQueue.binaryHeap {α : Type u} (cmp : α → α → Bool) : PriorityQueue α where
  push := BinaryHeap.push cmp
  pop := BinaryHeap.pop cmp
  push_perm := BinaryHeap.push_perm cmp
  pop_nil := rfl
  pop_perm := BinaryHeap.pop_perm cmp

example : (PriorityQueue.binaryHeap fun a b : Nat => decide (a > b)).pop [1, 4, 2, 7, 5] =
    some (1, [2, 4, 5, 7]) := by decide
