import LemonDB.Lib.PriorityQueue

/-!
# LemonDB.Lib.HeapOrder

The order that the array heap keeps when its comparator is not an order.

`Respects cmp rank` says that the comparator never contradicts a rank: an entry
that goes before another one has no larger rank.  Among entries of equal rank
`cmp` may do what it likes, and need not even be transitive.  The heap then
still keeps every rank at or above the rank of its parent (`HeapOrdered`), so
its root has the least rank of all (`HeapOrdered.root_le`).

An array enters the argument only through the ranks at its positions, as a
function `r : Nat → Nat` below a size; a swap of two entries is `swapped r`.
-/

namespace BinaryHeap

/-- The comparator never contradicts the rank.  (`cmp a b` means that `b` goes
before `a`.) -/
structure Respects {α : Type u} (cmp : α → α → Bool) (rank : α → Nat) : Prop where
  le_of_after : ∀ a b, cmp a b = true → rank b ≤ rank a
  le_of_not_after : ∀ a b, cmp a b = false → rank a ≤ rank b

/-! ## ranks by position -/

/-- Every position below `n` but the root has a rank at or above its
parent's. -/
def Ordered (r : Nat → Nat) (n : Nat) : Prop :=
  ∀ i, 0 < i → i < n → r ((i - 1) / 2) ≤ r i

/-- Before a step up: only the position `hole` may be below its parent, and its
children are not below that parent. -/
structure UpOrder (r : Nat → Nat) (n hole : Nat) : Prop where
  except : ∀ i, 0 < i → i < n → i ≠ hole → r ((i - 1) / 2) ≤ r i
  grand : 0 < hole → ∀ i, 0 < i → i < n → (i - 1) / 2 = hole → r ((hole - 1) / 2) ≤ r i

/-- Before a step down: only the children of `hole` may be below it, and they
are not below its parent. -/
structure DownOrder (r : Nat → Nat) (n hole : Nat) : Prop where
  except : ∀ i, 0 < i → i < n → (i - 1) / 2 ≠ hole → r ((i - 1) / 2) ≤ r i
  grand : 0 < hole → ∀ i, 0 < i → i < n → (i - 1) / 2 = hole → r ((hole - 1) / 2) ≤ r i

/-- The ranks after a swap. -/
def swapped (r : Nat → Nat) (i j k : Nat) : Nat := if k = i then r j else if k = j then r i else r k

theorem swapped_left (r : Nat → Nat) (i j : Nat) : swapped r i j i = r j := by simp [swapped]

theorem swapped_right (r : Nat → Nat) (i j : Nat) : swapped r i j j = r i := by
  unfold swapped
  split
  · next h => rw [h]
  · simp

theorem swapped_of_ne (r : Nat → Nat) {i j k : Nat} (hi : k ≠ i) (hj : k ≠ j) :
    swapped r i j k = r k := by
  simp [swapped, hi, hj]

/-- The entry goes up past its parent. -/
theorem UpOrder.move {r : Nat → Nat} {n i : Nat} (h : UpOrder r n i) (hi : 0 < i) (hn : i < n)
    (hle : r i ≤ r ((i - 1) / 2)) : UpOrder (swapped r ((i - 1) / 2) i) n ((i - 1) / 2) := by
  have hp : (i - 1) / 2 < i := by omega
  generalize hpar : (i - 1) / 2 = p at hle hp
  constructor
  · intro j hj hjn hjp
    by_cases hji : j = i
    · subst hji
      rw [hpar, swapped_left, swapped_right]
      exact hle
    · rw [swapped_of_ne r hjp hji]
      have hpair := h.except j hj hjn hji
      by_cases hpi : (j - 1) / 2 = i
      · have hgrand := h.grand hi j hj hjn hpi
        rw [hpi, swapped_right]
        rwa [hpar] at hgrand
      · by_cases hpp : (j - 1) / 2 = p
        · rw [hpp, swapped_left]
          rw [hpp] at hpair
          exact Nat.le_trans hle hpair
        · rwa [swapped_of_ne r hpp hpi]
  · intro hp0 j hj hjn hjp
    have hpair := h.except p hp0 (by omega) (by omega)
    rw [swapped_of_ne r (by omega) (by omega)]
    by_cases hji : j = i
    · rw [hji, swapped_right]
      exact hpair
    · have hsib := h.except j hj hjn hji
      rw [hjp] at hsib
      rw [swapped_of_ne r (by omega) hji]
      exact Nat.le_trans hpair hsib

/-- The entry stays where it is. -/
theorem UpOrder.ordered {r : Nat → Nat} {n i : Nat} (h : UpOrder r n i)
    (hstop : 0 < i → r ((i - 1) / 2) ≤ r i) : Ordered r n := by
  intro j hj hjn
  by_cases hji : j = i
  · subst hji
    exact hstop hj
  · exact h.except j hj hjn hji

/-- The entry goes down past the child that goes first. -/
theorem DownOrder.move {r : Nat → Nat} {n i c : Nat} (h : DownOrder r n i) (hc : 0 < c)
    (hcn : c < n) (hpar : (c - 1) / 2 = i) (hle : r c ≤ r i)
    (hbest : ∀ j, 0 < j → j < n → (j - 1) / 2 = i → r c ≤ r j) :
    DownOrder (swapped r i c) n c := by
  have hic : i < c := by omega
  constructor
  · intro j hj hjn hjc
    by_cases hji : j = i
    · subst hji
      rw [swapped_left, swapped_of_ne r (by omega) hjc]
      exact h.grand hj c hc hcn hpar
    · by_cases hpi : (j - 1) / 2 = i
      · rw [hpi, swapped_left]
        by_cases hjc' : j = c
        · rw [hjc', swapped_right]
          exact hle
        · rw [swapped_of_ne r hji hjc']
          exact hbest j hj hjn hpi
      · have hpair := h.except j hj hjn hpi
        have hjc' : j ≠ c := by
          intro he
          rw [he] at hpi
          exact hpi hpar
        rwa [swapped_of_ne r hpi hjc, swapped_of_ne r hji hjc']
  · intro _ j hj hjn hjc
    have hpair := h.except j hj hjn (by omega)
    rw [hpar, swapped_left, swapped_of_ne r (by omega) (by omega)]
    rwa [hjc] at hpair

/-- The entry stays where it is. -/
theorem DownOrder.ordered {r : Nat → Nat} {n i : Nat} (h : DownOrder r n i)
    (hstop : ∀ j, 0 < j → j < n → (j - 1) / 2 = i → r i ≤ r j) : Ordered r n := by
  intro j hj hjn
  by_cases hji : (j - 1) / 2 = i
  · rw [hji]
    exact hstop j hj hjn hji
  · exact h.except j hj hjn hji

/-! ## the sifts -/

variable {α : Type u} (rank : α → Nat)

/-- The rank at a position; 0 outside of the sequence. -/
def rankAt (a : Array α) (i : Nat) : Nat := (a[i]?.map rank).getD 0

theorem rankAt_of_lt {a : Array α} {i : Nat} (h : i < a.size) : rankAt rank a i = rank a[i] := by
  simp [rankAt, h]

@[simp] theorem size_swap (a : Array α) (i j : Nat) : (swap a i j).size = a.size := by
  unfold swap
  split <;> simp

/-- Swapping two entries swaps their ranks. -/
theorem rankAt_swap {a : Array α} {i j : Nat} (hi : i < a.size) (hj : j < a.size) :
    rankAt rank (swap a i j) = swapped (rankAt rank a) i j := by
  funext k
  unfold swap swapped
  rw [dif_pos ⟨hi, hj⟩]
  by_cases hk : k < a.size
  · rw [rankAt_of_lt rank hi, rankAt_of_lt rank hj, rankAt_of_lt rank hk,
      rankAt_of_lt rank (by simpa using hk), Array.getElem_swap]
    split
    · rfl
    · split <;> rfl
  · have hki : k ≠ i := by omega
    have hkj : k ≠ j := by omega
    simp [rankAt, hk, hki, hkj]

variable {rank} {cmp : α → α → Bool} (hcmp : Respects cmp rank)
include hcmp

/-- An entry that goes behind another one has no smaller rank. -/
theorem le_of_cmpAt {a : Array α} {i j : Nat} (h : cmpAt cmp a i j = true) :
    i < a.size ∧ j < a.size ∧ rankAt rank a j ≤ rankAt rank a i := by
  unfold cmpAt at h
  split at h
  · next x y hx hy =>
      obtain ⟨hi, rfl⟩ := Array.getElem?_eq_some_iff.mp hx
      obtain ⟨hj, rfl⟩ := Array.getElem?_eq_some_iff.mp hy
      rw [rankAt_of_lt rank hi, rankAt_of_lt rank hj]
      exact ⟨hi, hj, hcmp.le_of_after _ _ h⟩
  · contradiction

theorem le_of_not_cmpAt {a : Array α} {i j : Nat} (hi : i < a.size) (hj : j < a.size)
    (h : cmpAt cmp a i j = false) : rankAt rank a i ≤ rankAt rank a j := by
  unfold cmpAt at h
  simp only [Array.getElem?_eq_getElem hi, Array.getElem?_eq_getElem hj] at h
  rw [rankAt_of_lt rank hi, rankAt_of_lt rank hj]
  exact hcmp.le_of_not_after _ _ h

/-- The best child is a child, and no other child is below it. -/
theorem bestChild_spec {a : Array α} {i : Nat} (h : 2 * i + 1 < a.size) :
    0 < bestChild cmp a i ∧ bestChild cmp a i < a.size ∧ (bestChild cmp a i - 1) / 2 = i ∧
      ∀ j, 0 < j → j < a.size → (j - 1) / 2 = i →
        rankAt rank a (bestChild cmp a i) ≤ rankAt rank a j := by
  unfold bestChild
  cases hb : cmpAt cmp a (2 * i + 1) (2 * i + 2) with
  | true =>
      obtain ⟨_, hlt, hle⟩ := le_of_cmpAt hcmp hb
      refine ⟨by simp, by simpa using hlt, by simp only [↓reduceIte]; omega, fun j hj hjn hp => ?_⟩
      obtain rfl | rfl : j = 2 * i + 1 ∨ j = 2 * i + 2 := by omega
      · exact hle
      · exact Nat.le_refl _
  | false =>
      refine ⟨by simp, by simpa using h, by simp, fun j hj hjn hp => ?_⟩
      obtain rfl | rfl : j = 2 * i + 1 ∨ j = 2 * i + 2 := by omega
      · exact Nat.le_refl _
      · exact le_of_not_cmpAt hcmp h hjn hb

/-- Sifting up ends in an ordered sequence. -/
theorem ordered_siftUp : (fuel : Nat) → (a : Array α) → (i : Nat) → i < a.size → i < fuel →
    UpOrder (rankAt rank a) a.size i →
    Ordered (rankAt rank (siftUp cmp fuel a i)) (siftUp cmp fuel a i).size
  | 0, _, _, _, hf, _ => by contradiction
  | fuel + 1, a, i, hi, hf, h => by
      rw [siftUp]
      split
      · next hc =>
          obtain ⟨hp, _, hle⟩ := le_of_cmpAt hcmp hc.2
          have hmove := h.move (Nat.pos_of_ne_zero hc.1) hi hle
          rw [← rankAt_swap rank hp hi, ← size_swap a ((i - 1) / 2) i] at hmove
          exact ordered_siftUp fuel _ _ (by simpa using hp) (by omega) hmove
      · next hc =>
          refine h.ordered fun hpos => le_of_not_cmpAt hcmp (by omega) hi ?_
          simpa [Nat.pos_iff_ne_zero.mp hpos] using hc

/-- Sifting down ends in an ordered sequence. -/
theorem ordered_siftDown : (fuel : Nat) → (a : Array α) → (i : Nat) → a.size ≤ i + fuel →
    DownOrder (rankAt rank a) a.size i →
    Ordered (rankAt rank (siftDown cmp fuel a i)) (siftDown cmp fuel a i).size
  | 0, a, i, hf, h => h.ordered fun j hj hjn hp => by omega
  | fuel + 1, a, i, hf, h => by
      rw [siftDown]
      split
      · next hc =>
          obtain ⟨hi, hb, hle⟩ := le_of_cmpAt hcmp hc
          have hchild : 2 * i + 1 < a.size := by
            unfold bestChild at hb
            split at hb <;> omega
          obtain ⟨hpos, _, hpar, hbest⟩ := bestChild_spec hcmp hchild
          have hmove := h.move hpos hb hpar hle hbest
          rw [← rankAt_swap rank hi hb, ← size_swap a i (bestChild cmp a i)] at hmove
          refine ordered_siftDown fuel _ _ ?_ hmove
          rw [size_swap]
          omega
      · next hc =>
          refine h.ordered fun j hj hjn hp => ?_
          have hchild : 2 * i + 1 < a.size := by omega
          obtain ⟨_, hb, _, hbest⟩ := bestChild_spec hcmp hchild
          exact Nat.le_trans (le_of_not_cmpAt hcmp (by omega) hb (by simpa using hc))
            (hbest j hj hjn hp)

/-! ## the heap -/

omit hcmp in
/-- The order of a stored sequence. -/
def HeapOrdered (rank : α → Nat) (l : List α) : Prop := Ordered (rankAt rank l.toArray) l.length

omit hcmp in
theorem heapOrdered_nil : HeapOrdered rank ([] : List α) := by
  intro i hi hlt
  contradiction

omit hcmp in
/-- No entry is below the root. -/
theorem HeapOrdered.root_le {x : α} {l : List α} (h : HeapOrdered rank (x :: l)) :
    ∀ y ∈ x :: l, rank x ≤ rank y := by
  have hroot : ∀ i, i < (x :: l).length →
      rankAt rank (x :: l).toArray 0 ≤ rankAt rank (x :: l).toArray i := by
    intro i
    induction i using Nat.strongRecOn with
    | ind i ih =>
        intro hlt
        by_cases hi : i = 0
        · rw [hi]
        · exact Nat.le_trans (ih ((i - 1) / 2) (by omega) (by omega)) (h i (by omega) hlt)
  intro y hy
  obtain ⟨i, hi, rfl⟩ := List.getElem_of_mem hy
  have hle := hroot i hi
  rw [rankAt_of_lt rank (by simp), rankAt_of_lt rank (by simpa using hi)] at hle
  simpa using hle

/-- A push keeps the order. -/
theorem heapOrdered_push (x : α) {l : List α} (h : HeapOrdered rank l) :
    HeapOrdered rank (push cmp x l) := by
  have hold : ∀ i, i < l.length →
      rankAt rank (l ++ [x]).toArray i = rankAt rank l.toArray i := by
    intro i hi
    simp [rankAt, List.getElem?_append_left hi]
  have hup : UpOrder (rankAt rank (l ++ [x]).toArray) (l ++ [x]).toArray.size l.length := by
    constructor
    · intro i hi hlt hne
      have hi' : i < l.length := by
        simp at hlt
        omega
      rw [hold _ (by omega), hold _ hi']
      exact h i hi hi'
    · intro _ i hi hlt hp
      simp at hlt
      omega
  have hsift := ordered_siftUp hcmp (l.length + 1) (l ++ [x]).toArray l.length (by simp)
    (by omega) hup
  unfold HeapOrdered push
  simpa using hsift

/-- A pop takes the front, and keeps the order. -/
theorem heapOrdered_pop {x : α} {l r : List α} (h : HeapOrdered rank l)
    (hpop : pop cmp l = some (x, r)) : l.head? = some x ∧ HeapOrdered rank r := by
  cases l with
  | nil => contradiction
  | cons z l =>
      unfold pop at hpop
      cases hl : l.getLast? with
      | none =>
          simp only [hl, Option.some.injEq, Prod.mk.injEq] at hpop
          obtain ⟨rfl, rfl⟩ := hpop
          exact ⟨rfl, heapOrdered_nil⟩
      | some y =>
          simp only [hl, Option.some.injEq, Prod.mk.injEq] at hpop
          obtain ⟨rfl, rfl⟩ := hpop
          have hlen : l.length ≠ 0 := by
            intro h0
            rw [List.length_eq_zero_iff.mp h0] at hl
            contradiction
          have hold : ∀ i, 0 < i → i < l.length → rankAt rank (y :: l.dropLast).toArray i =
              rankAt rank (z :: l).toArray i := by
            intro i hi hlt
            obtain ⟨i, rfl⟩ := Nat.exists_eq_succ_of_ne_zero (Nat.ne_of_gt hi)
            have hi' : i < l.length - 1 := by omega
            have hlt' : i < l.length := by omega
            simp [rankAt, hi', hlt']
          have hdown : DownOrder (rankAt rank (y :: l.dropLast).toArray)
              (y :: l.dropLast).toArray.size 0 := by
            constructor
            · intro i hi hlt hp
              rw [List.size_toArray, List.length_cons, List.length_dropLast] at hlt
              have hlt' : i < l.length := by omega
              rw [hold _ (by omega) (by omega), hold _ hi hlt']
              refine h i hi ?_
              rw [List.length_cons]
              omega
            · intro h0
              contradiction
          have hsize : (y :: l.dropLast).toArray.size ≤ 0 + (l.length + 1) := by
            rw [List.size_toArray, List.length_cons, List.length_dropLast]
            omega
          have hsift := ordered_siftDown hcmp (l.length + 1) _ 0 hsize hdown
          refine ⟨rfl, ?_⟩
          unfold HeapOrdered
          simpa using hsift

end BinaryHeap
