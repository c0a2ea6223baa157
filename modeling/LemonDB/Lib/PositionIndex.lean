import LemonDB.Lib.FiniteMap

/-!
# LemonDB.Lib.PositionIndex

A vector of entries addressed through a map from keys to positions.
`Indexes m key l` says that `m` is exactly that map; it implies that the keys
are distinct.  The operations of such a store keep it: appending an entry with
a new key, changing entries without changing their keys, and taking an entry
out by moving the last one into its place (`swapRemove`).
-/

namespace PositionIndex

variable {κ : Type u} {α : Type v} [DecidableEq κ]

/-- `m` sends each key to the position of its entry. -/
def Indexes (m : FiniteMap κ Nat) (key : α → κ) (l : List α) : Prop :=
  ∀ k i, m.get? k = some i ↔ ∃ x, l[i]? = some x ∧ key x = k

variable {m : FiniteMap κ Nat} {key : α → κ} {l : List α}

theorem indexes_nil (key : α → κ) : Indexes (∅ : FiniteMap κ Nat) key [] := by
  intro k i
  simp

namespace Indexes

theorem lt_length (h : Indexes m key l) {k : κ} {i : Nat} (hk : m.get? k = some i) :
    i < l.length := by
  obtain ⟨x, hx, _⟩ := (h k i).mp hk
  exact (List.getElem?_eq_some_iff.mp hx).1

theorem get?_key (h : Indexes m key l) {i : Nat} {x : α} (hx : l[i]? = some x) :
    m.get? (key x) = some i := (h (key x) i).mpr ⟨x, hx, rfl⟩

/-- A key is absent exactly when no entry has it. -/
theorem get?_eq_none_iff (h : Indexes m key l) (k : κ) :
    m.get? k = none ↔ ∀ x ∈ l, key x ≠ k := by
  rw [Option.eq_none_iff_forall_ne_some]
  constructor
  · intro hnone x hx hkey
    obtain ⟨i, hi⟩ := List.mem_iff_getElem?.mp hx
    exact hnone i ((h k i).mpr ⟨x, hi, hkey⟩)
  · intro hall i hi
    obtain ⟨x, hx, hkey⟩ := (h k i).mp hi
    exact hall x (List.mem_of_getElem? hx) hkey

/-- The keys of the entries are distinct. -/
theorem nodup (h : Indexes m key l) : (l.map key).Nodup := by
  rw [List.nodup_iff_getElem?_ne_getElem?]
  intro i j hij hj heq
  rw [List.length_map] at hj
  rw [List.getElem?_map, List.getElem?_map, List.getElem?_eq_getElem hj,
    List.getElem?_eq_getElem (Nat.lt_trans hij hj)] at heq
  have hkey : key l[i] = key l[j] := Option.some.inj heq
  have hi := h.get?_key (List.getElem?_eq_getElem (Nat.lt_trans hij hj))
  rw [hkey, h.get?_key (List.getElem?_eq_getElem hj), Option.some.injEq] at hi
  omega

/-- The keys of the map are the keys of the entries. -/
theorem keys_perm (h : Indexes m key l) : m.keys.Perm (l.map key) := by
  rw [List.perm_ext_iff_of_nodup (AList.keys_nodup m) h.nodup]
  intro k
  rw [FiniteMap.mem_keys_iff, List.mem_map]
  constructor
  · intro ⟨i, hi⟩
    obtain ⟨x, hx, hkey⟩ := (h k i).mp hi
    exact ⟨x, List.mem_of_getElem? hx, hkey⟩
  · intro ⟨x, hx, hkey⟩
    obtain ⟨i, hi⟩ := List.mem_iff_getElem?.mp hx
    exact ⟨i, (h k i).mpr ⟨x, hi, hkey⟩⟩

theorem length_keys (h : Indexes m key l) : m.keys.length = l.length := by
  rw [h.keys_perm.length_eq, List.length_map]

/-- Appending an entry with a new key. -/
theorem append (h : Indexes m key l) {x : α} (hnew : m.get? (key x) = none) :
    Indexes (m.set (key x) l.length) key (l ++ [x]) := by
  intro k i
  have hfresh := (h.get?_eq_none_iff (key x)).mp hnew
  rw [FiniteMap.get?_set]
  by_cases hk : k = key x
  · subst hk
    rw [if_pos rfl, Option.some.injEq]
    constructor
    · intro hi
      exact ⟨x, by simp [← hi], rfl⟩
    · intro ⟨y, hy, hkey⟩
      by_cases hi : i < l.length
      · rw [List.getElem?_append_left hi] at hy
        exact absurd hkey (hfresh y (List.mem_of_getElem? hy))
      · obtain ⟨hlt, _⟩ := List.getElem?_eq_some_iff.mp hy
        rw [List.length_append, List.length_singleton] at hlt
        omega
  · rw [if_neg hk, h k i]
    refine exists_congr fun y => and_congr_left fun hkey => ?_
    by_cases hi : i < l.length
    · rw [List.getElem?_append_left hi]
    · have hne : x ≠ y := fun hxy => hk (hkey.symm.trans (congrArg key hxy.symm))
      rw [List.getElem?_eq_none (by omega), List.getElem?_append_right (by omega)]
      cases hj : i - l.length with
      | zero => simpa using hne
      | succ j => simp

/-- Changing entries, but not their keys. -/
theorem of_map_key_eq (h : Indexes m key l) {l' : List α} (hl : l'.map key = l.map key) :
    Indexes m key l' := by
  intro k i
  have hi := congrArg (fun ks => ks[i]?) hl
  simp only [List.getElem?_map] at hi
  rw [h k i]
  have hex : ∀ o : Option α, (∃ x, o = some x ∧ key x = k) ↔ o.map key = some k := by
    intro o
    simp
  rw [hex, hex, hi]

/-- An entry at another position has another key. -/
theorem eq_of_key_eq (h : Indexes m key l) {i j : Nat} {x y : α} (hx : l[i]? = some x)
    (hy : l[j]? = some y) (hkey : key x = key y) : i = j := by
  have hi := h.get?_key hx
  rw [hkey, h.get?_key hy] at hi
  exact (Option.some.inj hi).symm

/-- Giving an entry another key, which no other entry has. -/
theorem rekey (h : Indexes m key l) {i : Nat} {x y : α} (hx : l[i]? = some x)
    (hy : ∀ z ∈ l, key z = key y → z = x) :
    Indexes ((m.remove (key x)).set (key y) i) key (l.set i y) := by
  have hlt := (List.getElem?_eq_some_iff.mp hx).1
  -- what stands at the other positions is as before
  have hother : ∀ {j z}, (l.set i y)[j]? = some z → j ≠ i → l[j]? = some z := by
    intro j z hz hj
    rwa [List.getElem?_set_ne (Ne.symm hj)] at hz
  intro k j
  rw [FiniteMap.get?_set, FiniteMap.get?_remove]
  by_cases hk : k = key y
  · subst hk
    rw [if_pos rfl, Option.some.injEq]
    constructor
    · rintro rfl
      exact ⟨y, by rw [List.getElem?_set_self hlt], rfl⟩
    · rintro ⟨z, hz, hkey⟩
      by_contra hj
      have hz := hother hz (Ne.symm hj)
      obtain rfl := hy z (List.mem_of_getElem? hz) hkey
      exact hj (h.eq_of_key_eq hx hz rfl)
  · rw [if_neg hk]
    by_cases hkx : k = key x
    · subst hkx
      rw [if_pos rfl]
      constructor
      · intro hnone
        contradiction
      · rintro ⟨z, hz, hkey⟩
        by_cases hj : j = i
        · rw [hj, List.getElem?_set_self hlt, Option.some.injEq] at hz
          exact absurd (hz ▸ hkey) (Ne.symm hk)
        · exact absurd (h.eq_of_key_eq (hother hz hj) hx hkey) hj
    · rw [if_neg hkx, h k j]
      refine exists_congr fun z => and_congr_left fun hkey => ?_
      by_cases hj : j = i
      · have hzx : ¬ x = z := fun he => hkx (hkey.symm.trans (congrArg key he.symm))
        have hzy : ¬ y = z := fun he => hk (hkey.symm.trans (congrArg key he.symm))
        rw [hj, hx, List.getElem?_set_self hlt]
        simp [hzx, hzy]
      · rw [List.getElem?_set_ne (Ne.symm hj)]

end Indexes

/-! ## taking an entry out -/

/-- `std::swap` of two entries. -/
def swap (l : List α) (i j : Nat) : List α :=
  match l[i]?, l[j]? with
  | some x, some y => (l.set i y).set j x
  | _, _ => l

/-- The last entry is moved to position `i`, where an entry is taken out. -/
def swapRemove (l : List α) (i : Nat) : List α :=
  (if i ≠ l.length - 1 then swap l i (l.length - 1) else l).dropLast

/-- The entry that moves when the one at `i` is taken out. -/
def moved (l : List α) (i : Nat) : Option α :=
  if i ≠ l.length - 1 then l[l.length - 1]? else none

theorem getElem?_swapRemove {i : Nat} (hi : i < l.length) (j : Nat) :
    (swapRemove l i)[j]? = if j < l.length - 1 then
      if j = i then l[l.length - 1]? else l[j]? else none := by
  unfold swapRemove
  rw [List.getElem?_dropLast]
  by_cases hlast : i ≠ l.length - 1
  · have hswap : swap l i (l.length - 1) = (l.set i l[l.length - 1]).set (l.length - 1) l[i] := by
      unfold swap
      rw [List.getElem?_eq_getElem hi, List.getElem?_eq_getElem (show l.length - 1 < l.length by omega)]
    rw [if_pos hlast, hswap, List.length_set, List.length_set]
    grind
  · rw [if_neg hlast]
    grind

/-- The map after that, without the key of the entry taken out. -/
theorem Indexes.swapRemove (h : Indexes m key l) {k : κ} {i : Nat} (hk : m.get? k = some i) :
    Indexes (((moved l i).elim m fun y => m.set (key y) i).remove k) key
      (PositionIndex.swapRemove l i) := by
  have hi := h.lt_length hk
  obtain ⟨x, hx, hkx⟩ := (h k i).mp hk
  intro k' j
  rw [getElem?_swapRemove hi, FiniteMap.get?_remove]
  have hget : k' ≠ k → (((moved l i).elim m fun y => m.set (key y) i).get? k' = some j ↔
      (j < l.length - 1 ∧ j ≠ i ∧ m.get? k' = some j) ∨
        (j = i ∧ i < l.length - 1 ∧ m.get? k' = some (l.length - 1))) := by
    intro hne
    have hlt : ∀ j, m.get? k' = some j → j < l.length ∧ j ≠ i := by
      intro j hj
      refine ⟨h.lt_length hj, fun hji => hne ?_⟩
      obtain ⟨z, hz, hkz⟩ := (h k' j).mp hj
      rw [hji, hx] at hz
      rw [← hkz, ← hkx, Option.some.inj hz]
    unfold moved
    by_cases hlast : i ≠ l.length - 1
    · have hy : l[l.length - 1]? = some l[l.length - 1] := List.getElem?_eq_getElem (by omega)
      have hky := h.get?_key hy
      rw [if_pos hlast, hy, Option.elim_some, FiniteMap.get?_set]
      by_cases hkk : k' = key l[l.length - 1]
      · rw [if_pos hkk, hkk, hky]
        grind
      · have hno : m.get? k' ≠ some (l.length - 1) := by
          intro hj
          obtain ⟨z, hz, hkz⟩ := (h k' _).mp hj
          rw [hy] at hz
          exact hkk (hkz.symm.trans (congrArg key (Option.some.inj hz).symm))
        rw [if_neg hkk]
        grind
    · rw [if_neg hlast, Option.elim_none]
      grind
  by_cases hkk : k' = k
  · rw [if_pos hkk]
    -- an entry with the key taken out was at position `i`
    have hpos : ∀ j z, l[j]? = some z → key z = k' → j = i := by
      intro j z hz hkz
      have := h.get?_key hz
      rw [hkz, hkk, hk] at this
      exact (Option.some.inj this).symm
    constructor
    · intro hn
      contradiction
    · rintro ⟨z, hz, hkz⟩
      split at hz
      · split at hz
        · have := hpos _ z hz hkz
          omega
        · exact absurd (hpos _ z hz hkz) ‹_›
      · contradiction
  · rw [if_neg hkk, hget hkk, h k' j, h k' (l.length - 1)]
    grind

/-- What is left are the other entries. -/
theorem swapRemove_perm {i : Nat} (hi : i < l.length) : (l[i] :: swapRemove l i).Perm l := by
  unfold swapRemove
  by_cases hlast : i ≠ l.length - 1
  · obtain ⟨init, z, rfl⟩ : ∃ init z, l = init ++ [z] :=
      ⟨l.dropLast, l.getLast (by grind), (List.dropLast_append_getLast _).symm⟩
    have hlen : (init ++ [z]).length - 1 = init.length := by simp
    have hin : i < init.length := by simp at hi hlast; omega
    have hswap : (swap (init ++ [z]) i init.length).dropLast = init.set i z := by
      unfold swap
      rw [List.getElem?_append_left hin, List.getElem?_eq_getElem hin,
        List.getElem?_append_right (Nat.le_refl _)]
      simp [List.set_append_left, hin]
    rw [if_pos hlast, hlen, hswap, List.getElem_append_left hin]
    have hset : (init.set i z).Perm (z :: init.eraseIdx i) := by
      rw [List.set_eq_take_cons_drop z hin, List.eraseIdx_eq_take_drop_succ]
      exact List.perm_middle
    have herase := List.getElem_cons_eraseIdx_perm hin
    have hswapped : (init[i] :: init.set i z).Perm (z :: init[i] :: init.eraseIdx i) :=
      (hset.cons _).trans (List.Perm.swap _ _ _)
    exact hswapped.trans ((herase.cons z).trans (List.perm_append_singleton z init).symm)
  · have hne : l ≠ [] := by grind
    have hget : l[i] = l.getLast hne := by
      rw [List.getLast_eq_getElem]
      grind
    rw [if_neg hlast, hget]
    exact (List.perm_append_singleton _ _).symm.trans
      (List.Perm.of_eq (List.dropLast_append_getLast hne))

end PositionIndex
