import LemonDB.Lib.FiniteMap
import LemonDB.Lib.Loop
import LemonDB.Lib.PriorityQueue
import LemonDB.Query
import Mathlib.Data.Set.Insert

/-!
# LemonDB.Scheduler.GlobalIndex

The cross-table selection structure: a heap of keys with lazily invalidated
entries.  `upsert` pushes a key with a new version and thereby makes older
keys of the same table stale; `pickBest` discards stale keys until a current
one surfaces.

The heap is any `PriorityQueue`: only that each pushed entry comes out once
is used here.  Under the invariant `WF` the index is the *set* of its pending
tables (`pending`): `upsert` inserts, `pickBest` removes what it returns.
-/

namespace LemonDB

/-- A heap entry: the representative key of a table queue. -/
structure Key (α : Type u) where
  pri : QueryPriority
  stamp : Nat
  headSeq : Nat
  tbl : α
  version : Nat
  deriving DecidableEq

/-- Fairness quantum of the tolerance window. -/
def kFairnessQuantum : Nat := 64

/-- The comparator: `true` when the right key goes first. -/
def keyCmp {α : Type u} (leftKey rightKey : Key α) : Bool :=
  if leftKey.pri ≠ rightKey.pri then
    decide (leftKey.pri.value > rightKey.pri.value)
  else
    let diff := if leftKey.stamp > rightKey.stamp then leftKey.stamp - rightKey.stamp
      else rightKey.stamp - leftKey.stamp
    if diff ≥ kFairnessQuantum then decide (leftKey.stamp > rightKey.stamp)
    else decide (leftKey.headSeq > rightKey.headSeq)

/-- The selection structure over table pointers of type `α`. -/
structure GlobalIndex (α : Type u) where
  heap : List (Key α) := []
  latestVersion : FiniteMap α Nat := ∅

namespace GlobalIndex

variable {α : Type u} [DecidableEq α] (pq : PriorityQueue (Key α))

/-- Push a key with an incremented version; a null table is ignored. -/
def upsert (g : GlobalIndex α) (tableQ : Option α) (priorityLevel : QueryPriority)
    (enqueueTick headSeq : Nat) : GlobalIndex α :=
  match tableQ with
  | none => g
  | some t =>
      let ver := (g.latestVersion.get? t).getD 0 + 1
      { heap := pq.push ⟨priorityLevel, enqueueTick, headSeq, t, ver⟩ g.heap
        latestVersion := g.latestVersion.set t ver }

/-- The loop of `pickBest`: pop until a current key surfaces. -/
def pickBestLoop : MeasuredLoop (GlobalIndex α) (Option α × GlobalIndex α) where
  body g := match pq.pop g.heap with
    | none => .inr (none, g)
    | some (top, rest) =>
        if g.latestVersion.get? top.tbl = some top.version then
          .inr (some top.tbl, { g with heap := rest })
        else .inl { g with heap := rest }
  measure g := g.heap.length
  decreases := by
    intro g g' h
    cases hp : pq.pop g.heap with
    | none => rw [hp] at h; contradiction
    | some p =>
        obtain ⟨top, rest⟩ := p
        have hlen := pq.length_of_pop hp
        simp only [hp] at h
        split at h
        · contradiction
        · rw [Sum.inl.injEq] at h
          subst h
          exact Nat.lt_of_lt_of_eq (Nat.lt_succ_self _) hlen.symm

/-- Discard stale heap entries until a current one surfaces. -/
def pickBest (g : GlobalIndex α) : Option α × GlobalIndex α := (pickBestLoop pq).run g

/-- A successful `pickBest` takes at least one entry from the heap. -/
theorem length_pickBest_lt (g : GlobalIndex α) :
    (g.pickBest pq).1.isSome → (g.pickBest pq).2.heap.length < g.heap.length := by
  refine (pickBestLoop pq).run_induction
    (P := fun g r => r.1.isSome → r.2.heap.length < g.heap.length) ?_ ?_ g
  · intro g r hb hsome
    cases hp : pq.pop g.heap with
    | none =>
        simp only [pickBestLoop, hp, Sum.inr.injEq] at hb
        rw [← hb] at hsome
        contradiction
    | some p =>
        have hlen := pq.length_of_pop (r := p.2) hp
        simp only [pickBestLoop, hp] at hb
        split at hb
        · rw [← Sum.inr.inj hb]
          simp only
          omega
        · contradiction
  · intro g g' r hb hr hsome
    exact Nat.lt_trans (hr hsome) ((pickBestLoop pq).decreases hb)

theorem length_pickBest_le (g : GlobalIndex α) :
    (g.pickBest pq).2.heap.length ≤ g.heap.length := by
  refine (pickBestLoop pq).run_induction
    (P := fun g r => r.2.heap.length ≤ g.heap.length) ?_ ?_ g
  · intro g r hb
    cases hp : pq.pop g.heap with
    | none =>
        simp only [pickBestLoop, hp, Sum.inr.injEq] at hb
        exact hb ▸ Nat.le_refl _
    | some p =>
        have hlen := pq.length_of_pop (r := p.2) hp
        simp only [pickBestLoop, hp] at hb
        split at hb
        · rw [← Sum.inr.inj hb]
          simp only
          omega
        · contradiction
  · intro g g' r hb hr
    exact Nat.le_trans hr (Nat.le_of_lt ((pickBestLoop pq).decreases hb))

/-! ## the index as a set of tables -/

/-- A heap entry is current when it carries the latest version of its table. -/
def Current (g : GlobalIndex α) (k : Key α) : Prop :=
  g.latestVersion.get? k.tbl = some k.version

/-- The tables with a current entry: those the index can still return. -/
def pending (g : GlobalIndex α) : Set α := {t | ∃ k ∈ g.heap, k.tbl = t ∧ g.Current k}

/-- The tables that were ever upserted. -/
def entered (g : GlobalIndex α) : Set α := {t | g.latestVersion.get? t ≠ none}

/-- No two entries of a table share a version, and none is newer than the
latest one. -/
structure WF (g : GlobalIndex α) : Prop where
  nodup : (g.heap.map fun k => (k.tbl, k.version)).Nodup
  le_latest : ∀ k ∈ g.heap, ∃ v, g.latestVersion.get? k.tbl = some v ∧ k.version ≤ v

omit [DecidableEq α] in
/-- Under `WF` entries are determined by table and version. -/
theorem not_mem_of_nodup_cons {l : List (Key α)} {top : Key α}
    (h : ((top :: l).map fun k => (k.tbl, k.version)).Nodup) :
    ∀ k ∈ l, k.tbl = top.tbl → k.version ≠ top.version := by
  intro k hk ht hv
  rw [List.map_cons, List.nodup_cons] at h
  exact h.1 (List.mem_map.mpr ⟨k, hk, by rw [ht, hv]⟩)

theorem wf_empty : (({} : GlobalIndex α)).WF := ⟨List.nodup_nil, by simp⟩

@[simp] theorem pending_empty : pending ({} : GlobalIndex α) = ∅ := by simp [pending]

theorem wf_upsert {g : GlobalIndex α} (h : g.WF) (t : α) (p : QueryPriority) (tick seq : Nat) :
    (g.upsert pq (some t) p tick seq).WF := by
  have hperm := pq.push_perm ⟨p, tick, seq, t, (g.latestVersion.get? t).getD 0 + 1⟩ g.heap
  have hnew : ∀ k ∈ g.heap, k.tbl = t → k.version < (g.latestVersion.get? t).getD 0 + 1 := by
    intro k hk ht
    obtain ⟨v, hv, hle⟩ := h.le_latest k hk
    rw [← ht, hv, Option.getD_some]
    exact Nat.lt_succ_of_le hle
  constructor
  · refine (hperm.map _).nodup_iff.mpr ?_
    rw [List.map_cons, List.nodup_cons]
    refine ⟨fun hm => ?_, h.nodup⟩
    obtain ⟨k, hk, he⟩ := List.mem_map.mp hm
    rw [Prod.mk.injEq] at he
    exact Nat.lt_irrefl _ (he.2 ▸ hnew k hk he.1)
  · intro k hk
    rcases List.mem_cons.mp (hperm.mem_iff.mp hk) with rfl | hk
    · exact ⟨_, FiniteMap.get?_set_self _ _ _, Nat.le_refl _⟩
    · simp only [upsert, FiniteMap.get?_set]
      split
      · next ht => exact ⟨_, rfl, Nat.le_of_lt (hnew k hk ht)⟩
      · exact h.le_latest k hk

/-- `upsert` makes the table pending and leaves the others as they were. -/
theorem pending_upsert (g : GlobalIndex α) (t : α) (p : QueryPriority)
    (tick seq : Nat) : (g.upsert pq (some t) p tick seq).pending = insert t g.pending := by
  have hperm := pq.push_perm ⟨p, tick, seq, t, (g.latestVersion.get? t).getD 0 + 1⟩ g.heap
  ext t'
  simp only [pending, Set.mem_ofPred_eq, Set.mem_insert_iff]
  constructor
  · rintro ⟨k, hk, rfl, hc⟩
    rcases List.mem_cons.mp (hperm.mem_iff.mp hk) with rfl | hk
    · exact .inl rfl
    · by_cases ht : k.tbl = t
      · exact .inl ht
      · refine .inr ⟨k, hk, rfl, ?_⟩
        simpa only [Current, upsert, FiniteMap.get?_set_of_ne _ _ ht] using hc
  · rintro (rfl | ⟨k, hk, rfl, hc⟩)
    · exact ⟨_, hperm.mem_iff.mpr List.mem_cons_self, rfl, FiniteMap.get?_set_self _ _ _⟩
    · by_cases ht : k.tbl = t
      · -- an older entry of `t` is stale now, but the pushed one is current
        exact ⟨_, hperm.mem_iff.mpr List.mem_cons_self, ht.symm, FiniteMap.get?_set_self _ _ _⟩
      · refine ⟨k, hperm.mem_iff.mpr (List.mem_cons_of_mem _ hk), rfl, ?_⟩
        simpa only [Current, upsert, FiniteMap.get?_set_of_ne _ _ ht] using hc

theorem pending_subset_entered (g : GlobalIndex α) : g.pending ⊆ g.entered := by
  rintro t ⟨k, _, rfl, hc⟩
  exact fun hn => by rw [hc] at hn; contradiction

@[simp] theorem entered_empty : entered ({} : GlobalIndex α) = ∅ := by
  ext t
  simp [entered]

theorem entered_upsert (g : GlobalIndex α) (t : α) (p : QueryPriority) (tick seq : Nat) :
    (g.upsert pq (some t) p tick seq).entered = insert t g.entered := by
  ext t'
  simp only [entered, upsert, FiniteMap.get?_set, Set.mem_ofPred_eq, Set.mem_insert_iff]
  split
  · next ht => simp [ht]
  · next ht => simp [ht]

/-- `pickBest` keeps the versions. -/
theorem entered_pickBest (g : GlobalIndex α) : (g.pickBest pq).2.entered = g.entered := by
  refine (pickBestLoop pq).run_induction (P := fun g r => r.2.entered = g.entered) ?_ ?_ g
  · intro g r hb
    cases hp : pq.pop g.heap with
    | none =>
        simp only [pickBestLoop, hp, Sum.inr.injEq] at hb
        rw [← hb]
    | some p =>
        simp only [pickBestLoop, hp] at hb
        split at hb
        · rw [← Sum.inr.inj hb]
          rfl
        · contradiction
  · intro g g' r hb hr
    cases hp : pq.pop g.heap with
    | none => simp only [pickBestLoop, hp] at hb; contradiction
    | some p =>
        simp only [pickBestLoop, hp] at hb
        split at hb
        · contradiction
        · rw [hr, ← Sum.inl.inj hb]
          rfl

/-- What one call of `pickBest` does to the set of pending tables. -/
inductive PickSpec (g : GlobalIndex α) : Option α × GlobalIndex α → Prop
  | empty (g') : g.pending = ∅ → g'.pending = ∅ → g'.WF →
      g'.latestVersion = g.latestVersion → g'.heap.length ≤ g.heap.length → PickSpec g (none, g')
  | picked (t g') : t ∈ g.pending → g'.pending = g.pending \ {t} → g'.WF →
      g'.latestVersion = g.latestVersion → g'.heap.length < g.heap.length →
      PickSpec g (some t, g')

/-- Dropping a stale entry from the heap changes no pending table. -/
theorem pending_pop_stale {g : GlobalIndex α} {top : Key α} {rest : List (Key α)}
    (hperm : g.heap.Perm (top :: rest)) (hs : ¬ g.Current top) :
    pending { g with heap := rest } = g.pending := by
  ext t
  simp only [pending, Set.mem_ofPred_eq]
  constructor
  · rintro ⟨k, hk, ht, hc⟩
    exact ⟨k, hperm.mem_iff.mpr (List.mem_cons_of_mem _ hk), ht, hc⟩
  · rintro ⟨k, hk, ht, hc⟩
    rcases List.mem_cons.mp (hperm.mem_iff.mp hk) with rfl | hk
    · exact (hs hc).elim
    · exact ⟨k, hk, ht, hc⟩

/-- Taking the current entry of a table from the heap takes the table out of
the pending ones. -/
theorem pending_pop_current {g : GlobalIndex α} (h : g.WF) {top : Key α} {rest : List (Key α)}
    (hperm : g.heap.Perm (top :: rest)) (hc : g.Current top) :
    pending { g with heap := rest } = g.pending \ {top.tbl} := by
  have hnd := not_mem_of_nodup_cons ((hperm.map _).nodup_iff.mp h.nodup)
  ext t
  simp only [pending, Set.mem_ofPred_eq, Set.mem_sdiff, Set.mem_singleton_iff]
  constructor
  · rintro ⟨k, hk, rfl, hck⟩
    refine ⟨⟨k, hperm.mem_iff.mpr (List.mem_cons_of_mem _ hk), rfl, hck⟩, fun ht => ?_⟩
    have hv : some k.version = some top.version := by rw [← hck, ← hc, ht]
    exact hnd k hk ht (Option.some.inj hv)
  · rintro ⟨⟨k, hk, rfl, hck⟩, hne⟩
    rcases List.mem_cons.mp (hperm.mem_iff.mp hk) with rfl | hk
    · exact (hne rfl).elim
    · exact ⟨k, hk, rfl, hck⟩

theorem wf_pop {g : GlobalIndex α} (h : g.WF) {top : Key α} {rest : List (Key α)}
    (hperm : g.heap.Perm (top :: rest)) : WF { g with heap := rest } where
  nodup := (List.nodup_cons.mp ((hperm.map _).nodup_iff.mp h.nodup)).2
  le_latest k hk := h.le_latest k (hperm.mem_iff.mpr (List.mem_cons_of_mem _ hk))

/-- **The index is a set of pending tables**: `pickBest` returns one of them
and removes it, and returns none only when there is none. -/
theorem pickBest_spec {g : GlobalIndex α} (h : g.WF) : PickSpec g (g.pickBest pq) := by
  revert h
  refine (pickBestLoop pq).run_induction (P := fun g r => g.WF → PickSpec g r) ?_ ?_ g
  · intro g r hb h
    cases hp : pq.pop g.heap with
    | none =>
        have hnil := pq.pop_eq_none_iff.mp hp
        have hempty : g.pending = ∅ := by simp [pending, hnil]
        simp only [pickBestLoop, hp, Sum.inr.injEq] at hb
        exact hb ▸ .empty g hempty hempty h rfl (Nat.le_refl _)
    | some p =>
        obtain ⟨top, rest⟩ := p
        have hperm := pq.perm_of_pop hp
        simp only [pickBestLoop, hp] at hb
        split at hb
        · next hc =>
            rw [Sum.inr.injEq] at hb
            refine hb ▸ .picked top.tbl _ ⟨top, hperm.mem_iff.mpr List.mem_cons_self, rfl, hc⟩
              (pending_pop_current h hperm hc) (wf_pop h hperm) rfl ?_
            exact Nat.lt_of_lt_of_eq (Nat.lt_succ_self _) (pq.length_of_pop hp).symm
        · contradiction
  · intro g g' r hb hr h
    cases hp : pq.pop g.heap with
    | none => simp only [pickBestLoop, hp] at hb; contradiction
    | some p =>
        obtain ⟨top, rest⟩ := p
        have hperm := pq.perm_of_pop hp
        have hlen := pq.length_of_pop hp
        simp only [pickBestLoop, hp] at hb
        split at hb
        · contradiction
        · next hs =>
            rw [Sum.inl.injEq] at hb
            subst hb
            have hpend := pending_pop_stale hperm hs
            cases hr (wf_pop h hperm) with
            | empty g' he he' hwf hl hle =>
                exact .empty g' (hpend ▸ he) he' hwf hl (by simp only at hle; omega)
            | picked t g' ht he hwf hl hlt =>
                exact .picked t g' (hpend ▸ ht) (hpend ▸ he) hwf hl (by simp only at hlt; omega)

end GlobalIndex

end LemonDB
