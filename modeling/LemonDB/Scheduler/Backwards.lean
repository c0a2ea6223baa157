import LemonDB.Scheduler.Dependencies

/-!
# LemonDB.Scheduler.Backwards

Dependencies point strictly backwards, except for a COPYTABLE of a table to
itself: its second mark finds the entry that its first one has left.
-/

namespace LemonDB

/-- A COPYTABLE with one table as its source and its destination. -/
def ScheduledItem.CopiesToItself (x : ScheduledItem) : Prop :=
  x.type = .copyTable ∧ x.query.newTable = x.tableId

instance (x : ScheduledItem) : Decidable x.CopiesToItself := inferInstanceAs (Decidable (_ ∧ _))

/-- All recorded dependencies are earlier than the item. -/
def ScheduledItem.PointsBackwards (x : ScheduledItem) : Prop :=
  ∀ d ∈ x.depends.dependsOn, d < x.seq

instance (x : ScheduledItem) : Decidable x.PointsBackwards :=
  inferInstanceAs (Decidable (∀ d ∈ x.depends.dependsOn, d < x.seq))

namespace DependencyManager

/-- Mark items with their tags, one after the other. -/
def markEach (hashOrder : List String → List String) :
    List (ScheduledItem × QueryType) → DependencyManager → List ScheduledItem
  | [], _ => []
  | (item, tag) :: items, dm =>
      let (item, dm) := dm.markScheduled hashOrder item tag
      item :: markEach hashOrder items dm

variable (hashOrder : List String → List String) (dm : DependencyManager) (x : ScheduledItem)
  (tag : QueryType)

@[simp] theorem seq_markScheduled : (dm.markScheduled hashOrder x tag).1.seq = x.seq := by
  obtain ⟨_, _, h⟩ := TaskQueue.markScheduled_same hashOrder dm x tag
  rw [h]

/-- What is recorded for a COPYTABLE. -/
theorem depends_markScheduled_copyTable (hty : x.type = .copyTable) :
    (dm.markScheduled hashOrder x tag).1.depends = .copyTable
      ⟨(dm.lastScheduledTable.entry x.tableId).2,
        ((dm.lastScheduledTable.mark x.tableId x.seq tag).2.entry x.query.newTable).2,
        x.query.newTable⟩ := by
  unfold markScheduled
  rw [hty]
  rfl

theorem copiesToItself_of_selfCopy (hty : x.type.isMarked = true)
    (h : (dm.markScheduled hashOrder x tag).1.SelfCopy) : x.CopiesToItself := by
  obtain ⟨d, hd, hself⟩ := h
  unfold markScheduled at hd hself
  cases h : x.type with
  | copyTable =>
      simp only [h, DependencyPayload.copyTable.injEq] at hd hself
      exact ⟨h, by rw [← hd] at hself; exact hself⟩
  | load =>
      simp only [h] at hd
      split at hd <;> contradiction
  | dump =>
      simp only [h] at hd
      contradiction
  | drop =>
      simp only [h] at hd
      contradiction
  | _ =>
      rw [h] at hty
      contradiction

variable (hlt : ∀ k, dm.entrySeq k < x.seq)

include hlt

/-- One item, behind all that was marked before. -/
theorem pointsBackwards_iff (hty : x.type.isMarked = true) :
    (dm.markScheduled hashOrder x tag).1.PointsBackwards ↔ ¬ x.CopiesToItself := by
  have hm := marked_markScheduled hashOrder dm x tag hty fun k => .inl (hlt k)
  have hseq := seq_markScheduled hashOrder dm x tag
  constructor
  · rintro hback ⟨hcopy, hself⟩
    have hless : (dm.lastScheduledTable.entry x.tableId).2 < x.seq := hlt (.table, x.tableId)
    have hentry := ScheduledMap.entry_mark dm.lastScheduledTable x.tableId x.tableId x.seq tag
    rw [if_pos rfl, Nat.max_eq_right (Nat.le_of_lt hless)] at hentry
    have hdep := depends_markScheduled_copyTable hashOrder dm x tag hcopy
    rw [hself, hentry] at hdep
    have hown := hback x.seq (by simp [hdep, DependencyPayload.dependsOn])
    rw [hseq] at hown
    exact Nat.lt_irrefl _ hown
  · intro hother d hd
    obtain ⟨k, hk⟩ := DependencyPayload.exists_waits (dm.markScheduled hashOrder x tag).1.tableId hd
    rw [hseq]
    obtain rfl | rfl | ⟨hself, _⟩ := hm.waits k d hk
    · exact Nat.zero_lt_of_lt (hlt k)
    · exact hlt k
    · exact absurd (copiesToItself_of_selfCopy hashOrder dm x tag hty hself) hother

/-- The entries grow up to the item. -/
theorem entrySeq_markScheduled_le (hty : x.type.isMarked = true) (k : DepKey) :
    (dm.markScheduled hashOrder x tag).2.entrySeq k ≤ x.seq := by
  have hm := marked_markScheduled hashOrder dm x tag hty fun k => .inl (hlt k)
  obtain h | ⟨_, h, _⟩ := hm.entry k
  · rw [h]
    exact Nat.le_of_lt (hlt k)
  · rw [h, seq_markScheduled]

omit hlt in
theorem markEach_iff {items : List (ScheduledItem × QueryType)}
    (hty : ∀ p ∈ items, p.1.type.isMarked = true)
    (hinc : (items.map fun p => p.1.seq).Pairwise (· < ·)) :
    (dm : DependencyManager) → (∀ p ∈ items, ∀ k, dm.entrySeq k < p.1.seq) →
    ((∀ y ∈ markEach hashOrder items dm, y.PointsBackwards) ↔
      ∀ p ∈ items, ¬ p.1.CopiesToItself) := by
  induction items with
  | nil => simp [markEach]
  | cons p items ih =>
      intro dm hlt
      obtain ⟨x, tag⟩ := p
      obtain ⟨hty, htys⟩ := List.forall_mem_cons.mp hty
      obtain ⟨hlt, hlts⟩ := List.forall_mem_cons.mp hlt
      obtain ⟨hless, hinc⟩ := List.pairwise_cons.mp hinc
      have ih := ih htys hinc (dm.markScheduled hashOrder x tag).2 fun p hp k =>
        Nat.lt_of_le_of_lt (entrySeq_markScheduled_le hashOrder dm x tag hlt hty k)
          (hless _ (List.mem_map_of_mem hp))
      have hone := pointsBackwards_iff hashOrder dm x tag hlt hty
      simp only [markEach, List.forall_mem_cons, hone, ih]

end DependencyManager

/-- One item waits for another one of the list. -/
def WaitsFor (items : List ScheduledItem) (x y : ScheduledItem) : Prop :=
  x ∈ items ∧ y ∈ items ∧ y.seq ∈ x.depends.dependsOn

/-- Items whose dependencies point backwards do not wait in a cycle. -/
theorem not_waitsFor_cycle {items : List ScheduledItem} (h : ∀ x ∈ items, x.PointsBackwards)
    (x : ScheduledItem) : ¬ Relation.TransGen (WaitsFor items) x x := by
  have hless : ∀ y, Relation.TransGen (WaitsFor items) x y → y.seq < x.seq := by
    intro y hy
    induction hy with
    | single hw => exact h _ hw.1 _ hw.2.2
    | tail _ hw ih => exact Nat.lt_trans (h _ hw.1 _ hw.2.2) ih
  exact fun hx => Nat.lt_irrefl _ (hless x hx)

/-- **Dependencies point strictly backwards**, and so no items wait in a cycle, if and
only if no COPYTABLE copies a table to itself. -/
theorem dependencies_backwards_iff (hashOrder : List String → List String)
    {items : List (ScheduledItem × QueryType)} (hty : ∀ p ∈ items, p.1.type.isMarked = true)
    (hinc : (items.map fun p => p.1.seq).Pairwise (· < ·)) (hpos : ∀ p ∈ items, 1 ≤ p.1.seq) :
    ((∀ y ∈ DependencyManager.markEach hashOrder items {}, y.PointsBackwards) ∧
      ∀ y, ¬ Relation.TransGen (WaitsFor (DependencyManager.markEach hashOrder items {})) y y) ↔
    ∀ p ∈ items, ¬ p.1.CopiesToItself := by
  have hzero : ∀ k, ({} : DependencyManager).entrySeq k = 0 := by
    rintro ⟨ty, key⟩
    cases ty <;> rfl
  rw [← DependencyManager.markEach_iff hashOrder hty hinc {} fun p hp k =>
    Nat.lt_of_le_of_lt (Nat.le_of_eq (hzero k)) (hpos p hp)]
  exact ⟨And.left, fun h => ⟨h, not_waitsFor_cycle h⟩⟩

/-- A DUMP, and a LOAD that waits for it. -/
theorem dependencies_backwards_iff_pending :
    ((∀ y ∈ DependencyManager.markEach id
        [({ seq := 1, tableId := "T", type := .dump, query := .dump "T" "f" }, .dump),
          ({ seq := 2, tableId := "", type := .load, query := .load "" "f" }, .load)] {},
        y.PointsBackwards) ∧
      ∀ y, ¬ Relation.TransGen (WaitsFor (DependencyManager.markEach id
        [({ seq := 1, tableId := "T", type := .dump, query := .dump "T" "f" }, .dump),
          ({ seq := 2, tableId := "", type := .load, query := .load "" "f" }, .load)] {})) y y) :=
  (dependencies_backwards_iff id (by decide) (by decide) (by decide)).mpr (by decide)

/-- `COPYTABLE A A` waits for itself. -/
theorem not_dependencies_backwards : ¬ ∀ (hashOrder : List String → List String)
    (items : List (ScheduledItem × QueryType)), (∀ p ∈ items, p.1.type.isMarked = true) →
    (items.map fun p => p.1.seq).Pairwise (· < ·) → (∀ p ∈ items, 1 ≤ p.1.seq) →
    ∀ y ∈ DependencyManager.markEach hashOrder items {}, y.PointsBackwards := by
  intro h
  have hall := h id [({ seq := 1, tableId := "A", type := .copyTable, query := .copyTable "A" "A" },
    .copyTable)] (by decide) (by decide) (by decide)
  revert hall
  decide

end LemonDB
