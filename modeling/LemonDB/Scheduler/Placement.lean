import LemonDB.Scheduler.Conservation

/-!
# LemonDB.Scheduler.Placement

What each container holds: the load queue holds LOADs, the queue of a table
holds the tasks of that table, the heaps hold tasks that were marked.  The
lemmas about how the operations change the containers are stated here once.
-/

namespace LemonDB

/-- The item without its flag, which registration sets on queued items. -/
def ScheduledItem.unflag (x : ScheduledItem) : ScheduledItem := { x with droppedFlag := false }

@[simp] theorem ScheduledItem.unflag_seq (x : ScheduledItem) : x.unflag.seq = x.seq := rfl

@[simp] theorem ScheduledItem.unflag_type (x : ScheduledItem) : x.unflag.type = x.type := rfl

@[simp] theorem ScheduledItem.unflag_tableId (x : ScheduledItem) :
    x.unflag.tableId = x.tableId := rfl

namespace DependencyManager

/-- The items that wait on a key are those of the heap that was put there last. -/
theorem waitingOn_setWaiting (dm : DependencyManager) (type type' : DependencyType)
    (key key' : String) (heap : WaitingHeap) :
    (dm.setWaiting type key heap).waitingOn type' key' =
      if type' = type ∧ key' = key then heap else dm.waitingOn type' key' := by
  cases type <;> cases type' <;> cases heap <;>
    simp [setWaiting, waitingOn, FiniteMap.get?_set, FiniteMap.get?_remove] <;> grind

/-- An item that starts to wait on a key joins those that wait there. -/
theorem mem_waitingOn_addWait (dm : DependencyManager) (type type' : DependencyType)
    (key key' : String) (x y : ScheduledItem) :
    y ∈ (dm.addWait type key x).waitingOn type' key' ↔
      y ∈ dm.waitingOn type' key' ∨ (y = x ∧ type' = type ∧ key' = key) := by
  rw [addWait, waitingOn_setWaiting]
  split
  · next h =>
      obtain ⟨rfl, rfl⟩ := h
      rw [(List.perm_orderedInsert _ x _).mem_iff, List.mem_cons]
      grind
  · next h => grind

theorem lastCompletedFor_setWaiting (dm : DependencyManager) (type type' : DependencyType)
    (key key' : String) (heap : WaitingHeap) :
    (dm.setWaiting type key heap).lastCompletedFor type' key' =
      dm.lastCompletedFor type' key' := by
  cases type <;> cases type' <;> cases heap <;> rfl

theorem lastCompletedFor_addWait (dm : DependencyManager) (type type' : DependencyType)
    (key key' : String) (x : ScheduledItem) :
    (dm.addWait type key x).lastCompletedFor type' key' = dm.lastCompletedFor type' key' :=
  dm.lastCompletedFor_setWaiting type type' key key' _

theorem lastCompletedFor_setLastCompleted (dm : DependencyManager) (type type' : DependencyType)
    (key key' : String) (n : Nat) : (dm.setLastCompleted type key n).lastCompletedFor type' key' =
      if type' = type ∧ key' = key then n else dm.lastCompletedFor type' key' := by
  cases type <;> cases type' <;>
    simp [setLastCompleted, lastCompletedFor, FiniteMap.get?_set] <;> grind

end DependencyManager

namespace TaskQueue

variable (env : Env) (q : TaskQueue)

/-! ## the global index -/

/-- Entering a table queue: nothing changes but the index. -/
theorem upsertHead_eq (t : String) : ∃ g, q.upsertHead env t = q.setIndex g ∧
    g.pending = (if q.queueOf t = [] then q.globalIndex.pending
      else insert t q.globalIndex.pending) ∧
    (q.globalIndex.WF → g.WF) ∧
    g.entered = (if q.queueOf t = [] then q.globalIndex.entered
      else insert t q.globalIndex.entered) := by
  unfold upsertHead
  cases hq : q.queueOf t with
  | nil => exact ⟨q.globalIndex, rfl, by simp, id, by simp⟩
  | cons head rest =>
      exact ⟨_, rfl, by simp [GlobalIndex.pending_upsert],
        fun h => GlobalIndex.wf_upsert env.heap h t _ _ _, by simp [GlobalIndex.entered_upsert]⟩

/-- Entering several table queues: those that are not empty are in the index then. -/
theorem foldl_upsertHead_eq (ts : List String) : ∃ g,
    ts.foldl (upsertHead env) q = q.setIndex g ∧
    g.pending = q.globalIndex.pending ∪ {t | t ∈ ts ∧ q.queueOf t ≠ []} ∧
    (q.globalIndex.WF → g.WF) ∧
    g.entered = q.globalIndex.entered ∪ {t | t ∈ ts ∧ q.queueOf t ≠ []} := by
  induction ts generalizing q with
  | nil => exact ⟨q.globalIndex, rfl, by simp, id, by simp⟩
  | cons t ts ih =>
      obtain ⟨g₁, h₁, hp₁, hw₁, he₁⟩ := q.upsertHead_eq env t
      obtain ⟨g, h, hp, hw, he⟩ := ih (q.setIndex g₁)
      rw [List.foldl_cons, h₁]
      refine ⟨g, h, ?_, fun hwf => hw (hw₁ hwf), ?_⟩
      · rw [hp]
        ext t'
        by_cases hq : q.queueOf t = [] <;> simp [setIndex, hp₁, hq] <;> grind [queueOf]
      · rw [he]
        ext t'
        by_cases hq : q.queueOf t = [] <;> simp [setIndex, he₁, hq] <;> grind [queueOf]

/-- The release of a barrier. -/
theorem release_eq : ∃ g,
    q.release env = { q.setIndex g with waitingTables := [], loadBlocked := false } ∧
    g.pending = q.globalIndex.pending ∪ {t | t ∈ q.waitingTables ∧ q.queueOf t ≠ []} ∧
    (q.globalIndex.WF → g.WF) ∧
    g.entered = q.globalIndex.entered ∪ {t | t ∈ q.waitingTables ∧ q.queueOf t ≠ []} := by
  obtain ⟨g, h, hp⟩ := q.foldl_upsertHead_eq env q.waitingTables
  exact ⟨g, by rw [release, h], hp⟩

/-- Registering a table: its queue gets flags and is entered into the index,
unless it is empty or the table was registered before. -/
theorem registerTableQueue_eq (t : String) (item : ScheduledItem) : ∃ tables g,
    q.registerTableQueue env t item = { q with tables, globalIndex := g } ∧
    (∀ t', (({ q with tables, globalIndex := g } : TaskQueue).queueOf t').map (·.unflag) =
      (q.queueOf t').map (·.unflag)) ∧
    (g.pending = q.globalIndex.pending ∨ g.pending = insert t q.globalIndex.pending) ∧
    (q.globalIndex.WF → g.WF) ∧
    (((∃ tbl, q.tables.get? t = some tbl ∧ tbl.registered = true) ∨ q.queueOf t = []) ∧
        g.pending = q.globalIndex.pending ∧ g.entered = q.globalIndex.entered ∨
      q.queueOf t ≠ [] ∧ g.pending = insert t q.globalIndex.pending ∧
        g.entered = insert t q.globalIndex.entered) := by
  unfold registerTableQueue
  dsimp only
  split
  · next hr =>
      refine ⟨q.tables, q.globalIndex, rfl, fun _ => rfl, .inl rfl, id, .inl ⟨.inl ?_, rfl, rfl⟩⟩
      cases ht : q.tables.get? t with
      | none => simp [ht] at hr
      | some tbl => exact ⟨tbl, rfl, by simpa [ht] using hr⟩
  · generalize hflag : (fun pending : ScheduledItem =>
      if pending.seq < item.seq then { pending with droppedFlag := true } else pending) = flag
    have hun : ∀ x, (flag x).unflag = x.unflag := by
      intro x
      rw [← hflag]
      dsimp only
      split <;> rfl
    generalize htbl :
      TableQueue.mk true item.seq (((q.tables.get? t).getD {}).queue.map flag) = tbl
    obtain ⟨g, h, hp, hw, he⟩ := (q.setTable t tbl).upsertHead_eq env t
    have hq : ∀ t', ((q.setTable t tbl).queueOf t').map (·.unflag) =
        (q.queueOf t').map (·.unflag) := by
      intro t'
      simp only [queueOf, setTable, FiniteMap.get?_set]
      split
      · next ht =>
          rw [ht, ← htbl, Option.getD_some, List.map_map]
          exact List.map_congr_left fun x _ => hun x
      · rfl
    refine ⟨q.tables.set t tbl, g, h, hq, ?_, hw, ?_⟩
    · rw [hp]
      split
      · exact .inl rfl
      · exact .inr rfl
    · by_cases hnil : (q.setTable t tbl).queueOf t = []
      · rw [if_pos hnil] at hp he
        have hempty := hq t
        rw [hnil, List.map_nil, eq_comm, List.map_eq_nil_iff] at hempty
        exact .inl ⟨.inr hempty, hp, he⟩
      · rw [if_neg hnil] at hp he
        have hhead := hq t
        exact .inr ⟨fun hempty => hnil (by simpa [hempty] using hhead), hp, he⟩

/-! ## the queues and the heaps -/

/-- A woken item goes in front of the queue of its table. -/
theorem queueOf_requeue (x : ScheduledItem) (t : String) : (q.requeue env x).queueOf t =
    if t = x.tableId then x :: q.queueOf x.tableId else q.queueOf t :=
  q.queueOf_setQueue x.tableId t _

theorem queueOf_unregister {t : String} {tbl : TableQueue} (h : q.tables.get? t = some tbl)
    (t' : String) :
    (q.setTable t { tbl with registered := false }).queueOf t' = q.queueOf t' := by
  simp only [setTable, queueOf, FiniteMap.get?_set]
  split
  · next ht => simp [ht, h]
  · rfl

/-- What is left on a heap, and what was taken from it. -/
theorem mem_waitingOn_advance {q : TaskQueue} {type : DependencyType} {key : String} {n : Nat}
    {popped rest : List ScheduledItem}
    (h : DependencyManager.popReady type n (q.depManager.waitingOn type key) = .ok (popped, rest)) :
    (∀ x ∈ popped, x ∈ q.depManager.waitingOn type key) ∧
    (∀ type' key', ∀ x ∈ (q.advance type key n rest).depManager.waitingOn type' key',
      x ∈ q.depManager.waitingOn type' key') := by
  have happ := DependencyManager.popReady_append h
  constructor
  · intro x hx
    rw [← happ]
    exact List.mem_append_left _ hx
  · intro type' key' x hx
    simp only [advance, DependencyManager.waitingOn_setWaiting,
      DependencyManager.waitingOn_setLastCompleted] at hx
    split at hx
    · next hk =>
        rw [hk.1, hk.2, ← happ]
        exact List.mem_append_right _ hx
    · exact hx

end TaskQueue

namespace Stage

/-- What each container holds. -/
structure Placed (s : Stage) : Prop where
  loads : ∀ x ∈ s.queue.loadQueue, x.type = .load
  queued : ∀ t, ∀ x ∈ s.queue.queueOf t, x.type.isQueued = true ∧ x.tableId = t
  barriers : ∀ x ∈ s.queue.barriers, x.type.isBarrier = true
  waiting : ∀ type key, ∀ x ∈ s.queue.depManager.waitingOn type key, x.type.isMarked = true
  transit : ∀ x ∈ s.transit, x.type.isMarked = true
  fits : ∀ i ∈ s.idents, i.depends.fits i.type = true

/-- An item that the scheduler holds has the payload of its type. -/
theorem Placed.fits_of_mem {s : Stage} (h : s.Placed) {x : ScheduledItem}
    (hx : x ∈ s.queue.items + s.transit) : x.Fits :=
  h.fits x.ident (Multiset.mem_add.mpr (.inl (Multiset.mem_map_of_mem _ hx)))

theorem Placed.fits_of_stored {s : Stage} (h : s.Placed) {x : ScheduledItem}
    (hx : x ∈ s.queue.stored) : x.Fits :=
  h.fits_of_mem (mem_items_of_stored hx)

theorem Placed.fits_of_queueOf {s : Stage} (h : s.Placed) {x : ScheduledItem} {t : String}
    (hx : x ∈ s.queue.queueOf t) : x.Fits :=
  h.fits_of_stored (TaskQueue.mem_stored_of_queueOf hx)

/-- Only a marked task has something to wait for. -/
theorem isMarked_of_waits {q : TaskQueue} {x : ScheduledItem} {type : DependencyType}
    {key : String} (hfit : x.Fits) (hw : q.Waits x type key) : x.type.isMarked = true := by
  obtain ⟨d, hd, _⟩ := hw
  unfold ScheduledItem.Fits at hfit
  cases hty : x.type <;> cases hdep : x.depends <;>
    simp_all [DependencyPayload.fits, QueryType.isMarked, ScheduledItem.waits,
      DependencyPayload.waits]

/-- Of the tasks that are recorded, all but the LOADs go through table queues. -/
theorem isQueued_of_isMarked {type : QueryType} (hm : type.isMarked = true) (hl : type ≠ .load) :
    type.isQueued = true := by
  cases type <;> simp_all [QueryType.isMarked, QueryType.isQueued, QueryType.isBarrier]

/-- No barrier is on its way. -/
theorem Placed.isBarrier_of_transit {s : Stage} (h : s.Placed) {x : ScheduledItem}
    (hx : x ∈ s.transit) : x.type.isBarrier = false := by
  have hm := h.transit x hx
  cases hty : x.type <;> simp_all [QueryType.isMarked, QueryType.isBarrier]

/-- No barrier is in a table queue. -/
theorem Placed.isBarrier_of_queueOf {s : Stage} (h : s.Placed) {x : ScheduledItem} {t : String}
    (hx : x ∈ s.queue.queueOf t) : x.type.isBarrier = false := by
  have hq := (h.queued t x hx).1
  simp only [QueryType.isQueued, Bool.and_eq_true, Bool.not_eq_true'] at hq
  exact hq.1

/-- Popping a head brings no items into any queue. -/
theorem queueOf_setQueue_subset {q : TaskQueue} {t : String} {head : ScheduledItem}
    {rest : List ScheduledItem} (h : q.queueOf t = head :: rest) (t' : String) (x : ScheduledItem)
    (hx : x ∈ (q.setQueue t rest).queueOf t') : x ∈ q.queueOf t' := by
  rw [TaskQueue.queueOf_setQueue] at hx
  split at hx
  · next ht =>
      rw [ht, h]
      exact List.mem_cons_of_mem _ hx
  · exact hx

/-- Every move keeps each item where it belongs. -/
theorem placed_move {env : Env} {lossy : Prop} {s s' : Stage} (h : s.Placed)
    (hm : Move env lossy s s') : s'.Placed := by
  have hfits : ∀ i ∈ s'.idents, i.depends.fits i.type = true := by
    rw [idents_move hm]
    exact h.fits
  cases hm with
  | takeLoad front rest hq hb hbar =>
      have hfront : front ∈ s.queue.loadQueue := by rw [hq]; exact List.mem_cons_self
      have hmark : front.type.isMarked = true := by rw [h.loads front hfront]; rfl
      exact { h with
        fits := hfits
        loads := fun x hx => h.loads x (by rw [hq]; exact List.mem_cons_of_mem _ hx)
        transit := List.forall_mem_cons.mpr ⟨hmark, h.transit⟩ }
  | loseLoad x rest hl htr =>
      exact { h with
        fits := hfits
        transit := fun y hy => h.transit y (by rw [htr]; exact List.mem_cons_of_mem _ hy) }
  | park x rest type key htr hw =>
      have hx : x ∈ s.transit := by rw [htr]; exact List.mem_cons_self
      refine { h with
        fits := hfits
        waiting := fun ty k y hy => ?_
        transit := fun y hy => h.transit y (by rw [htr]; exact List.mem_cons_of_mem _ hy) }
      obtain hy | ⟨rfl, _⟩ := (s.queue.depManager.mem_waitingOn_addWait ..).mp hy
      · exact h.waiting ty k y hy
      · exact h.transit y hx
  | parkTable t g head rest type key hc hp hq hb hw =>
      have hhead : head ∈ s.queue.queueOf t := by rw [hq]; exact List.mem_cons_self
      have htail : (s.queue.queueOf t).tail = rest := by rw [hq]; rfl
      refine { h with
        fits := hfits
        queued := fun t' x hx => h.queued t' x (queueOf_setQueue_subset hq t' x (htail ▸ hx))
        waiting := fun ty k y hy => ?_ }
      obtain hy | ⟨rfl, _⟩ := (s.queue.depManager.mem_waitingOn_addWait ..).mp hy
      · exact h.waiting ty k y hy
      · exact isMarked_of_waits (h.fits_of_queueOf hhead) (hw (h.fits_of_queueOf hhead))
  | handLoad x rest d task hc htr hd hr hb =>
      exact { h with
        fits := hfits
        transit := fun y hy => h.transit y (by rw [htr]; exact List.mem_cons_of_mem _ hy) }
  | handTable t g head rest task hc hp hq hbar hr hb =>
      exact { h with
        fits := hfits
        queued := fun t' x hx => h.queued t' x (queueOf_setQueue_subset hq t' x hx) }
  | handBarrier barrier rest task hc hq hrun hheap hl hb =>
      obtain ⟨g, hrel, _⟩ := (s.queue.popBarrier barrier rest).countFetch.release_eq env
      constructor
      case fits => exact hfits
      all_goals simp only [hrel]
      · exact h.loads
      · exact h.queued
      · exact fun x hx => h.barriers x (by rw [hq]; exact List.mem_cons_of_mem _ hx)
      · exact h.waiting
      · exact h.transit
  | register c t hc ht =>
      obtain ⟨tables, g, hreg, hqueue, _⟩ :=
        s.queue.registerTableQueue_eq env t (TaskQueue.placeholder c)
      constructor
      case fits => exact hfits
      all_goals simp only [hreg]
      · exact h.loads
      · intro t' x hx
        have hx' := List.mem_map_of_mem (f := (·.unflag)) hx
        rw [hqueue t'] at hx'
        obtain ⟨y, hy, heq⟩ := List.mem_map.mp hx'
        have hty := congrArg ScheduledItem.type heq
        have htab := congrArg ScheduledItem.tableId heq
        rw [ScheduledItem.unflag_type, ScheduledItem.unflag_type] at hty
        rw [ScheduledItem.unflag_tableId, ScheduledItem.unflag_tableId] at htab
        rw [← hty, ← htab]
        exact h.queued t' y hy
      · exact h.barriers
      · exact h.waiting
      · exact h.transit
  | advance c type key popped rest hc hk hle hp =>
      obtain ⟨hpop, hrest⟩ := TaskQueue.mem_waitingOn_advance hp
      exact { h with
        fits := hfits
        waiting := fun ty k x hx => h.waiting ty k x (hrest ty k x hx)
        transit := fun x hx => (List.mem_append.mp hx).elim (h.transit x)
          fun hx => h.waiting type key x (hpop x hx) }
  | unregister c tbl hc hty htbl =>
      exact { h with
        fits := hfits
        queued := fun t x hx => h.queued t x (by rwa [s.queue.queueOf_unregister htbl] at hx) }
  | requeue x rest htr hty =>
      have hx : x ∈ s.transit := by rw [htr]; exact List.mem_cons_self
      refine { h with
        fits := hfits
        queued := fun t y hy => ?_
        transit := fun y hy => h.transit y (by rw [htr]; exact List.mem_cons_of_mem _ hy) }
      rw [TaskQueue.queueOf_requeue] at hy
      split at hy
      · next ht =>
          subst ht
          obtain rfl | hy := List.mem_cons.mp hy
          · exact ⟨isQueued_of_isMarked (h.transit y hx) hty, rfl⟩
          · exact h.queued _ y hy
      · exact h.queued t y hy
  | resolveLoad x rest d htr hty hd hp =>
      have hall := h.transit
      rw [htr] at hall
      exact { h with fits := hfits, transit := List.forall_mem_cons.mpr (List.forall_mem_cons.mp hall) }
  | requeueLoad x rest htr hty =>
      exact { h with
        fits := hfits
        loads := List.forall_mem_cons.mpr ⟨hty, h.loads⟩
        transit := fun y hy => h.transit y (by rw [htr]; exact List.mem_cons_of_mem _ hy) }
  | reindex c t hc ht =>
      obtain ⟨g, hup, _⟩ := s.queue.upsertHead_eq env t
      constructor
      case fits => exact hfits
      all_goals simp only [hup]
      · exact h.loads
      · exact h.queued
      · exact h.barriers
      · exact h.waiting
      · exact h.transit
  | _ => exact { h with fits := hfits }

theorem placed_preserved (env : Env) (lossy : Prop) : Preserved env lossy Placed where
  move := placed_move
  begin {s k task} h hc hk := { h with
    fits := by
      rw [(idents_preserved env lossy s.idents).begin rfl hc hk]
      exact h.fits }
  finish {s c} h hc := { h with
    fits := by
      rw [(idents_preserved env lossy s.idents).finish rfl hc]
      exact h.fits }

end Stage

/-- Registration puts every item where it belongs. -/
theorem placed_start (env : Env) (tasks : List ParsedQuery) :
    (RunState.start env tasks).stage.Placed := by
  have hreg := TaskQueue.registered_registerAll env tasks
  constructor
  · intro x hx
    have hx : x ∈ (TaskQueue.registerAll env tasks).loadQueue := hx
    rw [hreg.loadQueue] at hx
    simpa using (List.mem_filter.mp hx).2
  · intro t x hx
    have hx : x ∈ (TaskQueue.registerAll env tasks).queueOf t := hx
    rw [hreg.queueOf] at hx
    simpa using (List.mem_filter.mp hx).2
  · intro x hx
    have hx : x ∈ (TaskQueue.registerAll env tasks).barriers := hx
    rw [hreg.barriers] at hx
    exact (List.mem_filter.mp hx).2
  · intro type key x hx
    have hx : x ∈ (TaskQueue.registerAll env tasks).depManager.waitingOn type key := hx
    rw [hreg.depManager, hreg.waiting] at hx
    contradiction
  · exact fun x hx => by contradiction
  · intro i hi
    rw [@idents_run _ (fun _ _ => True) _ _ (.refl _)] at hi
    obtain ⟨x, hx, rfl⟩ := List.mem_map.mp (Multiset.mem_coe.mp hi)
    exact fits_registered env tasks x hx

end LemonDB
