import LemonDB.Scheduler.Accounting
import Mathlib.Data.List.Induction

/-!
# LemonDB.Scheduler.Registration

The state in which a run starts.  Registering the tasks one after the other
gives one item for each of them (`markAll`); `Registered` says which container
holds which item, and `Recorded` what `markScheduled` has put into their
payloads: each recorded dependency is an earlier task whose completion advances
the watermark of that key.
-/

namespace LemonDB

namespace TaskQueue

/-- The item that a parsed query is registered as, before it is marked. -/
def freshItem (prQuery : ParsedQuery) : ScheduledItem where
  seq := prQuery.seq
  priority := prQuery.priority
  tableId := prQuery.tableName
  type := prQuery.type
  query := prQuery.query

/-- The item that a parsed query is registered as, and what is recorded about
it. -/
def markedItem (env : Env) (dm : DependencyManager) (prQuery : ParsedQuery) :
    ScheduledItem × DependencyManager :=
  if prQuery.type.isMarked then
    dm.markScheduled env.hashOrder (freshItem prQuery) prQuery.type
  else (freshItem prQuery, dm)

/-- Put a registered item into its container. -/
def place (q : TaskQueue) (item : ScheduledItem) : TaskQueue :=
  if item.type.isBarrier then { q with barriers := q.barriers ++ [item] }
  else if item.type = .load then { q with loadQueue := q.loadQueue ++ [item] }
  else q.setQueue item.tableId (q.queueOf item.tableId ++ [item])

/-- Marking an item sets its payload, and the flag of a LOAD. -/
theorem markScheduled_same (hashOrder : List String → List String) (dm : DependencyManager)
    (item : ScheduledItem) (tag : QueryType) :
    ∃ depends droppedFlag, (dm.markScheduled hashOrder item tag).1 =
      { item with depends, droppedFlag } := by
  unfold DependencyManager.markScheduled
  split
  · dsimp only
    split
    · exact ⟨_, _, rfl⟩
    · exact ⟨_, _, rfl⟩
  · exact ⟨_, item.droppedFlag, rfl⟩
  · exact ⟨_, item.droppedFlag, rfl⟩
  · exact ⟨_, item.droppedFlag, rfl⟩
  · exact ⟨item.depends, item.droppedFlag, rfl⟩

/-- Registering a task marks its item and puts it into its container. -/
theorem registerTask_eq {env : Env} {q : TaskQueue} (hq : q.quitFlag = false)
    (prQuery : ParsedQuery) :
    q.registerTask env prQuery =
      ({ q with submitted := q.submitted + 1, depManager := (markedItem env q.depManager prQuery).2 }
        : TaskQueue).place (markedItem env q.depManager prQuery).1 := by
  unfold registerTask
  rw [hq]
  obtain ⟨seq, tableName, type, priority, query⟩ := prQuery
  cases type with
  | load =>
      obtain ⟨depends, droppedFlag, hm⟩ := markScheduled_same env.hashOrder q.depManager
        (freshItem ⟨seq, tableName, .load, priority, query⟩) .load
      have hitem : (markedItem env q.depManager ⟨seq, tableName, .load, priority, query⟩).1.type =
          .load := congrArg ScheduledItem.type hm
      unfold place
      rw [hitem]
      rfl
  | _ => rfl

/-! ## the containers -/

/-- The items that a list of tasks is registered as, and what is recorded about
them. -/
def markAll (env : Env) (tasks : List ParsedQuery) : List ScheduledItem × DependencyManager :=
  tasks.foldl (fun acc t =>
    (acc.1 ++ [(markedItem env acc.2 t).1], (markedItem env acc.2 t).2)) ([], {})

/-- The registered items. -/
def registered (env : Env) (tasks : List ParsedQuery) : List ScheduledItem := (markAll env tasks).1

theorem markAll_append (env : Env) (tasks : List ParsedQuery) (t : ParsedQuery) :
    markAll env (tasks ++ [t]) =
      ((markAll env tasks).1 ++ [(markedItem env (markAll env tasks).2 t).1],
        (markedItem env (markAll env tasks).2 t).2) := by
  simp [markAll, List.foldl_append]

theorem markedItem_same (env : Env) (dm : DependencyManager) (t : ParsedQuery) :
    ∃ depends droppedFlag, (markedItem env dm t).1 =
      { freshItem t with depends, droppedFlag } := by
  unfold markedItem
  split
  · exact markScheduled_same env.hashOrder dm (freshItem t) t.type
  · exact ⟨.monostate, false, rfl⟩

@[simp] theorem markedItem_seq (env : Env) (dm : DependencyManager) (t : ParsedQuery) :
    (markedItem env dm t).1.seq = t.seq := by
  obtain ⟨_, _, h⟩ := markedItem_same env dm t
  rw [h]
  rfl

@[simp] theorem markedItem_type (env : Env) (dm : DependencyManager) (t : ParsedQuery) :
    (markedItem env dm t).1.type = t.type := by
  obtain ⟨_, _, h⟩ := markedItem_same env dm t
  rw [h]
  rfl

@[simp] theorem markedItem_tableId (env : Env) (dm : DependencyManager) (t : ParsedQuery) :
    (markedItem env dm t).1.tableId = t.tableName := by
  obtain ⟨_, _, h⟩ := markedItem_same env dm t
  rw [h]
  rfl

/-- What marking leaves alone can be read off the tasks. -/
theorem map_registered (env : Env) {f : ScheduledItem → β} {g : ParsedQuery → β}
    (h : ∀ dm t, f (markedItem env dm t).1 = g t) (tasks : List ParsedQuery) :
    (registered env tasks).map f = tasks.map g := by
  unfold registered
  induction tasks using List.reverseRecOn with
  | nil => rfl
  | append_singleton tasks t ih => simp [markAll_append, ih, h]

theorem seq_registered (env : Env) (tasks : List ParsedQuery) :
    (registered env tasks).map (·.seq) = tasks.map (·.seq) :=
  map_registered env (fun _ _ => by simp) tasks

/-- Every task is registered. -/
theorem exists_registered (env : Env) {tasks : List ParsedQuery} {t : ParsedQuery} (ht : t ∈ tasks) :
    ∃ x ∈ registered env tasks, x.seq = t.seq ∧ x.type = t.type ∧ x.tableId = t.tableName := by
  have hmap := map_registered env (f := fun x => (x.seq, x.type, x.tableId))
    (g := fun t => (t.seq, t.type, t.tableName)) (fun _ _ => by simp) tasks
  have hmem : (t.seq, t.type, t.tableName) ∈
      (registered env tasks).map fun x => (x.seq, x.type, x.tableId) := by
    rw [hmap]
    exact List.mem_map_of_mem ht
  obtain ⟨x, hx, heq⟩ := List.mem_map.mp hmem
  simp only [Prod.mk.injEq] at heq
  exact ⟨x, hx, heq⟩

/-- Only tasks are registered. -/
theorem type_of_registered (env : Env) {tasks : List ParsedQuery} {x : ScheduledItem}
    (hx : x ∈ registered env tasks) : ∃ t ∈ tasks, t.type = x.type := by
  have hmem : x.type ∈ (registered env tasks).map (·.type) := List.mem_map_of_mem hx
  rw [map_registered env (g := (·.type)) (fun _ _ => by simp) tasks] at hmem
  exact List.mem_map.mp hmem

/-- The queue right after registration. -/
structure Registered (q : TaskQueue) (items : List ScheduledItem) (dm : DependencyManager) :
    Prop where
  depManager : q.depManager = dm
  loadQueue : q.loadQueue = items.filter fun x => decide (x.type = .load)
  barriers : q.barriers = items.filter fun x => x.type.isBarrier
  queueOf : ∀ t, q.queueOf t = items.filter fun x => x.type.isQueued && decide (x.tableId = t)
  items : q.items = items
  unregistered : ∀ t tbl, q.tables.get? t = some tbl → tbl.registered = false
  waiting : ∀ type key, dm.waitingOn type key = []
  uncompleted : ∀ type key, dm.lastCompletedFor type key = 0
  globalIndex : q.globalIndex = {}
  waitingTables : q.waitingTables = []
  loadBlocked : q.loadBlocked = false
  running : q.running = 0
  quitFlag : q.quitFlag = false
  abandoned : q.abandoned = []

theorem registered_empty : Registered {} [] {} := by
  constructor <;> first | rfl | (intro t; rfl) | (intro t k; cases t <;> rfl) | simp

/-- Marking an item touches only the schedule maps. -/
theorem markScheduled_frame (hashOrder : List String → List String) (dm : DependencyManager)
    (item : ScheduledItem) (tag : QueryType) :
    ∃ files tables, (dm.markScheduled hashOrder item tag).2 =
      { dm with lastScheduledFile := files, lastScheduledTable := tables } := by
  unfold DependencyManager.markScheduled
  split
  · dsimp only
    split
    · exact ⟨_, _, rfl⟩
    · exact ⟨_, _, rfl⟩
  · exact ⟨_, _, rfl⟩
  · exact ⟨dm.lastScheduledFile, _, rfl⟩
  · exact ⟨dm.lastScheduledFile, _, rfl⟩
  · exact ⟨dm.lastScheduledFile, dm.lastScheduledTable, rfl⟩

/-- Marking changes what was scheduled last, and nothing else. -/
theorem markedItem_frame (env : Env) (dm : DependencyManager) (t : ParsedQuery) :
    ∃ files tables, (markedItem env dm t).2 =
      { dm with lastScheduledFile := files, lastScheduledTable := tables } := by
  unfold markedItem
  split
  · exact markScheduled_frame env.hashOrder dm (freshItem t) t.type
  · exact ⟨dm.lastScheduledFile, dm.lastScheduledTable, rfl⟩

theorem queueOf_setQueue (q : TaskQueue) (t t' : String) (l : List ScheduledItem) :
    (q.setQueue t l).queueOf t' = if t' = t then l else q.queueOf t' := by
  simp only [setQueue, setTable, queueOf, FiniteMap.get?_set]
  split
  · rfl
  · rfl

theorem items_place (q : TaskQueue) (x : ScheduledItem) : (q.place x).items = x ::ₘ q.items := by
  have hsnoc : ∀ l : List ScheduledItem, ((l ++ [x] : List ScheduledItem) :
      Multiset ScheduledItem) = x ::ₘ (l : Multiset ScheduledItem) :=
    fun l => Multiset.coe_eq_coe.mpr (List.perm_append_singleton x l)
  unfold place
  split
  · simp only [items, hsnoc, Multiset.add_cons, Multiset.cons_add]
  · split
    · simp only [items, hsnoc, Multiset.cons_add]
    · have h := q.items_setQueue x.tableId (q.queueOf x.tableId ++ [x])
      rw [hsnoc, Multiset.add_cons, ← Multiset.cons_add, add_right_cancel_iff] at h
      exact h

theorem isQueued_iff (type : QueryType) :
    type.isQueued = true ↔ type.isBarrier = false ∧ type ≠ .load := by
  simp [QueryType.isQueued]

/-- Registering one more task adds its marked item. -/
theorem registered_registerTask {env : Env} {q : TaskQueue} {items : List ScheduledItem}
    {dm : DependencyManager} (h : Registered q items dm) (t : ParsedQuery) :
    Registered (q.registerTask env t) (items ++ [(markedItem env dm t).1])
      (markedItem env dm t).2 := by
  rw [registerTask_eq h.quitFlag, h.depManager]
  obtain ⟨files, tables, hdm⟩ := markedItem_frame env dm t
  generalize markedItem env dm t = p at hdm ⊢
  obtain ⟨x, dm'⟩ := p
  dsimp only at hdm
  subst hdm
  generalize hq' : ({ q with
    submitted := q.submitted + 1
    depManager := { dm with lastScheduledFile := files, lastScheduledTable := tables } } :
      TaskQueue) = q'
  have hitems : (q'.place x).items = (items ++ [x] : List ScheduledItem) := by
    have hsnoc := Multiset.coe_eq_coe.mpr (List.perm_append_singleton x items)
    rw [items_place, hsnoc, ← hq', ← Multiset.cons_coe, ← h.items]
    simp only [TaskQueue.items, DependencyManager.waitingItems, h.depManager]
  have hload := h.loadQueue
  have hbar := h.barriers
  have hqueue := h.queueOf
  unfold place at hitems ⊢
  by_cases hb : x.type.isBarrier = true
  · have hl : x.type ≠ .load := fun hl => by rw [hl] at hb; contradiction
    have hn : x.type.isQueued = false := by simp [QueryType.isQueued, hb]
    rw [if_pos hb] at hitems ⊢
    subst hq'
    exact { depManager := rfl, items := hitems
            loadQueue := by simp [List.filter_append, hload, hl]
            barriers := by simp [List.filter_append, hbar, hb]
            queueOf := fun t => by
              rw [List.filter_append, ← hqueue t]
              simp [hn, TaskQueue.queueOf]
            unregistered := h.unregistered, waiting := h.waiting, uncompleted := h.uncompleted
            globalIndex := h.globalIndex, waitingTables := h.waitingTables
            loadBlocked := h.loadBlocked, running := h.running, quitFlag := h.quitFlag
            abandoned := h.abandoned }
  · rw [if_neg hb] at hitems ⊢
    by_cases hl : x.type = .load
    · have hn : x.type.isQueued = false := by simp [QueryType.isQueued, hl]
      rw [if_pos hl] at hitems ⊢
      subst hq'
      exact { depManager := rfl, items := hitems
              loadQueue := by simp [List.filter_append, hload, hl]
              barriers := by simp [List.filter_append, hbar, hb]
              queueOf := fun t => by
                rw [List.filter_append, ← hqueue t]
                simp [hn, TaskQueue.queueOf]
              unregistered := h.unregistered, waiting := h.waiting, uncompleted := h.uncompleted
              globalIndex := h.globalIndex, waitingTables := h.waitingTables
              loadBlocked := h.loadBlocked, running := h.running, quitFlag := h.quitFlag
              abandoned := h.abandoned }
    · have hn : x.type.isQueued = true := (isQueued_iff _).mpr ⟨by simpa using hb, hl⟩
      rw [if_neg hl] at hitems ⊢
      have hqueue' : ∀ t, q'.queueOf t = q.queueOf t := fun t => by rw [← hq']; rfl
      have htables : q'.tables = q.tables := by rw [← hq']
      refine { depManager := by rw [← hq']; rfl, items := hitems
               loadQueue := by
                 rw [← hq']
                 simp [List.filter_append, setQueue, setTable, hload, hl]
               barriers := by
                 rw [← hq']
                 simp [List.filter_append, setQueue, setTable, hbar, hb]
               queueOf := fun t => by
                 rw [List.filter_append, ← hqueue t, queueOf_setQueue, hqueue']
                 by_cases ht : t = x.tableId
                 · simp [ht, hn]
                 · simp [ht, hn, Ne.symm ht, hqueue']
               unregistered := fun t tbl ht => ?_
               waiting := h.waiting, uncompleted := h.uncompleted
               globalIndex := by rw [← hq']; exact h.globalIndex
               waitingTables := by rw [← hq']; exact h.waitingTables
               loadBlocked := by rw [← hq']; exact h.loadBlocked
               running := by rw [← hq']; exact h.running
               quitFlag := by rw [← hq']; exact h.quitFlag
               abandoned := by rw [← hq']; exact h.abandoned }
      simp only [setQueue, setTable, FiniteMap.get?_set, htables] at ht
      split at ht
      · rw [← Option.some.inj ht]
        cases hx : q.tables.get? x.tableId with
        | none => rfl
        | some tbl => exact h.unregistered _ tbl hx
      · exact h.unregistered _ _ ht

theorem registerAll_append (env : Env) (tasks : List ParsedQuery) (t : ParsedQuery) :
    registerAll env (tasks ++ [t]) = (registerAll env tasks).registerTask env t := by
  simp [registerAll, List.foldl_append]

/-- What registration leaves in the queue. -/
theorem registered_registerAll (env : Env) (tasks : List ParsedQuery) :
    Registered (registerAll env tasks) (registered env tasks) (markAll env tasks).2 := by
  unfold registered
  induction tasks using List.reverseRecOn with
  | nil => exact registered_empty
  | append_singleton tasks t ih =>
      rw [registerAll_append, markAll_append]
      exact registered_registerTask ih t

end TaskQueue

/-! ## the recorded dependencies -/

open TaskQueue

/-- The sequence number last scheduled on a key. -/
def DependencyManager.entrySeq (dm : DependencyManager) : DepKey → Nat
  | (.file, f) => (dm.lastScheduledFile.entry f).2
  | (.table, t) => (dm.lastScheduledTable.entry t).2

/-- A COPYTABLE of a table to itself. -/
def ScheduledItem.SelfCopy (x : ScheduledItem) : Prop :=
  ∃ d, x.depends = .copyTable d ∧ d.newTable = x.tableId

/-- What marking one item does: the entries that change are keys that the item
notifies, and the dependencies are the entries from before. -/
structure Marked (dm : DependencyManager) (x : ScheduledItem) (dm' : DependencyManager) : Prop where
  entry : ∀ k, dm'.entrySeq k = dm.entrySeq k ∨
    (k ∈ x.ident.notifies ∧ dm'.entrySeq k = x.seq ∧ dm.entrySeq k < x.seq)
  waits : ∀ k d, (k, d) ∈ x.waits → d = 0 ∨ d = dm.entrySeq k ∨
    (x.SelfCopy ∧ k ∈ x.ident.notifies ∧ d = x.seq ∧ dm'.entrySeq k = x.seq)
  fits : x.Fits

/-- A mark raises the entry of its key. -/
theorem ScheduledMap.entry_mark (m : ScheduledMap) (key key' : String) (seq : Nat)
    (tag : QueryType) : ((m.mark key seq tag).2.entry key').2 =
      if key' = key then max (m.entry key).2 seq else (m.entry key').2 := by
  unfold ScheduledMap.mark ScheduledMap.entry
  rw [FiniteMap.get?_set]
  split
  · rw [Option.getD_some]
    split
    · omega
    · omega
  · rfl

/-- Marking a key keeps its entry or moves it up to the new sequence number. -/
theorem ScheduledMap.entry_mark_cases (m : ScheduledMap) (key key' : String) (seq : Nat)
    (tag : QueryType) : ((m.mark key seq tag).2.entry key').2 = (m.entry key').2 ∨
      (key' = key ∧ ((m.mark key seq tag).2.entry key').2 = seq ∧ (m.entry key').2 < seq) := by
  rw [entry_mark]
  split
  · next h =>
      subst h
      by_cases hlt : (m.entry key').2 < seq
      · exact .inr ⟨rfl, by omega, hlt⟩
      · exact .inl (by omega)
  · exact .inl rfl

/-- Overwriting the entries of dropped tables by a pending LOAD. -/
theorem entry_applyNop (tables : List String) (seq : Nat) :
    (m : ScheduledMap) → (t : String) →
    ((tables.foldl (fun m t => m.set t (.nop, seq)) m : ScheduledMap).entry t).2 =
      if t ∈ tables then seq else (m.entry t).2 := by
  induction tables with
  | nil => intro m t; simp
  | cons t' tables ih =>
      intro m t
      rw [List.foldl_cons, ih]
      by_cases ht : t ∈ tables
      · simp [ht]
      · by_cases hne : t = t'
        · simp [hne, ScheduledMap.entry]
        · simp [ht, hne, ScheduledMap.entry, FiniteMap.get?_set]

section

variable (hashOrder : List String → List String) (dm : DependencyManager) (x : ScheduledItem)
  (tag : QueryType)

/-- What marking a LOAD records. -/
theorem marked_load (hty : x.type = .load)
    (hlt : ∀ k, dm.entrySeq k < x.seq ∨ dm.entrySeq k = 0) :
    Marked dm (dm.markScheduled hashOrder x tag).1 (dm.markScheduled hashOrder x tag).2 := by
  have hfile (key : String) := dm.lastScheduledFile.entry_mark_cases x.query.filePath key x.seq tag
  have htable (key : String) := dm.lastScheduledTable.entry_mark_cases x.tableId key x.seq tag
  unfold DependencyManager.markScheduled
  rw [hty]
  dsimp only [DependencyManager.markScheduledFile, DependencyManager.markScheduledTable]
  split
  · -- pending: the dropped tables are overwritten by this LOAD
    generalize hashOrder _ = tables
    constructor
    · rintro ⟨ty, key⟩
      cases ty with
      | file =>
          refine (hfile key).imp id (And.imp_left fun hk => ?_)
          simp [ScheduledItem.ident, Ident.of, Ident.notifies, hk]
      | table =>
          have hnop := entry_applyNop tables x.seq dm.lastScheduledTable key
          by_cases hmem : key ∈ tables
          · rw [if_pos hmem] at hnop
            have hne : tables ≠ [] := List.ne_nil_of_mem hmem
            by_cases hless : dm.entrySeq (.table, key) < x.seq
            · refine .inr ⟨?_, hnop, hless⟩
              simp [ScheduledItem.ident, Ident.of, Ident.notifies, hne, hmem]
            · have hzero := (hlt (.table, key)).resolve_left hless
              exact .inl (hnop.trans (by omega))
          · rw [if_neg hmem] at hnop
            exact .inl hnop
    · intro k d hk
      simp only [ScheduledItem.waits, DependencyPayload.waits, List.mem_cons, Prod.mk.injEq,
        List.not_mem_nil, or_false] at hk
      obtain ⟨rfl, rfl⟩ | ⟨rfl, rfl⟩ := hk
      · exact .inr (.inl rfl)
      · exact .inl rfl
    · simp [ScheduledItem.Fits, DependencyPayload.fits]
  · constructor
    · rintro ⟨ty, key⟩
      cases ty with
      | file =>
          refine (hfile key).imp id (And.imp_left fun hk => ?_)
          simp [ScheduledItem.ident, Ident.of, Ident.notifies, hk]
      | table =>
          refine (htable key).imp id (And.imp_left fun hk => ?_)
          simp [ScheduledItem.ident, Ident.of, Ident.notifies, hk, DependencyPayload.isPending]
    · intro k d hk
      simp only [ScheduledItem.waits, DependencyPayload.waits, List.mem_cons, Prod.mk.injEq,
        List.not_mem_nil, or_false] at hk
      obtain ⟨rfl, rfl⟩ | ⟨rfl, rfl⟩ := hk
      · exact .inr (.inl rfl)
      · exact .inr (.inl rfl)
    · simp [ScheduledItem.Fits, DependencyPayload.fits]

/-- What marking a DUMP records. -/
theorem marked_dump (hty : x.type = .dump) :
    Marked dm (dm.markScheduled hashOrder x tag).1 (dm.markScheduled hashOrder x tag).2 := by
  have hfile (key : String) := dm.lastScheduledFile.entry_mark_cases x.query.filePath key x.seq tag
  have htable (key : String) := dm.lastScheduledTable.entry_mark_cases x.tableId key x.seq tag
  unfold DependencyManager.markScheduled
  rw [hty]
  constructor
  · rintro ⟨ty, key⟩
    cases ty with
    | file =>
        refine (hfile key).imp id (And.imp_left fun hk => ?_)
        simp [ScheduledItem.ident, Ident.of, Ident.notifies, hk]
    | table =>
        refine (htable key).imp id (And.imp_left fun hk => ?_)
        simp [ScheduledItem.ident, Ident.of, Ident.notifies, hk]
  · intro k d hk
    simp only [ScheduledItem.waits, DependencyPayload.waits, List.mem_cons, Prod.mk.injEq,
      List.not_mem_nil, or_false] at hk
    obtain ⟨rfl, rfl⟩ | ⟨rfl, rfl⟩ := hk
    · exact .inr (.inl rfl)
    · exact .inr (.inl rfl)
  · simp [ScheduledItem.Fits, DependencyPayload.fits]

/-- What marking a DROP records. -/
theorem marked_drop (hty : x.type = .drop) :
    Marked dm (dm.markScheduled hashOrder x tag).1 (dm.markScheduled hashOrder x tag).2 := by
  have htable (key : String) := dm.lastScheduledTable.entry_mark_cases x.tableId key x.seq tag
  unfold DependencyManager.markScheduled
  rw [hty]
  constructor
  · rintro ⟨ty, key⟩
    cases ty with
    | file => exact .inl rfl
    | table =>
        refine (htable key).imp id (And.imp_left fun hk => ?_)
        simp [ScheduledItem.ident, Ident.of, Ident.notifies, hk]
  · intro k d hk
    simp only [ScheduledItem.waits, DependencyPayload.waits, List.mem_cons, Prod.mk.injEq,
      List.not_mem_nil, or_false] at hk
    obtain ⟨rfl, rfl⟩ := hk
    exact .inr (.inl rfl)
  · simp [ScheduledItem.Fits, DependencyPayload.fits]

/-- What marking a COPYTABLE records. -/
theorem marked_copyTable (hty : x.type = .copyTable) :
    Marked dm (dm.markScheduled hashOrder x tag).1 (dm.markScheduled hashOrder x tag).2 := by
  have hsrc (key : String) := dm.lastScheduledTable.entry_mark_cases x.tableId key x.seq tag
  have hdst (key : String) := (dm.lastScheduledTable.mark x.tableId x.seq
    tag).2.entry_mark_cases x.query.newTable key x.seq tag
  unfold DependencyManager.markScheduled
  rw [hty]
  constructor
  · rintro ⟨ty, key⟩
    cases ty with
    | file => exact .inl rfl
    | table =>
        obtain h | ⟨hk, h, hless⟩ := hdst key
        · refine (hsrc key).imp h.trans fun ⟨hk, h', hless⟩ => ⟨?_, h.trans h', hless⟩
          simp [ScheduledItem.ident, Ident.of, Ident.notifies, hk]
        · obtain h' | ⟨_, h', hless'⟩ := hsrc key
          · refine .inr ⟨?_, h, Nat.lt_of_le_of_lt (Nat.le_of_eq h'.symm) hless⟩
            simp [ScheduledItem.ident, Ident.of, Ident.notifies, hk]
          · exact absurd hless (by omega)
  · intro k d hk
    simp only [ScheduledItem.waits, DependencyPayload.waits, List.mem_cons, Prod.mk.injEq,
      List.not_mem_nil, or_false] at hk
    obtain ⟨rfl, rfl⟩ | ⟨rfl, rfl⟩ := hk
    · exact .inr (.inl rfl)
    · -- the second mark of a self copy finds the entry of the first one
      obtain h | ⟨hnew, h, hless⟩ := hsrc x.query.newTable
      · exact .inr (.inl h)
      · refine .inr (.inr ⟨⟨_, rfl, hnew⟩, ?_, h, ?_⟩)
        · simp [ScheduledItem.ident, Ident.of, Ident.notifies]
        · obtain h' | ⟨_, h', _⟩ := hdst x.query.newTable
          · exact h'.trans h
          · exact h'
  · simp [ScheduledItem.Fits, DependencyPayload.fits]

/-- What marking any of them records. -/
theorem marked_markScheduled (hty : x.type.isMarked = true)
    (hlt : ∀ k, dm.entrySeq k < x.seq ∨ dm.entrySeq k = 0) :
    Marked dm (dm.markScheduled hashOrder x tag).1 (dm.markScheduled hashOrder x tag).2 := by
  cases h : x.type with
  | load => exact marked_load hashOrder dm x tag h hlt
  | dump => exact marked_dump hashOrder dm x tag h
  | drop => exact marked_drop hashOrder dm x tag h
  | copyTable => exact marked_copyTable hashOrder dm x tag h
  | _ =>
      rw [h] at hty
      contradiction

end

/-- Marking gives an item the payload of its type. -/
theorem fits_markScheduled (hashOrder : List String → List String) (dm : DependencyManager)
    (x : ScheduledItem) (tag : QueryType) (hty : x.type.isMarked = true) :
    (dm.markScheduled hashOrder x tag).1.Fits := by
  unfold DependencyManager.markScheduled ScheduledItem.Fits
  cases h : x.type with
  | load =>
      dsimp only
      split <;> simp [DependencyPayload.fits]
  | dump | drop | copyTable => simp [DependencyPayload.fits]
  | _ =>
      rw [h] at hty
      contradiction

theorem fits_markedItem (env : Env) (dm : DependencyManager) (t : ParsedQuery) :
    (markedItem env dm t).1.Fits := by
  unfold markedItem
  split
  · next hty => exact fits_markScheduled env.hashOrder dm (freshItem t) t.type hty
  · next hty =>
      cases h : t.type <;>
        simp_all [ScheduledItem.Fits, freshItem, DependencyPayload.fits, QueryType.isMarked]

/-- Whatever is registered, every item has the payload of its type. -/
theorem fits_registered (env : Env) (tasks : List ParsedQuery) :
    ∀ x ∈ registered env tasks, x.Fits := by
  unfold registered
  induction tasks using List.reverseRecOn with
  | nil => simp [markAll]
  | append_singleton tasks t ih =>
      intro x hx
      rw [markAll_append] at hx
      obtain hx | hx := List.mem_append.mp hx
      · exact ih x hx
      · rw [List.mem_singleton.mp hx]
        exact fits_markedItem env _ t

/-- What registering a task records, marked or not. -/
theorem marked_markedItem (env : Env) (dm : DependencyManager) (t : ParsedQuery)
    (hlt : ∀ k, dm.entrySeq k < t.seq ∨ dm.entrySeq k = 0) :
    Marked dm (markedItem env dm t).1 (markedItem env dm t).2 := by
  have hfits := fits_markedItem env dm t
  unfold markedItem at hfits ⊢
  split
  · next hty => exact marked_markScheduled env.hashOrder dm (freshItem t) t.type hty hlt
  · next hty =>
      rw [if_neg hty] at hfits
      exact ⟨fun _ => .inl rfl, fun _ _ hk => absurd hk List.not_mem_nil, hfits⟩

/-- What registration in increasing order records. -/
structure Recorded (items : List ScheduledItem) (dm : DependencyManager) : Prop where
  fits : ∀ x ∈ items, x.Fits
  /-- An entry is the sequence number of a task that notifies the key. -/
  entry : ∀ k, dm.entrySeq k = 0 ∨
    ∃ x ∈ items, x.seq = dm.entrySeq k ∧ k ∈ x.ident.notifies
  /-- A recorded dependency is a recorded entry, and the task is an earlier one. -/
  depends : ∀ x ∈ items, ∀ k d, (k, d) ∈ x.waits → d = 0 ∨
    ∃ y ∈ items, y.seq = d ∧ k ∈ y.ident.notifies ∧ (y.seq < x.seq ∨ y = x ∧ x.SelfCopy)
  /-- Later tasks depend on later ones. -/
  le_entry : ∀ x ∈ items, ∀ k d, (k, d) ∈ x.waits → d ≤ dm.entrySeq k
  mono : ∀ x ∈ items, ∀ y ∈ items, x.seq < y.seq → ∀ k d e, (k, d) ∈ x.waits →
    (k, e) ∈ y.waits → e = 0 ∨ d ≤ e

theorem recorded_empty : Recorded [] {} where
  fits := by simp
  entry k := by
    obtain ⟨ty, key⟩ := k
    cases ty <;> exact .inl rfl
  depends := by simp
  le_entry := by simp
  mono := by simp

/-- One more task is recorded behind the earlier ones. -/
theorem recorded_append {items : List ScheduledItem} {dm dm' : DependencyManager}
    {x : ScheduledItem} (h : Recorded items dm) (hlt : ∀ y ∈ items, y.seq < x.seq)
    (hm : Marked dm x dm') : Recorded (items ++ [x]) dm' := by
  have hentry : ∀ k, dm.entrySeq k = 0 ∨ dm.entrySeq k < x.seq := by
    intro k
    refine (h.entry k).imp id fun ⟨y, hy, hseq, _⟩ => ?_
    exact hseq ▸ hlt y hy
  have hgrow : ∀ k, dm.entrySeq k ≤ dm'.entrySeq k := by
    intro k
    obtain hk | ⟨_, hk, hless⟩ := hm.entry k <;> omega
  constructor
  case fits =>
    intro y hy
    obtain hy | hy := List.mem_append.mp hy
    · exact h.fits y hy
    · rw [List.mem_singleton.mp hy]
      exact hm.fits
  case entry =>
    intro k
    obtain hk | ⟨hn, hk, _⟩ := hm.entry k
    · rw [hk]
      exact (h.entry k).imp id fun ⟨y, hy, hy'⟩ => ⟨y, List.mem_append_left _ hy, hy'⟩
    · exact .inr ⟨x, by simp, hk.symm, hn⟩
  case depends =>
    intro y hy k d hk
    obtain hy | hy := List.mem_append.mp hy
    · exact (h.depends y hy k d hk).imp id fun ⟨z, hz, hz'⟩ => ⟨z, List.mem_append_left _ hz, hz'⟩
    · rw [List.mem_singleton.mp hy] at hk ⊢
      obtain hd | hd | ⟨hself, hn, hd, _⟩ := hm.waits k d hk
      · exact .inl hd
      · refine (h.entry k).imp hd.trans fun ⟨z, hz, hseq, hn⟩ => ?_
        exact ⟨z, List.mem_append_left _ hz, hseq.trans hd.symm, hn, .inl (hlt z hz)⟩
      · exact .inr ⟨x, by simp, hd.symm, hn, .inr ⟨rfl, hself⟩⟩
  case le_entry =>
    intro y hy k d hk
    obtain hy | hy := List.mem_append.mp hy
    · exact Nat.le_trans (h.le_entry y hy k d hk) (hgrow k)
    · rw [List.mem_singleton.mp hy] at hk
      obtain hd | hd | ⟨_, _, hd, he⟩ := hm.waits k d hk
      · omega
      · exact hd ▸ hgrow k
      · omega
  case mono =>
    intro y hy z hz hless k d e hd he
    obtain hz | hz := List.mem_append.mp hz
    · obtain hy | hy := List.mem_append.mp hy
      · exact h.mono y hy z hz hless k d e hd he
      · rw [List.mem_singleton.mp hy] at hless
        exact absurd (hlt z hz) (by omega)
    · rw [List.mem_singleton.mp hz] at hless he
      obtain hy | hy := List.mem_append.mp hy
      · have hle := h.le_entry y hy k d hd
        obtain he | he | ⟨_, _, he, _⟩ := hm.waits k e he
        · exact .inl he
        · exact .inr (he ▸ hle)
        · have := hentry k
          exact .inr (by omega)
      · rw [List.mem_singleton.mp hy] at hless
        exact absurd hless (Nat.lt_irrefl _)

/-- Tasks are registered in increasing order of their sequence numbers. -/
def Increasing (tasks : List ParsedQuery) : Prop := (tasks.map (·.seq)).Pairwise (· < ·)

/-- The queries of a list are submitted in order. -/
theorem increasing_submitAll (queries : List Query) : Increasing (submitAll queries) := by
  have hseq : (submitAll queries).map (·.seq) = List.range' 1 queries.length := by
    rw [submitAll, List.map_map]
    exact List.zipIdx_map_snd 1 queries
  rw [Increasing, hseq]
  exact List.pairwise_lt_range'

/-- The registered items have the order of the tasks. -/
theorem Increasing.registered (env : Env) {tasks : List ParsedQuery} (hinc : Increasing tasks) :
    (TaskQueue.registered env tasks).Pairwise fun x y => x.seq < y.seq := by
  rw [← List.pairwise_map (f := ScheduledItem.seq) (R := (· < ·)), TaskQueue.seq_registered]
  exact hinc

/-- Tasks that are registered in increasing order are recorded in order. -/
theorem recorded_markAll (env : Env) {tasks : List ParsedQuery} (hinc : Increasing tasks) :
    Recorded (registered env tasks) (markAll env tasks).2 := by
  unfold registered
  induction tasks using List.reverseRecOn with
  | nil => exact recorded_empty
  | append_singleton tasks t ih =>
      unfold Increasing at hinc ih
      rw [List.map_append, List.pairwise_append] at hinc
      obtain ⟨hinc, _, hlast⟩ := hinc
      have hlt : ∀ y ∈ (markAll env tasks).1, y.seq < t.seq := by
        intro y hy
        have hseq : y.seq ∈ tasks.map (·.seq) := by
          rw [← seq_registered env tasks]
          exact List.mem_map_of_mem hy
        exact hlast _ hseq _ (by simp)
      rw [markAll_append]
      refine recorded_append (ih hinc) (by simpa using hlt) (marked_markedItem env _ t ?_)
      intro k
      obtain h | ⟨y, hy, hseq, _⟩ := (ih hinc).entry k
      · exact .inr h
      · exact .inl (hseq ▸ hlt y hy)

end LemonDB
