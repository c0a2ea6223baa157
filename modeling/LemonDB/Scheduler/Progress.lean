import LemonDB.Scheduler.HandOuts

/-!
# LemonDB.Scheduler.Progress

What keeps the table queues going.  A queue is looked at for the first time when
its table is registered; from then on it is in the global index or blocked by a
barrier, or one of its tasks is away from it and brings it back (`Served`), as
long as no fetch round draws two candidates and drops one of them.

`Live` is the invariant of a run; it also says what the completed tasks have
done for others: the watermarks that they raised and the tables that they
opened.
-/

namespace LemonDB

/-- The completion of the task opens the table: a LOAD of it, or a COPYTABLE into
it. -/
def Completion.Opens (c : Completion) (t : String) : Prop :=
  (c.type = .load ∧ c.tableId = t) ∨
    (c.type = .copyTable ∧ ∃ d, c.depends = .copyTable d ∧ d.newTable = t)

namespace Stage

variable {env : Env} {lossy : Prop} {E : String → Prop} {items : List ScheduledItem}
  {s s' : Stage}

/-- The queue of the table was entered into the global index at some time. -/
def Entered (s : Stage) (t : String) : Prop := t ∈ s.queue.globalIndex.entered

/-- The queue of the table will be looked at. -/
def Served (s : Stage) (t : String) : Prop :=
  t ∈ s.queue.globalIndex.pending ∨ t ∈ s.queue.waitingTables ∨ ¬ (s.lane t).Idle ∨
    ∃ c, s.completing = some c ∧ c.tableQ = some t

/-- The table was opened, or has no tasks that wait for that. -/
def Opened (items : List ScheduledItem) (s : Stage) (t : String) : Prop :=
  s.Entered t ∨ items.filter (·.onQueue t) = []

/-! ## moves of the global index -/

theorem entered_of_pickBest {pq : PriorityQueue (Key String)} {g g' : GlobalIndex String}
    {o : Option String} (h : g.pickBest pq = (o, g')) : g'.entered = g.entered := by
  have hentered := GlobalIndex.entered_pickBest pq g
  rwa [h] at hentered

/-- What a move does to the index: a table stays entered once it was, and only
leaves the index or the blocked tables with its head, or when it has none. -/
structure IndexMoved (s s' : Stage) (t : String) : Prop where
  entered : s.Entered t → s'.Entered t
  of_entered : s'.Entered t → s.Entered t ∨ t ∈ s'.queue.globalIndex.pending
  eligible : t ∈ s.queue.globalIndex.pending ∨ t ∈ s.queue.waitingTables →
    t ∈ s'.queue.globalIndex.pending ∨ t ∈ s'.queue.waitingTables ∨ s.queue.queueOf t = [] ∨
      (s'.queue.queueOf t).length < (s.queue.queueOf t).length

/-- A move that takes a table from the index. -/
theorem indexMoved_of_pick {t' : String} {g : GlobalIndex String}
    (hwf : s.queue.globalIndex.WF) (hp : s.queue.globalIndex.pickBest env.heap = (some t', g))
    (hg : s'.queue.globalIndex = g)
    (hwait : ∀ t ∈ s.queue.waitingTables, t ∈ s'.queue.waitingTables)
    (hpicked : t' ∈ s'.queue.waitingTables ∨ s.queue.queueOf t' = [] ∨
      (s'.queue.queueOf t').length < (s.queue.queueOf t').length) (t : String) :
    IndexMoved s s' t := by
  obtain ⟨_, hpend, _⟩ := pending_of_pickBest hwf hp
  have hentered := entered_of_pickBest hp
  constructor
  · intro h
    rw [Entered, hg, hentered]
    exact h
  · intro h
    rw [Entered, hg, hentered] at h
    exact .inl h
  · rintro (h | h)
    · by_cases ht : t = t'
      · exact .inr (ht ▸ hpicked)
      · rw [hg, hpend]
        exact .inl ⟨h, ht⟩
    · exact .inr (.inl (hwait t h))

/-- A move that enters tables into the index. -/
theorem indexMoved_of_enter {T : Set String}
    (hpend : s'.queue.globalIndex.pending = s.queue.globalIndex.pending ∪ T)
    (hentered : s'.queue.globalIndex.entered = s.queue.globalIndex.entered ∪ T)
    (hwait : ∀ t ∈ s.queue.waitingTables, t ∈ s'.queue.waitingTables ∨ t ∈ T ∨
      s.queue.queueOf t = []) (t : String) : IndexMoved s s' t := by
  constructor
  · intro h
    rw [Entered, hentered]
    exact .inl h
  · intro h
    rw [Entered, hentered] at h
    rw [hpend]
    exact h.imp id .inr
  · rw [hpend]
    rintro (h | h)
    · exact .inl (.inl h)
    · obtain h | h | h := hwait t h
      · exact .inr (.inl h)
      · exact .inl (.inr h)
      · exact .inr (.inr (.inl h))

theorem indexMoved_move (hwf : s.queue.globalIndex.WF) (hm : Move env False s s') (t : String) :
    IndexMoved s s' t := by
  have hpick := @indexMoved_of_pick env s s'
  have henter := @indexMoved_of_enter s s'
  have hnone : s'.queue.globalIndex.pending = s.queue.globalIndex.pending →
      s'.queue.globalIndex.entered = s.queue.globalIndex.entered →
      s'.queue.waitingTables = s.queue.waitingTables → IndexMoved s s' t := by
    intro hpend hentered hw
    exact henter (T := ∅) (by rw [hpend, Set.union_empty]) (by rw [hentered, Set.union_empty])
      (fun t ht => .inl (hw ▸ ht)) t
  have hone : ∀ t', s'.queue.globalIndex.pending = insert t' s.queue.globalIndex.pending →
      s'.queue.globalIndex.entered = insert t' s.queue.globalIndex.entered →
      s'.queue.waitingTables = s.queue.waitingTables → IndexMoved s s' t := by
    intro t' hpend hentered hw
    exact henter (T := {t'}) (by rw [hpend, Set.union_singleton])
      (by rw [hentered, Set.union_singleton]) (fun t ht => .inl (hw ▸ ht)) t
  cases hm with
  | exhausted g hp =>
      have hspec := GlobalIndex.pickBest_spec env.heap hwf
      have hentered := entered_of_pickBest hp
      rw [hp] at hspec
      cases hspec with
      | empty g' hempty hempty' => exact hnone (hempty'.trans hempty.symm) hentered rfl
  | emptyTable t' g hp hq => exact hpick hwf hp rfl (fun _ ht => ht) (.inr (.inl hq)) t
  | blockTable t' g head rest hc hp hq hb =>
      refine hpick hwf hp rfl (fun _ ht => List.mem_append_left _ ht) (.inl ?_) t
      exact List.mem_append_right _ List.mem_cons_self
  | loseTable t' g hl => exact hl.elim
  | loseLoad x rest hl => exact hl.elim
  | parkTable t' g head rest type key hc hp hq hb hw =>
      refine hpick hwf hp rfl (fun _ ht => ht) (.inr (.inr ?_)) t
      show (((s.queue.setIndex g).setQueue t' (s.queue.queueOf t').tail).queueOf t').length < _
      rw [TaskQueue.queueOf_setQueue, if_pos rfl, hq]
      exact Nat.lt_succ_self _
  | handTable t' g head rest task hc hp hq hb hr hbuild =>
      refine hpick hwf hp rfl (fun _ ht => ht) (.inr (.inr ?_)) t
      show (((s.queue.setIndex g).setQueue t' rest).queueOf t').length < _
      rw [TaskQueue.queueOf_setQueue, if_pos rfl, hq]
      exact Nat.lt_succ_self _
  | handBarrier barrier rest task hc hq hrun hheap hl hb =>
      obtain ⟨g, hrel, hpend, _, hentered⟩ :=
        ((s.queue.popBarrier barrier rest).countFetch).release_eq env
      simp only [hrel] at henter ⊢
      refine henter hpend hentered (fun t ht => .inr ?_) t
      by_cases hnil : s.queue.queueOf t = []
      · exact .inr hnil
      · exact .inl ⟨ht, hnil⟩
  | register c t' hc ht =>
      obtain ⟨tables, g, hreg, _, _, _, hindex⟩ :=
        s.queue.registerTableQueue_eq env t' (TaskQueue.placeholder c)
      simp only [hreg] at hnone hone ⊢
      obtain ⟨_, hpend, hentered⟩ | ⟨_, hpend, hentered⟩ := hindex
      · exact hnone hpend hentered trivial
      · exact hone t' hpend hentered trivial
  | requeue x rest htr hty =>
      exact hone x.tableId (GlobalIndex.pending_upsert env.heap _ _ _ _ _)
        (GlobalIndex.entered_upsert env.heap _ _ _ _ _) rfl
  | reindex c t' hc ht =>
      obtain ⟨g, hup, hpend, _, hentered⟩ := s.queue.upsertHead_eq env t'
      simp only [hup] at hnone hone ⊢
      split at hpend
      · next hnil =>
          rw [if_pos hnil] at hentered
          exact hnone hpend hentered rfl
      · next hne =>
          rw [if_neg hne] at hentered
          exact hone t' hpend hentered rfl
  | _ => exact hnone rfl rfl rfl

/-! ## the invariant -/

/-- What a task in flight will do when it completes. -/
structure Prepared (items : List ScheduledItem) (s : Stage) (c : Completion) : Prop where
  updates : c.ident.notifies ≠ [] → .updateDeps ∈ c.actions
  drops : c.type = .drop → c.registers = []
  recaptures : ∀ t, c.onQueue t = true → t ≠ "" → t ≠ controlTableId → c.tableQ = some t
  opens : ∀ t, c.Opens t → t ∈ c.registers ∨ s.Opened items t

/-- The tables go on: as long as a queue was never entered into the index it is as it was
registered, and afterwards it is served while it has tasks. -/
structure Live (items : List ScheduledItem) (E : String → Prop) (s : Stage) : Prop where
  tables : s.TableInv E
  untouched : ∀ t, ¬ s.Entered t →
    (s.lane t).queue = (items.filter (·.onQueue t)).map (·.seq) ∧ (s.lane t).Idle
  served : ∀ t, s.Entered t → s.queue.queueOf t ≠ [] → s.Served t
  registered : ∀ t, s.queue.registration t ≠ none → s.Opened items t
  prepared : ∀ c ∈ s.inFlight.map (·.onCompleted) ++ s.completing.toList, s.Prepared items c
  finished : ∀ c ∈ s.finished, (∀ k ∈ c.ident.notifies, c.seq ≤ s.queue.watermark k) ∧
    ∀ t, c.Opens t → s.Opened items t

theorem Prepared.mono {c : Completion} (h : s.Prepared items c)
    (hopened : ∀ t, s.Opened items t → s'.Opened items t) : s'.Prepared items c :=
  { h with opens := fun t ht => (h.opens t ht).imp id (hopened t) }

/-- The captures of a task that is handed out. -/
theorem prepared_of_built {q : TaskQueue} {x : ScheduledItem} {task : ExecutableTask}
    (hb : q.Built x task) (hqueue : x.type.isQueued = true → q.queueOf x.tableId ≠ [])
    (hreg : ∀ t, q.registration t ≠ none → s.Opened items t) : s.Prepared items task.onCompleted := by
  constructor
  · intro hn
    by_cases hload : x.type = .load
    · obtain ⟨_, h⟩ | h := TaskQueue.actions_of_load hload hb.actions
      · rw [h]
        exact List.mem_cons_self
      · rw [h]
        exact List.mem_cons_of_mem _ List.mem_cons_self
    · have hact := hb.actions
      rw [hb.ident, Ident.notifies] at hn
      unfold TaskQueue.classifyActions at hact
      cases hty : x.type <;> simp only [hty] at hact hload <;> try contradiction
      all_goals
        rw [← Except.ok.inj hact]
        simp_all [ScheduledItem.ident, Ident.of]
  · exact hb.registers_of_drop
  · intro t ht hne hcontrol
    rw [onQueue_of_built hb] at ht
    simp only [ScheduledItem.onQueue, Bool.and_eq_true, decide_eq_true_eq] at ht
    obtain ⟨hq, rfl⟩ := ht
    rw [hb.tableQ, TaskQueue.capturedTableQ, if_pos ⟨hne, hcontrol⟩]
    cases htbl : q.tables.get? x.tableId with
    | none => exact absurd (by simp [TaskQueue.queueOf, htbl]) (hqueue hq)
    | some tbl => rfl
  · rintro t (⟨hty, rfl⟩ | ⟨hty, d, hd, rfl⟩)
    · rw [hb.capturedType] at hty
      rw [hb.capturedTable]
      obtain ⟨h, _⟩ | h := TaskQueue.actions_of_load hty hb.actions
      · exact .inr (hreg _ h)
      · left
        rw [Completion.registers, h, hb.capturedTable]
        exact List.mem_cons_self
    · have hact := hb.actions
      have hty' := hty
      rw [hb.capturedType] at hty'
      rw [TaskQueue.classifyActions, hty'] at hact
      left
      rw [Completion.registers, ← Except.ok.inj hact, hty, hd]
      simp

/-- A queue that was never entered into the index is left alone. -/
theorem Live.untouched_move (h : s.Live items E) (hm : Move env False s s') (t : String)
    (hn : ¬ s'.Entered t) :
    (s'.lane t).queue = (items.filter (·.onQueue t)).map (·.seq) ∧ (s'.lane t).Idle := by
  have hbefore : ¬ s.Entered t := fun he => hn ((indexMoved_move h.tables.wf hm t).entered he)
  obtain heq | hpick := h.tables.keep hm t (h.untouched t hbefore).2
  · rw [heq]
    exact h.untouched t hbefore
  · have hmem := (pending_of_pickBest h.tables.wf hpick.picked).1
    exact absurd (GlobalIndex.pending_subset_entered _ hmem) hbefore

/-- A queue that is served stays served while it has tasks. -/
theorem Live.served_move (h : s.Live items E) (hm : Move env False s s') (t : String)
    (hentered : s'.Entered t) (hne : s'.queue.queueOf t ≠ []) : s'.Served t := by
  have hindex := indexMoved_move h.tables.wf hm t
  obtain heq | ⟨_, hpend⟩ | ⟨htake, _⟩ := lane_move h.tables.placed h.tables.wf
    (fun hc t ht => h.tables.pending t ht (h.tables.free hc t)) hm t
  · have hlen : (s'.queue.queueOf t).length = (s.queue.queueOf t).length := by
      have := congrArg (fun l : Lane Nat => l.queue.length) heq
      simpa [lane] using this
    have hne' : s.queue.queueOf t ≠ [] := fun hnil =>
      hne (List.eq_nil_of_length_eq_zero (hlen.trans (by rw [hnil]; rfl)))
    have hc := completing_move hm
    have helig : t ∈ s.queue.globalIndex.pending ∨ t ∈ s.queue.waitingTables → s'.Served t := by
      intro ht
      obtain ht | ht | ht | ht := hindex.eligible ht
      · exact .inl ht
      · exact .inr (.inl ht)
      · exact absurd ht hne'
      · omega
    obtain he | hp := hindex.of_entered hentered
    · obtain ht | ht | ht | ht := h.served t he hne'
      · exact helig (.inl ht)
      · exact helig (.inr ht)
      · exact .inr (.inr (.inl (heq ▸ ht)))
      · exact .inr (.inr (.inr (hc ▸ ht)))
    · exact .inl hp
  · exact .inl (hpend.resolve_left id)
  · exact .inr (.inr (.inl htake.not_idle))

theorem Live.opened_move (h : s.Live items E) (hm : Move env False s s') {t : String}
    (ht : s.Opened items t) : s'.Opened items t :=
  ht.imp (indexMoved_move h.tables.wf hm t).entered id

/-- A registered table is open. -/
theorem Live.registered_move (h : s.Live items E) (hm : Move env False s s') (t : String)
    (hr : s'.queue.registration t ≠ none) : s'.Opened items t := by
  obtain hsame | ⟨c, _, _, _, _, hnil | hentered⟩ | ⟨c, _, _, hnone⟩ := registration_move hm t
  · exact h.opened_move hm (h.registered t (hsame ▸ hr))
  · refine h.opened_move hm ?_
    by_cases he : s.Entered t
    · exact .inl he
    · have hq := (h.untouched t he).1
      rw [lane, hnil, List.map_nil, eq_comm, List.map_eq_nil_iff] at hq
      exact .inr hq
  · exact .inl hentered
  · exact absurd hnone hr

theorem Live.prepared_move (h : s.Live items E) (hm : Move env False s s') :
    ∀ c ∈ s'.inFlight.map (·.onCompleted) ++ s'.completing.toList, s'.Prepared items c := by
  have hmono : ∀ c ∈ s.inFlight.map (·.onCompleted) ++ s.completing.toList,
      s'.Prepared items c := fun c hc => (h.prepared c hc).mono fun t => h.opened_move hm
  have hadd : ∀ task : ExecutableTask, s'.Prepared items task.onCompleted →
      ∀ c ∈ (s.inFlight ++ [task]).map (·.onCompleted) ++ s.completing.toList,
        s'.Prepared items c := by
    intro task htask c hc
    rw [List.map_append, List.mem_append, List.mem_append] at hc
    obtain (hc | hc) | hc := hc
    · exact hmono c (List.mem_append_left _ hc)
    · exact List.mem_singleton.mp hc ▸ htask
    · exact hmono c (List.mem_append_right _ hc)
  have hreg : ∀ t, s.queue.registration t ≠ none → s'.Opened items t :=
    fun t ht => h.opened_move hm (h.registered t ht)
  cases hm with
  | handLoad x rest d task hc htr hd hr hb =>
      refine hadd task (prepared_of_built (TaskQueue.built_of_ok hb) (fun hq => ?_) hreg)
      have hfit := h.tables.placed.fits_of_mem (x := x)
        (Multiset.mem_add.mpr (.inr (by rw [htr]; simp)))
      rw [load_of_fits hfit hd] at hq
      contradiction
  | handTable t g head rest task hc hp hq hb hr hbuild =>
      refine hadd task (prepared_of_built (TaskQueue.built_of_ok hbuild) (fun _ => ?_) hreg)
      have htab := (h.tables.placed.queued t head (hq ▸ List.mem_cons_self)).2
      rw [htab, hq]
      exact List.cons_ne_nil _ _
  | handBarrier barrier rest task hc hq hrun hheap hl hb =>
      refine hadd task (prepared_of_built (TaskQueue.built_of_ok hb) (fun hqueued => ?_) hreg)
      have hbar := h.tables.placed.barriers barrier (hq ▸ List.mem_cons_self)
      simp [QueryType.isQueued, hbar] at hqueued
  | _ => exact hmono

theorem live_move (h : s.Live items E) (hm : Move env False s s') : s'.Live items E where
  tables := tableInv_move h.tables hm
  untouched := h.untouched_move hm
  served := h.served_move hm
  registered := h.registered_move hm
  prepared := h.prepared_move hm
  finished := by
    intro c hc
    obtain ⟨hmark, hopen⟩ := h.finished c (finished_move hm ▸ hc)
    exact ⟨fun k hk => Nat.le_trans (hmark k hk) (watermark_le_move hm k),
      fun t ht => h.opened_move hm (hopen t ht)⟩

/-- A completion starts.  Its table queue, if it has tasks, is captured. -/
theorem live_begin (env : Env) {k : Nat} {task : ExecutableTask}
    (h : s.Live items fun _ => False) (hc : s.completing = none)
    (hk : s.inFlight[k]? = some task)
    (hcaptured : ∀ t, task.onCompleted.onQueue t = true → s.queue.queueOf t ≠ [] →
      t ≠ "" ∧ t ≠ controlTableId) :
    (s.begin k task).Live items fun t => t ∈ task.onCompleted.foreign where
  tables := tableInv_begin env h.tables hc hk
  untouched t hn := by
    obtain ⟨heq, _⟩ | ⟨hback, _⟩ := lane_begin hk t
    · rw [heq]
      exact h.untouched t hn
    · exact absurd (h.untouched t hn).2 hback.not_idle
  served t he hne := by
    have hmem : task.onCompleted ∈ s.inFlight.map (·.onCompleted) ++ s.completing.toList :=
      List.mem_append_left _ (List.mem_map_of_mem (List.mem_of_getElem? hk))
    obtain ⟨heq, _⟩ | ⟨_, hq⟩ := lane_begin hk t
    · obtain ht | ht | ht | ⟨c, hc', _⟩ := h.served t he hne
      · exact .inl ht
      · exact .inr (.inl ht)
      · exact .inr (.inr (.inl (heq ▸ ht)))
      · rw [hc] at hc'
        contradiction
    · obtain ⟨hempty, hcontrol⟩ := hcaptured t hq hne
      exact .inr (.inr (.inr ⟨_, rfl, (h.prepared _ hmem).recaptures t hq hempty hcontrol⟩))
  registered := h.registered
  prepared c hc' := by
    refine (h.prepared c ?_).mono fun _ ht => ht
    obtain hc' | hc' := List.mem_append.mp hc'
    · obtain ⟨task', ht', rfl⟩ := List.mem_map.mp hc'
      exact List.mem_append_left _ (List.mem_map_of_mem (List.mem_of_mem_eraseIdx ht'))
    · rw [List.mem_singleton.mp hc']
      exact List.mem_append_left _ (List.mem_map_of_mem (List.mem_of_getElem? hk))
  finished := h.finished

/-- A completion ends. -/
theorem live_finish {c : Completion} (h : s.Live items E) (hc : s.completing = some c)
    (hback : CalledBack c s.queue) (htables : (s.finish c).TableInv fun _ => False) :
    (s.finish c).Live items fun _ => False where
  tables := htables
  untouched := h.untouched
  served t he hne := by
    obtain ht | ht | ht | ⟨c', hc', ht⟩ := h.served t he hne
    · exact .inl ht
    · exact .inr (.inl ht)
    · exact .inr (.inr (.inl ht))
    · obtain rfl := Option.some.inj (hc.symm.trans hc')
      exact .inl (hback.reindexed t ht hne)
  registered := h.registered
  prepared c' hc' := by
    refine (h.prepared c' ?_).mono fun _ ht => ht
    exact (List.mem_append.mp hc').elim (List.mem_append_left _) (fun hc' => by contradiction)
  finished c' hc' := by
    obtain hc' | hc' := List.mem_append.mp hc'
    · exact h.finished c' hc'
    · obtain rfl := List.mem_singleton.mp hc'
      have hprep := h.prepared c' (List.mem_append_right _ (by rw [hc]; exact List.mem_cons_self))
      refine ⟨fun k hk => hback.watermark (hprep.updates (List.ne_nil_of_mem hk)) k hk,
        fun t ht => ?_⟩
      obtain hreg | hopened := hprep.opens t ht
      · have hdrop : c'.type ≠ .drop := by
          rintro hty
          rw [hprep.drops hty] at hreg
          contradiction
        exact h.registered t (hback.registration hdrop t hreg)
      · exact hopened

end Stage

/-! ## runs -/

/-- Where two tasks queue for one table, the completion of the first one enters the
queue into the index again. -/
def Recaptured (items : List ScheduledItem) : Prop :=
  ∀ x ∈ items, ∀ y ∈ items, x.seq < y.seq → x.type.isQueued = true → y.type.isQueued = true →
    x.tableId = y.tableId → x.tableId ≠ "" ∧ x.tableId ≠ controlTableId

theorem live_start (env : Env) {tasks : List ParsedQuery} (hinc : Increasing tasks) :
    (RunState.start env tasks).stage.Live (TaskQueue.registered env tasks) fun _ => False := by
  have hreg := TaskQueue.registered_registerAll env tasks
  have hentered : ∀ t, ¬ (RunState.start env tasks).stage.Entered t := by
    intro t ht
    have ht : t ∈ (TaskQueue.registerAll env tasks).globalIndex.entered := ht
    rw [hreg.globalIndex, GlobalIndex.entered_empty] at ht
    exact ht
  refine ⟨tableInv_start env hinc, fun t _ => ?_, fun t ht => absurd ht (hentered t),
    fun t ht => absurd (registration_start env tasks t) ht, fun c hc => by contradiction,
    fun c hc => by contradiction⟩
  rw [lane_start]
  exact ⟨rfl, rfl, rfl⟩

/-- The queue of a table is told by the part of a task that stays the same. -/
def Ident.onQueue (t : String) (i : Ident) : Bool := i.type.isQueued && decide (i.tableId = t)

theorem Ident.onQueue_of (seq : Nat) (type : QueryType) (tableId : String)
    (depends : DependencyPayload) (t : String) :
    (Ident.of seq type tableId depends).onQueue t = (type.isQueued && decide (tableId = t)) := by
  by_cases hty : type = .load
  · simp [Ident.onQueue, hty, QueryType.isQueued]
  · simp [Ident.onQueue, Ident.of, hty]

theorem ScheduledItem.onQueue_ident (x : ScheduledItem) (t : String) :
    x.ident.onQueue t = x.onQueue t := Ident.onQueue_of ..

theorem Completion.onQueue_ident (c : Completion) (t : String) :
    c.ident.onQueue t = c.onQueue t := Ident.onQueue_of ..

/-- Every task in flight or finished was registered. -/
theorem registered_of_out {env : Env} {guard : RunState → RunAction → Prop}
    {tasks : List ParsedQuery} {r : RunState}
    (run : (scheduler env).Runs guard (.start env tasks) r) {i : Ident} (hi : i ∈ r.stage.out) :
    ∃ x ∈ TaskQueue.registered env tasks, x.ident = i := by
  have hid : i ∈ r.stage.idents := Multiset.mem_add.mpr (.inr hi)
  rw [idents_run run] at hid
  exact List.mem_map.mp (Multiset.mem_coe.mp hid)

/-- A completion captures the queue of its table, if tasks are left in it. -/
theorem captured_of_recaptured {env : Env} {guard : RunState → RunAction → Prop}
    {tasks : List ParsedQuery} (hinc : Increasing tasks)
    (hcap : Recaptured (TaskQueue.registered env tasks)) {r : RunState}
    (run : (scheduler env).Runs guard (.start env tasks) r) {task : ExecutableTask}
    (htask : task ∈ r.inFlight) {t : String} (ht : task.onCompleted.onQueue t = true)
    (hne : r.queue.queueOf t ≠ []) : t ≠ "" ∧ t ≠ controlTableId := by
  obtain ⟨y, hy⟩ := List.exists_mem_of_ne_nil _ hne
  have hstored : y ∈ r.queue.stored := TaskQueue.mem_stored_of_queueOf hy
  have hplaced := (Stage.placed_preserved env True).run run (placed_start env _)
  have hq : y.onQueue t = true := by simp [ScheduledItem.onQueue, hplaced.queued t y hy]
  -- both were registered, and they are not the same task
  obtain ⟨x₀, hx₀, hidx⟩ := registered_of_out run (Stage.ident_mem_out_of_inFlight htask)
  obtain ⟨y₀, hy₀, hidy⟩ := (wakes_run hinc run).registered (Stage.mem_items_of_stored hstored)
  have hqx : x₀.onQueue t = true := by
    rw [← x₀.onQueue_ident, hidx, Completion.onQueue_ident, ht]
  have hqy : y₀.onQueue t = true := by
    rw [← y₀.onQueue_ident, hidy, ScheduledItem.onQueue_ident, hq]
  simp only [ScheduledItem.onQueue, Bool.and_eq_true, decide_eq_true_eq] at hqx hqy
  have hnodup : r.seqs.Nodup := (Multiset.nodup_add.mp (nodup_seqs_run hinc.nodup run)).1
  have hseq : x₀.seq ≠ y₀.seq := by
    have hxs : x₀.seq = task.onCompleted.seq := congrArg Ident.seq hidx
    have hys : y₀.seq = y.seq := congrArg Ident.seq hidy
    rw [hxs, hys]
    have hdisj := (Multiset.nodup_add.mp (Multiset.nodup_add.mp hnodup).1).2.2
    exact fun heq => Multiset.disjoint_left.mp hdisj (heq ▸ Multiset.mem_map_of_mem _ hstored)
      (Multiset.mem_coe.mpr (List.mem_map_of_mem htask))
  have htab : x₀.tableId = y₀.tableId := hqx.2.trans hqy.2.symm
  obtain hlt | hlt := Nat.lt_or_gt_of_ne hseq
  · exact hqx.2 ▸ hcap x₀ hx₀ y₀ hy₀ hlt hqx.1 hqy.1 htab
  · exact hqy.2 ▸ hcap y₀ hy₀ x₀ hx₀ hlt hqy.1 hqx.1 htab.symm

/-- The table queues go on in the runs in which every round draws one candidate and
no busy table is re-indexed. -/
theorem live_run {env : Env} {tasks : List ParsedQuery} (hinc : Increasing tasks)
    (hcap : Recaptured (TaskQueue.registered env tasks)) {guard : RunState → RunAction → Prop}
    (hdraws : ∀ r a, guard r a → r.DrawsOne a)
    (hidle : ∀ r a, guard r a → r.ReindexesIdle a) {r : RunState}
    (run : (scheduler env).Runs guard (.start env tasks) r) :
    r.stage.Live (TaskQueue.registered env tasks) fun _ => False := by
  refine run.invariant_of
    (I := fun r => r.stage.Live (TaskQueue.registered env tasks) fun _ => False)
    (J := fun r => (scheduler env).Reachable (.start env tasks) r) (fun _ run => run.reachable)
    (live_start env hinc) fun r a r' run _ h hg hs => ?_
  cases a with
  | fetch =>
      have hone := @TaskQueue.OneKind.everyFetchRound env _ (hdraws r _ hg rfl) (wf_run run)
      exact moves_preserve Stage.live_move (moves_fetch hs fun _ => hone) h
  | complete k =>
      obtain ⟨task, q, hk, hq, hms, hr'⟩ := @moves_complete _ False _ _ _ hs
      have hbegin := Stage.live_begin env h rfl hk fun t ht hne =>
        captured_of_recaptured hinc hcap run (List.mem_of_getElem? hk) ht hne
      have hend := moves_preserve Stage.live_move hms hbegin
      have htables := tableInv_step (TaskQueue.registered_inj env hinc.nodup)
        (recorded_markAll env hinc) (wakes_run hinc run) h.tables (hidle r _ hg) hs
      rw [hr'] at htables ⊢
      have hback : Stage.CalledBack task.onCompleted q :=
        Stage.calledBack_callback (s := r.stage.begin k task) rfl rfl hq
      exact Stage.live_finish hend rfl hback htables

end LemonDB
