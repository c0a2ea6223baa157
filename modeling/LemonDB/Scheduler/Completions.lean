import LemonDB.Scheduler.Placement

/-!
# LemonDB.Scheduler.Completions

Completions never fail, and completions in two steps.

A callback swallows its exceptions, and does not count its task as completed
after one.  It raises none: the payload of every item is the one of its type
(`callback_ok`).

The callback holds the mutex only for its actions; it decrements `running`
afterwards, and a fetch can come in between.  `splitScheduler` has these two
steps of a completion.
-/

namespace LemonDB

namespace DependencyManager

/-- An item with the payload of its type is judged without an exception. -/
theorem notifyCompleteBreakHelper_ok (type : DependencyType) (n : Nat) {x : ScheduledItem}
    (h : x.Fits) : ∃ b, notifyCompleteBreakHelper type n x = .ok b := by
  unfold ScheduledItem.Fits at h
  unfold notifyCompleteBreakHelper
  cases hty : x.type <;> cases hdep : x.depends <;> cases type <;>
    simp_all [DependencyPayload.fits, DependencyPayload.getLoad, DependencyPayload.getDump,
      DependencyPayload.getDrop, DependencyPayload.getCopyTable, bind, Except.bind, pure,
      Except.pure]

/-- A heap of such items is popped without an exception. -/
theorem popReady_ok {type : DependencyType} {n : Nat} : (heap : List ScheduledItem) →
    (∀ x ∈ heap, x.Fits) → ∃ popped rest, popReady type n heap = .ok (popped, rest)
  | [], _ => ⟨[], [], rfl⟩
  | x :: heap, h => by
      obtain ⟨stops, hstop⟩ := notifyCompleteBreakHelper_ok type n (h x List.mem_cons_self)
      obtain ⟨popped, rest, hrec⟩ := popReady_ok heap fun y hy => h y (List.mem_cons_of_mem _ hy)
      unfold popReady
      rw [hstop]
      cases stops with
      | true => exact ⟨[], x :: heap, rfl⟩
      | false => exact ⟨x :: popped, rest, by rw [hrec]; rfl⟩

end DependencyManager

namespace TaskQueue

/-- Every waiting item has the payload of its type. -/
def WaitersFit (q : TaskQueue) : Prop :=
  ∀ type key, ∀ x ∈ q.depManager.waitingOn type key, x.Fits

variable {q : TaskQueue} {item : ScheduledItem}

/-! ## completions never fail -/

theorem WaitersFit.addWait (h : q.WaitersFit) {x : ScheduledItem} (hx : x.Fits)
    (type : DependencyType) (key : String) : (q.addWait type key x).WaitersFit := by
  intro type' key' y hy
  obtain hy | ⟨heq, _⟩ := (q.depManager.mem_waitingOn_addWait type type' key key' x y).mp hy
  · exact h type' key' y hy
  · exact heq ▸ hx

/-- A notification raises no exception, and keeps the payloads. -/
theorem notifyCompleted_ok (h : q.WaitersFit) (type : DependencyType) (key : String) (n : Nat)
    {ready : List ScheduledItem} (hready : ∀ x ∈ ready, x.Fits) :
    ∃ ready' q', q.notifyCompleted type key n ready = .ok (ready', q') ∧ q'.WaitersFit ∧
      ∀ x ∈ ready', x.Fits := by
  by_cases hlt : n < q.depManager.lastCompletedFor type key
  · refine ⟨ready, q, ?_, h, hready⟩
    rw [notifyCompleted, DependencyManager.notifyCompleted, if_pos hlt]
    rfl
  · obtain ⟨popped, rest, hpop⟩ := DependencyManager.popReady_ok (n := n) _ (h type key)
    obtain ⟨hpopped, hrest⟩ := mem_waitingOn_advance hpop
    refine ⟨ready ++ popped, q.advance type key n rest, ?_, ?_, ?_⟩
    · rw [notifyCompleted, DependencyManager.notifyCompleted, if_neg hlt]
      dsimp only
      rw [DependencyManager.waitingOn_setLastCompleted, hpop]
      rfl
    · exact fun type' key' x hx => h type' key' x (hrest type' key' x hx)
    · intro x hx
      obtain hx | hx := List.mem_append.mp hx
      · exact hready x hx
      · exact h type key x (hpopped x hx)

theorem notifyTables_ok (n : Nat) : (ts : List String) → {q : TaskQueue} → q.WaitersFit →
    {ready : List ScheduledItem} → (∀ x ∈ ready, x.Fits) →
    ∃ ready' q', q.notifyTables n ready ts = .ok (ready', q') ∧ q'.WaitersFit ∧
      ∀ x ∈ ready', x.Fits
  | [], q, h, ready, hready => ⟨ready, q, rfl, h, hready⟩
  | t :: ts, q, h, ready, hready => by
      obtain ⟨ready₁, q₁, h₁, hq₁, hr₁⟩ := notifyCompleted_ok h .table t n hready
      obtain ⟨ready', q', h', hq', hr'⟩ := notifyTables_ok n ts hq₁ hr₁
      exact ⟨ready', q', by rw [notifyTables, h₁]; exact h', hq', hr'⟩

/-- The update of the records raises no exception, and keeps the payloads. -/
theorem updateDependencyRecords_ok (h : q.WaitersFit) (hfit : item.Fits) :
    ∃ readyFile readyTable q', q.updateDependencyRecords item = .ok (readyFile, readyTable, q') ∧
      q'.WaitersFit ∧ (∀ x ∈ readyFile, x.Fits) ∧ ∀ x ∈ readyTable, x.Fits := by
  have hnil : ∀ x ∈ ([] : List ScheduledItem), x.Fits := fun _ hx => absurd hx List.not_mem_nil
  unfold ScheduledItem.Fits at hfit
  unfold updateDependencyRecords
  cases hty : item.type with
  | load =>
      cases hdep : item.depends with
      | load d =>
          obtain ⟨rf, q₁, h₁, hq₁, hr₁⟩ := notifyCompleted_ok h .file d.filePath item.seq hnil
          by_cases hp : d.pendingTable ≠ []
          · obtain ⟨rt, q₂, h₂, hq₂, hr₂⟩ := notifyTables_ok item.seq d.pendingTable hq₁ hnil
            refine ⟨rf, rt, q₂, ?_, hq₂, hr₁, hr₂⟩
            simp [DependencyPayload.getLoad, bind, Except.bind, pure, Except.pure, h₁, h₂, hp]
          · obtain ⟨rt, q₂, h₂, hq₂, hr₂⟩ :=
              notifyCompleted_ok hq₁ .table item.tableId item.seq hnil
            refine ⟨rf, rt, q₂, ?_, hq₂, hr₁, hr₂⟩
            simp [DependencyPayload.getLoad, bind, Except.bind, pure, Except.pure, h₁, h₂, hp]
      | _ => simp [hty, hdep, DependencyPayload.fits] at hfit
  | dump =>
      cases hdep : item.depends with
      | dump d =>
          obtain ⟨rf, q₁, h₁, hq₁, hr₁⟩ := notifyCompleted_ok h .file d.filePath item.seq hnil
          obtain ⟨rt, q₂, h₂, hq₂, hr₂⟩ := notifyCompleted_ok hq₁ .table item.tableId item.seq hnil
          refine ⟨rf, rt, q₂, ?_, hq₂, hr₁, hr₂⟩
          simp [DependencyPayload.getDump, bind, Except.bind, pure, Except.pure, h₁, h₂]
      | _ => simp [hty, hdep, DependencyPayload.fits] at hfit
  | drop =>
      obtain ⟨rt, q₁, h₁, hq₁, hr₁⟩ := notifyCompleted_ok h .table item.tableId item.seq hnil
      cases htbl : q₁.tables.get? item.tableId with
      | none =>
          refine ⟨[], rt, q₁, ?_, hq₁, hnil, hr₁⟩
          simp [bind, Except.bind, pure, Except.pure, h₁, htbl]
      | some tbl =>
          refine ⟨[], rt, q₁.setTable item.tableId { tbl with registered := false }, ?_, hq₁,
            hnil, hr₁⟩
          simp [bind, Except.bind, pure, Except.pure, h₁, htbl]
  | copyTable =>
      cases hdep : item.depends with
      | copyTable d =>
          obtain ⟨rt₁, q₁, h₁, hq₁, hr₁⟩ := notifyCompleted_ok h .table item.tableId item.seq hnil
          obtain ⟨rt₂, q₂, h₂, hq₂, hr₂⟩ := notifyCompleted_ok hq₁ .table d.newTable item.seq hr₁
          refine ⟨[], rt₂, q₂, ?_, hq₂, hnil, hr₂⟩
          simp [DependencyPayload.getCopyTable, bind, Except.bind, pure, Except.pure, h₁, h₂]
      | _ => simp [hty, hdep, DependencyPayload.fits] at hfit
  | _ =>
      by_cases ht : item.tableId ≠ ""
      · obtain ⟨rt, q₁, h₁, hq₁, hr₁⟩ := notifyCompleted_ok h .table item.tableId item.seq hnil
        refine ⟨[], rt, q₁, ?_, hq₁, hnil, hr₁⟩
        simp [bind, Except.bind, pure, Except.pure, h₁, ht]
      · refine ⟨[], [], q, ?_, h, hnil, hnil⟩
        simp [pure, Except.pure, ht]

/-- The items that wait on a file are put back without an exception. -/
theorem updateReadyFiles_ok (env : Env) (h : q.WaitersFit) {x : ScheduledItem} (hfit : x.Fits) :
    ∃ q', q.updateReadyFiles env x = .ok q' ∧ q'.WaitersFit := by
  unfold updateReadyFiles
  by_cases hty : x.type = .load
  · rw [if_pos hty]
    cases hdep : x.depends with
    | load d =>
        dsimp only [DependencyPayload.getLoad, bind, Except.bind]
        split
        · exact ⟨_, rfl, h⟩
        · split
          · exact ⟨_, rfl, h.addWait hfit .table x.tableId⟩
          · exact ⟨_, rfl, h⟩
    | _ => simp [ScheduledItem.Fits, hty, hdep, DependencyPayload.fits] at hfit
  · rw [if_neg hty]
    exact ⟨_, rfl, h⟩

/-- The items that wait on a table are put back without an exception. -/
theorem updateReadyTables_ok (env : Env) (h : q.WaitersFit) {x : ScheduledItem} (hfit : x.Fits) :
    ∃ q', q.updateReadyTables env x = .ok q' ∧ q'.WaitersFit := by
  unfold updateReadyTables
  split
  · exact ⟨_, rfl, h⟩
  · split
    · next hty =>
        cases hdep : x.depends with
        | copyTable d =>
            dsimp only [DependencyPayload.getCopyTable, bind, Except.bind]
            split
            · exact ⟨_, rfl, h.addWait hfit .table x.tableId⟩
            · split
              · exact ⟨_, rfl, h.addWait hfit .table d.newTable⟩
              · exact ⟨_, rfl, h⟩
        | _ => simp [ScheduledItem.Fits, hty, hdep, DependencyPayload.fits] at hfit
    · exact ⟨_, rfl, h⟩

/-- The first action of a completion raises no exception. -/
theorem applyUpdateDeps_ok (env : Env) (h : q.WaitersFit) (hfit : item.Fits) :
    ∃ q', q.applyUpdateDeps env item = .ok q' ∧ q'.WaitersFit := by
  obtain ⟨rf, rt, q₁, h₁, hq₁, hrf, hrt⟩ := updateDependencyRecords_ok h hfit
  obtain ⟨q₂, h₂, hq₂⟩ := Except.foldlM_ok (P := ScheduledItem.Fits)
    (fun q x hq hx => updateReadyFiles_ok env hq hx) rf q₁ hq₁ hrf
  obtain ⟨q', h', hq'⟩ := Except.foldlM_ok (P := ScheduledItem.Fits)
    (fun q x hq hx => updateReadyTables_ok env hq hx) rt q₂ hq₂ hrt
  refine ⟨q', ?_, hq'⟩
  rw [applyUpdateDeps, h₁]
  dsimp only [bind, Except.bind]
  rw [h₂]
  exact h'

theorem WaitersFit.registerTableQueue (env : Env) (h : q.WaitersFit) (t : String)
    (x : ScheduledItem) : (q.registerTableQueue env t x).WaitersFit := by
  obtain ⟨tables, g, hreg, _⟩ := q.registerTableQueue_eq env t x
  rw [hreg]
  exact h

/-- The registration of tables raises no exception. -/
theorem applyRegisterTable_ok (env : Env) (h : q.WaitersFit) (hfit : item.Fits) :
    ∃ q', q.applyRegisterTable env item = .ok q' ∧ q'.WaitersFit := by
  have h₁ := h.registerTableQueue env item.tableId item
  unfold applyRegisterTable
  by_cases hty : item.type = .copyTable
  · rw [if_pos hty]
    cases hdep : item.depends with
    | copyTable d => exact ⟨_, rfl, h₁.registerTableQueue env d.newTable item⟩
    | _ => simp [ScheduledItem.Fits, hty, hdep, DependencyPayload.fits] at hfit
  · rw [if_neg hty]
    exact ⟨_, rfl, h₁⟩

/-- **A callback raises no exception.** -/
theorem callback_ok (env : Env) (h : q.WaitersFit) {c : Completion}
    (hfit : c.depends.fits c.type = true) : ∃ q', q.callback env c = .ok q' := by
  have hitem : (placeholder c).Fits := hfit
  obtain ⟨q₁, h₁, _⟩ : ∃ q', q.applyActions env c.actions (placeholder c) = .ok q' ∧
      q'.WaitersFit := by
    refine Except.foldlM_ok (P := fun _ => True) (fun q a hq _ => ?_) c.actions q h
      (fun _ _ => trivial)
    cases a with
    | registerTable => exact applyRegisterTable_ok env hq hitem
    | updateDeps => exact applyUpdateDeps_ok env hq hitem
  unfold callback
  rw [h₁]
  dsimp only [bind, Except.bind]
  split
  · exact ⟨_, rfl⟩
  · exact ⟨_, rfl⟩

end TaskQueue

/-- What waits has the payload of its type. -/
theorem Stage.Placed.waitersFit {s : Stage} (h : s.Placed) : s.queue.WaitersFit :=
  fun _ _ _ hx => h.fits_of_stored (TaskQueue.mem_stored_of_waitingOn hx)

/-- A task in flight has the payload of its type. -/
theorem Stage.Placed.fits_of_inFlight {s : Stage} (h : s.Placed) {task : ExecutableTask}
    (ht : task ∈ s.inFlight) : task.onCompleted.depends.fits task.onCompleted.type = true :=
  h.fits _ (Multiset.mem_add.mpr (.inr (ident_mem_out_of_inFlight ht)))

/-- A stage between two calls lets every task in flight complete. -/
theorem onCompleted_ok {env : Env} {r : RunState} (h : r.stage.Placed) {k : Nat}
    {task : ExecutableTask} (hk : r.inFlight[k]? = some task) :
    ∃ r', r.complete env k = some r' := by
  obtain ⟨q, hq⟩ := TaskQueue.callback_ok env h.waitersFit
    (h.fits_of_inFlight (List.mem_of_getElem? hk))
  have hq : r.queue.callback env task.onCompleted = .ok q := hq
  unfold RunState.complete TaskQueue.onCompleted
  rw [hk]
  dsimp only
  rw [hq]
  exact ⟨_, rfl⟩

/-! ## completions in two steps -/

/-- A run in which a fetch can come between the two steps of a completion:
`settling` tasks have run their actions and still count as running. -/
structure SplitState extends RunState where
  settling : Nat := 0

/-- The calls of the workers, with completions in two steps. -/
inductive SplitAction where
  | fetch
  | apply (k : Nat)
  | decrement
  deriving DecidableEq, Repr

namespace SplitState

/-- A worker calls `fetchNext`. -/
def fetch (env : Env) (r : SplitState) : Option SplitState :=
  (r.toRunState.fetch env).map fun r' => { toRunState := r', settling := r.settling }

/-- The callback of a task in flight, up to the end of its locked part. -/
def apply (env : Env) (r : SplitState) (k : Nat) : Option SplitState :=
  match r.inFlight[k]? with
  | none => none
  | some task => match r.queue.callback env task.onCompleted with
    | .ok queue =>
        some { r with queue, inFlight := r.inFlight.eraseIdx k, settling := r.settling + 1,
                      finished := r.finished ++ [task.onCompleted] }
    | .error _ => none

/-- The callback of a task in flight that returns. -/
theorem apply_cases {env : Env} {r r' : SplitState} {k : Nat} (h : r.apply env k = some r') :
    ∃ task queue, r.inFlight[k]? = some task ∧ r.queue.callback env task.onCompleted = .ok queue ∧
      r' = { r with queue, inFlight := r.inFlight.eraseIdx k, settling := r.settling + 1,
                    finished := r.finished ++ [task.onCompleted] } := by
  unfold apply at h
  split at h
  · contradiction
  · next task hk =>
      split at h
      · next queue hq => exact ⟨task, queue, hk, hq, (Option.some.inj h).symm⟩
      · contradiction

/-- The rest of a callback. -/
def decrement (r : SplitState) : Option SplitState :=
  if 0 < r.settling then
    some { r with queue := r.queue.countCompleted, settling := r.settling - 1 }
  else none

/-- The state in which a run starts. -/
def start (env : Env) (tasks : List ParsedQuery) : SplitState where
  toRunState := .start env tasks

end SplitState

/-- The scheduler with completions in two steps. -/
def splitScheduler (env : Env) : Transition SplitState SplitAction where
  step r
    | .fetch => r.fetch env
    | .apply k => r.apply env k
    | .decrement => r.decrement

/-- The locked part of a completion ends. -/
def Stage.settle (s : Stage) (c : Completion) : Stage :=
  { s with completing := none, finished := s.finished ++ [c] }

/-- The first step of a completion is a sequence of moves. -/
theorem moves_apply {env : Env} {lossy : Prop} {r r' : SplitState} {k : Nat}
    (h : r.apply env k = some r') : ∃ task q, r.inFlight[k]? = some task ∧
      Moves env lossy (r.stage.begin k task) ((r.stage.begin k task).withQueue q) ∧
      r'.stage = ((r.stage.begin k task).withQueue q).settle task.onCompleted ∧
      r'.settling = r.settling + 1 := by
  obtain ⟨task, q, hk, hq, rfl⟩ := SplitState.apply_cases h
  exact ⟨task, q, hk, Stage.moves_callback rfl rfl hq, rfl, rfl⟩

/-- The property is preserved by whatever happens within a call, for any number
of tasks that are settling. -/
structure SplitPreserved (env : Env) (I : Nat → Stage → Prop) : Prop where
  move : ∀ {n s s'}, I n s → Move env True s s' → I n s'
  begin : ∀ {n s k task}, I n s → s.completing = none → s.inFlight[k]? = some task →
    I n (s.begin k task)
  settle : ∀ {n s c}, I n s → s.completing = some c → s.transit = [] → I (n + 1) (s.settle c)
  decrement : ∀ {n s}, I (n + 1) s → I n (s.withQueue s.queue.countCompleted)

/-- The rule for runs with completions in two steps. -/
theorem SplitPreserved.run {env : Env} {guard : SplitState → SplitAction → Prop}
    {I : Nat → Stage → Prop} (hI : SplitPreserved env I) {r r' : SplitState}
    (run : (splitScheduler env).Runs guard r r') (hr : I r.settling r.stage) :
    I r'.settling r'.stage := by
  refine run.invariant (I := fun r => I r.settling r.stage) hr fun r a r' hr _ hs => ?_
  cases a with
  | fetch =>
      obtain ⟨r₁, hf, rfl⟩ := Option.map_eq_some_iff.mp hs
      exact moves_preserve hI.move (moves_fetch hf fun hn => absurd trivial hn) hr
  | apply k =>
      obtain ⟨task, q, hk, hms, hr', hn⟩ := @moves_apply env True r r' k hs
      rw [hr', hn]
      exact hI.settle (moves_preserve hI.move hms (hI.begin hr rfl hk)) rfl rfl
  | decrement =>
      change r.decrement = some r' at hs
      unfold SplitState.decrement at hs
      split at hs
      · next hpos =>
          rw [← Option.some.inj hs]
          obtain ⟨n, hn⟩ := Nat.exists_eq_succ_of_ne_zero (Nat.ne_of_gt hpos)
          rw [hn] at hr
          simp only [hn, Nat.add_one_sub_one, Nat.succ_eq_add_one]
          exact hI.decrement hr
      · contradiction

end LemonDB
