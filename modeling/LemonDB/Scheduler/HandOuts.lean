import LemonDB.Scheduler.Callbacks
import LemonDB.Scheduler.TableOrder
import LemonDB.Scheduler.WakeUps

/-!
# LemonDB.Scheduler.HandOuts

The tasks of a table's queue are handed out one at a time and in order in every run
in which no completion re-indexes a busy table (`ReindexesIdle`).

A LOAD or COPYTABLE may enter the queue of a foreign table into the index.  That is
harmless if the queue is empty, or if no task is away from it but those that wait for
this very completion (`Stage.FreedBy`): these come back with it.
-/

namespace LemonDB

/-- The completion raises the watermark of the key that far. -/
def Completion.Raises (c : Completion) (k : DepKey) (n : Nat) : Prop :=
  .updateDeps ∈ c.actions ∧ k ∈ c.ident.notifies ∧ n ≤ c.seq

namespace Stage

/-- The completion finds the queue of the table empty, or none of its tasks in flight and
none parked that has to wait for anything else. -/
def FreedBy (s : Stage) (c : Completion) (t : String) : Prop :=
  s.queue.queueOf t = [] ∨ (s.lane t).flying = 0 ∧
    ∀ x ∈ s.queue.depManager.waitingItems, x.onQueue t = true →
      ∀ p ∈ x.waits, p.2 ≤ s.queue.watermark p.1 ∨ c.Raises p.1 p.2

instance (c : Completion) (k : DepKey) (n : Nat) : Decidable (c.Raises k n) :=
  inferInstanceAs (Decidable (_ ∧ _ ∧ _))

instance (s : Stage) (c : Completion) (t : String) : Decidable (s.FreedBy c t) :=
  inferInstanceAs (Decidable (_ ∨ _ ∧ ∀ x ∈ _, _ → ∀ p ∈ _, _))

variable {env : Env} {lossy : Prop} {E : String → Prop} {s s' : Stage} {c : Completion}
  {t : String}

/-! ## what a completion does to a lane -/

/-- A table enters the index during a completion only if its queue has a head. -/
theorem pending_completing (hwf : s.queue.globalIndex.WF) (hc : s.completing = some c)
    (hm : Move env lossy s s') (ht : t ∈ s'.queue.globalIndex.pending) :
    t ∈ s.queue.globalIndex.pending ∨ s'.queue.queueOf t ≠ [] := by
  have hpicked : ∀ t' g, s.queue.globalIndex.pickBest env.heap = (some t', g) → t ∈ g.pending →
      t ∈ s.queue.globalIndex.pending := by
    intro t' g hp ht
    rw [(pending_of_pickBest hwf hp).2.1] at ht
    exact ht.1
  cases hm with
  | exhausted g hp =>
      have ht : t ∈ g.pending := ht
      rw [(pending_of_exhausted hwf hp).1] at ht
      contradiction
  | emptyTable t' g hp hq => exact .inl (hpicked t' g hp ht)
  | loseTable t' g hl hp => exact .inl (hpicked t' g hp ht)
  | blockTable t' g head rest hc' hp hq hb => rw [hc] at hc'; contradiction
  | parkTable t' g head rest type key hc' hp hq hb hw => rw [hc] at hc'; contradiction
  | handTable t' g head rest task hc' hp hq hb hr hbuild => rw [hc] at hc'; contradiction
  | handBarrier barrier rest task hc' hq hrun hheap hl hb => rw [hc] at hc'; contradiction
  | register c' t' hc' ht' =>
      obtain ⟨tables, g, hreg, hqueue, _, _, hindex⟩ :=
        s.queue.registerTableQueue_eq env t' (TaskQueue.placeholder c')
      have hqueue := hqueue t
      simp only [hreg] at ht ⊢
      have ht : t ∈ g.pending := ht
      obtain ⟨_, hpend, _⟩ | ⟨hne, hpend, _⟩ := hindex
      · exact .inl (hpend ▸ ht)
      · rw [hpend] at ht
        obtain rfl | ht := ht
        · exact .inr fun hnil => hne (by simpa [hnil] using hqueue.symm)
        · exact .inl ht
  | requeue x rest htr hty =>
      have ht : t ∈ (s.queue.globalIndex.upsert env.heap (some x.tableId) x.priority
        s.queue.fetchTick x.seq).pending := ht
      rw [GlobalIndex.pending_upsert] at ht
      refine ht.symm.imp id ?_
      rintro rfl
      show (s.queue.requeue env x).queueOf x.tableId ≠ []
      rw [TaskQueue.queueOf_requeue, if_pos rfl]
      exact List.cons_ne_nil _ _
  | reindex c' t' hc' ht' =>
      obtain ⟨g, hup, hpend, _⟩ := s.queue.upsertHead_eq env t'
      simp only [hup] at ht ⊢
      have ht : t ∈ g.pending := ht
      rw [hpend] at ht
      split at ht
      · exact .inl ht
      · next hne =>
          obtain rfl | ht := ht
          · exact .inr hne
          · exact .inl ht
  | _ => exact .inl ht

/-- The completion under way, begun in `s₀`, only brings back to the lane of `t` what was
away from it, and enters no empty queue into the index. -/
structure Completes (s s₀ : Stage) (c : Completion) (E : String → Prop) (t : String) :
    Prop where
  tables : s.TableInv E
  completing : s.completing = some c
  parked : ∀ n ∈ (s.lane t).parked, n ∈ (s₀.lane t).parked
  flying : (s₀.lane t).flying = 0 → (s.lane t).flying = 0
  emptied : s₀.queue.queueOf t = [] →
    (s.lane t).Idle ∨ s.queue.queueOf t = [] ∧ t ∉ s.queue.globalIndex.pending

/-- Every move of a completion keeps what is known of a table that it frees. -/
theorem completes_move {s₀ : Stage} (h : s.Completes s₀ c E t) (hm : Move env lossy s s') :
    s'.Completes s₀ c E t := by
  have htables := tableInv_move h.tables hm
  have hc := (completing_move hm).trans h.completing
  obtain heq | ⟨hback, _⟩ | ⟨_, hpick⟩ := lane_move h.tables.placed h.tables.wf
    (fun hc t ht => h.tables.pending t ht (h.tables.free hc t)) hm t
  · refine ⟨htables, hc, heq ▸ h.parked, heq ▸ h.flying, fun hnil => ?_⟩
    rw [heq]
    refine (h.emptied hnil).imp id fun ⟨hqueue, hnot⟩ => ?_
    have hqueue' : s'.queue.queueOf t = [] := by
      have hlane := congrArg Lane.queue heq
      simpa [lane, hqueue] using hlane
    refine ⟨hqueue', fun ht => ?_⟩
    obtain ht | hne := pending_completing h.tables.wf h.completing hm ht
    · exact hnot ht
    · exact hne hqueue'
  · exact ⟨htables, hc, fun n hn => h.parked n (hback.parked_subset n hn),
      fun hzero => hback.flying_eq_zero (h.flying hzero),
      fun _ => .inl (hback.idle (h.tables.ordered t))⟩
  · have hnone := hpick.completing
    rw [h.completing] at hnone
    contradiction

/-- A table that the completion frees is idle when it is in the index at its end. -/
theorem Completes.idle {items : List ScheduledItem} {dm : DependencyManager} {s₀ : Stage}
    (h : s.Completes s₀ c E t) (hinj : ∀ x ∈ items, ∀ y ∈ items, x.seq = y.seq → x = y)
    (hrec : Recorded items dm) (hwakes₀ : s₀.Wakes items) (hwakes : s.Wakes items)
    (htr₀ : s₀.transit = []) (htr : s.transit = [])
    (hmark : ∀ k, s₀.queue.watermark k ≤ s.queue.watermark k) (hback : CalledBack c s.queue)
    (hfreed : s₀.FreedBy c t) (hpend : t ∈ s.queue.globalIndex.pending) : (s.lane t).Idle := by
  obtain hnil | ⟨hflying, hparked⟩ := hfreed
  · exact (h.emptied hnil).resolve_right fun hnot => hnot.2 hpend
  refine ⟨Multiset.eq_zero_of_forall_notMem fun n hn => ?_, h.flying hflying⟩
  -- what is still parked was parked before, and waits for what the completion has raised
  have hn₀ := h.parked n hn
  simp only [lane, htr, htr₀, Multiset.coe_nil, add_zero] at hn hn₀
  obtain ⟨x, hx, rfl⟩ := Multiset.mem_map.mp hn
  obtain ⟨x₀, hx₀, hseq⟩ := Multiset.mem_map.mp hn₀
  obtain ⟨hx, _⟩ := Multiset.mem_filter.mp hx
  obtain ⟨hx₀, hq₀⟩ := Multiset.mem_filter.mp hx₀
  obtain ⟨type, key, hwait⟩ := (DependencyManager.mem_waitingItems _ x).mp hx
  obtain ⟨_, _, hwait₀⟩ := (DependencyManager.mem_waitingItems _ x₀).mp hx₀
  obtain ⟨d, hd, hlt⟩ := hwakes.waits type key x hwait
  obtain ⟨y, hy, hid⟩ := hwakes.registered (mem_items_of_waiting hwait)
  obtain ⟨y₀, hy₀, hid₀⟩ := hwakes₀.registered (mem_items_of_waiting hwait₀)
  have hsame : y = y₀ := by
    have hys : y.seq = x.seq := congrArg Ident.seq hid
    have hys₀ : y₀.seq = x₀.seq := congrArg Ident.seq hid₀
    exact hinj y hy y₀ hy₀ (by omega)
  have hident : x.ident = x₀.ident := by rw [← hid, hsame, hid₀]
  have hd₀ := ScheduledItem.waits_of_ident (hwakes.fits hrec (mem_items_of_waiting hwait)) hident
    (by omega) hd
  have hless : s.queue.watermark (type, key) < d := hlt
  obtain hle | ⟨hact, hk, hle⟩ := hparked x₀ hx₀ hq₀ _ hd₀
  · exact absurd (Nat.le_trans hle (hmark (type, key))) (Nat.not_le_of_lt hless)
  · exact absurd (Nat.le_trans hle (hback.watermark hact _ hk)) (Nat.not_le_of_lt hless)

end Stage

/-! ## runs -/

/-- A completion frees the foreign tables whose queues it may enter into the index. -/
def RunState.ReindexesIdle (r : RunState) (a : RunAction) : Prop :=
  ∀ task ∈ r.completes a, ∀ t ∈ task.onCompleted.foreign, r.stage.FreedBy task.onCompleted t

instance (r : RunState) (a : RunAction) : Decidable (r.ReindexesIdle a) :=
  inferInstanceAs (Decidable (∀ task ∈ r.completes a, ∀ t ∈ _, _))

/-- A step keeps the lanes in order, if it enters only idle tables into the index. -/
theorem tableInv_step {env : Env} {items : List ScheduledItem} {dm : DependencyManager}
    {r r' : RunState} {a : RunAction}
    (hinj : ∀ x ∈ items, ∀ y ∈ items, x.seq = y.seq → x = y) (hrec : Recorded items dm)
    (hwakes : r.stage.Wakes items) (h : r.stage.TableInv fun _ => False) (hg : r.ReindexesIdle a)
    (hs : (scheduler env).step r a = some r') : r'.stage.TableInv fun _ => False := by
  cases a with
  | fetch =>
      have hms : Moves env True r.stage r'.stage := moves_fetch hs fun hn => absurd trivial hn
      exact moves_preserve Stage.tableInv_move hms h
  | complete k =>
      obtain ⟨task, q, hk, hq, hms, hr'⟩ := @moves_complete _ True _ _ _ hs
      have hpres := Stage.wakes_preserved env True hrec hinj
      have hwakes₀ := hpres.begin hwakes rfl hk
      have hwakes' := moves_preserve hpres.move hms hwakes₀
      have hbegin := Stage.tableInv_begin env h rfl hk
      have hback : Stage.CalledBack task.onCompleted q :=
        Stage.calledBack_callback (s := r.stage.begin k task) rfl rfl hq
      have hend := moves_preserve Stage.tableInv_move hms hbegin
      rw [hr']
      refine Stage.tableInv_finish env hend rfl fun t ht hp => ?_
      -- the completing task is not from the queue of this table
      have hforeign : task.onCompleted.onQueue t = false := by
        simpa using (List.mem_filter.mp ht).2
      have hlane : (r.stage.begin k task).lane t = r.stage.lane t := by
        obtain ⟨heq, _⟩ | ⟨_, hown⟩ := Stage.lane_begin (s := r.stage) hk t
        · exact heq
        · rw [hforeign] at hown
          contradiction
      have hstart : (r.stage.begin k task).Completes (r.stage.begin k task) task.onCompleted
          (fun t => t ∈ task.onCompleted.foreign) t := by
        refine ⟨hbegin, rfl, fun _ hn => hn, id, fun hnil => ?_⟩
        by_cases hpend : t ∈ r.stage.queue.globalIndex.pending
        · exact .inl (hlane ▸ h.pending t hpend id)
        · exact .inr ⟨hnil, hpend⟩
      have hfreed : (r.stage.begin k task).FreedBy task.onCompleted t := by
        have hfreed := hg task hk t ht
        unfold Stage.FreedBy at hfreed ⊢
        rwa [hlane]
      exact (moves_preserve Stage.completes_move hms hstart).idle hinj hrec hwakes₀ hwakes' rfl rfl
        (Stage.watermark_le_moves hms) hback hfreed hp

/-- The lanes in which the tasks start. -/
theorem lane_start (env : Env) (tasks : List ParsedQuery) (t : String) :
    (RunState.start env tasks).stage.lane t =
      ⟨((TaskQueue.registered env tasks).filter (·.onQueue t)).map (·.seq), 0, 0, []⟩ := by
  have hreg := TaskQueue.registered_registerAll env tasks
  have hwait : (TaskQueue.registerAll env tasks).depManager.waitingItems = 0 := by
    rw [hreg.depManager]
    exact DependencyManager.waitingItems_eq_zero hreg.waiting
  have hqueue : (TaskQueue.registerAll env tasks).queueOf t =
      (TaskQueue.registered env tasks).filter (·.onQueue t) := hreg.queueOf t
  simp only [Stage.lane, RunState.stage, RunState.start, TaskQueue.setReady, hwait,
    Multiset.coe_nil, add_zero, Multiset.filter_zero, Multiset.map_zero, List.filter_nil,
    List.map_nil, ← hqueue]
  rfl

theorem tableInv_start (env : Env) {tasks : List ParsedQuery} (hinc : Increasing tasks) :
    (RunState.start env tasks).stage.TableInv fun _ => False := by
  have hreg := TaskQueue.registered_registerAll env tasks
  have hsorted := hinc.registered env
  have hindex : (RunState.start env tasks).stage.queue.globalIndex = {} := hreg.globalIndex
  have hblocked : (RunState.start env tasks).stage.queue.waitingTables = [] := hreg.waitingTables
  constructor
  · exact placed_start env _
  · intro t
    rw [lane_start]
    exact { one := by simp, queue := List.pairwise_map.mpr (hsorted.filter _), parked_lt := by simp,
            log_lt := by simp, log_lt_parked := by simp, log := List.Pairwise.nil }
  · rw [hindex]
    exact GlobalIndex.wf_empty
  · intro t ht
    rw [hindex, GlobalIndex.pending_empty] at ht
    exact ht.elim
  · rw [hblocked]
    exact fun t ht => absurd ht List.not_mem_nil
  · rw [hblocked]
    exact fun t ht => absurd ht List.not_mem_nil
  · exact fun c hc => by contradiction
  · exact fun _ _ => id

/-- Runs in which no completion re-indexes a busy table keep the lanes in
order. -/
theorem tableInv_run {env : Env} {tasks : List ParsedQuery} (hinc : Increasing tasks)
    {guard : RunState → RunAction → Prop} (hguard : ∀ r a, guard r a → r.ReindexesIdle a)
    {r : RunState} (run : (scheduler env).Runs guard (.start env tasks) r) :
    r.stage.TableInv fun _ => False :=
  run.invariant_of (I := fun r => r.stage.TableInv fun _ => False)
    (J := fun r => r.stage.Wakes (TaskQueue.registered env tasks)) (fun _ run => wakes_run hinc run)
    (tableInv_start env hinc) fun r a _ hwakes _ h hg hs =>
      tableInv_step (TaskQueue.registered_inj env hinc.nodup) (recorded_markAll env hinc) hwakes h
        (hguard r a hg) hs

/-- The task was taken from the queue of this table. -/
def ExecutableTask.fromQueue (t : String) (task : ExecutableTask) : Bool :=
  task.type.isQueued && decide (task.onCompleted.tableId = t)

theorem fromQueue_eq {r : RunState} (h : r.stage.Captured) (t : String) (l : List ExecutableTask)
    (hl : ∀ task ∈ l, task ∈ r.inFlight ++ r.handedOut) :
    (l.filter (·.onCompleted.onQueue t)).map (·.onCompleted.seq) =
      (l.filter (·.fromQueue t)).map (·.seq) := by
  have hfilter : l.filter (·.onCompleted.onQueue t) = l.filter (·.fromQueue t) := by
    refine List.filter_congr fun task ht => ?_
    rw [Completion.onQueue, ExecutableTask.fromQueue, (h task (hl task ht)).2]
  rw [hfilter]
  exact List.map_congr_left fun task ht => (h task (hl task (List.mem_of_mem_filter ht))).1

/-- **One task per table at a time, and in order**: in every state that a run
reaches without re-indexing a busy table, at most one task of each table's queue
is in flight, and the tasks of that queue were handed out in increasing order. -/
theorem hand_outs_in_order {env : Env} {tasks : List ParsedQuery} (hinc : Increasing tasks)
    {r : RunState} (run : (scheduler env).Runs RunState.ReindexesIdle (.start env tasks) r)
    (t : String) : (r.inFlight.filter (·.fromQueue t)).length ≤ 1 ∧
      ((r.handedOut.filter (·.fromQueue t)).map (·.seq)).Pairwise (· < ·) := by
  have hord := (tableInv_run hinc (fun _ _ h => h) run).ordered t
  have hcap := captured_run run
  have hflight := fromQueue_eq hcap t r.inFlight fun _ h => List.mem_append_left _ h
  have hlog := fromQueue_eq hcap t r.handedOut fun _ h => List.mem_append_right _ h
  constructor
  · have hone := hord.one
    have hcard : (r.stage.lane t).flying.card = (r.inFlight.filter (·.fromQueue t)).length := by
      have h := congrArg List.length hflight
      rw [List.length_map, List.length_map] at h
      exact (List.length_map _).trans h
    omega
  · rw [← hlog]
    exact hord.log

/-- The completed `LOAD h`, queued behind tasks of `T`, re-indexes `T` while
`SELECT T` (4) is in flight: the next one (5) is handed out next to it. -/
theorem concurrent_hand_outs : ∃ r, (scheduler (.binaryHeap id)).Reachable
    (.start (.binaryHeap id) (submitAll [.load "T" "f", .load "U" "g",
      .select ⟨"U", [], []⟩, .select ⟨"T", [], []⟩, .select ⟨"T", [], []⟩, .load "T" "h"])) r ∧
    (r.inFlight.filter (·.fromQueue "T")).map (·.seq) = [4, 5] := by
  exact (scheduler (.binaryHeap id)).exists_of_execute (fun _ _ => True)
    (fun r => (r.inFlight.filter (·.fromQueue "T")).map (·.seq) = [4, 5]) _
    [.fetch, .fetch, .complete 0, .complete 0, .fetch, .fetch, .complete 0, .fetch]
    (by decide +kernel)

/-- Without the second `LOAD T` every table that is re-indexed is idle. -/
theorem hand_outs_in_order_two_tables : ∃ r, (scheduler (.binaryHeap id)).Runs
    RunState.ReindexesIdle (.start (.binaryHeap id) (submitAll [.load "T" "f",
      .load "U" "g", .select ⟨"U", [], []⟩, .select ⟨"T", [], []⟩, .select ⟨"T", [], []⟩])) r ∧
    (r.inFlight.filter (·.fromQueue "T")).map (·.seq) = [5] ∧
    (r.inFlight.filter (·.fromQueue "T")).length ≤ 1 ∧
      ((r.handedOut.filter (·.fromQueue "T")).map (·.seq)).Pairwise (· < ·) := by
  obtain ⟨r, run, hr⟩ := (scheduler (.binaryHeap id)).exists_of_execute
    RunState.ReindexesIdle
    (fun r => (r.inFlight.filter (·.fromQueue "T")).map (·.seq) = [5])
    (.start (.binaryHeap id) (submitAll [.load "T" "f", .load "U" "g", .select ⟨"U", [], []⟩,
      .select ⟨"T", [], []⟩, .select ⟨"T", [], []⟩]))
    [.fetch, .fetch, .complete 0, .complete 0, .fetch, .fetch, .complete 1, .fetch]
    (by decide +kernel)
  exact ⟨r, run, hr, hand_outs_in_order (increasing_submitAll _) run "T"⟩

end LemonDB
