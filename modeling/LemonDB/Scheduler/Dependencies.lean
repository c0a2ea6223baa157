import LemonDB.Scheduler.Placement

/-!
# LemonDB.Scheduler.Dependencies

When a recorded dependency is really finished.  A task is judged by the
watermarks of its keys, and any query on a table advances the watermark of the
table.  A task is handed out after its dependencies, as long as no completion
advances a watermark past a dependency that is still uncompleted
(`CompletesInOrder`).
-/

namespace LemonDB

/-- The sequence numbers recorded by `markScheduled`; 0 where there is no
dependency. -/
def DependencyPayload.dependsOn : DependencyPayload → List Nat
  | .monostate => []
  | .load d => [d.fileDependsOn, d.tableDependsOn]
  | .dump d => [d.fileDependsOn, d.tableDependsOn]
  | .drop d => [d.tableDependsOn]
  | .copyTable d => [d.srcTableDependsOn, d.dstTableDependsOn]

theorem DependencyPayload.exists_waits {p : DependencyPayload} {d : Nat} (t : String)
    (h : d ∈ p.dependsOn) : ∃ k, (k, d) ∈ p.waits t := by
  cases p with
  | monostate => contradiction
  | drop d =>
      obtain rfl := List.mem_singleton.mp h
      exact ⟨_, List.mem_cons_self⟩
  | _ =>
      simp only [dependsOn, List.mem_cons, List.not_mem_nil, or_false] at h
      obtain rfl | rfl := h
      · exact ⟨_, List.mem_cons_self⟩
      · exact ⟨_, List.mem_cons_of_mem _ List.mem_cons_self⟩

/-- The watermark of a key. -/
def TaskQueue.watermark (q : TaskQueue) (k : DepKey) : Nat :=
  q.depManager.lastCompletedFor k.1 k.2

/-- A barrier has nothing to wait for. -/
theorem waits_of_isBarrier {x : ScheduledItem} (hfit : x.Fits) (h : x.type.isBarrier = true) :
    x.waits = [] := by
  unfold ScheduledItem.Fits at hfit
  cases hty : x.type <;> cases hd : x.depends <;>
    simp_all [DependencyPayload.fits, QueryType.isBarrier, ScheduledItem.waits,
      DependencyPayload.waits]

namespace Stage

variable {env : Env} {lossy : Prop} {s s' : Stage}

/-! ## what a move does -/

theorem Placed.fits_of_awaiting (h : s.Placed) {x : ScheduledItem}
    (hx : x ∈ s.queue.stored + s.transit) : x.Fits := by
  obtain hx | hx := Multiset.mem_add.mp hx
  · exact h.fits_of_stored hx
  · exact h.fits_of_mem (Multiset.mem_add.mpr (.inr hx))

/-- A move keeps the watermarks, except for the one that a completion advances. -/
theorem watermark_move (hm : Move env lossy s s') :
    (∀ k, s'.queue.watermark k = s.queue.watermark k) ∨
    ∃ c key, s.completing = some c ∧ key ∈ c.ident.notifies ∧ s.queue.watermark key ≤ c.seq ∧
      ∀ k, s'.queue.watermark k = if k = key then c.seq else s.queue.watermark k := by
  cases hm with
  | park x rest type key htr hw =>
      exact .inl fun _ => DependencyManager.lastCompletedFor_setWaiting ..
  | parkTable t g head rest type key hc hp hq hb hw =>
      exact .inl fun _ => DependencyManager.lastCompletedFor_setWaiting ..
  | handBarrier barrier rest task hc hq hrun hheap hl hb =>
      obtain ⟨g, hrel, _⟩ := ((s.queue.popBarrier barrier rest).countFetch).release_eq env
      simp only [hrel]
      exact .inl fun _ => rfl
  | register c t hc ht =>
      obtain ⟨tables, g, hreg, _⟩ :=
        s.queue.registerTableQueue_eq env t (TaskQueue.placeholder c)
      simp only [hreg]
      exact .inl fun _ => rfl
  | advance c type key popped rest hc hk hle hp =>
      refine .inr ⟨c, (type, key), hc, hk, hle, ?_⟩
      rintro ⟨type', key'⟩
      simp only [TaskQueue.watermark, TaskQueue.advance,
        DependencyManager.lastCompletedFor_setWaiting,
        DependencyManager.lastCompletedFor_setLastCompleted, Prod.mk.injEq]
  | reindex c t hc ht =>
      obtain ⟨g, hup, _⟩ := s.queue.upsertHead_eq env t
      simp only [hup]
      exact .inl fun _ => rfl
  | _ => exact .inl fun _ => rfl

/-- A move lowers no watermark. -/
theorem watermark_le_move (hm : Move env lossy s s') (k : DepKey) :
    s.queue.watermark k ≤ s'.queue.watermark k := by
  obtain hsame | ⟨c, key, _, _, hle, hnew⟩ := watermark_move hm
  · rw [hsame]
  · rw [hnew]
    split
    · next hk => exact hk ▸ hle
    · exact Nat.le_refl _

/-- A move hands out nothing, or a task that was held and has nothing to wait
for. -/
theorem handedOut_move (hplaced : s.Placed) (hm : Move env lossy s s') :
    s'.handedOut = s.handedOut ∨
    ∃ x task, s'.handedOut = s.handedOut ++ [task] ∧ x ∈ s.queue.stored + s.transit ∧
      task.onCompleted.ident = x.ident ∧ s.queue.Ready x := by
  cases hm with
  | handLoad x rest d task hc htr hd hr hb =>
      exact .inr ⟨x, task, rfl, Multiset.mem_add.mpr (.inr (htr ▸ List.mem_cons_self)),
        (TaskQueue.built_of_ok hb).ident, hr⟩
  | handTable t g head rest task hc hp hq hb hr hbuild =>
      have hhead : head ∈ s.queue.queueOf t := hq ▸ List.mem_cons_self
      have hmem := TaskQueue.mem_stored_of_queueOf hhead
      refine .inr ⟨head, task, rfl, Multiset.mem_add.mpr (.inl hmem),
        (TaskQueue.built_of_ok hbuild).ident, hr (hplaced.fits_of_stored hmem) fun hty => ?_⟩
      have hqueued := (hplaced.queued t head hhead).1
      rw [hty] at hqueued
      contradiction
  | handBarrier barrier rest task hc hq hrun hheap hl hb =>
      have hbarrier : barrier ∈ s.queue.barriers := hq ▸ List.mem_cons_self
      have hmem := TaskQueue.mem_stored_of_barriers hbarrier
      refine .inr ⟨barrier, task, rfl, Multiset.mem_add.mpr (.inl hmem),
        (TaskQueue.built_of_ok hb).ident, fun k d hk => ?_⟩
      rw [waits_of_isBarrier (hplaced.fits_of_stored hmem)
        (hplaced.barriers barrier hbarrier)] at hk
      contradiction
  | _ => exact .inl rfl

/-! ## the invariant -/

/-- The task with this sequence number is completed, or completes right now. -/
def Done (s : Stage) (n : Nat) : Prop :=
  (∃ c ∈ s.finished, c.seq = n) ∨ ∃ c, s.completing = some c ∧ c.seq = n

/-- The tasks that the scheduler still may hand out. -/
def pending (s : Stage) : Multiset Ident :=
  (s.queue.stored + s.transit).map ScheduledItem.ident

/-- The watermarks have passed no uncompleted dependency of a pending task, and
those of the task that completes may be advanced to it. -/
structure DependenciesDone (s : Stage) : Prop where
  placed : s.Placed
  passed : ∀ i ∈ s.pending, ∀ p ∈ i.waits, p.2 ≠ 0 → p.2 ≤ s.queue.watermark p.1 → s.Done p.2
  completing : ∀ c, s.completing = some c → ∀ key ∈ c.ident.notifies,
    ∀ i ∈ s.pending, ∀ p ∈ i.waits, p.2 ≠ 0 → p.1 = key → p.2 ≤ c.seq → s.Done p.2
  handed : ∀ task ∈ s.handedOut, ∀ d ∈ task.onCompleted.depends.dependsOn, d ≠ 0 → s.Done d

theorem dependenciesDone_move (h : s.DependenciesDone) (hm : Move env lossy s s') :
    s'.DependenciesDone := by
  have hdone : ∀ n, s'.Done n ↔ s.Done n := fun n => by
    rw [Done, Done, completing_move hm, finished_move hm]
  have hpending : ∀ i ∈ s'.pending, i ∈ s.pending := fun i hi =>
    Multiset.mem_of_le (stored_move (fun _ _ => rfl) ident_resolve hm) hi
  constructor
  · exact placed_move h.placed hm
  · intro i hi p hp hne hle
    rw [hdone]
    obtain hsame | ⟨c, key, hc, hkey, _, hnew⟩ := watermark_move hm
    · rw [hsame] at hle
      exact h.passed i (hpending i hi) p hp hne hle
    · rw [hnew] at hle
      split at hle
      · next hk => exact h.completing c hc key hkey i (hpending i hi) p hp hne hk hle
      · exact h.passed i (hpending i hi) p hp hne hle
  · intro c hc key hkey i hi p hp hne hk hle
    rw [hdone]
    exact h.completing c (completing_move hm ▸ hc) key hkey i (hpending i hi) p hp hne hk hle
  · intro task ht d hd hne
    rw [hdone]
    obtain hsame | ⟨x, new, hout, hx, hid, hready⟩ := handedOut_move h.placed hm
    · exact h.handed task (hsame ▸ ht) d hd hne
    · rw [hout] at ht
      obtain ht | ht := List.mem_append.mp ht
      · exact h.handed task ht d hd hne
      · have hdep : new.onCompleted.depends = x.depends := congrArg Ident.depends hid
        rw [List.mem_singleton.mp ht, hdep] at hd
        obtain ⟨k, hk⟩ := DependencyPayload.exists_waits x.tableId hd
        exact h.passed x.ident (Multiset.mem_map_of_mem _ hx) (k, d)
          ((ScheduledItem.mem_waits_ident (h.placed.fits_of_awaiting hx) hne).mpr hk) hne
          (hready k d hk)

end Stage

/-! ## runs -/

/-- The dependencies of an item that the watermark of a key passes when it is
advanced to a sequence number. -/
def TaskQueue.passes (q : TaskQueue) (key : DepKey) (n : Nat) (x : ScheduledItem) : List Nat :=
  (x.waits.filter fun p => p.1 = key ∧ q.watermark key < p.2 ∧ p.2 < n).map (·.2)

/-- The step advances no watermark past a dependency of a pending task that is
not completed. -/
def CompletesInOrder (r : RunState) (a : RunAction) : Prop :=
  ∀ task ∈ r.completes a, ∀ key ∈ task.onCompleted.ident.notifies, ∀ x ∈ r.queue.stored,
    ∀ d ∈ r.queue.passes key task.onCompleted.seq x, d ∈ r.finished.map (·.seq)

instance (r : RunState) (a : RunAction) : Decidable (CompletesInOrder r a) :=
  inferInstanceAs (Decidable (∀ task ∈ r.completes a, _))

theorem dependenciesDone_step {env : Env} {r r' : RunState} {a : RunAction}
    (h : r.stage.DependenciesDone) (hg : CompletesInOrder r a)
    (hs : (scheduler env).step r a = some r') : r'.stage.DependenciesDone := by
  cases a with
  | fetch =>
      have hms : Moves env True r.stage r'.stage := moves_fetch hs fun hn => absurd trivial hn
      exact moves_preserve Stage.dependenciesDone_move hms h
  | complete k =>
      obtain ⟨task, q, hk, _, hms, hr'⟩ := @moves_complete _ True _ _ _ hs
      have hdone : ∀ n, r.stage.Done n → (r.stage.begin k task).Done n := by
        rintro n (hn | ⟨c, hc, _⟩)
        · exact .inl hn
        · contradiction
      have hbegin : (r.stage.begin k task).DependenciesDone := by
        constructor
        · exact (Stage.placed_preserved env True).begin h.placed rfl hk
        · exact fun i hi p hp hne hle => hdone _ (h.passed i hi p hp hne hle)
        · intro c hc key hkey i hi p hp hne hpk hle
          obtain rfl := Option.some.inj hc
          obtain ⟨x, hx, rfl⟩ := Multiset.mem_map.mp hi
          have hx : x ∈ r.queue.stored := by
            refine (Multiset.mem_add.mp hx).resolve_right fun hx => ?_
            contradiction
          have hfit := h.placed.fits_of_stored hx
          by_cases hlow : p.2 ≤ r.queue.watermark key
          · exact hdone _ (h.passed x.ident (Multiset.mem_map_of_mem _ (Multiset.mem_add.mpr
              (.inl hx))) p hp hne (hpk ▸ hlow))
          · obtain hlt | heq := Nat.lt_or_eq_of_le hle
            · refine .inl (List.mem_map.mp (hg task hk key hkey x hx p.2 (List.mem_map.mpr
                ⟨p, List.mem_filter.mpr ⟨(ScheduledItem.mem_waits_ident hfit hne).mp hp, ?_⟩,
                  rfl⟩)))
              exact decide_eq_true ⟨hpk, Nat.lt_of_not_le hlow, hlt⟩
            · exact .inr ⟨_, rfl, heq.symm⟩
        · exact fun t ht d hd hne => hdone d (h.handed t ht d hd hne)
      have hend := moves_preserve Stage.dependenciesDone_move hms hbegin
      have hfinish : ∀ n, ((r.stage.begin k task).withQueue q).Done n →
          (((r.stage.begin k task).withQueue q).finish task.onCompleted).Done n := by
        rintro n (⟨c, hc, hn⟩ | ⟨c, hc, hn⟩)
        · exact .inl ⟨c, List.mem_append_left _ hc, hn⟩
        · obtain rfl := Option.some.inj hc
          exact .inl ⟨_, List.mem_append_right _ List.mem_cons_self, hn⟩
      rw [hr']
      constructor
      · exact (Stage.placed_preserved env True).finish hend.placed rfl
      · exact fun i hi p hp hne hle => hfinish _ (hend.passed i hi p hp hne hle)
      · exact fun c hc => by contradiction
      · exact fun t ht d hd hne => hfinish d (hend.handed t ht d hd hne)

theorem dependenciesDone_start (env : Env) (tasks : List ParsedQuery) :
    (RunState.start env tasks).stage.DependenciesDone := by
  have hreg := TaskQueue.registered_registerAll env tasks
  refine ⟨placed_start env tasks, fun i _ p _ hne hle => ?_, fun c hc => by contradiction,
    fun task ht => by contradiction⟩
  have hzero : (RunState.start env tasks).queue.watermark p.1 = 0 := by
    show (TaskQueue.registerAll env tasks).depManager.lastCompletedFor p.1.1 p.1.2 = 0
    rw [hreg.depManager]
    exact hreg.uncompleted _ _
  have hle : p.2 ≤ (RunState.start env tasks).queue.watermark p.1 := hle
  omega

/-- **Recorded dependencies are finished at hand-out**, in the runs in which no
completion advances a watermark past an uncompleted one. -/
theorem dependencies_finished {env : Env} {tasks : List ParsedQuery} (_hinc : Increasing tasks)
    {r : RunState} (run : (scheduler env).Runs CompletesInOrder (.start env tasks) r)
    {r' : RunState} {task : ExecutableTask} (hfetch : r.fetch env = some r')
    (hout : r'.handedOut = r.handedOut ++ [task]) :
    ∀ d ∈ task.onCompleted.depends.dependsOn, d ≠ 0 → d ∈ r.finished.map (·.seq) := by
  intro d hd hne
  have hstep : (scheduler env).step r .fetch = some r' := hfetch
  have hr' : r'.stage.DependenciesDone := by
    refine (run.tail (fun _ h => by contradiction) hstep).invariant
      (I := fun r => r.stage.DependenciesDone) (dependenciesDone_start env _) ?_
    exact fun r a r' h hg hs => dependenciesDone_step h hg hs
  have hfin : r'.finished = r.finished := by
    obtain ⟨_, q, _, rfl⟩ | ⟨q, _, rfl⟩ := RunState.fetch_cases hfetch
    · rfl
    · rfl
  have htask : task ∈ r'.handedOut := hout ▸ List.mem_append_right _ List.mem_cons_self
  obtain hdone | ⟨c, hc, _⟩ := hr'.handed task htask d hd hne
  · rw [← hfin]
    exact List.mem_map.mpr hdone
  · contradiction

/-- `DROP T` (3) is handed out after the COPYTABLE into `T` (2). -/
theorem dependencies_finished_drop : ∃ r r' task, (scheduler (.binaryHeap id)).Runs
    CompletesInOrder (.start (.binaryHeap id)
      (submitAll [.load "X" "f", .copyTable "X" "T", .drop "T"])) r ∧
    r.fetch (.binaryHeap id) = some r' ∧ r'.handedOut = r.handedOut ++ [task] ∧
    task.onCompleted.depends.dependsOn = [2] ∧ 2 ∈ r.finished.map (·.seq) := by
  obtain ⟨r, run, r', hfetch, task, _, hout, hdep⟩ := (scheduler (.binaryHeap id)).exists_of_execute
    CompletesInOrder (fun r => ∃ r' ∈ r.fetch (.binaryHeap id), ∃ task ∈ r'.handedOut.getLast?,
      r'.handedOut = r.handedOut ++ [task] ∧ task.onCompleted.depends.dependsOn = [2])
    (.start (.binaryHeap id) (submitAll [.load "X" "f", .copyTable "X" "T", .drop "T"]))
    [.fetch, .complete 0, .fetch, .complete 0] (by decide +kernel)
  exact ⟨r, r', task, run, hfetch, hout, hdep,
    dependencies_finished (increasing_submitAll _) run hfetch hout 2
      (hdep ▸ List.mem_cons_self) (by decide)⟩

/-- The completed SELECT (4) lets `DROP T` (5) pass the COPYTABLE into `T` (3), which
it depends on. -/
theorem not_dependencies_finished : ¬ ∀ (env : Env) (tasks : List ParsedQuery),
    Increasing tasks → ∀ r, (scheduler env).Reachable (.start env tasks) r →
    ∀ r' task, r.fetch env = some r' → r'.handedOut = r.handedOut ++ [task] →
    ∀ d ∈ task.onCompleted.depends.dependsOn, d ≠ 0 → d ∈ r.finished.map (·.seq) := by
  intro h
  obtain ⟨r, run, r', hfetch, task, _, hout, hdep, hnot⟩ :=
    (scheduler (.binaryHeap id)).exists_of_execute (fun _ _ => True)
      (fun r => ∃ r' ∈ r.fetch (.binaryHeap id), ∃ task ∈ r'.handedOut.getLast?,
        r'.handedOut = r.handedOut ++ [task] ∧ task.onCompleted.depends.dependsOn = [3] ∧
        3 ∉ r.finished.map (·.seq))
      (.start (.binaryHeap id) (submitAll [.load "X" "f", .load "T" "g", .copyTable "X" "T",
        .select ⟨"T", [], []⟩, .drop "T"]))
      [.fetch, .fetch, .complete 1, .fetch, .complete 1] (by decide +kernel)
  exact hnot (h (.binaryHeap id) _ (increasing_submitAll _) r run r' task hfetch hout 3
    (hdep ▸ List.mem_cons_self) (by decide))

end LemonDB
