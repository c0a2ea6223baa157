import LemonDB.Scheduler.Completions
import LemonDB.Scheduler.Rounds

/-!
# LemonDB.Scheduler.Payloads

Every `std::get` of the scheduler finds its alternative: in every run, whatever
was registered, each item and each completion closure has the payload of its
type, and the load queue holds LOADs only (`payloads_match`).  A callback then
raises no exception, and its task is counted as completed.
-/

namespace LemonDB

namespace Stage

/-- `running` counts the tasks that are handed out and not completed, and
`completed` those that are. -/
structure Counted (s : Stage) : Prop where
  running : s.queue.running = s.inFlight.length + s.completing.toList.length
  completed : s.queue.completed = s.finished.length

variable {env : Env} {lossy : Prop} {s s' : Stage}

/-- A task is handed out. -/
theorem Counted.hand (h : s.Counted) {task : ExecutableTask}
    (hrun : s'.queue.running = s.queue.running + 1)
    (hcomp : s'.queue.completed = s.queue.completed) (hflight : s'.inFlight = s.inFlight ++ [task])
    (hc : s'.completing = s.completing) (hfin : s'.finished = s.finished) : s'.Counted where
  running := by
    rw [hrun, h.running, hflight, hc, List.length_append, List.length_singleton]
    omega
  completed := by rw [hcomp, h.completed, hfin]

theorem counted_move (h : s.Counted) (hm : Move env lossy s s') : s'.Counted := by
  cases hm with
  | handLoad x rest d task => exact h.hand rfl rfl rfl rfl rfl
  | handTable t g head rest task => exact h.hand rfl rfl rfl rfl rfl
  | handBarrier barrier rest task =>
      obtain ⟨g, hrel, _⟩ := (s.queue.popBarrier barrier rest).countFetch.release_eq env
      have hkept : ∀ q, q = (s.queue.popBarrier barrier rest).countFetch.release env →
          q.running = s.queue.running + 1 ∧ q.completed = s.queue.completed := by
        rintro q rfl
        rw [hrel]
        exact ⟨rfl, rfl⟩
      exact h.hand (hkept _ rfl).1 (hkept _ rfl).2 rfl rfl rfl
  | register c t =>
      obtain ⟨tables, g, hreg, _⟩ :=
        s.queue.registerTableQueue_eq env t (TaskQueue.placeholder c)
      simp only [hreg]
      exact ⟨h.running, h.completed⟩
  | reindex c t =>
      obtain ⟨g, hup, _⟩ := s.queue.upsertHead_eq env t
      simp only [hup]
      exact ⟨h.running, h.completed⟩
  | _ => exact ⟨h.running, h.completed⟩

theorem counted_preserved (env : Env) (lossy : Prop) : Preserved env lossy Counted where
  move := counted_move
  begin {s k task} h hc hk := by
    have hlt := List.length_eraseIdx_add_one (List.getElem?_eq_some_iff.mp hk).1
    have hrun := h.running
    rw [hc] at hrun
    constructor
    · show s.queue.running = (s.inFlight.eraseIdx k).length + 1
      rw [hlt]
      exact hrun
    · exact h.completed
  finish {s c} h hc := by
    have hrun := h.running
    rw [hc] at hrun
    constructor
    · show s.queue.running - 1 = s.inFlight.length + 0
      rw [hrun]
      rfl
    · show s.queue.completed + 1 = (s.finished ++ [c]).length
      rw [h.completed, List.length_append, List.length_singleton]

end Stage

/-- Registration counts no task as completed. -/
theorem completed_registerAll (env : Env) (tasks : List ParsedQuery) :
    (TaskQueue.registerAll env tasks).completed = 0 := by
  have hstep : ∀ (q : TaskQueue) (t : ParsedQuery),
      (q.registerTask env t).completed = q.completed := by
    intro q t
    unfold TaskQueue.registerTask
    split
    · rfl
    · dsimp only
      split <;> rfl
  unfold TaskQueue.registerAll
  induction tasks using List.reverseRecOn with
  | nil => rfl
  | append_singleton tasks t ih => rw [List.foldl_append, List.foldl_cons, List.foldl_nil, hstep, ih]

theorem counted_run {env : Env} {tasks : List ParsedQuery} {r : RunState}
    (run : (scheduler env).Reachable (.start env tasks) r) : r.stage.Counted := by
  have hreg := TaskQueue.registered_registerAll env tasks
  exact (Stage.counted_preserved env True).run run ⟨hreg.running, completed_registerAll env tasks⟩

theorem placed_run {env : Env} {tasks : List ParsedQuery} {r : RunState}
    (run : (scheduler env).Reachable (.start env tasks) r) : r.stage.Placed :=
  (Stage.placed_preserved env True).run run (placed_start env tasks)

/-- The callback of a task in flight raises no exception, and counts the task as
completed. -/
theorem onCompleted_counts {env : Env} {r : RunState} (hplaced : r.stage.Placed)
    (hcounted : r.stage.Counted) {task : ExecutableTask} (ht : task ∈ r.inFlight) :
    ∃ q, r.queue.onCompleted env task.onCompleted = .ok q ∧ q.running + 1 = r.queue.running ∧
      q.completed = r.queue.completed + 1 := by
  obtain ⟨k, hk⟩ := List.getElem?_of_mem ht
  obtain ⟨r', hr'⟩ := @onCompleted_ok env _ hplaced _ _ hk
  have hend : r'.stage.Counted := (Stage.counted_preserved env True).step
    (fun _ hn => absurd trivial hn) (a := .complete k) hr' hcounted
  unfold RunState.complete at hr'
  rw [hk] at hr'
  dsimp only at hr'
  cases hq : r.queue.onCompleted env task.onCompleted with
  | error e =>
      rw [hq] at hr'
      contradiction
  | ok q =>
      rw [hq] at hr'
      obtain rfl := Option.some.inj hr'
      have hlen := List.length_eraseIdx_add_one (List.getElem?_eq_some_iff.mp hk).1
      have hrun : r.queue.running = r.inFlight.length + 0 := hcounted.running
      have hrun' : q.running = (r.inFlight.eraseIdx k).length + 0 := hend.running
      have hcomp : r.queue.completed = r.finished.length := hcounted.completed
      have hcomp' : q.completed = (r.finished ++ [task.onCompleted]).length := hend.completed
      rw [List.length_append, List.length_singleton] at hcomp'
      exact ⟨q, rfl, by omega, by omega⟩

/-- A completed task had the payload of its type. -/
theorem Stage.Placed.fits_of_finished {s : Stage} (h : s.Placed) {c : Completion}
    (hc : c ∈ s.finished) : c.depends.fits c.type = true :=
  h.fits _ (Multiset.mem_add.mpr (.inr (ident_mem_out_of_finished hc)))

/-- **Payloads match**: in every run every item in a queue or a heap, and every
completion closure, has the payload of its type; the load queue holds LOADs
only.  So no `std::get` throws, and every callback counts its task as
completed. -/
theorem payloads_match {env : Env} {tasks : List ParsedQuery} {r : RunState}
    (run : (scheduler env).Reachable (.start env tasks) r) :
    (∀ x ∈ r.queue.stored, x.Matches) ∧
    (∀ c ∈ r.inFlight.map (·.onCompleted) ++ r.finished, c.depends.matchesType c.type = true) ∧
    (∀ x ∈ r.queue.loadQueue, x.type = .load) ∧
    r.queue.fetchNext env ≠ .error .badVariantAccess ∧
    (∀ task ∈ r.inFlight, ∃ q, r.queue.onCompleted env task.onCompleted = .ok q ∧
      q.running + 1 = r.queue.running ∧ q.completed = r.queue.completed + 1) := by
  have hplaced := placed_run run
  have hmatch : ∀ x ∈ r.queue.stored, x.Matches := fun x hx =>
    (hplaced.fits_of_stored hx).matches
  refine ⟨hmatch, fun c hc => ?_, hplaced.loads, fun hthrows => ?_,
    fun task ht => onCompleted_counts hplaced (counted_run run) ht⟩
  · obtain hc | hc := List.mem_append.mp hc
    · obtain ⟨task, ht, rfl⟩ := List.mem_map.mp hc
      exact DependencyPayload.matchesType_of_fits (hplaced.fits_of_inFlight ht)
    · exact DependencyPayload.matchesType_of_fits (hplaced.fits_of_finished hc)
  · cases TaskQueue.throws_fetchNext hmatch hthrows with
    | payload x hx hty => exact hty (hplaced.loads x hx)

/-- While `DUMP T g` is in flight, `LOAD g` waits for it. -/
theorem payloads_match_pending : ∃ r, (scheduler (.binaryHeap id)).Reachable
    (.start (.binaryHeap id) (submitAll [.load "T" "f", .dump "T" "g", .load "T" "g"])) r ∧
    (r.queue.depManager.waitingOn .file "g").map (·.seq) = [3] ∧ r.inFlight.map (·.seq) = [2] ∧
    (∀ x ∈ r.queue.stored, x.Matches) ∧
    ∀ task ∈ r.inFlight, ∃ q, r.queue.onCompleted (.binaryHeap id) task.onCompleted = .ok q ∧
      q.running + 1 = r.queue.running ∧ q.completed = r.queue.completed + 1 := by
  obtain ⟨r, run, hwait, hflight⟩ := (scheduler (.binaryHeap id)).exists_of_execute (fun _ _ => True)
    (fun r => (r.queue.depManager.waitingOn .file "g").map (·.seq) = [3] ∧
      r.inFlight.map (·.seq) = [2])
    (.start (.binaryHeap id) (submitAll [.load "T" "f", .dump "T" "g", .load "T" "g"]))
    [.fetch, .fetch, .complete 0, .fetch] (by decide +kernel)
  obtain ⟨hmatch, _, _, _, hcounts⟩ := payloads_match run
  exact ⟨r, run, hwait, hflight, hmatch, hcounts⟩

end LemonDB
