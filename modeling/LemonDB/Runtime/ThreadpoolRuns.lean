import LemonDB.Runtime.Serial
import LemonDB.Runtime.Threadpool
import LemonDB.Scheduler.LoadsPreferred

/-!
# LemonDB.Runtime.ThreadpoolRuns

What the thread pool does, in every interleaving of its workers.

The pool refines the runtime (`refines_run`): a task in flight is in a batch, in the
local queue or with one worker, and it is executed once.  So what holds of the
runtime holds of the pool, for any number of threads.  Its locks cannot
deadlock (`no_deadlock`), and once all results are ready, the threads can be stopped
and joined, and leave nothing behind (`shutdown`).
-/

namespace LemonDB

/-! ## where the tasks are -/

/-- The tasks that a worker has to execute, those that it has executed, and those whose
callback is not over. -/
def Worker.share : Worker → Multiset ExecutableTask × Multiset ExecutableTask × Nat
  | fetching batch | fetched batch => (batch, 0, 0)
  | acquiring task | running task => ({task}, 0, 0)
  | fulfilled task => (0, {task}, 0)
  | settling _ => (0, 0, 1)
  | looping | working | releasing _ | exited => 0

namespace Threadpool

variable {env : Env} {p p₁ p' : Threadpool} {i : Nat} {w w' : Worker}

def tally (p : Threadpool) : Multiset ExecutableTask × Multiset ExecutableTask × Nat :=
  Parties.total Worker.share p.workers + ((p.localQueue : Multiset ExecutableTask), 0, 0)

/-- The tasks that are fetched and not executed. -/
def pending (p : Threadpool) : Multiset ExecutableTask := p.tally.1

/-- The tasks that are executed and whose callback has not run. -/
def executed (p : Threadpool) : Multiset ExecutableTask := p.tally.2.1

def settling (p : Threadpool) : Nat := p.tally.2.2

/-- What the workers share with the runtime. -/
def shared (p : Threadpool) : TaskQueue × World × FiniteMap Nat QueryResult × Nat :=
  (p.queue, p.world, p.futures, p.totalSubmitted)

/-- What a step of a worker does to the tasks. -/
inductive Accounts (env : Env) (p p' : Threadpool) : Prop
  | idle : p'.tally = p.tally → p'.shared = p.shared → Accounts env p p'
  | noMore (queue) : p.queue.fetchNext env = .ok (none, queue) → p'.tally = p.tally →
      p'.shared = (queue, p.world, p.futures, p.totalSubmitted) → Accounts env p p'
  | fetch (task queue) : p.queue.fetchNext env = .ok (some task, queue) →
      p'.tally = (task ::ₘ p.pending, p.executed, p.settling) →
      p'.shared = (queue, p.world, p.futures, p.totalSubmitted) → Accounts env p p'
  | execute (task rest) : p.pending = task ::ₘ rest → (task.execute p.world).1 ≠ .undefined →
      p'.tally = (rest, task ::ₘ p.executed, p.settling) →
      p'.shared = (p.queue, (task.execute p.world).2,
        (p.setValue task (task.execute p.world).1).futures, p.totalSubmitted) → Accounts env p p'
  | callback (task rest queue) : p.executed = task ::ₘ rest →
      p.queue.callback env task.onCompleted = .ok queue →
      p'.tally = (p.pending, rest, p.settling + 1) →
      p'.shared = (queue, p.world, p.futures, p.totalSubmitted) → Accounts env p p'
  | decrement (n) : p.settling = n + 1 → p'.tally = (p.pending, p.executed, n) →
      p'.shared = (p.queue.countCompleted, p.world, p.futures, p.totalSubmitted) →
      Accounts env p p'

theorem tally_eq (hw : p.workers[i]? = some w) : p.tally =
    w.share + Parties.total Worker.share (p.workers.eraseIdx i) +
      ((p.localQueue : Multiset ExecutableTask), 0, 0) := by
  rw [tally, Parties.total_erase _ hw]

theorem tally_setWorker (hw : p.workers[i]? = some w) (hsame : p₁.workers = p.workers)
    (w' : Worker) : (p₁.setWorker i w').tally =
      w'.share + Parties.total Worker.share (p.workers.eraseIdx i) +
        ((p₁.localQueue : Multiset ExecutableTask), 0, 0) := by
  rw [tally, ← Parties.total_set _ hw, ← hsame]
  rfl

theorem accounts_work (h : p.work env i = some p') : Accounts env p p' := by
  obtain ⟨w, p₁, w', hw, hworks, rfl⟩ := work_cases h
  have hold := tally_eq hw
  have hnew := tally_setWorker hw hworks.same.1 w'
  have hpending : p.pending = p.tally.1 := rfl
  have hexecuted : p.executed = p.tally.2.1 := rfl
  have hsettling : p.settling = p.tally.2.2 := rfl
  generalize Parties.total Worker.share (p.workers.eraseIdx i) = others at hold hnew
  obtain ⟨others₁, others₂, others₃⟩ := others
  rw [hold] at hpending hexecuted hsettling
  cases hworks with
  | exit hs => exact .idle (hnew.trans hold.symm) rfl
  | loop hs => exact .idle (hnew.trans hold.symm) rfl
  | take task rest hq =>
      refine .idle (hnew.trans (Eq.trans ?_ hold.symm)) rfl
      simp [Worker.share, hq, ← Multiset.cons_coe]
  | empty hq => exact .idle (hnew.trans hold.symm) rfl
  | fetch batch task queue hlt hf =>
      refine .fetch task queue hf (hnew.trans ?_) rfl
      rw [hpending, hexecuted, hsettling]
      simp [Worker.share, ← Multiset.coe_add, add_assoc, add_left_comm]
  | noMore batch queue hlt hf => exact .noMore queue hf (hnew.trans hold.symm) rfl
  | full batch hge => exact .idle (hnew.trans hold.symm) rfl
  | publish batch task rest hq =>
      refine .idle (hnew.trans (Eq.trans ?_ hold.symm)) rfl
      have hq := congrArg (fun l : List ExecutableTask => (l : Multiset ExecutableTask)) hq
      simp only [← Multiset.coe_add, ← Multiset.cons_coe] at hq
      have hsum : {task} + others₁ + (rest : Multiset ExecutableTask) =
          batch + others₁ + p.localQueue := by
        rw [add_right_comm, Multiset.singleton_add, ← hq]
        abel
      exact Prod.ext hsum rfl
  | sleep batch hq =>
      obtain ⟨hq, rfl⟩ := List.append_eq_nil_iff.mp hq
      exact .idle (hnew.trans hold.symm) rfl
  | acquire task lm hlm => exact .idle (hnew.trans hold.symm) rfl
  | execute task hdef =>
      refine .execute task (others₁ + p.localQueue) ?_ hdef (hnew.trans ?_) rfl
      · rw [hpending]
        simp [Worker.share]
      · rw [hexecuted, hsettling]
        simp [Worker.share, setValue]
  | callback task queue hc =>
      refine .callback task others₂ queue ?_ hc (hnew.trans ?_) rfl
      · rw [hexecuted]
        simp [Worker.share]
      · rw [hpending, hsettling]
        simp [Worker.share, add_comm]
  | decrement task =>
      refine .decrement others₃ ?_ (hnew.trans ?_) rfl
      · rw [hsettling]
        simp [Worker.share, add_comm]
      · rw [hpending, hexecuted]
        simp [Worker.share]
  | release task lm hlm => exact .idle (hnew.trans hold.symm) rfl

end Threadpool

/-! ## refinement -/

namespace Runtime

variable {env : Env} {rt : Runtime} {queue : TaskQueue} {task : ExecutableTask}

theorem step_fetch_some (h : rt.queue.fetchNext env = .ok (some task, queue)) :
    (runtime env).step rt .fetch = some { rt with
      queue, inFlight := rt.inFlight ++ [task], handedOut := rt.handedOut ++ [task] } := by
  simp [runtime, SplitState.fetch, RunState.fetch, h, schedule]

theorem step_fetch_none (h : rt.queue.fetchNext env = .ok (none, queue)) :
    (runtime env).step rt .fetch = some { rt with queue } := by
  simp [runtime, SplitState.fetch, RunState.fetch, h, schedule]

theorem step_execute {k : Nat} (hk : rt.inFlight[k]? = some task)
    (hunset : rt.futures.get? task.seq = none) (hdef : (task.execute rt.world).1 ≠ .undefined) :
    (runtime env).step rt (.execute k) = some { rt with
      world := (task.execute rt.world).2
      futures := rt.futures.set task.seq (task.execute rt.world).1 } := by
  change rt.execute k = _
  unfold Runtime.execute
  rw [hk]
  simp only [hunset, Option.isSome_none, Bool.false_eq_true, if_false]

theorem step_apply {k : Nat} (hk : rt.inFlight[k]? = some task)
    (hready : (rt.futures.get? task.seq).isSome = true)
    (hc : rt.queue.callback env task.onCompleted = .ok queue) :
    (runtime env).step rt (.apply k) = some { rt with
      queue, inFlight := rt.inFlight.eraseIdx k, settling := rt.settling + 1,
      finished := rt.finished ++ [task.onCompleted] } := by
  change rt.apply env k = _
  simp [Runtime.apply, SplitState.apply, hk, hready, hc, schedule]

theorem step_decrement {n : Nat} (h : rt.settling = n + 1) :
    (runtime env).step rt .decrement =
      some { rt with queue := rt.queue.countCompleted, settling := n } := by
  simp [runtime, SplitState.decrement, h, schedule]

end Runtime

namespace Threadpool

variable {env : Env} {numThreads : Nat} {queries : List Query} {world : World} {p p' : Threadpool}
  {rt : Runtime}

/-- The runtime that the pool refines. -/
structure Refines (p : Threadpool) (rt : Runtime) : Prop where
  shared : p.shared = (rt.queue, rt.world, rt.futures, rt.totalSubmitted)
  /-- A task in flight is in one place. -/
  tasks : (rt.inFlight : Multiset ExecutableTask) = p.pending + p.executed
  settling : rt.settling = p.settling
  unset : ∀ task ∈ p.pending, rt.futures.get? task.seq = none
  ready : ∀ task ∈ p.executed, (rt.futures.get? task.seq).isSome = true
  known : ∀ n, (rt.futures.get? n).isSome = true →
    n ∈ rt.finished.map (·.seq) ∨ ∃ task ∈ p.executed, task.seq = n

theorem refines_start (env : Env) (numThreads : Nat) (queries : List Query) (world : World) :
    (start env numThreads queries world).Refines (.start env queries world) := by
  have htally : (start env numThreads queries world).tally = 0 := by
    have htotal : Parties.total Worker.share (start env numThreads queries world).workers = 0 :=
      Parties.total_eq_zero fun w hw => by rw [List.eq_of_mem_replicate hw]; rfl
    rw [tally, htotal]
    rfl
  constructor
  case shared => rfl
  case tasks =>
    rw [pending, executed, htally]
    rfl
  case settling =>
    rw [Threadpool.settling, htally]
    rfl
  case unset =>
    rw [pending, htally]
    exact fun task ht => absurd ht (Multiset.notMem_zero task)
  case ready =>
    rw [executed, htally]
    exact fun task ht => absurd ht (Multiset.notMem_zero task)
  case known => exact fun n hn => by contradiction

/-- The position of a task in flight. -/
theorem Refines.position (h : p.Refines rt) (task : ExecutableTask)
    (ht : task ∈ p.pending + p.executed) : ∃ k, rt.inFlight[k]? = some task ∧
      task ::ₘ (rt.inFlight.eraseIdx k : Multiset ExecutableTask) = p.pending + p.executed := by
  rw [← h.tasks, Multiset.mem_coe] at ht
  obtain ⟨k, hk⟩ := List.getElem?_of_mem ht
  obtain ⟨hlt, rfl⟩ := List.getElem?_eq_some_iff.mp hk
  refine ⟨k, hk, ?_⟩
  rw [← h.tasks, Multiset.cons_coe]
  exact Multiset.coe_eq_coe.mpr (List.getElem_cons_eraseIdx_perm hlt)

/-- A step that moves no task changes the task queue only. -/
theorem Refines.keep (h : p.Refines rt) {queue : TaskQueue} (htally : p'.tally = p.tally)
    (hshared : p'.shared = (queue, rt.world, rt.futures, rt.totalSubmitted)) :
    p'.Refines { rt with queue } := by
  have hpending : p'.pending = p.pending := congrArg (·.1) htally
  have hexecuted : p'.executed = p.executed := congrArg (·.2.1) htally
  have hsettling : p'.settling = p.settling := congrArg (·.2.2) htally
  exact {
    shared := hshared
    tasks := by rw [hpending, hexecuted]; exact h.tasks
    settling := h.settling.trans hsettling.symm
    unset := hpending ▸ h.unset
    ready := hexecuted ▸ h.ready
    known := hexecuted ▸ h.known }

/-- A task that is fetched has no future yet: its sequence number is nowhere else. -/
theorem Refines.fresh (run : (runtime env).Reachable (.start env queries world) rt)
    (h : p.Refines rt) {task : ExecutableTask} {queue : TaskQueue}
    (hf : rt.queue.fetchNext env = .ok (some task, queue)) : rt.futures.get? task.seq = none := by
  have hnodup := nodup_split_run (increasing_submitAll queries).nodup
    (Runtime.scheduler_run (run.tail trivial (Runtime.step_fetch_some hf)))
  have hnodup := Multiset.coe_nodup.mp (Multiset.nodup_add.mp hnodup).2.1
  rw [List.map_append, List.append_assoc] at hnodup
  obtain ⟨_, hnodup, hflight⟩ := List.nodup_append.mp hnodup
  by_contra hset
  obtain hfin | ⟨task', ht', heq⟩ := h.known task.seq (Option.isSome_iff_ne_none.mpr hset)
  · exact (List.nodup_cons.mp hnodup).1 hfin
  · have ht' : task' ∈ rt.inFlight := by
      rw [← Multiset.mem_coe, h.tasks]
      exact Multiset.mem_add.mpr (.inr ht')
    exact hflight _ (List.mem_map_of_mem ht') _ List.mem_cons_self heq

/-- A fetched task is pending. -/
theorem Refines.fetch (run : (runtime env).Reachable (.start env queries world) rt)
    (h : p.Refines rt) {task : ExecutableTask} {queue : TaskQueue}
    (hf : rt.queue.fetchNext env = .ok (some task, queue))
    (htally : p'.tally = (task ::ₘ p.pending, p.executed, p.settling))
    (hshared : p'.shared = (queue, rt.world, rt.futures, rt.totalSubmitted)) :
    p'.Refines { rt with
      queue, inFlight := rt.inFlight ++ [task], handedOut := rt.handedOut ++ [task] } := by
  have hpending : p'.pending = task ::ₘ p.pending := congrArg (·.1) htally
  have hexecuted : p'.executed = p.executed := congrArg (·.2.1) htally
  have hsettling : p'.settling = p.settling := congrArg (·.2.2) htally
  constructor
  case shared => exact hshared
  case tasks =>
    rw [hpending, hexecuted, ← Multiset.coe_add, h.tasks, Multiset.coe_singleton, add_comm,
      Multiset.singleton_add, Multiset.cons_add]
  case settling => exact h.settling.trans hsettling.symm
  case unset =>
    intro t ht
    rw [hpending] at ht
    obtain rfl | ht := Multiset.mem_cons.mp ht
    · exact h.fresh run hf
    · exact h.unset t ht
  case ready => exact hexecuted ▸ h.ready
  case known => exact hexecuted ▸ h.known

/-- The other pending tasks have other sequence numbers. -/
theorem Refines.seq_ne (run : (runtime env).Reachable (.start env queries world) rt)
    (h : p.Refines rt) {task : ExecutableTask} {rest : Multiset ExecutableTask}
    (hrest : p.pending = task ::ₘ rest) : ∀ t ∈ rest, t.seq ≠ task.seq := by
  have hnodup := nodup_inFlight (increasing_submitAll queries).nodup (Runtime.scheduler_run run)
  rw [← Multiset.coe_nodup, ← Multiset.map_coe, h.tasks, hrest, Multiset.cons_add,
    Multiset.map_cons] at hnodup
  intro t ht heq
  refine (Multiset.nodup_cons.mp hnodup).1 ?_
  rw [← heq]
  exact Multiset.mem_map_of_mem _ (Multiset.mem_add.mpr (.inl ht))

/-- A task that is executed has its result, and awaits its callback. -/
theorem Refines.execute (run : (runtime env).Reachable (.start env queries world) rt)
    (h : p.Refines rt) {task : ExecutableTask} {rest : Multiset ExecutableTask}
    {result : QueryResult} {world' : World} (hrest : p.pending = task ::ₘ rest)
    (htally : p'.tally = (rest, task ::ₘ p.executed, p.settling))
    (hshared : p'.shared = (rt.queue, world', rt.futures.set task.seq result,
      rt.totalSubmitted)) :
    p'.Refines { rt with world := world', futures := rt.futures.set task.seq result } := by
  have hpending : p'.pending = rest := congrArg (·.1) htally
  have hexecuted : p'.executed = task ::ₘ p.executed := congrArg (·.2.1) htally
  have hsettling : p'.settling = p.settling := congrArg (·.2.2) htally
  constructor
  case shared => exact hshared
  case tasks =>
    rw [hpending, hexecuted, Multiset.add_cons, ← Multiset.cons_add, ← hrest]
    exact h.tasks
  case settling => exact h.settling.trans hsettling.symm
  case unset =>
    intro t ht
    rw [hpending] at ht
    have hold := h.unset t (hrest ▸ Multiset.mem_cons_of_mem ht)
    exact (FiniteMap.get?_set_of_ne _ _ (h.seq_ne run hrest t ht)).trans hold
  case ready =>
    intro t ht
    rw [FiniteMap.get?_set]
    split
    · rfl
    · next hne =>
        rw [hexecuted] at ht
        obtain rfl | ht := Multiset.mem_cons.mp ht
        · exact absurd rfl hne
        · exact h.ready t ht
  case known =>
    intro n hn
    rw [FiniteMap.get?_set] at hn
    rw [hexecuted]
    split at hn
    · next heq => exact .inr ⟨task, Multiset.mem_cons_self task _, heq.symm⟩
    · exact (h.known n hn).imp_right fun ⟨t, ht, heq⟩ => ⟨t, Multiset.mem_cons_of_mem ht, heq⟩

/-- A task whose callback has run is finished. -/
theorem Refines.callback (h : p.Refines rt) {task : ExecutableTask}
    {rest : Multiset ExecutableTask} {queue : TaskQueue} {k : Nat}
    (hrest : p.executed = task ::ₘ rest) (hseq : task.onCompleted.seq = task.seq)
    (herase : task ::ₘ (rt.inFlight.eraseIdx k : Multiset ExecutableTask) =
      p.pending + p.executed)
    (htally : p'.tally = (p.pending, rest, p.settling + 1))
    (hshared : p'.shared = (queue, rt.world, rt.futures, rt.totalSubmitted)) :
    p'.Refines { rt with
      queue, inFlight := rt.inFlight.eraseIdx k, settling := rt.settling + 1,
      finished := rt.finished ++ [task.onCompleted] } := by
  have hpending : p'.pending = p.pending := congrArg (·.1) htally
  have hexecuted : p'.executed = rest := congrArg (·.2.1) htally
  have hsettling : p'.settling = p.settling + 1 := congrArg (·.2.2) htally
  constructor
  case shared => exact hshared
  case tasks =>
    rw [hrest, Multiset.add_cons, Multiset.cons_inj_right] at herase
    rw [hpending, hexecuted, ← herase]
  case settling =>
    rw [hsettling]
    exact congrArg (· + 1) h.settling
  case unset => exact hpending ▸ h.unset
  case ready =>
    intro t ht
    exact h.ready t (hrest ▸ Multiset.mem_cons_of_mem (hexecuted ▸ ht))
  case known =>
    intro n hn
    rw [List.map_append]
    obtain hfin | ⟨t, ht, heq⟩ := h.known n hn
    · exact .inl (List.mem_append_left _ hfin)
    · rw [hrest] at ht
      obtain rfl | ht := Multiset.mem_cons.mp ht
      · exact .inl (List.mem_append_right _ (by simp [hseq, heq]))
      · exact .inr ⟨t, hexecuted ▸ ht, heq⟩

/-- A completion that ends is no longer settling. -/
theorem Refines.decrement (h : p.Refines rt) {n : Nat} {queue : TaskQueue}
    (htally : p'.tally = (p.pending, p.executed, n))
    (hshared : p'.shared = (queue, rt.world, rt.futures, rt.totalSubmitted)) :
    p'.Refines { rt with queue, settling := n } := by
  have hpending : p'.pending = p.pending := congrArg (·.1) htally
  have hexecuted : p'.executed = p.executed := congrArg (·.2.1) htally
  have hsettling : p'.settling = n := congrArg (·.2.2) htally
  exact {
    shared := hshared
    tasks := by rw [hpending, hexecuted]; exact h.tasks
    settling := hsettling.symm
    unset := hpending ▸ h.unset
    ready := hexecuted ▸ h.ready
    known := hexecuted ▸ h.known }

/-- **A step of a worker is a step of the runtime or none.** -/
theorem Refines.work {i : Nat} (run : (runtime env).Reachable (.start env queries world) rt)
    (h : p.Refines rt) (hs : p.work env i = some p') :
    ∃ rt', (rt' = rt ∨ ∃ a, (runtime env).step rt a = some rt') ∧ p'.Refines rt' := by
  obtain ⟨hqueue, hworld, hfutures, htotal⟩ :
      p.queue = rt.queue ∧ p.world = rt.world ∧ p.futures = rt.futures ∧
        p.totalSubmitted = rt.totalSubmitted := by
    simpa [Threadpool.shared] using h.shared
  cases accounts_work hs with
  | idle htally hshared => exact ⟨rt, .inl rfl, h.keep htally (hshared.trans h.shared)⟩
  | noMore queue hf htally hshared =>
      rw [hqueue] at hf
      rw [hworld, hfutures, htotal] at hshared
      exact ⟨_, .inr ⟨.fetch, Runtime.step_fetch_none hf⟩, h.keep htally hshared⟩
  | fetch task queue hf htally hshared =>
      rw [hqueue] at hf
      rw [hworld, hfutures, htotal] at hshared
      exact ⟨_, .inr ⟨.fetch, Runtime.step_fetch_some hf⟩, h.fetch run hf htally hshared⟩
  | execute task rest hrest hdef htally hshared =>
      have hmem : task ∈ p.pending := hrest ▸ Multiset.mem_cons_self task rest
      have hunset := h.unset task hmem
      obtain ⟨k, hk, _⟩ := h.position task (Multiset.mem_add.mpr (.inl hmem))
      rw [hworld] at hdef hshared
      have hset : (p.setValue task (task.execute rt.world).1).futures =
          rt.futures.set task.seq (task.execute rt.world).1 := by
        simp [setValue, hfutures, hunset]
      rw [hset, hqueue, htotal] at hshared
      exact ⟨_, .inr ⟨.execute k, Runtime.step_execute hk hunset hdef⟩,
        h.execute run hrest htally hshared⟩
  | callback task rest queue hrest hc htally hshared =>
      have hmem : task ∈ p.executed := hrest ▸ Multiset.mem_cons_self task rest
      obtain ⟨k, hk, herase⟩ := h.position task (Multiset.mem_add.mpr (.inr hmem))
      rw [hqueue] at hc
      rw [hworld, hfutures, htotal] at hshared
      have hseq : task.onCompleted.seq = task.seq :=
        (captured_split_run (Runtime.scheduler_run run) task
          (List.mem_append_left _ (List.mem_of_getElem? hk))).1
      exact ⟨_, .inr ⟨.apply k, Runtime.step_apply hk (h.ready task hmem) hc⟩,
        h.callback hrest hseq herase htally hshared⟩
  | decrement n hn htally hshared =>
      rw [hqueue, hworld, hfutures, htotal] at hshared
      exact ⟨_, .inr ⟨.decrement, Runtime.step_decrement (h.settling.trans hn)⟩,
        h.decrement htally hshared⟩

/-- A step of the pool is no step or some steps of the runtime. -/
theorem refines_step {a : PoolAction} {p' : Threadpool} {rt : Runtime}
    (run : (runtime env).Reachable (.start env queries world) rt) (h : p.Refines rt)
    (hs : (threadpool env).step p a = some p') :
    ∃ rt', (runtime env).Reachable rt rt' ∧ p'.Refines rt' := by
  cases a with
  | work i =>
      obtain ⟨rt', rfl | ⟨a, hstep⟩, href⟩ := h.work run hs
      · exact ⟨rt', .refl rt', href⟩
      · exact ⟨rt', (Transition.Runs.refl rt).tail trivial hstep, href⟩
  | requestStop i =>
      rw [← Option.some.inj hs]
      exact ⟨rt, .refl rt, h.keep rfl h.shared⟩

/-- **The pool refines the runtime**: whatever its workers do, in any interleaving, a
run of the runtime does. -/
theorem refines_run (run : (threadpool env).Reachable (.start env numThreads queries world) p) :
    ∃ rt, (runtime env).Reachable (.start env queries world) rt ∧ p.Refines rt :=
  run.simulate (refines_start env numThreads queries world) fun _ _ _ _ => refines_step

/-- One worker has fetched the first task, and the other one the other two. -/
theorem refines_run_batches : ∃ p rt, (threadpool (.binaryHeap id)).Reachable
    (.start (.binaryHeap id) 2 [.load "T" "f", .load "U" "g", .load "V" "h"] threeFiles) p ∧
    (runtime (.binaryHeap id)).Reachable
      (.start (.binaryHeap id) [.load "T" "f", .load "U" "g", .load "V" "h"] threeFiles) rt ∧
    p.Refines rt ∧ p.workers.map (fun w => w.share.1.map (·.seq)) = [{1}, {2, 3}] := by
  obtain ⟨p, run, hp⟩ := (threadpool (.binaryHeap id)).exists_of_execute (fun _ _ => True)
    (fun p => p.workers.map (fun w => w.share.1.map (·.seq)) = [{1}, {2, 3}])
    (.start (.binaryHeap id) 2 [.load "T" "f", .load "U" "g", .load "V" "h"] threeFiles)
    (.replicate 3 (.work 0) ++ .replicate 4 (.work 1)) (by decide +kernel)
  obtain ⟨rt, hrun, href⟩ := refines_run run
  exact ⟨p, rt, run, hrun, href, hp⟩

end Threadpool

/-! ## deadlocks -/

namespace Threadpool

variable {env : Env} {numThreads : Nat} {queries : List Query} {world : World} {p p' : Threadpool}
  {i : Nat} {w : Worker}

/-- The next step of a worker ends the program: an exception of the scheduler that
nobody catches, or undefined behaviour of a query. -/
def Aborts (env : Env) (p : Threadpool) (i : Nat) : Prop :=
  (∃ batch e, p.workers[i]? = some (.fetching batch) ∧ p.queue.fetchNext env = .error e) ∨
  ∃ task, p.workers[i]? = some (.running task) ∧ (task.execute p.world).1 = .undefined

/-- A worker is not blocked. -/
def Enabled (env : Env) (p : Threadpool) (i : Nat) : Prop :=
  (∃ p', p.work env i = some p') ∨ p.Aborts env i

theorem placed_split_run {tasks : List ParsedQuery} {guard : SplitState → SplitAction → Prop}
    {r : SplitState} (run : (splitScheduler env).Runs guard (.start env tasks) r) :
    r.stage.Placed :=
  ((Stage.ranked_preserved env _).run run (ranked_start env tasks)).placed

/-- The callback of an executed task raises no exception. -/
theorem Refines.callback_ok {rt : Runtime} (h : p.Refines rt)
    (run : (runtime env).Reachable (.start env queries world) rt) {task : ExecutableTask}
    (ht : task ∈ p.executed) : ∃ queue, p.queue.callback env task.onCompleted = .ok queue := by
  have hplaced := placed_split_run (Runtime.scheduler_run run)
  have hflight : task ∈ rt.inFlight := by
    rw [← Multiset.mem_coe, h.tasks]
    exact Multiset.mem_add.mpr (.inr ht)
  have hqueue : p.queue = rt.queue := congrArg Prod.fst h.shared
  rw [hqueue]
  exact TaskQueue.callback_ok env hplaced.waitersFit (hplaced.fits_of_inFlight hflight)

/-- Whoever owns a lock is not blocked. -/
theorem enabled_of_executing
    (run : (threadpool env).Reachable (.start env numThreads queries world) p)
    (hw : p.workers[i]? = some w) {task : ExecutableTask} (ht : w.executing = some task) :
    p.Enabled env i := by
  cases w with
  | running task' =>
      by_cases hdef : (task'.execute p.world).1 = .undefined
      · exact .inr (.inr ⟨task', hw, hdef⟩)
      · left
        unfold work
        simp only [hw]
        exact ⟨_, rfl⟩
  | fulfilled task' =>
      obtain ⟨rt, hrun, href⟩ :=
        run.simulate (refines_start env numThreads queries world) fun _ _ _ _ => refines_step
      have hmem : task' ∈ p.executed := by
        rw [executed, tally_eq hw]
        simp [Worker.share]
      obtain ⟨queue, hc⟩ := href.callback_ok hrun hmem
      left
      unfold work
      simp only [hw, hc]
      exact ⟨_, rfl⟩
  | settling task' =>
      left
      unfold work
      rw [hw]
      exact ⟨_, rfl⟩
  | releasing task' =>
      obtain ⟨lm, hlm, _⟩ := (locked_run run).release hw (rfl : _ = some task')
      left
      unfold work
      simp only [hw, hlm]
      exact ⟨_, rfl⟩
  | _ => contradiction

/-- Only a worker that waits for a lock can be blocked. -/
theorem enabled_of_not_acquiring
    (run : (threadpool env).Reachable (.start env numThreads queries world) p)
    (hw : p.workers[i]? = some w) (hlive : w ≠ .exited) (hacq : ∀ task, w ≠ .acquiring task) :
    p.Enabled env i := by
  cases w with
  | exited => contradiction
  | acquiring task => exact absurd rfl (hacq task)
  | running task | fulfilled task | settling task | releasing task =>
      exact enabled_of_executing run hw (rfl : _ = some task)
  | looping =>
      left
      unfold work
      rw [hw]
      exact ⟨_, rfl⟩
  | working =>
      left
      unfold work
      simp only [hw]
      split <;> exact ⟨_, rfl⟩
  | fetched batch =>
      left
      unfold work
      simp only [hw]
      split <;> exact ⟨_, rfl⟩
  | fetching batch =>
      cases hf : p.queue.fetchNext env with
      | error e => exact .inr (.inl ⟨batch, e, hw, hf⟩)
      | ok r =>
          obtain ⟨out, queue⟩ := r
          left
          unfold work
          simp only [hw, hf]
          split
          · cases out <;> exact ⟨_, rfl⟩
          · exact ⟨_, rfl⟩

/-- A lock that cannot be acquired has an owner, who is not blocked. -/
theorem enabled_or_owned
    (run : (threadpool env).Reachable (.start env numThreads queries world) p)
    {task : ExecutableTask} (hw : p.workers[i]? = some (.acquiring task)) : p.Enabled env i ∨
      ∃ mode t, task.guard = some (mode, t) ∧
        ∃ j w' task' mode', j ≠ i ∧ p.workers[j]? = some w' ∧ w'.executing = some task' ∧
          task'.guard = some (mode', t) ∧ p.Enabled env j := by
  cases hlm : p.lockManager.acquire task with
  | some lm =>
      left; left
      unfold work
      simp only [hw, hlm]
      exact ⟨_, rfl⟩
  | none =>
      right
      obtain ⟨mode, t, hg, howned⟩ := LockManager.owned_of_acquire hlm
      obtain ⟨mode', hmode'⟩ := Multiset.exists_mem_of_ne_zero howned
      rw [locked_run run t] at hmode'
      obtain ⟨w', hw', hmode'⟩ := Parties.mem_total hmode'
      obtain ⟨j, hj⟩ := List.getElem?_of_mem hw'
      obtain ⟨task', hexec, hg'⟩ := Worker.mem_holds hmode'
      refine ⟨mode, t, hg, j, w', task', mode', ?_, hj, hexec, hg',
        enabled_of_executing run hj hexec⟩
      rintro rfl
      obtain rfl := Option.some.inj (hw.symm.trans hj)
      contradiction

/-- **No deadlock**: in every state that the pool reaches, a worker that cannot go on
waits for the lock of a table, and some other worker that owns this lock can go
on. -/
theorem no_deadlock (run : (threadpool env).Reachable (.start env numThreads queries world) p)
    (hw : p.workers[i]? = some w) (hlive : w ≠ .exited) : p.Enabled env i ∨
      ∃ task mode t, w = .acquiring task ∧ task.guard = some (mode, t) ∧
        ∃ j w' task' mode', j ≠ i ∧ p.workers[j]? = some w' ∧ w'.executing = some task' ∧
          task'.guard = some (mode', t) ∧ p.Enabled env j := by
  by_cases hacq : ∃ task, w = .acquiring task
  · obtain ⟨task, rfl⟩ := hacq
    obtain hstep | ⟨mode, t, hg, howner⟩ := enabled_or_owned run hw
    · exact .inl hstep
    · exact .inr ⟨task, mode, t, rfl, hg, howner⟩
  · exact .inl (enabled_of_not_acquiring run hw hlive fun task heq => hacq ⟨task, heq⟩)

/-- The callback of a LOAD makes the next task of its table ready, which waits until the
LOAD has released the lock. -/
theorem no_deadlock_load : ∃ p, (threadpool (.binaryHeap id)).Reachable
    (.start (.binaryHeap id) 2 [.load "T" "f", .truncate "T"] {}) p ∧
    p.work (.binaryHeap id) 1 = none ∧ ∃ w ∈ p.workers[1]?, p.Enabled (.binaryHeap id) 1 ∨
      ∃ task mode t, w = .acquiring task ∧ task.guard = some (mode, t) ∧
        ∃ j w' task' mode', j ≠ 1 ∧ p.workers[j]? = some w' ∧ w'.executing = some task' ∧
          task'.guard = some (mode', t) ∧ p.Enabled (.binaryHeap id) j := by
  obtain ⟨p, run, hblocked, w, hw, hlive⟩ := (threadpool (.binaryHeap id)).exists_of_execute
    (fun _ _ => True) (fun p => (p.work (.binaryHeap id) 1).isNone = true ∧
      ∃ w ∈ p.workers[1]?, w.share.1.map (·.seq) = {2})
    (.start (.binaryHeap id) 2 [.load "T" "f", .truncate "T"] {})
    (.replicate 8 (.work 0) ++ .replicate 5 (.work 1)) (by decide +kernel)
  refine ⟨p, run, Option.isNone_iff_eq_none.mp hblocked, w, hw, no_deadlock run hw ?_⟩
  rintro rfl
  exact Multiset.singleton_ne_zero 2 hlive.symm

end Threadpool

/-! ## the end -/

namespace TaskQueue

variable {q : TaskQueue}

/-- Nothing is left to fetch. -/
theorem fetchNext_of_stored (env : Env) (h : q.stored = 0) : ∃ q', q.fetchNext env = .ok (none, q') := by
  have hnone : ∀ x, x ∉ q.stored := fun x hx => Multiset.notMem_zero x (h ▸ hx)
  have hload : q.loadQueue = [] := List.eq_nil_iff_forall_not_mem.mpr fun x hx =>
    hnone x ((q.mem_stored x).mpr (.inl hx))
  have hbar : q.barriers = [] := List.eq_nil_iff_forall_not_mem.mpr fun x hx =>
    hnone x ((q.mem_stored x).mpr (.inr (.inr (.inl hx))))
  have htake : q.takeLoad = (none, q) := by
    unfold takeLoad
    rw [hload]
  obtain ⟨moved, hpick⟩ := pickTable_spec env q
  have hcand : ((pickTable env).run q).1 = none := by
    rw [Option.eq_none_iff_forall_ne_some]
    rintro ⟨head, t⟩ heq
    obtain ⟨⟨rest, hq⟩, _⟩ := hpick.head head t heq
    exact hnone head (mem_stored_of_queueOf (t := t) (hq ▸ List.mem_cons_self))
  have hround : q.fetchRound env = .inr (.ok (none, ((pickTable env).run q).2)) := by
    unfold fetchRound getFetched
    rw [htake]
    dsimp only
    rw [hcand]
    dsimp only
    unfold fetchBarrier
    rw [hpick.frame]
    dsimp only
    rw [hbar]
    rfl
  unfold fetchNext
  split
  · exact ⟨_, (fetchLoop env).run_of_return hround⟩
  · exact ⟨q, rfl⟩

end TaskQueue

/-- How many steps a worker can still take once it is asked to stop. -/
def Worker.left : Worker → Nat
  | exited => 0
  | looping => 1
  | releasing _ => 2
  | settling _ => 3
  | fulfilled _ => 4
  | running _ => 5
  | acquiring _ => 6
  | fetched _ => 7
  | fetching batch => 8 + (fetchBatchSize - batch.length)
  | working => 25

theorem Worker.left_le (w : Worker) : w.left ≤ 25 := by
  cases w <;> simp only [left, fetchBatchSize] <;> omega

namespace Threadpool

variable {env : Env} {numThreads : Nat} {queries : List Query} {world : World} {p p' : Threadpool}
  {i : Nat} {w : Worker} {rt : Runtime}

/-- A step of a worker that is asked to stop brings it closer to its end. -/
theorem left_lt {p₁ : Threadpool} {w' : Worker} (h : Works env p i w p₁ w')
    (hstop : i ∈ p.stopRequested) : w'.left < w.left := by
  cases h with
  | exit => exact Nat.zero_lt_one
  | loop hgo => exact absurd hstop hgo
  | fetch batch task queue hlt =>
      rw [fetchBatchSize] at hlt
      simp only [Worker.left, List.length_append, List.length_singleton, fetchBatchSize]
      omega
  | noMore batch | full batch =>
      simp only [Worker.left]
      omega
  | _ => simp [Worker.left, fetchBatchSize]

/-- The steps that a worker can still take. -/
def left (p : Threadpool) (i : Nat) : Nat := p.workers[i]?.elim 0 Worker.left

theorem left_step {a : PoolAction} (hstop : i ∈ p.stopRequested)
    (hs : (threadpool env).step p a = some p') : i ∈ p'.stopRequested ∧
      (if decide (a = .work i) then 1 else 0) + p'.left i ≤ p.left i := by
  cases a with
  | work j =>
      obtain ⟨w, p₁, w', hw, hworks, rfl⟩ := work_cases hs
      obtain ⟨hworkers, hstops⟩ := hworks.same
      refine ⟨hstops ▸ hstop, ?_⟩
      unfold left setWorker
      rw [hworkers]
      dsimp only
      by_cases hij : j = i
      · subst hij
        have hlt := left_lt hworks hstop
        rw [List.getElem?_set_self (List.getElem?_eq_some_iff.mp hw).1, hw]
        simp only [decide_true, if_true, Option.elim_some]
        omega
      · rw [List.getElem?_set_ne hij]
        simp [hij]
  | requestStop j =>
      obtain rfl := Option.some.inj hs
      exact ⟨List.mem_cons_of_mem j hstop, by simp [requestStop, left]⟩

/-- Each result is ready. -/
def Ready (p : Threadpool) : Prop :=
  ∀ n ∈ List.range' 1 p.totalSubmitted, (p.futures.get? n).isSome = true ∨
    ∃ x ∈ p.queue.abandoned, x.seq = n

theorem ready_of_results {results : List (Option QueryResult)}
    (h : p.getResultsInOrder = some results) : p.Ready := by
  intro n hn
  obtain ⟨k, hk⟩ := List.getElem?_of_mem hn
  obtain ⟨v, hv, _⟩ := getElem?_of_mapM h hk
  unfold Runtime.result at hv
  dsimp only at hv
  cases hf : p.futures.get? n with
  | some result => exact .inl rfl
  | none =>
      simp only [hf] at hv
      split at hv
      · next hany =>
          obtain ⟨x, hx, hseq⟩ := List.any_eq_true.mp hany
          exact .inr ⟨x, hx, of_decide_eq_true hseq⟩
      · contradiction

/-- What is ready stays ready. -/
theorem Ready.work (h : p.Ready) (hs : p.work env i = some p') : p'.Ready := by
  have hkeep : p'.totalSubmitted = p.totalSubmitted →
      (∀ n, (p.futures.get? n).isSome = true → (p'.futures.get? n).isSome = true) →
      (∃ lost, p'.queue.abandoned = p.queue.abandoned ++ lost) → p'.Ready := by
    intro htotal hfut ⟨lost, hlost⟩ n hn
    rw [htotal] at hn
    refine (h n hn).imp (hfut n) fun ⟨x, hx, hseq⟩ => ⟨x, ?_, hseq⟩
    rw [hlost]
    exact List.mem_append_left _ hx
  have hshared : ∀ {queue world futures total},
      p'.shared = (queue, world, futures, total) → p'.queue = queue ∧ p'.futures = futures ∧
        p'.totalSubmitted = total := by
    intro queue world futures total h
    obtain ⟨hq, _, hf, ht⟩ := by simpa [shared] using h
    exact ⟨hq, hf, ht⟩
  cases accounts_work hs with
  | idle _ hsame =>
      obtain ⟨hq, hf, ht⟩ := hshared hsame
      exact hkeep ht (fun n => by rw [hf]; exact id) ⟨[], by rw [hq, List.append_nil]⟩
  | noMore queue hfetch _ hsame | fetch _ queue hfetch _ hsame =>
      obtain ⟨hq, hf, ht⟩ := hshared hsame
      obtain ⟨lost, hlost, _⟩ := TaskQueue.abandoned_fetchNext hfetch
      exact hkeep ht (fun n => by rw [hf]; exact id) ⟨lost, by rw [hq, hlost]⟩
  | execute task rest _ _ _ hsame =>
      obtain ⟨hq, hf, ht⟩ := hshared hsame
      refine hkeep ht (fun n hn => ?_) ⟨[], by rw [hq, List.append_nil]⟩
      rw [hf, setValue]
      dsimp only
      split
      · exact hn
      · rw [FiniteMap.get?_set]
        split
        · rfl
        · exact hn
  | callback task rest queue _ hc _ hsame =>
      obtain ⟨hq, hf, ht⟩ := hshared hsame
      exact hkeep ht (fun n => by rw [hf]; exact id)
        ⟨[], by rw [hq, TaskQueue.abandoned_callback hc, List.append_nil]⟩
  | decrement n _ _ hsame =>
      obtain ⟨hq, hf, ht⟩ := hshared hsame
      exact hkeep ht (fun n => by rw [hf]; exact id) ⟨[], by rw [hq, List.append_nil]; rfl⟩

theorem seq_submitAll (queries : List Query) :
    (submitAll queries).map (·.seq) = List.range' 1 queries.length := by
  rw [submitAll, List.map_map]
  exact List.zipIdx_map_snd 1 queries

/-- Once each result is ready, nothing is left to fetch or to execute. -/
theorem Refines.drained (h : p.Refines rt)
    (run : (runtime env).Reachable (.start env queries world) rt) (hready : p.Ready) :
    p.queue.stored = 0 ∧ p.pending = 0 := by
  have hqueue : p.queue = rt.queue := congrArg Prod.fst h.shared
  have hfutures : p.futures = rt.futures := congrArg (·.2.2.1) h.shared
  have htotal : p.totalSubmitted = queries.length :=
    (congrArg (·.2.2.2) h.shared).trans (totalSubmitted_run run)
  have hseqs := seqs_split_run (Runtime.scheduler_run run)
  have hnodup := nodup_split_run (increasing_submitAll queries).nodup (Runtime.scheduler_run run)
  rw [← hqueue, seq_submitAll, ← htotal] at hseqs
  rw [← hqueue] at hnodup
  obtain ⟨hitems, _, hapart⟩ := Multiset.nodup_add.mp hnodup
  rw [TaskQueue.items_eq, Multiset.map_add] at hitems
  have habandoned : ∀ x ∈ p.queue.abandoned, x.seq ∈ p.queue.items.map (·.seq) := fun x hx =>
    Multiset.mem_map_of_mem _ ((p.queue.mem_items x).mpr (.inr hx))
  have hflight : ∀ task ∈ p.pending + p.executed,
      task.seq ∈ (rt.inFlight.map (·.seq) ++ rt.finished.map (·.seq) : List Nat) := by
    intro task ht
    rw [← h.tasks, Multiset.mem_coe] at ht
    exact List.mem_append_left _ (List.mem_map_of_mem ht)
  constructor
  · refine Multiset.eq_zero_of_forall_notMem fun x hx => ?_
    have hmem : x.seq ∈ p.queue.items.map (·.seq) :=
      Multiset.mem_map_of_mem _ ((p.queue.mem_items x).mpr (.inl hx))
    have hrange := Multiset.mem_add.mpr (Or.inl (b := x.seq ∈
      ((rt.inFlight.map (·.seq) ++ rt.finished.map (·.seq) : List Nat) : Multiset Nat)) hmem)
    rw [hseqs] at hrange
    obtain hset | ⟨y, hy, heq⟩ := hready x.seq hrange
    · -- it was handed out already
      refine Multiset.disjoint_left.mp hapart hmem (Multiset.mem_coe.mpr ?_)
      obtain hfin | ⟨task, ht, heq⟩ := h.known x.seq (hfutures ▸ hset)
      · exact List.mem_append_right _ hfin
      · exact heq ▸ hflight task (Multiset.mem_add.mpr (.inr ht))
    · -- it is stored and abandoned
      refine Multiset.disjoint_left.mp (Multiset.nodup_add.mp hitems).2.2
        (Multiset.mem_map_of_mem (·.seq) hx) ?_
      rw [← heq]
      exact Multiset.mem_map_of_mem (·.seq) (Multiset.mem_coe.mpr hy)
  · refine Multiset.eq_zero_of_forall_notMem fun task ht => ?_
    have hmem := hflight task (Multiset.mem_add.mpr (.inl ht))
    have hrange := Multiset.mem_add.mpr (Or.inr (a := task.seq ∈ p.queue.items.map (·.seq))
      (Multiset.mem_coe.mpr hmem))
    rw [hseqs] at hrange
    obtain hset | ⟨y, hy, heq⟩ := hready task.seq hrange
    · rw [hfutures, h.unset task ht] at hset
      contradiction
    · exact Multiset.disjoint_left.mp hapart (heq ▸ habandoned y hy) (Multiset.mem_coe.mpr hmem)

/-- Nothing ends the program any more. -/
theorem not_aborts (run : (threadpool env).Reachable (.start env numThreads queries world) p)
    (hready : p.Ready) : ¬ p.Aborts env i := by
  obtain ⟨rt, hrun, href⟩ :=
    run.simulate (refines_start env numThreads queries world) fun _ _ _ _ => refines_step
  obtain ⟨hstored, hpending⟩ := href.drained hrun hready
  rintro (⟨batch, e, _, hf⟩ | ⟨task, hw, _⟩)
  · obtain ⟨q', hq'⟩ := TaskQueue.fetchNext_of_stored env hstored
    rw [hf] at hq'
    contradiction
  · rw [pending, tally_eq hw] at hpending
    simp [Worker.share] at hpending

/-- A worker that has nothing to execute waits for no lock. -/
theorem enabled_of_ready (run : (threadpool env).Reachable (.start env numThreads queries world) p)
    (hready : p.Ready) (hw : p.workers[i]? = some w) (hlive : w ≠ .exited) :
    ∃ p', p.work env i = some p' := by
  refine (enabled_of_not_acquiring run hw hlive ?_).resolve_right (not_aborts run hready)
  rintro task rfl
  obtain ⟨rt, hrun, href⟩ :=
    run.simulate (refines_start env numThreads queries world) fun _ _ _ _ => refines_step
  have hpending := (href.drained hrun hready).2
  rw [pending, tally_eq hw] at hpending
  simp [Worker.share] at hpending

end Threadpool

/-- **The threads can be joined**: once all results are ready, no task waits to be
executed, and a thread that is asked to stop exits after at most 25 of its steps, and
is never blocked before. -/
theorem shutdown {env : Env} {numThreads : Nat} {queries : List Query} {world : World}
    {p : Threadpool} (run : (threadpool env).Reachable (.start env numThreads queries world) p)
    {results : List (Option QueryResult)} (hres : p.getResultsInOrder = some results) :
    p.pending = 0 ∧ ∀ i ∈ p.stopRequested, ∀ as p',
      (threadpool env).execute (fun _ _ => true) p as = some p' →
        as.countP (fun a => decide (a = .work i)) ≤ 25 ∧
          ∀ w, p'.workers[i]? = some w → w = .exited ∨ ∃ p'', p'.work env i = some p'' := by
  have hready := Threadpool.ready_of_results hres
  obtain ⟨rt, hrun, href⟩ := run.simulate
    (Threadpool.refines_start env numThreads queries world) fun _ _ _ _ => Threadpool.refines_step
  refine ⟨(href.drained hrun hready).2, fun i hstop as p' hexec => ⟨?_, fun w hw => ?_⟩⟩
  · have hle := Transition.countP_execute_le (I := fun p : Threadpool => i ∈ p.stopRequested)
      (m := fun p => p.left i) (fun p a p' => Threadpool.left_step) as hstop hexec
    have hbound : p.left i ≤ 25 := by
      unfold Threadpool.left
      cases p.workers[i]? with
      | none => exact Nat.zero_le _
      | some w => exact w.left_le
    omega
  · have hrest : (threadpool env).Reachable p p' :=
      Transition.runs_of_execute (fun _ _ _ => trivial) as p hexec
    have hready' : p'.Ready := hrest.invariant hready fun p a p' h _ hs => by
      cases a with
      | work j => exact h.work hs
      | requestStop j => exact Option.some.inj hs ▸ h
    by_cases hlive : w = .exited
    · exact .inl hlive
    · exact .inr (Threadpool.enabled_of_ready (run.trans hrest) hready' hw hlive)

/-- Two workers take turns until the results of two LOADs are ready. -/
theorem shutdown_loads : ∃ p, (threadpool (.binaryHeap id)).Reachable
    (.start (.binaryHeap id) 2 [.load "T" "f", .load "U" "g"] threeFiles) p ∧
    p.stopRequested = [0] ∧ p.pending = 0 ∧ ∀ i ∈ p.stopRequested, ∀ as p',
      (threadpool (.binaryHeap id)).execute (fun _ _ => true) p as = some p' →
        as.countP (fun a => decide (a = .work i)) ≤ 25 ∧ ∀ w, p'.workers[i]? = some w →
          w = .exited ∨ ∃ p'', p'.work (.binaryHeap id) i = some p'' := by
  obtain ⟨p, run, hres, hstop⟩ := (threadpool (.binaryHeap id)).exists_of_execute
    (fun _ _ => True) (fun p => p.getResultsInOrder.isSome = true ∧ p.stopRequested = [0])
    (.start (.binaryHeap id) 2 [.load "T" "f", .load "U" "g"] threeFiles)
    ((List.replicate 7 [.work 0, .work 1]).flatten ++ [.requestStop 0]) (by decide +kernel)
  obtain ⟨results, hres⟩ := Option.isSome_iff_exists.mp hres
  exact ⟨p, run, hstop, shutdown run hres⟩

/-! ## serial equivalence -/

section

variable {env : Env} {numThreads : Nat} {queries : List Query} {world : World} {p : Threadpool}

/-- **No two workers touch the same data at the same time**: where each table is created
first and the files of the LOADs name their tables, the queries that are running do not
depend on each other, and the execution of one of them changes nothing that the other one
reads or writes. -/
theorem workers_independent (h : CreatesFirst queries) (hlist : .list ∉ queries)
    (hnames : ∀ query ∈ queries, query.NamesTable world)
    (run : (threadpool env).Reachable (.start env numThreads queries world) p) {i j : Nat}
    (hne : i ≠ j) {w w' : Worker} (hi : p.workers[i]? = some w) (hj : p.workers[j]? = some w')
    {task task' : ExecutableTask} (hw : w.runs = some task) (hw' : w'.runs = some task') :
    footprint.Independent task.query task'.query ∧
      ∀ k ∈ task'.query.reads, (task.query.execute p.world).2.view k = p.world.view k := by
  obtain ⟨rt, hrun, href⟩ := run.simulate
    (Threadpool.refines_start env numThreads queries world) fun _ _ _ _ => Threadpool.refines_step
  obtain rfl := Worker.eq_running hw
  obtain rfl := Worker.eq_running hw'
  obtain ⟨rest, hrest⟩ := Parties.total_pair Worker.share hne hi hj
  have hpending : p.pending = task ::ₘ task' ::ₘ (rest.1 + p.localQueue) := by
    rw [Threadpool.pending, Threadpool.tally, hrest]
    simp [Worker.share, ← Multiset.singleton_add, add_assoc]
  have hperm := href.tasks
  rw [hpending, Multiset.cons_add, Multiset.cons_add, ← Multiset.coe_toList (rest.1 + _ + _),
    Multiset.cons_coe, Multiset.cons_coe, Multiset.coe_eq_coe] at hperm
  have hpair := (hperm.pairwise_iff fun h => h.symm).mp (inFlight_independent h hlist hrun)
  have hindep := (List.pairwise_cons.mp hpair).1 task' List.mem_cons_self
  -- the LOAD that is running finds what it was parsed for
  have hflight : task ∈ rt.inFlight := hperm.mem_iff.mpr List.mem_cons_self
  have hbuilt := built_run h hrun
  obtain ⟨n, hn, _⟩ := hbuilt.query_of_task (hbuilt.sourced.inFlight task hflight)
  obtain ⟨log, hlog⟩ := executed_run h hlist hrun
  have hok := hlog.namesTable hbuilt hlist hnames (List.mem_of_getElem? hn)
  have hworld : p.world = rt.world := (by simpa [Threadpool.shared] using href.shared :
    p.queue = rt.queue ∧ p.world = rt.world ∧ _).2.1
  rw [hworld]
  exact ⟨hindep, fun k hk => (hindep.view hok k hk).symm⟩

/-- One table is truncated while the other one is read. -/
theorem workers_independent_two : ∃ p, (threadpool (.binaryHeap id)).Reachable
    (.start (.binaryHeap id) 2 twoTables threeFiles) p ∧
    ∃ w ∈ p.workers[0]?, ∃ w' ∈ p.workers[1]?, ∃ task ∈ w.runs, ∃ task' ∈ w'.runs,
      task.seq = 4 ∧ task'.seq = 3 ∧ footprint.Independent task.query task'.query ∧
      ∀ k ∈ task'.query.reads, (task.query.execute p.world).2.view k = p.world.view k := by
  obtain ⟨p, run, w, hi, w', hj, hw, hw'⟩ :=
    (threadpool (.binaryHeap id)).exists_of_execute (fun _ _ => True)
      (fun p => ∃ w ∈ p.workers[0]?, ∃ w' ∈ p.workers[1]?,
        w.runs.map (·.seq) = some 4 ∧ w'.runs.map (·.seq) = some 3)
      (.start (.binaryHeap id) 2 twoTables threeFiles)
      (List.replicate 16 [.work 0, .work 1]).flatten (by decide +kernel)
  obtain ⟨task, hw, hseq⟩ := Option.map_eq_some_iff.mp hw
  obtain ⟨task', hw', hseq'⟩ := Option.map_eq_some_iff.mp hw'
  exact ⟨p, run, w, hi, w', hj, task, hw, task', hw', hseq, hseq',
    workers_independent (by decide +kernel) (by decide) (by decide +kernel) run Nat.zero_ne_one hi
      hj hw hw'⟩

/-- **The threads make no difference**: where each table is created first, no DUMP, DROP,
TRUNCATE or COPYTABLE is submitted in front of a LOAD, and no LIST or SHOWTABLE prints
anything while it is executed, any number of threads outputs what the single-threaded loop
outputs, and leaves the same tables and files. -/
theorem threads_serial_equivalence (h : CreatesFirst queries) (hloads : LoadsFirst queries)
    (hsilent : ∀ query ∈ queries, query.silent = true) (hquit : .quit ∉ queries)
    (hnames : ∀ query ∈ queries, query.NamesTable world)
    (run : (threadpool env).Reachable (.start env numThreads queries world) p)
    {results : List (Option QueryResult)} (hres : p.getResultsInOrder = some results) :
    ∃ w, executeInOrder queries world = some (outputResults results, w) ∧
      ∀ k, p.world.view k = w.view k := by
  obtain ⟨rt, hrun, href⟩ := run.simulate
    (Threadpool.refines_start env numThreads queries world) fun _ _ _ _ => Threadpool.refines_step
  obtain ⟨hqueue, hworld, hfutures, htotal⟩ :
      p.queue = rt.queue ∧ p.world = rt.world ∧ p.futures = rt.futures ∧
        p.totalSubmitted = rt.totalSubmitted := by
    simpa [Threadpool.shared] using href.shared
  rw [Threadpool.getResultsInOrder, hqueue, hfutures, htotal] at hres
  rw [hworld]
  have hready := Runtime.ready_of_results
    (abandoned_of_loadsFirst hloads (Runtime.scheduler_run hrun)) hres
  obtain ⟨results', hres', w, hloop, hview⟩ :=
    serial_of_ready h hsilent hquit hnames hrun hready
  obtain rfl := Option.some.inj (hres'.symm.trans hres)
  exact ⟨w, hloop, hview⟩

end

/-- Two workers take turns until all results are ready. -/
theorem threads_serial_equivalence_two : ∃ p results, (threadpool (.binaryHeap id)).Reachable
    (.start (.binaryHeap id) 2 twoTables threeFiles) p ∧ p.getResultsInOrder = some results ∧
    ∃ w, executeInOrder twoTables threeFiles = some (outputResults results, w) ∧
      ∀ k, p.world.view k = w.view k := by
  obtain ⟨p, run, hsome⟩ := (threadpool (.binaryHeap id)).exists_of_execute (fun _ _ => True)
    (fun p => p.getResultsInOrder.isSome = true)
    (.start (.binaryHeap id) 2 twoTables threeFiles)
    (List.replicate 27 [.work 0, .work 1]).flatten (by decide +kernel)
  obtain ⟨results, hres⟩ := Option.isSome_iff_exists.mp hsome
  exact ⟨p, results, run, hres, threads_serial_equivalence (by decide +kernel) (by decide)
    (by decide) (by decide) (by decide +kernel) run hres⟩

end LemonDB
