import LemonDB.Lib.Parties
import LemonDB.Runtime.LockManager
import LemonDB.Runtime.Runtime

/-!
# LemonDB.Runtime.Threadpool

The worker threads.  They share a local queue of fetched tasks; a worker that
finds it empty fetches a batch from the scheduler.  A task is executed, and its
callback run, under the lock of its table.

Each step of a worker is one access to what is shared, under the mutex that guards
it: the local queue, the scheduler, a table lock, and the tables and files for the
whole execution of a query.  So a run is any interleaving of these.  `Works` lists
what a step can do; the invariants are derived from it.
-/

namespace LemonDB

/-! ## the lock of a task -/

inductive QueryKind where
  | read | write | null
  deriving DecidableEq, Repr

def getQueryKind : QueryType → QueryKind
  | .dump | .list | .printTable | .select | .count | .sum | .min | .max => .read
  | .load | .drop | .truncate | .copyTable | .insert | .update | .delete | .duplicate | .add | .sub
  | .swap => .write
  | .quit | .listen | .nop => .null

/-- The lock under which a task is executed. -/
def ExecutableTask.guard (task : ExecutableTask) : Option (LockMode × String) :=
  match getQueryKind task.type with
  | .write => some (.exclusive, resolveTableId task.query)
  | .read => some (.shared, resolveTableId task.query)
  | .null => none

namespace LockManager

/-- The constructor of a `WriteGuard` or `ReadGuard`. -/
def acquire (lm : LockManager) (task : ExecutableTask) : Option LockManager :=
  match task.guard with
  | some (.exclusive, id) => lm.lockX id
  | some (.shared, id) => lm.lockS id
  | none => some lm

/-- The destructor of the guard of a task. -/
def release (lm : LockManager) (task : ExecutableTask) : Option LockManager :=
  match task.guard with
  | some (.exclusive, id) => lm.unlockX id
  | some (.shared, id) => lm.unlockS id
  | none => some lm

end LockManager

/-! ## the workers -/

/-- How many tasks a worker fetches at once. -/
def fetchBatchSize : Nat := 16

/-- Where a worker is. -/
inductive Worker where
  /-- At the condition of `worker_loop`. -/
  | looping
  /-- In `work`, in front of the local queue. -/
  | working
  /-- Fetching a batch, the local queue was empty. -/
  | fetching (batch : List ExecutableTask)
  /-- Putting the batch into the local queue. -/
  | fetched (batch : List ExecutableTask)
  /-- In `executeTask`, in front of the lock. -/
  | acquiring (task : ExecutableTask)
  | running (task : ExecutableTask)
  /-- The promise of the task is fulfilled. -/
  | fulfilled (task : ExecutableTask)
  /-- The locked part of the callback is over. -/
  | settling (task : ExecutableTask)
  | releasing (task : ExecutableTask)
  | exited

/-- The pool, with what its workers share. -/
structure Threadpool where
  workers : List Worker
  localQueue : List ExecutableTask := []
  lockManager : LockManager := {}
  /-- The workers that are asked to stop. -/
  stopRequested : List Nat := []
  queue : TaskQueue
  world : World
  futures : FiniteMap Nat QueryResult := ∅
  totalSubmitted : Nat

/-- `work i` is the next step of the `i`-th worker. -/
inductive PoolAction where
  | work (i : Nat)
  | requestStop (i : Nat)
  deriving DecidableEq, Repr

namespace Threadpool

/-- All queries are submitted to a runtime with this many threads, and the workers can
start. -/
def start (env : Env) (numThreads : Nat) (queries : List Query) (world : World) : Threadpool where
  workers := .replicate numThreads .looping
  queue := (TaskQueue.registerAll env (submitAll queries)).setReady
  world := world
  totalSubmitted := queries.length

def setWorker (p : Threadpool) (i : Nat) (w : Worker) : Threadpool :=
  { p with workers := p.workers.set i w }

/-- Fulfil the promise of a task; an exception for a promise that is fulfilled already is
ignored. -/
def setValue (p : Threadpool) (task : ExecutableTask) (result : QueryResult) : Threadpool :=
  { p with futures :=
      if (p.futures.get? task.seq).isSome then p.futures else p.futures.set task.seq result }

/-- The next step of a worker; none if it is blocked, has exited, or ends the
program. -/
def work (env : Env) (p : Threadpool) (i : Nat) : Option Threadpool :=
  match p.workers[i]? with
  | none | some .exited => none
  | some .looping => some (p.setWorker i (if i ∈ p.stopRequested then .exited else .working))
  | some .working => match p.localQueue with
    | [] => some (p.setWorker i (.fetching []))
    | task :: localQueue => some ({ p with localQueue }.setWorker i (.acquiring task))
  | some (.fetching batch) =>
      if batch.length < fetchBatchSize then match p.queue.fetchNext env with
        | .ok (some task, queue) =>
            some ({ p with queue }.setWorker i (.fetching (batch ++ [task])))
        | .ok (none, queue) => some ({ p with queue }.setWorker i (.fetched batch))
        | .error _ => none
      else some (p.setWorker i (.fetched batch))
  | some (.fetched batch) => match p.localQueue ++ batch with
    | [] => some (p.setWorker i .looping)
    | task :: localQueue => some ({ p with localQueue }.setWorker i (.acquiring task))
  | some (.acquiring task) =>
      (p.lockManager.acquire task).map fun lockManager =>
        { p with lockManager }.setWorker i (.running task)
  | some (.running task) => match task.execute p.world with
    | (.undefined, _) => none
    | (result, world) => some (({ p with world }.setValue task result).setWorker i (.fulfilled task))
  | some (.fulfilled task) => match p.queue.callback env task.onCompleted with
    | .ok queue => some ({ p with queue }.setWorker i (.settling task))
    | .error _ => none
  | some (.settling task) =>
      some ({ p with queue := p.queue.countCompleted }.setWorker i (.releasing task))
  | some (.releasing task) =>
      (p.lockManager.release task).map fun lockManager =>
        { p with lockManager }.setWorker i .looping

/-- The destructor asks a thread to stop, and joins it then. -/
def requestStop (p : Threadpool) (i : Nat) : Threadpool :=
  { p with stopRequested := i :: p.stopRequested }

/-- The results of the runtime that the pool belongs to. -/
def getResultsInOrder (p : Threadpool) : Option (List (Option QueryResult)) :=
  ({ queue := p.queue, world := p.world, futures := p.futures
     totalSubmitted := p.totalSubmitted } : Runtime).getResultsInOrder

end Threadpool

/-- The pool as a transition system. -/
def threadpool (env : Env) : Transition Threadpool PoolAction where
  step p
    | .work i => p.work env i
    | .requestStop i => some (p.requestStop i)

/-! ## what a step does -/

/-- A step of a worker: what it does to the rest of the pool, and where the worker is
then. -/
inductive Works (env : Env) (p : Threadpool) (i : Nat) : Worker → Threadpool → Worker → Prop
  | exit : i ∈ p.stopRequested → Works env p i .looping p .exited
  | loop : i ∉ p.stopRequested → Works env p i .looping p .working
  | take (task rest) : p.localQueue = task :: rest →
      Works env p i .working { p with localQueue := rest } (.acquiring task)
  | empty : p.localQueue = [] → Works env p i .working p (.fetching [])
  | fetch (batch task queue) : batch.length < fetchBatchSize →
      p.queue.fetchNext env = .ok (some task, queue) →
      Works env p i (.fetching batch) { p with queue } (.fetching (batch ++ [task]))
  | noMore (batch queue) : batch.length < fetchBatchSize →
      p.queue.fetchNext env = .ok (none, queue) →
      Works env p i (.fetching batch) { p with queue } (.fetched batch)
  | full (batch) : fetchBatchSize ≤ batch.length →
      Works env p i (.fetching batch) p (.fetched batch)
  | publish (batch task rest) : p.localQueue ++ batch = task :: rest →
      Works env p i (.fetched batch) { p with localQueue := rest } (.acquiring task)
  | sleep (batch) : p.localQueue ++ batch = [] → Works env p i (.fetched batch) p .looping
  | acquire (task lockManager) : p.lockManager.acquire task = some lockManager →
      Works env p i (.acquiring task) { p with lockManager } (.running task)
  | execute (task) : (task.execute p.world).1 ≠ .undefined →
      Works env p i (.running task)
        ({ p with world := (task.execute p.world).2 }.setValue task (task.execute p.world).1)
        (.fulfilled task)
  | callback (task queue) : p.queue.callback env task.onCompleted = .ok queue →
      Works env p i (.fulfilled task) { p with queue } (.settling task)
  | decrement (task) :
      Works env p i (.settling task) { p with queue := p.queue.countCompleted } (.releasing task)
  | release (task lockManager) : p.lockManager.release task = some lockManager →
      Works env p i (.releasing task) { p with lockManager } .looping

/-- A step of one worker leaves the others where they are. -/
theorem Works.same {env : Env} {p p₁ : Threadpool} {i : Nat} {w w' : Worker}
    (h : Works env p i w p₁ w') : p₁.workers = p.workers ∧ p₁.stopRequested = p.stopRequested := by
  cases h <;> exact ⟨rfl, rfl⟩

namespace Threadpool

variable {env : Env} {p p' : Threadpool} {i : Nat}

/-- **What a step of a worker does.** -/
theorem work_cases (h : p.work env i = some p') : ∃ w p₁ w', p.workers[i]? = some w ∧
    Works env p i w p₁ w' ∧ p' = p₁.setWorker i w' := by
  unfold work at h
  split at h
  · contradiction
  · contradiction
  · next hw =>
      rw [← Option.some.inj h]
      split
      · next hs => exact ⟨_, _, _, hw, .exit hs, rfl⟩
      · next hs => exact ⟨_, _, _, hw, .loop hs, rfl⟩
  · next hw =>
      split at h
      · next hq =>
          rw [← Option.some.inj h]
          exact ⟨_, _, _, hw, .empty hq, rfl⟩
      · next task rest hq =>
          rw [← Option.some.inj h]
          exact ⟨_, _, _, hw, .take task rest hq, rfl⟩
  · next batch hw =>
      split at h
      · next hlt =>
          split at h
          · next task queue hf =>
              rw [← Option.some.inj h]
              exact ⟨_, _, _, hw, .fetch batch task queue hlt hf, rfl⟩
          · next queue hf =>
              rw [← Option.some.inj h]
              exact ⟨_, _, _, hw, .noMore batch queue hlt hf, rfl⟩
          · contradiction
      · next hge =>
          rw [← Option.some.inj h]
          exact ⟨_, _, _, hw, .full batch (Nat.le_of_not_lt hge), rfl⟩
  · next batch hw =>
      split at h
      · next hq =>
          rw [← Option.some.inj h]
          exact ⟨_, _, _, hw, .sleep batch hq, rfl⟩
      · next task rest hq =>
          rw [← Option.some.inj h]
          exact ⟨_, _, _, hw, .publish batch task rest hq, rfl⟩
  · next task hw =>
      obtain ⟨lm, hlm, rfl⟩ := Option.map_eq_some_iff.mp h
      exact ⟨_, _, _, hw, .acquire task lm hlm, rfl⟩
  · next task hw =>
      split at h
      · contradiction
      · next result world hundef hexec =>
          rw [← Option.some.inj h]
          have hres : (task.execute p.world).1 = result := congrArg Prod.fst hexec
          have hworld : (task.execute p.world).2 = world := congrArg Prod.snd hexec
          subst hres hworld
          refine ⟨_, _, _, hw, .execute task fun heq => ?_, rfl⟩
          exact hundef heq
  · next task hw =>
      split at h
      · next queue hc =>
          rw [← Option.some.inj h]
          exact ⟨_, _, _, hw, .callback task queue hc, rfl⟩
      · contradiction
  · next task hw =>
      rw [← Option.some.inj h]
      exact ⟨_, _, _, hw, .decrement task, rfl⟩
  · next task hw =>
      obtain ⟨lm, hlm, rfl⟩ := Option.map_eq_some_iff.mp h
      exact ⟨_, _, _, hw, .release task lm hlm, rfl⟩

end Threadpool

/-! ## who owns the locks -/

/-- How a task that is being executed owns the lock of a table. -/
def ExecutableTask.holds (t : String) (task : ExecutableTask) : Multiset LockMode :=
  match task.guard with
  | some (mode, id) => if id = t then {mode} else 0
  | none => 0

namespace LockManager

variable {lm lm' : LockManager} {task : ExecutableTask}

theorem acquire_of_guard {mode : LockMode} {id : String} (h : task.guard = some (mode, id)) :
    lm.acquire task = lm.lockIn mode id := by
  unfold acquire
  rw [h]
  cases mode <;> rfl

theorem release_of_guard {mode : LockMode} {id : String} (h : task.guard = some (mode, id)) :
    lm.release task = lm.unlockIn mode id := by
  unfold release
  rw [h]
  cases mode <;> rfl

theorem owners_acquire (h : lm.acquire task = some lm') (t : String) :
    lm'.owners t = task.holds t + lm.owners t := by
  unfold ExecutableTask.holds
  cases hg : task.guard with
  | none =>
      rw [acquire, hg] at h
      rw [← Option.some.inj h, zero_add]
  | some g =>
      obtain ⟨mode, id⟩ := g
      rw [acquire_of_guard hg] at h
      rw [owners_lockIn h]
      dsimp only
      by_cases ht : t = id
      · subst ht
        simp
      · simp [ht, Ne.symm ht]

/-- A task that owns its lock can give it back. -/
theorem release_of_owners {rest : String → Multiset LockMode}
    (h : ∀ t, lm.owners t = task.holds t + rest t) :
    ∃ lm', lm.release task = some lm' ∧ ∀ t, lm'.owners t = rest t := by
  unfold ExecutableTask.holds at h
  cases hg : task.guard with
  | none =>
      rw [hg] at h
      exact ⟨lm, by rw [release, hg], fun t => (h t).trans (zero_add _)⟩
  | some g =>
      obtain ⟨mode, id⟩ := g
      rw [hg] at h
      dsimp only at h
      obtain ⟨lm', hlm, howners⟩ := unlockIn_of_owners
        ((h id).trans (by rw [if_pos rfl, Multiset.singleton_add]))
      refine ⟨lm', by rw [release_of_guard hg, hlm], fun t => ?_⟩
      rw [howners]
      split
      · next ht => rw [ht]
      · next ht => rw [h, if_neg (Ne.symm ht), zero_add]

/-- A task waits for a lock that is owned. -/
theorem owned_of_acquire (h : lm.acquire task = none) :
    ∃ mode id, task.guard = some (mode, id) ∧ lm.owners id ≠ 0 := by
  cases hg : task.guard with
  | none =>
      rw [acquire, hg] at h
      contradiction
  | some g =>
      obtain ⟨mode, id⟩ := g
      refine ⟨mode, id, rfl, fun hfree => ?_⟩
      obtain ⟨lm', hlm⟩ := lockIn_of_unlocked mode hfree
      rw [acquire_of_guard hg, hlm] at h
      contradiction

end LockManager

/-- The task that a worker executes under its lock. -/
def Worker.executing : Worker → Option ExecutableTask
  | running task | fulfilled task | settling task | releasing task => some task
  | _ => none

/-- The task whose query a worker is running. -/
def Worker.runs : Worker → Option ExecutableTask
  | running task => some task
  | _ => none

theorem Worker.eq_running {w : Worker} {task : ExecutableTask} (h : w.runs = some task) :
    w = .running task := by
  cases w with
  | running task' => rw [Option.some.inj h]
  | _ => contradiction

/-- What a worker has of the lock of a table. -/
def Worker.holds (t : String) (w : Worker) : Multiset LockMode :=
  w.executing.elim 0 (·.holds t)

theorem Worker.mem_holds {t : String} {w : Worker} {mode : LockMode} (h : mode ∈ w.holds t) :
    ∃ task, w.executing = some task ∧ task.guard = some (mode, t) := by
  unfold Worker.holds at h
  cases hw : w.executing with
  | none =>
      rw [hw] at h
      exact absurd h (Multiset.notMem_zero mode)
  | some task =>
      rw [hw, Option.elim_some, ExecutableTask.holds] at h
      split at h
      · next mode' id hg =>
          split at h
          · next ht =>
              rw [Multiset.mem_singleton] at h
              exact ⟨task, rfl, h ▸ ht ▸ hg⟩
          · exact absurd h (Multiset.notMem_zero mode)
      · exact absurd h (Multiset.notMem_zero mode)

namespace Threadpool

variable {env : Env} {p p' : Threadpool} {i : Nat}

/-- The owners of the locks are the workers that execute a task. -/
def Locked (p : Threadpool) : Prop :=
  ∀ t, p.lockManager.owners t = Parties.total (Worker.holds t) p.workers

/-- A worker in `releasing` can go on. -/
theorem Locked.release (h : p.Locked) {w : Worker} {task : ExecutableTask}
    (hw : p.workers[i]? = some w) (ht : w.executing = some task) :
    ∃ lm, p.lockManager.release task = some lm ∧
      ∀ t, lm.owners t = Parties.total (Worker.holds t) (p.workers.eraseIdx i) := by
  refine LockManager.release_of_owners fun t => ?_
  rw [h t, Parties.total_erase _ hw, Worker.holds, ht]
  rfl

theorem Locked.work (h : p.Locked) (hs : p.work env i = some p') : p'.Locked := by
  obtain ⟨w, p₁, w', hw, hworks, rfl⟩ := work_cases hs
  intro t
  have hset : Parties.total (Worker.holds t) (p₁.setWorker i w').workers =
      w'.holds t + Parties.total (Worker.holds t) (p.workers.eraseIdx i) := by
    rw [← Parties.total_set _ hw, ← hworks.same.1]
    rfl
  have hold := h t
  rw [Parties.total_erase _ hw] at hold
  rw [hset]
  cases hworks with
  | acquire task lm hlm =>
      refine (LockManager.owners_acquire hlm t).trans ?_
      rw [hold]
      exact congrArg _ (zero_add _)
  | release task lm hlm =>
      obtain ⟨lm', hlm', howners⟩ := h.release hw (rfl : _ = some task)
      obtain rfl := Option.some.inj (hlm.symm.trans hlm')
      exact (howners t).trans (zero_add _).symm
  | _ => exact hold

theorem locked_step {a : PoolAction} (h : p.Locked) (hs : (threadpool env).step p a = some p') :
    p'.Locked := by
  cases a with
  | work i => exact h.work hs
  | requestStop i => exact Option.some.inj hs ▸ h

theorem locked_start (env : Env) (numThreads : Nat) (queries : List Query) (world : World) :
    (start env numThreads queries world).Locked := fun t =>
  (Parties.total_eq_zero fun w hw => by rw [List.eq_of_mem_replicate hw]; rfl).symm

theorem locked_run {numThreads : Nat} {queries : List Query} {world : World}
    (run : (threadpool env).Reachable (.start env numThreads queries world) p) : p.Locked :=
  run.invariant (locked_start env numThreads queries world) fun _ _ _ h _ hs => locked_step h hs

end Threadpool

/-- **Writers are alone**: in every state that the pool reaches, no worker executes a
task next to another one that has locked its table for writing. -/
theorem writer_alone {env : Env} {numThreads : Nat} {queries : List Query} {world : World}
    {p : Threadpool} (run : (threadpool env).Reachable (.start env numThreads queries world) p)
    {i j : Nat} (hne : i ≠ j) {w w' : Worker} (hi : p.workers[i]? = some w)
    (hj : p.workers[j]? = some w') {task task' : ExecutableTask} (hw : w.executing = some task)
    (hw' : w'.executing = some task') {t : String} (ht : task.guard = some (.exclusive, t)) :
    ∀ mode, task'.guard ≠ some (mode, t) := by
  intro mode ht'
  obtain ⟨rest, hrest⟩ := Parties.total_pair (Worker.holds t) hne hi hj
  rw [← Threadpool.locked_run run t] at hrest
  simp only [Worker.holds, hw, hw', Option.elim_some, ExecutableTask.holds, ht, ht', if_true,
    Multiset.singleton_add] at hrest
  exact LockMode.noConfusion (SharedMutex.eq_shared_of_owners hrest).1

/-- Two workers load two tables. -/
theorem writer_alone_loads : ∃ p, (threadpool (.binaryHeap id)).Reachable
    (.start (.binaryHeap id) 2 [.load "T" "f", .load "U" "g"] {}) p ∧
    ∃ w ∈ p.workers[0]?, ∃ w' ∈ p.workers[1]?, ∃ task ∈ w.executing, ∃ task' ∈ w'.executing,
      task.guard = some (.exclusive, "T") ∧ task'.guard = some (.exclusive, "U") ∧
      ∀ mode, task'.guard ≠ some (mode, "T") := by
  obtain ⟨p, run, w, hw, w', hw', ht, ht'⟩ :=
    (threadpool (.binaryHeap id)).exists_of_execute (fun _ _ => True)
      (fun p => ∃ w ∈ p.workers[0]?, ∃ w' ∈ p.workers[1]?,
        w.executing.bind (·.guard) = some (.exclusive, "T") ∧
        w'.executing.bind (·.guard) = some (.exclusive, "U"))
      (.start (.binaryHeap id) 2 [.load "T" "f", .load "U" "g"] {})
      (.replicate 3 (.work 0) ++ .replicate 6 (.work 1) ++ .replicate 3 (.work 0))
      (by decide +kernel)
  obtain ⟨task, ht, hg⟩ := Option.bind_eq_some_iff.mp ht
  obtain ⟨task', ht', hg'⟩ := Option.bind_eq_some_iff.mp ht'
  exact ⟨p, run, w, hw, w', hw', task, ht, task', ht', hg, hg',
    writer_alone run Nat.zero_ne_one hw hw' ht ht' hg⟩

end LemonDB
