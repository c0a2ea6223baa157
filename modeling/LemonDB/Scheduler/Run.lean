import LemonDB.Lib.Transition
import LemonDB.Scheduler.TaskQueueDeps
import LemonDB.Scheduler.TaskQueueFetch

/-!
# LemonDB.Scheduler.Run

Runs of the scheduler: after all tasks are registered and the queue is set
ready, the workers call `fetchNext` and the completion callbacks of the tasks
in flight, in any order.  Each call holds the mutex, so a run is a sequence of
atomic steps.

The state of a run is the task queue with the tasks in flight, and two logs
that the source does not keep: the tasks handed out so far, in order, and the
completed ones.
-/

namespace LemonDB

/-- The scheduler during a run. -/
structure RunState where
  queue : TaskQueue
  inFlight : List ExecutableTask := []
  handedOut : List ExecutableTask := []
  finished : List Completion := []

/-- One call into the scheduler: `complete k` runs the callback of the `k`-th
task in flight. -/
inductive RunAction where
  | fetch
  | complete (k : Nat)
  deriving DecidableEq, Repr

namespace RunState

/-- A worker calls `fetchNext`.  An exception leaves the worker uncaught and
ends the run. -/
def fetch (env : Env) (r : RunState) : Option RunState :=
  match r.queue.fetchNext env with
  | .ok (some task, queue) =>
      some { r with queue, inFlight := r.inFlight ++ [task], handedOut := r.handedOut ++ [task] }
  | .ok (none, queue) => some { r with queue }
  | .error _ => none

/-- A fetch that returns has handed out a task or none. -/
theorem fetch_cases {env : Env} {r r' : RunState} (h : r.fetch env = some r') :
    (∃ task queue, r.queue.fetchNext env = .ok (some task, queue) ∧
      r' = { r with queue, inFlight := r.inFlight ++ [task], handedOut := r.handedOut ++ [task] }) ∨
    ∃ queue, r.queue.fetchNext env = .ok (none, queue) ∧ r' = { r with queue } := by
  unfold fetch at h
  split at h
  · next task queue hf => exact .inl ⟨task, queue, hf, (Option.some.inj h).symm⟩
  · next queue hf => exact .inr ⟨queue, hf, (Option.some.inj h).symm⟩
  · contradiction

/-- The callback of a task in flight.  `onCompleted_ok` shows that it raises
no exception in a run. -/
def complete (env : Env) (r : RunState) (k : Nat) : Option RunState :=
  match r.inFlight[k]? with
  | none => none
  | some task => match r.queue.onCompleted env task.onCompleted with
    | .ok queue =>
        some { r with queue, inFlight := r.inFlight.eraseIdx k,
                      finished := r.finished ++ [task.onCompleted] }
    | .error _ => none

/-- The task that a step completes. -/
def completes (r : RunState) : RunAction → Option ExecutableTask
  | .fetch => none
  | .complete k => r.inFlight[k]?

/-- The state in which a run starts. -/
def start (env : Env) (tasks : List ParsedQuery) : RunState where
  queue := (TaskQueue.registerAll env tasks).setReady

end RunState

/-- The scheduler as a transition system. -/
def scheduler (env : Env) : Transition RunState RunAction where
  step r
    | .fetch => r.fetch env
    | .complete k => r.complete env k

end LemonDB
