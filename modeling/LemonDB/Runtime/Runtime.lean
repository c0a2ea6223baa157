import LemonDB.Query.Execute
import LemonDB.Scheduler.Completions

/-!
# LemonDB.Runtime.Runtime

The execution of the collected queries.  The single-threaded loop executes them
one after the other; the multi-threaded path submits them to the scheduler, its
workers execute what they fetch and fulfil the promises, and the results are
output in order once all futures are ready.

The execution of one task is one step: the workers hold the lock of its table
meanwhile.
-/

namespace LemonDB

open QueryResult

/-! ## the choice of the path -/

structure WorkloadStats where
  queryCount : Nat
  tableCount : Nat

structure FallbackThresholds where
  minQueries : Nat := 1000
  minTables : Nat := 3

def analyzeWorkload (queries : List Query) : WorkloadStats where
  queryCount := queries.length
  tableCount := ((queries.map Query.table).filter (· ≠ "")).dedup.length

/-- Whether the workload is too small for several threads. -/
def shouldFallback (stats : WorkloadStats) (thresholds : FallbackThresholds) : Bool :=
  decide (stats.queryCount < thresholds.minQueries) ||
    decide (stats.tableCount < thresholds.minTables)

/-- The number of threads by which `executeQueries` chooses the path. -/
def effectiveThreads (numThreads : Nat) (queries : List Query) : Nat :=
  if numThreads > 1 ∧ shouldFallback (analyzeWorkload queries) {} then 1 else numThreads

/-! ## the output -/

/-- What `executeQueries` outputs, and whether it ends by a `QuitException`. -/
structure Output where
  /-- The text in front of each result: what its query has printed itself. -/
  printed : List TextStream.Text := []
  shown : List QueryResult := []
  quit : Bool := false
  deriving DecidableEq

/-- A result that is shown before the others, and the text in front of it. -/
def Output.cons (text : TextStream.Text) (result : QueryResult) (o : Output) : Output :=
  { o with printed := text :: o.printed, shown := result :: o.shown }

/-- The single-threaded loop. -/
def executeInOrder : List Query → World → Option (Output × World)
  | [], w => some ({}, w)
  | query :: queries, w => match query.execute w with
    | (.undefined, _) => none
    | (.quit, w) => some ({ quit := true }, w)
    | (result, w') => (executeInOrder queries w').map fun p =>
        (p.1.cons (query.printed w) result, p.2)

/-- After a result that does not end it, the single-threaded loop goes on. -/
theorem executeInOrder_cons {query : Query} {queries : List Query} {w w' : World}
    {result : QueryResult} (h : query.execute w = (result, w')) (hdef : result ≠ .undefined)
    (hquit : result ≠ .quit) : executeInOrder (query :: queries) w =
      (executeInOrder queries w').map fun p => (p.1.cons (query.printed w) result, p.2) := by
  rw [executeInOrder, h]
  cases result <;> first | rfl | contradiction

/-- The output loop of the multi-threaded path; `none` is a null pointer.  What the
queries print themselves, the workers have printed before. -/
def outputResults : List (Option QueryResult) → Output
  | [] => {}
  | none :: _ => { quit := true }
  | some result :: results => (outputResults results).cons [] result

/-! ## the runtime -/

/-- The execution of a task: its preset function, or its query. -/
def ExecutableTask.execute (task : ExecutableTask) (w : World) : QueryResult × World :=
  if task.execOverride then (.null, w) else task.query.execute w

/-- The runtime while its workers run.  `futures` has the results of the
promises that are fulfilled; the exception of QUIT is one of them. -/
structure Runtime extends SplitState where
  totalSubmitted : Nat
  world : World
  futures : FiniteMap Nat QueryResult := ∅

/-- One step of a worker: `execute k` and `apply k` are about the `k`-th task in
flight. -/
inductive RuntimeAction where
  | fetch
  | execute (k : Nat)
  | apply (k : Nat)
  | decrement
  deriving DecidableEq, Repr

namespace Runtime

/-- All queries are submitted, and the workers can start. -/
def start (env : Env) (queries : List Query) (world : World) : Runtime where
  toSplitState := .start env (submitAll queries)
  totalSubmitted := queries.length
  world := world

/-- A step of the scheduler. -/
def schedule (rt : Runtime) (r : SplitState) : Runtime := { rt with toSplitState := r }

/-- A worker executes a task and fulfils its promise. -/
def execute (rt : Runtime) (k : Nat) : Option Runtime :=
  match rt.inFlight[k]? with
  | none => none
  | some task =>
      if (rt.futures.get? task.seq).isSome then none
      else match task.execute rt.world with
        | (.undefined, _) => none
        | (result, world) => some { rt with world, futures := rt.futures.set task.seq result }

/-- The callback of a task that was executed. -/
def apply (env : Env) (rt : Runtime) (k : Nat) : Option Runtime :=
  match rt.inFlight[k]? with
  | none => none
  | some task =>
      if (rt.futures.get? task.seq).isSome then (rt.toSplitState.apply env k).map rt.schedule
      else none

/-- What the future of a task gives, if it is ready: its result, or a null
pointer for the exception of QUIT.  The promise of an abandoned item is broken. -/
def result (rt : Runtime) (i : Nat) : Option (Option QueryResult) :=
  match rt.futures.get? i with
  | some .quit => some none
  | some result => some (some result)
  | none =>
      if rt.queue.abandoned.any fun item => decide (item.seq = i) then
        some (some (tableError "RUNTIME" "" "Exception: std::future_error: Broken promise"))
      else none

/-- All results in the order of their submission; none while `waitAll` waits. -/
def getResultsInOrder (rt : Runtime) : Option (List (Option QueryResult)) :=
  (List.range' 1 rt.totalSubmitted).mapM rt.result

end Runtime

/-- The runtime as a transition system. -/
def runtime (env : Env) : Transition Runtime RuntimeAction where
  step rt
    | .fetch => (rt.toSplitState.fetch env).map rt.schedule
    | .execute k => rt.execute k
    | .apply k => rt.apply env k
    | .decrement => rt.toSplitState.decrement.map rt.schedule

variable {env : Env} {rt rt' : Runtime}

/-! ## what the steps do -/

/-- The execution of a task changes the world and its future. -/
theorem Runtime.execute_cases {k : Nat} (h : rt.execute k = some rt') :
    ∃ task, rt.inFlight[k]? = some task ∧
      rt' = { rt with
        world := (task.execute rt.world).2
        futures := rt.futures.set task.seq (task.execute rt.world).1 } := by
  unfold Runtime.execute at h
  split at h
  · contradiction
  · next task hk =>
      split at h
      · contradiction
      · split at h
        · contradiction
        · next result world _ hexec =>
            refine ⟨task, hk, ?_⟩
            rw [hexec]
            exact (Option.some.inj h).symm

/-- A step of the runtime is the execution of a task, or a step of the scheduler. -/
theorem Runtime.step_cases {a : RuntimeAction} (h : (runtime env).step rt a = some rt') :
    (∃ k, a = .execute k ∧ rt.execute k = some rt') ∨
    ∃ b r, (splitScheduler env).step rt.toSplitState b = some r ∧ rt' = rt.schedule r := by
  cases a with
  | fetch =>
      obtain ⟨r, hr, rfl⟩ := Option.map_eq_some_iff.mp h
      exact .inr ⟨.fetch, r, hr, rfl⟩
  | execute k => exact .inl ⟨k, rfl, h⟩
  | apply k =>
      have h : rt.apply env k = some rt' := h
      unfold Runtime.apply at h
      split at h
      · contradiction
      · split at h
        · obtain ⟨r, hr, rfl⟩ := Option.map_eq_some_iff.mp h
          exact .inr ⟨.apply k, r, hr, rfl⟩
        · contradiction
  | decrement =>
      obtain ⟨r, hr, rfl⟩ := Option.map_eq_some_iff.mp h
      exact .inr ⟨.decrement, r, hr, rfl⟩

/-- A run of the runtime is a run of the scheduler. -/
theorem Runtime.scheduler_run {guard : Runtime → RuntimeAction → Prop}
    (run : (runtime env).Runs guard rt rt') :
    (splitScheduler env).Reachable rt.toSplitState rt'.toSplitState := by
  refine run.map fun rt a rt' h => ?_
  obtain ⟨k, _, hk⟩ | ⟨b, r, hr, rfl⟩ := Runtime.step_cases h
  · obtain ⟨task, _, rfl⟩ := Runtime.execute_cases hk
    exact .refl _
  · exact (Transition.Runs.refl _).tail trivial hr

end LemonDB
