import LemonDB.Scheduler.DependencyManager
import LemonDB.Scheduler.GlobalIndex

/-!
# LemonDB.Scheduler.TaskQueue

The task queue: its state, registration, and how a scheduled item becomes an
executable task.  Every function is the source's function on an explicit
state; the mutex makes each call of the public interface one atomic step.
`LemonDB.Scheduler.TaskQueueFetch` has `fetchNext`, and
`LemonDB.Scheduler.TaskQueueDeps` the completion callbacks.

Table queues are addressed by their table name (a `TableQueue` is created once
per name and never destroyed).  Three things that the source leaves to its
environment are parameters, gathered in `Env`: how the heap of the global
index breaks ties, the order in which a hash map is walked, and the table name
that the database gives for a file.
-/

namespace LemonDB

/-- What the task queue takes from its environment. -/
structure Env where
  heap : PriorityQueue (Key String)
  hashOrder : List String → List String
  hashOrder_perm : ∀ l, (hashOrder l).Perm l
  /-- `Database::getFileTableName` while tasks are executed. -/
  fileTableName : String → String

/-- An environment with an array heap, and maps walked in the order of their
last insertions. -/
def Env.binaryHeap (fileTableName : String → String) : Env where
  heap := .binaryHeap keyCmp
  hashOrder := id
  hashOrder_perm := List.Perm.refl
  fileTableName := fileTableName

/-- A parsed query with what the runtime reads off it. -/
structure ParsedQuery where
  seq : Nat
  tableName : String
  type : QueryType
  priority : QueryPriority
  query : Query
  deriving DecidableEq

/-- The parsed query that `Runtime::submitQuery` registers. -/
def submitQuery (query : Query) (orderIndex : Nat) : ParsedQuery where
  seq := orderIndex
  tableName := resolveTableId query
  type := query.type
  priority := classifyPriority query.type
  query := query

/-- A list of queries submitted in order, with sequence numbers from 1. -/
def submitAll (queries : List Query) : List ParsedQuery :=
  (queries.zipIdx 1).map fun p => submitQuery p.1 p.2

inductive CompletionAction where
  | registerTable | updateDeps
  deriving DecidableEq, Repr

/-- The data captured by the `onCompleted` closure of a handed-out task. -/
structure Completion where
  actions : List CompletionAction
  tableId : String
  type : QueryType
  seq : Nat
  depends : DependencyPayload
  /-- The queue of the task's table at hand-out, if there was one. -/
  tableQ : Option String
  deriving DecidableEq

/-- The task given to a worker.  `execOverride` tells that a preset function
returns a null result in place of executing the query. -/
structure ExecutableTask where
  seq : Nat
  type : QueryType
  query : Query
  execOverride : Bool
  onCompleted : Completion
  deriving DecidableEq

structure TableQueue where
  registered : Bool := false
  registerSeq : Nat := 0
  queue : List ScheduledItem := []
  deriving DecidableEq

structure TaskQueue where
  fetchTick : Nat := 0
  submitted : Nat := 0
  running : Nat := 0
  completed : Nat := 0
  readyToFetch : Bool := false
  tables : FiniteMap String TableQueue := ∅
  globalIndex : GlobalIndex String := {}
  loadQueue : List ScheduledItem := []
  loadBlocked : Bool := false
  depManager : DependencyManager := {}
  barriers : List ScheduledItem := []
  waitingTables : List String := []
  quitFlag : Bool := false
  /-- Items destroyed inside the queue: their promises are broken. -/
  abandoned : List ScheduledItem := []

namespace TaskQueue

/-- The pending items of a table; none when there is no such queue. -/
def queueOf (s : TaskQueue) (table : String) : List ScheduledItem :=
  ((s.tables.get? table).getD {}).queue

/-- `tables[table]`, created when absent, with a new content. -/
def setTable (s : TaskQueue) (table : String) (tbl : TableQueue) : TaskQueue :=
  { s with tables := s.tables.set table tbl }

def setQueue (s : TaskQueue) (table : String) (queue : List ScheduledItem) : TaskQueue :=
  s.setTable table { (s.tables.get? table).getD {} with queue }

def setIndex (s : TaskQueue) (globalIndex : GlobalIndex String) : TaskQueue :=
  { s with globalIndex }

/-- Enter a table queue into the global index under its head. -/
def upsert (env : Env) (s : TaskQueue) (table : String) (head : ScheduledItem) : TaskQueue :=
  s.setIndex (s.globalIndex.upsert env.heap (some table) head.priority s.fetchTick head.seq)

/-- Enter a table queue into the global index, if it is not empty. -/
def upsertHead (env : Env) (s : TaskQueue) (table : String) : TaskQueue :=
  match s.queueOf table with
  | [] => s
  | head :: _ => s.upsert env table head

/-- Let an item wait on a key. -/
def addWait (s : TaskQueue) (type : DependencyType) (key : String) (item : ScheduledItem) :
    TaskQueue := { s with depManager := s.depManager.addWait type key item }

/-! ## registration -/

def setReady (s : TaskQueue) : TaskQueue := { s with readyToFetch := true }

/-- Register a task.  After QUIT was fetched, new tasks are rejected. -/
def registerTask (env : Env) (s : TaskQueue) (prQuery : ParsedQuery) : TaskQueue :=
  if s.quitFlag then s
  else
    let item : ScheduledItem :=
      { seq := prQuery.seq, priority := prQuery.priority, tableId := prQuery.tableName,
        type := prQuery.type, query := prQuery.query }
    let s := { s with submitted := s.submitted + 1 }
    match item.type with
    | .quit | .list | .listen => { s with barriers := s.barriers ++ [item] }
    | .load =>
        let (item, depManager) := s.depManager.markScheduled env.hashOrder item item.type
        { s with depManager, loadQueue := s.loadQueue ++ [item] }
    | .dump | .drop | .copyTable =>
        let (item, depManager) := s.depManager.markScheduled env.hashOrder item item.type
        let s := { s with depManager }
        s.setQueue item.tableId (s.queueOf item.tableId ++ [item])
    | _ => s.setQueue item.tableId (s.queueOf item.tableId ++ [item])

/-- Register a list of tasks, one after the other. -/
def registerAll (env : Env) (tasks : List ParsedQuery) : TaskQueue :=
  tasks.foldl (registerTask env) {}

/-! ## hand-out -/

/-- What the completion of an item has to do.  A LOAD of a table that was
registered by a larger sequence number throws. -/
def classifyActions (s : TaskQueue) (item : ScheduledItem) :
    Except SchedError (List CompletionAction) :=
  match item.type with
  | .load =>
      let tbl := (s.tables.get? item.tableId).getD {}
      if tbl.registered then
        if tbl.registerSeq > item.seq then
          throw (.invalidArgument ("Wrongly execute a later Load " ++ toString tbl.registerSeq ++
            " before an earlier Load " ++ toString item.seq))
        else return [.updateDeps]
      else return [.registerTable, .updateDeps]
  | .copyTable => return [.registerTable, .updateDeps]
  | .dump | .drop => return [.updateDeps]
  | _ => return if item.tableId ≠ "" then [.updateDeps] else []

/-- The table queue that a completion re-enters into the global index. -/
def capturedTableQ (s : TaskQueue) (tableId : String) : Option String :=
  if tableId ≠ "" ∧ tableId ≠ controlTableId then
    (s.tables.get? tableId).map fun _ => tableId
  else none

def buildExecutableFromScheduled (s : TaskQueue) (src : ScheduledItem) :
    Except SchedError ExecutableTask := do
  let actions ← s.classifyActions src
  return {
    seq := src.seq
    type := src.type
    query := src.query
    execOverride := src.droppedFlag
    onCompleted := {
      actions
      tableId := src.tableId
      type := src.type
      seq := src.seq
      depends := src.depends
      tableQ := s.capturedTableQ src.tableId } }

/-- What a task takes over from its item. -/
structure Built (s : TaskQueue) (src : ScheduledItem) (dst : ExecutableTask) : Prop where
  seq : dst.seq = src.seq
  type : dst.type = src.type
  query : dst.query = src.query
  execOverride : dst.execOverride = src.droppedFlag
  actions : s.classifyActions src = .ok dst.onCompleted.actions
  capturedTable : dst.onCompleted.tableId = src.tableId
  capturedType : dst.onCompleted.type = src.type
  capturedSeq : dst.onCompleted.seq = src.seq
  capturedDeps : dst.onCompleted.depends = src.depends
  tableQ : dst.onCompleted.tableQ = s.capturedTableQ src.tableId

theorem built_of_ok {s : TaskQueue} {src : ScheduledItem} {dst : ExecutableTask}
    (h : s.buildExecutableFromScheduled src = .ok dst) : s.Built src dst := by
  unfold buildExecutableFromScheduled at h
  cases hact : s.classifyActions src with
  | error e => rw [hact] at h; contradiction
  | ok actions =>
      rw [hact] at h
      cases h
      exact ⟨rfl, rfl, rfl, rfl, hact, rfl, rfl, rfl, rfl, rfl⟩

end TaskQueue

end LemonDB
