import LemonDB.Scheduler.TaskQueue

/-!
# LemonDB.Scheduler.TaskQueueDeps

The completion callback of a handed-out task: it registers tables, advances
the watermarks of the task's file and tables, moves the items that this wakes
up back to their queues, and enters the next task of the same table queue into
the global index.
-/

namespace LemonDB

namespace TaskQueue

/-! ## RegisterTable -/

/-- Register the queue of a table: items submitted before the registering one
are marked as dropped, and the queue becomes eligible. -/
def registerTableQueue (env : Env) (s : TaskQueue) (table : String) (item : ScheduledItem) :
    TaskQueue :=
  let tbl := (s.tables.get? table).getD {}
  if tbl.registered then s
  else
    let queue := tbl.queue.map fun pending =>
      if pending.seq < item.seq then { pending with droppedFlag := true } else pending
    (s.setTable table { registered := true, registerSeq := item.seq, queue }).upsertHead env table

def applyRegisterTable (env : Env) (s : TaskQueue) (item : ScheduledItem) :
    Except SchedError TaskQueue := do
  let s := s.registerTableQueue env item.tableId item
  if item.type = .copyTable then
    let copyDeps ← item.depends.getCopyTable
    return s.registerTableQueue env copyDeps.newTable item
  else return s

/-! ## UpdateDeps -/

/-- Advance the watermark of one key. -/
def notifyCompleted (s : TaskQueue) (type : DependencyType) (key : String) (seq : Nat)
    (ready : List ScheduledItem) : Except SchedError (List ScheduledItem × TaskQueue) := do
  let (ready, depManager) ← s.depManager.notifyCompleted type key seq ready
  return (ready, { s with depManager })

/-- Advance the watermarks of several tables in turn. -/
def notifyTables (s : TaskQueue) (seq : Nat) (ready : List ScheduledItem) :
    List String → Except SchedError (List ScheduledItem × TaskQueue)
  | [] => return (ready, s)
  | t :: ts => do
      let (ready, s) ← s.notifyCompleted .table t seq ready
      s.notifyTables seq ready ts

/-- Advance the watermarks of the completed item's file and tables, and collect
the items that were waiting on them. -/
def updateDependencyRecords (s : TaskQueue) (item : ScheduledItem) :
    Except SchedError (List ScheduledItem × List ScheduledItem × TaskQueue) :=
  match item.type with
  | .load => do
      let loadDeps ← item.depends.getLoad
      let (readyFile, s) ← s.notifyCompleted .file loadDeps.filePath item.seq []
      if loadDeps.pendingTable ≠ [] then
        let (readyTable, s) ← s.notifyTables item.seq [] loadDeps.pendingTable
        return (readyFile, readyTable, s)
      else
        let (readyTable, s) ← s.notifyCompleted .table item.tableId item.seq []
        return (readyFile, readyTable, s)
  | .dump => do
      let dumpDeps ← item.depends.getDump
      let (readyFile, s) ← s.notifyCompleted .file dumpDeps.filePath item.seq []
      let (readyTable, s) ← s.notifyCompleted .table item.tableId item.seq []
      return (readyFile, readyTable, s)
  | .drop => do
      let (readyTable, s) ← s.notifyCompleted .table item.tableId item.seq []
      match s.tables.get? item.tableId with
      | none => return ([], readyTable, s)
      | some tbl => return ([], readyTable, s.setTable item.tableId { tbl with registered := false })
  | .copyTable => do
      let copyDeps ← item.depends.getCopyTable
      let (readyTable, s) ← s.notifyCompleted .table item.tableId item.seq []
      let (readyTable, s) ← s.notifyCompleted .table copyDeps.newTable item.seq readyTable
      return ([], readyTable, s)
  | _ =>
      if item.tableId ≠ "" then do
        let (readyTable, s) ← s.notifyCompleted .table item.tableId item.seq []
        return ([], readyTable, s)
      else return ([], [], s)

/-- Put a woken item back at the front of its table queue. -/
def requeue (env : Env) (s : TaskQueue) (readyItem : ScheduledItem) : TaskQueue :=
  (s.setQueue readyItem.tableId (readyItem :: s.queueOf readyItem.tableId)).upsert env
    readyItem.tableId readyItem

/-- Put a woken LOAD back at the front of the load queue. -/
def requeueLoad (s : TaskQueue) (readyItem : ScheduledItem) : TaskQueue :=
  { s with loadQueue := readyItem :: s.loadQueue }

/-- Put back an item that waited on a file. -/
def updateReadyFiles (env : Env) (s : TaskQueue) (readyItem : ScheduledItem) :
    Except SchedError TaskQueue :=
  if readyItem.type = .load then do
    let rlDeps ← readyItem.depends.getLoad
    if rlDeps.pendingTable ≠ [] then
      return s.requeueLoad { readyItem with tableId := env.fileTableName rlDeps.filePath }
    else if rlDeps.tableDependsOn > s.depManager.lastCompletedFor .table readyItem.tableId then
      return s.addWait .table readyItem.tableId readyItem
    else return s.requeueLoad readyItem
  else return s.requeue env readyItem

/-- Put back an item that waited on a table. -/
def updateReadyTables (env : Env) (s : TaskQueue) (readyItem : ScheduledItem) :
    Except SchedError TaskQueue :=
  if readyItem.type = .load then return s.requeueLoad readyItem
  else if readyItem.type = .copyTable then do
    let rcDeps ← readyItem.depends.getCopyTable
    if rcDeps.srcTableDependsOn > s.depManager.lastCompletedFor .table readyItem.tableId then
      return s.addWait .table readyItem.tableId readyItem
    else if rcDeps.dstTableDependsOn > s.depManager.lastCompletedFor .table rcDeps.newTable then
      return s.addWait .table rcDeps.newTable readyItem
    else return s.requeue env readyItem
  else return s.requeue env readyItem

def applyUpdateDeps (env : Env) (s : TaskQueue) (item : ScheduledItem) :
    Except SchedError TaskQueue := do
  let (readyFileItems, readyTableItems, s) ← s.updateDependencyRecords item
  let s ← readyFileItems.foldlM (updateReadyFiles env) s
  readyTableItems.foldlM (updateReadyTables env) s

/-! ## the callback -/

def applyAction (env : Env) (item : ScheduledItem) (s : TaskQueue) :
    CompletionAction → Except SchedError TaskQueue
  | .registerTable => s.applyRegisterTable env item
  | .updateDeps => s.applyUpdateDeps env item

def applyActions (env : Env) (s : TaskQueue) (actions : List CompletionAction)
    (item : ScheduledItem) : Except SchedError TaskQueue :=
  actions.foldlM (applyAction env item) s

/-- The placeholder item that the callback rebuilds from its captures. -/
def placeholder (c : Completion) : ScheduledItem where
  seq := c.seq
  tableId := c.tableId
  type := c.type
  depends := c.depends

/-- The part of the callback under the mutex: the actions, then the next task
of the same table queue is entered into the global index. -/
def callback (env : Env) (s : TaskQueue) (c : Completion) : Except SchedError TaskQueue := do
  let s ← s.applyActions env c.actions (placeholder c)
  match c.tableQ with
  | none => return s
  | some capturedTableQ => return s.upsertHead env capturedTableQ

/-- The rest of the callback: the task no longer runs. -/
def countCompleted (s : TaskQueue) : TaskQueue :=
  { s with running := s.running - 1, completed := s.completed + 1 }

/-- The completion callback.  It swallows exceptions: an error here means that
the counters are not updated. -/
def onCompleted (env : Env) (s : TaskQueue) (c : Completion) : Except SchedError TaskQueue := do
  let s ← s.callback env c
  return s.countCompleted

end TaskQueue

end LemonDB
