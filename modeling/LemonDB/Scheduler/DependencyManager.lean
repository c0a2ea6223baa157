import LemonDB.Lib.FiniteMap
import LemonDB.Query
import Mathlib.Data.List.Sort

/-!
# LemonDB.Scheduler.DependencyManager

Scheduled items and the dependency manager: which earlier LOAD, DUMP, DROP or
COPYTABLE each of these has to wait for on its file and on its tables
(`markScheduled`), the watermarks of completed sequence numbers per file and
per table, and the heaps of items that wait on them.

`std::get` on the wrong alternative throws, so the functions that use it
return `Except SchedError`.  A waiting heap is the list of its items by
sequence number.
-/

namespace LemonDB

/-- The exceptions that the scheduler's own code can raise. -/
inductive SchedError where
  /-- `std::get` on an alternative that the payload does not hold. -/
  | badVariantAccess
  | invalidArgument (what : String)
  deriving DecidableEq, Repr

/-! ## scheduled items -/

structure LoadDeps where
  fileDependsOn : Nat := 0
  tableDependsOn : Nat := 0
  filePath : String
  pendingTable : List String
  deriving DecidableEq, Repr

structure DumpDeps where
  fileDependsOn : Nat := 0
  filePath : String
  tableDependsOn : Nat := 0
  deriving DecidableEq, Repr

structure DropDeps where
  tableDependsOn : Nat := 0
  deriving DecidableEq, Repr

structure CopyTableDeps where
  srcTableDependsOn : Nat := 0
  dstTableDependsOn : Nat := 0
  newTable : String
  deriving DecidableEq, Repr

/-- What is recorded for a task when it is registered. -/
inductive DependencyPayload where
  | monostate
  | load (d : LoadDeps)
  | dump (d : DumpDeps)
  | drop (d : DropDeps)
  | copyTable (d : CopyTableDeps)
  deriving DecidableEq, Repr

namespace DependencyPayload

/-- `std::get` of the payload of a LOAD. -/
def getLoad : DependencyPayload → Except SchedError LoadDeps
  | load d => .ok d
  | _ => .error .badVariantAccess

theorem eq_of_getLoad {p : DependencyPayload} {d : LoadDeps} (h : p.getLoad = .ok d) :
    p = load d := by
  cases p <;> simp_all [getLoad]

def getDump : DependencyPayload → Except SchedError DumpDeps
  | dump d => .ok d
  | _ => .error .badVariantAccess

theorem eq_of_getDump {p : DependencyPayload} {d : DumpDeps} (h : p.getDump = .ok d) :
    p = dump d := by
  cases p <;> simp_all [getDump]

def getDrop : DependencyPayload → Except SchedError DropDeps
  | drop d => .ok d
  | _ => .error .badVariantAccess

def getCopyTable : DependencyPayload → Except SchedError CopyTableDeps
  | copyTable d => .ok d
  | _ => .error .badVariantAccess

theorem eq_of_getCopyTable {p : DependencyPayload} {d : CopyTableDeps}
    (h : p.getCopyTable = .ok d) : p = copyTable d := by
  cases p <;> simp_all [getCopyTable]

end DependencyPayload

/-- One scheduled task.  Its promise is the observer's side of it and has no
data of its own here. -/
structure ScheduledItem where
  seq : Nat
  priority : QueryPriority := .normal
  tableId : String
  type : QueryType
  depends : DependencyPayload := .monostate
  query : Query := .nop
  droppedFlag : Bool := false
  deriving DecidableEq

/-! ## the dependency manager -/

/-- Whether a key is a file or a table. -/
inductive DependencyType where
  | file | table
  deriving DecidableEq, Repr

/-- The tag and the sequence number last scheduled on a key. -/
abbrev ScheduledMap := FiniteMap String (QueryType × Nat)

/-- The items that wait on a key, by sequence number. -/
abbrev WaitingHeap := List ScheduledItem

/-- The maps of the dependency manager: what was scheduled last, how far each key is
completed, and who waits. -/
structure DependencyManager where
  lastScheduledFile : ScheduledMap := ∅
  lastCompletedFile : FiniteMap String Nat := ∅
  lastScheduledTable : ScheduledMap := ∅
  lastCompletedTable : FiniteMap String Nat := ∅
  waitingFile : FiniteMap String WaitingHeap := ∅
  waitingTable : FiniteMap String WaitingHeap := ∅

/-- `operator[]` of a schedule map: an absent entry is value-initialised. -/
def ScheduledMap.entry (m : ScheduledMap) (key : String) : QueryType × Nat :=
  (m.get? key).getD (.load, 0)

/-- Record a scheduled operation on a key, and return what was there. -/
def ScheduledMap.mark (m : ScheduledMap) (key : String) (seq : Nat) (tag : QueryType) :
    (QueryType × Nat) × ScheduledMap :=
  (m.entry key, m.set key (if seq > (m.entry key).2 then (tag, seq) else m.entry key))

namespace DependencyManager

/-- Record a task on a file; the result is the entry before. -/
def markScheduledFile (dm : DependencyManager) (filePath : String) (seq : Nat) (tag : QueryType) :
    (QueryType × Nat) × DependencyManager :=
  let (ret, m) := dm.lastScheduledFile.mark filePath seq tag
  (ret, { dm with lastScheduledFile := m })

/-- Record a task on a table; the result is the entry before. -/
def markScheduledTable (dm : DependencyManager) (tableId : String) (seq : Nat) (tag : QueryType) :
    (QueryType × Nat) × DependencyManager :=
  let (ret, m) := dm.lastScheduledTable.mark tableId seq tag
  (ret, { dm with lastScheduledTable := m })

/-- The tables whose last scheduled operation is a DROP. -/
def droppedTables (dm : DependencyManager) : List String :=
  dm.lastScheduledTable.keys.filter fun t => (dm.lastScheduledTable.entry t).1 = .drop

/-- Overwrite the entries of these tables by the sequence number of a pending
LOAD. -/
def applyNop (dm : DependencyManager) (tables : List String) (seq : Nat) : DependencyManager :=
  { dm with lastScheduledTable := tables.foldl (fun m t => m.set t (.nop, seq)) dm.lastScheduledTable }

/-- Record an item on its file and tables, and put the operations it has to
wait for into its payload.  `hashOrder` is the order in which the hash map of
tables is walked. -/
def markScheduled (hashOrder : List String → List String) (dm : DependencyManager)
    (item : ScheduledItem) (tag : QueryType) : ScheduledItem × DependencyManager :=
  let seq := item.seq
  let tableId := item.tableId
  match item.type with
  | .load =>
      let filePath := item.query.filePath
      let (prevFile, dm) := dm.markScheduledFile filePath seq tag
      let fileCompleted := (dm.lastCompletedFile.get? filePath).getD 0
      -- only drop if there was a previous LOAD and the table is not dropped
      let droppedFlag := decide (prevFile.2 > 0 ∧ prevFile.1 = .load ∧
        (dm.lastScheduledTable.entry tableId).1 ≠ .drop)
      if prevFile.1 = .dump ∧ fileCompleted < prevFile.2 then
        -- pending LOAD: the tables currently marked DROP now wait for it, and
        -- its own table dependency is left to be resolved after the file
        let pendingTables := hashOrder dm.droppedTables
        ({ item with droppedFlag, depends := .load ⟨prevFile.2, 0, filePath, pendingTables⟩ },
          dm.applyNop pendingTables seq)
      else
        let (prevTable, dm) := dm.markScheduledTable tableId seq tag
        ({ item with droppedFlag, depends := .load ⟨prevFile.2, prevTable.2, filePath, []⟩ }, dm)
  | .dump =>
      let filePath := item.query.filePath
      let (file, dm) := dm.markScheduledFile filePath seq tag
      let (table, dm) := dm.markScheduledTable tableId seq tag
      ({ item with depends := .dump ⟨file.2, filePath, table.2⟩ }, dm)
  | .drop =>
      let (table, dm) := dm.markScheduledTable tableId seq tag
      ({ item with depends := .drop ⟨table.2⟩ }, dm)
  | .copyTable =>
      let (src, dm) := dm.markScheduledTable tableId seq tag
      let newTableId := item.query.newTable
      let (dst, dm) := dm.markScheduledTable newTableId seq tag
      ({ item with depends := .copyTable ⟨src.2, dst.2, newTableId⟩ }, dm)
  | _ => (item, dm)

/-! ## waiting and waking up -/

/-- The last completed sequence number on a key, 0 if there is none. -/
def lastCompletedFor (dm : DependencyManager) : DependencyType → String → Nat
  | .file, key => (dm.lastCompletedFile.get? key).getD 0
  | .table, key => (dm.lastCompletedTable.get? key).getD 0

/-- The items waiting on a key. -/
def waitingOn (dm : DependencyManager) : DependencyType → String → WaitingHeap
  | .file, key => (dm.waitingFile.get? key).getD []
  | .table, key => (dm.waitingTable.get? key).getD []

/-- Set the watermark of a key. -/
def setLastCompleted (dm : DependencyManager) (type : DependencyType) (key : String) (seq : Nat) :
    DependencyManager :=
  match type with
  | .file => { dm with lastCompletedFile := dm.lastCompletedFile.set key seq }
  | .table => { dm with lastCompletedTable := dm.lastCompletedTable.set key seq }

/-- Replace the heap of a key; an empty heap is erased. -/
def setWaiting (dm : DependencyManager) (type : DependencyType) (key : String)
    (heap : WaitingHeap) : DependencyManager :=
  match type, heap with
  | .file, [] => { dm with waitingFile := dm.waitingFile.remove key }
  | .table, [] => { dm with waitingTable := dm.waitingTable.remove key }
  | .file, _ => { dm with waitingFile := dm.waitingFile.set key heap }
  | .table, _ => { dm with waitingTable := dm.waitingTable.set key heap }

/-- Push an item onto the heap of a key. -/
def addWait (dm : DependencyManager) (type : DependencyType) (key : String)
    (item : ScheduledItem) : DependencyManager :=
  dm.setWaiting type key ((dm.waitingOn type key).orderedInsert (fun a b => a.seq ≤ b.seq) item)

/-- Whether a waiting item stops the wake-up loop of a key. -/
def notifyCompleteBreakHelper (type : DependencyType) (completedSeq : Nat)
    (waitItem : ScheduledItem) : Except SchedError Bool :=
  match waitItem.type, type with
  | .load, .file => do
      let loadDeps ← waitItem.depends.getLoad
      return decide (loadDeps.fileDependsOn > completedSeq)
  | .load, .table => do
      let loadDeps ← waitItem.depends.getLoad
      return decide (loadDeps.tableDependsOn > completedSeq)
  | .dump, .file => do
      let dumpDeps ← waitItem.depends.getDump
      return decide (dumpDeps.fileDependsOn > completedSeq)
  | .drop, .table => do
      let dropDeps ← waitItem.depends.getDrop
      return decide (dropDeps.tableDependsOn > completedSeq)
  | .copyTable, .table => do
      -- any of the two satisfied: popped, and judged again when fetched
      let copyDeps ← waitItem.depends.getCopyTable
      return decide (copyDeps.srcTableDependsOn > completedSeq ∧
        copyDeps.dstTableDependsOn > completedSeq)
  | _, _ => return false

/-- Pop the items of a heap up to the first one that is not satisfied. -/
def popReady (type : DependencyType) (completedSeq : Nat) :
    WaitingHeap → Except SchedError (List ScheduledItem × WaitingHeap)
  | [] => .ok ([], [])
  | waitItem :: heap => do
      if ← notifyCompleteBreakHelper type completedSeq waitItem then
        return ([], waitItem :: heap)
      else
        let (popped, rest) ← popReady type completedSeq heap
        return (waitItem :: popped, rest)

/-- Advance the watermark of a key and move the items that it releases to
`ready`; an older sequence number is ignored. -/
def notifyCompleted (dm : DependencyManager) (type : DependencyType) (key : String) (seq : Nat)
    (ready : List ScheduledItem) : Except SchedError (List ScheduledItem × DependencyManager) :=
  if seq < dm.lastCompletedFor type key then
    return (ready, dm)
  else do
    let dm := dm.setLastCompleted type key seq
    let (popped, rest) ← popReady type seq (dm.waitingOn type key)
    return (ready ++ popped, dm.setWaiting type key rest)

end DependencyManager

end LemonDB
