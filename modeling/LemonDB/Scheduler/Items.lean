import LemonDB.Scheduler.TaskQueue

/-!
# LemonDB.Scheduler.Items

What the payload of a scheduled item says about it: the keys it waits on with
the sequence numbers recorded for them (`waits`), and the keys whose watermark
its completion advances (`notifies`).  Both are read off the `Ident` of a task,
the part of it that the scheduler never changes while the task moves between
the queues, the waiting heaps and the workers.
-/

namespace LemonDB

/-- A file or a table that tasks wait on. -/
abbrev DepKey := DependencyType × String

/-- The part of a task that stays the same through a run.  The table of a
pending LOAD is left out, since it is resolved again when its file is
completed. -/
structure Ident where
  seq : Nat
  type : QueryType
  tableId : String
  depends : DependencyPayload
  deriving DecidableEq

/-- A LOAD that waits for a DUMP of its file and has tables waiting for it. -/
def DependencyPayload.isPending : DependencyPayload → Bool
  | .load d => decide (d.pendingTable ≠ [])
  | _ => false

def Ident.of (seq : Nat) (type : QueryType) (tableId : String) (depends : DependencyPayload) :
    Ident where
  seq := seq
  type := type
  tableId := if type = .load ∧ depends.isPending then "" else tableId
  depends := depends

def ScheduledItem.ident (item : ScheduledItem) : Ident :=
  .of item.seq item.type item.tableId item.depends

def Completion.ident (c : Completion) : Ident := .of c.seq c.type c.tableId c.depends

@[simp] theorem Ident.of_seq (n : Nat) (ty : QueryType) (t : String) (d : DependencyPayload) :
    (Ident.of n ty t d).seq = n := rfl

@[simp] theorem Ident.of_type (n : Nat) (ty : QueryType) (t : String) (d : DependencyPayload) :
    (Ident.of n ty t d).type = ty := rfl

@[simp] theorem Ident.of_depends (n : Nat) (ty : QueryType) (t : String) (d : DependencyPayload) :
    (Ident.of n ty t d).depends = d := rfl

@[simp] theorem ScheduledItem.ident_seq (i : ScheduledItem) : i.ident.seq = i.seq := rfl

@[simp] theorem ScheduledItem.ident_type (i : ScheduledItem) : i.ident.type = i.type := rfl

@[simp] theorem ScheduledItem.ident_depends (i : ScheduledItem) : i.ident.depends = i.depends := rfl

@[simp] theorem Completion.ident_seq (c : Completion) : c.ident.seq = c.seq := rfl

@[simp] theorem Completion.ident_type (c : Completion) : c.ident.type = c.type := rfl

@[simp] theorem Completion.ident_depends (c : Completion) : c.ident.depends = c.depends := rfl

/-- The keys and sequence numbers that a judgement compares with the
watermarks. -/
def DependencyPayload.waits (tableId : String) : DependencyPayload → List (DepKey × Nat)
  | .monostate => []
  | .load d => [((.file, d.filePath), d.fileDependsOn), ((.table, tableId), d.tableDependsOn)]
  | .dump d => [((.file, d.filePath), d.fileDependsOn), ((.table, tableId), d.tableDependsOn)]
  | .drop d => [((.table, tableId), d.tableDependsOn)]
  | .copyTable d =>
      [((.table, tableId), d.srcTableDependsOn), ((.table, d.newTable), d.dstTableDependsOn)]

/-- The dependencies that were recorded for a task. -/
def Ident.waits (i : Ident) : List (DepKey × Nat) := i.depends.waits i.tableId

/-- The dependencies that an item is judged by. -/
def ScheduledItem.waits (i : ScheduledItem) : List (DepKey × Nat) := i.depends.waits i.tableId

/-- The keys whose watermark the completion of a task advances. -/
def Ident.notifies (i : Ident) : List DepKey :=
  match i.type, i.depends with
  | .load, .load d =>
      (.file, d.filePath) ::
        (if d.pendingTable ≠ [] then d.pendingTable.map fun t => (.table, t)
          else [(.table, i.tableId)])
  | .dump, .dump d => [(.file, d.filePath), (.table, i.tableId)]
  | .copyTable, .copyTable d => [(.table, i.tableId), (.table, d.newTable)]
  | .drop, _ => [(.table, i.tableId)]
  | _, _ => if i.tableId ≠ "" then [(.table, i.tableId)] else []

/-- The payload is the one of the type; a pending LOAD has no table
dependency. -/
def DependencyPayload.fits : QueryType → DependencyPayload → Bool
  | .load, .load d => decide (d.pendingTable ≠ [] → d.tableDependsOn = 0)
  | .dump, .dump _ | .drop, .drop _ | .copyTable, .copyTable _ => true
  | .load, _ | .dump, _ | .drop, _ | .copyTable, _ => false
  | _, .monostate => true
  | _, _ => false

/-- The item holds the payload of its type. -/
def ScheduledItem.Fits (x : ScheduledItem) : Prop := x.depends.fits x.type = true

/-- The payload holds the alternative of the type.  Only four types have one. -/
def DependencyPayload.matchesType : QueryType → DependencyPayload → Bool
  | .load, .load _ | .dump, .dump _ | .drop, .drop _ | .copyTable, .copyTable _ => true
  | .load, _ | .dump, _ | .drop, _ | .copyTable, _ => false
  | _, _ => true

/-- The dependency payload matches the query type. -/
def ScheduledItem.Matches (x : ScheduledItem) : Prop := x.depends.matchesType x.type = true

theorem DependencyPayload.matchesType_of_fits {type : QueryType} {p : DependencyPayload}
    (h : p.fits type = true) : p.matchesType type = true := by
  cases type <;> cases p <;> first | rfl | contradiction

theorem ScheduledItem.Fits.matches {x : ScheduledItem} (h : x.Fits) : x.Matches :=
  DependencyPayload.matchesType_of_fits h

/-- Items of one task have the same payload. -/
theorem ScheduledItem.fits_of_ident {x y : ScheduledItem} (h : y.ident = x.ident)
    (hfit : y.Fits) : x.Fits := by
  have hty : y.type = x.type := congrArg Ident.type h
  have hdep : y.depends = x.depends := congrArg Ident.depends h
  unfold ScheduledItem.Fits at hfit ⊢
  rwa [← hty, ← hdep]

/-- The recorded dependencies are those an item is judged by: only a pending LOAD
changes its table, and it has no dependency on one. -/
theorem ScheduledItem.mem_waits_ident {x : ScheduledItem} (hfit : x.Fits) {k : DepKey} {d : Nat}
    (hd : d ≠ 0) : (k, d) ∈ x.ident.waits ↔ (k, d) ∈ x.waits := by
  by_cases hp : x.type = .load ∧ x.depends.isPending
  · cases hload : x.depends with
    | load dep =>
        have hzero : dep.tableDependsOn = 0 := by
          unfold ScheduledItem.Fits at hfit
          rw [hp.1, hload] at hfit
          rw [hload] at hp
          simp_all [DependencyPayload.fits, DependencyPayload.isPending]
        have hne : ¬ d = dep.tableDependsOn := by rwa [hzero]
        simp [Ident.waits, ScheduledItem.waits, hload, DependencyPayload.waits, hne]
    | _ => simp [hload, DependencyPayload.isPending] at hp
  · simp [Ident.waits, ScheduledItem.waits, ScheduledItem.ident, Ident.of, hp]

/-- The tasks that are commands without a table queue. -/
def QueryType.isBarrier : QueryType → Bool
  | .quit | .list | .listen => true
  | _ => false

/-- The tasks that are scheduled through the queue of their table. -/
def QueryType.isQueued (type : QueryType) : Bool := !type.isBarrier && decide (type ≠ .load)

/-- The tasks that `markScheduled` records. -/
def QueryType.isMarked : QueryType → Bool
  | .load | .dump | .drop | .copyTable => true
  | _ => false

theorem TaskQueue.Built.ident {q : TaskQueue} {src : ScheduledItem} {dst : ExecutableTask}
    (h : q.Built src dst) : dst.onCompleted.ident = src.ident := by
  unfold Completion.ident ScheduledItem.ident
  rw [h.capturedSeq, h.capturedType, h.capturedTable, h.capturedDeps]

end LemonDB
