/-!
# LemonDB.Query

Parsed queries: the query types, the query classes with the data each of them
holds, and the helpers that the runtime reads from a query to schedule it.

A `std::string` is a `String` whose characters stand for its bytes, and an
`int` cell is an `Int32`.
-/

namespace LemonDB

/-- Types of queries, in the order of the enumeration (`load` is the value of
a value-initialised `QueryType`). -/
inductive QueryType where
  | load | dump | drop | truncate | copyTable | list | quit | printTable
  | insert | update | select | delete | duplicate | count | sum | min | max
  | add | sub | swap | listen | nop
  deriving DecidableEq, Repr

/-- Scheduling priorities, from high to low. -/
inductive QueryPriority where
  | systemHigh | high | normal | low
  deriving DecidableEq, Repr

/-- The value of the enumerator: a smaller one goes first. -/
def QueryPriority.value : QueryPriority → Nat
  | .systemHigh => 0
  | .high => 1
  | .normal => 2
  | .low => 3

/-- Classify a query type to a priority. -/
def classifyPriority : QueryType → QueryPriority
  | .quit | .list => .systemHigh
  | .load | .dump | .drop | .truncate | .copyTable => .high
  | _ => .normal

/-! ## the query classes -/

/-- The comparison objects a condition can be initialised with. -/
inductive Comparator where
  | greater | less | equalTo | greaterEqual | lessEqual
  deriving DecidableEq, Repr

/-- One condition of a WHERE clause.  `comp = none` is the empty
`std::function` of a condition that was not initialised. -/
structure QueryCondition where
  field : String
  fieldId : Nat := 0
  op : String
  comp : Option Comparator := none
  value : String
  valueParsed : Int32 := 0
  deriving DecidableEq

/-- The data of a query with operands and a WHERE clause. -/
structure ComplexQuery where
  targetTable : String
  operands : List String
  condition : List QueryCondition
  deriving DecidableEq

/-- A parsed query: one constructor per query class. -/
inductive Query where
  | load (targetTable fileName : String)
  | dump (targetTable fileName : String)
  | drop (targetTable : String)
  | truncate (targetTable : String)
  | copyTable (targetTable newTable : String)
  | list
  | quit
  | printTable (targetTable : String)
  | listen (fileName : String)
  | nop
  | insert (q : ComplexQuery)
  | update (q : ComplexQuery)
  | select (q : ComplexQuery)
  | delete (q : ComplexQuery)
  | duplicate (q : ComplexQuery)
  | count (q : ComplexQuery)
  | sum (q : ComplexQuery)
  | min (q : ComplexQuery)
  | max (q : ComplexQuery)
  | add (q : ComplexQuery)
  | sub (q : ComplexQuery)
  | swap (q : ComplexQuery)
  deriving DecidableEq

namespace Query

def type : Query → QueryType
  | load .. => .load
  | dump .. => .dump
  | drop .. => .drop
  | truncate .. => .truncate
  | copyTable .. => .copyTable
  | list => .list
  | quit => .quit
  | printTable .. => .printTable
  | listen .. => .listen
  | nop => .nop
  | insert _ => .insert
  | update _ => .update
  | select _ => .select
  | delete _ => .delete
  | duplicate _ => .duplicate
  | count _ => .count
  | sum _ => .sum
  | min _ => .min
  | max _ => .max
  | add _ => .add
  | sub _ => .sub
  | swap _ => .swap

/-- The target table; empty for LIST, QUIT, LISTEN and NOP. -/
def table : Query → String
  | load t _ | dump t _ | drop t | truncate t | copyTable t _ | printTable t => t
  | insert q | update q | select q | delete q | duplicate q | count q | sum q | min q | max q
  | add q | sub q | swap q => q.targetTable
  | list | quit | listen _ | nop => ""

/-- The associated file path (LOAD/DUMP); empty otherwise. -/
def filePath : Query → String
  | load _ f | dump _ f => f
  | _ => ""

/-- The new table name (COPYTABLE); empty otherwise. -/
def newTable : Query → String
  | copyTable _ t => t
  | _ => ""

end Query

/-! ## routing -/

/-- Pseudo table for commands without a concrete table name. -/
def controlTableId : String := "__control__"

/-- The queue a query is routed to: its table, else the control pseudo table. -/
def resolveTableId (query : Query) : String :=
  if query.table = "" then controlTableId else query.table

end LemonDB
