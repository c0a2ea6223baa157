import LemonDB.Query.Condition
import LemonDB.Query.Result

/-!
# LemonDB.Query.Data

The data queries: each reads or changes the rows of one table.

A scan of the rows is `scan`, which collects something from the rows that
satisfy the conditions, or `update`, which changes these rows one by one.  An
exception ends the execution where it is raised, and what was written before
stays written.
-/

namespace LemonDB

open TextStream

/-- A value or an exception, and the table that is left. -/
abbrev Outcome := Except DbError QueryResult × Table

namespace ComplexQuery

/-- Collect something from the rows that satisfy the conditions. -/
def scan (conds : List QueryCondition) (table : Table) (step : β → Datum → Except DbError β)
    (init : β) : Except DbError β :=
  table.data.foldlM (fun acc obj => do
    if ← evalCondition conds table obj then step acc obj else return acc) init

/-- The same, when any row can satisfy the conditions. -/
def scanIf (flag : Bool) (conds : List QueryCondition) (table : Table)
    (step : β → Datum → Except DbError β) (init : β) : Except DbError β :=
  if flag then scan conds table step init else return init

/-- Change the rows that satisfy the conditions, and count them.  `body` gets the
row object with its row; the scan is at position `it`, with `remaining` rows to
come. -/
def update (conds : List QueryCondition)
    (body : Table → Nat → Datum → Except DbError Table) :
    (remaining it counter : Nat) → Table → Except DbError Nat × Table
  | 0, _, counter, table => (.ok counter, table)
  | remaining + 1, it, counter, table =>
      match table.data[it]? with
      | none => (.ok counter, table)
      | some obj => match evalCondition conds table obj with
          | .error e => (.error e, table)
          | .ok false => update conds body remaining (it + 1) counter table
          | .ok true => match body table it obj with
              | .error e => (.error e, table)
              | .ok table => update conds body remaining (it + 1) (counter + 1) table

/-- A number of rows as the result of a query. -/
def recordCount (counter : Nat) : QueryResult := .recordCount (Int32.ofInt counter)

/-- Initialise the conditions, then update the rows, if any can satisfy them. -/
def updateRows (q : ComplexQuery) (table : Table)
    (body : Table → Nat → Datum → Except DbError Table) : Outcome :=
  match initCondition table "" q.condition with
  | .error e => (.error e, table)
  | .ok ((_, false), _) => (.ok (recordCount 0), table)
  | .ok ((_, true), conds) =>
      let (counter, table) := update conds body table.size 0 0 table
      (counter.map recordCount, table)

/-- Write the cell with an index. -/
def putCell (table : Table) (it : Nat) (obj : Datum) (index : Nat) (value : Int32) :
    Except DbError Table := do
  return table.modifyRow it (← table.put obj.datum (.index index) value)

/-! ## queries that change cells -/

/-- The sum of cells. -/
def sumCells (table : Table) (obj : Datum) (ids : List Nat) : Except DbError Int :=
  ids.foldlM (fun acc idx => do return acc + (← table.get obj.datum (.index idx)).toInt) 0

/-- ADD writes the sum of the source fields into the last one. -/
def executeAdd (q : ComplexQuery) (table : Table) : Outcome :=
  let ids : Except DbError (Nat × List Nat) := do
    let dstId ← table.getFieldIndex (q.operands.getLastD "")
    let srcId ← q.operands.dropLast.mapM table.getFieldIndex
    return (dstId, srcId)
  match ids with
  | .error e => (.error e, table)
  | .ok (dstId, srcId) => q.updateRows table fun table it obj => do
      putCell table it obj dstId (Int32.ofInt (← sumCells table obj srcId))

/-- SUB writes the first source field less the others into the last one. -/
def executeSub (q : ComplexQuery) (table : Table) : Outcome :=
  let ids : Except DbError (Nat × List Nat) := do
    let dstId ← table.getFieldIndex (q.operands.getLastD "")
    let srcId ← q.operands.dropLast.mapM table.getFieldIndex
    return (dstId, srcId)
  match ids with
  | .error e => (.error e, table)
  | .ok (dstId, srcId) => q.updateRows table fun table it obj => do
      let value := (← table.get obj.datum (.index (srcId.headD 0))).toInt
      putCell table it obj dstId (Int32.ofInt (value - (← sumCells table obj srcId.tail)))

/-- SWAP exchanges the values of two fields. -/
def executeSwap (q : ComplexQuery) (table : Table) : Outcome :=
  match q.operands with
  | [field1, field2] =>
      let ids : Except DbError (Nat × Nat) := do
        return (← table.getFieldIndex field1, ← table.getFieldIndex field2)
      match ids with
      | .error e => (.error e, table)
      | .ok (field1Id, field2Id) => q.updateRows table fun table it obj => do
          -- if fields are the same, only count as affected number
          if field1Id ≠ field2Id then
            let v1 ← table.get obj.datum (.index field1Id)
            let v2 ← table.get obj.datum (.index field2Id)
            let datum ← table.put obj.datum (.index field1Id) v2
            return table.modifyRow it (← table.put datum (.index field2Id) v1)
          else return table
  | operands => (.ok (.tableError "SWAP" q.targetTable
      (fill "Invalid number of operands (? operands)." (toString operands.length))), table)

/-- `setKey`: the entry of the old key in the key map goes over to the new one.
There is no defined behaviour when the old key has no entry. -/
def setKey (table : Table) (it : Nat) (obj : Datum) (key : String) : Except DbError Table :=
  match table.keyMap.get? obj.key with
  | none => throw .undefinedBehaviour
  | some dataIt =>
      return { table with
        keyMap := Table.emplaceField (table.keyMap.remove obj.key) key dataIt
        data := table.data.modify it fun d => { d with key } }

/-- UPDATE writes a value into a field, or gives a new key. -/
def executeUpdate (q : ComplexQuery) (table : Table) : Outcome :=
  let fields : Except DbError (String × Nat × Int32) :=
    if q.operands.getD 0 "" = "KEY" then return (q.operands.getD 1 "", 0, 0)
    else do
      let fieldId ← table.getFieldIndex (q.operands.getD 0 "")
      return ("", fieldId, parseValue (q.operands.getD 1 ""))
  match fields with
  | .error e => (.error e, table)
  | .ok (keyValue, fieldId, fieldValue) => q.updateRows table fun table it obj =>
      if keyValue = "" then putCell table it obj fieldId fieldValue
      else setKey table it obj keyValue

/-! ## queries that add or remove rows -/

/-- INSERT adds a row with the key and the values of its operands. -/
def executeInsert (q : ComplexQuery) (table : Table) : Outcome :=
  match table.insertByIndex (q.operands.headD "") (q.operands.tail.map parseValue) with
  | .error e => (.error e, table)
  | .ok table => (.ok .null, table)

/-- Delete rows by their keys, and count them. -/
def deleteKeys : List String → (counter : Nat) → Table → Except DbError Nat × Table
  | [], counter, table => (.ok counter, table)
  | key :: keys, counter, table => match table.deleteByIndex key with
      | .error e => (.error e, table)
      | .ok (deleted, table) => deleteKeys keys (if deleted then counter + 1 else counter) table

/-- DELETE collects the keys of the rows that meet the clause, and removes their rows then.
-/
def executeDelete (q : ComplexQuery) (table : Table) : Outcome :=
  -- collect keys to delete because can't delete while iterating
  let collected : Except DbError (List String) := do
    let ((_, flag), conds) ← initCondition table "" q.condition
    scanIf flag conds table (fun delKeys obj => return delKeys ++ [obj.key]) []
  match collected with
  | .error e => (.error e, table)
  | .ok delKeys =>
      let (counter, table) := deleteKeys delKeys 0 table
      (counter.map recordCount, table)

/-- Duplicate rows under new keys, and count them. -/
def duplicateKeys : List (String × String) → (counter : Nat) → Table → Except DbError Nat × Table
  | [], counter, table => (.ok counter, table)
  | (orig, copy) :: pairs, counter, table =>
      match table.duplicateByKey orig copy with
      | .error e => (.error e, table)
      | .ok (duplicated, table) =>
          duplicateKeys pairs (if duplicated then counter + 1 else counter) table

/-- DUPLICATE collects the keys that are to be copied, and copies their rows then. -/
def executeDuplicate (q : ComplexQuery) (table : Table) : Outcome :=
  -- collect pairs of keys instead of real data
  let collected : Except DbError (List (String × String)) := do
    let ((_, flag), conds) ← initCondition table "" q.condition
    scanIf flag conds table (fun toDuplicate obj =>
      let copyKey := obj.key ++ "_copy"
      if (table.find? copyKey).isNone then return toDuplicate ++ [(obj.key, copyKey)]
      else return toDuplicate) []
  match collected with
  | .error e => (.error e, table)
  | .ok toDuplicate =>
      let (counter, table) := duplicateKeys toDuplicate 0 table
      (counter.map recordCount, table)

/-! ## queries that read -/

/-- COUNT counts the rows that meet the clause. -/
def executeCount (q : ComplexQuery) (table : Table) : Except DbError QueryResult := do
  let ((_, flag), conds) ← initCondition table "" q.condition
  let counter : Nat ← scanIf flag conds table (fun counter _ => return counter + 1) 0
  return .answer (Int32.ofInt counter)

/-- Add the cells of a row to the sums.  The accumulators have 64 bits, which less
than `2 ^ 31` rows do not overflow. -/
def addSums (table : Table) (fieldId : List Nat) (sums : List Int) (obj : Datum) :
    Except DbError (List Int) :=
  (fieldId.zip sums).mapM fun (fid, acc) => do
    return acc + (← table.get obj.datum (.index fid)).toInt

/-- SUM adds up the values of each field, over the rows that meet the clause. -/
def executeSum (q : ComplexQuery) (table : Table) : Except DbError QueryResult :=
  if q.operands = [] then
    return (.tableError "SUM" q.targetTable
      (fill "No operands (? operands)." (toString q.operands.length)))
  else if q.operands.any (· = "KEY") then
    return (.tableError "SUM" q.targetTable "The KEY field cannot be summed over.")
  else do
    let fieldId ← q.operands.mapM table.getFieldIndex
    let ((_, flag), conds) ← initCondition table "" q.condition
    let sums ← scanIf flag conds table (addSums table fieldId) (fieldId.map fun _ => 0)
    return .answers (sums.map Int32.ofInt)

/-- Update the current extrema by a row, and count the row. -/
def improve (better : Int32 → Int32 → Bool) (table : Table) (fieldId : List Nat)
    (acc : Nat × List Int32) (obj : Datum) : Except DbError (Nat × List Int32) := do
  let values ← (fieldId.zip acc.2).mapM fun (fid, cur) => do
    let val ← table.get obj.datum (.index fid)
    return if better val cur then val else cur
  return (acc.1 + 1, values)

/-- MIN and MAX: `better` tells when a value replaces the current one. -/
def executeExtremum (q : ComplexQuery) (better : Int32 → Int32 → Bool) (start : Int32)
    (table : Table) : Except DbError QueryResult := do
  let fieldId ← q.operands.mapM table.getFieldIndex
  let ((_, flag), conds) ← initCondition table "" q.condition
  let (matched, values) ← scanIf flag conds table (improve better table fieldId)
    (0, fieldId.map fun _ => start)
  return if matched = 0 then .null else .answers values

/-- MAX starts from the smallest value. -/
def executeMax (q : ComplexQuery) (table : Table) : Except DbError QueryResult :=
  q.executeExtremum (fun val curMax => decide (val > curMax)) Int32.minValue table

/-- MIN starts from the largest value. -/
def executeMin (q : ComplexQuery) (table : Table) : Except DbError QueryResult :=
  q.executeExtremum (fun val curMin => decide (val < curMin)) Int32.maxValue table

/-- The line of a selected row. -/
def selectLine (table : Table) (fieldId : List Nat) (obj : Datum) : Except DbError String := do
  let values ← fieldId.mapM fun fieldVal => do
    return " " ++ QueryResult.showInt (← table.get obj.datum (.index fieldVal)).toInt
  return "( " ++ obj.key ++ String.join values ++ " )\n"

/-- SELECT prints the rows that meet the clause, ordered by their lines. -/
def executeSelect (q : ComplexQuery) (table : Table) : Except DbError QueryResult := do
  let ((_, flag), conds) ← initCondition table "" q.condition
  if flag then
    let fieldId ← q.operands.tail.mapM table.getFieldIndex
    let vMsg ← scan conds table (fun vMsg obj => do
      return vMsg ++ [← selectLine table fieldId obj]) []
    -- sort in ascending lexical order
    let msg := String.join (vMsg.mergeSort fun a b => decide (a ≤ b))
    return if msg = "" then .null else .successMsg (String.ofList msg.toList.dropLast)
  else return .successMsg ""

/-! ## execution on the database -/

/-- Read the target table. -/
def reading (q : ComplexQuery) (h : Handlers) (database : Database)
    (f : Table → Except DbError QueryResult) : QueryResult × Database :=
  match database.get q.targetTable >>= f with
  | .ok result => (result, database)
  | .error e => (h.handle q.targetTable e, database)

/-- Change the target table. -/
def writing (q : ComplexQuery) (h : Handlers) (database : Database) (f : Table → Outcome) :
    QueryResult × Database :=
  match database.get q.targetTable with
  | .error e => (h.handle q.targetTable e, database)
  | .ok table =>
      let (result, table) := f table
      let database := database.setTable q.targetTable table
      match result with
      | .ok result => (result, database)
      | .error e => (h.handle q.targetTable e, database)

/-- A check of the number of operands, made before anything else. -/
def withOperands (q : ComplexQuery) (qname format : String) (ok : Bool) (database : Database)
    (run : QueryResult × Database) : QueryResult × Database :=
  if ok then run
  else (.tableError qname q.targetTable (fill format (toString q.operands.length)), database)

/-- The format of most operand checks. -/
def invalidNumber : String := "Invalid number of operands (? operands)."

def add (q : ComplexQuery) (database : Database) : QueryResult × Database :=
  q.withOperands "ADD" invalidNumber (decide (2 ≤ q.operands.length)) database <|
    q.writing { qname := "ADD", invalidArgument := "Unkonwn error '?'",
                exception := "Unkonwn error '?'" } database q.executeAdd

def sub (q : ComplexQuery) (database : Database) : QueryResult × Database :=
  q.withOperands "SUB" invalidNumber (decide (2 ≤ q.operands.length)) database <|
    q.writing { qname := "SUB", invalidArgument := "Unkonwn error '?'",
                exception := "Unkonwn error '?'" } database q.executeSub

def swap (q : ComplexQuery) (database : Database) : QueryResult × Database :=
  q.writing { qname := "SWAP", invalidArgument := "Unknown error '?'",
              exception := "Unknown error '?'" } database q.executeSwap

def updateQuery (q : ComplexQuery) (database : Database) : QueryResult × Database :=
  q.withOperands "UPDATE" invalidNumber (decide (q.operands.length = 2)) database <|
    q.writing { qname := "UPDATE", noTable := some "No such table.", field := false,
                invalidArgument := "Unknown error '?'", exception := "Unkonwn error '?'" }
      database q.executeUpdate

def insert (q : ComplexQuery) (database : Database) : QueryResult × Database :=
  q.withOperands "INSERT" "No operand (? operands)." (decide (q.operands ≠ [])) database <|
    q.writing { qname := "INSERT", noTable := some "No such table.", field := false,
                invalidArgument := "Unknown error '?'", exception := "Unkonwn error '?'" }
      database q.executeInsert

def delete (q : ComplexQuery) (database : Database) : QueryResult × Database :=
  q.writing { qname := "DELETE", field := false, invalidArgument := "Unknown error '?'",
              exception := "Unknown error '?'" } database q.executeDelete

def duplicate (q : ComplexQuery) (database : Database) : QueryResult × Database :=
  q.withOperands "DUPLICATE" invalidNumber (decide (q.operands = [])) database <|
    q.writing { qname := "DUPLICATE", noTable := some "No such table.", field := false,
                invalidArgument := "Unkonwn error '?'", exception := "Unkonwn error '?'" }
      database q.executeDuplicate

def count (q : ComplexQuery) (database : Database) : QueryResult × Database :=
  q.reading { qname := "COUNT", field := false, invalidArgument := "Unknown error '?'",
              exception := "Unknown error '?'" } database q.executeCount

def sum (q : ComplexQuery) (database : Database) : QueryResult × Database :=
  q.reading { qname := "SUM", invalidArgument := "Unknown error '?'",
              exception := "Unknown error '?'" } database q.executeSum

def max (q : ComplexQuery) (database : Database) : QueryResult × Database :=
  q.withOperands "MAX" invalidNumber (decide (q.operands ≠ [])) database <|
    q.reading { qname := "MAX", invalidArgument := "Unkonwn error '?'",
                exception := "Unkonwn error '?'" } database q.executeMax

def min (q : ComplexQuery) (database : Database) : QueryResult × Database :=
  q.withOperands "MIN" invalidNumber (decide (q.operands ≠ [])) database <|
    q.reading { qname := "MIN", invalidArgument := "Unkonwn error '?'",
                exception := "Unkonwn error '?'" } database q.executeMin

def select (q : ComplexQuery) (database : Database) : QueryResult × Database :=
  q.withOperands "SELECT" invalidNumber (decide (q.operands ≠ [])) database <|
    -- KEY field must always appear at the beginning
    if q.operands.headD "" ≠ "KEY" then
      (.tableError "SELECT" q.targetTable "Invalid format, the first must be KEY.", database)
    else q.reading { qname := "SELECT", invalidArgument := "Unknown error '?'",
                     exception := "Unkonwn error '?'" } database q.executeSelect

end ComplexQuery

end LemonDB
