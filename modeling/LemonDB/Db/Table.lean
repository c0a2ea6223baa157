import LemonDB.Db.Exceptions
import LemonDB.Lib.PositionIndex

/-!
# LemonDB.Db.Table

A table: its rows in a vector, and a hash index from keys to row positions.

A row object is the position of its row; the row objects of an iteration are
the positions from first to last.  The cells of a row are reached by the name
or by the index of their field.
-/

namespace LemonDB

open PositionIndex

/-- One row. -/
structure Datum where
  key : String
  datum : List Int32
  deriving DecidableEq, Repr

structure Table where
  fields : List String := []
  fieldMap : FiniteMap String Nat := ∅
  data : List Datum := []
  keyMap : FiniteMap String Nat := ∅
  tableName : String

namespace Table

/-! ## constructors -/

/-- `emplace`: a name that is there already keeps its index. -/
def emplaceField (fieldMap : FiniteMap String Nat) (field : String) (fieldIndex : Nat) :
    FiniteMap String Nat :=
  match fieldMap.get? field with
  | some _ => fieldMap
  | none => fieldMap.set field fieldIndex

/-- One field of a new table. -/
def addField (name : String) (fieldMap : FiniteMap String Nat) :
    String × Nat → Except DbError (FiniteMap String Nat)
  | (fieldName, fieldIndex) =>
      if fieldName = "KEY" then
        throw (.multipleKey ("Error creating table \"" ++ name ++ "\": Multiple KEY field."))
      else return emplaceField fieldMap fieldName fieldIndex

/-- An empty table with these fields. -/
def create (name : String) (fields : List String) : Except DbError Table := do
  let fieldMap ← fields.zipIdx.foldlM (addField name) ∅
  return { tableName := name, fields, fieldMap }

/-- A copy of a table under another name. -/
def copy (name : String) (origin : Table) : Table :=
  { fields := origin.fields, fieldMap := origin.fieldMap, data := origin.data,
    keyMap := origin.keyMap, tableName := name }

/-! ## rows -/

def getFieldIndex (table : Table) (field : String) : Except DbError Nat :=
  match table.fieldMap.get? field with
  | some index => return index
  | none => throw (.tableFieldNotFound (fill "Field name \"?\" doesn't exists." field))

def insertByIndex (table : Table) (key : String) (data : List Int32) : Except DbError Table :=
  match table.keyMap.get? key with
  | some _ => throw (.conflictingKey ("In Table \"" ++ table.tableName ++ "\" : Key \"" ++ key ++
      "\" already exists!"))
  | none => return { table with keyMap := table.keyMap.set key table.data.length,
                                data := table.data ++ [⟨key, data⟩] }

/-- Remove a row: the last one is swapped into its place.  There is no defined
behaviour for an entry of the key map past the last row. -/
def deleteByIndex (table : Table) (key : String) : Except DbError (Bool × Table) :=
  match table.keyMap.get? key with
  | none => return (false, table)
  | some delInd =>
      if table.data.length ≤ delInd then throw .undefinedBehaviour
      else
        let lastInd := table.data.length - 1
        let table := if delInd ≠ lastInd then
            let data := swap table.data delInd lastInd
            -- update the keyMap for the swapped element
            let keyMap := match data[delInd]? with
              | some swapped => table.keyMap.set swapped.key delInd
              | none => table.keyMap
            { table with data, keyMap }
          else table
        return (true, { table with data := table.data.dropLast, keyMap := table.keyMap.remove key })

/-- The row object of a key, if there is one. -/
def find? (table : Table) (key : String) : Option Nat := table.keyMap.get? key

/-- The row of a key. -/
def row? (table : Table) (key : String) : Option Datum :=
  (table.find? key).bind fun it => table.data[it]?

/-- Copy a row under another key.  There is no defined behaviour for an entry of the key
map past the last row. -/
def duplicateByKey (table : Table) (src dst : String) : Except DbError (Bool × Table) :=
  match table.keyMap.get? dst, table.keyMap.get? src with
  | some _, _ => return (false, table)
  | none, none => return (false, table)
  | none, some srcIt => match table.data[srcIt]? with
      | none => throw .undefinedBehaviour
      | some srcDatum => do return (true, ← table.insertByIndex dst srcDatum.datum)

def clear (table : Table) : Nat × Table :=
  (table.keyMap.keys.length, { table with data := [], keyMap := ∅ })

def size (table : Table) : Nat := table.data.length

/-! ## row objects -/

/-- How a cell of a row is addressed. -/
inductive FieldRef where
  | name (field : String)
  | index (index : Nat)
  deriving DecidableEq, Repr

/-- The cell of a row that a field reference reaches. -/
def cell (table : Table) (datum : List Int32) : FieldRef → Except DbError Nat
  | .name field => match (table.fieldMap.get? field).filter (· < datum.length) with
      | some index => return index
      | none => throw (.tableFieldNotFound (fill "Field name \"?\" doesn't exists." field))
  | .index index =>
      if index < datum.length then return index
      else throw (.tableFieldNotFound (fill "Field index ? out of range." (toString index)))

/-- Read a cell of a row. -/
def get (table : Table) (datum : List Int32) (field : FieldRef) : Except DbError Int32 := do
  return datum.getD (← table.cell datum field) 0

/-- A row after one of its cells was written. -/
def put (table : Table) (datum : List Int32) (field : FieldRef) (value : Int32) :
    Except DbError (List Int32) := do
  return datum.set (← table.cell datum field) value

/-- Change the row of a row object. -/
def modifyRow (table : Table) (it : Nat) (datum : List Int32) : Table :=
  { table with data := table.data.modify it fun d => { d with datum } }

end Table

end LemonDB
