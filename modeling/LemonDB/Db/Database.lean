import LemonDB.Db.Table
import LemonDB.Lib.TextStream

/-!
# LemonDB.Db.Database

The tables of the database by name, the text that a table is written as, and
the reader of that format.
-/

namespace LemonDB

open TextStream

/-! ## writing a table -/

namespace Table

/-- The minimal width of a column. -/
def width : Nat := 10

/-- Output of a string after `std::setw`. -/
def column (s : Text) : Text := s.leftpad width ' '

/-- The line of one row.  Reading past the end of a row that has less values
than the table has fields has no defined behaviour. -/
def rowText (numFields : Nat) (datum : Datum) : Option Text :=
  if numFields ≤ datum.datum.length then
    some (column datum.key.toList ++
      (datum.datum.take numFields).flatMap (fun v => column (decimal v.toInt)) ++ ['\n'])
  else none

/-- The header line. -/
def headerText (table : Table) : Text :=
  column "KEY".toList ++ table.fields.flatMap (fun field => column field.toList)

/-- `operator<<`. -/
def text (table : Table) : Option Text := do
  let rows ← table.data.mapM (rowText table.fields.length)
  return table.tableName.toList ++ '\t' :: decimal (table.fields.length + 1) ++ '\n' ::
    (table.headerText ++ '\n' :: rows.flatten)

end Table

/-! ## the tables -/

structure Database where
  tables : FiniteMap String Table := ∅

namespace Database

/-- The table of this name.  `operator[]` raises an exception for a name without
one. -/
def get (database : Database) (tableName : String) : Except DbError Table :=
  match database.tables.get? tableName with
  | some table => return table
  | none => throw (.tableNameNotFound
      ("Error accesing table \"" ++ tableName ++ "\". Table not found."))

def testDuplicate (database : Database) (tableName : String) : Except DbError Unit :=
  match database.tables.get? tableName with
  | some _ => throw (.duplicatedTableName
      ("Error when inserting table \"" ++ tableName ++ "\". Name already exists."))
  | none => return ()

def registerTable (database : Database) (table : Table) : Except DbError Database := do
  database.testDuplicate table.tableName
  return { database with tables := database.tables.set table.tableName table }

def dropTable (database : Database) (tableName : String) : Except DbError Database :=
  match database.tables.get? tableName with
  | some _ => return { database with tables := database.tables.remove tableName }
  | none => throw (.tableNameNotFound
      ("Error when trying to drop table \"" ++ tableName ++ "\". Table not found."))

/-- Replace the content of a table. -/
def setTable (database : Database) (tableName : String) (table : Table) : Database :=
  { database with tables := database.tables.set tableName table }

/-! ## reading a table -/

/-- Extract so many field names. -/
def readFields : Nat → Text → Option (List String)
  | 0, _ => some []
  | n + 1, s => do
      let (field, s) ← readString s
      return String.ofList field :: (← readFields n s)

/-- Extract so many values. -/
def readValues : Nat → Text → Option (List Int32)
  | 0, _ => some []
  | n + 1, s => do
      let (value, s) ← readInt s
      return value :: (← readValues n s)

/-- Raise a `LoadFromStreamException` for a failed extraction. -/
def orThrow (what : String) : Option α → Except DbError α
  | some a => return a
  | none => throw (.loadFromStreamException what)

/-- Read the rows, up to the first empty line. -/
def readRows (errString : String) (fieldCount : Nat) :
    (lineCount : Nat) → Table → List Text → Except DbError Table
  | _, table, [] => return table
  | _, table, [] :: _ => return table
  | lineCount, table, line :: rest => do
      let (key, s) ← orThrow (errString ++ "Missing or invalid KEY field.") (readString line)
      let tuple ← orThrow (errString ++ "Invalid row on LINE " ++ toString (lineCount + 1))
        (readValues (fieldCount - 1) s)
      readRows errString fieldCount (lineCount + 1)
        (← table.insertByIndex (String.ofList key) tuple) rest

/-- The beginning of the messages. -/
def errString (source : String) : String :=
  if source ≠ "" then fill "Invalid table (from \"?\") format: " source
  else "Invalid table format: "

def loadTableFromStream (database : Database) (inputStream : Text) (source : String) :
    Except DbError Database :=
  match lines inputStream with
  | [] => throw (.loadFromStreamException
      (errString source ++ "Failed to read table metadata line."))
  | line :: rest => do
      let (tableName, s) ← orThrow (errString source ++ "Failed to parse table metadata.")
        (readString line)
      let (fieldCount, _) ← orThrow (errString source ++ "Failed to parse table metadata.")
        (readSize s)
      database.testDuplicate (String.ofList tableName)
      match rest with
      | [] => throw (.loadFromStreamException (errString source ++ "Failed to load field names."))
      | line :: rest =>
          let fields ← orThrow (errString source ++ "Failed to load field names.")
            (readFields fieldCount line)
          match fields with
          -- `front` of an empty container
          | [] => throw .undefinedBehaviour
          | key :: fields =>
              if key ≠ "KEY" then
                throw (.loadFromStreamException (errString source ++
                  "Missing or invalid KEY field."))
              let table ← Table.create (String.ofList tableName) fields
              database.registerTable (← readRows (errString source) fieldCount 2 table rest)

/-! ## the tables of the files -/

/-- `fileTableNameMap`: the table that a file holds. -/
abbrev FileTableNameMap := FiniteMap String String

def updateFileTableName (fileTableNameMap : FileTableNameMap) (fileName tableName : String) :
    FileTableNameMap := fileTableNameMap.set fileName tableName

/-- The table of a file: what is remembered, else the first word of the file.
A file that cannot be opened has no table, which is not remembered. -/
def getFileTableName (files : FiniteMap String Text) (fileTableNameMap : FileTableNameMap)
    (fileName : String) : String × FileTableNameMap :=
  match fileTableNameMap.get? fileName with
  | some tableName => (tableName, fileTableNameMap)
  | none => match files.get? fileName with
      | none => ("", fileTableNameMap)
      | some infile =>
          let tableName := match readString infile with
            | some (word, _) => String.ofList word
            | none => ""
          (tableName, fileTableNameMap.set fileName tableName)

end Database

end LemonDB
