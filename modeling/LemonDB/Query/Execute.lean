import LemonDB.Lib.Transition
import LemonDB.Query.Data

/-!
# LemonDB.Query.Execute

The execution of a query in a world of tables and files: its result, what it
changes, and what LIST and SHOWTABLE print themselves (`Query.printed`).
-/

namespace LemonDB

open TextStream

/-- The tables, and the files by their paths. -/
structure World where
  database : Database := {}
  files : FiniteMap String Text := ∅
  /-- The paths that can be opened for writing. -/
  writable : String → Bool := fun _ => true

namespace World

/-- A query on the tables only. -/
def onDatabase (w : World) (f : Database → QueryResult × Database) : QueryResult × World :=
  ((f w.database).1, { w with database := (f w.database).2 })

/-- `LoadTableQuery::execute`. -/
def load (w : World) (fileName : String) : QueryResult × World :=
  match w.files.get? fileName with
  | none => (.queryError "LOAD" (fill "Cannot open file '?'" fileName), w)
  | some infile => match w.database.loadTableFromStream infile fileName with
      | .ok database => (.null, { w with database })
      | .error .undefinedBehaviour => (.undefined, w)
      | .error e => (.queryError "LOAD" e.what, w)

/-- `DumpTableQuery::execute`.  Opening the file empties it. -/
def dump (w : World) (targetTable fileName : String) : QueryResult × World :=
  if w.writable fileName then
    let w := { w with files := w.files.set fileName [] }
    match w.database.get targetTable with
    | .error e => (.queryError "DUMP" e.what, w)
    | .ok table => match table.text with
        | none => (.undefined, w)
        | some text => (.null, { w with files := w.files.set fileName text })
  else (.queryError "DUMP" (fill "Cannot open file '?'" fileName), w)

end World

namespace Database

/-- `DropTableQuery::execute`. -/
def executeDrop (database : Database) (targetTable : String) : QueryResult × Database :=
  match database.dropTable targetTable with
  | .ok database => (.null, database)
  | .error _ => (.tableError "DROP" targetTable "No such table.", database)

/-- `TruncateTableQuery::execute`. -/
def executeTruncate (database : Database) (targetTable : String) : QueryResult × Database :=
  match database.get targetTable with
  | .ok table => (.null, database.setTable targetTable table.clear.2)
  | .error _ => (.tableError "TRUNCATE" targetTable "No such table.", database)

/-- `CopyTableQuery::execute`. -/
def executeCopyTable (database : Database) (targetTable newTable : String) :
    QueryResult × Database :=
  match database.get targetTable with
  | .error e => (.tableError "COPYTABLE" targetTable e.what, database)
  | .ok table => match database.registerTable (table.copy newTable) with
      | .ok database => (.null, database)
      | .error e => (.tableError "COPYTABLE" newTable e.what, database)

/-- `PrintTableQuery::execute`.  The table has to be printed before there is a
result. -/
def executePrintTable (database : Database) (targetTable : String) : QueryResult :=
  match database.get targetTable with
  | .error _ => .tableError "SHOWTABLE" targetTable "No such table."
  | .ok table => match table.text with
      | none => .undefined
      | some _ => .querySuccess "SHOWTABLE" targetTable

/-- The table that `PrintTableQuery::execute` prints. -/
def printTable (database : Database) (targetTable : String) : Text :=
  match (database.tables.get? targetTable).bind Table.text with
  | none => []
  | some text => "================\nTABLE = ".toList ++ text ++ "================\n\n".toList

/-- A column of the overview. -/
def overviewColumn (s : Text) : Text := s.leftpad 15 ' '

/-- `printAllTable`: the tables in the order of the map. -/
def printAllTable (database : Database) : Text :=
  "Database overview:\n=========================\n".toList ++
    overviewColumn "Table name".toList ++ overviewColumn "# of fields".toList ++
    overviewColumn "# of entries".toList ++ '\n' ::
    database.tables.keys.flatMap (fun name => match database.tables.get? name with
      | none => []
      | some table => overviewColumn name.toList ++
          overviewColumn (decimal (table.fields.length + 1)) ++
          overviewColumn (decimal table.size) ++ ['\n']) ++
    "Total ".toList ++ decimal database.tables.keys.length ++
    " tables.\n=========================\n".toList

end Database

/-- Execute a query. -/
def Query.execute (query : Query) (w : World) : QueryResult × World :=
  match query with
  | load _ fileName => w.load fileName
  | dump targetTable fileName => w.dump targetTable fileName
  | drop targetTable => w.onDatabase fun database => database.executeDrop targetTable
  | truncate targetTable => w.onDatabase fun database => database.executeTruncate targetTable
  | copyTable targetTable newTable =>
      w.onDatabase fun database => database.executeCopyTable targetTable newTable
  | list => (.successMsg (fill "Query \"?\" success." "LIST"), w)
  | quit => (.quit, w)
  | printTable targetTable => (w.database.executePrintTable targetTable, w)
  | listen fileName => (.successMsg ("ANSWER = ( listening from " ++ fileName ++ " )"), w)
  | nop => (.null, w)
  | insert q => w.onDatabase q.insert
  | update q => w.onDatabase q.updateQuery
  | select q => w.onDatabase q.select
  | delete q => w.onDatabase q.delete
  | duplicate q => w.onDatabase q.duplicate
  | count q => w.onDatabase q.count
  | sum q => w.onDatabase q.sum
  | min q => w.onDatabase q.min
  | max q => w.onDatabase q.max
  | add q => w.onDatabase q.add
  | sub q => w.onDatabase q.sub
  | swap q => w.onDatabase q.swap

/-- What a query prints itself while it is executed, in front of its result. -/
def Query.printed (query : Query) (w : World) : Text :=
  match query with
  | list => w.database.printAllTable
  | printTable targetTable => w.database.printTable targetTable
  | _ => []

/-- Whether a query prints nothing but its result. -/
def Query.silent : Query → Bool
  | list | printTable _ => false
  | _ => true

@[simp] theorem Query.printed_of_silent {query : Query} (h : query.silent = true) (w : World) :
    query.printed w = [] := by
  cases query <;> first | rfl | contradiction

/-- Queries that are executed one after the other.  QUIT ends the program. -/
def session : Transition World Query where
  step w query := match query.execute w with
    | (.quit, _) | (.undefined, _) => none
    | (_, w) => some w

/-- A step of a session leaves the world that its query leaves. -/
theorem world_of_session {w u : World} {query : Query} (h : session.step w query = some u) :
    u = (query.execute w).2 := by
  simp only [session] at h
  split at h
  · contradiction
  · contradiction
  · next hexec =>
      rw [hexec]
      exact (Option.some.inj h).symm

end LemonDB
