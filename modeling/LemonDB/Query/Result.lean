import LemonDB.Db.Exceptions
import LemonDB.Lib.TextStream

/-!
# LemonDB.Query.Result

What the execution of a query gives: the result classes with their messages,
and the exception handlers by which a query turns an exception of the database
into an error result.
-/

namespace LemonDB

open TextStream

/-- The result classes. -/
inductive QueryResult where
  | null
  | errorMsg (msg : String)
  | successMsg (msg : String)
  | recordCount (affectedRows : Int32)
  /-- Not a result: QUIT ends the program by an exception. -/
  | quit
  /-- The source has no defined behaviour for this execution. -/
  | undefined
  deriving DecidableEq, Repr

namespace QueryResult

/-- A decimal number in a message. -/
def showInt (n : Int) : String := String.ofList (decimal n)

/-- An error of a query. -/
def queryError (qname msg : String) : QueryResult :=
  .errorMsg (fill (fill "Query \"?\" failed : ?" qname) msg)

/-- An error of a query on a table. -/
def tableError (qname table msg : String) : QueryResult :=
  .errorMsg (fill (fill (fill "Query \"?\" failed in Table \"?\" : ?" qname) table) msg)

/-- The success of a query. -/
def querySuccess (qname msg : String) : QueryResult :=
  .successMsg (fill (fill "Query \"?\" success : ?" qname) msg)

/-- The answer to a query for one number. -/
def answer (number : Int32) : QueryResult :=
  .successMsg (fill "ANSWER = ?" (showInt number.toInt))

/-- The answer to a query for several numbers. -/
def answers (results : List Int32) : QueryResult :=
  .successMsg ("ANSWER = ( " ++
    String.join (results.map fun result => showInt result.toInt ++ " ") ++ ")")

/-- An error result is shown on the error stream only. -/
def success : QueryResult → Bool
  | errorMsg _ => false
  | _ => true

/-- The text of a result. -/
def output : QueryResult → String
  | null | quit | undefined => ""
  | errorMsg msg | successMsg msg => msg ++ "\n"
  | recordCount affectedRows => fill "Affected ? rows." (showInt affectedRows.toInt) ++ "\n"

end QueryResult

/-- The `catch` clauses of a data query.  An exception that has no clause of
its own is caught as `std::invalid_argument`, if it is one, else as
`std::exception`; the two formats are those of these last clauses. -/
structure Handlers where
  qname : String
  /-- The message that replaces the one of a `TableNameNotFound`. -/
  noTable : Option String := none
  /-- Whether `TableFieldNotFound` has a clause of its own. -/
  field : Bool := true
  invalidArgument : String
  exception : String

namespace Handlers

/-- The result that an exception is turned into. -/
def handle (h : Handlers) (targetTable : String) : DbError → QueryResult
  | .tableNameNotFound what => .tableError h.qname targetTable (h.noTable.getD what)
  | .illFormedQueryCondition what => .tableError h.qname targetTable what
  | .tableFieldNotFound what =>
      .tableError h.qname targetTable (if h.field then what else fill h.exception what)
  | .duplicatedTableName what | .conflictingKey what | .multipleKey what =>
      .tableError h.qname targetTable (fill h.invalidArgument what)
  | .loadFromStreamException what => .tableError h.qname targetTable (fill h.exception what)
  | .badFunctionCall =>
      .tableError h.qname targetTable (fill h.exception DbError.badFunctionCall.what)
  | .undefinedBehaviour => .undefined

end Handlers

end LemonDB
