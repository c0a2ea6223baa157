/-!
# LemonDB.Db.Exceptions

The format strings of the source and the exceptions of the database, each with
its message.
-/

namespace LemonDB

/-- `operator%`: the first question mark of the format is replaced, unless a
backslash stands before it.  (The source has no defined behaviour for a format
without a question mark; no format that it uses is one.) -/
def fill (format value : String) : String :=
  match format.toList.span fun c => c ≠ '?' with
  | (_, []) => format
  | (before, _ :: after) =>
      if before.getLast? = some '\\' then format
      else String.ofList (before ++ value.toList ++ after)

/-- The exceptions that an execution raises. -/
inductive DbError where
  | duplicatedTableName (what : String)
  | tableNameNotFound (what : String)
  | conflictingKey (what : String)
  | multipleKey (what : String)
  | tableFieldNotFound (what : String)
  | loadFromStreamException (what : String)
  | illFormedQueryCondition (what : String)
  /-- `std::bad_function_call`, by the call of an empty `std::function`. -/
  | badFunctionCall
  /-- Not an exception: the source has no defined behaviour here. -/
  | undefinedBehaviour
  deriving DecidableEq, Repr

/-- The message of an exception. -/
def DbError.what : DbError → String
  | duplicatedTableName m | tableNameNotFound m | conflictingKey m | multipleKey m
  | tableFieldNotFound m | loadFromStreamException m | illFormedQueryCondition m => m
  | badFunctionCall => "bad_function_call"
  | undefinedBehaviour => ""

end LemonDB
