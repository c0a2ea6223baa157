import LemonDB.Db.Database
import LemonDB.Query

/-!
# LemonDB.Query.Condition

The WHERE clause of a query: its initialisation for the fields of a table, and
its evaluation on a row.
-/

namespace LemonDB

open TextStream

/-- `std::strtol` to base ten: what cannot be converted is 0, and a number out
of range is clamped. -/
def strtol (s : String) : Int :=
  let (negative, s) := readSign (s.toList.dropWhile isSpace)
  let n : Int := Nat.ofDigitChars 10 (s.takeWhile Char.isDigit) 0
  max (-2 ^ 63) (min (2 ^ 63 - 1) (if negative then -n else n))

/-- A literal as the value of a cell. -/
def parseValue (s : String) : Int32 := Int32.ofInt (strtol s)

/-- The comparison of a cell with a value. -/
def Comparator.test : Comparator → Int32 → Int32 → Bool
  | .greater, a, b => decide (a > b)
  | .less, a, b => decide (a < b)
  | .equalTo, a, b => decide (a = b)
  | .greaterEqual, a, b => decide (a ≥ b)
  | .lessEqual, a, b => decide (a ≤ b)

/-- The comparisons of the operators. -/
def opmap : List (String × Comparator) :=
  [(">", .greater), ("<", .less), ("=", .equalTo), (">=", .greaterEqual), ("<=", .lessEqual)]

namespace ComplexQuery

/-- Initialise the conditions for a table.  The result has the key that the
conditions ask for, and whether a row can satisfy them at all; in the negative
case the conditions may be left uninitialised. -/
def initCondition (table : Table) (key : String) :
    List QueryCondition → Except DbError ((String × Bool) × List QueryCondition)
  | [] => return ((key, true), [])
  | cond :: conds =>
      if cond.field = "KEY" then
        if cond.op ≠ "=" then
          throw (.illFormedQueryCondition "Can only compare equivalence on KEY")
        else if key ≠ "" ∧ key ≠ cond.value then
          return ((key, false), cond :: conds)
        else do
          let (result, conds) ← initCondition table (if key = "" then cond.value else key) conds
          return (result, cond :: conds)
      else do
        let fieldId ← table.getFieldIndex cond.field
        match opmap.lookup cond.op with
        | none => throw (.illFormedQueryCondition
            (fill "\"?\" is not a valid condition operator." cond.op))
        | some comp =>
            let (result, conds) ← initCondition table key conds
            return (result, { cond with fieldId, valueParsed := parseValue cond.value,
                                        comp := some comp } :: conds)

/-- One condition on a row.  (An initialised condition has a comparison, else
an empty function is called.) -/
def evalOne (table : Table) (object : Datum) (ret : Bool) (cond : QueryCondition) :
    Except DbError Bool :=
  if !ret then return false
  else if cond.field ≠ "KEY" then
    match cond.comp with
    | none => throw .badFunctionCall
    | some comp => do
        return comp.test (← table.get object.datum (.index cond.fieldId)) cond.valueParsed
  else return decide (object.key = cond.value)

/-- All conditions on a row. -/
def evalCondition (conds : List QueryCondition) (table : Table) (object : Datum) :
    Except DbError Bool :=
  conds.foldlM (evalOne table object) true

/-- The overload of `evalCondition` for the row objects of a constant table. -/
def evalConditionConst (conds : List QueryCondition) (table : Table) (object : Datum) :
    Except DbError Bool :=
  conds.foldlM (evalOne table object) true

end ComplexQuery

end LemonDB
