import LemonDB.Db.Database
import LemonDB.Query.Builders

/-!
# LemonDB.Query.Parser

The chain of query builders, and the parser that sends a query string through
it.

The builders of a chain keep their state from one query to the next.  Every
query starts with `clear`, which is relayed through the whole chain, so the
outcome of a parse does not depend on the queries before it
(`QueryParser.parseQuery_fresh`); only the table of a LOAD does, since it is
read from the map of the files.
-/

namespace LemonDB

open TextStream Database

/-! ## the builders -/

structure TokenizedQueryString where
  token : List String
  rawQeuryString : String

/-- The exception of a query string that no builder matches. -/
def ParseError.matchFailed (qString : String) : ParseError :=
  .queryBuilderMatchFailed (fill "Failed to parse query string: \"?\"" qString)

/-- `DebugQueryBuilder::tryExtractQuery`; without a query, the next builder is
asked. -/
def debugQuery : List String → Option Query
  | ["LIST"] => some .list
  | ["QUIT"] => some .quit
  | ["SHOWTABLE", table] => some (.printTable table)
  | ["LISTEN", "(", fileName, ")"] => some (.listen fileName)
  | _ => none

/-- `ManageTableQueryBuilder::tryExtractQuery`. -/
def manageTableQuery (files : FiniteMap String Text) (fileTableNameMap : FileTableNameMap) :
    List String → Option Query × FileTableNameMap
  | ["LOAD", fileName] =>
      let (tableName, fileTableNameMap) := getFileTableName files fileTableNameMap fileName
      (some (.load tableName fileName), fileTableNameMap)
  | ["DROP", table] => (some (.drop table), fileTableNameMap)
  | ["TRUNCATE", table] => (some (.truncate table), fileTableNameMap)
  | ["DUMP", table, fileName] =>
      (some (.dump table fileName), updateFileTableName fileTableNameMap fileName table)
  | ["COPYTABLE", table, newTable] => (some (.copyTable table newTable), fileTableNameMap)
  | _ => (none, fileTableNameMap)

/-- The query classes of the operations. -/
def complexQueries : List (String × (ComplexQuery → Query)) :=
  [("INSERT", .insert), ("UPDATE", .update), ("SELECT", .select), ("DELETE", .delete),
   ("DUPLICATE", .duplicate), ("COUNT", .count), ("SUM", .sum), ("MIN", .min), ("MAX", .max),
   ("ADD", .add), ("SUB", .sub), ("SWAP", .swap)]

/-- The data of the query that a builder has collected. -/
def ComplexQueryBuilder.query (b : ComplexQueryBuilder) : ComplexQuery where
  targetTable := b.targetTable
  operands := b.operandToken
  condition := b.conditionToken

/-- `ComplexQueryBuilder::tryExtractQuery`. -/
def ComplexQueryBuilder.tryExtractQuery (b : ComplexQueryBuilder) (token : List String) :
    Except ParseError (Option Query) × ComplexQueryBuilder :=
  match b.parseToken token with
  | (.error (.illFormedQuery _), b) => (.ok none, b)
  | (.error e, b) => (.error e, b)
  | (.ok (), b) => (.ok ((complexQueries.lookup (token.headD "")).map (· b.query)), b)

/-- The builders that can be registered. -/
inductive QueryBuilder where
  | debug
  | manageTable
  | complex (b : ComplexQueryBuilder)
  deriving DecidableEq

namespace QueryBuilder

/-- `clear`, without the relay to the next builder. -/
def clear : QueryBuilder → QueryBuilder
  | debug => debug
  | manageTable => manageTable
  | complex b => complex b.clear

/-- `tryExtractQuery`, without the relay to the next builder. -/
def extract (files : FiniteMap String Text) (fileTableNameMap : FileTableNameMap)
    (token : List String) :
    QueryBuilder → (Except ParseError (Option Query) × QueryBuilder) × FileTableNameMap
  | debug => ((.ok (debugQuery token), debug), fileTableNameMap)
  | manageTable =>
      let (query, fileTableNameMap) := manageTableQuery files fileTableNameMap token
      ((.ok query, manageTable), fileTableNameMap)
  | complex b =>
      let (query, b) := b.tryExtractQuery token
      ((query, complex b), fileTableNameMap)

end QueryBuilder

/-! ## the parser -/

/-- The registered builders, from the first one; `FailedQueryBuilder` is behind
the last one. -/
structure QueryParser where
  builders : List QueryBuilder := []
  deriving DecidableEq

/-- The relay of a query through a chain of builders. -/
def tryExtractQuery (files : FiniteMap String Text) (query : TokenizedQueryString) :
    FileTableNameMap → List QueryBuilder →
      (Except ParseError Query × List QueryBuilder) × FileTableNameMap
  | fileTableNameMap, [] => ((.error (.matchFailed query.rawQeuryString), []), fileTableNameMap)
  | fileTableNameMap, builder :: nextBuilder =>
      match builder.extract files fileTableNameMap query.token with
      | ((.error e, builder), fileTableNameMap) =>
          ((.error e, builder :: nextBuilder), fileTableNameMap)
      | ((.ok (some q), builder), fileTableNameMap) =>
          ((.ok q, builder :: nextBuilder), fileTableNameMap)
      | ((.ok none, builder), fileTableNameMap) =>
          let ((q, nextBuilder), fileTableNameMap) :=
            tryExtractQuery files query fileTableNameMap nextBuilder
          ((q, builder :: nextBuilder), fileTableNameMap)

namespace QueryParser

def registerQueryBuilder (parser : QueryParser) (qBuilder : QueryBuilder) : QueryParser :=
  { parser with builders := parser.builders ++ [qBuilder] }

/-- The parser of the program. -/
def main : QueryParser :=
  ((({} : QueryParser).registerQueryBuilder .debug).registerQueryBuilder
    .manageTable).registerQueryBuilder (.complex {})

def tokenizeQueryString (queryString : Text) : TokenizedQueryString where
  token := (words queryString).map String.ofList
  rawQeuryString := String.ofList queryString

/-- `clear` on the first builder. -/
def clear (parser : QueryParser) : QueryParser :=
  { parser with builders := parser.builders.map QueryBuilder.clear }

def parseQuery (parser : QueryParser) (files : FiniteMap String Text)
    (fileTableNameMap : FileTableNameMap) (queryString : Text) :
    (Except ParseError Query × QueryParser) × FileTableNameMap :=
  if parser.builders.isEmpty then
    ((.error (.matchFailed (String.ofList queryString)), parser), fileTableNameMap)
  else
    let tokenized := tokenizeQueryString queryString
    if tokenized.token.isEmpty then ((.error (.matchFailed ""), parser), fileTableNameMap)
    else
      let ((query, builders), fileTableNameMap) :=
        tryExtractQuery files tokenized fileTableNameMap parser.clear.builders
      ((query, { parser with builders }), fileTableNameMap)

end QueryParser

/-! ## every query is parsed by a fresh chain -/

/-- A query without the table that a LOAD was given. -/
def Query.withoutLoadTable : Query → Query
  | load _ fileName => .load "" fileName
  | q => q

@[simp] theorem QueryBuilder.clear_clear (b : QueryBuilder) : b.clear.clear = b.clear := by
  cases b <;> rfl

@[simp] theorem QueryParser.clear_clear (parser : QueryParser) :
    parser.clear.clear = parser.clear := by
  simp [QueryParser.clear]

@[simp] theorem QueryParser.isEmpty_clear (parser : QueryParser) :
    parser.clear.builders.isEmpty = parser.builders.isEmpty := by
  simp [QueryParser.clear]

/-- A builder may only change what `clear` resets. -/
theorem QueryBuilder.clear_extract (files : FiniteMap String Text) (names : FileTableNameMap)
    (token : List String) (b : QueryBuilder) :
    (b.extract files names token).1.2.clear = b.clear := by
  cases b <;> rfl

/-- The map of the files has an influence on the table of a LOAD only. -/
theorem QueryBuilder.extract_withoutLoadTable (files : FiniteMap String Text)
    (names names' : FileTableNameMap) (token : List String) (b : QueryBuilder) :
    (b.extract files names token).1.1.map (Option.map Query.withoutLoadTable) =
      (b.extract files names' token).1.1.map (Option.map Query.withoutLoadTable) := by
  cases b with
  | debug => rfl
  | manageTable =>
      simp only [QueryBuilder.extract, manageTableQuery]
      split <;> rfl
  | complex b => rfl

theorem clear_tryExtractQuery (files : FiniteMap String Text) (query : TokenizedQueryString) :
    (builders : List QueryBuilder) → (names : FileTableNameMap) →
    (tryExtractQuery files query names builders).1.2.map QueryBuilder.clear =
      builders.map QueryBuilder.clear
  | [], names => rfl
  | b :: next, names => by
      have hb := b.clear_extract files names query.token
      rw [tryExtractQuery]
      split
      · next h => simp_all
      · next h => simp_all
      · next h =>
          rw [h] at hb
          simp [clear_tryExtractQuery files query next, ← hb]

theorem tryExtractQuery_withoutLoadTable (files : FiniteMap String Text)
    (query : TokenizedQueryString) :
    (builders : List QueryBuilder) → (names names' : FileTableNameMap) →
    (tryExtractQuery files query names builders).1.1.map Query.withoutLoadTable =
      (tryExtractQuery files query names' builders).1.1.map Query.withoutLoadTable
  | [], names, names' => rfl
  | b :: next, names, names' => by
      have hb := b.extract_withoutLoadTable files names names' query.token
      rw [tryExtractQuery, tryExtractQuery]
      cases h : b.extract files names query.token with
      | mk r map =>
      cases h' : b.extract files names' query.token with
      | mk r' map' =>
          obtain ⟨q, b₁⟩ := r
          obtain ⟨q', b₁'⟩ := r'
          rw [h, h'] at hb
          dsimp only at hb
          match q, q' with
          | .error e, .error e' => simpa [Except.map] using hb
          | .ok none, .ok none => exact tryExtractQuery_withoutLoadTable files query next map map'
          | .ok (some q), .ok (some q') => simpa [Except.map] using hb
          | .error e, .ok q => simp [Except.map] at hb
          | .ok q, .error e => simp [Except.map] at hb
          | .ok none, .ok (some q) => simp [Except.map] at hb
          | .ok (some q), .ok none => simp [Except.map] at hb

namespace QueryParser

/-- A query leaves nothing behind that the next `clear` does not reset. -/
theorem clear_parseQuery (parser : QueryParser) (files : FiniteMap String Text)
    (names : FileTableNameMap) (s : Text) :
    (parser.parseQuery files names s).1.2.clear = parser.clear := by
  unfold parseQuery
  split
  · rfl
  · dsimp only
    split
    · rfl
    · have hclear : parser.clear.builders.map QueryBuilder.clear = parser.clear.builders :=
        congrArg builders parser.clear_clear
      have h := clear_tryExtractQuery files (tokenizeQueryString s) parser.clear.builders names
      rw [hclear] at h
      exact congrArg QueryParser.mk h

/-- The outcome of a parse is the one of a cleared chain, up to the table of a
LOAD. -/
theorem parseQuery_fresh (parser : QueryParser) (files : FiniteMap String Text)
    (names names' : FileTableNameMap) (s : Text) :
    (parser.parseQuery files names s).1.1.map Query.withoutLoadTable =
      (parser.clear.parseQuery files names' s).1.1.map Query.withoutLoadTable := by
  unfold parseQuery
  rw [isEmpty_clear, clear_clear]
  split
  · rfl
  · dsimp only
    split
    · rfl
    · exact tryExtractQuery_withoutLoadTable files _ _ names names'

end QueryParser

end LemonDB
