import LemonDB.Query.Parser

/-!
# LemonDB.Runtime.QueryExecutor

The collection of the queries of a stream.

A stream is a sequence of query strings, each of which ends at a semicolon.
The queries of a file are collected in the same way (`processFile`).
-/

namespace LemonDB

open TextStream Database

/-- The text up to the next semicolon, and what is behind it.  The end of the
input is an exception. -/
def extractQueryString : Text → Option (Text × Text)
  | [] => none
  | c :: s =>
      if c = ';' then some ([], s)
      else (extractQueryString s).map fun (buf, rest) => (c :: buf, rest)

theorem length_extractQueryString : {s buf rest : Text} →
    extractQueryString s = some (buf, rest) → rest.length < s.length
  | [], _, _, h => by contradiction
  | c :: s, buf, rest, h => by
      rw [extractQueryString] at h
      split at h
      · simp only [Option.some.injEq, Prod.mk.injEq] at h
        simp [h.2]
      · obtain ⟨⟨buf', rest'⟩, hrec, heq⟩ := Option.map_eq_some_iff.mp h
        have hlen := length_extractQueryString hrec
        simp only [Prod.mk.injEq] at heq
        rw [← heq.2, List.length_cons]
        omega

/-- What the collection of queries works on. -/
structure QueryCollection where
  inputStream : Text
  parser : QueryParser
  fileTableNameMap : FileTableNameMap := ∅
  allQueries : List Query := []
  fileQueue : List String := []

namespace QueryCollection

/-- Add a parsed query. -/
def push (c : QueryCollection) (query : Query) : QueryCollection :=
  { c with
    allQueries := c.allQueries ++ [query]
    fileQueue := match query with
      | .listen fileName => c.fileQueue ++ [fileName]
      | _ => c.fileQueue }

/-- What a parse leaves behind, besides its query. -/
def advance (c : QueryCollection) (inputStream : Text) (parser : QueryParser)
    (fileTableNameMap : FileTableNameMap) : QueryCollection :=
  { c with inputStream, parser, fileTableNameMap }

/-- The loop of `collectQueriesFromStream`.  An exception of the parser is
reported, and the loop goes on; `none` is a parse without defined behaviour. -/
def collectLoop (files : FiniteMap String Text) :
    MeasuredLoop QueryCollection (Option QueryCollection) where
  body := fun c => match extractQueryString c.inputStream with
    | none => .inr (some { c with inputStream := [] })
    | some (queryStr, rest) =>
        match c.parser.parseQuery files c.fileTableNameMap queryStr with
        | ((.ok query, parser), names) => .inl ((c.advance rest parser names).push query)
        | ((.error .undefinedBehaviour, _), _) => .inr none
        | ((.error _, parser), names) => .inl (c.advance rest parser names)
  measure := fun c => c.inputStream.length
  decreases := by
    intro c c' h
    split at h
    · contradiction
    · next hextract =>
        have hlen := length_extractQueryString hextract
        split at h
        · rw [← Sum.inl.inj h]
          exact hlen
        · contradiction
        · rw [← Sum.inl.inj h]
          exact hlen

def collectQueriesFromStream (files : FiniteMap String Text) (c : QueryCollection) :
    Option QueryCollection := (collectLoop files).run c

end QueryCollection

/-- The file that a query listens to. -/
def Query.listenFile : Query → Option String
  | listen fileName => some fileName
  | _ => none

@[simp] theorem Query.listenFile_withoutLoadTable (q : Query) :
    q.withoutLoadTable.listenFile = q.listenFile := by
  cases q <;> rfl

theorem QueryCollection.fileQueue_push (c : QueryCollection) (query : Query) :
    (c.push query).fileQueue = c.fileQueue ++ query.listenFile.toList := by
  cases query <;> simp [push, Query.listenFile]

/-! ## streams of query strings -/

/-- A stream, cut into its query strings. -/
structure QueryStream where
  segments : List Text
  rest : Text
  segments_open : ∀ s ∈ segments, ';' ∉ s
  rest_open : ';' ∉ rest

/-- The text of a stream. -/
def QueryStream.text (stream : QueryStream) : Text :=
  stream.segments.flatMap (· ++ [';']) ++ stream.rest

theorem extractQueryString_append : {s : Text} → ';' ∉ s → (rest : Text) →
    extractQueryString (s ++ ';' :: rest) = some (s, rest)
  | [], _, rest => by simp [extractQueryString]
  | c :: s, h, rest => by
      have hc : ¬ c = ';' := fun hc => h (hc ▸ List.mem_cons_self)
      have ih := extractQueryString_append (fun hs => h (List.mem_cons_of_mem _ hs)) rest
      rw [List.cons_append, extractQueryString, if_neg hc, ih]
      rfl

theorem extractQueryString_eq_none : {s : Text} → ';' ∉ s → extractQueryString s = none
  | [], _ => rfl
  | c :: s, h => by
      have hc : ¬ c = ';' := fun hc => h (hc ▸ List.mem_cons_self)
      rw [extractQueryString, if_neg hc,
        extractQueryString_eq_none fun hs => h (List.mem_cons_of_mem _ hs)]
      rfl

namespace QueryCollection

/-- The queries of a segment, parsed by a chain whose builders are cleared. -/
def parsed (parser : QueryParser) (files : FiniteMap String Text) (names : FileTableNameMap)
    (s : Text) : Option Query :=
  (parser.clear.parseQuery files names s).1.1.toOption.map Query.withoutLoadTable

theorem toOption_map {ε α β : Type} (f : α → β) (r : Except ε α) :
    (r.map f).toOption = r.toOption.map f := by
  cases r <;> rfl

/-- One round of the collection: the query of the segment, if it has one. -/
theorem collect_segment (files : FiniteMap String Text) (names : FileTableNameMap)
    (c : QueryCollection) {s rest : Text} (hs : ';' ∉ s) (hin : c.inputStream = s ++ ';' :: rest)
    (hdef : (c.parser.clear.parseQuery files names s).1.1 ≠ .error .undefinedBehaviour) :
    ∃ c', (collectLoop files).body c = .inl c' ∧ c'.inputStream = rest ∧
      c'.parser.clear = c.parser.clear ∧
      c'.allQueries.map Query.withoutLoadTable =
        c.allQueries.map Query.withoutLoadTable ++ (parsed c.parser files names s).toList ∧
      c'.fileQueue =
        c.fileQueue ++ ((parsed c.parser files names s).bind Query.listenFile).toList := by
  have hfresh := c.parser.parseQuery_fresh files c.fileTableNameMap names s
  have hclear := c.parser.clear_parseQuery files c.fileTableNameMap s
  unfold parsed
  rw [← toOption_map, ← hfresh]
  simp only [collectLoop, hin, extractQueryString_append hs]
  split
  · next query parser names' hparse =>
      rw [hparse] at hclear ⊢
      refine ⟨_, rfl, rfl, hclear, ?_, ?_⟩
      · simp [push, advance, Except.map, Except.toOption]
      · simp [fileQueue_push, advance, Except.map, Except.toOption]
  · next hparse =>
      rw [hparse] at hfresh
      cases hres : (c.parser.clear.parseQuery files names s).1.1 with
      | ok query => simp [hres, Except.map] at hfresh
      | error e => simp_all [Except.map]
  · next hparse =>
      rw [hparse] at hclear ⊢
      refine ⟨_, rfl, rfl, hclear, ?_, ?_⟩
      · simp [advance, Except.map, Except.toOption]
      · simp [advance, Except.map, Except.toOption]

/-- The queries collected from a sequence of segments. -/
theorem collect_segments (files : FiniteMap String Text) (names : FileTableNameMap) (rest : Text)
    (hrest : ';' ∉ rest) : (segments : List Text) → (c : QueryCollection) →
    (∀ s ∈ segments, ';' ∉ s) → c.inputStream = segments.flatMap (· ++ [';']) ++ rest →
    (∀ s ∈ segments, (c.parser.clear.parseQuery files names s).1.1 ≠ .error .undefinedBehaviour) →
    ∃ c', collectQueriesFromStream files c = some c' ∧ c'.parser.clear = c.parser.clear ∧
      c'.allQueries.map Query.withoutLoadTable =
        c.allQueries.map Query.withoutLoadTable ++
          segments.filterMap (parsed c.parser files names) ∧
      c'.fileQueue = c.fileQueue ++
        segments.filterMap fun s => (parsed c.parser files names s).bind Query.listenFile
  | [], c, _, hin, _ => by
      have hin : c.inputStream = rest := hin
      have hbody : (collectLoop files).body c = .inr (some { c with inputStream := [] }) := by
        simp only [collectLoop, hin, extractQueryString_eq_none hrest]
      exact ⟨_, (collectLoop files).run_of_return hbody, rfl, by simp, by simp⟩
  | s :: segments, c, hopen, hin, hdef => by
      have hin : c.inputStream = s ++ ';' :: (segments.flatMap (· ++ [';']) ++ rest) := by
        rw [hin]
        simp
      obtain ⟨c₁, hbody, hin₁, hclear, hqueries, hqueue⟩ :=
        c.collect_segment files names (hopen s List.mem_cons_self) hin (hdef s List.mem_cons_self)
      have hparsed : parsed c₁.parser files names = parsed c.parser files names := by
        unfold parsed
        rw [hclear]
      obtain ⟨c', hrun, hclear', hall, hfiles⟩ := collect_segments files names rest hrest segments c₁
        (fun s hs => hopen s (List.mem_cons_of_mem _ hs)) hin₁
        (fun s hs => hclear ▸ hdef s (List.mem_cons_of_mem _ hs))
      refine ⟨c', ?_, hclear'.trans hclear, ?_, ?_⟩
      · rw [← hrun]
        exact (collectLoop files).run_of_continue hbody
      · rw [hall, hqueries, hparsed, List.filterMap_cons, List.append_assoc]
        cases parsed c.parser files names s <;> rfl
      · rw [hfiles, hqueue, hparsed, List.filterMap_cons, List.append_assoc]
        cases (parsed c.parser files names s).bind Query.listenFile <;> rfl

end QueryCollection

/-- **Ill-formed queries are isolated**: the queries collected from a stream
are, in order, the successful parses of its segments, each by a fresh parser. -/
theorem collectQueriesFromStream_isolates (files : FiniteMap String Text)
    (fileTableNameMap names : FileTableNameMap) (stream : QueryStream)
    (hdef : ∀ s ∈ stream.segments,
      (QueryParser.main.parseQuery files names s).1.1 ≠ .error .undefinedBehaviour) :
    ∃ c, QueryCollection.collectQueriesFromStream files
        { inputStream := stream.text, parser := .main, fileTableNameMap } = some c ∧
      c.allQueries.map Query.withoutLoadTable = stream.segments.filterMap fun s =>
        (QueryParser.main.parseQuery files names s).1.1.toOption.map Query.withoutLoadTable := by
  obtain ⟨c, hc, _, hqueries, _⟩ := QueryCollection.collect_segments files names stream.rest
    stream.rest_open stream.segments { inputStream := stream.text, parser := .main, fileTableNameMap }
    stream.segments_open rfl hdef
  exact ⟨c, hc, hqueries⟩

/-- A query that fails in the middle of its conditions leaves nothing to the
next one. -/
theorem collectQueriesFromStream_isolates_select : ∃ c,
    QueryCollection.collectQueriesFromStream ∅
        { inputStream := "SELECT ( KEY ) FROM T WHERE ( a = 1 ) (;SELECT ( b ) FROM U;".toList
          parser := .main } = some c ∧
      c.allQueries.map Query.withoutLoadTable =
        [.select { targetTable := "U", operands := ["b"], condition := [] }] := by
  obtain ⟨c, hc, hq⟩ := collectQueriesFromStream_isolates ∅ ∅ ∅
    { segments := ["SELECT ( KEY ) FROM T WHERE ( a = 1 ) (".toList, "SELECT ( b ) FROM U".toList]
      rest := []
      segments_open := by decide +kernel
      rest_open := by decide } (by decide +kernel)
  exact ⟨c, hc, hq.trans (by decide +kernel)⟩

end LemonDB
