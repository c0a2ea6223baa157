import LemonDB.Query.Language
import LemonDB.Runtime.QueryExecutor

/-!
# LemonDB.Runtime.RoundTrip

A stream that is written from query forms is collected as the queries of these
forms: each in its place, with the tables that the LOADs have by then, and nothing
else.
-/

namespace LemonDB

open TextStream Database

namespace QueryForm

variable {form : QueryForm}

/-- A form that is written is read back token by token. -/
theorem token_text (h : form.Writable) :
    (QueryParser.tokenizeQueryString form.text).token = form.tokens := by
  have htext : form.text = (form.tokens.map String.toList).flatMap (' ' :: ·) := by
    rw [text, List.flatMap_map]
  have hwords : ∀ w ∈ form.tokens.map String.toList, w ≠ [] ∧ ∀ c ∈ w, isSpace c = false := by
    intro w hw
    obtain ⟨t, ht, rfl⟩ := List.mem_map.mp hw
    exact (h t ht).1
  show (words form.text).map String.ofList = form.tokens
  rw [htext, words_flatMap hwords, List.map_map]
  conv_rhs => rw [← List.map_id form.tokens]
  exact List.map_congr_left fun t _ => String.ofList_toList

/-- The semicolon behind a form is the first one. -/
theorem semicolon_notMem_text (h : form.Writable) : ';' ∉ form.text := by
  intro hmem
  obtain ⟨t, ht, hc⟩ := List.mem_flatMap.mp hmem
  obtain hblank | hc := List.mem_cons.mp hc
  · contradiction
  · exact (h t ht).2 hc

end QueryForm

/-- A stream of queries. -/
def written (forms : List QueryForm) : Text := forms.flatMap fun form => form.text ++ [';']

namespace QueryCollection

variable {files : FiniteMap String Text} {c : QueryCollection} {rest : Text}

/-- One round of the collection: the query of a form is collected. -/
theorem collect_form {form : QueryForm} (hform : form.Writable) (hmain : c.parser.clear = .main)
    (hin : c.inputStream = form.text ++ ';' :: rest) :
    ∃ c', (collectLoop files).body c = .inl c' ∧ c'.parser.clear = .main ∧
      c'.inputStream = rest ∧
      c'.fileTableNameMap = (form.query files c.fileTableNameMap).2 ∧
      c'.allQueries = c.allQueries ++ [(form.query files c.fileTableNameMap).1] ∧
      c'.fileQueue =
        c.fileQueue ++ (form.query files c.fileTableNameMap).1.listenFile.toList := by
  have hextract := extractQueryString_append (form.semicolon_notMem_text hform) rest
  have hclear := c.parser.clear_parseQuery files c.fileTableNameMap form.text
  have hparse := parseQuery_of_form files c.fileTableNameMap hmain (form.token_text hform).symm
  cases hresult : c.parser.parseQuery files c.fileTableNameMap form.text with
  | mk r names' =>
      obtain ⟨q, parser⟩ := r
      rw [hresult] at hparse hclear
      obtain ⟨rfl, rfl⟩ := hparse
      refine ⟨(c.advance rest parser (form.query files c.fileTableNameMap).2).push
        (form.query files c.fileTableNameMap).1, ?_, hclear.trans hmain, rfl, rfl, rfl, ?_⟩
      · simp only [collectLoop, hin, hextract, hresult]
      · exact fileQueue_push _ _

/-- The collection of a stream that is written from forms. -/
theorem collect_forms (hrest : ';' ∉ rest) : (forms : List QueryForm) → (c : QueryCollection) →
    (∀ form ∈ forms, form.Writable) → c.parser.clear = .main →
    c.inputStream = written forms ++ rest →
    ∃ c', collectQueriesFromStream files c = some c' ∧
      c'.fileTableNameMap = (QueryForm.queries files c.fileTableNameMap forms).2 ∧
      c'.allQueries =
        c.allQueries ++ (QueryForm.queries files c.fileTableNameMap forms).1 ∧
      c'.fileQueue = c.fileQueue ++
        (QueryForm.queries files c.fileTableNameMap forms).1.filterMap Query.listenFile
  | [], c, _, _, hin => by
      have hin : c.inputStream = rest := hin
      have hbody : (collectLoop files).body c = .inr (some { c with inputStream := [] }) := by
        simp only [collectLoop, hin, extractQueryString_eq_none hrest]
      exact ⟨_, (collectLoop files).run_of_return hbody, rfl, by simp [QueryForm.queries],
        by simp [QueryForm.queries]⟩
  | form :: forms, c, hforms, hmain, hin => by
      have hin : c.inputStream = form.text ++ ';' :: (written forms ++ rest) := by
        rw [hin]
        simp [written]
      obtain ⟨c₁, hbody, hmain₁, hin₁, hnames₁, hqueries₁, hqueue₁⟩ :=
        collect_form (hforms form List.mem_cons_self) hmain hin
      obtain ⟨c', hrun, hnames, hqueries, hqueue⟩ := collect_forms hrest forms c₁
        (fun f hf => hforms f (List.mem_cons_of_mem _ hf)) hmain₁ hin₁
      rw [hnames₁] at hnames hqueries hqueue
      refine ⟨c', ?_, hnames, ?_, ?_⟩
      · rw [← hrun]
        exact (collectLoop files).run_of_continue hbody
      · rw [hqueries, hqueries₁, List.append_assoc]
        rfl
      · rw [hqueue, hqueue₁, List.append_assoc, QueryForm.queries, List.filterMap_cons]
        cases (form.query files c.fileTableNameMap).1.listenFile <;> rfl

end QueryCollection

/-- **What is written is read back**: the queries collected from a stream of forms are
those of the forms, in order, each with the table that a LOAD names behind the forms in
front of it; the files that are listened to are put into the queue, and the map of the
files is the one behind the last form. -/
theorem collectQueriesFromStream_written (files : FiniteMap String Text)
    (names : FileTableNameMap) {forms : List QueryForm} {rest : Text}
    (hforms : ∀ form ∈ forms, form.Writable) (hrest : ';' ∉ rest) :
    ∃ c, QueryCollection.collectQueriesFromStream files
        { inputStream := written forms ++ rest, parser := .main, fileTableNameMap := names } =
          some c ∧
      (c.allQueries, c.fileTableNameMap) = QueryForm.queries files names forms ∧
      c.fileQueue = (QueryForm.queries files names forms).1.filterMap Query.listenFile := by
  obtain ⟨c, hc, hnames, hqueries, hqueue⟩ := QueryCollection.collect_forms hrest forms
    { inputStream := written forms ++ rest, parser := .main, fileTableNameMap := names }
    hforms rfl rfl
  exact ⟨c, hc, Prod.ext hqueries hnames, hqueue⟩

/-- A table is dumped to a file, and the file is loaded again. -/
def dumpAndLoad : List QueryForm :=
  [.complex ⟨"SELECT", some ["KEY"], "T", some [⟨"a", "=", "1"⟩], by decide⟩ .select rfl,
   .dump "T" "f", .load "f", .listen "g"]

/-- The LOAD behind the DUMP names the table that was dumped, whatever the file had
before. -/
theorem collectQueriesFromStream_written_dump : ∃ c,
    QueryCollection.collectQueriesFromStream ((∅ : FiniteMap String Text).set "f" "U 1".toList)
        { inputStream :=
            " SELECT ( KEY ) FROM T WHERE ( a = 1 ); DUMP T f; LOAD f; LISTEN ( g );\n".toList
          parser := .main } = some c ∧
      c.allQueries =
        [.select { targetTable := "T", operands := ["KEY"]
                   condition := [{ field := "a", op := "=", value := "1" }] },
         .dump "T" "f", .load "T" "f", .listen "g"] ∧
      c.fileQueue = ["g"] := by
  have htext : " SELECT ( KEY ) FROM T WHERE ( a = 1 ); DUMP T f; LOAD f; LISTEN ( g );\n".toList =
      written dumpAndLoad ++ ['\n'] := by decide +kernel
  have hforms : ∀ form ∈ dumpAndLoad, form.Writable := by decide +kernel
  have hrest : ';' ∉ ['\n'] := by decide
  obtain ⟨c, hc, hqueries, hqueue⟩ := collectQueriesFromStream_written
    ((∅ : FiniteMap String Text).set "f" "U 1".toList) ∅ hforms hrest
  rw [htext]
  exact ⟨c, hc, congrArg Prod.fst hqueries, hqueue⟩

end LemonDB
