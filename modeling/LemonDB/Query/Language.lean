import LemonDB.Db.DumpLoad
import LemonDB.Query.Parser

/-!
# LemonDB.Query.Language

The language of the parser of the program.  A `QueryForm` is a query as it is
written; the parser accepts the token lists of the forms, and no others, and what
it makes of a form is its query.  So a text that is written from forms is read back
as their queries.
-/

namespace LemonDB

open TextStream Database

/-! ## the forms -/

/-- A query as it is written. -/
inductive QueryForm where
  | list
  | quit
  | showTable (table : String)
  | listen (fileName : String)
  | load (fileName : String)
  | drop (table : String)
  | truncate (table : String)
  | dump (table fileName : String)
  | copyTable (table newTable : String)
  | complex (form : ComplexForm) (build : ComplexQuery → Query)
      (known : complexQueries.lookup form.operation = some build)

namespace QueryForm

/-- The tokens of a query. -/
def tokens : QueryForm → List String
  | list => ["LIST"]
  | quit => ["QUIT"]
  | showTable table => ["SHOWTABLE", table]
  | listen fileName => ["LISTEN", "(", fileName, ")"]
  | load fileName => ["LOAD", fileName]
  | drop table => ["DROP", table]
  | truncate table => ["TRUNCATE", table]
  | dump table fileName => ["DUMP", table, fileName]
  | copyTable table newTable => ["COPYTABLE", table, newTable]
  | complex form _ _ => form.tokens

/-- The query of a form, and the map of the files behind it.  A LOAD names the table
that its file had when it was read or dumped the last time. -/
def query (files : FiniteMap String Text) (names : FileTableNameMap) :
    QueryForm → Query × FileTableNameMap
  | list => (.list, names)
  | quit => (.quit, names)
  | showTable table => (.printTable table, names)
  | listen fileName => (.listen fileName, names)
  | load fileName =>
      (.load (getFileTableName files names fileName).1 fileName,
        (getFileTableName files names fileName).2)
  | drop table => (.drop table, names)
  | truncate table => (.truncate table, names)
  | dump table fileName => (.dump table fileName, updateFileTableName names fileName table)
  | copyTable table newTable => (.copyTable table newTable, names)
  | complex form build _ => (build form.builder.query, names)

/-- The queries of a list of forms. -/
def queries (files : FiniteMap String Text) :
    FileTableNameMap → List QueryForm → List Query × FileTableNameMap
  | names, [] => ([], names)
  | names, form :: forms =>
      let p := form.query files names
      let r := queries files p.2 forms
      (p.1 :: r.1, r.2)

/-- A text with a blank in front of each token. -/
def text (form : QueryForm) : Text := form.tokens.flatMap fun t => ' ' :: t.toList

/-- Whether the form can be written: its tokens are words without a semicolon. -/
def Writable (form : QueryForm) : Prop := ∀ t ∈ form.tokens, Word t ∧ ';' ∉ t.toList

instance : DecidablePred Writable := fun form =>
  inferInstanceAs (Decidable (∀ t ∈ form.tokens, Word t ∧ ';' ∉ t.toList))

theorem tokens_ne_nil (form : QueryForm) : form.tokens ≠ [] := by
  cases form <;> exact List.cons_ne_nil _ _

end QueryForm

/-- The operations in front of a single operand, which may be a parenthesis. -/
def unaryOperations : List String := ["SHOWTABLE", "LOAD", "DROP", "TRUNCATE"]

/-- An operand list that is opened at the end of the tokens. -/
def Dangling (token : List String) : Prop :=
  ∃ operation, operation ∉ unaryOperations ∧ token = [operation, "("]

/-! ## the builders and the forms -/

section

variable {files : FiniteMap String Text} {names : FileTableNameMap} {token : List String}

theorem exists_form_of_debugQuery {q : Query} (h : debugQuery token = some q) :
    ∃ form : QueryForm, form.tokens = token := by
  unfold debugQuery at h
  split at h
  · exact ⟨.list, rfl⟩
  · exact ⟨.quit, rfl⟩
  · exact ⟨.showTable _, rfl⟩
  · exact ⟨.listen _, rfl⟩
  · contradiction

theorem exists_form_of_manageTableQuery {q : Query}
    (h : (manageTableQuery files names token).1 = some q) :
    ∃ form : QueryForm, form.tokens = token := by
  unfold manageTableQuery at h
  split at h
  · exact ⟨.load _, rfl⟩
  · exact ⟨.drop _, rfl⟩
  · exact ⟨.truncate _, rfl⟩
  · exact ⟨.dump _ _, rfl⟩
  · exact ⟨.copyTable _ _, rfl⟩
  · contradiction

/-- Only a query changes the map of the files. -/
theorem manageTableQuery_of_none (h : (manageTableQuery files names token).1 = none) :
    manageTableQuery files names token = (none, names) := by
  unfold manageTableQuery at h ⊢
  split at h
  all_goals first | contradiction | rfl

/-- The operations of the complex queries are none of the others. -/
theorem operation_of_known {operation : String} {build : ComplexQuery → Query}
    (h : complexQueries.lookup operation = some build) :
    operation ∉ ["LIST", "QUIT", "SHOWTABLE", "LISTEN"] ∧
      operation ∉ ["LOAD", "DROP", "TRUNCATE", "DUMP", "COPYTABLE"] := by
  have hmem : operation ∈ complexQueries.map Prod.fst := by
    obtain ⟨l₁, l₂, hl, _⟩ := List.lookup_eq_some_iff.mp h
    rw [hl]
    simp
  have hall : ∀ op ∈ complexQueries.map Prod.fst, op ∉ ["LIST", "QUIT", "SHOWTABLE", "LISTEN"] ∧
      op ∉ ["LOAD", "DROP", "TRUNCATE", "DUMP", "COPYTABLE"] := by decide
  exact hall operation hmem

theorem debugQuery_of_operation {operation : String} {rest : List String}
    (h : operation ∉ ["LIST", "QUIT", "SHOWTABLE", "LISTEN"]) :
    debugQuery (operation :: rest) = none := by
  unfold debugQuery
  split <;> simp_all

theorem manageTableQuery_of_operation {operation : String} {rest : List String}
    (h : operation ∉ ["LOAD", "DROP", "TRUNCATE", "DUMP", "COPYTABLE"]) :
    manageTableQuery files names (operation :: rest) = (none, names) := by
  unfold manageTableQuery
  split <;> simp_all

end

/-- A complex query is accepted, and its parts are collected. -/
theorem parseToken_tokens (form : ComplexForm) :
    ({} : ComplexQueryBuilder).parseToken form.tokens = (.ok (), form.builder) :=
  ComplexQueryBuilder.parseToken_ok_iff.mpr ⟨form.operation, form.operands,
    form.targetTable :: ComplexForm.whereTokens form.conditions, form.operands_open, rfl,
    ComplexQueryBuilder.parseTarget_ok_iff.mpr ⟨form.targetTable, form.conditions, rfl, rfl⟩⟩

/-- Nothing else is accepted. -/
theorem exists_form_of_parseToken {token : List String} {b b' : ComplexQueryBuilder}
    (h : b.parseToken token = (.ok (), b')) : ∃ form : ComplexForm, form.tokens = token := by
  obtain ⟨operation, operands, iter, hopen, htokens, htarget⟩ :=
    ComplexQueryBuilder.parseToken_ok_iff.mp h
  obtain ⟨table, conditions, hiter, _⟩ := ComplexQueryBuilder.parseTarget_ok_iff.mp htarget
  exact ⟨⟨operation, operands, table, conditions, hopen⟩, by rw [htokens, hiter]; rfl⟩

/-! ## the outcomes -/

section

variable (files : FiniteMap String Text) (names : FileTableNameMap) {query : TokenizedQueryString}
  {parser : QueryParser}

/-- The last builder decides on the tokens that the others do not match. -/
theorem tryExtractQuery_complex {b : ComplexQueryBuilder} (hdebug : debugQuery query.token = none)
    (hmanage : (manageTableQuery files names query.token).1 = none) :
    (tryExtractQuery files query names [.debug, .manageTable, .complex b]).1.1 =
        (b.tryExtractQuery query.token).1.bind
          (Option.elim · (.error (.matchFailed query.rawQeuryString)) .ok) ∧
      (tryExtractQuery files query names [.debug, .manageTable, .complex b]).2 = names := by
  have hmanage := manageTableQuery_of_none hmanage
  cases hcomplex : b.tryExtractQuery query.token with
  | mk r b' =>
      simp only [tryExtractQuery, QueryBuilder.extract, hdebug, hmanage, hcomplex]
      cases r with
      | error e => exact ⟨rfl, rfl⟩
      | ok q => cases q <;> exact ⟨rfl, rfl⟩

/-- Every form is accepted by one of the builders. -/
theorem tryExtractQuery_of_form (form : QueryForm) (htoken : form.tokens = query.token) :
    (tryExtractQuery files query names QueryParser.main.builders).1.1 =
        .ok (form.query files names).1 ∧
      (tryExtractQuery files query names QueryParser.main.builders).2 =
        (form.query files names).2 := by
  obtain ⟨token, raw⟩ := query
  dsimp only at htoken
  subst htoken
  cases form with
  | complex form build known =>
      obtain ⟨hdebug, hmanage⟩ := operation_of_known known
      have hextract : (({} : ComplexQueryBuilder).tryExtractQuery form.tokens).1 =
          .ok (some (build form.builder.query)) := by
        have hhead : form.tokens.headD "" = form.operation := rfl
        simp only [ComplexQueryBuilder.tryExtractQuery, parseToken_tokens, hhead, known,
          Option.map_some]
      have hdebug : debugQuery form.tokens = none := debugQuery_of_operation hdebug
      have hmanage : (manageTableQuery files names form.tokens).1 = none :=
        congrArg Prod.fst (manageTableQuery_of_operation hmanage)
      have hchain := @tryExtractQuery_complex files names ⟨form.tokens, raw⟩ {} hdebug hmanage
      exact ⟨hchain.1.trans (by rw [hextract]; rfl), hchain.2⟩
  | _ => exact ⟨rfl, rfl⟩

/-- The iterator is dereferenced at the end of the tokens. -/
theorem tryExtractQuery_of_dangling (h : Dangling query.token) :
    (tryExtractQuery files query names QueryParser.main.builders).1.1 = .error .undefinedBehaviour ∧
      (tryExtractQuery files query names QueryParser.main.builders).2 = names := by
  obtain ⟨operation, hoperation, htoken⟩ := h
  have hdebug : debugQuery query.token = none := by
    rw [htoken]
    unfold debugQuery
    split <;> simp_all [unaryOperations]
  have hmanage : (manageTableQuery files names query.token).1 = none := by
    rw [htoken]
    unfold manageTableQuery
    split <;> simp_all [unaryOperations]
  have hcomplex : (({} : ComplexQueryBuilder).tryExtractQuery query.token).1 =
      .error .undefinedBehaviour := by
    rw [htoken]
    rfl
  have hchain := tryExtractQuery_complex files names (b := {}) hdebug hmanage
  exact ⟨hchain.1.trans (by rw [hcomplex]; rfl), hchain.2⟩

/-- What no form spells fails, unless an operand list is opened at its end. -/
theorem tryExtractQuery_otherwise (hne : query.token ≠ [])
    (hform : ∀ form : QueryForm, form.tokens ≠ query.token) (hdangling : ¬ Dangling query.token) :
    (tryExtractQuery files query names QueryParser.main.builders).1.1 =
        .error (.matchFailed query.rawQeuryString) ∧
      (tryExtractQuery files query names QueryParser.main.builders).2 = names := by
  have hdebug : debugQuery query.token = none := by
    by_contra hq
    obtain ⟨q, hq⟩ := Option.ne_none_iff_exists'.mp hq
    obtain ⟨form, hf⟩ := exists_form_of_debugQuery hq
    exact hform form hf
  have hmanage : (manageTableQuery files names query.token).1 = none := by
    by_contra hq
    obtain ⟨q, hq⟩ := Option.ne_none_iff_exists'.mp hq
    obtain ⟨form, hf⟩ := exists_form_of_manageTableQuery hq
    exact hform form hf
  have hchain := tryExtractQuery_complex files names (b := {}) hdebug hmanage
  suffices hcomplex : (({} : ComplexQueryBuilder).tryExtractQuery query.token).1 = .ok none from
    ⟨hchain.1.trans (by rw [hcomplex]; rfl), hchain.2⟩
  cases hparse : ({} : ComplexQueryBuilder).parseToken query.token with
  | mk r b' =>
      cases r with
      | ok u =>
          -- the tokens are those of a complex query, so its operation is unknown
          obtain ⟨form, htokens⟩ := exists_form_of_parseToken hparse
          have hhead : query.token.headD "" = form.operation := by rw [← htokens]; rfl
          have hunknown : complexQueries.lookup form.operation = none := by
            by_contra hbuild
            obtain ⟨build, hbuild⟩ := Option.ne_none_iff_exists'.mp hbuild
            exact hform (.complex form build hbuild) htokens
          simp only [ComplexQueryBuilder.tryExtractQuery, hparse, hhead, hunknown, Option.map_none]
      | error e =>
          obtain ⟨what, rfl⟩ | ⟨hnil | ⟨operation, htoken⟩, _⟩ :=
            ComplexQueryBuilder.parseToken_error hparse
          · simp only [ComplexQueryBuilder.tryExtractQuery, hparse]
          · exact absurd hnil hne
          · -- the operation is one of those in front of a single operand
            by_cases hoperation : operation ∈ unaryOperations
            · simp only [unaryOperations, List.mem_cons, List.not_mem_nil, or_false] at hoperation
              obtain rfl | rfl | rfl | rfl := hoperation
              · exact absurd htoken.symm (hform (.showTable "("))
              · exact absurd htoken.symm (hform (.load "("))
              · exact absurd htoken.symm (hform (.drop "("))
              · exact absurd htoken.symm (hform (.truncate "("))
            · exact absurd ⟨operation, hoperation, htoken⟩ hdangling

/-! ## the language of the parser -/

open QueryParser

variable (s : Text)

theorem parseQuery_eq (hmain : parser.clear = .main) (hne : (tokenizeQueryString s).token ≠ []) :
    (parser.parseQuery files names s).1.1 =
        (tryExtractQuery files (tokenizeQueryString s) names main.builders).1.1 ∧
      (parser.parseQuery files names s).2 =
        (tryExtractQuery files (tokenizeQueryString s) names main.builders).2 := by
  have hbuilders : parser.builders.isEmpty = false := by
    rw [← parser.isEmpty_clear, hmain]
    rfl
  have htoken : (tokenizeQueryString s).token.isEmpty = false := by simpa using hne
  rw [parseQuery, hbuilders, if_neg Bool.false_ne_true]
  dsimp only
  rw [htoken, if_neg Bool.false_ne_true, hmain]
  exact ⟨rfl, rfl⟩

variable {s}

/-- The text of a form is parsed to its query. -/
theorem parseQuery_of_form (hmain : parser.clear = .main) {form : QueryForm}
    (hform : form.tokens = (tokenizeQueryString s).token) :
    (parser.parseQuery files names s).1.1 = .ok (form.query files names).1 ∧
      (parser.parseQuery files names s).2 = (form.query files names).2 := by
  have hparse := parseQuery_eq files names s hmain (hform ▸ form.tokens_ne_nil)
  have hform := tryExtractQuery_of_form files names form hform
  exact ⟨hparse.1.trans hform.1, hparse.2.trans hform.2⟩

theorem parseQuery_of_dangling (hmain : parser.clear = .main)
    (h : Dangling (tokenizeQueryString s).token) :
    (parser.parseQuery files names s).1.1 = .error .undefinedBehaviour := by
  have hne : (tokenizeQueryString s).token ≠ [] := by
    obtain ⟨operation, _, htoken⟩ := h
    simp [htoken]
  exact (parseQuery_eq files names s hmain hne).1.trans
    (tryExtractQuery_of_dangling files names h).1

variable (s) in
/-- The exception of a text that no form spells. -/
def failure : ParseError :=
  .matchFailed (if (tokenizeQueryString s).token = [] then "" else String.ofList s)

theorem failure_ne : failure s ≠ .undefinedBehaviour := by
  unfold failure ParseError.matchFailed
  exact fun h => by contradiction

/-- A text that fails leaves the map of the files alone. -/
theorem parseQuery_otherwise (hmain : parser.clear = .main)
    (hform : ∀ form : QueryForm, form.tokens ≠ (tokenizeQueryString s).token)
    (hdangling : ¬ Dangling (tokenizeQueryString s).token) :
    (parser.parseQuery files names s).1.1 = .error (failure s) ∧
      (parser.parseQuery files names s).2 = names := by
  unfold failure
  by_cases hne : (tokenizeQueryString s).token = []
  · have hbuilders : parser.builders.isEmpty = false := by
      rw [← parser.isEmpty_clear, hmain]
      rfl
    rw [parseQuery, hbuilders, if_neg Bool.false_ne_true]
    dsimp only
    rw [hne, if_pos rfl]
    exact ⟨rfl, rfl⟩
  · have hparse := parseQuery_eq files names s hmain hne
    have hfail := tryExtractQuery_otherwise files names hne hform hdangling
    rw [if_neg hne]
    exact ⟨hparse.1.trans hfail.1, hparse.2.trans hfail.2⟩

/-- The three cases of a text. -/
theorem form_or_dangling (token : List String) : (∃ form : QueryForm, form.tokens = token) ∨
    Dangling token ∨ (∀ form : QueryForm, form.tokens ≠ token) ∧ ¬ Dangling token := by
  by_cases hform : ∃ form : QueryForm, form.tokens = token
  · exact .inl hform
  · by_cases hdangling : Dangling token
    · exact .inr (.inl hdangling)
    · exact .inr (.inr ⟨fun form h => hform ⟨form, h⟩, hdangling⟩)

variable (s)

theorem parseQuery_ok_iff (hmain : parser.clear = .main) (q : Query) (names' : FileTableNameMap) :
    ((parser.parseQuery files names s).1.1 = .ok q ∧
        (parser.parseQuery files names s).2 = names') ↔
      ∃ form : QueryForm, form.tokens = (tokenizeQueryString s).token ∧
        form.query files names = (q, names') := by
  constructor
  · intro ⟨hq, hnames⟩
    obtain ⟨form, hform⟩ | hdangling | ⟨hform, hdangling⟩ :=
      form_or_dangling (tokenizeQueryString s).token
    · have hparse := parseQuery_of_form files names hmain hform
      rw [hq, hnames] at hparse
      exact ⟨form, hform, Prod.ext (Except.ok.inj hparse.1).symm hparse.2.symm⟩
    · rw [parseQuery_of_dangling files names hmain hdangling] at hq
      contradiction
    · rw [(parseQuery_otherwise files names hmain hform hdangling).1] at hq
      contradiction
  · intro ⟨form, hform, hq⟩
    have hparse := parseQuery_of_form files names hmain hform
    rwa [hq] at hparse

theorem parseQuery_undefined_iff (hmain : parser.clear = .main) :
    (parser.parseQuery files names s).1.1 = .error .undefinedBehaviour ↔
      Dangling (tokenizeQueryString s).token := by
  constructor
  · intro h
    obtain ⟨form, hform⟩ | hdangling | ⟨hform, hdangling⟩ :=
      form_or_dangling (tokenizeQueryString s).token
    · rw [(parseQuery_of_form files names hmain hform).1] at h
      contradiction
    · exact hdangling
    · rw [(parseQuery_otherwise files names hmain hform hdangling).1] at h
      exact absurd (Except.error.inj h) failure_ne
  · exact parseQuery_of_dangling files names hmain

theorem parseQuery_failure_iff (hmain : parser.clear = .main) :
    (parser.parseQuery files names s).1.1 = .error (failure s) ↔
      (∀ form : QueryForm, form.tokens ≠ (tokenizeQueryString s).token) ∧
        ¬ Dangling (tokenizeQueryString s).token := by
  constructor
  · intro h
    obtain ⟨form, hform⟩ | hdangling | hother := form_or_dangling (tokenizeQueryString s).token
    · rw [(parseQuery_of_form files names hmain hform).1] at h
      contradiction
    · rw [parseQuery_of_dangling files names hmain hdangling] at h
      exact absurd (Except.error.inj h).symm failure_ne
    · exact hother
  · intro ⟨hform, hdangling⟩
    exact (parseQuery_otherwise files names hmain hform hdangling).1

/-- There is no other exception. -/
theorem parseQuery_error (hmain : parser.clear = .main) {e : ParseError}
    (he : (parser.parseQuery files names s).1.1 = .error e) (hne : e ≠ .undefinedBehaviour) :
    e = failure s ∧ (parser.parseQuery files names s).2 = names := by
  obtain ⟨form, hform⟩ | hdangling | ⟨hform, hdangling⟩ :=
    form_or_dangling (tokenizeQueryString s).token
  · rw [(parseQuery_of_form files names hmain hform).1] at he
    contradiction
  · rw [parseQuery_of_dangling files names hmain hdangling] at he
    exact absurd (Except.error.inj he).symm hne
  · have hparse := parseQuery_otherwise files names hmain hform hdangling
    rw [hparse.1] at he
    exact ⟨(Except.error.inj he).symm, hparse.2⟩

/-- **The language of the parser**: a text is accepted if and only if its tokens are those
of a form, and gives the query of this form; the parse has no defined behaviour if and only
if the tokens end behind the parenthesis of an operand list; every other text fails, and
leaves the map of the files alone. -/
theorem parseQuery_language (hmain : parser.clear = .main) :
    (∀ q names', ((parser.parseQuery files names s).1.1 = .ok q ∧
        (parser.parseQuery files names s).2 = names') ↔
      ∃ form : QueryForm, form.tokens = (tokenizeQueryString s).token ∧
        form.query files names = (q, names')) ∧
    ((parser.parseQuery files names s).1.1 = .error .undefinedBehaviour ↔
      Dangling (tokenizeQueryString s).token) ∧
    ((parser.parseQuery files names s).1.1 = .error (failure s) ↔
      (∀ form : QueryForm, form.tokens ≠ (tokenizeQueryString s).token) ∧
        ¬ Dangling (tokenizeQueryString s).token) ∧
    ∀ e, (parser.parseQuery files names s).1.1 = .error e → e ≠ .undefinedBehaviour →
      e = failure s ∧ (parser.parseQuery files names s).2 = names :=
  ⟨parseQuery_ok_iff files names s hmain, parseQuery_undefined_iff files names s hmain,
    parseQuery_failure_iff files names s hmain, fun _ => parseQuery_error files names s hmain⟩

end

/-- A parser that has read a condition reads the next query as a new one. -/
theorem parseQuery_language_drop :
    ((QueryParser.main.parseQuery ∅ ∅ "SELECT ( a ) FROM T WHERE ( a = 1 )".toList).1.2.parseQuery
      ∅ ∅ " DROP  T ".toList).1.1 = .ok (.drop "T") := by
  have hmain := QueryParser.main.clear_parseQuery ∅ ∅ "SELECT ( a ) FROM T WHERE ( a = 1 )".toList
  exact (((parseQuery_language ∅ ∅ " DROP  T ".toList hmain).1 (.drop "T") ∅).mpr
    ⟨.drop "T", by decide +kernel, rfl⟩).1

end LemonDB
