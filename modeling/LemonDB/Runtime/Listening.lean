import LemonDB.Lib.Worklist
import LemonDB.Runtime.QueryExecutor

/-!
# LemonDB.Runtime.Listening

The files that are listened to.  `executeQueries` works off a queue of file names:
it collects the queries of a file, and puts the files that these listen to at the
end of the queue.  A file is processed each time that it is taken from the queue,
so this ends if and only if the collection gets to no file that leads back to
itself.
-/

namespace LemonDB

open TextStream Database Worklist Relation

/-! ## the collection -/

structure FileProcessResult where
  queries : List Query := []
  listenFiles : List String := []

/-- Collect the queries of a file; one that cannot be opened has none. -/
def processFile (files : FiniteMap String Text) (filename : String) (parser : QueryParser)
    (fileTableNameMap : FileTableNameMap) :
    Option (FileProcessResult × QueryParser × FileTableNameMap) :=
  match files.get? filename with
  | none => some ({}, parser, fileTableNameMap)
  | some inputStream =>
      (QueryCollection.collectQueriesFromStream files
        { inputStream, parser, fileTableNameMap }).map fun c =>
          (⟨c.allQueries, c.fileQueue⟩, c.parser, c.fileTableNameMap)

namespace QueryCollection

/-- One iteration of the loop that works off the queue of files; `none` is a parse
without defined behaviour. -/
def workOff (files : FiniteMap String Text) (c : QueryCollection) :
    QueryCollection ⊕ Option QueryCollection :=
  match c.fileQueue with
  | [] => .inr (some c)
  | filename :: fileQueue =>
      match processFile files filename c.parser c.fileTableNameMap with
      | none => .inr none
      | some (fileResult, parser, fileTableNameMap) => .inl { c with
          parser, fileTableNameMap
          allQueries := c.allQueries ++ fileResult.queries
          fileQueue := fileQueue ++ fileResult.listenFiles }

end QueryCollection

/-! ## the query strings of a text -/

/-- Put a character in front of a stream. -/
def QueryStream.cons (c : Char) (stream : QueryStream) : QueryStream :=
  if hc : c = ';' then
    { stream with
      segments := [] :: stream.segments
      segments_open := List.forall_mem_cons.mpr ⟨List.not_mem_nil, stream.segments_open⟩ }
  else match hs : stream.segments with
    | [] => { stream with
        rest := c :: stream.rest
        rest_open := List.not_mem_cons_of_ne_of_not_mem (Ne.symm hc) stream.rest_open }
    | s :: segments => { stream with
        segments := (c :: s) :: segments
        segments_open := by
          have hopen := stream.segments_open
          rw [hs, List.forall_mem_cons] at hopen
          exact List.forall_mem_cons.mpr
            ⟨List.not_mem_cons_of_ne_of_not_mem (Ne.symm hc) hopen.1, hopen.2⟩ }

/-- The query strings of a text. -/
def QueryStream.ofText : Text → QueryStream
  | [] => { segments := [], rest := [], segments_open := by simp, rest_open := by simp }
  | c :: s => (ofText s).cons c

theorem QueryStream.text_cons (c : Char) (stream : QueryStream) :
    (stream.cons c).text = c :: stream.text := by
  unfold cons text
  split
  · next hc => simp [hc]
  · split
    · next hs => simp [hs]
    · next hs => simp [hs]

theorem QueryStream.text_ofText : (s : Text) → (ofText s).text = s
  | [] => rfl
  | c :: s => by rw [ofText, text_cons, text_ofText s]

/-- The query strings of a text. -/
def queryStrings (text : Text) : List Text := (QueryStream.ofText text).segments

/-! ## what a text listens to -/

/-- The parse of a query string by a fresh parser has a defined behaviour. -/
def Defined (files : FiniteMap String Text) (s : Text) : Prop :=
  (QueryParser.main.parseQuery files ∅ s).1.1 ≠ .error .undefinedBehaviour

instance (files : FiniteMap String Text) (s : Text) : Decidable (Defined files s) :=
  inferInstanceAs (Decidable (_ ≠ _))

/-- The file that a query string listens to, for a fresh parser. -/
def listened (files : FiniteMap String Text) (s : Text) : Option String :=
  (QueryParser.main.parseQuery files ∅ s).1.1.toOption.bind Query.listenFile

/-- A query string of the file `f` listens to `g`. -/
def ListenedBy (files : FiniteMap String Text) (g f : String) : Prop :=
  ∃ text, files.get? f = some text ∧ ∃ s ∈ queryStrings text, listened files s = some g

/-- The files that the collection from a stream gets to. -/
def GetsTo (files : FiniteMap String Text) (input : Text) (f : String) : Prop :=
  ∃ s ∈ queryStrings input, ∃ f₀, listened files s = some f₀ ∧
    ReflTransGen (ListenedBy files) f f₀

/-- The files that a text listens to; `none` if one of its parses has no defined
behaviour. -/
def listenFiles (files : FiniteMap String Text) (text : Text) : Option (List String) :=
  if ∀ s ∈ queryStrings text, Defined files s then
    some ((queryStrings text).filterMap (listened files))
  else none

namespace QueryCollection

/-- A parse without defined behaviour ends the collection of a stream. -/
theorem collect_undefined (files : FiniteMap String Text) (rest : Text) :
    (segments : List Text) → (c : QueryCollection) → c.parser.clear = .main →
    (∀ s ∈ segments, ';' ∉ s) → c.inputStream = segments.flatMap (· ++ [';']) ++ rest →
    (∃ s ∈ segments, ¬ Defined files s) → collectQueriesFromStream files c = none
  | [], _, _, _, _, hs => by
      obtain ⟨s, hs, _⟩ := hs
      contradiction
  | s :: segments, c, hmain, hopen, hin, hundef => by
      have hin : c.inputStream = s ++ ';' :: (segments.flatMap (· ++ [';']) ++ rest) := by
        rw [hin]
        simp
      obtain ⟨hs, hopen⟩ := List.forall_mem_cons.mp hopen
      by_cases hdef : Defined files s
      · obtain ⟨c', hbody, hin', hclear, _⟩ :=
          c.collect_segment files ∅ hs hin (hmain ▸ hdef)
        have hrest : ∃ s ∈ segments, ¬ Defined files s := by
          obtain ⟨s', hs', hundef⟩ := hundef
          obtain rfl | hs' := List.mem_cons.mp hs'
          · exact absurd hdef hundef
          · exact ⟨s', hs', hundef⟩
        rw [collectQueriesFromStream, (collectLoop files).run_of_continue hbody]
        exact collect_undefined files rest segments c' (hclear.trans hmain) hopen hin' hrest
      · have hfresh := c.parser.parseQuery_fresh files c.fileTableNameMap ∅ s
        rw [hmain, not_not.mp hdef] at hfresh
        have hbody : (collectLoop files).body c = .inr none := by
          simp only [collectLoop, hin, extractQueryString_append hs]
          split
          · next hparse =>
              rw [hparse] at hfresh
              simp [Except.map] at hfresh
          · rfl
          · next hne hparse =>
              rw [hparse] at hfresh
              simp only [Except.map, Except.error.injEq] at hfresh
              exact absurd hfresh hne
        exact (collectLoop files).run_of_return hbody

/-- What the collection from a stream adds to the queue of files. -/
theorem collect_listenFiles (files : FiniteMap String Text) (c : QueryCollection)
    (hmain : c.parser.clear = .main) :
    (listenFiles files c.inputStream = none ∧ collectQueriesFromStream files c = none) ∨
    ∃ l c', listenFiles files c.inputStream = some l ∧
      collectQueriesFromStream files c = some c' ∧ c'.parser.clear = .main ∧
      c'.fileQueue = c.fileQueue ++ l := by
  let stream := QueryStream.ofText c.inputStream
  have htext : c.inputStream = stream.text := (QueryStream.text_ofText _).symm
  by_cases hdef : ∀ s ∈ queryStrings c.inputStream, Defined files s
  · obtain ⟨c', hc', hclear, _, hfiles⟩ := collect_segments files ∅ stream.rest stream.rest_open
      stream.segments c stream.segments_open htext fun s hs => hmain ▸ hdef s hs
    refine .inr ⟨_, c', if_pos hdef, hc', hclear.trans hmain, hfiles.trans ?_⟩
    have hlistened : ∀ s, (parsed c.parser files ∅ s).bind Query.listenFile = listened files s := by
      intro s
      simp [parsed, hmain, listened, Option.bind_map]
    simp only [hlistened]
    rfl
  · have hundef : ∃ s ∈ stream.segments, ¬ Defined files s := by
      by_contra hnone
      exact hdef fun s hs => not_not.mp fun hs' => hnone ⟨s, hs, hs'⟩
    exact .inl ⟨if_neg hdef, collect_undefined files stream.rest stream.segments c hmain
      stream.segments_open htext hundef⟩

/-- The files that are queued when a file is worked off. -/
def successors (files : FiniteMap String Text) (filename : String) : Option (List String) :=
  match files.get? filename with
  | none => some []
  | some text => listenFiles files text

/-- Processing a file, by any parser of the program. -/
theorem processFile_cases (files : FiniteMap String Text) (filename : String)
    {parser : QueryParser} (hmain : parser.clear = .main) (names : FileTableNameMap) :
    (successors files filename = none ∧ processFile files filename parser names = none) ∨
    ∃ result parser' names', successors files filename = some result.listenFiles ∧
      processFile files filename parser names = some (result, parser', names') ∧
      parser'.clear = .main := by
  unfold successors processFile
  cases htext : files.get? filename with
  | none => exact .inr ⟨{}, parser, names, rfl, rfl, hmain⟩
  | some text =>
      obtain ⟨hnone, hcollect⟩ | ⟨l, c, hsome, hcollect, hclear, hqueue⟩ := collect_listenFiles files
        { inputStream := text, parser, fileTableNameMap := names } hmain
      · simp only [hcollect]
        exact .inl ⟨hnone, rfl⟩
      · simp only [hcollect]
        refine .inr ⟨_, _, _, hsome.trans (congrArg some ?_), rfl, hclear⟩
        exact hqueue.symm

/-- The loop of `executeQueries` works off its queue. -/
theorem worksOff (files : FiniteMap String Text) : WorksOff (workOff files)
    QueryCollection.fileQueue (successors files) fun c => c.parser.clear = .main where
  ends {c} _ hq := by
    simp only [workOff, hq]
    exact ⟨c, rfl⟩
  givesUp {c filename fileQueue} hmain hq hnone := by
    obtain ⟨_, hprocess⟩ | ⟨_, _, _, hsome, _⟩ :=
      processFile_cases files filename hmain c.fileTableNameMap
    · simp only [workOff, hq, hprocess]
    · rw [hnone] at hsome
      contradiction
  goesOn {c filename fileQueue l} hmain hq hsome := by
    obtain ⟨hnone, _⟩ | ⟨result, parser, names, hsome', hprocess, hmain'⟩ :=
      processFile_cases files filename hmain c.fileTableNameMap
    · rw [hnone] at hsome
      contradiction
    · rw [hsome, Option.some.injEq] at hsome'
      simp only [workOff, hq, hprocess]
      exact ⟨_, rfl, hmain', by rw [hsome']⟩

/-! ## when the collection ends -/

/-- What follows from a file is what it listens to. -/
theorem listenedBy_of_follows {files : FiniteMap String Text} {g f : String}
    (h : Follows (successors files) g f) : ListenedBy files g f := by
  obtain ⟨l, hl, hg⟩ := h
  unfold successors at hl
  split at hl
  · rw [← Option.some.inj hl] at hg
    contradiction
  · next text htext =>
      unfold listenFiles at hl
      split at hl
      · rw [← Option.some.inj hl] at hg
        exact ⟨text, htext, List.mem_filterMap.mp hg⟩
      · contradiction

theorem follows_of_listenedBy {files : FiniteMap String Text} {g f : String}
    (hdef : ∀ text, files.get? f = some text → ∀ s ∈ queryStrings text, Defined files s)
    (h : ListenedBy files g f) : Follows (successors files) g f := by
  obtain ⟨text, htext, hg⟩ := h
  refine ⟨_, ?_, List.mem_filterMap.mpr hg⟩
  unfold successors listenFiles
  rw [htext]
  exact if_pos (hdef text htext)

theorem successors_ne_none {files : FiniteMap String Text} {f : String}
    (hdef : ∀ text, files.get? f = some text → ∀ s ∈ queryStrings text, Defined files s) :
    successors files f ≠ none := by
  unfold successors
  split
  · exact Option.some_ne_none _
  · next text htext =>
      rw [listenFiles, if_pos (hdef text htext)]
      exact Option.some_ne_none _

/-- Where the parses are defined, what follows is what is listened to. -/
theorem follows_path {files : FiniteMap String Text} {input : Text}
    (hdef : ∀ f, GetsTo files input f → ∀ text, files.get? f = some text →
      ∀ s ∈ queryStrings text, Defined files s) {f g : String} (hf : GetsTo files input f)
    (h : ReflTransGen (ListenedBy files) g f) :
    GetsTo files input g ∧ ReflTransGen (Follows (successors files)) g f := by
  induction h using ReflTransGen.head_induction_on with
  | refl => exact ⟨hf, .refl⟩
  | head hgh _ ih =>
      obtain ⟨⟨s, hs, f₀, hf₀, hpath⟩, hfollows⟩ := ih
      have hstep := follows_of_listenedBy (hdef _ ⟨s, hs, f₀, hf₀, hpath⟩) hgh
      exact ⟨⟨s, hs, f₀, hf₀, hpath.head hgh⟩, hfollows.head hstep⟩

/-- The collection from a stream ends: the loop that works off the queue returns
after finitely many iterations. -/
def Ends (files : FiniteMap String Text) (names : FileTableNameMap) (input : Text) : Prop :=
  ∀ c, collectQueriesFromStream files
      { inputStream := input, parser := .main, fileTableNameMap := names } = some c →
    ∃ n r, Returns (workOff files) n c r

/-- The files that are queued at first. -/
theorem collect_input {files : FiniteMap String Text} {names : FileTableNameMap} {input : Text}
    {c : QueryCollection} (hc : collectQueriesFromStream files
      { inputStream := input, parser := .main, fileTableNameMap := names } = some c) :
    c.parser.clear = .main ∧ c.fileQueue = (queryStrings input).filterMap (listened files) := by
  obtain ⟨_, hnone⟩ | ⟨l, c', hl, hc', hmain, hqueue⟩ := collect_listenFiles files
    { inputStream := input, parser := .main, fileTableNameMap := names } rfl
  · rw [hc] at hnone
    contradiction
  · obtain rfl := Option.some.inj (hc.symm.trans hc')
    unfold listenFiles at hl
    split at hl
    · rw [Option.some.injEq] at hl
      exact ⟨hmain, by rw [hqueue, ← hl]; rfl⟩
    · contradiction

/-- **Query collection ends** if it gets to no file that leads back to itself, and,
where its parses are defined, only then. -/
theorem collection_ends (files : FiniteMap String Text) (names : FileTableNameMap) (input : Text) :
    ((∀ f, GetsTo files input f → ¬ TransGen (ListenedBy files) f f) → Ends files names input) ∧
    ((∀ s ∈ queryStrings input, Defined files s) →
      (∀ f, GetsTo files input f → ∀ text, files.get? f = some text →
        ∀ s ∈ queryStrings text, Defined files s) →
      Ends files names input → ∀ f, GetsTo files input f → ¬ TransGen (ListenedBy files) f f) := by
  have hmono : ∀ g f, Follows (successors files) g f → ListenedBy files g f :=
    fun _ _ => listenedBy_of_follows
  constructor
  · intro hacyclic c hc
    obtain ⟨hmain, hqueue⟩ := collect_input hc
    refine (worksOff files).returns_of_acc hmain fun f hf => ?_
    rw [hqueue] at hf
    obtain ⟨s, hs, hf⟩ := List.mem_filterMap.mp hf
    refine acc_of_acyclic files.keys.toFinset f ?_ ?_
    · intro g h _ hgh
      obtain ⟨text, htext, _⟩ := listenedBy_of_follows hgh
      exact List.mem_toFinset.mpr ((files.mem_keys_iff g).mpr ⟨text, htext⟩)
    · intro g hg hcycle
      exact hacyclic g ⟨s, hs, f, hf, ReflTransGen.mono hmono _ _ hg⟩ (TransGen.mono hmono _ _ hcycle)
  · rintro hinput hdef hends f ⟨s, hs, f₀, hf₀, hpath⟩ hcycle
    have hf₀' : GetsTo files input f₀ := ⟨s, hs, f₀, hf₀, .refl⟩
    obtain ⟨hf, hfollows⟩ := follows_path hdef hf₀' hpath
    obtain ⟨hnone, _⟩ | ⟨_, c, _, hc, _⟩ := collect_listenFiles files
      { inputStream := input, parser := .main, fileTableNameMap := names } rfl
    · rw [listenFiles, if_pos hinput] at hnone
      contradiction
    · obtain ⟨hmain, hqueue⟩ := collect_input hc
      have hmem : f₀ ∈ c.fileQueue := hqueue ▸ List.mem_filterMap.mpr ⟨s, hs, hf₀⟩
      obtain ⟨n, r, hreturns⟩ := hends c hc
      cases r with
      | none =>
          obtain ⟨g₀, hg₀, g, hg, hundef⟩ := (worksOff files).exists_of_returns hmain hreturns
          rw [hqueue] at hg₀
          obtain ⟨s', hs', hg₀⟩ := List.mem_filterMap.mp hg₀
          have hg : GetsTo files input g := ⟨s', hs', g₀, hg₀, ReflTransGen.mono hmono _ _ hg⟩
          exact absurd hundef (successors_ne_none (hdef g hg))
      | some r =>
          have hacc := (worksOff files).acc_of_returns hmain hreturns f₀ hmem
          obtain ⟨g, hfg, hgf⟩ := TransGen.head'_iff.mp hcycle
          obtain ⟨hg, hgf⟩ := follows_path hdef hf hgf
          exact hacc.acyclic hfollows (.head' (follows_of_listenedBy (hdef g hg) hfg) hgf)

/-- A file that listens to two others, of which the second one listens to the third. -/
def sharedFiles : FiniteMap String Text :=
  (((∅ : FiniteMap String Text).set "f" "LISTEN ( g ) ; LISTEN ( h ) ;".toList).set
    "g" "LOAD h ; LISTEN ( h ) ;".toList).set "h" "LIST ;".toList

/-- Chained and shared files are collected, however often they are listened to. -/
theorem collection_ends_shared : Ends sharedFiles ∅ "LISTEN ( f ) ; LISTEN ( g ) ;".toList ∧
    ∀ f, GetsTo sharedFiles "LISTEN ( f ) ; LISTEN ( g ) ;".toList f →
      ¬ TransGen (ListenedBy sharedFiles) f f := by
  have hkey : ∀ {f text}, sharedFiles.get? f = some text → f ∈ sharedFiles.keys := fun htext =>
    (sharedFiles.mem_keys_iff _).mpr ⟨_, htext⟩
  -- the names grow along the LISTENs
  have hnames : ∀ f ∈ sharedFiles.keys, ∀ text ∈ sharedFiles.get? f, ∀ s ∈ queryStrings text,
      ∀ g ∈ listened sharedFiles s, f < g := by decide +kernel
  have hacyclic : ∀ f, ¬ TransGen (ListenedBy sharedFiles) f f := by
    have hless : ∀ {g f}, TransGen (ListenedBy sharedFiles) g f → f < g := by
      intro g f hgf
      induction hgf with
      | single h =>
          obtain ⟨text, htext, s, hs, hg⟩ := h
          exact hnames _ (hkey htext) text htext s hs _ hg
      | tail _ h ih =>
          obtain ⟨text, htext, s, hs, hg⟩ := h
          exact String.lt_trans (hnames _ (hkey htext) text htext s hs _ hg) ih
    exact fun f hcycle => String.lt_irrefl f (hless hcycle)
  have hdefined : ∀ f ∈ sharedFiles.keys, ∀ text ∈ sharedFiles.get? f, ∀ s ∈ queryStrings text,
      Defined sharedFiles s := by decide +kernel
  have hends := (collection_ends sharedFiles ∅ "LISTEN ( f ) ; LISTEN ( g ) ;".toList).1
    fun f _ => hacyclic f
  exact ⟨hends, (collection_ends sharedFiles ∅ _).2 (by decide +kernel)
    (fun f _ text htext s hs => hdefined f (hkey htext) text htext s hs) hends⟩

/-- A file that listens to itself. -/
def selfListening : FiniteMap String Text := (∅ : FiniteMap String Text).set "f" "LISTEN ( f ) ;".toList

theorem listenFiles_selfListening :
    listenFiles selfListening "LISTEN ( f ) ;".toList = some ["f"] := by decide +kernel

/-- The collection of a file that listens to itself does not end. -/
theorem not_collection_ends : ¬ ∀ (files : FiniteMap String Text) (names : FileTableNameMap)
    (input : Text), Ends files names input := by
  intro h
  have hsucc : successors selfListening "f" = some ["f"] := listenFiles_selfListening
  have hself : ∀ g, ReflTransGen (Follows (successors selfListening)) g "f" → g = "f" := by
    intro g hg
    induction hg using ReflTransGen.head_induction_on with
    | refl => rfl
    | head hgh _ ih =>
        obtain ⟨l, hl, hg⟩ := hgh
        rw [ih, hsucc] at hl
        rw [← Option.some.inj hl] at hg
        exact List.mem_singleton.mp hg
  obtain ⟨hnone, _⟩ | ⟨l, c, hl, hc, hmain, hqueue⟩ := collect_listenFiles selfListening
    { inputStream := "LISTEN ( f ) ;".toList, parser := .main } rfl
  · rw [listenFiles_selfListening] at hnone
    contradiction
  · obtain rfl := Option.some.inj (listenFiles_selfListening.symm.trans hl)
    obtain ⟨n, r, hreturns⟩ := h selfListening ∅ _ c hc
    cases r with
    | none =>
        obtain ⟨f, hf, g, hg, hundef⟩ := (worksOff selfListening).exists_of_returns hmain hreturns
        rw [hqueue] at hf
        obtain rfl := List.mem_singleton.mp hf
        rw [hself g hg, hsucc] at hundef
        contradiction
    | some r =>
        have hacc := (worksOff selfListening).acc_of_returns hmain hreturns "f"
          (hqueue ▸ List.mem_singleton.mpr rfl)
        exact hacc.acyclic .refl (.single ⟨_, hsucc, List.mem_singleton.mpr rfl⟩)

end QueryCollection

end LemonDB
