import LemonDB.Lib.Footprint
import LemonDB.Query.Execute
import LemonDB.Query.LoadStream

/-!
# LemonDB.Query.Footprint

Which tables and files a query reads and writes.  Queries none of which writes
what another one reads can be executed in any order: their results are the same,
and so are the tables and files that they leave.

LOAD finds the name of its table in the file.  Its footprint is that of the table
which it was parsed for, as long as the file names that one.
-/

namespace LemonDB

open TextStream

/-! ## the parts of a world -/

/-- A table by its name, or a file by its path. -/
inductive Resource where
  | table (name : String)
  | file (path : String)
  deriving DecidableEq

/-- What a world has there: a table or none, the text of a file if there is one, and
whether it can be opened for writing. -/
inductive Content where
  | table (table : Option Table)
  | file (text : Option Text) (writable : Bool)

def World.view (w : World) : Resource → Content
  | .table name => .table (w.database.tables.get? name)
  | .file path => .file (w.files.get? path) (w.writable path)

/-- The name in the first line of a table file. -/
def headerName (text : Text) : Option String :=
  (lines text).head?.bind fun line => (readString line).map fun p => String.ofList p.1

namespace Query

/-- What a query reads.  LIST shows all tables. -/
def reads : Query → Set Resource
  | load t f | dump t f => {.table t, .file f}
  | copyTable t t' => {.table t, .table t'}
  | drop t | truncate t | printTable t => {.table t}
  | insert q | update q | select q | delete q | duplicate q | count q | sum q | min q | max q
  | add q | sub q | swap q => {.table q.targetTable}
  | list => Set.univ
  | quit | listen _ | nop => ∅

/-- What a query writes. -/
def writes : Query → Set Resource
  | load t _ | drop t | truncate t => {.table t}
  | dump _ f => {.file f}
  | copyTable _ t' => {.table t'}
  | insert q | update q | delete q | duplicate q | add q | sub q | swap q =>
      {.table q.targetTable}
  | select _ | count _ | sum _ | min _ | max _ | printTable _ | list | quit | listen _ | nop => ∅

/-- The file of a LOAD names the table that the LOAD was parsed for. -/
def NamesTable (query : Query) (w : World) : Prop :=
  match query with
  | load t f => ∀ text, w.files.get? f = some text → ∀ name, headerName text = some name → name = t
  | _ => True

instance (query : Query) (w : World) : Decidable (query.NamesTable w) :=
  match query with
  | load t f => inferInstanceAs
      (Decidable (∀ text ∈ w.files.get? f, ∀ name ∈ headerName text, name = t))
  | copyTable .. | dump .. | drop _ | truncate _ | insert _ | update _ | delete _ | select _
  | duplicate _ | count _ | sum _ | min _ | max _ | add _ | sub _ | swap _ | printTable _ | list
  | quit | listen _ | nop => .isTrue trivial

end Query

/-! ## reading a file -/

namespace Database

/-- The table that the lines behind the metadata describe. -/
def readTable (err tableName : String) (fieldCount : Nat) : List Text → Except DbError Table
  | [] => throw (.loadFromStreamException (err ++ "Failed to load field names."))
  | line :: rest => do
      let fields ← orThrow (err ++ "Failed to load field names.") (readFields fieldCount line)
      match fields with
      | [] => throw .undefinedBehaviour
      | key :: fields =>
          if key ≠ "KEY" then
            throw (.loadFromStreamException (err ++ "Missing or invalid KEY field."))
          readRows err fieldCount 2 (← Table.create tableName fields) rest

/-- A table that is read has the name of its header. -/
theorem tableName_readTable {err tableName : String} {fieldCount : Nat} {ls : List Text} {t : Table}
    (h : readTable err tableName fieldCount ls = .ok t) : t.tableName = tableName := by
  cases ls with
  | nil => contradiction
  | cons line rest =>
      obtain ⟨fields, _, h⟩ := Except.of_bind_eq_ok h
      cases fields with
      | nil => contradiction
      | cons key fields =>
          dsimp only at h
          split at h
          · contradiction
          · obtain ⟨t₀, hcreate, h⟩ := Except.of_bind_eq_ok h
            refine readRows_induction (P := fun t => t.tableName = tableName)
              (fun t key tuple t' ht _ hins => ?_) (Table.refines_create hcreate).name h
            obtain ⟨_, rfl⟩ := Table.of_insertByIndex_eq_ok hins
            exact ht

/-- A load whose metadata can be read. -/
theorem load_readTable {text line word s s' : Text} {rest : List Text} {n : Nat}
    (hlines : lines text = line :: rest) (hname : readString line = some (word, s))
    (hsize : readSize s = some (n, s')) (d : Database) (source : String) :
    d.loadTableFromStream text source =
      (d.testDuplicate (String.ofList word)).bind fun _ =>
        (readTable (errString source) (String.ofList word) n rest).bind d.registerTable := by
  unfold loadTableFromStream
  rw [hlines]
  simp only [hname, orThrow, pure_bind, hsize]
  cases d.testDuplicate (String.ofList word) with
  | error e => rfl
  | ok u =>
      cases rest with
      | nil => rfl
      | cons line rest =>
          show (_ : Except DbError Database) = (readTable _ _ _ _).bind _
          cases hfields : readFields n line with
          | none =>
              simp only [readTable, hfields]
              rfl
          | some fields =>
              cases fields with
              | nil =>
                  simp only [readTable, hfields]
                  rfl
              | cons key fields =>
                  simp only [readTable, hfields, orThrow, pure_bind]
                  split
                  · rfl
                  · cases Table.create (String.ofList word) fields <;> rfl

/-- A load looks at one name: what it registers does not depend on the other
tables. -/
theorem load_cases (text : Text) (source : String) :
    (∃ e, ∀ d : Database, d.loadTableFromStream text source = Except.error e) ∨
    ∃ name r, headerName text = some name ∧
      ∀ d : Database, d.loadTableFromStream text source = match d.tables.get? name with
        | some _ => Except.error (.duplicatedTableName
            ("Error when inserting table \"" ++ name ++ "\". Name already exists."))
        | none => Except.map (d.setTable name) r := by
  cases hlines : lines text with
  | nil =>
      refine .inl ⟨.loadFromStreamException
        (errString source ++ "Failed to read table metadata line."), fun d => ?_⟩
      unfold loadTableFromStream
      rw [hlines]
      rfl
  | cons line rest =>
      cases hname : readString line with
      | none =>
          refine .inl ⟨.loadFromStreamException
            (errString source ++ "Failed to parse table metadata."), fun d => ?_⟩
          unfold loadTableFromStream
          rw [hlines]
          simp only [hname]
          rfl
      | some p =>
          obtain ⟨word, s⟩ := p
          cases hsize : readSize s with
          | none =>
              refine .inl ⟨.loadFromStreamException
                (errString source ++ "Failed to parse table metadata."), fun d => ?_⟩
              unfold loadTableFromStream
              rw [hlines]
              simp only [hname, orThrow, pure_bind, hsize]
              rfl
          | some p =>
              refine .inr ⟨String.ofList word,
                readTable (errString source) (String.ofList word) p.1 rest,
                by simp [headerName, hlines, hname], fun d => ?_⟩
              rw [load_readTable hlines hname hsize]
              unfold testDuplicate
              cases hget : d.tables.get? (String.ofList word) with
              | some t => rfl
              | none =>
                  show (readTable _ _ _ _).bind _ = _
                  cases hread : readTable (errString source) (String.ofList word) p.1 rest with
                  | error e => rfl
                  | ok t =>
                      have hfree : d.tables.get? t.tableName = none := by
                        rw [tableName_readTable hread]
                        exact hget
                      show d.registerTable t = _
                      unfold registerTable testDuplicate
                      rw [hfree, tableName_readTable hread]
                      rfl

end Database

/-! ## queries on one table -/

namespace Database

/-- The function reads and changes the table of this name only. -/
structure TableOnly (name : String) (f : Database → QueryResult × Database) : Prop where
  answer : ∀ {d d' : Database}, d.tables.get? name = d'.tables.get? name → (f d).1 = (f d').1
  write : ∀ {d d' : Database}, d.tables.get? name = d'.tables.get? name →
    (f d).2.tables.get? name = (f d').2.tables.get? name
  frame : ∀ {d : Database} {k : String}, k ≠ name → (f d).2.tables.get? k = d.tables.get? k

theorem get_congr {d d' : Database} {name : String}
    (h : d.tables.get? name = d'.tables.get? name) : d.get name = d'.get name := by
  unfold get
  rw [h]

/-- DROP looks at its table only. -/
theorem tableOnly_executeDrop (name : String) : TableOnly name (executeDrop · name) := by
  have hdrop : ∀ d : Database, executeDrop d name = match d.tables.get? name with
      | some _ => (.null, { d with tables := d.tables.remove name })
      | none => (.tableError "DROP" name "No such table.", d) := by
    intro d
    unfold executeDrop dropTable
    cases d.tables.get? name <;> rfl
  constructor
  · intro d d' h
    rw [hdrop, hdrop, h]
    split <;> rfl
  · intro d d' h
    rw [hdrop, hdrop, h]
    split
    · rw [FiniteMap.get?_remove_self, FiniteMap.get?_remove_self]
    · exact h
  · intro d k hk
    rw [hdrop]
    split
    · exact FiniteMap.get?_remove_of_ne _ hk
    · rfl

/-- A function that replaces the table by what it makes of it. -/
theorem tableOnly_set {name : String} {f : Database → QueryResult × Database}
    {g : Option Table → QueryResult × Option Table}
    (h : ∀ d : Database, f d = ((g (d.tables.get? name)).1,
      match (g (d.tables.get? name)).2 with
      | some t => d.setTable name t
      | none => d)) : TableOnly name f := by
  constructor
  · intro d d' hd
    rw [h, h, hd]
  · intro d d' hd
    rw [h, h, hd]
    dsimp only
    split
    · rw [setTable, setTable, FiniteMap.get?_set_self, FiniteMap.get?_set_self]
    · exact hd
  · intro d k hk
    rw [h]
    dsimp only
    split
    · exact FiniteMap.get?_set_of_ne _ _ hk
    · rfl

/-- TRUNCATE looks at its table only. -/
theorem tableOnly_executeTruncate (name : String) : TableOnly name (executeTruncate · name) := by
  refine tableOnly_set (g := fun
    | some t => (.null, some t.clear.2)
    | none => (.tableError "TRUNCATE" name "No such table.", none)) fun d => ?_
  unfold executeTruncate get
  cases d.tables.get? name <;> rfl

end Database

namespace ComplexQuery

open Database (TableOnly tableOnly_set)

variable (q : ComplexQuery)

/-- A query that reads its table looks at no other. -/
theorem tableOnly_reading (h : Handlers) (f : Table → Except DbError QueryResult) :
    TableOnly q.targetTable fun d => q.reading h d f := by
  refine tableOnly_set (g := fun o => ((q.reading h
    { tables := match o with
        | some t => (∅ : FiniteMap String Table).set q.targetTable t
        | none => ∅ } f).1, none)) fun d => ?_
  unfold reading Database.get
  cases d.tables.get? q.targetTable with
  | none => rfl
  | some t =>
      simp only [FiniteMap.get?_set_self, bind, Except.bind, pure, Except.pure]
      cases f t <;> rfl

/-- What a query that changes a table does with it. -/
def written (h : Handlers) (f : Table → Outcome) : Option Table → QueryResult × Option Table
  | some t => (match (f t).1 with
      | .ok result => result
      | .error e => h.handle q.targetTable e, some (f t).2)
  | none => ((q.writing h {} f).1, none)

/-- A query that changes its table looks at no other. -/
theorem tableOnly_writing (h : Handlers) (f : Table → Outcome) :
    TableOnly q.targetTable fun d => q.writing h d f := by
  refine tableOnly_set (g := q.written h f) fun d => ?_
  unfold writing written Database.get
  cases d.tables.get? q.targetTable with
  | none => rfl
  | some t =>
      simp only [pure, Except.pure]
      cases (f t).1 <;> rfl

/-- The check of the operands looks at no table. -/
theorem tableOnly_withOperands {name : String} {f : Database → QueryResult × Database}
    (hf : TableOnly name f) (qname format : String) (ok : Bool) :
    TableOnly name fun d => q.withOperands qname format ok d (f d) := by
  unfold withOperands
  cases ok with
  | true => exact hf
  | false => exact ⟨fun _ => rfl, fun h => h, fun _ => rfl⟩

theorem snd_reading (h : Handlers) (f : Table → Except DbError QueryResult) (d : Database) :
    (q.reading h d f).2 = d := by
  unfold reading
  split <;> rfl

theorem snd_withOperands {run : QueryResult × Database} {d : Database} (hrun : run.2 = d)
    (qname format : String) (ok : Bool) : (q.withOperands qname format ok d run).2 = d := by
  unfold withOperands
  split
  · exact hrun
  · rfl

/-- SELECT looks at its table only. -/
theorem tableOnly_select : TableOnly q.targetTable q.select := by
  refine q.tableOnly_withOperands (f := fun d => if q.operands.headD "" ≠ "KEY" then
    (.tableError "SELECT" q.targetTable "Invalid format, the first must be KEY.", d)
    else q.reading _ d q.executeSelect) ?_ _ _ _
  split
  · exact ⟨fun _ => rfl, fun h => h, fun _ => rfl⟩
  · exact q.tableOnly_reading _ _

theorem snd_select (d : Database) : (q.select d).2 = d := by
  refine q.snd_withOperands ?_ _ _ _
  split
  · rfl
  · exact q.snd_reading _ _ d

end ComplexQuery

/-! ## the laws -/

namespace Query

@[simp] theorem view_table (w : World) (name : String) :
    w.view (.table name) = .table (w.database.tables.get? name) := rfl

@[simp] theorem view_file (w : World) (path : String) :
    w.view (.file path) = .file (w.files.get? path) (w.writable path) := rfl

/-- The execution of the query keeps to its footprint. -/
structure Local (query : Query) : Prop where
  answer : ∀ {w w' : World}, query.NamesTable w → (∀ k ∈ query.reads, w.view k = w'.view k) →
    (query.execute w).1 = (query.execute w').1
  write : ∀ {w w' : World}, query.NamesTable w → (∀ k ∈ query.reads, w.view k = w'.view k) →
    ∀ k ∈ query.writes, (query.execute w).2.view k = (query.execute w').2.view k
  frame : ∀ {w : World} {k : Resource}, query.NamesTable w → k ∉ query.writes →
    (query.execute w).2.view k = w.view k

variable {query : Query}

/-- A query without an effect. -/
theorem local_of_answer {r : QueryResult} (h : ∀ w, query.execute w = (r, w))
    (hw : query.writes = ∅) : query.Local := by
  constructor
  · intro w w' _ _
    rw [h, h]
  · intro w w' _ _ k hk
    rw [hw] at hk
    exact hk.elim
  · intro w k _ _
    rw [h]

/-- A query on one table. -/
theorem local_of_tableOnly {name : String} {f : Database → QueryResult × Database}
    (h : ∀ w, query.execute w = w.onDatabase f) (hf : Database.TableOnly name f)
    (hr : .table name ∈ query.reads)
    (hw : query.writes = {.table name} ∨ query.writes = ∅ ∧ ∀ d, (f d).2 = d) : query.Local := by
  have hget : ∀ {w w' : World}, (∀ k ∈ query.reads, w.view k = w'.view k) →
      w.database.tables.get? name = w'.database.tables.get? name :=
    fun hsame => Content.table.inj (hsame _ hr)
  constructor
  · intro w w' _ hsame
    rw [h, h]
    exact hf.answer (hget hsame)
  · intro w w' _ hsame k hk
    rw [h, h]
    obtain hw | ⟨hw, _⟩ := hw
    · rw [hw] at hk
      rw [show k = .table name from hk]
      exact congrArg Content.table (hf.write (hget hsame))
    · rw [hw] at hk
      exact hk.elim
  · intro w k _ hk
    rw [h]
    obtain hw | ⟨_, hid⟩ := hw
    · cases k with
      | file path => rfl
      | table name' =>
          refine congrArg Content.table (hf.frame fun heq => hk ?_)
          rw [hw, heq]
          rfl
    · simp only [World.onDatabase, hid]

/-- The end of a LOAD, given the tables with the new one. -/
def loaded (w : World) : Except DbError Database → QueryResult × World
  | .ok database => (.null, { w with database })
  | .error .undefinedBehaviour => (.undefined, w)
  | .error e => (.queryError "LOAD" e.what, w)

/-- A load that fails leaves the world alone. -/
theorem loaded_error (e : DbError) : ∃ r, ∀ w : World, loaded w (.error e) = (r, w) := by
  cases e <;> exact ⟨_, fun _ => rfl⟩

theorem load_eq_loaded {f : String} {w : World} {text : Text}
    (h : w.files.get? f = some text) :
    w.load f = loaded w (w.database.loadTableFromStream text f) := by
  unfold World.load
  exact h ▸ rfl

/-- What a LOAD does to the tables, for a file that names its table. -/
theorem load_world {t f : String} {w : World} {text : Text} (hfile : w.files.get? f = some text)
    (hnames : (load t f).NamesTable w) :
    (∃ r, ∀ w' : World, w'.files.get? f = some text → w'.load f = (r, w')) ∨
    ∃ r : QueryResult × Option Table, ∃ r', ∀ w' : World, w'.files.get? f = some text →
      w'.load f = match w'.database.tables.get? t with
        | some _ => (r', w')
        | none => (r.1, match r.2 with
          | some table => { w' with database := w'.database.setTable t table }
          | none => w') := by
  obtain ⟨e, he⟩ | ⟨name, r, hname, hr⟩ := Database.load_cases text f
  · obtain ⟨r, hr⟩ := loaded_error e
    refine .inl ⟨r, fun w' h => ?_⟩
    rw [load_eq_loaded h, he]
    exact hr w'
  · obtain rfl : name = t := hnames text hfile name hname
    obtain ⟨taken, htaken⟩ := loaded_error (.duplicatedTableName
      ("Error when inserting table \"" ++ name ++ "\". Name already exists."))
    cases r with
    | error e =>
        obtain ⟨r, hr'⟩ := loaded_error e
        refine .inr ⟨(r, none), taken, fun w' h => ?_⟩
        rw [load_eq_loaded h, hr]
        cases w'.database.tables.get? name with
        | some table => exact htaken w'
        | none => exact hr' w'
    | ok table =>
        refine .inr ⟨(.null, some table), taken, fun w' h => ?_⟩
        rw [load_eq_loaded h, hr]
        cases w'.database.tables.get? name with
        | some table => exact htaken w'
        | none => rfl

/-- LOAD is local to its file and its table. -/
theorem local_load (t f : String) : (load t f).Local := by
  have hparts : ∀ {w w' : World}, (∀ k ∈ (load t f).reads, w.view k = w'.view k) →
      w.database.tables.get? t = w'.database.tables.get? t ∧ w.files.get? f = w'.files.get? f :=
    fun h => ⟨Content.table.inj (h (.table t) (.inl rfl)),
      (Content.file.inj (h (.file f) (.inr rfl))).1⟩
  have hnone : ∀ {w : World}, w.files.get? f = none →
      w.load f = (.queryError "LOAD" (fill "Cannot open file '?'" f), w) := by
    intro w h
    unfold World.load
    rw [h]
  constructor
  · intro w w' hnames h
    obtain ⟨htable, hfile⟩ := hparts h
    show (w.load f).1 = (w'.load f).1
    cases htext : w.files.get? f with
    | none => rw [hnone htext, hnone (hfile ▸ htext)]
    | some text =>
        obtain ⟨r, hr⟩ | ⟨r, r', hr⟩ := load_world htext hnames
        · rw [hr w htext, hr w' (hfile ▸ htext)]
        · rw [hr w htext, hr w' (hfile ▸ htext), ← htable]
          cases w.database.tables.get? t <;> rfl
  · rintro w w' hnames h k rfl
    obtain ⟨htable, hfile⟩ := hparts h
    show (w.load f).2.view _ = (w'.load f).2.view _
    cases htext : w.files.get? f with
    | none =>
        rw [hnone htext, hnone (hfile ▸ htext)]
        exact congrArg Content.table htable
    | some text =>
        obtain ⟨r, hr⟩ | ⟨r, r', hr⟩ := load_world htext hnames
        · rw [hr w htext, hr w' (hfile ▸ htext)]
          exact congrArg Content.table htable
        · rw [hr w htext, hr w' (hfile ▸ htext), ← htable]
          cases hget : w.database.tables.get? t with
          | some table => exact congrArg Content.table htable
          | none =>
              cases r.2 with
              | none => exact congrArg Content.table htable
              | some table => simp [Database.setTable]
  · intro w k hnames hk
    show (w.load f).2.view k = w.view k
    cases htext : w.files.get? f with
    | none => rw [hnone htext]
    | some text =>
        obtain ⟨r, hr⟩ | ⟨r, r', hr⟩ := load_world htext hnames
        · rw [hr w htext]
        · rw [hr w htext]
          split
          · rfl
          · split
            · cases k with
              | file path => rfl
              | table name =>
                  have hne : name ≠ t := fun heq => hk (heq ▸ rfl)
                  simp [Database.setTable, FiniteMap.get?_set_of_ne _ _ hne]
            · rfl

/-- What becomes of the file of a DUMP. -/
theorem dump_world (t f : String) (w : World) :
    w.dump t f = if w.writable f then
      match w.database.get t with
      | .error e => (.queryError "DUMP" e.what, { w with files := w.files.set f [] })
      | .ok table => match table.text with
          | none => (.undefined, { w with files := w.files.set f [] })
          | some text => (.null, { w with files := (w.files.set f []).set f text })
      else (.queryError "DUMP" (fill "Cannot open file '?'" f), w) := rfl

/-- DUMP is local to its table and its file. -/
theorem local_dump (t f : String) : (dump t f).Local := by
  have hparts : ∀ {w w' : World}, (∀ k ∈ (dump t f).reads, w.view k = w'.view k) →
      w.database.get t = w'.database.get t ∧ w.files.get? f = w'.files.get? f ∧
        w.writable f = w'.writable f := by
    intro w w' h
    obtain ⟨htext, hwritable⟩ := Content.file.inj (h (.file f) (.inr rfl))
    exact ⟨Database.get_congr (Content.table.inj (h (.table t) (.inl rfl))), htext, hwritable⟩
  constructor
  · intro w w' _ h
    obtain ⟨hget, _, hwritable⟩ := hparts h
    show (w.dump t f).1 = (w'.dump t f).1
    rw [dump_world, dump_world, hget, hwritable]
    repeat' split
    all_goals rfl
  · rintro w w' _ h k rfl
    obtain ⟨hget, htext, hwritable⟩ := hparts h
    show (w.dump t f).2.view _ = (w'.dump t f).2.view _
    rw [dump_world, dump_world, hget, hwritable]
    split
    · next hopen =>
        split
        · simp [hwritable, hopen]
        · split <;> simp [hwritable, hopen]
    · simp [htext, hwritable]
  · intro w k _ hk
    show (w.dump t f).2.view k = w.view k
    have hfile : ∀ (files : FiniteMap String Text) text, (∀ f', f' ≠ f →
        files.get? f' = w.files.get? f') →
        World.view { w with files := files.set f text } k = w.view k := by
      intro files text hfiles
      cases k with
      | table name => rfl
      | file path =>
          have hne : path ≠ f := fun heq => hk (heq ▸ rfl)
          simp [FiniteMap.get?_set_of_ne _ _ hne, hfiles path hne]
    rw [dump_world]
    split
    · split
      · exact hfile _ _ fun _ _ => rfl
      · split
        · exact hfile _ _ fun _ _ => rfl
        · exact hfile _ _ fun f' hf' => FiniteMap.get?_set_of_ne _ _ hf'
    · rfl

/-- COPYTABLE is local to its two tables. -/
theorem local_copyTable (t t' : String) : (copyTable t t').Local := by
  have hcopy : ∀ d : Database, d.executeCopyTable t t' = (d.tables.get? t).elim
      (.tableError "COPYTABLE" t
        ("Error accesing table \"" ++ t ++ "\". Table not found."), d)
      fun table => (d.tables.get? t').elim (.null, d.setTable t' (table.copy t'))
        fun _ => (.tableError "COPYTABLE" t'
          ("Error when inserting table \"" ++ t' ++ "\". Name already exists."), d) := by
    intro d
    unfold Database.executeCopyTable Database.get Database.registerTable Database.testDuplicate
    cases d.tables.get? t with
    | none => rfl
    | some table =>
        have hname : (table.copy t').tableName = t' := rfl
        simp only [pure, Except.pure, hname]
        cases d.tables.get? t' <;> rfl
  have hexec : ∀ w : World, (copyTable t t').execute w = ((w.database.executeCopyTable t t').1,
      { w with database := (w.database.executeCopyTable t t').2 }) := fun _ => rfl
  have hparts : ∀ {w w' : World}, (∀ k ∈ (copyTable t t').reads, w.view k = w'.view k) →
      w.database.tables.get? t = w'.database.tables.get? t ∧
        w.database.tables.get? t' = w'.database.tables.get? t' := fun h =>
    ⟨Content.table.inj (h (.table t) (.inl rfl)), Content.table.inj (h (.table t') (.inr rfl))⟩
  constructor
  · intro w w' _ h
    obtain ⟨hsrc, hdst⟩ := hparts h
    rw [hexec, hexec, hcopy, hcopy, hsrc, hdst]
    cases w'.database.tables.get? t with
    | none => rfl
    | some table => cases w'.database.tables.get? t' <;> rfl
  · rintro w w' _ h k rfl
    obtain ⟨hsrc, hdst⟩ := hparts h
    rw [hexec, hexec, hcopy, hcopy, hsrc, hdst]
    simp only [view_table]
    cases w'.database.tables.get? t with
    | none => exact congrArg _ hdst
    | some table =>
        cases hd : w'.database.tables.get? t' with
        | none => simp [Database.setTable]
        | some _ => exact congrArg _ hdst
  · intro w k _ hk
    rw [hexec, hcopy]
    cases w.database.tables.get? t with
    | none => rfl
    | some table => cases w.database.tables.get? t' with
      | some _ => rfl
      | none => cases k with
        | file path => rfl
        | table name =>
            have hne : name ≠ t' := fun heq => hk (heq ▸ rfl)
            simp [Database.setTable, FiniteMap.get?_set_of_ne _ _ hne]

/-- SHOWTABLE is local to its table. -/
theorem local_printTable (t : String) : (printTable t).Local := by
  refine @local_of_tableOnly _ t (fun d => (d.executePrintTable t, d)) (fun _ => rfl)
    (Database.tableOnly_set (g := fun
      | some table => (match table.text with
          | none => .undefined
          | some _ => .querySuccess "SHOWTABLE" t, none)
      | none => (.tableError "SHOWTABLE" t "No such table.", none)) fun d => ?_) rfl
    (.inr ⟨rfl, fun _ => rfl⟩)
  unfold Database.executePrintTable Database.get
  cases d.tables.get? t <;> rfl

/-- **Every query keeps to its footprint.** -/
theorem local_execute (query : Query) : query.Local := by
  have hwrite : ∀ {query : Query} {name} (f), (∀ w, query.execute w = w.onDatabase f) →
      Database.TableOnly name f → query.reads = {.table name} → query.writes = {.table name} →
      query.Local := fun _ h hf hr hw => local_of_tableOnly h hf (hr ▸ rfl) (.inl hw)
  have hread : ∀ {query : Query} {name} (f), (∀ w, query.execute w = w.onDatabase f) →
      Database.TableOnly name f → query.reads = {.table name} → query.writes = ∅ →
      (∀ d, (f d).2 = d) → query.Local :=
    fun _ h hf hr hw hid => local_of_tableOnly h hf (hr ▸ rfl) (.inr ⟨hw, hid⟩)
  cases query with
  | load t f => exact local_load t f
  | dump t f => exact local_dump t f
  | drop t =>
      exact hwrite (Database.executeDrop · t) (fun _ => rfl) (Database.tableOnly_executeDrop t)
        rfl rfl
  | truncate t =>
      exact hwrite (Database.executeTruncate · t) (fun _ => rfl)
        (Database.tableOnly_executeTruncate t) rfl rfl
  | copyTable t t' => exact local_copyTable t t'
  | list => exact local_of_answer (fun _ => rfl) rfl
  | quit => exact local_of_answer (fun _ => rfl) rfl
  | printTable t => exact local_printTable t
  | listen f => exact local_of_answer (fun _ => rfl) rfl
  | nop => exact local_of_answer (fun _ => rfl) rfl
  | insert q =>
      exact hwrite q.insert (fun _ => rfl)
        (q.tableOnly_withOperands (q.tableOnly_writing _ _) _ _ _) rfl rfl
  | update q =>
      exact hwrite q.updateQuery (fun _ => rfl)
        (q.tableOnly_withOperands (q.tableOnly_writing _ _) _ _ _) rfl rfl
  | select q => exact hread q.select (fun _ => rfl) q.tableOnly_select rfl rfl q.snd_select
  | delete q => exact hwrite q.delete (fun _ => rfl) (q.tableOnly_writing _ _) rfl rfl
  | duplicate q =>
      exact hwrite q.duplicate (fun _ => rfl)
        (q.tableOnly_withOperands (q.tableOnly_writing _ _) _ _ _) rfl rfl
  | count q =>
      exact hread q.count (fun _ => rfl) (q.tableOnly_reading _ _) rfl rfl (q.snd_reading _ _)
  | sum q =>
      exact hread q.sum (fun _ => rfl) (q.tableOnly_reading _ _) rfl rfl (q.snd_reading _ _)
  | min q =>
      exact hread q.min (fun _ => rfl)
        (q.tableOnly_withOperands (q.tableOnly_reading _ _) _ _ _) rfl rfl
        fun d => q.snd_withOperands (q.snd_reading _ _ d) _ _ _
  | max q =>
      exact hread q.max (fun _ => rfl)
        (q.tableOnly_withOperands (q.tableOnly_reading _ _) _ _ _) rfl rfl
        fun d => q.snd_withOperands (q.snd_reading _ _ d) _ _ _
  | add q =>
      exact hwrite q.add (fun _ => rfl)
        (q.tableOnly_withOperands (q.tableOnly_writing _ _) _ _ _) rfl rfl
  | sub q =>
      exact hwrite q.sub (fun _ => rfl)
        (q.tableOnly_withOperands (q.tableOnly_writing _ _) _ _ _) rfl rfl
  | swap q => exact hwrite q.swap (fun _ => rfl) (q.tableOnly_writing _ _) rfl rfl

/-- What a query writes is part of what it looks at. -/
theorem writes_subset_reads (query : Query) : query.writes ⊆ query.reads := by
  intro k hk
  cases query with
  | load | copyTable | dump => simp_all [reads, writes]
  | list => exact Set.mem_univ k
  | _ => first | exact hk | exact hk.elim

theorem NamesTable.congr {query : Query} {w w' : World}
    (h : ∀ k ∈ query.reads, w.view k = w'.view k) (hw : query.NamesTable w) :
    query.NamesTable w' := by
  cases query with
  | load t f =>
      intro text hfile
      exact hw text ((Content.file.inj (h (.file f) (.inr rfl))).1.trans hfile)
  | _ => trivial

end Query

/-- The queries as actions on the tables and files. -/
def footprint : Footprint Query World QueryResult Resource Content where
  act := Query.execute
  view := World.view
  reads := Query.reads
  writes := Query.writes
  ok := Query.NamesTable
  writes_subset := Query.writes_subset_reads
  ok_local := Query.NamesTable.congr
  answer_local := (Query.local_execute _).answer
  write_local := (Query.local_execute _).write
  frame := (Query.local_execute _).frame

/-- **Independent queries commute**: executed in either order, both give the same
results and leave the same tables and files. -/
theorem independent_queries_commute {q q' : Query} (h : footprint.Independent q q') {w : World}
    (hq : q.NamesTable w) (hq' : q'.NamesTable w) :
    (q'.execute (q.execute w).2).1 = (q'.execute w).1 ∧
    (q.execute (q'.execute w).2).1 = (q.execute w).1 ∧
    ∀ k, (q'.execute (q.execute w).2).2.view k = (q.execute (q'.execute w).2).2.view k :=
  ⟨h.answer hq hq', h.symm.answer hq' hq, h.act_comm hq hq'⟩

/-- Two LOADs of different tables. -/
theorem independent_queries_commute_loads :
    let w : World := { files := ((∅ : FiniteMap String TextStream.Text).set "f"
      "T 1\nKEY a\nx 1\n".toList).set "g" "U 1\nKEY a\nx 2\n".toList }
    let q : Query := .load "T" "f"
    let q' : Query := .load "U" "g"
    (q'.execute (q.execute w).2).1 = (q'.execute w).1 ∧
    (q.execute (q'.execute w).2).1 = (q.execute w).1 ∧
    ∀ k, (q'.execute (q.execute w).2).2.view k = (q.execute (q'.execute w).2).2.view k :=
  independent_queries_commute (by simp [Footprint.Independent, footprint, Query.reads, Query.writes])
    (by decide +kernel) (by decide +kernel)

end LemonDB
