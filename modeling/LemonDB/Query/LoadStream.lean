import LemonDB.Db.DumpLoad
import LemonDB.Query.FullRows

/-!
# LemonDB.Query.LoadStream

`Database::loadTableFromStream` step by step, with the tables as its state: what
may be read and written is checked where it happens, and an exception leaves
the tables as they are at that moment.

The table is built aside and registered at the end (`load_eq`), so LOAD is all
or nothing.  The one step that is not defined for each input is `front` of the
list of field names, which is empty when the file announces none.
-/

namespace LemonDB

open TextStream

namespace LoadStream

open Database (readFields readValues readRows orThrow)

/-- A computation that may change the tables or raise an exception. -/
abbrev Loading := EStateM DbError Database

/-- `fields.front()`. -/
def front : List String → Loading String
  | [] => throw .undefinedBehaviour
  | field :: _ => return field

/-- `fields.erase(fields.begin())`. -/
def eraseFront : List String → Loading (List String)
  | [] => throw .undefinedBehaviour
  | _ :: fields => return fields

/-- `fieldCount - 1`.  At 0 it would wrap around, which counts as undefined here. -/
def decrement : Nat → Loading Nat
  | 0 => throw .undefinedBehaviour
  | n + 1 => return n

/-- A call that works on a table that is not registered yet. -/
def call : Except DbError α → Loading α
  | .ok a => return a
  | .error e => throw e

/-- `Database::testDuplicate`, as a statement. -/
def testDuplicate (tableName : String) : Loading Unit := do
  call ((← get).testDuplicate tableName)

/-- The reference to the table, which is returned, is left out. -/
def registerTable (table : Table) : Loading Unit := do
  testDuplicate table.tableName
  modify fun database => { database with tables := database.tables.set table.tableName table }

/-- The loop over the field names. -/
def fieldLoop (errString : String) (fieldCount : Nat) (i : Nat) (sstream : Text)
    (fields : List String) : Loading (List String) :=
  if i < fieldCount then match readString sstream with
    | none => throw (.loadFromStreamException (errString ++ "Failed to load field names."))
    | some (field, sstream) =>
        fieldLoop errString fieldCount (i + 1) sstream (fields ++ [String.ofList field])
  else return fields
termination_by fieldCount - i

/-- The loop over the values of a row. -/
def valueLoop (errString : String) (lineCount fieldCount : Nat) (i : Nat) (sstream : Text)
    (tuple : List Int32) : Loading (List Int32) :=
  if i < fieldCount then match readInt sstream with
    | none => throw (.loadFromStreamException
        (errString ++ "Invalid row on LINE " ++ toString lineCount))
    | some (value, sstream) =>
        valueLoop errString lineCount fieldCount (i + 1) sstream (tuple ++ [value])
  else return tuple
termination_by fieldCount - i

/-- The loop over the lines of the rows. -/
def rowLoop (errString : String) (fieldCount : Nat) :
    (lineCount : Nat) → Table → List Text → Loading Table
  | _, table, [] => return table
  | lineCount, table, line :: inputStream =>
      if line = [] then return table
      else match readString line with
        | none => throw (.loadFromStreamException (errString ++ "Missing or invalid KEY field."))
        | some (key, sstream) => do
            -- the capacity that is reserved
            let _ ← decrement fieldCount
            let tuple ← valueLoop errString (lineCount + 1) fieldCount 1 sstream []
            let table ← call (table.insertByIndex (String.ofList key) tuple)
            rowLoop errString fieldCount (lineCount + 1) table inputStream

/-- `Database::loadTableFromStream`, statement by statement. -/
def loadTableFromStream (inputStream : Text) (source : String) : Loading Unit :=
  let errString := Database.errString source
  match lines inputStream with
  | [] => throw (.loadFromStreamException (errString ++ "Failed to read table metadata line."))
  | line :: inputStream => do
      let (tableName, sstream) ← call (orThrow (errString ++ "Failed to parse table metadata.")
        (readString line))
      let (fieldCount, _) ← call (orThrow (errString ++ "Failed to parse table metadata.")
        (readSize sstream))
      testDuplicate (String.ofList tableName)
      match inputStream with
      | [] => throw (.loadFromStreamException (errString ++ "Failed to load field names."))
      | line :: inputStream => do
          let fields ← fieldLoop errString fieldCount 0 line []
          if (← front fields) ≠ "KEY" then
            throw (.loadFromStreamException (errString ++ "Missing or invalid KEY field."))
          else do
            let fields ← eraseFront fields
            let table ← call (Table.create (String.ofList tableName) fields)
            registerTable (← rowLoop errString fieldCount 2 table inputStream)

/-! ## the table is built aside -/

theorem call_bind (x : Except DbError α) (f : α → Except DbError β) :
    call (x >>= f) = call x >>= fun a => call (f a) := by
  cases x <;> rfl

/-- The loop reads the field names that are left. -/
theorem fieldLoop_eq (errString : String) (fieldCount i : Nat) (s : Text) (fields : List String) :
    fieldLoop errString fieldCount i s fields =
      call (orThrow (errString ++ "Failed to load field names.")
        ((readFields (fieldCount - i) s).map (fields ++ ·))) := by
  fun_induction fieldLoop errString fieldCount i s fields with
  | case1 i s fields hlt hnone =>
      have hn : fieldCount - i = (fieldCount - (i + 1)) + 1 := by omega
      rw [hn, readFields, hnone]
      rfl
  | case2 i s fields hlt field s' hsome ih =>
      have hn : fieldCount - i = (fieldCount - (i + 1)) + 1 := by omega
      rw [ih, hn, readFields, hsome]
      cases hread : readFields (fieldCount - (i + 1)) s' <;> simp [hread]
  | case3 i s fields hge =>
      rw [Nat.sub_eq_zero_of_le (Nat.le_of_not_lt hge), readFields, Option.map_some, List.append_nil]
      rfl

/-- The loop reads the values that are left. -/
theorem valueLoop_eq (errString : String) (lineCount fieldCount i : Nat) (s : Text)
    (tuple : List Int32) : valueLoop errString lineCount fieldCount i s tuple =
      call (orThrow (errString ++ "Invalid row on LINE " ++ toString lineCount)
        ((readValues (fieldCount - i) s).map (tuple ++ ·))) := by
  fun_induction valueLoop errString lineCount fieldCount i s tuple with
  | case1 i s tuple hlt hnone =>
      have hn : fieldCount - i = (fieldCount - (i + 1)) + 1 := by omega
      rw [hn, readValues, hnone]
      rfl
  | case2 i s tuple hlt value s' hsome ih =>
      have hn : fieldCount - i = (fieldCount - (i + 1)) + 1 := by omega
      rw [ih, hn, readValues, hsome]
      cases hread : readValues (fieldCount - (i + 1)) s' <;> simp [hread]
  | case3 i s tuple hge =>
      rw [Nat.sub_eq_zero_of_le (Nat.le_of_not_lt hge), readValues, Option.map_some, List.append_nil]
      rfl

/-- With a field for the keys, the loop over the rows does nothing undefined. -/
theorem rowLoop_eq (errString : String) (n : Nat) : (lineCount : Nat) → (table : Table) →
    (inputStream : List Text) → rowLoop errString (n + 1) lineCount table inputStream =
      call (readRows errString (n + 1) lineCount table inputStream)
  | _, _, [] => rfl
  | _, _, [] :: _ => rfl
  | lineCount, table, (c :: line) :: inputStream => by
      have hcons : ¬ c :: line = [] := List.cons_ne_nil c line
      rw [rowLoop, if_neg hcons, readRows]
      · cases readString (c :: line) with
        | none => rfl
        | some p =>
            obtain ⟨key, s⟩ := p
            have ih := fun table => rowLoop_eq errString n (lineCount + 1) table inputStream
            simp only [valueLoop_eq, decrement, orThrow, pure_bind, call_bind, ih, Nat.add_sub_cancel,
              List.nil_append, Option.map_id']
      · exact hcons

/-- The computation leaves the tables that the function gives, and leaves them as they
are if the function raises an exception. -/
def Commits (m : Loading Unit) (database : Database) (x : Except DbError Database) : Prop :=
  m.run database = match x with
    | .ok database' => .ok () database'
    | .error e => .error e database

variable {database : Database}

theorem commits_throw (e : DbError) : Commits (throw e) database (throw e) := rfl

/-- A call comes first. -/
theorem Commits.call_bind {x : Except DbError α} {f : α → Loading Unit}
    {g : α → Except DbError Database} (h : ∀ a, x = .ok a → Commits (f a) database (g a)) :
    Commits (call x >>= f) database (x >>= g) := by
  cases x with
  | error e => rfl
  | ok a => exact h a rfl

theorem Commits.testDuplicate_bind {tableName : String} {f : Unit → Loading Unit}
    {g : Unit → Except DbError Database} (h : Commits (f ()) database (g ())) :
    Commits (testDuplicate tableName >>= f) database (database.testDuplicate tableName >>= g) :=
  Commits.call_bind fun _ _ => h

/-- The registration is the only statement that changes the database. -/
theorem commits_registerTable (table : Table) :
    Commits (registerTable table) database (database.registerTable table) :=
  Commits.testDuplicate_bind rfl

/-- The tables change at the end or not at all. -/
theorem commits_load (inputStream : Text) (source : String) :
    Commits (loadTableFromStream inputStream source) database
      (database.loadTableFromStream inputStream source) := by
  unfold loadTableFromStream Database.loadTableFromStream
  cases lines inputStream with
  | nil => exact commits_throw _
  | cons line rest =>
      refine Commits.call_bind fun ⟨tableName, s⟩ _ => Commits.call_bind fun ⟨fieldCount, _⟩ _ => ?_
      refine Commits.testDuplicate_bind ?_
      cases rest with
      | nil => exact commits_throw _
      | cons line rest =>
          have hloop := fieldLoop_eq (Database.errString source) fieldCount 0 line []
          simp only [Nat.sub_zero, List.nil_append, Option.map_id'] at hloop
          simp only [hloop]
          refine Commits.call_bind fun fields hfields => ?_
          have hcount := Database.length_readFields (Database.orThrow_eq_ok hfields)
          cases fields with
          | nil => exact commits_throw _
          | cons key fields =>
              rw [← hcount, List.length_cons]
              simp only [front, eraseFront, pure_bind, rowLoop_eq]
              split
              · exact commits_throw _
              · exact Commits.call_bind fun table _ => Commits.call_bind fun table' _ =>
                  commits_registerTable table'

/-! ## all or nothing -/

/-- The lines that a table is read from. -/
structure DescribedBy (header names : Text) (rows : List Text) (t : Table) : Prop where
  metadata : ∃ s s', readString header = some (t.tableName.toList, s) ∧
    readSize s = some (t.fields.length + 1, s')
  fields : readFields (t.fields.length + 1) names = some ("KEY" :: t.fields)
  /-- The rows end at the first empty line. -/
  data : List.Forall₂ (Table.RowReads t.fields.length) (rows.takeWhile (!·.isEmpty)) t.data

/-- The rows end at the first empty line. -/
theorem readRows_takeWhile {errString : String} {n : Nat} : (lineCount : Nat) → (t : Table) →
    (ls : List Text) → readRows errString n lineCount t (ls.takeWhile (!·.isEmpty)) =
      readRows errString n lineCount t ls
  | _, _, [] => rfl
  | _, _, [] :: _ => rfl
  | lineCount, t, (c :: l) :: ls => by
      have hcons : ¬ c :: l = [] := List.cons_ne_nil c l
      rw [List.takeWhile_cons_of_pos (by simp), readRows, readRows]
      · simp only [readRows_takeWhile (lineCount + 1) _ ls]
      · exact hcons
      · exact hcons

/-- What is known of the table when its rows are read. -/
theorem rows_of_readRows {errString tableName : String} {fields : List String} {lineCount : Nat}
    {t t' : Table} {ls : List Text} (hcreate : Table.create tableName fields = .ok t)
    (h : readRows errString (fields.length + 1) lineCount t ls = .ok t') :
    t'.tableName = tableName ∧ t'.fields = fields ∧
      List.Forall₂ (Table.RowReads fields.length) (ls.takeWhile (!·.isEmpty)) t'.data ∧
      t'.Full ∧ t'.Indexed := by
  have hempty := Table.Full.create hcreate
  have href := Table.refines_create hcreate
  have hkeeps := Database.readRows_induction (P := fun t => t.fields = fields ∧ t.Indexed)
    (fun t key tuple t' ht _ hins => by
      obtain ⟨hnew, rfl⟩ := Table.of_insertByIndex_eq_ok hins
      exact ⟨ht.1, Table.indexed_insert ht.2 hnew tuple⟩) ⟨href.fields, href.index⟩ h
  have hfull := Database.full_readRows hempty (by rw [href.fields, Nat.add_sub_cancel]) h
  rw [← readRows_takeWhile] at h
  obtain ⟨data, hname, hdata, hreads⟩ := Table.readRows_sound (fun l hl => by
    have hne := List.mem_takeWhile_imp hl
    simpa using hne) h
  have hnone : t.data = [] := by
    obtain ⟨fieldMap, _, hcreate⟩ := Except.of_bind_eq_ok hcreate
    rw [← Except.ok.inj hcreate]
  rw [hnone, List.nil_append] at hdata
  exact ⟨hname.trans href.name, hkeeps.1, hdata ▸ hreads, hfull, hkeeps.2⟩

theorem of_testDuplicate_eq_ok {tableName : String} {u : Unit}
    (h : database.testDuplicate tableName = .ok u) : database.tables.get? tableName = none := by
  unfold Database.testDuplicate at h
  split at h
  · contradiction
  · assumption

/-- A load that succeeds registers the table of the lines under a free name. -/
theorem described_of_load {inputStream : Text} {source : String} {database' : Database}
    (h : database.loadTableFromStream inputStream source = .ok database') :
    ∃ header names rows t, lines inputStream = header :: names :: rows ∧
      DescribedBy header names rows t ∧ t.Full ∧ t.Indexed ∧
      database.tables.get? t.tableName = none ∧
      database' = { database with tables := database.tables.set t.tableName t } := by
  unfold Database.loadTableFromStream at h
  split at h
  · contradiction
  · next header rest hlines =>
      obtain ⟨⟨tableName, s⟩, hname, h⟩ := Except.of_bind_eq_ok h
      obtain ⟨⟨fieldCount, s'⟩, hsize, h⟩ := Except.of_bind_eq_ok h
      obtain ⟨_, _, h⟩ := Except.of_bind_eq_ok h
      have hname := Database.orThrow_eq_ok hname
      have hsize := Database.orThrow_eq_ok hsize
      cases rest with
      | nil => contradiction
      | cons names rows =>
          obtain ⟨fields, hfields, h⟩ := Except.of_bind_eq_ok h
          have hfields := Database.orThrow_eq_ok hfields
          have hcount := Database.length_readFields hfields
          cases fields with
          | nil => contradiction
          | cons key fields =>
              dsimp only at h
              split at h
              · contradiction
              · next hkey =>
                  obtain ⟨t, hcreate, h⟩ := Except.of_bind_eq_ok h
                  obtain ⟨t', hrows, h⟩ := Except.of_bind_eq_ok h
                  obtain ⟨_, hfree, hdone⟩ := Except.of_bind_eq_ok h
                  rw [List.length_cons] at hcount
                  obtain ⟨htable, rfl, hdata, hfull, hindex⟩ := rows_of_readRows hcreate (hcount ▸ hrows)
                  have hchars : t'.tableName.toList = tableName := by
                    rw [htable, String.toList_ofList]
                  refine ⟨header, names, rows, t', hlines, ⟨⟨s, s', ?_, ?_⟩, ?_, hdata⟩, hfull, hindex,
                    of_testDuplicate_eq_ok hfree, (Except.ok.inj hdone).symm⟩
                  · rw [hchars, hname]
                  · rw [hcount, hsize]
                  · rw [hcount, hfields, not_not.mp hkey]

/-- **LOAD is all or nothing**: an exception leaves the tables as they were, and else
there is one table more, under a name that was free, which is the table of the
lines. -/
theorem load_all_or_nothing (inputStream : Text) (source : String) (database : Database) :
    match (loadTableFromStream inputStream source).run database with
    | .error e database' => e ≠ .undefinedBehaviour → database' = database
    | .ok _ database' => ∃ header names rows t, lines inputStream = header :: names :: rows ∧
        DescribedBy header names rows t ∧ t.Full ∧ (t.data.map Datum.key).Nodup ∧ t.Indexed ∧
        database.tables.get? t.tableName = none ∧
        database' = { database with tables := database.tables.set t.tableName t } := by
  rw [commits_load inputStream source]
  cases hload : database.loadTableFromStream inputStream source with
  | error e => exact fun _ => rfl
  | ok database' =>
      obtain ⟨header, names, rows, t, hlines, hdesc, hfull, hindex, hfree, hset⟩ :=
        described_of_load hload
      exact ⟨header, names, rows, t, hlines, hdesc, hfull, hindex.nodup, hindex, hfree, hset⟩

/-- A table with one row. -/
theorem load_all_or_nothing_row : ∃ database', (loadTableFromStream
      "T 2\nKEY a\nx -1\n".toList "").run {} = .ok () database' ∧
    ∃ t, database' = { tables := (∅ : FiniteMap String Table).set t.tableName t } ∧ t.Indexed := by
  have hall := load_all_or_nothing "T 2\nKEY a\nx -1\n".toList "" {}
  obtain ⟨database', hload⟩ : ∃ database',
      Database.loadTableFromStream {} "T 2\nKEY a\nx -1\n".toList "" = .ok database' := ⟨_, rfl⟩
  have hrun := @commits_load {} "T 2\nKEY a\nx -1\n".toList ""
  unfold Commits at hrun
  rw [hload] at hrun
  rw [hrun] at hall
  obtain ⟨_, _, _, t, _, _, _, _, hindex, _, hset⟩ := hall
  exact ⟨database', hrun, t, hset, hindex⟩

/-! ## what is undefined -/

section

variable {what tableName errString : String}

theorem throw_defined {e : DbError} (he : e ≠ .undefinedBehaviour) :
    (throw e : Except DbError α) ≠ .error .undefinedBehaviour :=
  fun h => he (Except.error.inj h)

theorem orThrow_defined (o : Option α) : orThrow what o ≠ .error .undefinedBehaviour := by
  cases o with
  | none => exact throw_defined nofun
  | some a => exact nofun

theorem testDuplicate_defined : database.testDuplicate tableName ≠ .error .undefinedBehaviour := by
  unfold Database.testDuplicate
  split
  · exact throw_defined nofun
  · exact nofun

theorem registerTable_defined (t : Table) :
    database.registerTable t ≠ .error .undefinedBehaviour := by
  intro h
  obtain h | ⟨_, _, h⟩ := Except.of_bind_eq_error h
  · exact testDuplicate_defined h
  · contradiction

theorem create_defined (fields : List String) :
    Table.create tableName fields ≠ .error .undefinedBehaviour := by
  have hfold : ∀ (l : List (String × Nat)) (m : FiniteMap String Nat),
      l.foldlM (Table.addField tableName) m ≠ .error .undefinedBehaviour := by
    intro l
    induction l with
    | nil => exact fun _ h => by contradiction
    | cons p l ih =>
        intro m h
        rw [List.foldlM_cons] at h
        obtain h | ⟨m', _, h⟩ := Except.of_bind_eq_error h
        · unfold Table.addField at h
          dsimp only at h
          split at h
          · exact absurd h (throw_defined nofun)
          · contradiction
        · exact ih m' h
  intro h
  obtain h | ⟨_, _, h⟩ := Except.of_bind_eq_error h
  · exact hfold _ _ h
  · contradiction

theorem insertByIndex_defined {t : Table} {key : String} {tuple : List Int32} :
    t.insertByIndex key tuple ≠ .error .undefinedBehaviour := by
  unfold Table.insertByIndex
  split
  · exact throw_defined nofun
  · exact nofun

/-- Reading the rows is always defined. -/
theorem readRows_defined {n lineCount : Nat} {t : Table} (ls : List Text) :
    readRows errString n lineCount t ls ≠ .error .undefinedBehaviour := by
  induction ls generalizing lineCount t with
  | nil => exact fun h => by contradiction
  | cons line ls ih =>
      intro h
      cases line with
      | nil => contradiction
      | cons c l =>
          unfold readRows at h
          obtain h | ⟨⟨key, s⟩, _, h⟩ := Except.of_bind_eq_error h
          · exact orThrow_defined _ h
          · obtain h | ⟨tuple, _, h⟩ := Except.of_bind_eq_error h
            · exact orThrow_defined _ h
            · obtain h | ⟨t', _, h⟩ := Except.of_bind_eq_error h
              · exact insertByIndex_defined h
              · exact ih h

end

/-- The file announces no field at all, and the table would be new. -/
def NoFields (inputStream : Text) (database : Database) : Prop :=
  ∃ header names rows tableName s s', lines inputStream = header :: names :: rows ∧
    readString header = some (tableName, s) ∧ readSize s = some (0, s') ∧
    database.tables.get? (String.ofList tableName) = none

/-- The load is undefined exactly for a new table whose header announces no field. -/
theorem load_undefined_iff (inputStream : Text) (source : String) :
    database.loadTableFromStream inputStream source = .error .undefinedBehaviour ↔
      NoFields inputStream database := by
  unfold Database.loadTableFromStream
  constructor
  · intro h
    split at h
    · exact absurd h (throw_defined nofun)
    · next header rest hlines =>
        obtain h | ⟨⟨tableName, s⟩, hname, h⟩ := Except.of_bind_eq_error h
        · exact absurd h (orThrow_defined _)
        obtain h | ⟨⟨fieldCount, s'⟩, hsize, h⟩ := Except.of_bind_eq_error h
        · exact absurd h (orThrow_defined _)
        obtain h | ⟨_, hfree, h⟩ := Except.of_bind_eq_error h
        · exact absurd h testDuplicate_defined
        cases rest with
        | nil => exact absurd h (throw_defined nofun)
        | cons names rows =>
            obtain h | ⟨fields, hfields, h⟩ := Except.of_bind_eq_error h
            · exact absurd h (orThrow_defined _)
            have hcount := Database.length_readFields (Database.orThrow_eq_ok hfields)
            cases fields with
            | nil =>
                rw [List.length_nil] at hcount
                subst hcount
                exact ⟨header, names, rows, tableName, s, s', hlines, Database.orThrow_eq_ok hname,
                  Database.orThrow_eq_ok hsize, of_testDuplicate_eq_ok hfree⟩
            | cons key fields =>
                dsimp only at h
                split at h
                · exact absurd h (throw_defined nofun)
                · obtain h | ⟨t, _, h⟩ := Except.of_bind_eq_error h
                  · exact absurd h (create_defined _)
                  obtain h | ⟨t', _, h⟩ := Except.of_bind_eq_error h
                  · exact absurd h (readRows_defined _)
                  exact absurd h (registerTable_defined _)
  · rintro ⟨header, names, rows, tableName, s, s', hlines, hname, hsize, hfree⟩
    simp only [hlines, hname, hsize, orThrow, Database.testDuplicate, hfree, pure_bind, readFields]
    rfl

/-- The call returns, or throws an exception of the source. -/
def Defined (r : EStateM.Result DbError Database Unit) : Prop :=
  ∀ database', r ≠ .error .undefinedBehaviour database'

/-- **LOAD is memory-safe** exactly on the texts that announce a field or do not get
that far. -/
theorem load_defined_iff (inputStream : Text) (source : String) (database : Database) :
    Defined ((loadTableFromStream inputStream source).run database) ↔
      ¬ NoFields inputStream database := by
  rw [← load_undefined_iff inputStream source, commits_load inputStream source]
  cases database.loadTableFromStream inputStream source with
  | ok database' => exact ⟨fun _ h => by contradiction, fun _ _ h => by contradiction⟩
  | error e =>
      constructor
      · intro hdef h
        exact hdef database (by rw [Except.error.inj h])
      · intro hne database' h
        exact hne (congrArg _ (EStateM.Result.error.inj h).1)

/-- A header that announces no field, with a line after it. -/
theorem not_load_defined : ¬ ∀ (inputStream : Text) (source : String) (database : Database),
    Defined ((loadTableFromStream inputStream source).run database) := by
  intro hall
  have hdef := hall "T 0\n\n".toList "" {}
  rw [commits_load "T 0\n\n".toList "", (load_undefined_iff "T 0\n\n".toList "").mpr
    ⟨_, _, _, _, _, _, rfl, rfl, rfl, rfl⟩] at hdef
  exact hdef {} rfl

end LoadStream

end LemonDB
