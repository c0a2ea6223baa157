import LemonDB.Query.Matching

/-!
# LemonDB.Query.Effects

What the queries that change a table leave behind: a query that fails leaves
everything as it was, DELETE takes the matching rows out, and DUPLICATE appends
their copies.  The number that is reported is a 32-bit one, so it is right up to
`2 ^ 31 - 1` rows.
-/

namespace LemonDB

open ComplexQuery

/-! ## failures -/

/-- An exception or an error result. -/
def Failed (r : Except DbError QueryResult) : Prop :=
  ∀ result, r = .ok result → result.success = false

theorem not_failed_ok {result : QueryResult} (h : result.success = true) :
    ¬ Failed (.ok result) := fun hf => by
  have hfalse := hf result rfl
  rw [h] at hfalse
  contradiction

section

variable {t : Table} {q : ComplexQuery}

/-- A change of cells that fails has changed nothing. -/
theorem updateCells_failed {cells : Except DbError (Datum → List Int32)}
    (hf : Failed (q.updateCells t cells).1) : (q.updateCells t cells).2 = t := by
  cases cells with
  | error e => rfl
  | ok u =>
      unfold updateCells updateMatching at *
      cases hok : initCondition t "" q.condition with
      | error e => rfl
      | ok r =>
          simp only [hok] at hf
          exact absurd hf (not_failed_ok rfl)

/-- An ADD that fails leaves the table as it was. -/
theorem executeAdd_failed (h : t.Full) (hf : Failed (q.executeAdd t).1) :
    (q.executeAdd t).2 = t := by
  rw [executeAdd_eq h] at *
  exact updateCells_failed hf

/-- A SUB that fails leaves the table as it was. -/
theorem executeSub_failed (h : t.Full) (hop : 2 ≤ q.operands.length)
    (hf : Failed (q.executeSub t).1) : (q.executeSub t).2 = t := by
  rw [executeSub_eq h q hop] at *
  exact updateCells_failed hf

/-- A SWAP that fails leaves the table as it was. -/
theorem executeSwap_failed (h : t.Full) (hf : Failed (q.executeSwap t).1) :
    (q.executeSwap t).2 = t := by
  by_cases hop : ∃ field1 field2, q.operands = [field1, field2]
  · obtain ⟨field1, field2, hop⟩ := hop
    rw [executeSwap_eq h hop] at *
    exact updateCells_failed hf
  · unfold executeSwap
    split
    · next field1 field2 heq => exact absurd ⟨field1, field2, heq⟩ hop
    · rfl

/-- An UPDATE of a field that fails leaves the table as it was. -/
theorem executeUpdate_failed (h : t.Full) (hkey : q.operands.getD 0 "" ≠ "KEY")
    (hf : Failed (q.executeUpdate t).1) : (q.executeUpdate t).2 = t := by
  rw [executeUpdate_eq h hkey] at *
  exact updateCells_failed hf

/-- An INSERT that fails leaves the table as it was. -/
theorem executeInsert_failed (hf : Failed (q.executeInsert t).1) : (q.executeInsert t).2 = t := by
  unfold executeInsert at *
  split at hf
  · rfl
  · exact absurd hf (not_failed_ok rfl)

/-- A DELETE that fails has removed no row. -/
theorem executeDelete_failed (h : t.Proper) (hf : Failed (q.executeDelete t).1) :
    (q.executeDelete t).2 = t := by
  rw [executeDelete_eq h.toFull] at *
  cases hok : initCondition t "" q.condition with
  | error e => rfl
  | ok r =>
      simp only [hok, (deleteMatching_spec h q.condition).1] at hf
      exact absurd hf (not_failed_ok rfl)

/-- A DUPLICATE that fails has copied no row. -/
theorem executeDuplicate_failed (h : t.Proper) (hf : Failed (q.executeDuplicate t).1) :
    (q.executeDuplicate t).2 = t := by
  rw [executeDuplicate_eq h] at *
  cases hok : initCondition t "" q.condition with
  | error e => rfl
  | ok r =>
      simp only [hok, (duplicateMatching_spec h q.condition).1] at hf
      exact absurd hf (not_failed_ok rfl)

variable {database : Database} {name : String}

/-- A query that fails on its table leaves all tables. -/
theorem tables_writing {handlers : Handlers} {f : Table → Outcome}
    (hf : ∀ t, database.tables.get? q.targetTable = some t → Failed (f t).1 → (f t).2 = t)
    (herr : (q.writing handlers database f).1.success = false) :
    (q.writing handlers database f).2.tables.get? name = database.tables.get? name := by
  unfold writing Database.get at *
  cases ht : database.tables.get? q.targetTable with
  | none => rfl
  | some t =>
      simp only [ht] at herr ⊢
      have hfailed : Failed (f t).1 := by
        intro result hres
        simpa [hres, pure, Except.pure] using herr
      have hsame := hf t ht hfailed
      have hset : (database.setTable q.targetTable t).tables.get? name =
          database.tables.get? name := by
        unfold Database.setTable
        rw [FiniteMap.get?_set]
        split
        · next hname => rw [hname, ht]
        · rfl
      simp only [pure, Except.pure, hsame]
      split <;> exact hset

/-- A query that reads its table leaves all tables alone. -/
theorem tables_reading {handlers : Handlers} {f : Table → Except DbError QueryResult} :
    (q.reading handlers database f).2.tables.get? name = database.tables.get? name := by
  unfold reading
  split <;> rfl

/-- A query that is rejected for its operands leaves all tables alone. -/
theorem tables_withOperands {qname format : String} {ok : Bool} {run : QueryResult × Database}
    (hrun : ok = true → run.1.success = false → run.2.tables.get? name = database.tables.get? name)
    (herr : (q.withOperands qname format ok database run).1.success = false) :
    (q.withOperands qname format ok database run).2.tables.get? name =
      database.tables.get? name := by
  unfold withOperands at *
  split at herr
  · next hok =>
      rw [if_pos hok]
      exact hrun hok herr
  · next hok => rw [if_neg hok]

end

/-- **A failing data query changes nothing.** -/
theorem unchanged_of_error {query : Query} (hq : query.isRowQuery = true) {w : World}
    (h : ∀ t ∈ w.database.tables.get? query.table, t.Proper)
    (herr : (query.execute w).1.success = false) (name : String) :
    (query.execute w).2.database.tables.get? name = w.database.tables.get? name := by
  cases query with
  | insert q =>
      exact tables_withOperands (fun _ => tables_writing fun t _ => executeInsert_failed) herr
  | update q =>
      exact tables_withOperands (fun _ => tables_writing fun t ht =>
        executeUpdate_failed (h t ht).toFull (Query.operand_of_isRowQuery hq)) herr
  | delete q => exact tables_writing (fun t ht => executeDelete_failed (h t ht)) herr
  | duplicate q =>
      exact tables_withOperands (fun _ => tables_writing fun t ht =>
        executeDuplicate_failed (h t ht)) herr
  | add q =>
      exact tables_withOperands (fun _ => tables_writing fun t ht =>
        executeAdd_failed (h t ht).toFull) herr
  | sub q =>
      exact tables_withOperands (fun hop => tables_writing fun t ht =>
        executeSub_failed (h t ht).toFull (of_decide_eq_true hop)) herr
  | swap q => exact tables_writing (fun t ht => executeSwap_failed (h t ht).toFull) herr
  | count q => exact tables_reading
  | sum q => exact tables_reading
  | min q => exact tables_withOperands (fun _ _ => tables_reading) herr
  | max q => exact tables_withOperands (fun _ _ => tables_reading) herr
  | select q =>
      refine tables_withOperands (fun _ _ => ?_) herr
      split
      · rfl
      · exact tables_reading
  | _ => contradiction

/-- A database with one table, under the name T. -/
def single (t : Table) : Database := { tables := (∅ : FiniteMap String Table).set "T" t }

theorem get?_single (t : Table) : (single t).tables.get? "T" = some t := FiniteMap.get?_set_self _ _ _

/-- An ADD into a field that is not there. -/
theorem unchanged_of_error_field : ∃ w : World, (∀ t ∈ w.database.tables.get? "T", t.Proper) ∧
    ((Query.add ⟨"T", ["a", "b"], []⟩).execute w).1.success = false ∧
    ((Query.add ⟨"T", ["a", "b"], []⟩).execute w).2.database.tables.get? "T" = some twoRows := by
  let w : World := { database := single twoRows }
  have hget : w.database.tables.get? "T" = some twoRows := get?_single _
  have hproper : ∀ t ∈ w.database.tables.get? "T", t.Proper := by
    intro t ht
    rw [hget] at ht
    exact Option.some.inj ht ▸ proper_twoRows
  have herr : ((Query.add ⟨"T", ["a", "b"], []⟩).execute w).1.success = false := rfl
  exact ⟨w, hproper, herr, (unchanged_of_error rfl hproper herr "T").trans hget⟩

/-! ## numbers of rows -/

/-- The integers that an `int` can hold. -/
theorem toInt_ofInt_iff (n : Int) : (Int32.ofInt n).toInt = n ↔ -2 ^ 31 ≤ n ∧ n < 2 ^ 31 := by
  constructor
  · intro h
    exact ⟨h ▸ (Int32.ofInt n).le_toInt, h ▸ (Int32.ofInt n).toInt_lt⟩
  · rintro ⟨hlow, hhigh⟩
    exact Int32.toInt_ofInt_of_le hlow hhigh

/-- A number of rows that is reported right. -/
theorem toInt_ofInt_natCast_iff (n : Nat) : (Int32.ofInt n).toInt = n ↔ n < 2 ^ 31 := by
  rw [toInt_ofInt_iff]
  constructor
  · rintro ⟨_, hhigh⟩
    exact_mod_cast hhigh
  · intro h
    exact ⟨Int.le_trans (by decide) (Int.natCast_nonneg n), by exact_mod_cast h⟩

/-- Tables can have any number of rows. -/
theorem exists_rows (n : Nat) : ∃ t : Table, t.Proper ∧ t.data.length = n ∧
    ∀ d ∈ t.data, (∀ c ∈ d.key.toList, c = 'k') ∧ d.key.toList.length < n := by
  induction n with
  | zero =>
      refine ⟨{ tableName := "T" }, ⟨⟨fun field => rfl, fun d hd => ?_⟩, PositionIndex.indexes_nil _⟩,
        rfl, fun d hd => ?_⟩
      · contradiction
      · contradiction
  | succ n ih =>
      obtain ⟨t, h, hlen, hkeys⟩ := ih
      let row : Datum := ⟨String.ofList (List.replicate n 'k'), List.replicate t.fields.length 0⟩
      have hnew : t.keyMap.get? row.key = none := by
        refine (h.index.get?_eq_none_iff _).mpr fun d hd heq => ?_
        have hlt := (hkeys d hd).2
        rw [heq] at hlt
        simp [row] at hlt
      refine ⟨_, ⟨h.toFull.insertByIndex List.length_replicate (Table.insertByIndex_eq t hnew row.datum),
        Table.indexed_insert h.index hnew row.datum⟩, by simp [hlen], fun d hd => ?_⟩
      obtain hd | hd := List.mem_append.mp hd
      · exact ⟨(hkeys d hd).1, Nat.lt_succ_of_lt (hkeys d hd).2⟩
      · rw [List.mem_singleton.mp hd]
        refine ⟨fun c hc => ?_, ?_⟩
        · rw [String.toList_ofList] at hc
          exact (List.mem_replicate.mp hc).2
        · simp [row]

/-! ## DELETE -/

/-- The table without the rows that meet the clause. -/
structure Deleted (t : Table) (conds : List QueryCondition) (t' : Table) : Prop where
  name : t'.tableName = t.tableName
  fields : t'.fields = t.fields
  rows : t'.data.Perm (t.data.filter fun d => decide (¬ t.Meets conds d))
  proper : t'.Proper

section

variable {t : Table} {q : ComplexQuery} {database : Database}
  {r : (String × Bool) × List QueryCondition}
  (ht : database.tables.get? q.targetTable = some t) (h : t.Proper)
  (hok : initCondition t "" q.condition = .ok r)

include ht h hok

/-- DELETE on a table that is there, with a clause that can be initialised. -/
theorem delete_eq : q.delete database = (recordCount (t.matching q.condition).length,
    database.setTable q.targetTable (deleteMatching t q.condition).2) := by
  have hspec := deleteMatching_spec h q.condition
  unfold delete writing Database.get
  simp only [ht, pure, Except.pure, executeDelete_eq h.toFull, hok, hspec.1]
  rfl

/-- COUNT on a table that is there, with a clause that can be initialised. -/
theorem count_eq : q.count database =
    (.answer (Int32.ofInt (t.matching q.condition).length), database) := by
  unfold count reading Database.get
  simp only [ht, pure, Except.pure, bind, Except.bind, executeCount_eq h.toFull, hok]

/-- **DELETE takes out exactly the rows that meet the clause**, and reports their
number, which COUNT would have answered, exactly if it fits 32 bits. -/
theorem delete_removes_matching_iff : (∃ t', Deleted t q.condition t' ∧
      (q.delete database).2 = database.setTable q.targetTable t' ∧
      ∃ c : Int32, c.toInt = (t.matching q.condition).length ∧
        (q.delete database).1 = .recordCount c ∧ (q.count database).1 = .answer c) ↔
    (t.matching q.condition).length < 2 ^ 31 := by
  rw [delete_eq ht h hok, count_eq ht h hok, ← toInt_ofInt_natCast_iff]
  constructor
  · rintro ⟨t', _, _, c, hc, hres, _⟩
    rw [recordCount, QueryResult.recordCount.injEq] at hres
    rwa [hres]
  · intro hn
    obtain ⟨_, hname, hfields, hrows, hproper⟩ := deleteMatching_spec h q.condition
    exact ⟨_, ⟨hname, hfields, hrows, hproper⟩, rfl, _, hn, rfl, rfl⟩

end

theorem matching_nil (t : Table) : t.matching [] = t.data :=
  List.filter_eq_self.mpr fun d _ => decide_eq_true fun cond hcond => by contradiction

/-- One of two rows is taken out. -/
theorem delete_removes_matching_twoRows : ∃ t',
    Deleted twoRows [{ field := "a", op := ">", value := "1" }] t' ∧
    ∃ c : Int32, c.toInt = 1 ∧ (delete ⟨"T", [], [{ field := "a", op := ">", value := "1" }]⟩
      (single twoRows)).1 = .recordCount c := by
  obtain ⟨t', hdel, _, c, hc, hres, _⟩ := (delete_removes_matching_iff
    (q := ⟨"T", [], [{ field := "a", op := ">", value := "1" }]⟩)
    (get?_single twoRows) proper_twoRows rfl).mpr (by decide +kernel)
  have hone : (twoRows.matching [{ field := "a", op := ">", value := "1" }]).length = 1 := by
    decide +kernel
  exact ⟨t', hdel, c, by rw [hc, hone]; rfl, hres⟩

/-- The number of rows that is reported has 32 bits. -/
theorem not_delete_removes_matching : ¬ ∀ (database : Database) (q : ComplexQuery) (t : Table)
    (r : (String × Bool) × List QueryCondition),
    database.tables.get? q.targetTable = some t → t.Proper →
    initCondition t "" q.condition = .ok r →
    ∃ t', Deleted t q.condition t' ∧
      (q.delete database).2 = database.setTable q.targetTable t' ∧
      ∃ c : Int32, c.toInt = (t.matching q.condition).length ∧
        (q.delete database).1 = .recordCount c ∧ (q.count database).1 = .answer c := by
  intro hall
  obtain ⟨t, h, hlen, _⟩ := exists_rows (2 ^ 31)
  obtain ⟨_, _, _, c, hc, _⟩ := hall (single t) ⟨"T", [], []⟩ t _ (get?_single t) h rfl
  have hlt := c.toInt_lt
  rw [hc, matching_nil, hlen] at hlt
  exact absurd hlt (by decide)

/-! ## DUPLICATE -/

/-- The table with the copies behind its rows. -/
structure Duplicated (t : Table) (conds : List QueryCondition) (t' : Table) : Prop where
  name : t'.tableName = t.tableName
  fields : t'.fields = t.fields
  rows : t'.data = t.data ++ (copied t conds).map copyRow
  proper : t'.Proper

section

variable {t : Table} {q : ComplexQuery} {database : Database}
  {r : (String × Bool) × List QueryCondition}
  (hop : q.operands = []) (ht : database.tables.get? q.targetTable = some t) (h : t.Proper)
  (hok : initCondition t "" q.condition = .ok r)

include hop ht h hok

/-- DUPLICATE on a table that is there, with a clause that can be initialised. -/
theorem duplicate_eq : q.duplicate database = (recordCount (copied t q.condition).length,
    database.setTable q.targetTable (duplicateMatching t q.condition).2) := by
  have hspec := duplicateMatching_spec h q.condition
  unfold duplicate withOperands writing Database.get
  simp only [hop, ht, pure, Except.pure, executeDuplicate_eq h, hok, hspec.1]
  rfl

/-- **DUPLICATE adds exactly the missing copies**, and reports their number, exactly
if it fits 32 bits. -/
theorem duplicate_adds_copies_iff : (∃ t', Duplicated t q.condition t' ∧
      (q.duplicate database).2 = database.setTable q.targetTable t' ∧
      ∃ c : Int32, c.toInt = (copied t q.condition).length ∧
        (q.duplicate database).1 = .recordCount c) ↔
    (copied t q.condition).length < 2 ^ 31 := by
  rw [duplicate_eq hop ht h hok, ← toInt_ofInt_natCast_iff]
  constructor
  · rintro ⟨t', _, _, c, hc, hres⟩
    rw [recordCount, QueryResult.recordCount.injEq] at hres
    rwa [hres]
  · intro hn
    obtain ⟨_, hname, hfields, hrows, hproper⟩ := duplicateMatching_spec h q.condition
    exact ⟨_, ⟨hname, hfields, hrows, hproper⟩, rfl, _, hn, rfl⟩

end

/-- A DUPLICATE of a table with two rows copies both. -/
theorem duplicate_adds_copies_twoRows : ∃ t', Duplicated twoRows [] t' ∧
    ∃ c : Int32, c.toInt = 2 ∧ (duplicate ⟨"T", [], []⟩
      (single twoRows)).1 = .recordCount c := by
  obtain ⟨t', hdup, _, c, hc, hres⟩ := (duplicate_adds_copies_iff (q := ⟨"T", [], []⟩)
    rfl (get?_single twoRows) proper_twoRows rfl).mpr (by decide +kernel)
  have htwo : (copied twoRows []).length = 2 := by decide +kernel
  exact ⟨t', hdup, c, by rw [hc, htwo]; rfl, hres⟩

/-- The number of copies that is reported has 32 bits, too. -/
theorem not_duplicate_adds_copies : ¬ ∀ (database : Database) (q : ComplexQuery) (t : Table)
    (r : (String × Bool) × List QueryCondition), q.operands = [] →
    database.tables.get? q.targetTable = some t → t.Proper →
    initCondition t "" q.condition = .ok r →
    ∃ t', Duplicated t q.condition t' ∧
      (q.duplicate database).2 = database.setTable q.targetTable t' ∧
      ∃ c : Int32, c.toInt = (copied t q.condition).length ∧
        (q.duplicate database).1 = .recordCount c := by
  intro hall
  obtain ⟨t, h, hlen, hkeys⟩ := exists_rows (2 ^ 31)
  obtain ⟨_, _, _, c, hc, _⟩ := hall (single t) ⟨"T", [], []⟩ t _ rfl (get?_single t) h rfl
  -- no key ends as the key of a copy does
  have hcopied : copied t [] = t.data := by
    rw [copied, matching_nil]
    refine List.filter_eq_self.mpr fun d _ => decide_eq_true fun d' hd' heq => ?_
    have hy : 'y' ∈ d'.key.toList := by
      rw [heq, copyRow, String.toList_append]
      exact List.mem_append_right _ (by decide)
    exact absurd ((hkeys d' hd').1 'y' hy) (by decide)
  have hlt := c.toInt_lt
  rw [hc, hcopied, hlen] at hlt
  exact absurd hlt (by decide)

end LemonDB
