import LemonDB.Query.Matching
import Mathlib.Data.List.Sort
import Mathlib.Data.String.Basic

/-!
# LemonDB.Query.RowOrder

The answer to a data query, and the rows that it leaves, do not depend on the
order in which the rows are stored.

The closed forms of the queries (`LemonDB.Query.Matching`) use the rows that meet
the clause only in ways that do not depend on their order: folds whose steps can
be exchanged, maps, and a sort.
-/

namespace LemonDB

open TextStream

/-- The invariant of a table with full rows. -/
structure Table.Sound (t : Table) : Prop where
  fieldMap : ∀ field, t.fieldMap.get? field = t.fields.idxOf? field
  index : t.Indexed
  row : ∀ d ∈ t.data, d.datum.length = t.fields.length
  size : t.data.length < 2 ^ 31

/-- A table that represents an abstract one is sound, if its rows are full. -/
theorem Table.Refines.sound {t : Table} {s : TableSpec} (h : t.Refines s)
    (hrow : ∀ d ∈ t.data, d.datum.length = t.fields.length) (hsize : t.data.length < 2 ^ 31) :
    t.Sound where
  fieldMap field := by rw [h.fieldMap, h.fields]
  index := h.index
  row := hrow
  size := hsize

/-- The same table, up to the order of its rows. -/
structure Table.SameRows (t₁ t₂ : Table) : Prop where
  name : t₁.tableName = t₂.tableName
  fields : t₁.fields = t₂.fields
  rows : t₁.data.Perm t₂.data

/-- A sound table is proper: its size is not needed for the closed forms. -/
theorem Table.Sound.proper {t : Table} (s : t.Sound) : t.Proper where
  fieldMap := s.fieldMap
  row := s.row
  index := s.index

namespace ComplexQuery

variable {t₁ t₂ : Table}

/-- The same outcome, up to the order of the rows. -/
def Agree (r₁ r₂ : Outcome) : Prop := r₁.1 = r₂.1 ∧ r₁.2.SameRows r₂.2

/-- Whether a row meets a clause depends on the fields of its table only. -/
theorem meets_congr (hf : t₁.fields = t₂.fields) (conds : List QueryCondition) (d : Datum) :
    t₁.Meets conds d ↔ t₂.Meets conds d := by
  unfold Table.Meets Table.Satisfies
  rw [hf]

/-- The rows that meet a clause are the same ones, in another order. -/
theorem matching_perm (h : t₁.SameRows t₂) (conds : List QueryCondition) :
    (t₁.matching conds).Perm (t₂.matching conds) := by
  unfold Table.matching
  simp only [meets_congr h.fields]
  exact h.rows.filter _

section

variable (s₁ : t₁.Sound) (s₂ : t₂.Sound) (h : t₁.SameRows t₂)

include s₁ s₂ h

/-- Two sound tables with the same fields find a field at the same place. -/
theorem getFieldIndex_eq (field : String) : t₁.getFieldIndex field = t₂.getFieldIndex field := by
  unfold Table.getFieldIndex
  rw [s₁.fieldMap, s₂.fieldMap, h.fields]

theorem getFieldIndex_funext : t₁.getFieldIndex = t₂.getFieldIndex :=
  funext (getFieldIndex_eq s₁ s₂ h)

/-- The initialisation of a clause gives the same conditions on both tables. -/
theorem initCondition_eq (key : String) (conds : List QueryCondition) :
    initCondition t₁ key conds = initCondition t₂ key conds := by
  induction conds generalizing key with
  | nil => rfl
  | cons cond conds ih => simp only [initCondition, ih, getFieldIndex_eq s₁ s₂ h]

/-- A key is live in both tables or in none. -/
theorem get?_keyMap_eq_none_iff (key : String) :
    t₁.keyMap.get? key = none ↔ t₂.keyMap.get? key = none := by
  rw [s₁.index.get?_eq_none_iff, s₂.index.get?_eq_none_iff]
  exact forall_congr' fun d => by rw [h.rows.mem_iff]

/-! ## queries that change cells -/

/-- A change of cells that depends on the row only leaves the same rows. -/
theorem agree_updateCells (q : ComplexQuery) (cells : Except DbError (Datum → List Int32)) :
    Agree (q.updateCells t₁ cells) (q.updateCells t₂ cells) := by
  cases cells with
  | error e => exact ⟨rfl, h⟩
  | ok u =>
      unfold updateCells updateMatching
      rw [← initCondition_eq s₁ s₂ h]
      cases initCondition t₁ "" q.condition with
      | error e => exact ⟨rfl, h⟩
      | ok r =>
          refine ⟨by simp only [(matching_perm h q.condition).length_eq], h.name, h.fields, ?_⟩
          simp only [Table.mapMatching, meets_congr h.fields]
          exact h.rows.map _

/-- ADD answers alike on both tables, and leaves the same rows. -/
theorem agree_executeAdd (q : ComplexQuery) : Agree (q.executeAdd t₁) (q.executeAdd t₂) := by
  have hcells : addCells t₁ q.operands = addCells t₂ q.operands := by
    unfold addCells
    rw [getFieldIndex_funext s₁ s₂ h]
  rw [executeAdd_eq s₁.proper.toFull, executeAdd_eq s₂.proper.toFull, hcells]
  exact agree_updateCells s₁ s₂ h q _

/-- SUB answers alike on both tables, and leaves the same rows. -/
theorem agree_executeSub (q : ComplexQuery) (hop : 2 ≤ q.operands.length) :
    Agree (q.executeSub t₁) (q.executeSub t₂) := by
  have hcells : subCells t₁ q.operands = subCells t₂ q.operands := by
    unfold subCells
    rw [getFieldIndex_funext s₁ s₂ h]
  rw [executeSub_eq s₁.proper.toFull q hop, executeSub_eq s₂.proper.toFull q hop, hcells]
  exact agree_updateCells s₁ s₂ h q _

/-- SWAP answers alike on both tables, and leaves the same rows. -/
theorem agree_executeSwap (q : ComplexQuery) : Agree (q.executeSwap t₁) (q.executeSwap t₂) := by
  by_cases hop : ∃ field1 field2, q.operands = [field1, field2]
  · obtain ⟨field1, field2, hop⟩ := hop
    have hcells : swapCells t₁ field1 field2 = swapCells t₂ field1 field2 := by
      unfold swapCells
      rw [getFieldIndex_funext s₁ s₂ h]
    rw [executeSwap_eq s₁.proper.toFull hop, executeSwap_eq s₂.proper.toFull hop, hcells]
    exact agree_updateCells s₁ s₂ h q _
  · unfold executeSwap
    split
    · next field1 field2 heq => exact absurd ⟨field1, field2, heq⟩ hop
    · exact ⟨rfl, h⟩

/-- UPDATE of a field answers alike on both tables, and leaves the same rows. -/
theorem agree_executeUpdate (q : ComplexQuery) (hkey : q.operands.getD 0 "" ≠ "KEY") :
    Agree (q.executeUpdate t₁) (q.executeUpdate t₂) := by
  have hcells : assignCell t₁ q.operands = assignCell t₂ q.operands := by
    unfold assignCell
    rw [getFieldIndex_funext s₁ s₂ h]
  rw [executeUpdate_eq s₁.proper.toFull hkey, executeUpdate_eq s₂.proper.toFull hkey, hcells]
  exact agree_updateCells s₁ s₂ h q _

/-! ## queries that add or remove rows -/

/-- INSERT finds its key in both tables or in none. -/
theorem agree_executeInsert (q : ComplexQuery) :
    Agree (q.executeInsert t₁) (q.executeInsert t₂) := by
  have hlive := get?_keyMap_eq_none_iff s₁ s₂ h (q.operands.headD "")
  unfold executeInsert
  cases hk : t₁.keyMap.get? (q.operands.headD "") with
  | none =>
      rw [Table.insertByIndex_eq t₁ hk, Table.insertByIndex_eq t₂ (hlive.mp hk)]
      exact ⟨rfl, { h with rows := h.rows.append_right _ }⟩
  | some i =>
      cases hk₂ : t₂.keyMap.get? (q.operands.headD "") with
      | none => rw [hlive.mpr hk₂] at hk; contradiction
      | some j =>
          simp only [Table.insertByIndex, hk, hk₂, h.name]
          exact ⟨rfl, h⟩

/-- DELETE removes the same rows. -/
theorem agree_executeDelete (q : ComplexQuery) :
    Agree (q.executeDelete t₁) (q.executeDelete t₂) := by
  rw [executeDelete_eq s₁.proper.toFull, executeDelete_eq s₂.proper.toFull,
    ← initCondition_eq s₁ s₂ h]
  cases initCondition t₁ "" q.condition with
  | error e => exact ⟨rfl, h⟩
  | ok r =>
      obtain ⟨hcount₁, hname₁, hfields₁, hdata₁, _⟩ := deleteMatching_spec s₁.proper q.condition
      obtain ⟨hcount₂, hname₂, hfields₂, hdata₂, _⟩ := deleteMatching_spec s₂.proper q.condition
      refine ⟨?_, ?_, ?_, ?_⟩
      · simp only [hcount₁, hcount₂, (matching_perm h q.condition).length_eq]
      · exact hname₁.trans (h.name.trans hname₂.symm)
      · exact hfields₁.trans (h.fields.trans hfields₂.symm)
      · simp only [meets_congr h.fields] at hdata₁
        exact hdata₁.trans ((h.rows.filter _).trans hdata₂.symm)

/-- DUPLICATE copies the same rows, since a copy is made where its key is free. -/
theorem agree_executeDuplicate (q : ComplexQuery) :
    Agree (q.executeDuplicate t₁) (q.executeDuplicate t₂) := by
  rw [executeDuplicate_eq s₁.proper, executeDuplicate_eq s₂.proper, ← initCondition_eq s₁ s₂ h]
  cases initCondition t₁ "" q.condition with
  | error e => exact ⟨rfl, h⟩
  | ok r =>
      obtain ⟨hcount₁, hname₁, hfields₁, hdata₁, _⟩ := duplicateMatching_spec s₁.proper q.condition
      obtain ⟨hcount₂, hname₂, hfields₂, hdata₂, _⟩ := duplicateMatching_spec s₂.proper q.condition
      have hperm : (copied t₁ q.condition).Perm (copied t₂ q.condition) := by
        unfold copied
        simp only [h.rows.mem_iff]
        exact (matching_perm h q.condition).filter _
      refine ⟨?_, ?_, ?_, ?_⟩
      · simp only [hcount₁, hcount₂, hperm.length_eq]
      · exact hname₁.trans (h.name.trans hname₂.symm)
      · exact hfields₁.trans (h.fields.trans hfields₂.symm)
      · rw [hdata₁, hdata₂]
        exact h.rows.append (hperm.map _)

/-! ## queries that read -/

/-- COUNT gives the same number. -/
theorem executeCount_congr (q : ComplexQuery) : q.executeCount t₁ = q.executeCount t₂ := by
  rw [executeCount_eq s₁.proper.toFull, executeCount_eq s₂.proper.toFull,
    ← initCondition_eq s₁ s₂ h, (matching_perm h q.condition).length_eq]

/-- SUM gives the same sums: addition forgets the order. -/
theorem executeSum_congr (q : ComplexQuery) : q.executeSum t₁ = q.executeSum t₂ := by
  have hsum : columnSum (t₁.matching q.condition) = columnSum (t₂.matching q.condition) := by
    funext i
    exact (matching_perm h q.condition).foldl_eq' (fun x _ y _ z => by omega) 0
  rw [executeSum_eq s₁.proper.toFull, executeSum_eq s₂.proper.toFull,
    ← initCondition_eq s₁ s₂ h, ← getFieldIndex_funext s₁ s₂ h, hsum]

/-- MIN and MAX give the same values, if their comparison forgets the order of two rows. -/
theorem executeExtremum_congr (q : ComplexQuery) {better : Int32 → Int32 → Bool}
    (hcomm : ∀ x y a, (if better y (if better x a then x else a) then y
        else if better x a then x else a) =
      if better x (if better y a then y else a) then x else if better y a then y else a)
    (start : Int32) : q.executeExtremum better start t₁ = q.executeExtremum better start t₂ := by
  have hcolumn : columnExtremum better start (t₁.matching q.condition) =
      columnExtremum better start (t₂.matching q.condition) := by
    funext i
    exact (matching_perm h q.condition).foldl_eq' (fun x _ y _ z => hcomm _ _ z) start
  rw [executeExtremum_eq s₁.proper.toFull, executeExtremum_eq s₂.proper.toFull,
    ← initCondition_eq s₁ s₂ h, ← getFieldIndex_funext s₁ s₂ h, hcolumn,
    (matching_perm h q.condition).length_eq]

omit s₁ s₂ h in
/-- Sorting forgets the order. -/
theorem mergeSort_eq_of_perm {l₁ l₂ : List String} (hp : l₁.Perm l₂) :
    l₁.mergeSort (fun a b => decide (a ≤ b)) = l₂.mergeSort fun a b => decide (a ≤ b) := by
  have hsorted : ∀ l : List String, (l.mergeSort fun a b => decide (a ≤ b)).Pairwise (· ≤ ·) := by
    intro l
    have hl := @List.pairwise_mergeSort _ (fun a b : String => decide (a ≤ b))
      (fun a b c hab hbc => by simp at *; exact le_trans hab hbc)
      (fun a b => by simpa using le_total a b) l
    simpa using hl
  refine List.Perm.eq_of_pairwise (fun a b _ _ hab hba => le_antisymm hab hba)
    (hsorted l₁) (hsorted l₂) ?_
  exact (List.mergeSort_perm l₁ _).trans (hp.trans (List.mergeSort_perm l₂ _).symm)

/-- SELECT gives the same lines, since it sorts them. -/
theorem executeSelect_congr (q : ComplexQuery) : q.executeSelect t₁ = q.executeSelect t₂ := by
  have hsel : ∀ ids, selection ((t₁.matching q.condition).map (line ids)) =
      selection ((t₂.matching q.condition).map (line ids)) := fun ids => by
    unfold selection
    rw [mergeSort_eq_of_perm ((matching_perm h q.condition).map (line ids))]
  rw [executeSelect_eq s₁.proper.toFull, executeSelect_eq s₂.proper.toFull,
    ← initCondition_eq s₁ s₂ h, ← getFieldIndex_funext s₁ s₂ h]
  simp only [hsel]

end

end ComplexQuery

/-! ## execution -/

open ComplexQuery

/-- The results agree, and the target tables have the same rows. -/
def SameAnswer (table : String) (r₁ r₂ : QueryResult × Database) : Prop :=
  r₁.1 = r₂.1 ∧ ∃ t₁ t₂, r₁.2.tables.get? table = some t₁ ∧ r₂.2.tables.get? table = some t₂ ∧
    t₁.SameRows t₂

section

variable {t₁ t₂ : Table} {q : ComplexQuery} {db₁ db₂ : Database}
  (h₁ : db₁.tables.get? q.targetTable = some t₁) (h₂ : db₂.tables.get? q.targetTable = some t₂)
  (h : t₁.SameRows t₂)

include h₁ h₂ h

/-- Two runs that compute the same from their tables answer alike. -/
theorem sameAnswer_reading (handlers : Handlers) {f : Table → Except DbError QueryResult}
    (hf : f t₁ = f t₂) :
    SameAnswer q.targetTable (q.reading handlers db₁ f) (q.reading handlers db₂ f) := by
  unfold reading Database.get
  simp only [h₁, h₂, bind, Except.bind, pure, Except.pure, hf]
  cases f t₂ <;> exact ⟨rfl, t₁, t₂, h₁, h₂, h⟩

omit h in
/-- Two runs whose outcomes agree answer alike. -/
theorem sameAnswer_writing (handlers : Handlers) {f : Table → Outcome}
    (hf : Agree (f t₁) (f t₂)) :
    SameAnswer q.targetTable (q.writing handlers db₁ f) (q.writing handlers db₂ f) := by
  obtain ⟨hres, hrows⟩ := hf
  unfold writing Database.get
  simp only [h₁, h₂, pure, Except.pure, hres]
  cases (f t₂).1 <;>
    exact ⟨rfl, _, _, FiniteMap.get?_set_self _ _ _, FiniteMap.get?_set_self _ _ _, hrows⟩

theorem sameAnswer_withOperands {qname format : String} {ok : Bool}
    {run₁ run₂ : QueryResult × Database}
    (hrun : ok = true → SameAnswer q.targetTable run₁ run₂) :
    SameAnswer q.targetTable (q.withOperands qname format ok db₁ run₁)
      (q.withOperands qname format ok db₂ run₂) := by
  unfold withOperands
  cases ok with
  | false => exact ⟨rfl, t₁, t₂, h₁, h₂, h⟩
  | true => exact hrun rfl

end

/-- Two steps of the search for a maximum can be exchanged. -/
theorem max_comm_of_gt (x y a : Int32) : (if decide (y > if decide (x > a) then x else a) then y
    else if decide (x > a) then x else a) = if decide (x > if decide (y > a) then y else a) then x
    else if decide (y > a) then y else a := by
  simp only [decide_eq_true_eq, gt_iff_lt, Int32.lt_iff_toInt_lt]
  grind [Int32.toInt_inj]

/-- Two steps of the search for a minimum can be exchanged. -/
theorem min_comm_of_lt (x y a : Int32) : (if decide (y < if decide (x < a) then x else a) then y
    else if decide (x < a) then x else a) = if decide (x < if decide (y < a) then y else a) then x
    else if decide (y < a) then y else a := by
  simp only [decide_eq_true_eq, Int32.lt_iff_toInt_lt]
  grind [Int32.toInt_inj]

/-- **Row order**: on two tables with the same rows in different orders, a data
query gives the same result and leaves the same rows. -/
theorem answer_of_sameRows {query : Query} (hq : query.isRowQuery = true) {w₁ w₂ : World}
    {t₁ t₂ : Table} (h₁ : w₁.database.tables.get? query.table = some t₁)
    (h₂ : w₂.database.tables.get? query.table = some t₂) (s₁ : t₁.Sound) (s₂ : t₂.Sound)
    (h : t₁.SameRows t₂) :
    (query.execute w₁).1 = (query.execute w₂).1 ∧
    ∃ t₁' t₂', (query.execute w₁).2.database.tables.get? query.table = some t₁' ∧
      (query.execute w₂).2.database.tables.get? query.table = some t₂' ∧ t₁'.SameRows t₂' := by
  cases query with
  | insert q =>
      exact sameAnswer_withOperands h₁ h₂ h fun _ =>
        sameAnswer_writing h₁ h₂ _ (agree_executeInsert s₁ s₂ h q)
  | update q =>
      exact sameAnswer_withOperands h₁ h₂ h fun _ =>
        sameAnswer_writing h₁ h₂ _ (agree_executeUpdate s₁ s₂ h q (Query.operand_of_isRowQuery hq))
  | select q =>
      refine sameAnswer_withOperands h₁ h₂ h fun _ => ?_
      split
      · exact ⟨rfl, t₁, t₂, h₁, h₂, h⟩
      · exact sameAnswer_reading h₁ h₂ h _ (executeSelect_congr s₁ s₂ h q)
  | delete q => exact sameAnswer_writing h₁ h₂ _ (agree_executeDelete s₁ s₂ h q)
  | duplicate q =>
      exact sameAnswer_withOperands h₁ h₂ h fun _ =>
        sameAnswer_writing h₁ h₂ _ (agree_executeDuplicate s₁ s₂ h q)
  | count q => exact sameAnswer_reading h₁ h₂ h _ (executeCount_congr s₁ s₂ h q)
  | sum q => exact sameAnswer_reading h₁ h₂ h _ (executeSum_congr s₁ s₂ h q)
  | min q =>
      exact sameAnswer_withOperands h₁ h₂ h fun _ =>
        sameAnswer_reading h₁ h₂ h _ (executeExtremum_congr s₁ s₂ h q min_comm_of_lt _)
  | max q =>
      exact sameAnswer_withOperands h₁ h₂ h fun _ =>
        sameAnswer_reading h₁ h₂ h _ (executeExtremum_congr s₁ s₂ h q max_comm_of_gt _)
  | add q =>
      exact sameAnswer_withOperands h₁ h₂ h fun _ =>
        sameAnswer_writing h₁ h₂ _ (agree_executeAdd s₁ s₂ h q)
  | sub q =>
      exact sameAnswer_withOperands h₁ h₂ h fun hop =>
        sameAnswer_writing h₁ h₂ _ (agree_executeSub s₁ s₂ h q (of_decide_eq_true hop))
  | swap q => exact sameAnswer_writing h₁ h₂ _ (agree_executeSwap s₁ s₂ h q)
  | _ => contradiction

/-- A sum over two rows that were inserted in different orders. -/
theorem answer_of_sameRows_sum : ∃ t₁ t₂ : Table, t₁.data ≠ t₂.data ∧ t₁.SameRows t₂ ∧
    ((Query.sum ⟨"T", ["a"], []⟩).execute ⟨⟨(∅ : FiniteMap String Table).set "T" t₁⟩, ∅,
      fun _ => true⟩).1 =
    ((Query.sum ⟨"T", ["a"], []⟩).execute ⟨⟨(∅ : FiniteMap String Table).set "T" t₂⟩, ∅,
      fun _ => true⟩).1 := by
  obtain ⟨t, ht⟩ : ∃ t, Table.create "T" ["a"] = .ok t := ⟨_, rfl⟩
  have h₁ := ((Table.refines_create ht).runAll
    [.insertByIndex "x" [1], .insertByIndex "y" [2]]).2
  have h₂ := ((Table.refines_create ht).runAll
    [.insertByIndex "y" [2], .insertByIndex "x" [1]]).2
  have hsame : (t.runAll [.insertByIndex "x" [1], .insertByIndex "y" [2]]).2.SameRows
      (t.runAll [.insertByIndex "y" [2], .insertByIndex "x" [1]]).2 := by
    cases ht
    exact ⟨rfl, rfl, List.Perm.swap _ _ _⟩
  have s₁ := h₁.sound (by cases ht; decide) (by cases ht; decide)
  have s₂ := h₂.sound (by cases ht; decide) (by cases ht; decide)
  refine ⟨_, _, by cases ht; decide, hsame, ?_⟩
  exact (answer_of_sameRows rfl (FiniteMap.get?_set_self _ _ _) (FiniteMap.get?_set_self _ _ _)
    s₁ s₂ hsame).1

end LemonDB
