import LemonDB.Db.TableMap
import LemonDB.Query.EveryTable

/-!
# LemonDB.Query.FullRows

Tables stay rectangular, as long as INSERT is given rectangular rows.

LOAD reads as many values for each row as there are fields, COPYTABLE copies,
DUPLICATE adds a row that exists, and no update changes the length of a row.
INSERT adds the values that it is given, however many there are; only this case
needs a condition (`InsertsFullRow`).
-/

namespace LemonDB

open TextStream

namespace Table

/-- Every row has one value for each field, and the field map finds the
fields. -/
structure Full (t : Table) : Prop where
  fieldMap : ∀ field, t.fieldMap.get? field = t.fields.idxOf? field
  row : ∀ d ∈ t.data, d.datum.length = t.fields.length

variable {t t' : Table}

/-! ## what full rows are good for -/

/-- A full table is printed without reading past the end of a row. -/
theorem Full.text (h : t.Full) : ∃ text, t.text = some text := by
  have hrows : ∀ l : List Datum, (∀ d ∈ l, d.datum.length = t.fields.length) →
      ∃ rows, l.mapM (rowText t.fields.length) = some rows := by
    intro l
    induction l with
    | nil => exact fun _ => ⟨[], rfl⟩
    | cons d l ih =>
        intro hl
        obtain ⟨rows, hrows⟩ := ih fun d hd => hl d (List.mem_cons_of_mem _ hd)
        have hd := hl d List.mem_cons_self
        exact ⟨_, by rw [List.mapM_cons, rowText, if_pos (by omega), hrows]; rfl⟩
  obtain ⟨rows, hrows⟩ := hrows t.data h.row
  exact ⟨_, by rw [Table.text, hrows]; rfl⟩

/-- The field with this index is in reach. -/
theorem Full.get_index (h : t.Full) {d : Datum} (hd : d ∈ t.data) {i : Nat}
    (hi : i < t.fields.length) : ∃ v, t.get d.datum (.index i) = .ok v := by
  rw [← h.row d hd] at hi
  exact ⟨_, by rw [Table.get, cell, if_pos hi]; rfl⟩

/-- The field with this name is in reach. -/
theorem Full.get_name (h : t.Full) {d : Datum} (hd : d ∈ t.data) {field : String}
    (hf : field ∈ t.fields) : ∃ v, t.get d.datum (.name field) = .ok v := by
  obtain ⟨i, hi⟩ := Option.isSome_iff_exists.mp (List.isSome_idxOf?.mpr hf)
  have hlt : i < d.datum.length := by
    rw [h.row d hd]
    exact (List.idxOf?_eq_some_iff.mp hi).1
  exact ⟨_, by rw [Table.get, cell, h.fieldMap, hi, Option.filter_some, if_pos (by simpa)]; rfl⟩

/-! ## operations on a table -/

/-- Rows that come from a full table are full. -/
theorem Full.of_subset (h : t.Full) (hfields : t'.fields = t.fields)
    (hmap : t'.fieldMap = t.fieldMap)
    (hdata : ∀ d ∈ t'.data, ∃ d₀ ∈ t.data, d.datum = d₀.datum) : t'.Full where
  fieldMap := by rw [hfields, hmap]; exact h.fieldMap
  row d hd := by
    obtain ⟨d₀, hd₀, hdatum⟩ := hdata d hd
    rw [hfields, hdatum]
    exact h.row d₀ hd₀

/-- A new table has no rows. -/
theorem Full.create {name : String} {fields : List String} (h : create name fields = .ok t) :
    t.Full := by
  have href := refines_create h
  refine ⟨fun f => by rw [href.fieldMap, href.fields], ?_⟩
  obtain ⟨fieldMap, hmap, h⟩ := Except.of_bind_eq_ok h
  rw [← Except.ok.inj h]
  intro d hd
  contradiction

theorem Full.copy (h : t.Full) (name : String) : (t.copy name).Full := ⟨h.fieldMap, h.row⟩

theorem Full.clear (h : t.Full) : t.clear.2.Full :=
  h.of_subset rfl rfl fun _ hd => absurd hd List.not_mem_nil

/-- A new row of the right length keeps the table full. -/
theorem Full.insertByIndex (h : t.Full) {key : String} {data : List Int32}
    (hdata : data.length = t.fields.length) (hok : t.insertByIndex key data = .ok t') :
    t'.Full := by
  obtain ⟨_, rfl⟩ := of_insertByIndex_eq_ok hok
  refine ⟨h.fieldMap, fun d hd => ?_⟩
  obtain hd | hd := List.mem_append.mp hd
  · exact h.row d hd
  · rw [List.mem_singleton.mp hd]
    exact hdata

/-- An exchange of two places brings no new elements. -/
theorem mem_of_mem_swap {l : List α} {i j : Nat} {x : α} (h : x ∈ PositionIndex.swap l i j) :
    x ∈ l := by
  unfold PositionIndex.swap at h
  split at h
  · next a b ha hb =>
      obtain h | rfl := List.mem_or_eq_of_mem_set h
      · obtain h | rfl := List.mem_or_eq_of_mem_set h
        · exact h
        · exact List.mem_of_getElem? hb
      · exact List.mem_of_getElem? ha
  · exact h

/-- A deletion moves the last row and drops it. -/
theorem Full.deleteByIndex (h : t.Full) {key : String} {deleted : Bool}
    (hok : t.deleteByIndex key = .ok (deleted, t')) : t'.Full := by
  unfold Table.deleteByIndex at hok
  split at hok
  · cases hok
    exact h
  · split at hok
    · contradiction
    · cases hok
      dsimp only
      split
      · exact h.of_subset rfl rfl fun d hd =>
          ⟨d, mem_of_mem_swap (List.mem_of_mem_dropLast hd), rfl⟩
      · exact h.of_subset rfl rfl fun d hd => ⟨d, List.mem_of_mem_dropLast hd, rfl⟩

/-- A copy is as long as the row that it is taken from. -/
theorem Full.duplicateByKey (h : t.Full) {src dst : String} {duplicated : Bool}
    (hok : t.duplicateByKey src dst = .ok (duplicated, t')) : t'.Full := by
  unfold Table.duplicateByKey at hok
  split at hok
  · cases hok
    exact h
  · cases hok
    exact h
  · split at hok
    · contradiction
    · next srcDatum hget =>
        obtain ⟨t₁, hins, hok⟩ := Except.of_bind_eq_ok hok
        cases hok
        exact h.insertByIndex (h.row srcDatum (List.mem_of_getElem? hget)) hins

/-- A row may be replaced by one of the right length. -/
theorem Full.modifyRow (h : t.Full) {it : Nat} {datum : List Int32}
    (hdatum : datum.length = t.fields.length) : (t.modifyRow it datum).Full where
  fieldMap := h.fieldMap
  row d hd := by
    obtain ⟨i, hi⟩ := List.mem_iff_getElem?.mp hd
    change (t.data.modify it _)[i]? = some d at hi
    rw [List.getElem?_modify] at hi
    obtain ⟨d₀, hd₀, rfl⟩ := Option.map_eq_some_iff.mp hi
    split
    · exact hdatum
    · exact h.row d₀ (List.mem_of_getElem? hd₀)

end Table

/-! ## data queries -/

namespace ComplexQuery

variable {t : Table}

/-- As many new values keep the rows full. -/
theorem full_keptByValues : KeptByValues Table.Full :=
  fun _ _ obj _ h hobj hlen => h.modifyRow (hlen.trans (h.row obj hobj))

/-- A new key leaves the values alone. -/
theorem full_setKey {t t' : Table} {it : Nat} {obj : Datum} {key : String} (h : t.Full)
    (hok : setKey t it obj key = .ok t') : t'.Full := by
  unfold setKey at hok
  split at hok
  · contradiction
  · rw [← Except.ok.inj hok]
    refine h.of_subset rfl rfl fun d hd => ?_
    obtain ⟨i, hi⟩ := List.mem_iff_getElem?.mp hd
    rw [List.getElem?_modify] at hi
    obtain ⟨d₀, hd₀, rfl⟩ := Option.map_eq_some_iff.mp hi
    refine ⟨d₀, List.mem_of_getElem? hd₀, ?_⟩
    split <;> rfl

/-- UPDATE changes cells or keys. -/
theorem full_executeUpdate (q : ComplexQuery) (h : t.Full) : (q.executeUpdate t).2.Full := by
  unfold executeUpdate
  dsimp only
  split
  · exact h
  · refine q.updateRows_induction (fun t it obj t' ht hobj hok => ?_) h
    split at hok
    · exact full_keptByValues.putCell ht hobj hok
    · exact full_setKey ht hok

/-- An INSERT of as many values as there are fields. -/
theorem full_executeInsert (q : ComplexQuery) (h : t.Full)
    (hwidth : t.keyMap.get? (q.operands.headD "") = none →
      q.operands.tail.length = t.fields.length) : (q.executeInsert t).2.Full := by
  unfold executeInsert
  split
  · exact h
  · next t' hok =>
      refine h.insertByIndex ?_ hok
      rw [List.length_map]
      exact hwidth (Table.of_insertByIndex_eq_ok hok).1

/-- DELETE only takes rows away. -/
theorem full_executeDelete (q : ComplexQuery) (h : t.Full) : (q.executeDelete t).2.Full :=
  q.executeDelete_induction (fun _ _ _ _ ht hok => ht.deleteByIndex hok) h

/-- DUPLICATE only adds rows as long as those that exist. -/
theorem full_executeDuplicate (q : ComplexQuery) (h : t.Full) : (q.executeDuplicate t).2.Full :=
  q.executeDuplicate_induction (fun _ _ _ _ _ ht hok => ht.duplicateByKey hok) h

end ComplexQuery

/-! ## executions -/

/-- Every table of the database is full. -/
abbrev Database.Rectangular (database : Database) : Prop :=
  database.Every fun _ t => t.Full

namespace Database

variable {database database' : Database}

/-! ### reading a file -/

theorem orThrow_eq_ok {what : String} {o : Option α} {a : α} (h : orThrow what o = .ok a) :
    o = some a := by
  cases o with
  | none => contradiction
  | some b => exact congrArg some (Except.ok.inj h)

/-- As many field names are read as the header announces. -/
theorem length_readFields : {n : Nat} → {s : Text} → {fields : List String} →
    readFields n s = some fields → fields.length = n
  | 0, _, _, h => by rw [← Option.some.inj h]; rfl
  | n + 1, s, fields, h => by
      obtain ⟨⟨field, s'⟩, _, h⟩ := Option.bind_eq_some_iff.mp h
      obtain ⟨fields', hrec, h⟩ := Option.bind_eq_some_iff.mp h
      rw [← Option.some.inj h, List.length_cons, length_readFields hrec]

/-- As many values are read for a row as it has to have. -/
theorem length_readValues : {n : Nat} → {s : Text} → {values : List Int32} →
    readValues n s = some values → values.length = n
  | 0, _, _, h => by rw [← Option.some.inj h]; rfl
  | n + 1, s, values, h => by
      obtain ⟨⟨value, s'⟩, _, h⟩ := Option.bind_eq_some_iff.mp h
      obtain ⟨values', hrec, h⟩ := Option.bind_eq_some_iff.mp h
      rw [← Option.some.inj h, List.length_cons, length_readValues hrec]

/-- What an insertion of a row with one value less than there are columns keeps, the
reading of the rows keeps. -/
theorem readRows_induction {err : String} {n : Nat} {P : Table → Prop}
    (insert : ∀ t key tuple t', P t → tuple.length = n - 1 → t.insertByIndex key tuple = .ok t' → P t') :
    {ls : List Text} → {count : Nat} → {t t' : Table} → P t → readRows err n count t ls = .ok t' → P t'
  | [], _, _, _, h, hok => Except.ok.inj hok ▸ h
  | [] :: _, _, _, _, h, hok => Except.ok.inj hok ▸ h
  | (c :: l) :: ls, count, t, t', h, hok => by
      unfold readRows at hok
      obtain ⟨⟨key, s⟩, _, hok⟩ := Except.of_bind_eq_ok hok
      obtain ⟨tuple, htuple, hok⟩ := Except.of_bind_eq_ok hok
      obtain ⟨t₁, hins, hok⟩ := Except.of_bind_eq_ok hok
      have hlen := length_readValues (orThrow_eq_ok htuple)
      exact readRows_induction insert (insert t _ _ t₁ h hlen hins) hok

/-- The rows of a file are as long as the table has fields. -/
theorem full_readRows {err : String} {n count : Nat} {ls : List Text} {t t' : Table} (h : t.Full)
    (hn : t.fields.length = n - 1) (hok : readRows err n count t ls = .ok t') : t'.Full := by
  refine (readRows_induction (P := fun t => t.Full ∧ t.fields.length = n - 1) ?_ ⟨h, hn⟩ hok).1
  intro t key tuple t' ⟨h, hn⟩ hlen hins
  have h' := h.insertByIndex (hlen.trans hn.symm) hins
  obtain ⟨_, rfl⟩ := Table.of_insertByIndex_eq_ok hins
  exact ⟨h', hn⟩

/-- A LOAD brings in a table with full rows. -/
theorem rectangular_loadTableFromStream (h : database.Rectangular) {text : Text} {source : String}
    (hok : database.loadTableFromStream text source = .ok database') : database'.Rectangular := by
  unfold Database.loadTableFromStream at hok
  split at hok
  · contradiction
  · obtain ⟨⟨tableName, s⟩, _, hok⟩ := Except.of_bind_eq_ok hok
    obtain ⟨⟨fieldCount, s'⟩, _, hok⟩ := Except.of_bind_eq_ok hok
    obtain ⟨_, _, hok⟩ := Except.of_bind_eq_ok hok
    split at hok
    · contradiction
    · obtain ⟨fields, hfields, hok⟩ := Except.of_bind_eq_ok hok
      have hcount := length_readFields (orThrow_eq_ok hfields)
      split at hok
      · contradiction
      · next key fields =>
          split at hok
          · contradiction
          · obtain ⟨t, hcreate, hok⟩ := Except.of_bind_eq_ok hok
            obtain ⟨t', hrows, hok⟩ := Except.of_bind_eq_ok hok
            have ht : t.fields.length = fieldCount - 1 := by
              rw [(Table.refines_create hcreate).fields, ← hcount]
              rfl
            exact h.registerTable (full_readRows (Table.Full.create hcreate) ht hrows) hok

end Database

/-- The data of an INSERT. -/
def Query.insert? : Query → Option ComplexQuery
  | .insert q => some q
  | _ => none

/-- An INSERT of a new key into an existing table has one value for each field of
the table.  Without operands it is rejected. -/
def InsertsFullRow (w : World) (query : Query) : Prop :=
  ∀ q ∈ query.insert?, q.operands ≠ [] → ∀ t ∈ w.database.tables.get? q.targetTable,
    t.keyMap.get? (q.operands.headD "") = none → q.operands.tail.length = t.fields.length

instance (w : World) (query : Query) : Decidable (InsertsFullRow w query) :=
  inferInstanceAs (Decidable (∀ q ∈ query.insert?, q.operands ≠ [] →
    ∀ t ∈ w.database.tables.get? q.targetTable, _))

/-- One query keeps the tables rectangular. -/
theorem rectangular_execute {w : World} (h : w.database.Rectangular) (query : Query)
    (hins : InsertsFullRow w query) : (query.execute w).2.database.Rectangular := by
  refine h.execute query (Database.rectangular_loadTableFromStream h) (fun ht => ht.clear)
    (fun newName ht => ht.copy newName) fun q f hf t hget ht => ?_
  cases query with
  | insert q =>
      obtain ⟨hop, heq⟩ := Option.ite_none_right_eq_some.mp hf
      cases heq
      exact q.full_executeInsert ht (hins q rfl hop t hget)
  | update q =>
      obtain ⟨-, heq⟩ := Option.ite_none_right_eq_some.mp hf
      cases heq
      exact q.full_executeUpdate ht
  | delete q =>
      cases hf
      exact q.full_executeDelete ht
  | duplicate q =>
      obtain ⟨-, heq⟩ := Option.ite_none_right_eq_some.mp hf
      cases heq
      exact q.full_executeDuplicate ht
  | add q =>
      obtain ⟨-, heq⟩ := Option.ite_none_right_eq_some.mp hf
      cases heq
      exact ComplexQuery.full_keptByValues.executeAdd q ht
  | sub q =>
      obtain ⟨-, heq⟩ := Option.ite_none_right_eq_some.mp hf
      cases heq
      exact ComplexQuery.full_keptByValues.executeSub q ht
  | swap q =>
      cases hf
      exact ComplexQuery.full_keptByValues.executeSwap q ht
  | _ => contradiction

/-- Every row of every table has as many values as the table has fields, every
table can be printed, and every field of a row be read. -/
def World.RowsReadable (w : World) : Prop :=
  ∀ name t, w.database.tables.get? name = some t →
    (∃ text, t.text = some text) ∧ ∀ d ∈ t.data, d.datum.length = t.fields.length ∧
      (∀ i < t.fields.length, ∃ v, t.get d.datum (.index i) = .ok v) ∧
      ∀ field ∈ t.fields, ∃ v, t.get d.datum (.name field) = .ok v

/-- **Tables stay rectangular** in a session whose INSERTs give full rows. -/
theorem rectangular_run {files : FiniteMap String Text} {writable : String → Bool} {w : World}
    (run : session.Runs InsertsFullRow { files, writable } w) : w.RowsReadable := by
  have hrect : w.database.Rectangular := by
    refine run.invariant (I := fun w => w.database.Rectangular) (fun _ _ h => nomatch h) ?_
    intro t query u ht hins hstep
    rw [world_of_session hstep]
    exact rectangular_execute ht query hins
  intro name t hget
  have ht := hrect name t hget
  exact ⟨ht.text, fun d hd => ⟨ht.row d hd, fun i hi => ht.get_index hd hi,
    fun field hf => ht.get_name hd hf⟩⟩

/-- A file with a table of two fields besides the key. -/
def twoFields : FiniteMap String Text :=
  (∅ : FiniteMap String Text).set "f" "T 3\nKEY a b\nk 1 2\n".toList

/-- A row with both values keeps the table rectangular. -/
theorem rectangular_run_full : ∃ w, session.Runs InsertsFullRow { files := twoFields } w ∧
    (w.database.tables.get? "T").map (·.data.length) = some 2 ∧ w.RowsReadable := by
  obtain ⟨w, run, hw⟩ := session.exists_of_execute InsertsFullRow
    (fun w => (w.database.tables.get? "T").map (·.data.length) = some 2) { files := twoFields }
    [.load "T" "f", .insert { targetTable := "T", operands := ["x", "1", "2"], condition := [] }]
    (by decide +kernel)
  exact ⟨w, run, hw, rectangular_run run⟩

/-- A row with one of the two values is inserted as well. -/
theorem not_rectangular_run : ¬ ∀ (files : FiniteMap String Text) (w : World),
    session.Reachable { files } w → w.RowsReadable := by
  intro h
  obtain ⟨w, run, hw⟩ := session.exists_of_execute (fun _ _ => True)
    (fun w => ∃ t ∈ w.database.tables.get? "T", ∃ d ∈ t.data, d.datum.length ≠ t.fields.length)
    { files := twoFields }
    [.load "T" "f", .insert { targetTable := "T", operands := ["x", "1"], condition := [] }]
    (by decide +kernel)
  obtain ⟨t, ht, d, hd, hlen⟩ := hw
  exact hlen ((h twoFields w run "T" t ht).2 d hd).1

end LemonDB
