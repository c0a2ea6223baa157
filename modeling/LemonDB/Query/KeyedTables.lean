import LemonDB.Query.KeyUpdate
import LemonDB.Query.LoadStream

/-!
# LemonDB.Query.KeyedTables

Over a whole session, each table is a map from keys to rows, under its own name
(`Table.Refines`): what is loaded, copied or changed has one row for each key, and the
key map finds it.  Only an UPDATE of the KEY can end this, by giving one key to two
rows; INSERT and DUPLICATE go through `insertByIndex`, which refuses a key that is
there.
-/

namespace LemonDB

open PositionIndex ComplexQuery

/-! ## tables that represent a map -/

namespace Table

/-- The parts of the representation: the name, the field map and the key map. -/
structure Keyed (name : String) (t : Table) : Prop where
  name : t.tableName = name
  fieldMap : ∀ field, t.fieldMap.get? field = t.fields.idxOf? field
  index : t.Indexed

variable {name : String} {t t' : Table}

/-- The rows as a map. -/
def rows (t : Table) (h : t.Indexed) : AList fun _ : String => List Int32 where
  entries := t.data.map fun d => ⟨d.key, d.datum⟩
  nodupKeys := by
    have hkeys : (t.data.map fun d => (⟨d.key, d.datum⟩ : Sigma fun _ : String => List Int32)).keys =
        t.data.map Datum.key := by
      simp [List.keys, Function.comp_def]
    rw [List.NodupKeys, hkeys]
    exact h.nodup

/-- The rows that the key map finds are those of the map. -/
theorem map_row?_eq_lookup (h : t.Indexed) (key : String) :
    (t.row? key).map Datum.datum = (t.rows h).toFinmap.lookup key := by
  rw [Finmap.lookup_toFinmap]
  refine Option.ext fun row => ?_
  rw [Option.map_eq_some_iff, ← Option.mem_def, AList.mem_lookup_iff]
  constructor
  · intro ⟨d, hrow, hdatum⟩
    obtain ⟨hd, rfl⟩ := (row?_eq_some_iff h key d).mp hrow
    exact List.mem_map.mpr ⟨d, hd, by rw [hdatum]⟩
  · intro hpair
    obtain ⟨d, hd, heq⟩ := List.mem_map.mp hpair
    cases heq
    exact ⟨d, (row?_eq_some_iff h d.key d).mpr ⟨hd, rfl⟩, rfl⟩

/-- A table represents some map if and only if its parts are in order. -/
theorem exists_refines_iff : (∃ s : TableSpec, s.name = name ∧ t.Refines s) ↔ t.Keyed name := by
  constructor
  · intro ⟨s, hname, h⟩
    exact ⟨h.name.trans hname, fun field => by rw [h.fieldMap, h.fields], h.index⟩
  · intro h
    exact ⟨⟨name, t.fields, (t.rows h.index).toFinmap⟩, rfl, h.name, rfl, h.fieldMap, h.index,
      map_row?_eq_lookup h.index⟩

namespace Keyed

/-- A copy has the rows and the key map of the table, under a new name. -/
theorem copy (h : t.Keyed name) (newName : String) : (t.copy newName).Keyed newName :=
  ⟨rfl, h.fieldMap, h.index⟩

theorem clear (h : t.Keyed name) : t.clear.2.Keyed name := ⟨h.name, h.fieldMap, indexes_nil _⟩

/-- New values leave the keys where they are. -/
theorem modifyRow (h : t.Keyed name) (it : Nat) (datum : List Int32) :
    (t.modifyRow it datum).Keyed name :=
  ⟨h.name, h.fieldMap, indexed_modifyRow h.index it datum⟩

/-- An insertion puts the new key into the key map. -/
theorem insertByIndex (h : t.Keyed name) {key : String} {data : List Int32}
    (hok : t.insertByIndex key data = .ok t') : t'.Keyed name := by
  obtain ⟨hnew, rfl⟩ := of_insertByIndex_eq_ok hok
  exact ⟨h.name, h.fieldMap, indexed_insert h.index hnew data⟩

/-- A deletion takes the key out of the key map, and moves the one of the last row. -/
theorem deleteByIndex (h : t.Keyed name) {key : String} {deleted : Bool}
    (hok : t.deleteByIndex key = .ok (deleted, t')) : t'.Keyed name := by
  obtain ⟨t₁, heq, hdel⟩ := removed_of_indexed h.index key
  rw [hok, Except.ok.injEq, Prod.mk.injEq] at heq
  obtain ⟨-, rfl⟩ := heq
  refine ⟨hdel.name.trans h.name, ?_, hdel.index⟩
  rw [hdel.fieldMap, hdel.fields]
  exact h.fieldMap

/-- A copy of a row is an insertion. -/
theorem duplicateByKey (h : t.Keyed name) {src dst : String} {duplicated : Bool}
    (hok : t.duplicateByKey src dst = .ok (duplicated, t')) : t'.Keyed name := by
  unfold Table.duplicateByKey at hok
  split at hok
  · cases hok
    exact h
  · cases hok
    exact h
  · split at hok
    · contradiction
    · obtain ⟨t₁, hins, hok⟩ := Except.of_bind_eq_ok hok
      cases hok
      exact h.insertByIndex hins

end Keyed

end Table

/-! ## data queries -/

namespace ComplexQuery

variable {name : String} {t : Table}

/-- New values keep the key map. -/
theorem keyed_keptByValues : KeptByValues (Table.Keyed name) :=
  fun _ it _ datum h _ _ => h.modifyRow it datum

/-- INSERT keeps the key map. -/
theorem keyed_executeInsert (q : ComplexQuery) (h : t.Keyed name) :
    (q.executeInsert t).2.Keyed name := by
  unfold executeInsert
  split
  · exact h
  · next hok => exact h.insertByIndex hok

/-- DELETE keeps the key map. -/
theorem keyed_executeDelete (q : ComplexQuery) (h : t.Keyed name) :
    (q.executeDelete t).2.Keyed name :=
  q.executeDelete_induction (fun _ _ _ _ ht hok => ht.deleteByIndex hok) h

/-- DUPLICATE keeps the key map. -/
theorem keyed_executeDuplicate (q : ComplexQuery) (h : t.Keyed name) :
    (q.executeDuplicate t).2.Keyed name :=
  q.executeDuplicate_induction (fun _ _ _ _ _ ht hok => ht.duplicateByKey hok) h

/-- An UPDATE of the KEY to a new one; without a new key, a cell is changed. -/
def UpdatesKey (q : ComplexQuery) : Prop :=
  q.operands = ["KEY", q.operands.getD 1 ""] ∧ q.operands.getD 1 "" ≠ ""

instance : DecidablePred UpdatesKey := fun _ => inferInstanceAs (Decidable (_ ∧ _))

/-- At most one row is renamed, to a key that no other row has. -/
def RenamesOneRow (q : ComplexQuery) (t : Table) : Prop :=
  ∀ d ∈ renamed q t, ∀ d' ∈ t.data,
    d'.key = q.operands.getD 1 "" ∨ d' ∈ renamed q t → d' = d

instance (q : ComplexQuery) (t : Table) : Decidable (q.RenamesOneRow t) :=
  inferInstanceAs (Decidable (∀ d ∈ renamed q t, ∀ d' ∈ t.data, _ → _))

/-- Every other UPDATE changes cells only. -/
theorem keyed_executeUpdate_cell (q : ComplexQuery) (hlen : q.operands.length = 2)
    (hkey : ¬ q.UpdatesKey) (h : t.Keyed name) : (q.executeUpdate t).2.Keyed name := by
  obtain ⟨field, v, hop⟩ := List.length_eq_two.mp hlen
  have hempty : field = "KEY" → v = "" := by
    intro hfield
    by_contra hv
    exact hkey ⟨by rw [hop, hfield]; rfl, by rw [hop]; exact hv⟩
  unfold executeUpdate
  simp only [hop, List.getD_cons_zero, List.getD_cons_succ]
  split
  · exact h
  · next keyValue fieldId fieldValue hfields =>
      have hvalue : keyValue = "" := by
        split at hfields
        · next hfield =>
            cases hfields
            exact hempty hfield
        · obtain ⟨id, _, hfields⟩ := Except.of_bind_eq_ok hfields
          cases hfields
          rfl
      refine q.updateRows_induction (fun t it obj t' ht hobj hok => ?_) h
      rw [if_pos hvalue] at hok
      exact keyed_keptByValues.putCell ht hobj hok

/-- An UPDATE of the KEY keeps the name and the fields. -/
theorem keyed_executeUpdate_key (q : ComplexQuery) (hkey : q.UpdatesKey) (h : t.Keyed name)
    (hone : q.RenamesOneRow t) : (q.executeUpdate t).2.Keyed name := by
  have hindex := indexed_executeUpdate hkey.1 hkey.2 h.index hone
  have hheader : (q.executeUpdate t).2.tableName = name ∧
      ∀ field, (q.executeUpdate t).2.fieldMap.get? field =
        (q.executeUpdate t).2.fields.idxOf? field := by
    rw [executeUpdate_key hkey.1 hkey.2]
    refine q.updateRows_induction (P := fun t => t.tableName = name ∧
      ∀ field, t.fieldMap.get? field = t.fields.idxOf? field) ?_ ⟨h.name, h.fieldMap⟩
    intro t it obj t' ht _ hok
    unfold setKey at hok
    split at hok
    · contradiction
    · rw [← Except.ok.inj hok]
      exact ht
  exact ⟨hheader.1, hheader.2, hindex⟩

end ComplexQuery

/-! ## executions -/

/-- Every table is represented under its own name. -/
abbrev Database.Keyed (database : Database) : Prop := database.Every Table.Keyed

/-- A LOAD brings in a table with distinct keys. -/
theorem Database.keyed_loadTableFromStream {database database' : Database} (h : database.Keyed)
    {text : TextStream.Text} {source : String}
    (hok : database.loadTableFromStream text source = .ok database') : database'.Keyed := by
  obtain ⟨_, _, _, t, _, _, hfull, hindex, _, rfl⟩ := LoadStream.described_of_load hok
  exact h.set ⟨rfl, hfull.fieldMap, hindex⟩

/-- The data of an UPDATE. -/
def Query.update? : Query → Option ComplexQuery
  | .update q => some q
  | _ => none

/-- An UPDATE of the KEY renames at most one row, to a key that no other row has. -/
def KeepsKeys (w : World) (query : Query) : Prop :=
  ∀ q ∈ query.update?, q.UpdatesKey → ∀ t ∈ w.database.tables.get? q.targetTable, q.RenamesOneRow t

instance (w : World) (query : Query) : Decidable (KeepsKeys w query) :=
  inferInstanceAs (Decidable (∀ q ∈ query.update?, q.UpdatesKey →
    ∀ t ∈ w.database.tables.get? q.targetTable, q.RenamesOneRow t))

/-- One query keeps the keys. -/
theorem keyed_execute {w : World} (h : w.database.Keyed) (query : Query)
    (hkeys : KeepsKeys w query) : (query.execute w).2.database.Keyed := by
  refine h.execute query (Database.keyed_loadTableFromStream h) (fun ht => ht.clear)
    (fun newName ht => ht.copy newName) fun q f hf t hget ht => ?_
  cases query with
  | insert q =>
      obtain ⟨-, heq⟩ := Option.ite_none_right_eq_some.mp hf
      cases heq
      exact q.keyed_executeInsert ht
  | update q =>
      obtain ⟨hlen, heq⟩ := Option.ite_none_right_eq_some.mp hf
      cases heq
      by_cases hkey : q.UpdatesKey
      · exact q.keyed_executeUpdate_key hkey ht (hkeys q rfl hkey t hget)
      · exact q.keyed_executeUpdate_cell hlen hkey ht
  | delete q =>
      cases hf
      exact q.keyed_executeDelete ht
  | duplicate q =>
      obtain ⟨-, heq⟩ := Option.ite_none_right_eq_some.mp hf
      cases heq
      exact q.keyed_executeDuplicate ht
  | add q =>
      obtain ⟨-, heq⟩ := Option.ite_none_right_eq_some.mp hf
      cases heq
      exact keyed_keptByValues.executeAdd q ht
  | sub q =>
      obtain ⟨-, heq⟩ := Option.ite_none_right_eq_some.mp hf
      cases heq
      exact keyed_keptByValues.executeSub q ht
  | swap q =>
      cases hf
      exact keyed_keptByValues.executeSwap q ht
  | _ => contradiction

/-- Another UPDATE of the KEY gives one key to two rows. -/
theorem renamesOneRow_of_nodup {q : ComplexQuery} {t : Table} (hkey : q.UpdatesKey) (h : t.Indexed)
    (hnodup : ((q.executeUpdate t).2.data.map Datum.key).Nodup) : q.RenamesOneRow t := by
  rw [data_executeUpdate hkey.1 hkey.2 h, List.map_map] at hnodup
  -- a row that is renamed, or had the new key, has it now
  have hnew : ∀ d, d.key = q.operands.getD 1 "" ∨ d ∈ renamed q t →
      (rename (renamed q t) (q.operands.getD 1 "") d).key = q.operands.getD 1 "" := by
    intro d hd
    unfold rename
    split
    · rfl
    · next hnot => exact hd.resolve_right hnot
  have hsub : ∀ d ∈ renamed q t, d ∈ t.data := by
    intro d hd
    unfold renamed at hd
    split at hd
    · exact (scanned_sublist _ _ _).mem hd
    · contradiction
  intro d hd d' hd' hsame
  exact List.inj_on_of_nodup_map hnodup hd' (hsub d hd)
    ((hnew d' hsame).trans (hnew d (.inr hd)).symm)

/-- No other UPDATE of the KEY keeps them. -/
theorem keepsKeys_of_keyed {w : World} (h : w.database.Keyed) {query : Query}
    (hafter : (query.execute w).2.database.Keyed) : KeepsKeys w query := by
  intro q hq hkey t hget
  cases query with
  | update q' =>
      obtain rfl := Option.some.inj hq
      have hafter : (q'.updateQuery w.database).2.Keyed := hafter
      have htable := table_updateQuery hkey.1 hget
      exact renamesOneRow_of_nodup hkey (h _ t hget).index (hafter _ _ htable).index.nodup
  | _ => contradiction

/-- Every table is a map from keys to rows, under its own name. -/
def Database.Represents (database : Database) : Prop :=
  ∀ name t, database.tables.get? name = some t → ∃ s : TableSpec, s.name = name ∧ t.Refines s

/-- The tables are maps if and only if their parts are in order. -/
theorem Database.represents_iff {database : Database} : database.Represents ↔ database.Keyed :=
  forall_congr' fun _ => forall_congr' fun _ => imp_congr_right fun _ => Table.exists_refines_iff

/-- **Tables stay maps**: in a session in which each UPDATE of the KEY renames at most one
row to a key that no other row has, every table represents a map from keys to rows under
its own name; and a next query keeps this if and only if it is no other UPDATE of the
KEY. -/
theorem represents_run {files : FiniteMap String TextStream.Text} {writable : String → Bool}
    {w : World} (run : session.Runs KeepsKeys { files, writable } w) :
    w.database.Represents ∧
      ∀ query, (query.execute w).2.database.Represents ↔ KeepsKeys w query := by
  have hkeyed : w.database.Keyed := by
    refine run.invariant (I := fun w => w.database.Keyed) (fun _ _ h => nomatch h) ?_
    intro t query u ht hkeys hstep
    rw [world_of_session hstep]
    exact keyed_execute ht query hkeys
  refine ⟨Database.represents_iff.mpr hkeyed, fun query => ?_⟩
  rw [Database.represents_iff]
  exact ⟨keepsKeys_of_keyed hkeyed, keyed_execute hkeyed query⟩

/-- A row is duplicated and its copy is renamed; without a clause, the next UPDATE of the
KEY would give one key to both rows. -/
theorem represents_run_rename : ∃ w, session.Runs KeepsKeys { files := twoFields } w ∧
    (w.database.tables.get? "T").map (·.data.map Datum.key) = some ["k", "x"] ∧
    w.database.Represents ∧
    ¬ ((Query.update ⟨"T", ["KEY", "y"], []⟩).execute w).2.database.Represents := by
  obtain ⟨w, run, hw⟩ := session.exists_of_execute KeepsKeys
    (fun w => (w.database.tables.get? "T").map (·.data.map Datum.key) = some ["k", "x"] ∧
      ¬ KeepsKeys w (.update ⟨"T", ["KEY", "y"], []⟩)) { files := twoFields }
    [.load "T" "f", .duplicate ⟨"T", [], []⟩,
     .update ⟨"T", ["KEY", "x"], [{ field := "KEY", op := "=", value := "k_copy" }]⟩]
    (by decide +kernel)
  have h := represents_run run
  exact ⟨w, run, hw.1, h.1, fun hrep => hw.2 ((h.2 _).mp hrep)⟩

end LemonDB
