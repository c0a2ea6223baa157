import LemonDB.Db.Table
import LemonDB.Lib.Except
import Mathlib.Data.Finmap

/-!
# LemonDB.Db.TableMap

What a table is for: a finite map from keys to rows.  Every operation keeps the
key index exact (`Table.Indexed`), and does to the rows what the operation of
the same name does to the map (`Table.Refines.run`).
-/

namespace LemonDB

open PositionIndex

/-! ## the abstract table -/

/-- A table as its user sees it. -/
structure TableSpec where
  name : String
  fields : List String
  rows : Finmap fun _ : String => List Int32

/-- The operations on a table. -/
inductive TableOp where
  | insertByIndex (key : String) (data : List Int32)
  | deleteByIndex (key : String)
  | duplicateByKey (src dst : String)
  | clear
  | copy (name : String)
  | get (key : String) (field : Table.FieldRef)
  | put (key : String) (field : Table.FieldRef) (value : Int32)
  | size

/-- What an operation returns.  `null` is the null pointer that a lookup of an
absent key gives. -/
inductive TableOp.Result where
  | done
  | null
  | flag (b : Bool)
  | count (n : Nat)
  | value (v : Int32)
  | error (e : DbError)
  deriving DecidableEq

namespace TableSpec

/-- The cell of a row with this many values. -/
def cell (s : TableSpec) (datum : List Int32) : Table.FieldRef → Except DbError Nat
  | .name field => match (s.fields.idxOf? field).filter (· < datum.length) with
      | some index => return index
      | none => throw (.tableFieldNotFound (fill "Field name \"?\" doesn't exists." field))
  | .index index =>
      if index < datum.length then return index
      else throw (.tableFieldNotFound (fill "Field index ? out of range." (toString index)))

/-- The operation on the map of rows. -/
def run (s : TableSpec) : TableOp → TableOp.Result × TableSpec
  | .insertByIndex key data =>
      if key ∈ s.rows then (.error (.conflictingKey ("In Table \"" ++ s.name ++ "\" : Key \"" ++
        key ++ "\" already exists!")), s)
      else (.done, { s with rows := s.rows.insert key data })
  | .deleteByIndex key =>
      if key ∈ s.rows then (.flag true, { s with rows := s.rows.erase key }) else (.flag false, s)
  | .duplicateByKey src dst => match s.rows.lookup src with
      | none => (.flag false, s)
      | some row =>
          if dst ∈ s.rows then (.flag false, s)
          else (.flag true, { s with rows := s.rows.insert dst row })
  | .clear => (.count s.rows.keys.card, { s with rows := ∅ })
  | .copy name => (.done, { s with name })
  | .get key field => match s.rows.lookup key with
      | none => (.null, s)
      | some row => match s.cell row field with
          | .ok i => (.value (row.getD i 0), s)
          | .error e => (.error e, s)
  | .put key field value => match s.rows.lookup key with
      | none => (.null, s)
      | some row => match s.cell row field with
          | .ok i => (.done, { s with rows := s.rows.insert key (row.set i value) })
          | .error e => (.error e, s)
  | .size => (.count s.rows.keys.card, s)

/-- A sequence of operations with what they return. -/
def runAll (s : TableSpec) : List TableOp → List TableOp.Result × TableSpec
  | [] => ([], s)
  | op :: ops =>
      let (result, s) := s.run op
      let (results, s) := s.runAll ops
      (result :: results, s)

end TableSpec

namespace Table

/-- The operation on the table. -/
def run (t : Table) : TableOp → TableOp.Result × Table
  | .insertByIndex key data => match t.insertByIndex key data with
      | .ok t => (.done, t)
      | .error e => (.error e, t)
  | .deleteByIndex key => match t.deleteByIndex key with
      | .ok (b, t) => (.flag b, t)
      | .error e => (.error e, t)
  | .duplicateByKey src dst => match t.duplicateByKey src dst with
      | .ok (b, t) => (.flag b, t)
      | .error e => (.error e, t)
  | .clear => (.count t.clear.1, t.clear.2)
  | .copy name => (.done, t.copy name)
  | .get key field => match t.row? key with
      | none => (.null, t)
      | some row => match t.get row.datum field with
          | .ok v => (.value v, t)
          | .error e => (.error e, t)
  | .put key field value => match t.find? key, t.row? key with
      | some it, some row => match t.put row.datum field value with
          | .ok datum => (.done, t.modifyRow it datum)
          | .error e => (.error e, t)
      | _, _ => (.null, t)
  | .size => (.count t.size, t)

/-- A sequence of operations with what they return. -/
def runAll (t : Table) : List TableOp → List TableOp.Result × Table
  | [] => ([], t)
  | op :: ops =>
      let (result, t) := t.run op
      let (results, t) := t.runAll ops
      (result :: results, t)

/-! ## the key index -/

/-- The key map is the index of the rows. -/
def Indexed (t : Table) : Prop := Indexes t.keyMap Datum.key t.data

theorem row?_eq_some_iff {t : Table} (h : t.Indexed) (key : String) (d : Datum) :
    t.row? key = some d ↔ d ∈ t.data ∧ d.key = key := by
  unfold row? find?
  constructor
  · intro hrow
    obtain ⟨i, hi, hd⟩ := Option.bind_eq_some_iff.mp hrow
    obtain ⟨d', hd', hkey⟩ := (h key i).mp hi
    rw [hd] at hd'
    exact ⟨List.mem_of_getElem? hd, Option.some.inj hd' ▸ hkey⟩
  · intro ⟨hd, hkey⟩
    obtain ⟨i, hi⟩ := List.mem_iff_getElem?.mp hd
    rw [(h key i).mpr ⟨d, hi, hkey⟩]
    exact hi

theorem row?_eq_none_iff {t : Table} (h : t.Indexed) (key : String) :
    t.row? key = none ↔ t.keyMap.get? key = none := by
  rw [h.get?_eq_none_iff, Option.eq_none_iff_forall_ne_some]
  simp only [ne_eq, row?_eq_some_iff h, not_and]

/-- A row with a new key is appended. -/
theorem insertByIndex_eq (t : Table) {key : String} (hnew : t.keyMap.get? key = none)
    (data : List Int32) : t.insertByIndex key data = .ok { t with
      keyMap := t.keyMap.set key t.data.length, data := t.data ++ [⟨key, data⟩] } := by
  unfold insertByIndex
  rw [hnew]
  rfl

/-- And there is no other way to insert a row. -/
theorem of_insertByIndex_eq_ok {t t' : Table} {key : String} {data : List Int32}
    (h : t.insertByIndex key data = .ok t') : t.keyMap.get? key = none ∧ t' = { t with
      keyMap := t.keyMap.set key t.data.length, data := t.data ++ [⟨key, data⟩] } := by
  unfold insertByIndex at h
  split at h
  · contradiction
  · next hnew => exact ⟨hnew, (Except.ok.inj h).symm⟩

theorem indexed_insert {t : Table} (h : t.Indexed) {key : String}
    (hnew : t.keyMap.get? key = none) (data : List Int32) :
    Indexed { t with keyMap := t.keyMap.set key t.data.length,
                     data := t.data ++ [⟨key, data⟩] } :=
  Indexes.append (x := ⟨key, data⟩) h hnew

/-- A row is removed by moving the last one into its place. -/
theorem deleteByIndex_eq {t : Table} (h : t.Indexed) {key : String} {i : Nat}
    (hi : t.keyMap.get? key = some i) : t.deleteByIndex key = .ok (true, { t with
      data := swapRemove t.data i
      keyMap := ((moved t.data i).elim t.keyMap fun y => t.keyMap.set y.key i).remove key }) := by
  have hlt := h.lt_length hi
  unfold deleteByIndex swapRemove moved
  simp only [hi, if_neg (Nat.not_le.mpr hlt)]
  by_cases hlast : i = t.data.length - 1
  · simp [hlast, pure, Except.pure]
  · have hget : (swap t.data i (t.data.length - 1))[i]? = t.data[t.data.length - 1]? := by
      have hl : t.data.length - 1 < t.data.length := by omega
      unfold swap
      rw [List.getElem?_eq_getElem hlt, List.getElem?_eq_getElem hl]
      grind
    have hl : t.data.length - 1 < t.data.length := by omega
    simp [hlast, hget, List.getElem?_eq_getElem hl, pure, Except.pure]

/-- What is left when the row of a key is removed. -/
structure Removed (t : Table) (key : String) (t' : Table) : Prop where
  name : t'.tableName = t.tableName
  fields : t'.fields = t.fields
  fieldMap : t'.fieldMap = t.fieldMap
  index : t'.Indexed
  mem : ∀ d, d ∈ t'.data ↔ d ∈ t.data ∧ d.key ≠ key

/-- An exact index finds the row that is to be removed. -/
theorem removed_of_indexed {t : Table} (h : t.Indexed) (key : String) :
    ∃ t', t.deleteByIndex key = .ok ((t.keyMap.get? key).isSome, t') ∧ t.Removed key t' := by
  cases hi : t.keyMap.get? key with
  | none =>
      have hfresh := (h.get?_eq_none_iff key).mp hi
      have heq : t.deleteByIndex key = .ok (false, t) := by
        unfold deleteByIndex
        rw [hi]
        rfl
      exact ⟨t, heq, rfl, rfl, rfl, h, fun d => ⟨fun hd => ⟨hd, hfresh d hd⟩, And.left⟩⟩
  | some i =>
      have hlt := h.lt_length hi
      have hperm := swapRemove_perm hlt
      obtain ⟨x, hx, hkey⟩ := (h key i).mp hi
      rw [List.getElem?_eq_getElem hlt, Option.some.injEq] at hx
      refine ⟨_, deleteByIndex_eq h hi, rfl, rfl, rfl, h.swapRemove hi, fun d => ?_⟩
      have hnodup := (hperm.map Datum.key).nodup_iff.mpr h.nodup
      rw [List.map_cons, List.nodup_cons, hx, hkey] at hnodup
      rw [← hperm.mem_iff, List.mem_cons, hx]
      constructor
      · intro hd
        exact ⟨.inr hd, fun hk => hnodup.1 (hk ▸ List.mem_map_of_mem hd)⟩
      · rintro ⟨hd, hk⟩
        exact hd.resolve_left fun hdx => hk (hdx ▸ hkey)

theorem indexed_modifyRow {t : Table} (h : t.Indexed) (it : Nat) (datum : List Int32) :
    (t.modifyRow it datum).Indexed := by
  refine h.of_map_key_eq (List.ext_getElem? fun j => ?_)
  simp only [modifyRow, List.getElem?_map, List.getElem?_modify]
  cases t.data[j]? with
  | none => rfl
  | some d =>
      by_cases hj : it = j
      · simp [hj]
      · simp [hj]

/-! ## the refinement -/

/-- The table represents the abstract one. -/
structure Refines (t : Table) (s : TableSpec) : Prop where
  name : t.tableName = s.name
  fields : t.fields = s.fields
  fieldMap : ∀ field, t.fieldMap.get? field = s.fields.idxOf? field
  /-- The key map is exact. -/
  index : t.Indexed
  /-- A lookup gives the row of the map. -/
  rows : ∀ key, (t.row? key).map Datum.datum = s.rows.lookup key

namespace Refines

variable {t : Table} {s : TableSpec}

theorem mem_iff (h : t.Refines s) (key : String) : key ∈ s.rows ↔ t.keyMap.get? key ≠ none := by
  rw [← Finmap.lookup_isSome, ← h.rows key, Option.isSome_map, ne_eq, ← row?_eq_none_iff h.index key]
  cases t.row? key <;> simp

/-- The size of the table is the number of keys. -/
theorem card (h : t.Refines s) : s.rows.keys.card = t.data.length := by
  have hkeys : s.rows.keys = t.keyMap.keys.toFinset := by
    ext key
    rw [Finmap.mem_keys, h.mem_iff, List.mem_toFinset, FiniteMap.mem_keys_iff,
      Option.ne_none_iff_exists']
  rw [hkeys, List.toFinset_card_of_nodup (AList.keys_nodup _), h.index.length_keys]

theorem cell (h : t.Refines s) (datum : List Int32) (field : FieldRef) :
    t.cell datum field = s.cell datum field := by
  cases field with
  | name field =>
      unfold Table.cell TableSpec.cell
      dsimp only
      generalize hi : t.fieldMap.get? field = index
      rw [h.fieldMap] at hi
      subst hi
      rfl
  | index i => rfl

/-- A row with a new key. -/
theorem insert (h : t.Refines s) {key : String} (hnew : t.keyMap.get? key = none)
    (data : List Int32) : Refines { t with
        keyMap := t.keyMap.set key t.data.length, data := t.data ++ [⟨key, data⟩] }
      { s with rows := s.rows.insert key data } := by
  have hindex := indexed_insert h.index hnew data
  refine { h with index := hindex, rows := fun k => ?_ }
  by_cases hk : k = key
  · subst hk
    rw [Finmap.lookup_insert, (row?_eq_some_iff hindex k ⟨k, data⟩).mpr (by simp)]
    rfl
  · rw [Finmap.lookup_insert_of_ne s.rows hk, ← h.rows k]
    refine congrArg _ (Option.ext fun d => ?_)
    rw [row?_eq_some_iff hindex, row?_eq_some_iff h.index]
    refine and_congr_left fun hd => ?_
    have hne : d ≠ ⟨key, data⟩ := fun hdx => hk (hd ▸ congrArg Datum.key hdx)
    simp [hne]

theorem delete (h : t.Refines s) {key : String} {t' : Table} (hdel : t.Removed key t') :
    t'.Refines { s with rows := s.rows.erase key } := by
  refine { name := hdel.name.trans h.name, fields := hdel.fields.trans h.fields,
           fieldMap := fun f => hdel.fieldMap ▸ h.fieldMap f, index := hdel.index,
           rows := fun k => ?_ }
  by_cases hk : k = key
  · subst hk
    rw [Finmap.lookup_erase, Option.map_eq_none_iff, Option.eq_none_iff_forall_ne_some]
    intro d hd
    rw [row?_eq_some_iff hdel.index, hdel.mem] at hd
    exact hd.1.2 hd.2
  · rw [Finmap.lookup_erase_ne hk, ← h.rows k]
    refine congrArg _ (Option.ext fun d => ?_)
    rw [row?_eq_some_iff hdel.index, hdel.mem, row?_eq_some_iff h.index]
    constructor
    · rintro ⟨⟨hd, _⟩, hkey⟩
      exact ⟨hd, hkey⟩
    · rintro ⟨hd, hkey⟩
      exact ⟨⟨hd, fun h => hk (hkey.symm.trans h)⟩, hkey⟩

/-- A write of the values of a row. -/
theorem modifyRow (h : t.Refines s) {key : String} {it : Nat} (hit : t.find? key = some it)
    (datum : List Int32) :
    (t.modifyRow it datum).Refines { s with rows := s.rows.insert key datum } := by
  refine { h with index := indexed_modifyRow h.index it datum, rows := fun k => ?_ }
  obtain ⟨d, hd, hkey⟩ := (h.index key it).mp hit
  have hfind : (t.modifyRow it datum).find? k = t.find? k := rfl
  have hdata : ∀ j, (t.modifyRow it datum).data[j]? =
      if it = j then t.data[j]?.map fun d => { d with datum } else t.data[j]? := by
    intro j
    simp only [Table.modifyRow, List.getElem?_modify]
    split <;> simp
  by_cases hk : k = key
  · subst hk
    simp [row?, hfind, hit, hdata, hd, Finmap.lookup_insert]
  · rw [Finmap.lookup_insert_of_ne s.rows hk, ← h.rows k]
    simp only [row?, hfind]
    cases hj : t.find? k with
    | none => rfl
    | some j =>
        have hne : it ≠ j := by
          rintro rfl
          obtain ⟨d', hd', hkey'⟩ := (h.index k it).mp hj
          rw [hd] at hd'
          exact hk (hkey'.symm.trans ((congrArg Datum.key (Option.some.inj hd')).symm.trans hkey))
        simp [hdata, hne]

theorem lookup_none (h : t.Refines s) {key : String} (hk : s.rows.lookup key = none) :
    t.row? key = none := by
  rw [← h.rows key] at hk
  exact Option.map_eq_none_iff.mp hk

theorem lookup_some (h : t.Refines s) {key : String} {row : List Int32}
    (hk : s.rows.lookup key = some row) : ∃ d it, t.row? key = some d ∧ d.datum = row ∧
      t.find? key = some it := by
  rw [← h.rows key] at hk
  obtain ⟨d, hd, hrow⟩ := Option.map_eq_some_iff.mp hk
  obtain ⟨it, hit, _⟩ := Option.bind_eq_some_iff.mp hd
  exact ⟨d, it, hd, hrow, hit⟩

/-- **One operation**: it returns the same, and the tables stay related. -/
theorem run (h : t.Refines s) (op : TableOp) :
    (t.run op).1 = (s.run op).1 ∧ (t.run op).2.Refines (s.run op).2 := by
  cases op with
  | insertByIndex key data =>
      by_cases hk : t.keyMap.get? key = none
      · have hmem : key ∉ s.rows := fun hmem => (h.mem_iff key).mp hmem hk
        simp only [Table.run, TableSpec.run, insertByIndex_eq t hk, hmem, ↓reduceIte]
        exact ⟨trivial, h.insert hk data⟩
      · have hmem : key ∈ s.rows := (h.mem_iff key).mpr hk
        obtain ⟨i, hi⟩ := Option.ne_none_iff_exists'.mp hk
        simp only [Table.run, TableSpec.run, Table.insertByIndex, hi, hmem, ↓reduceIte, h.name]
        exact ⟨rfl, h⟩
  | deleteByIndex key =>
      cases hi : t.keyMap.get? key with
      | none =>
          have hmem : key ∉ s.rows := fun hmem => (h.mem_iff key).mp hmem hi
          simp only [Table.run, TableSpec.run, Table.deleteByIndex, hi, hmem, ↓reduceIte]
          exact ⟨rfl, h⟩
      | some i =>
          have hmem : key ∈ s.rows := (h.mem_iff key).mpr (by simp [hi])
          obtain ⟨t', heq, hdel⟩ := removed_of_indexed h.index key
          simp only [Table.run, TableSpec.run, heq, hi, hmem, ↓reduceIte]
          exact ⟨rfl, h.delete hdel⟩
  | duplicateByKey src dst =>
      cases hsrc : s.rows.lookup src with
      | none =>
          have hrow := (row?_eq_none_iff h.index src).mp (h.lookup_none hsrc)
          simp only [Table.run, TableSpec.run, Table.duplicateByKey, hsrc, hrow]
          cases t.keyMap.get? dst <;> exact ⟨rfl, h⟩
      | some row =>
          obtain ⟨d, it, hfound, hd, hfind⟩ := h.lookup_some hsrc
          have hrow : t.data[it]? = some d := by
            rw [row?, hfind] at hfound
            exact hfound
          have hfind : t.keyMap.get? src = some it := hfind
          by_cases hdst : t.keyMap.get? dst = none
          · have hmem : dst ∉ s.rows := fun hmem => (h.mem_iff dst).mp hmem hdst
            simp only [Table.run, TableSpec.run, Table.duplicateByKey, hsrc, hfind, hrow, hdst, hmem,
              insertByIndex_eq t hdst, ↓reduceIte, bind, Except.bind, pure, Except.pure]
            exact ⟨trivial, hd ▸ h.insert hdst d.datum⟩
          · have hmem : dst ∈ s.rows := (h.mem_iff dst).mpr hdst
            obtain ⟨i, hi⟩ := Option.ne_none_iff_exists'.mp hdst
            simp only [Table.run, TableSpec.run, Table.duplicateByKey, hsrc, hi, hmem, ↓reduceIte]
            exact ⟨rfl, h⟩
  | clear =>
      simp only [Table.run, TableSpec.run, Table.clear, h.card, h.index.length_keys]
      exact ⟨trivial, { h with index := indexes_nil _, rows := fun k => rfl }⟩
  | copy name => exact ⟨rfl, { h with name := rfl }⟩
  | get key field =>
      cases hrow : s.rows.lookup key with
      | none =>
          simp only [Table.run, TableSpec.run, hrow, h.lookup_none hrow]
          exact ⟨trivial, h⟩
      | some row =>
          obtain ⟨d, it, hrow', rfl, _⟩ := h.lookup_some hrow
          simp only [Table.run, TableSpec.run, hrow, hrow', Table.get, h.cell]
          cases s.cell d.datum field <;> exact ⟨rfl, h⟩
  | put key field value =>
      cases hrow : s.rows.lookup key with
      | none =>
          simp only [Table.run, TableSpec.run, hrow, h.lookup_none hrow]
          cases t.find? key <;> exact ⟨rfl, h⟩
      | some row =>
          obtain ⟨d, it, hrow', rfl, hit⟩ := h.lookup_some hrow
          simp only [Table.run, TableSpec.run, hrow, hrow', hit, Table.put, h.cell]
          cases s.cell d.datum field with
          | error e => exact ⟨rfl, h⟩
          | ok i => exact ⟨rfl, h.modifyRow hit _⟩
  | size =>
      simp only [Table.run, TableSpec.run, Table.size, h.card]
      exact ⟨trivial, h⟩

theorem runAll {t : Table} {s : TableSpec} (h : t.Refines s) : (ops : List TableOp) →
    (t.runAll ops).1 = (s.runAll ops).1 ∧ (t.runAll ops).2.Refines (s.runAll ops).2
  | [] => ⟨rfl, h⟩
  | op :: ops => by
      obtain ⟨hres, hnext⟩ := h.run op
      obtain ⟨hrest, hlast⟩ := hnext.runAll ops
      exact ⟨congrArg₂ List.cons hres hrest, hlast⟩

end Refines

/-! ## from an empty table -/

theorem get?_emplaceField (m : FiniteMap String Nat) (f f' : String) (i : Nat) :
    (emplaceField m f i).get? f' = (m.get? f').or (if f' = f then some i else none) := by
  unfold emplaceField
  cases hm : m.get? f with
  | some j =>
      by_cases hf : f' = f
      · simp [hf, hm]
      · simp [hf]
  | none =>
      dsimp only
      rw [FiniteMap.get?_set]
      by_cases hf : f' = f
      · simp [hf, hm]
      · simp [hf]

/-- The field map gives the first position of a field. -/
theorem get?_fieldMap {name : String} : (fields : List String) → (n : Nat) →
    (m m' : FiniteMap String Nat) → (fields.zipIdx n).foldlM (addField name) m = .ok m' →
    ∀ f, m'.get? f = (m.get? f).or ((fields.idxOf? f).map (· + n))
  | [], n, m, m', h, f => by
      rw [← Except.ok.inj h]
      simp
  | field :: fields, n, m, m', h, f => by
      rw [List.zipIdx_cons, List.foldlM_cons] at h
      obtain ⟨m₁, hm₁, h⟩ := Except.of_bind_eq_ok h
      have ih := get?_fieldMap fields (n + 1) m₁ m' h f
      simp only [addField] at hm₁
      split at hm₁
      · contradiction
      · rw [← Except.ok.inj hm₁, get?_emplaceField] at ih
        rw [ih, List.idxOf?_cons, Option.or_assoc]
        by_cases hf : f = field
        · simp [hf]
        · have hf' : (field == f) = false := by simpa using Ne.symm hf
          simp [hf, hf', Option.map_map, Function.comp_def, Nat.add_assoc, Nat.add_comm 1]

theorem refines_create {name : String} {fields : List String} {t : Table}
    (h : create name fields = .ok t) : t.Refines ⟨name, fields, ∅⟩ := by
  unfold create at h
  obtain ⟨fieldMap, hmap, h⟩ := Except.of_bind_eq_ok h
  rw [← Except.ok.inj h]
  have hspec := get?_fieldMap fields 0 ∅ fieldMap hmap
  exact { name := rfl, fields := rfl, fieldMap := fun f => by simp [hspec f],
          index := indexes_nil _, rows := fun _ => rfl }

/-- **A table is a finite map**: any sequence of operations on a new table
returns what it returns on the empty map, and in the state that it reaches the
key map is the exact index of the rows, with distinct keys, each lookup gives
the row of the map, and the size is the number of its keys. -/
theorem table_refines_map {name : String} {fields : List String} {t : Table}
    (h : create name fields = .ok t) (ops : List TableOp) :
    let s := (⟨name, fields, ∅⟩ : TableSpec).runAll ops
    (t.runAll ops).1 = s.1 ∧
    (∀ key i, (t.runAll ops).2.keyMap.get? key = some i ↔
      ∃ d, (t.runAll ops).2.data[i]? = some d ∧ d.key = key) ∧
    ((t.runAll ops).2.data.map Datum.key).Nodup ∧
    (∀ key, ((t.runAll ops).2.row? key).map Datum.datum = s.2.rows.lookup key) ∧
    (t.runAll ops).2.size = s.2.rows.keys.card := by
  obtain ⟨hres, hlast⟩ := (refines_create h).runAll ops
  exact ⟨hres, hlast.index, hlast.index.nodup, hlast.rows, hlast.card.symm⟩

/-- The last row takes the place of the first one, which is deleted. -/
theorem table_refines_map_delete : ∃ t, create "T" ["a"] = .ok t ∧
    (t.runAll [.insertByIndex "x" [1], .insertByIndex "y" [2], .deleteByIndex "x",
      .get "y" (.name "a")]).1 = [.done, .done, .flag true, .value 2] ∧
    ((t.runAll [.insertByIndex "x" [1], .insertByIndex "y" [2], .deleteByIndex "x",
      .get "y" (.name "a")]).2.data.map Datum.key).Nodup := by
  obtain ⟨t, ht⟩ : ∃ t, create "T" ["a"] = .ok t := ⟨_, rfl⟩
  refine ⟨t, ht, ?_, (table_refines_map ht _).2.2.1⟩
  cases ht
  decide +kernel

end Table

end LemonDB
