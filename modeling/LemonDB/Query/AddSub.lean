import LemonDB.Query.Effects

/-!
# LemonDB.Query.AddSub

ADD followed by SUB.  A sum is taken in 64 bits and cut to 32 bits when it is
stored, so SUB finds it modulo `2 ^ 32` only; this is enough to get the first
summand back, because the difference is cut in the same way.
-/

namespace LemonDB

open ComplexQuery

/-! ## the 64-bit accumulators -/

/-- An addition in `int64_t`, which has no defined result out of its range. -/
def add64 (a b : Int) : Except DbError Int :=
  if -2 ^ 63 ≤ a + b ∧ a + b < 2 ^ 63 then return a + b else throw .undefinedBehaviour

/-- `std::accumulate` over cells, from 0. -/
def accumulate64 (cells : List Int32) : Except DbError Int :=
  cells.foldlM (fun acc v => add64 acc v.toInt) 0

theorem add64_eq {a b : Int} (hlow : -2 ^ 63 ≤ a + b) (hhigh : a + b < 2 ^ 63) :
    add64 a b = .ok (a + b) := if_pos ⟨hlow, hhigh⟩

/-- The sum of cells is small. -/
theorem sum_bounds (cells : List Int32) : -2 ^ 31 * (cells.length : Int) ≤ (cells.map Int32.toInt).sum ∧
    (cells.map Int32.toInt).sum ≤ 2 ^ 31 * (cells.length : Int) := by
  induction cells with
  | nil => simp
  | cons v cells ih =>
      have hlow := v.le_toInt
      have hhigh := v.toInt_lt
      rw [List.map_cons, List.sum_cons, List.length_cons]
      push_cast
      omega

/-- Less than `2 ^ 32` cells do not overflow the accumulator. -/
theorem accumulate64_eq {cells : List Int32} (h : cells.length < 2 ^ 32) :
    accumulate64 cells = .ok (cells.map Int32.toInt).sum := by
  have hfold : ∀ (before rest : List Int32), (before ++ rest).length < 2 ^ 32 →
      rest.foldlM (fun acc v => add64 acc v.toInt) (before.map Int32.toInt).sum =
        .ok ((before ++ rest).map Int32.toInt).sum := by
    intro before rest
    induction rest generalizing before with
    | nil => intro _; simp; rfl
    | cons v rest ih =>
        intro hlen
        have hsum : (before.map Int32.toInt).sum + v.toInt = ((before ++ [v]).map Int32.toInt).sum := by
          simp
        obtain ⟨hlow, hhigh⟩ := sum_bounds (before ++ [v])
        rw [List.length_append, List.length_cons] at hlen
        rw [List.length_append, List.length_singleton] at hlow hhigh
        have ih := ih (before ++ [v]) (by simp; omega)
        rw [List.foldlM_cons, add64_eq (by omega) (by omega), hsum]
        rw [List.append_assoc] at ih
        exact ih
  exact hfold [] cells h

namespace Table

variable {t : Table} {field field' : String} {d : Datum}

/-- The values after a field was written. -/
theorem value_set (hlen : d.datum.length = t.fields.length) (hf : field ∈ t.fields) (v : Int32) :
    t.value { d with datum := d.datum.set (t.fields.idxOf field) v } field' =
      if field' = field then v else t.value d field' := by
  have hlt := List.idxOf_lt_length_iff.mpr hf
  rw [← hlen] at hlt
  unfold value
  split
  · next heq => simp [heq, hlt]
  · next hne =>
      have hidx : t.fields.idxOf field ≠ t.fields.idxOf field' := fun heq =>
        hne ((List.idxOf_inj hf).mp heq).symm
      simp [List.getD_eq_getElem?_getD, List.getElem?_set_ne hidx]

end Table

namespace ComplexQuery

variable {t : Table}

/-- The sum of the values of fields in a row. -/
def sumOf (t : Table) (d : Datum) (fields : List String) : Int :=
  ((fields.map (t.value d)).map Int32.toInt).sum

theorem foldl_value (t : Table) (d : Datum) (fields : List String) (init : Int) :
    (fields.map fun field => t.fields.idxOf field).foldl
      (fun acc i => acc + (d.datum.getD i 0).toInt) init = init + sumOf t d fields := by
  induction fields generalizing init with
  | nil => simp [sumOf]
  | cons field fields ih =>
      rw [List.map_cons, List.foldl_cons, ih, Int.add_assoc]
      rfl

/-- What ADD makes of a row, by the names of the fields. -/
theorem addCells_eq (h : t.Full) {fields : List String} {dst : String}
    (hfields : ∀ field ∈ fields, field ∈ t.fields) (hdst : dst ∈ t.fields) :
    addCells t (fields ++ [dst]) = .ok fun d =>
      d.datum.set (t.fields.idxOf dst) (Int32.ofInt (sumOf t d fields)) := by
  unfold addCells
  rw [List.getLastD_concat, List.dropLast_concat, getFieldIndex_eq_idxOf h hdst,
    mapM_getFieldIndex_eq_idxOf h fields hfields]
  simp only [bind, Except.bind, foldl_value, Int.zero_add]
  rfl

/-- What SUB makes of a row, by the names of the fields. -/
theorem subCells_eq (h : t.Full) {first : String} {fields : List String} {dst : String}
    (hfirst : first ∈ t.fields) (hfields : ∀ field ∈ fields, field ∈ t.fields)
    (hdst : dst ∈ t.fields) : subCells t (first :: fields ++ [dst]) = .ok fun d =>
      d.datum.set (t.fields.idxOf dst)
        (Int32.ofInt ((t.value d first).toInt - sumOf t d fields)) := by
  unfold subCells
  rw [List.getLastD_concat, List.dropLast_concat, getFieldIndex_eq_idxOf h hdst,
    mapM_getFieldIndex_eq_idxOf h (first :: fields) (List.forall_mem_cons.mpr ⟨hfirst, hfields⟩)]
  simp only [bind, Except.bind, List.map_cons, List.tail_cons, foldl_value, Int.zero_add]
  rfl

/-- A clause that does not mention a field does not see its value. -/
theorem meets_set {conds : List QueryCondition} {dst : String} (hdst : dst ∈ t.fields)
    (hconds : ∀ cond ∈ conds, cond.field ≠ dst) (d : Datum) (v : Int32) :
    t.Meets conds { d with datum := d.datum.set (t.fields.idxOf dst) v } ↔ t.Meets conds d := by
  refine forall₂_congr fun cond hcond => ?_
  by_cases hkey : cond.field = "KEY"
  · rw [Table.satisfies_of_key hkey, Table.satisfies_of_key hkey]
  · cases hi : t.fields.idxOf? cond.field with
    | none => simp [Table.Satisfies, hkey, hi]
    | some i =>
        have hne : t.fields.idxOf dst ≠ i := by
          intro heq
          have hidx : t.fields.idxOf dst = t.fields.idxOf cond.field := by
            rw [heq, List.idxOf_eq_getD_idxOf? cond.field, hi]
            rfl
          exact hconds cond hcond ((List.idxOf_inj hdst).mp hidx).symm
        rw [Table.satisfies_of_index hkey hi, Table.satisfies_of_index hkey hi]
        simp [List.getD_eq_getElem?_getD, List.getElem?_set_ne hne]

/-- A sum does not see the value of another field. -/
theorem sumOf_set {fields : List String} {dst : String} {d : Datum}
    (hlen : d.datum.length = t.fields.length) (hdst : dst ∈ t.fields) (hnot : dst ∉ fields)
    (v : Int32) :
    sumOf t { d with datum := d.datum.set (t.fields.idxOf dst) v } fields = sumOf t d fields := by
  have hvalue : ∀ field ∈ fields,
      t.value { d with datum := d.datum.set (t.fields.idxOf dst) v } field = t.value d field :=
    fun field hf => by
      have hne : field ≠ dst := fun heq => hnot (by rwa [← heq])
      rw [Table.value_set hlen hdst, if_neg hne]
  rw [sumOf, List.map_congr_left hvalue, sumOf]

/-- The difference is the first summand, although the sum was cut to 32 bits. -/
theorem ofInt_sum_sub (v : Int32) (rest : Int) :
    Int32.ofInt ((Int32.ofInt (v.toInt + rest)).toInt - rest) = v := by
  rw [Int32.ofInt_sub, Int32.ofInt_toInt, ← Int32.ofInt_sub, Int.add_sub_cancel, Int32.ofInt_toInt]

/-! ## ADD, then SUB -/

/-- What has become of a row: a matching one has got back in one field the value
of another one, and otherwise differs in one more field at most. -/
structure Restored (t : Table) (conds : List QueryCondition) (src dst back : String)
    (d d' : Datum) : Prop where
  key : d'.key = d.key
  length : d'.datum.length = d.datum.length
  value : t.Meets conds d → t.value d' back = t.value d src
  frame : ∀ j, (t.Meets conds d → j ≠ t.fields.idxOf dst ∧ j ≠ t.fields.idxOf back) →
    d'.datum[j]? = d.datum[j]?

/-- The values after ADD. -/
def addedRow (t : Table) (fields : List String) (dst : String) (d : Datum) : List Int32 :=
  d.datum.set (t.fields.idxOf dst) (Int32.ofInt (sumOf t d fields))

/-- The values after SUB. -/
def subtractedRow (t : Table) (first : String) (fields : List String) (dst : String) (d : Datum) :
    List Int32 :=
  d.datum.set (t.fields.idxOf dst) (Int32.ofInt ((t.value d first).toInt - sumOf t d fields))

section

variable {database : Database} {table first dst : String} {fields : List String}
  {conds : List QueryCondition} {r : (String × Bool) × List QueryCondition}
  (ht : database.tables.get? table = some t) (h : t.Full) (hfirst : first ∈ t.fields)
  (hfields : ∀ field ∈ fields, field ∈ t.fields) (hdst : dst ∈ t.fields)
  (hok : initCondition t "" conds = .ok r)

include ht h hfirst hfields hdst hok

theorem add_eq : add ⟨table, first :: fields ++ [dst], conds⟩ database =
    (recordCount (t.matching conds).length,
      database.setTable table (t.mapMatching conds (addedRow t (first :: fields) dst))) := by
  have hcells := addCells_eq h (List.forall_mem_cons.mpr ⟨hfirst, hfields⟩) hdst
  have hop : 2 ≤ (first :: fields ++ [dst]).length := by simp
  unfold add withOperands writing Database.get
  simp only [ht, hop, decide_true, ↓reduceIte, pure, Except.pure, executeAdd_eq h, updateCells,
    hcells, updateMatching, hok]
  rfl

theorem sub_eq : sub ⟨table, first :: fields ++ [dst], conds⟩ database =
    (recordCount (t.matching conds).length,
      database.setTable table (t.mapMatching conds (subtractedRow t first fields dst))) := by
  have hcells := subCells_eq h hfirst hfields hdst
  have hop : 2 ≤ (first :: fields ++ [dst]).length := by simp
  have hsub := executeSub_eq h ⟨table, first :: fields ++ [dst], conds⟩ hop
  unfold sub withOperands writing Database.get
  simp only [ht, hop, decide_true, ↓reduceIte, pure, Except.pure, hsub, updateCells, hcells,
    updateMatching, hok]
  rfl

end

/-- The initialisation looks at the field map only. -/
theorem initCondition_of_fieldMap {t' : Table} (hmap : t'.fieldMap = t.fieldMap) (key : String)
    (conds : List QueryCondition) : initCondition t' key conds = initCondition t key conds := by
  induction conds generalizing key with
  | nil => rfl
  | cons cond conds ih => simp only [initCondition, ih, Table.getFieldIndex, hmap]

theorem full_mapMatching (h : t.Full) (conds : List QueryCondition) {u : Datum → List Int32}
    (hu : ∀ d, (u d).length = d.datum.length) : (t.mapMatching conds u).Full where
  fieldMap := h.fieldMap
  row d hd := by
    obtain ⟨d₀, hd₀, rfl⟩ := List.mem_map.mp hd
    split
    · exact (hu d₀).trans (h.row d₀ hd₀)
    · exact h.row d₀ hd₀

section

variable {conds : List QueryCondition} {u : Datum → List Int32}
  (hu : ∀ d, t.Meets conds { d with datum := u d } ↔ t.Meets conds d)

include hu

/-- A row that is changed where the clause does not look. -/
theorem meets_map (d : Datum) :
    t.Meets conds (if t.Meets conds d then { d with datum := u d } else d) ↔ t.Meets conds d := by
  split
  · exact hu d
  · exact Iff.rfl

/-- The rows that match are still the same ones. -/
theorem matching_mapMatching :
    (t.mapMatching conds u).matching conds = (t.matching conds).map fun d =>
      if t.Meets conds d then { d with datum := u d } else d := by
  refine List.filter_map.trans ?_
  rw [Table.matching]
  congr 1
  exact List.filter_congr fun d _ => decide_eq_decide.mpr (meets_map hu d)

end

section

variable {src dst back : String} {fields : List String} {conds : List QueryCondition} {d : Datum}
  (hlen : d.datum.length = t.fields.length) (hdst : dst ∈ t.fields) (hback : back ∈ t.fields)
  (hnot : dst ∉ fields)

/-- The row after both queries. -/
def bothRows (t : Table) (conds : List QueryCondition) (src : String) (fields : List String)
    (dst back : String) (d : Datum) : Datum :=
  let added : Datum := { d with datum := addedRow t (src :: fields) dst d }
  if t.Meets conds d then { d with datum := subtractedRow t dst fields back added } else d

include hlen hdst hback hnot

theorem restored_bothRows : Restored t conds src dst back d (bothRows t conds src fields dst back d) where
  key := by
    unfold bothRows
    dsimp only
    split <;> rfl
  length := by
    unfold bothRows subtractedRow addedRow
    dsimp only
    split
    · simp
    · rfl
  value hmeets := by
    let added : Datum := { d with datum := addedRow t (src :: fields) dst d }
    have hlen' : added.datum.length = t.fields.length := by simp [added, addedRow, hlen]
    have hvalue : t.value added dst = Int32.ofInt (sumOf t d (src :: fields)) :=
      (Table.value_set hlen hdst _).trans (if_pos rfl)
    have hsum : sumOf t added fields = sumOf t d fields := sumOf_set hlen hdst hnot _
    have hfirst : sumOf t d (src :: fields) = (t.value d src).toInt + sumOf t d fields := by
      simp [sumOf]
    unfold bothRows
    rw [if_pos hmeets]
    refine (Table.value_set hlen' hback _).trans ((if_pos rfl).trans ?_)
    rw [hvalue, hsum, hfirst, ofInt_sum_sub]
  frame j hj := by
    unfold bothRows subtractedRow addedRow
    dsimp only
    split
    · next hmeets =>
        obtain ⟨hdst, hback⟩ := hj hmeets
        rw [List.getElem?_set_ne hback.symm, List.getElem?_set_ne hdst.symm]
    · rfl

end

section

variable {database : Database} {table src dst back : String} {fields : List String}
  {conds : List QueryCondition} {r : (String × Bool) × List QueryCondition}
  (ht : database.tables.get? table = some t) (h : t.Full)
  (hsrc : src ∈ t.fields) (hfields : ∀ field ∈ fields, field ∈ t.fields) (hdst : dst ∈ t.fields)
  (hback : back ∈ t.fields) (hcount : (src :: fields).length < 2 ^ 31) (hnot : dst ∉ fields)
  (hok : initCondition t "" conds = .ok r) (hconds : ∀ cond ∈ conds, cond.field ≠ dst)

include ht h hsrc hfields hdst hback hcount hnot hok hconds

/-- **SUB undoes ADD**: the first summand is in its field, the other cells are as
they were, no 64-bit accumulator overflows, and both queries count the same rows. -/
theorem sub_undoes_add : ∃ t₁ t₂ : Table,
    add ⟨table, src :: fields ++ [dst], conds⟩ database =
      (recordCount (t.matching conds).length, database.setTable table t₁) ∧
    sub ⟨table, dst :: fields ++ [back], conds⟩ (database.setTable table t₁) =
      (recordCount (t.matching conds).length, (database.setTable table t₁).setTable table t₂) ∧
    t₂ = { t with data := t₂.data } ∧
    List.Forall₂ (Restored t conds src dst back) t.data t₂.data ∧
    (∀ d ∈ t.matching conds, ∃ sum,
      accumulate64 ((src :: fields).map (t.value d)) = .ok sum ∧ sum = sumOf t d (src :: fields)) ∧
    ∀ d ∈ t₁.matching conds, ∃ sum value, accumulate64 (fields.map (t₁.value d)) = .ok sum ∧
      add64 (t₁.value d dst).toInt (-sum) = .ok value := by
  let t₁ := t.mapMatching conds (addedRow t (src :: fields) dst)
  let t₂ := t₁.mapMatching conds (subtractedRow t₁ dst fields back)
  have hunseen : ∀ d, t.Meets conds { d with datum := addedRow t (src :: fields) dst d } ↔
      t.Meets conds d := fun d => meets_set hdst hconds d _
  have h₁ : t₁.Full := full_mapMatching h conds fun d => by simp [addedRow]
  have hmap : t₁.fieldMap = t.fieldMap := rfl
  have hinit := initCondition_of_fieldMap hmap "" conds
  have ht₁ : (database.setTable table t₁).tables.get? table = some t₁ :=
    FiniteMap.get?_set_self _ _ _
  have hmatch : (t₁.matching conds).length = (t.matching conds).length := by
    rw [matching_mapMatching hunseen, List.length_map]
  have hrows : t₂.data = t.data.map (bothRows t conds src fields dst back) := by
    simp only [t₂, Table.mapMatching, t₁, List.map_map]
    refine List.map_congr_left fun d _ => ?_
    refine (if_congr (meets_map hunseen d) rfl rfl).trans ?_
    unfold bothRows
    dsimp only
    split
    · rfl
    · rfl
  refine ⟨t₁, t₂, add_eq ht h hsrc hfields hdst hok, ?_, rfl, ?_, ?_, ?_⟩
  · rw [← hmatch]
    exact sub_eq ht₁ h₁ hdst hfields hback (hinit.trans hok)
  · rw [hrows, List.forall₂_map_right_iff]
    exact List.forall₂_same.mpr fun d hd => restored_bothRows (h.row d hd) hdst hback hnot
  · intro d _
    exact ⟨_, accumulate64_eq (by rw [List.length_map]; omega), rfl⟩
  · intro d _
    rw [List.length_cons] at hcount
    have hsum := @accumulate64_eq (fields.map (t₁.value d)) (by rw [List.length_map]; omega)
    obtain ⟨hlow, hhigh⟩ := sum_bounds (fields.map (t₁.value d))
    rw [List.length_map] at hlow hhigh
    have hlow' := (t₁.value d dst).le_toInt
    have hhigh' := (t₁.value d dst).toInt_lt
    exact ⟨_, _, hsum, add64_eq (by omega) (by omega)⟩

end

/-- A table of one row, with two fields. -/
def pairRow : Table where
  fields := ["a", "b"]
  fieldMap := ((∅ : FiniteMap String Nat).set "a" 0).set "b" 1
  data := [⟨"x", [2147483647, 5]⟩]
  keyMap := (∅ : FiniteMap String Nat).set "x" 0
  tableName := "T"

theorem full_pairRow : pairRow.Full where
  fieldMap field := by
    simp only [pairRow, FiniteMap.get?_set, FiniteMap.get?_empty, List.idxOf?_cons]
    by_cases ha : field = "a"
    · simp [ha]
    · by_cases hb : field = "b"
      · simp [hb]
      · simp [ha, hb, Ne.symm ha, Ne.symm hb]
  row := by decide

/-- A sum that overflows 32 bits. -/
theorem sub_undoes_add_pairRow : ∃ t₁ t₂ : Table,
    add ⟨"T", ["a", "a", "b"], []⟩ (single pairRow) =
      (recordCount 1, (single pairRow).setTable "T" t₁) ∧
    sub ⟨"T", ["b", "a", "b"], []⟩ ((single pairRow).setTable "T" t₁) =
      (recordCount 1, ((single pairRow).setTable "T" t₁).setTable "T" t₂) ∧
    List.Forall₂ (Restored pairRow [] "a" "b" "b") pairRow.data t₂.data := by
  obtain ⟨t₁, t₂, hadd, hsub, _, hrows, _⟩ := @sub_undoes_add pairRow (single pairRow) "T" "a"
    "b" "b" ["a"] [] _ (get?_single pairRow) full_pairRow (by decide) (by decide) (by decide) (by decide)
    (by decide) (by decide) rfl (by decide)
  exact ⟨t₁, t₂, hadd, hsub, hrows⟩

end ComplexQuery

end LemonDB
