import LemonDB.Query.FullRows

/-!
# LemonDB.Query.WhereClause

What a WHERE clause means: a row meets it if it satisfies each condition
(`Table.Meets`).  The code finds this out in two steps.  `initCondition`
resolves the fields and the operators, and stops when the clause asks for two
different keys; `evalCondition` then judges a row by what was resolved.
-/

namespace LemonDB

/-! ## the meaning of a clause -/

/-- The comparison that an operator stands for. -/
def Compares (op : String) (a b : Int) : Prop :=
  op = ">" ∧ a > b ∨ op = "<" ∧ a < b ∨ op = "=" ∧ a = b ∨ op = ">=" ∧ a ≥ b ∨ op = "<=" ∧ a ≤ b

instance (op : String) (a b : Int) : Decidable (Compares op a b) :=
  inferInstanceAs (Decidable (_ ∨ _))

namespace Table

/-- The value that a row has in a field. -/
def value (t : Table) (d : Datum) (field : String) : Int32 :=
  d.datum.getD (t.fields.idxOf field) 0

/-- A row satisfies a condition: its key is the value, or the value of the field
compares with the 32-bit value that the literal is read as. -/
def Satisfies (t : Table) (cond : QueryCondition) (d : Datum) : Prop :=
  if cond.field = "KEY" then d.key = cond.value
  else ∃ i ∈ t.fields.idxOf? cond.field,
    Compares cond.op (d.datum.getD i 0).toInt (parseValue cond.value).toInt

instance (t : Table) (cond : QueryCondition) (d : Datum) : Decidable (t.Satisfies cond d) :=
  inferInstanceAs (Decidable (if cond.field = "KEY" then _ else _))

/-- A row meets a clause. -/
def Meets (t : Table) (conds : List QueryCondition) (d : Datum) : Prop :=
  ∀ cond ∈ conds, t.Satisfies cond d

instance (t : Table) (conds : List QueryCondition) (d : Datum) : Decidable (t.Meets conds d) :=
  inferInstanceAs (Decidable (∀ cond ∈ conds, t.Satisfies cond d))

variable {t : Table} {cond : QueryCondition} {conds : List QueryCondition} {d : Datum}

/-- A row meets a clause if it satisfies each condition. -/
theorem meets_cons : t.Meets (cond :: conds) d ↔ t.Satisfies cond d ∧ t.Meets conds d :=
  List.forall_mem_cons

theorem satisfies_of_key (hkey : cond.field = "KEY") : t.Satisfies cond d ↔ d.key = cond.value := by
  rw [Satisfies, if_pos hkey]

theorem satisfies_of_index (hkey : cond.field ≠ "KEY") {i : Nat}
    (hi : t.fields.idxOf? cond.field = some i) : t.Satisfies cond d ↔
      Compares cond.op (d.datum.getD i 0).toInt (parseValue cond.value).toInt := by
  rw [Satisfies, if_neg hkey, hi]
  simp

end Table

/-- The comparison objects do what their operators stand for. -/
theorem Comparator.test_iff {op : String} {comp : Comparator} (h : opmap.lookup op = some comp)
    (a b : Int32) : comp.test a b = true ↔ Compares op a.toInt b.toInt := by
  have hop : (op, comp) ∈ opmap := by
    obtain ⟨l₁, l₂, hl, _⟩ := List.lookup_eq_some_iff.mp h
    rw [hl]
    exact List.mem_append_right _ List.mem_cons_self
  simp only [opmap, List.mem_cons, Prod.mk.injEq, List.not_mem_nil, or_false] at hop
  obtain ⟨rfl, rfl⟩ | ⟨rfl, rfl⟩ | ⟨rfl, rfl⟩ | ⟨rfl, rfl⟩ | ⟨rfl, rfl⟩ := hop <;>
    simp [Comparator.test, Compares, Int32.lt_iff_toInt_lt, Int32.le_iff_toInt_le, Int32.toInt_inj]

namespace ComplexQuery

/-! ## rows with enough values -/

/-- Whether a row satisfies an initialised condition. -/
def holdsOne (object : Datum) (cond : QueryCondition) : Bool :=
  if cond.field ≠ "KEY" then
    cond.comp.elim false fun comp =>
      comp.test (object.datum.getD cond.fieldId 0) cond.valueParsed
  else decide (object.key = cond.value)

/-- Whether a row satisfies the initialised conditions. -/
def holds (conds : List QueryCondition) (object : Datum) : Bool := conds.all (holdsOne object)

/-- The conditions are initialised, for rows with `n` values. -/
def Initialised (n : Nat) (conds : List QueryCondition) : Prop :=
  ∀ cond ∈ conds, cond.field ≠ "KEY" → cond.comp.isSome ∧ cond.fieldId < n

theorem get_index (t : Table) {datum : List Int32} {i : Nat} (h : i < datum.length) :
    t.get datum (.index i) = .ok (datum.getD i 0) := by
  simp only [Table.get, Table.cell, h, ↓reduceIte]
  rfl

theorem put_index (t : Table) {datum : List Int32} {i : Nat} (h : i < datum.length) (v : Int32) :
    t.put datum (.index i) v = .ok (datum.set i v) := by
  simp only [Table.put, Table.cell, h, ↓reduceIte]
  rfl

/-- An initialised condition is evaluated on a long enough row without an exception. -/
theorem evalOne_eq (t : Table) (object : Datum) (ret : Bool) {cond : QueryCondition}
    (h : cond.field ≠ "KEY" → cond.comp.isSome ∧ cond.fieldId < object.datum.length) :
    evalOne t object ret cond = .ok (ret && holdsOne object cond) := by
  unfold evalOne holdsOne
  cases ret with
  | false => rfl
  | true =>
      by_cases hkey : cond.field ≠ "KEY"
      · obtain ⟨hcomp, hid⟩ := h hkey
        obtain ⟨comp, hcomp⟩ := Option.isSome_iff_exists.mp hcomp
        rw [if_pos hkey, if_pos hkey, hcomp, get_index t hid]
        rfl
      · rw [if_neg hkey, if_neg hkey]
        rfl

/-- The evaluation raises no exception. -/
theorem evalCondition_eq (t : Table) (object : Datum) (conds : List QueryCondition)
    (h : Initialised object.datum.length conds) :
    evalCondition conds t object = .ok (holds conds object) := by
  have hfold : ∀ (conds : List QueryCondition) (ret : Bool),
      Initialised object.datum.length conds →
      conds.foldlM (evalOne t object) ret = .ok (ret && holds conds object) := by
    intro conds
    induction conds with
    | nil =>
        intro ret _
        simp [holds]
        rfl
    | cons cond conds ih =>
        intro ret h
        have ih := ih (ret && holdsOne object cond) fun c hc => h c (List.mem_cons_of_mem _ hc)
        rw [List.foldlM_cons, evalOne_eq t object ret (h cond List.mem_cons_self)]
        simp only [holds, List.all_cons] at ih ⊢
        rw [← Bool.and_assoc]
        exact ih
  have := hfold conds true h
  rwa [Bool.true_and] at this

/-! ## initialisation -/

variable {t : Table}

/-- The index of a field is its place among the fields. -/
theorem getFieldIndex_ok_iff (h : t.Full) {field : String} {i : Nat} :
    t.getFieldIndex field = .ok i ↔ t.fields.idxOf? field = some i := by
  unfold Table.getFieldIndex
  rw [h.fieldMap]
  cases t.fields.idxOf? field with
  | none => exact ⟨fun h => by contradiction, fun h => by contradiction⟩
  | some j => exact ⟨fun h => congrArg some (Except.ok.inj h), fun h => by cases h; rfl⟩

theorem getFieldIndex_lt (h : t.Full) {field : String} {i : Nat}
    (hi : t.getFieldIndex field = .ok i) : i < t.fields.length :=
  (List.findIdx?_eq_some_iff_getElem.mp ((getFieldIndex_ok_iff h).mp hi)).1

theorem mapM_getFieldIndex_lt (h : t.Full) : {fields : List String} → {ids : List Nat} →
    fields.mapM t.getFieldIndex = .ok ids → ids.length = fields.length ∧
      ∀ i ∈ ids, i < t.fields.length
  | [], ids, hok => by
      rw [List.mapM_nil] at hok
      rw [← Except.ok.inj hok]
      simp
  | field :: fields, ids, hok => by
      rw [List.mapM_cons] at hok
      obtain ⟨i, hi, hok⟩ := Except.of_bind_eq_ok hok
      obtain ⟨ids', hids, hok⟩ := Except.of_bind_eq_ok hok
      obtain ⟨hlen, hlt⟩ := mapM_getFieldIndex_lt h hids
      rw [← Except.ok.inj hok]
      refine ⟨by simp [hlen], fun j hj => ?_⟩
      obtain rfl | hj := List.mem_cons.mp hj
      · exact getFieldIndex_lt h hi
      · exact hlt j hj

/-- A field that the table has is found at its place. -/
theorem getFieldIndex_eq_idxOf (h : t.Full) {field : String} (hf : field ∈ t.fields) :
    t.getFieldIndex field = .ok (t.fields.idxOf field) := by
  obtain ⟨i, hi⟩ := Option.isSome_iff_exists.mp (List.isSome_idxOf?.mpr hf)
  rw [List.idxOf_eq_getD_idxOf?, hi]
  exact (getFieldIndex_ok_iff h).mpr hi

theorem mapM_getFieldIndex_eq_idxOf (h : t.Full) : (fields : List String) →
    (∀ field ∈ fields, field ∈ t.fields) →
    fields.mapM t.getFieldIndex = .ok (fields.map fun field => t.fields.idxOf field)
  | [], _ => rfl
  | field :: fields, hfields => by
      rw [List.mapM_cons, getFieldIndex_eq_idxOf h (hfields field List.mem_cons_self),
        mapM_getFieldIndex_eq_idxOf h fields fun f hf => hfields f (List.mem_cons_of_mem _ hf)]
      rfl

/-- What the initialisation does with one condition: it stops at a second key, goes
on with a key, or resolves the field and the operator. -/
theorem initCondition_cons {cond : QueryCondition} {conds conds' : List QueryCondition}
    {key key' : String} {flag : Bool}
    (h : initCondition t key (cond :: conds) = .ok ((key', flag), conds')) :
    (cond.field = "KEY" ∧ key ≠ "" ∧ key ≠ cond.value ∧ flag = false) ∨
    (cond.field = "KEY" ∧ (key ≠ "" → key = cond.value) ∧ ∃ rest,
      initCondition t (if key = "" then cond.value else key) conds = .ok ((key', flag), rest) ∧
      conds' = cond :: rest) ∨
    (cond.field ≠ "KEY" ∧ ∃ i comp rest, t.getFieldIndex cond.field = .ok i ∧
      opmap.lookup cond.op = some comp ∧ initCondition t key conds = .ok ((key', flag), rest) ∧
      conds' = { cond with
        fieldId := i, valueParsed := parseValue cond.value, comp := some comp } :: rest) := by
  unfold initCondition at h
  split at h
  · next hkey =>
      split at h
      · contradiction
      · split at h
        · next hsecond =>
            obtain ⟨hpair, _⟩ := Prod.mk.inj (Except.ok.inj h)
            exact .inl ⟨hkey, hsecond.1, hsecond.2, (Prod.mk.inj hpair).2.symm⟩
        · next hsame =>
            obtain ⟨⟨result, rest⟩, hrest, h⟩ := Except.of_bind_eq_ok h
            obtain ⟨rfl, rfl⟩ := Prod.mk.inj (Except.ok.inj h)
            exact .inr (.inl ⟨hkey, fun hne => not_not.mp fun h => hsame ⟨hne, h⟩, rest, hrest, rfl⟩)
  · next hkey =>
      obtain ⟨i, hi, h⟩ := Except.of_bind_eq_ok h
      split at h
      · contradiction
      · next comp hcomp =>
          obtain ⟨⟨result, rest⟩, hrest, h⟩ := Except.of_bind_eq_ok h
          obtain ⟨rfl, rfl⟩ := Prod.mk.inj (Except.ok.inj h)
          exact .inr (.inr ⟨hkey, i, comp, rest, hi, hcomp, hrest, rfl⟩)

/-- Conditions that can hold are initialised. -/
theorem initialised_initCondition (h : t.Full) : {conds conds' : List QueryCondition} →
    {key key' : String} → {flag : Bool} → initCondition t key conds = .ok ((key', flag), conds') →
    flag = true → Initialised t.fields.length conds'
  | [], conds', key, key', flag, hok, _ => by
      rw [← (Prod.mk.inj (Except.ok.inj hok)).2]
      exact fun c hc => by contradiction
  | cond :: conds, conds', key, key', flag, hok, hflag => by
      obtain ⟨_, _, _, hfalse⟩ | ⟨hkey, _, rest, hrest, rfl⟩ | ⟨_, i, comp, rest, hi, _, hrest, rfl⟩ :=
        initCondition_cons hok
      · rw [hfalse] at hflag
        contradiction
      · refine List.forall_mem_cons.mpr ⟨fun hne => absurd hkey hne, ?_⟩
        exact initialised_initCondition h hrest hflag
      · refine List.forall_mem_cons.mpr ⟨fun _ => ⟨rfl, getFieldIndex_lt h hi⟩, ?_⟩
        exact initialised_initCondition h hrest hflag

/-- The initialised conditions mean what the clause means. -/
theorem holds_iff_meets (h : t.Full) (d : Datum) : {conds conds' : List QueryCondition} →
    {key key' : String} → {flag : Bool} → initCondition t key conds = .ok ((key', flag), conds') →
    flag = true → (holds conds' d = true ↔ t.Meets conds d)
  | [], conds', key, key', flag, hok, _ => by
      rw [← (Prod.mk.inj (Except.ok.inj hok)).2]
      exact ⟨fun _ _ hc => by contradiction, fun _ => rfl⟩
  | cond :: conds, conds', key, key', flag, hok, hflag => by
      obtain ⟨_, _, _, hfalse⟩ | ⟨hkey, _, rest, hrest, rfl⟩ |
        ⟨hkey, i, comp, rest, hi, hcomp, hrest, rfl⟩ := initCondition_cons hok
      · rw [hfalse] at hflag
        contradiction
      · have ih := holds_iff_meets h d hrest hflag
        rw [holds, List.all_cons, Bool.and_eq_true, ← holds, ih, Table.meets_cons,
          Table.satisfies_of_key hkey, holdsOne, if_neg (not_not_intro hkey), decide_eq_true_iff]
      · have ih := holds_iff_meets h d hrest hflag
        have hi := (getFieldIndex_ok_iff h).mp hi
        rw [holds, List.all_cons, Bool.and_eq_true, ← holds, ih, Table.meets_cons,
          Table.satisfies_of_index hkey hi, ← Comparator.test_iff hcomp, holdsOne, if_pos hkey]
        rfl

/-- A clause that asks for two different keys is met by no row. -/
theorem not_meets_of_flag {d : Datum} : {conds conds' : List QueryCondition} →
    {key key' : String} → initCondition t key conds = .ok ((key', false), conds') →
    (key ≠ "" → d.key = key) → ¬ t.Meets conds d
  | [], conds', key, key', hok, _ => by
      have h := (Prod.mk.inj (Prod.mk.inj (Except.ok.inj hok)).1).2
      contradiction
  | cond :: conds, conds', key, key', hok, hd => by
      rw [Table.meets_cons]
      rintro ⟨hone, hrest⟩
      obtain ⟨hkey, hne, hdiff, _⟩ | ⟨hkey, hsame, rest, hok, _⟩ | ⟨_, _, _, rest, _, _, hok, _⟩ :=
        initCondition_cons hok
      · rw [Table.satisfies_of_key hkey] at hone
        exact hdiff ((hd hne).symm.trans hone)
      · rw [Table.satisfies_of_key hkey] at hone
        refine not_meets_of_flag hok (fun hne => ?_) hrest
        split
        · exact hone
        · next hkey' => exact hd hkey'
      · exact not_meets_of_flag hok hd hrest

/-- **WHERE is the conjunction of its conditions**: if the initialisation returns
false, no row meets the clause; else the evaluation of a row, which then uses
initialised conditions only, tells whether the row meets it. -/
theorem evalCondition_iff_meets (h : t.Full) {conds conds' : List QueryCondition} {key : String}
    {flag : Bool} (hok : initCondition t "" conds = .ok ((key, flag), conds')) :
    (flag = false → ∀ d ∈ t.data, ¬ t.Meets conds d) ∧
    (flag = true → ∀ d ∈ t.data, ∃ b, evalCondition conds' t d = .ok b ∧
      evalConditionConst conds' t d = .ok b ∧ (b = true ↔ t.Meets conds d)) := by
  constructor
  · rintro rfl d hd
    exact not_meets_of_flag hok fun hne => absurd rfl hne
  · intro hflag d hd
    have hinit := initialised_initCondition h hok hflag
    rw [← h.row d hd] at hinit
    have heval := evalCondition_eq t d conds' hinit
    exact ⟨_, heval, heval, holds_iff_meets h d hok hflag⟩

/-- A table of two rows. -/
def twoRows : Table where
  fields := ["a"]
  fieldMap := (∅ : FiniteMap String Nat).set "a" 0
  data := [⟨"x", [1]⟩, ⟨"y", [2]⟩]
  keyMap := ((∅ : FiniteMap String Nat).set "x" 0).set "y" 1
  tableName := "T"

theorem full_twoRows : twoRows.Full where
  fieldMap field := by
    simp only [twoRows, FiniteMap.get?_set, FiniteMap.get?_empty, List.idxOf?_cons]
    by_cases h : field = "a"
    · simp [h]
    · simp [h, Ne.symm h]
  row := by decide

/-- A clause with three conditions, which are all met by the first row. -/
theorem evalCondition_iff_meets_twoRows : ∃ conds', initCondition twoRows ""
      [{ field := "KEY", op := "=", value := "x" }, { field := "a", op := ">=", value := "-1" },
        { field := "a", op := "<", value := "2" }] = .ok (("x", true), conds') ∧
    ∀ d ∈ twoRows.data, ∃ b, evalCondition conds' twoRows d = .ok b ∧
      evalConditionConst conds' twoRows d = .ok b ∧ (b = true ↔ twoRows.Meets
        [{ field := "KEY", op := "=", value := "x" }, { field := "a", op := ">=", value := "-1" },
          { field := "a", op := "<", value := "2" }] d) :=
  ⟨_, rfl, (evalCondition_iff_meets full_twoRows rfl).2 rfl⟩

/-! ## which clauses are recognised as contradictory -/

/-- The keys that a clause asks for. -/
def keyValues : List QueryCondition → List String
  | [] => []
  | cond :: conds => if cond.field = "KEY" then cond.value :: keyValues conds else keyValues conds

/-- The clause does not ask for two different keys.  (An empty key asks for nothing
until another one is seen.) -/
def OneKey (conds : List QueryCondition) : Prop :=
  (keyValues conds).Pairwise fun a b => a = "" ∨ a = b

instance (conds : List QueryCondition) : Decidable (OneKey conds) :=
  inferInstanceAs (Decidable (List.Pairwise _ _))

theorem flag_iff_pairwise : {conds conds' : List QueryCondition} → {key key' : String} →
    {flag : Bool} → initCondition t key conds = .ok ((key', flag), conds') →
    (flag = true ↔ (key :: keyValues conds).Pairwise fun a b => a = "" ∨ a = b)
  | [], conds', key, key', flag, hok => by
      simp [keyValues, ← (Prod.mk.inj (Prod.mk.inj (Except.ok.inj hok)).1).2]
  | cond :: conds, conds', key, key', flag, hok => by
      obtain ⟨hkey, hne, hdiff, rfl⟩ | ⟨hkey, hsame, rest, hok, _⟩ | ⟨hkey, _, _, rest, _, _, hok, _⟩ :=
        initCondition_cons hok
      · simp [keyValues, hkey, hne, hdiff]
      · rw [flag_iff_pairwise hok, keyValues, if_pos hkey]
        by_cases hempty : key = ""
        · simp [hempty]
        · obtain rfl := hsame hempty
          simp [hempty]
      · rw [flag_iff_pairwise hok, keyValues, if_neg hkey]

/-- The initialisation returns true exactly for these clauses. -/
theorem flag_iff_oneKey {conds conds' : List QueryCondition} {key : String} {flag : Bool}
    (hok : initCondition t "" conds = .ok ((key, flag), conds')) : flag = true ↔ OneKey conds := by
  rw [flag_iff_pairwise hok, List.pairwise_cons]
  simp [OneKey]

end ComplexQuery

end LemonDB
