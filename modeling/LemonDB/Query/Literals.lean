import LemonDB.Query.Effects

/-!
# LemonDB.Query.Literals

What an integer literal is read as.  `std::strtol` clamps it to 64 bits, and the
cast to the type of a cell then keeps the low 32 bits.  So a literal means what it
says if and only if its integer fits into 32 bits, in each of the places where the
code reads one.
-/

namespace LemonDB

open TextStream ComplexQuery

/-! ## literals -/

inductive Sign where
  | absent | plus | minus
  deriving DecidableEq, Repr

def Sign.text : Sign → Text
  | absent => []
  | plus => ['+']
  | minus => ['-']

/-- A decimal integer literal. -/
structure Literal where
  sign : Sign
  digits : Text
  nonempty : digits ≠ []
  isDigit : ∀ c ∈ digits, c.isDigit = true

namespace Literal

/-- How the literal is written. -/
def text (l : Literal) : String := String.ofList (l.sign.text ++ l.digits)

/-- The integer that the literal denotes. -/
def value (l : Literal) : Int :=
  if l.sign = .minus then -Nat.ofDigitChars 10 l.digits 0 else Nat.ofDigitChars 10 l.digits 0

/-- The integer fits into a cell. -/
def Fits (l : Literal) : Prop := -2 ^ 31 ≤ l.value ∧ l.value < 2 ^ 31

instance (l : Literal) : Decidable l.Fits := inferInstanceAs (Decidable (_ ∧ _))

theorem readSign_text (l : Literal) :
    readSign (l.text.toList.dropWhile isSpace) = (decide (l.sign = .minus), l.digits) := by
  obtain ⟨c, digits, hd⟩ := List.exists_cons_of_ne_nil l.nonempty
  have hc : c.isDigit = true := l.isDigit c (hd ▸ List.mem_cons_self)
  have hspace := not_isSpace_of_isDigit hc
  unfold text
  cases hs : l.sign with
  | absent => simp [Sign.text, hd, hspace, readSign_of_isDigit hc]
  | plus => simp [Sign.text, isSpace, readSign]
  | minus => simp [Sign.text, isSpace, readSign]

/-- `strtol` clamps the integer to 64 bits. -/
theorem strtol_text (l : Literal) : strtol l.text = max (-2 ^ 63) (min (2 ^ 63 - 1) l.value) := by
  have hdigits : l.digits.takeWhile Char.isDigit = l.digits := List.takeWhile_eq_self_iff.mpr l.isDigit
  unfold strtol value
  rw [readSign_text]
  simp only [hdigits, decide_eq_true_eq]

/-- The value of the cell is the integer, if it fits. -/
theorem toInt_parseValue_iff (l : Literal) : (parseValue l.text).toInt = l.value ↔ l.Fits := by
  unfold Fits
  constructor
  · intro h
    exact ⟨h ▸ (parseValue l.text).le_toInt, h ▸ (parseValue l.text).toInt_lt⟩
  · rintro ⟨hlow, hhigh⟩
    have hclamp : strtol l.text = l.value := by
      rw [strtol_text]
      omega
    rw [parseValue, hclamp, toInt_ofInt_iff]
    exact ⟨hlow, hhigh⟩

end Literal

/-! ## queries that write -/

/-- The query reports an error and stores nothing. -/
def Rejected (database : Database) (outcome : QueryResult × Database) : Prop :=
  outcome.1.success = false ∧ ∀ name, outcome.2.tables.get? name = database.tables.get? name

namespace ComplexQuery

theorem getFieldIndex_defined {t : Table} {field : String} {e : DbError}
    (h : t.getFieldIndex field = .error e) : e ≠ .undefinedBehaviour := by
  unfold Table.getFieldIndex at h
  split at h
  · contradiction
  · rw [← Except.error.inj h]
    exact fun h => by contradiction

/-- The initialisation of the conditions raises only exceptions of its own. -/
theorem initCondition_defined {t : Table} : {conds : List QueryCondition} → {key : String} →
    {e : DbError} → initCondition t key conds = .error e → e ≠ .undefinedBehaviour
  | [], _, _, h => by contradiction
  | cond :: conds, key, e, h => by
      unfold initCondition at h
      split at h
      · split at h
        · rw [← Except.error.inj h]
          exact fun h => by contradiction
        · split at h
          · contradiction
          · cases hrest : initCondition t (if key = "" then cond.value else key) conds with
            | error e' =>
                rw [hrest] at h
                exact Except.error.inj h ▸ initCondition_defined hrest
            | ok r => rw [hrest] at h; contradiction
      · cases hi : t.getFieldIndex cond.field with
        | error e' =>
            rw [hi] at h
            exact Except.error.inj h ▸ getFieldIndex_defined hi
        | ok i =>
            rw [hi] at h
            simp only [bind, Except.bind] at h
            split at h
            · rw [← Except.error.inj h]
              exact fun h => by contradiction
            · cases hrest : initCondition t key conds with
              | error e' =>
                  rw [hrest] at h
                  exact Except.error.inj h ▸ initCondition_defined hrest
              | ok r => rw [hrest] at h; contradiction

/-- Other exceptions than undefined behaviour are reported. -/
theorem handle_failed (handlers : Handlers) (name : String) {e : DbError}
    (he : e ≠ .undefinedBehaviour) : (handlers.handle name e).success = false := by
  cases e with
  | undefinedBehaviour => contradiction
  | _ => rfl

/-- A query that changes its table raises an exception and changes nothing, or
succeeds. -/
theorem writing_cases (q : ComplexQuery) (handlers : Handlers) (database : Database)
    {f : Table → Outcome} {P : Table → Table → Prop}
    (hf : ∀ t, database.tables.get? q.targetTable = some t →
      (∃ e, f t = (.error e, t) ∧ e ≠ .undefinedBehaviour) ∨
      ∃ result t', f t = (.ok result, t') ∧ P t t') :
    Rejected database (q.writing handlers database f) ∨
    ∃ t t', database.tables.get? q.targetTable = some t ∧
      (q.writing handlers database f).2.tables.get? q.targetTable = some t' ∧ P t t' := by
  cases ht : database.tables.get? q.targetTable with
  | none =>
      simp only [writing, Database.get, ht]
      exact .inl ⟨rfl, fun name => rfl⟩
  | some t =>
      obtain ⟨e, hft, he⟩ | ⟨result, t', hft, hP⟩ := hf t ht
      · have herr : (q.writing handlers database f).1.success = false := by
          simp only [writing, Database.get, ht, pure, Except.pure, hft]
          exact handle_failed handlers _ he
        refine .inl ⟨herr, fun name => tables_writing (fun t₁ ht₁ _ => ?_) herr⟩
        obtain rfl := Option.some.inj (ht.symm.trans ht₁)
        rw [hft]
      · refine .inr ⟨t, t', rfl, ?_, hP⟩
        simp only [writing, Database.get, ht, pure, Except.pure, hft]
        exact FiniteMap.get?_set_self _ _ _

end ComplexQuery

/-! ## INSERT -/

/-- A table after INSERT: a cell of its new row holds an integer. -/
def Appended (key : String) (i : Nat) (n : Int) (t t' : Table) : Prop :=
  ∃ d, t'.data = t.data ++ [d] ∧ d.key = key ∧ (d.datum[i]?).map Int32.toInt = some n

/-- INSERT stores the integer that a literal denotes, or stores nothing. -/
def InsertsExactly (l : Literal) : Prop :=
  ∀ (database : Database) (table key : String) (before after : List String),
    let outcome := ComplexQuery.insert ⟨table, key :: (before ++ l.text :: after), []⟩ database
    Rejected database outcome ∨ ∃ t t', database.tables.get? table = some t ∧
      outcome.2.tables.get? table = some t' ∧ Appended key before.length l.value t t'

/-- An INSERT with a literal stores what the literal is read as. -/
theorem insert_literal (l : Literal) (database : Database) (table key : String)
    (before after : List String) :
    let outcome := ComplexQuery.insert ⟨table, key :: (before ++ l.text :: after), []⟩ database
    Rejected database outcome ∨ ∃ t t', database.tables.get? table = some t ∧
      outcome.2.tables.get? table = some t' ∧
      Appended key before.length (parseValue l.text).toInt t t' := by
  let q : ComplexQuery := ⟨table, key :: (before ++ l.text :: after), []⟩
  refine writing_cases q _ database (f := q.executeInsert) fun t _ => ?_
  unfold executeInsert
  simp only [q, List.headD_cons, List.tail_cons]
  cases hins : t.insertByIndex key ((before ++ l.text :: after).map parseValue) with
  | error e =>
      refine .inl ⟨e, rfl, ?_⟩
      unfold Table.insertByIndex at hins
      split at hins
      · rw [← Except.error.inj hins]
        exact fun h => by contradiction
      · contradiction
  | ok t' =>
      refine .inr ⟨_, t', rfl, ?_⟩
      obtain ⟨_, rfl⟩ := Table.of_insertByIndex_eq_ok hins
      exact ⟨_, rfl, rfl, by simp⟩

theorem insertsExactly_iff (l : Literal) : InsertsExactly l ↔ l.Fits := by
  rw [← l.toInt_parseValue_iff]
  constructor
  · intro h
    have herr : ¬ Rejected (single twoRows)
        (ComplexQuery.insert ⟨"T", ["z", l.text], []⟩ (single twoRows)) :=
      fun hr => Bool.noConfusion hr.1
    obtain ⟨t, t', ht, ht', d, hdata, _, hd⟩ := (h _ "T" "z" [] []).resolve_left herr
    obtain ⟨t₁, t₁', ht₁, ht₁', d₁, hdata₁, _, hd₁⟩ :=
      (insert_literal l _ "T" "z" [] []).resolve_left herr
    obtain rfl := Option.some.inj (ht.symm.trans ht₁)
    obtain rfl := Option.some.inj (ht'.symm.trans ht₁')
    obtain rfl := List.singleton_inj.mp (List.append_cancel_left (hdata.symm.trans hdata₁))
    exact Option.some.inj (hd₁.symm.trans hd)
  · intro hfits database table key before after
    rw [← hfits]
    exact insert_literal l database table key before after

/-! ## UPDATE -/

/-- A row after UPDATE: if it matched, one of its cells holds an integer. -/
structure Assigned (t : Table) (conds : List QueryCondition) (field : String) (n : Int)
    (d d' : Datum) : Prop where
  key : d'.key = d.key
  frame : ∀ j, (t.Meets conds d → j ≠ t.fields.idxOf field) → d'.datum[j]? = d.datum[j]?
  cell : t.Meets conds d → (d'.datum[t.fields.idxOf field]?).map Int32.toInt = some n

theorem idxOf_of_getFieldIndex {t : Table} (h : t.Full) {field : String} {i : Nat}
    (hi : t.getFieldIndex field = .ok i) : t.fields.idxOf field = i := by
  rw [List.idxOf_eq_getD_idxOf?, (getFieldIndex_ok_iff h).mp hi]
  rfl

theorem assigned_set {t : Table} (conds : List QueryCondition) {field : String} {d : Datum}
    (hlt : t.fields.idxOf field < d.datum.length) (v : Int32) :
    Assigned t conds field v.toInt d (if t.Meets conds d then
      { d with datum := d.datum.set (t.fields.idxOf field) v } else d) := by
  split
  · next hmeets =>
      exact ⟨rfl, fun j hj => List.getElem?_set_ne (hj hmeets).symm, fun _ => by simp [hlt]⟩
  · next hmeets => exact ⟨rfl, fun j _ => rfl, fun h => absurd h hmeets⟩

/-- UPDATE stores the integer that a literal denotes in the matching rows, or stores
nothing. -/
def UpdatesExactly (l : Literal) : Prop :=
  ∀ (database : Database) (table field : String) (conds : List QueryCondition), field ≠ "KEY" →
    (∀ t, database.tables.get? table = some t → t.Full) →
    let outcome := updateQuery ⟨table, [field, l.text], conds⟩ database
    Rejected database outcome ∨ ∃ t t', database.tables.get? table = some t ∧
      outcome.2.tables.get? table = some t' ∧
      List.Forall₂ (Assigned t conds field l.value) t.data t'.data

/-- An UPDATE with a literal stores what the literal is read as. -/
theorem update_literal (l : Literal) {database : Database} {table field : String}
    {conds : List QueryCondition} (hkey : field ≠ "KEY")
    (hfull : ∀ t, database.tables.get? table = some t → t.Full) :
    let outcome := updateQuery ⟨table, [field, l.text], conds⟩ database
    Rejected database outcome ∨ ∃ t t', database.tables.get? table = some t ∧
      outcome.2.tables.get? table = some t' ∧
      List.Forall₂ (Assigned t conds field (parseValue l.text).toInt) t.data t'.data := by
  let q : ComplexQuery := ⟨table, [field, l.text], conds⟩
  refine writing_cases q _ database (f := q.executeUpdate)
    (P := fun t t' => List.Forall₂ (Assigned t conds field (parseValue l.text).toInt) t.data t'.data)
    fun t ht => ?_
  have h := hfull t ht
  rw [executeUpdate_eq h (q := q) hkey]
  simp only [updateCells, assignCell, q, List.getD_cons_zero, List.getD_cons_succ]
  cases hi : t.getFieldIndex field with
  | error e => exact .inl ⟨e, rfl, getFieldIndex_defined hi⟩
  | ok i =>
      simp only [bind, Except.bind, pure, Except.pure, updateMatching]
      cases hok : initCondition t "" conds with
      | error e => exact .inl ⟨e, rfl, initCondition_defined hok⟩
      | ok r =>
          refine .inr ⟨_, _, rfl, ?_⟩
          rw [Table.mapMatching, List.forall₂_map_right_iff]
          refine List.forall₂_same.mpr fun d hd => ?_
          rw [← idxOf_of_getFieldIndex h hi]
          have hlt : t.fields.idxOf field < d.datum.length := by
            rw [idxOf_of_getFieldIndex h hi, h.row d hd]
            exact getFieldIndex_lt h hi
          exact assigned_set conds hlt _

theorem updatesExactly_iff (l : Literal) : UpdatesExactly l ↔ l.Fits := by
  rw [← l.toInt_parseValue_iff]
  constructor
  · intro h
    have herr : ¬ Rejected (single twoRows) (updateQuery ⟨"T", ["a", l.text], []⟩ (single twoRows)) :=
      fun hr => Bool.noConfusion hr.1
    have hfull : ∀ t, (single twoRows).tables.get? "T" = some t → t.Full := by
      intro t ht
      rw [get?_single, Option.some.injEq] at ht
      exact ht ▸ full_twoRows
    obtain ⟨t, t', ht, ht', hrows⟩ := (h _ "T" "a" [] (by decide) hfull).resolve_left herr
    obtain ⟨t₁, t₁', ht₁, ht₁', hrows₁⟩ :=
      (@update_literal l _ "T" "a" [] (by decide) hfull).resolve_left herr
    obtain rfl := Option.some.inj (ht.symm.trans ht₁)
    obtain rfl := Option.some.inj (ht'.symm.trans ht₁')
    rw [get?_single, Option.some.injEq] at ht
    subst ht
    obtain ⟨d, rows, hd, _, hdata⟩ := List.forall₂_cons_left_iff.mp hrows
    obtain ⟨d₁, rows₁, hd₁, _, hdata₁⟩ := List.forall₂_cons_left_iff.mp hrows₁
    obtain ⟨rfl, _⟩ := List.cons.inj (hdata.symm.trans hdata₁)
    have hmeets : twoRows.Meets [] ⟨"x", [1]⟩ := fun cond hcond => by contradiction
    exact Option.some.inj ((hd₁.cell hmeets).symm.trans (hd.cell hmeets))
  · intro hfits database table field conds hkey hfull
    rw [← hfits]
    exact update_literal l hkey hfull

/-! ## WHERE -/

/-- A condition with a literal selects the rows whose value compares with the integer
that it denotes, or is reported as an error. -/
def SelectsExactly (l : Literal) : Prop :=
  ∀ (t : Table) (field op : String), field ≠ "KEY" → t.Full →
    let conds : List QueryCondition := [{ field, op, value := l.text }]
    (∃ e, initCondition t "" conds = .error e ∧ e ≠ .undefinedBehaviour) ∨
    ∃ key conds', initCondition t "" conds = .ok ((key, true), conds') ∧
      ∀ d ∈ t.data, evalCondition conds' t d =
        .ok (decide (Compares op (t.value d field).toInt l.value))

/-- A condition with a literal compares with what the literal is read as. -/
theorem where_literal (l : Literal) {t : Table} {field op : String} (hkey : field ≠ "KEY")
    (h : t.Full) :
    let conds : List QueryCondition := [{ field, op, value := l.text }]
    (∃ e, initCondition t "" conds = .error e ∧ e ≠ .undefinedBehaviour) ∨
    ∃ key conds', initCondition t "" conds = .ok ((key, true), conds') ∧
      ∀ d ∈ t.data, evalCondition conds' t d =
        .ok (decide (Compares op (t.value d field).toInt (parseValue l.text).toInt)) := by
  intro conds
  cases hok : initCondition t "" conds with
  | error e => exact .inl ⟨e, rfl, initCondition_defined hok⟩
  | ok r =>
      obtain ⟨⟨key, flag⟩, conds'⟩ := r
      obtain ⟨hkey', _⟩ | ⟨hkey', _⟩ | ⟨_, i, comp, rest, hi, _, hrest, _⟩ := initCondition_cons hok
      · exact absurd hkey' hkey
      · exact absurd hkey' hkey
      · obtain rfl : true = flag := (Prod.mk.inj (Prod.mk.inj (Except.ok.inj hrest)).1).2
        refine .inr ⟨key, conds', rfl, fun d hd => ?_⟩
        have hinit := initialised_initCondition h hok rfl
        rw [← h.row d hd] at hinit
        rw [evalCondition_eq t d conds' hinit, Except.ok.injEq, Bool.eq_iff_iff, decide_eq_true_iff,
          holds_iff_meets h d hok rfl, Table.Meets, List.forall_mem_singleton,
          Table.satisfies_of_index hkey ((getFieldIndex_ok_iff h).mp hi), Table.value,
          idxOf_of_getFieldIndex h hi]

theorem selectsExactly_iff (l : Literal) : SelectsExactly l ↔ l.Fits := by
  rw [← l.toInt_parseValue_iff]
  constructor
  · intro h
    -- a row that holds what the literal is read as
    let t : Table := { twoRows with data := [⟨"x", [parseValue l.text]⟩] }
    have hfull : t.Full := ⟨full_twoRows.fieldMap, by simp [t, twoRows]⟩
    obtain ⟨e, herr, _⟩ | ⟨key, conds', hok, heval⟩ := h t "a" "=" (by decide) hfull
    · contradiction
    · obtain ⟨e, herr, _⟩ | ⟨key₁, conds₁, hok₁, heval₁⟩ :=
        @where_literal l t "a" "=" (by decide) hfull
      · contradiction
      · obtain ⟨_, rfl⟩ := Prod.mk.inj (Except.ok.inj (hok.symm.trans hok₁))
        have heval := heval _ List.mem_cons_self
        rw [heval₁ _ List.mem_cons_self, Except.ok.injEq] at heval
        have hsame : t.value ⟨"x", [parseValue l.text]⟩ "a" = parseValue l.text := rfl
        simpa [Compares, hsame] using heval
  · intro hfits t field op hkey h
    rw [← hfits]
    exact where_literal l hkey h

/-- **Integer literals mean what they say** if and only if their integer fits into 32
bits: in INSERT, in UPDATE and in conditions. -/
theorem literal_means_iff (l : Literal) :
    (InsertsExactly l ↔ l.Fits) ∧ (UpdatesExactly l ↔ l.Fits) ∧ (SelectsExactly l ↔ l.Fits) :=
  ⟨insertsExactly_iff l, updatesExactly_iff l, selectsExactly_iff l⟩

/-- The literal `2147483648`. -/
def firstTooLarge : Literal where
  sign := .absent
  digits := "2147483648".toList
  nonempty := by decide
  isDigit := List.all_eq_true.mp (by decide)

/-- The literal `2147483648` is read as the smallest integer of a cell. -/
theorem not_literal_means : ¬ ∀ l : Literal,
    InsertsExactly l ∧ UpdatesExactly l ∧ SelectsExactly l := fun h =>
  absurd ((insertsExactly_iff firstTooLarge).mp (h firstTooLarge).1) (by decide +kernel)

end LemonDB
