import LemonDB.Query.Effects

/-!
# LemonDB.Query.KeyUpdate

UPDATE of the KEY.  The rows are renamed one by one while they are scanned, and
`setKey` moves the entry of the old key over to the new one, which it leaves as
it is when the new key has an entry already.  Nothing stops the query from
giving one key to two rows.
-/

namespace LemonDB

open PositionIndex ComplexQuery

/-! ## the rows that are renamed -/

/-- The scan ends where the evaluation of a row raises an exception; of the rows
before, it takes those that satisfy the conditions. -/
def scanned (conds : List QueryCondition) (t : Table) (rows : List Datum) : List Datum :=
  (rows.takeWhile fun d => (evalCondition conds t d).isOk).filter fun d =>
    (evalCondition conds t d).toOption == some true

/-- The rows that an UPDATE of the KEY renames. -/
def renamed (q : ComplexQuery) (t : Table) : List Datum :=
  match initCondition t "" q.condition with
  | .ok ((_, true), conds) => scanned conds t t.data
  | _ => []

section

variable {conds : List QueryCondition} {t : Table} {d : Datum} {rows : List Datum}

/-- The evaluation looks at the rows only. -/
theorem scanned_table (conds : List QueryCondition) (t t' : Table) (rows : List Datum) :
    scanned conds t rows = scanned conds t' rows := rfl

theorem scanned_cons_error {e : DbError} (he : evalCondition conds t d = .error e) :
    scanned conds t (d :: rows) = [] := by
  simp [scanned, he, Except.isOk, Except.toBool]

theorem scanned_cons_true (he : evalCondition conds t d = .ok true) :
    scanned conds t (d :: rows) = d :: scanned conds t rows := by
  simp [scanned, he, Except.isOk, Except.toBool, Except.toOption]

theorem scanned_cons_false (he : evalCondition conds t d = .ok false) :
    scanned conds t (d :: rows) = scanned conds t rows := by
  simp [scanned, he, Except.isOk, Except.toBool, Except.toOption]

theorem scanned_sublist (conds : List QueryCondition) (t : Table) (rows : List Datum) :
    (scanned conds t rows).Sublist rows :=
  List.filter_sublist.trans (List.takeWhile_sublist _)

end

/-! ## one row -/

section

variable {t : Table} {it : Nat} {d : Datum}

/-- The new key of a live row. -/
theorem setKey_eq (t : Table) {it i : Nat} {d : Datum} (hlive : t.keyMap.get? d.key = some i)
    (v : String) : setKey t it d v = .ok { t with
      keyMap := Table.emplaceField (t.keyMap.remove d.key) v i
      data := t.data.modify it fun d => { d with key := v } } := by
  rw [setKey, hlive]
  rfl

/-- The other keys stay live. -/
theorem live_setKey {v key : String} {i : Nat} (hne : key ≠ d.key)
    (hlive : t.keyMap.get? key ≠ none) :
    (Table.emplaceField (t.keyMap.remove d.key) v i).get? key ≠ none := by
  have hremove : (t.keyMap.remove d.key).get? key ≠ none := by
    rwa [FiniteMap.get?_remove_of_ne _ hne]
  unfold Table.emplaceField
  split
  · exact hremove
  · rw [FiniteMap.get?_set]
    split
    · exact Option.some_ne_none i
    · exact hremove

/-- A row gets a key that no other row has. -/
theorem indexed_setKey (h : t.Indexed) (hd : t.data[it]? = some d) {v : String}
    (hfree : ∀ d' ∈ t.data, d'.key = v → d' = d) :
    ∃ t', setKey t it d v = .ok t' ∧ t'.Indexed := by
  have hlive := h.get?_key hd
  refine ⟨_, setKey_eq t hlive v, ?_⟩
  have hnew : (t.keyMap.remove d.key).get? v = none := by
    rw [FiniteMap.get?_remove]
    split
    · rfl
    · next hne =>
        exact (h.get?_eq_none_iff v).mpr fun d' hd' hkey =>
          hne (hkey ▸ congrArg Datum.key (hfree d' hd' hkey))
  have hset : (t.data.modify it fun d => { d with key := v }) =
      t.data.set it { d with key := v } := by
    rw [List.modify_eq_set_getElem?, hd]
    rfl
  have hindex := h.rekey (y := { d with key := v }) hd hfree
  unfold Table.Indexed
  simp only [Table.emplaceField, hnew, hset]
  exact hindex

end

/-! ## the scan -/

/-- What the scan leaves of the rows: those it takes have the new key. -/
def rename (names : List Datum) (v : String) (d : Datum) : Datum :=
  if d ∈ names then { d with key := v } else d

theorem rename_cons_of_ne {names : List Datum} {d d' : Datum} (hne : d' ≠ d) (v : String) :
    rename (d :: names) v d' = rename names v d' := by
  simp [rename, hne]

theorem ne_of_mem_of_nodup {d d' : Datum} {rest : List Datum}
    (hnodup : ((d :: rest).map Datum.key).Nodup) (hd' : d' ∈ rest) : d'.key ≠ d.key := by
  rw [List.map_cons, List.nodup_cons] at hnodup
  exact fun hkey => hnodup.1 (hkey ▸ List.mem_map_of_mem hd')

section

variable {conds : List QueryCondition} {v : String}

/-- The rows after the scan.  The keys of the rows to come stay live, so `setKey` is
never called for a key without an entry. -/
theorem data_update : (rest before : List Datum) → (counter : Nat) → (t : Table) →
    t.data = before ++ rest → (rest.map Datum.key).Nodup →
    (∀ d ∈ rest, t.keyMap.get? d.key ≠ none) →
    (update conds (fun t it obj => setKey t it obj v) rest.length before.length counter t).2.data =
      before ++ rest.map (rename (scanned conds t rest) v)
  | [], before, counter, t, ht, _, _ => by simp [update, ht]
  | d :: rest, before, counter, t, ht, hnodup, hlive => by
      have hget : t.data[before.length]? = some d := by simp [ht]
      have hne : ∀ d' ∈ rest, d'.key ≠ d.key := fun _ => ne_of_mem_of_nodup hnodup
      have hrest := (List.nodup_cons.mp hnodup).2
      rw [List.length_cons, update, hget]
      dsimp only
      cases heval : evalCondition conds t d with
      | error e =>
          have hid : (d :: rest).map (rename [] v) = d :: rest := List.map_id' _
          rw [scanned_cons_error heval, hid]
          exact ht
      | ok b =>
          cases b with
          | false =>
              have ih := data_update rest (before ++ [d]) counter t (by simp [ht]) hrest
                fun d' hd' => hlive d' (List.mem_cons_of_mem _ hd')
              have hd : d ∉ scanned conds t rest := fun hd =>
                hne d ((scanned_sublist conds t rest).mem hd) rfl
              rw [List.length_append, List.length_singleton] at ih
              simp [ih, scanned_cons_false heval, rename, hd]
          | true =>
              obtain ⟨i, hi⟩ := Option.ne_none_iff_exists'.mp (hlive d List.mem_cons_self)
              have ih := data_update rest (before ++ [{ d with key := v }]) (counter + 1)
                { t with
                  keyMap := Table.emplaceField (t.keyMap.remove d.key) v i
                  data := t.data.modify before.length fun d => { d with key := v } }
                (by simp [ht, modify_append_cons]) hrest
                fun d' hd' => live_setKey (hne d' hd') (hlive d' (List.mem_cons_of_mem _ hd'))
              rw [scanned_table _ _ t] at ih
              have hcongr : rest.map (rename (d :: scanned conds t rest) v) =
                  rest.map (rename (scanned conds t rest) v) :=
                List.map_congr_left fun d' hd' =>
                  rename_cons_of_ne (fun he => hne d' hd' (congrArg Datum.key he)) v
              rw [List.length_append, List.length_singleton] at ih
              simp only [setKey_eq t hi, scanned_cons_true heval, List.map_cons, hcongr, ih]
              simp [rename]

/-- A scan that takes at most one row, whose new key is free, keeps the index. -/
theorem indexed_update : (rest before : List Datum) → (counter : Nat) → (t : Table) →
    t.data = before ++ rest → t.Indexed →
    (∀ d ∈ scanned conds t rest, ∀ d' ∈ t.data, d'.key = v ∨ d' ∈ scanned conds t rest → d' = d) →
    (update conds (fun t it obj => setKey t it obj v) rest.length before.length counter t).2.Indexed
  | [], before, counter, t, ht, h, _ => h
  | d :: rest, before, counter, t, ht, h, hone => by
      have hget : t.data[before.length]? = some d := by simp [ht]
      have hnodup := h.nodup
      rw [ht, List.map_append] at hnodup
      have hne : ∀ d' ∈ rest, d'.key ≠ d.key := fun _ =>
        ne_of_mem_of_nodup (List.nodup_append.mp hnodup).2.1
      rw [List.length_cons, update, hget]
      dsimp only
      cases heval : evalCondition conds t d with
      | error e => exact h
      | ok b =>
          cases b with
          | false =>
              rw [scanned_cons_false heval] at hone
              have ih := indexed_update rest (before ++ [d]) counter t (by simp [ht]) h hone
              rwa [List.length_append, List.length_singleton] at ih
          | true =>
              rw [scanned_cons_true heval] at hone
              have hone := hone d List.mem_cons_self
              obtain ⟨t', hset, h'⟩ := indexed_setKey h hget fun d' hd' hkey => hone d' hd' (.inl hkey)
              -- the row is the only one that the scan takes
              have hnil : scanned conds t rest = [] := by
                refine List.eq_nil_iff_forall_not_mem.mpr fun d' hd' => ?_
                have hmem := (scanned_sublist conds t rest).mem hd'
                have hdata : d' ∈ t.data := by
                  rw [ht]
                  exact List.mem_append_right _ (List.mem_cons_of_mem _ hmem)
                have hsame := hone d' hdata (.inr (List.mem_cons_of_mem _ hd'))
                exact hne d' hmem (congrArg Datum.key hsame)
              have hdata : t'.data = (before ++ [{ d with key := v }]) ++ rest := by
                rw [setKey_eq t (h.get?_key hget), Except.ok.injEq] at hset
                simp [← hset, ht, modify_append_cons]
              have ih := indexed_update rest (before ++ [{ d with key := v }]) (counter + 1) t'
                hdata h' fun d' hd' => by
                  rw [scanned_table _ _ t, hnil] at hd'
                  contradiction
              rw [List.length_append, List.length_singleton] at ih
              rw [hset]
              exact ih

end

/-! ## the query -/

section

variable {t : Table} {q : ComplexQuery} {database : Database} {v : String}

/-- The query leaves the changed table, with or without an exception. -/
theorem table_updateQuery (hop : q.operands = ["KEY", v])
    (ht : database.tables.get? q.targetTable = some t) :
    (q.updateQuery database).2.tables.get? q.targetTable = some (q.executeUpdate t).2 := by
  unfold updateQuery withOperands writing Database.get
  simp only [hop, List.length_cons, List.length_nil, decide_true, ↓reduceIte, ht, pure, Except.pure]
  split <;> exact FiniteMap.get?_set_self _ _ _

/-- An UPDATE of the KEY renames each row that it scans. -/
theorem executeUpdate_key (hop : q.operands = ["KEY", v]) (hv : v ≠ "") (t : Table) :
    q.executeUpdate t = q.updateRows t fun table it obj => setKey table it obj v := by
  unfold executeUpdate
  simp only [hop, List.getD_cons_zero, List.getD_cons_succ, ↓reduceIte, pure, Except.pure, hv]

/-- The rows after the query. -/
theorem data_executeUpdate (hop : q.operands = ["KEY", v]) (hv : v ≠ "") (h : t.Indexed) :
    (q.executeUpdate t).2.data = t.data.map (rename (renamed q t) v) := by
  rw [executeUpdate_key hop hv]
  unfold updateRows renamed
  have hid : t.data.map (rename [] v) = t.data := List.map_id' _
  cases hok : initCondition t "" q.condition with
  | error e => exact hid.symm
  | ok r =>
      obtain ⟨⟨key, flag⟩, conds⟩ := r
      cases flag with
      | false => exact hid.symm
      | true =>
          exact data_update t.data [] 0 t rfl h.nodup fun d hd hnone =>
            (h.get?_eq_none_iff d.key).mp hnone d hd rfl

/-- An UPDATE of the KEY that renames one row to a free key keeps the key map. -/
theorem indexed_executeUpdate (hop : q.operands = ["KEY", v]) (hv : v ≠ "") (h : t.Indexed)
    (hone : ∀ d ∈ renamed q t, ∀ d' ∈ t.data, d'.key = v ∨ d' ∈ renamed q t → d' = d) :
    (q.executeUpdate t).2.Indexed := by
  rw [executeUpdate_key hop hv]
  unfold updateRows
  unfold renamed at hone
  cases hok : initCondition t "" q.condition with
  | error e => exact h
  | ok r =>
      obtain ⟨⟨key, flag⟩, conds⟩ := r
      rw [hok] at hone
      cases flag with
      | false => exact h
      | true => exact indexed_update t.data [] 0 t rfl h hone

/-- **UPDATE of the KEY keeps the index** exactly if it renames at most one row, to a
key that no other row has. -/
theorem updateKey_indexed_iff (hop : q.operands = ["KEY", v]) (hv : v ≠ "")
    (ht : database.tables.get? q.targetTable = some t) (h : t.Indexed) :
    (∃ t', (q.updateQuery database).2.tables.get? q.targetTable = some t' ∧
      (t'.data.map Datum.key).Nodup ∧ t'.Indexed) ↔
    ∀ d ∈ renamed q t, ∀ d' ∈ t.data, d'.key = v ∨ d' ∈ renamed q t → d' = d := by
  rw [table_updateQuery hop ht]
  constructor
  · rintro ⟨t', heq, hnodup, _⟩ d hd d' hd' hkey
    rw [← Option.some.inj heq, data_executeUpdate hop hv h, List.map_map] at hnodup
    have hmem : d ∈ t.data := by
      unfold renamed at hd
      split at hd
      · exact (scanned_sublist _ _ _).mem hd
      · contradiction
    -- both rows have the new key
    refine List.inj_on_of_nodup_map hnodup hd' hmem ?_
    have hnew : ∀ d, d.key = v ∨ d ∈ renamed q t → (rename (renamed q t) v d).key = v := by
      intro d hkey
      unfold rename
      split
      · rfl
      · next hnot => exact hkey.resolve_right hnot
    exact (hnew d' hkey).trans (hnew d (.inr hd)).symm
  · intro hone
    have h' := indexed_executeUpdate hop hv h hone
    exact ⟨_, rfl, h'.nodup, h'⟩

end

/-- One of the rows gets a new key. -/
theorem updateKey_indexed_twoRows : ∃ t',
    (updateQuery ⟨"T", ["KEY", "z"], [{ field := "KEY", op := "=", value := "x" }]⟩
      (single twoRows)).2.tables.get? "T" = some t' ∧
    (t'.data.map Datum.key).Nodup ∧ t'.Indexed :=
  (updateKey_indexed_iff (q := ⟨"T", ["KEY", "z"], [{ field := "KEY", op := "=", value := "x" }]⟩)
    rfl (by decide) (get?_single twoRows) proper_twoRows.index).mpr (by decide +kernel)

/-- Without a clause both rows get the new key. -/
theorem not_updateKey_indexed : ¬ ∀ (database : Database) (q : ComplexQuery) (t : Table)
    (v : String), q.operands = ["KEY", v] → v ≠ "" →
    database.tables.get? q.targetTable = some t → t.Indexed →
    ∃ t', (q.updateQuery database).2.tables.get? q.targetTable = some t' ∧
      (t'.data.map Datum.key).Nodup ∧ t'.Indexed := by
  intro hall
  obtain ⟨t', ht', hnodup, _⟩ := hall (single twoRows) ⟨"T", ["KEY", "z"], []⟩ twoRows "z" rfl
    (by decide) (get?_single twoRows) proper_twoRows.index
  rw [table_updateQuery rfl (get?_single twoRows)] at ht'
  rw [← Option.some.inj ht', data_executeUpdate rfl (by decide) proper_twoRows.index] at hnodup
  exact absurd hnodup (by decide +kernel)

end LemonDB
