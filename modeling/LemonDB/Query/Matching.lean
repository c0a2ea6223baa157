import LemonDB.Query.WhereClause

/-!
# LemonDB.Query.Matching

What a data query does, in terms of the rows that meet its clause
(`Table.matching`).  On a table with full rows no scan raises an exception, so
every scan is a fold over these rows, and every update a map over all rows that
changes these.  Each query has its closed form `execute…_eq`.
-/

namespace LemonDB

open PositionIndex

/-- A data query; an UPDATE does not write keys. -/
def Query.isRowQuery : Query → Bool
  | update q => decide (q.operands.headD "" ≠ "KEY")
  | insert _ | select _ | delete _ | duplicate _ | count _ | sum _ | min _ | max _ | add _ | sub _
  | swap _ => true
  | _ => false

theorem Query.operand_of_isRowQuery {q : ComplexQuery} (hq : (update q).isRowQuery = true) :
    q.operands.getD 0 "" ≠ "KEY" := by
  have hq : q.operands.headD "" ≠ "KEY" := of_decide_eq_true hq
  cases hop : q.operands with
  | nil => simp
  | cons a l => simpa [hop] using hq

namespace Table

/-- The rows that meet a clause. -/
def matching (t : Table) (conds : List QueryCondition) : List Datum :=
  t.data.filter fun d => decide (t.Meets conds d)

/-- The table after the values of these rows were changed. -/
def mapMatching (t : Table) (conds : List QueryCondition) (u : Datum → List Int32) : Table :=
  { t with data := t.data.map fun d => if t.Meets conds d then { d with datum := u d } else d }

/-- Full rows under distinct keys, with an exact key map. -/
structure Proper (t : Table) : Prop extends t.Full where
  index : t.Indexed

variable {t : Table} {conds : List QueryCondition} {d : Datum}

theorem mem_matching : d ∈ t.matching conds ↔ d ∈ t.data ∧ t.Meets conds d := by
  simp [matching]

theorem matching_sublist (t : Table) (conds : List QueryCondition) :
    (t.matching conds).Sublist t.data := List.filter_sublist

theorem Proper.nodup_matching (h : t.Proper) (conds : List QueryCondition) :
    ((t.matching conds).map Datum.key).Nodup :=
  h.index.nodup.sublist ((matching_sublist t conds).map _)

/-- The key of a row is live. -/
theorem Proper.live (h : t.Proper) (hd : d ∈ t.data) : t.keyMap.get? d.key ≠ none :=
  fun hnone => (h.index.get?_eq_none_iff d.key).mp hnone d hd rfl

end Table

namespace ComplexQuery

variable {t : Table}

theorem proper_twoRows : twoRows.Proper where
  toFull := full_twoRows
  index := ((indexes_nil Datum.key).append (x := ⟨"x", [1]⟩) rfl).append (x := ⟨"y", [2]⟩) (by decide)

/-! ## scans -/

/-- The rows that a scan selects. -/
def selected (flag : Bool) (conds : List QueryCondition) (t : Table) : List Datum :=
  if flag then t.data.filter (holds conds) else []

section

variable {conds conds' : List QueryCondition} {key : String} {flag : Bool}
  (h : t.Full) (hok : initCondition t "" conds = .ok ((key, flag), conds'))

include h hok

/-- A scan selects the rows that meet the clause. -/
theorem selected_eq_matching : selected flag conds' t = t.matching conds := by
  unfold selected Table.matching
  cases flag with
  | false =>
      refine (List.filter_eq_nil_iff.mpr fun d _ => ?_).symm
      rw [decide_eq_true_iff]
      exact not_meets_of_flag hok fun hne => absurd rfl hne
  | true =>
      exact List.filter_congr fun d _ => Bool.eq_iff_iff.mpr
        ((holds_iff_meets h d hok rfl).trans decide_eq_true_iff.symm)

/-- A scan whose steps raise no exception is a fold. -/
theorem scanIf_eq_foldl {g : β → Datum → Except DbError β} {f : β → Datum → β}
    (hstep : ∀ acc, ∀ d ∈ t.data, g acc d = .ok (f acc d)) (init : β) :
    scanIf flag conds' t g init = .ok ((t.matching conds).foldl f init) := by
  rw [← selected_eq_matching h hok]
  cases flag with
  | false => rfl
  | true =>
      have hrow := h.row
      have hc := initialised_initCondition h hok rfl
      simp only [scanIf, scan, selected, ↓reduceIte]
      generalize t.data = data at hrow hstep ⊢
      induction data generalizing init with
      | nil => rfl
      | cons d data ih =>
          have heval := evalCondition_eq t d conds' (by rwa [hrow d List.mem_cons_self])
          have ih := fun init => ih init (fun d hd => hrow d (List.mem_cons_of_mem _ hd))
            fun acc d hd => hstep acc d (List.mem_cons_of_mem _ hd)
          rw [List.foldlM_cons, heval, List.filter_cons]
          cases hh : holds conds' d with
          | false => exact ih init
          | true =>
              simp only [bind, Except.bind, ↓reduceIte, hstep init d List.mem_cons_self,
                List.foldl_cons]
              exact ih _

end

theorem foldl_append_map (g : Datum → γ) (l : List Datum) (init : List γ) :
    l.foldl (fun acc d => acc ++ [g d]) init = init ++ l.map g := by
  induction l generalizing init with
  | nil => simp
  | cons d l ih => simp [ih]

/-- A scan that collects something from each matching row. -/
theorem scanIf_collect (h : t.Full) {conds conds' : List QueryCondition} {key : String}
    {flag : Bool} (hok : initCondition t "" conds = .ok ((key, flag), conds'))
    {g : List β → Datum → Except DbError (List β)} {f : Datum → β}
    (hstep : ∀ acc, ∀ d ∈ t.data, g acc d = .ok (acc ++ [f d])) :
    scanIf flag conds' t g [] = .ok ((t.matching conds).map f) := by
  rw [scanIf_eq_foldl h hok hstep, foldl_append_map, List.nil_append]

/-! ## updates -/

/-- What an update makes of a row. -/
def change (conds : List QueryCondition) (u : Datum → List Int32) (d : Datum) : Datum :=
  if holds conds d then { d with datum := u d } else d

theorem modify_append_cons (f : Datum → Datum) (before : List Datum) (d : Datum)
    (rest : List Datum) :
    (before ++ d :: rest).modify before.length f = before ++ f d :: rest := by
  induction before with
  | nil => rfl
  | cons x before ih => simp [ih]

/-- An update that writes one row at a time is a map. -/
theorem update_eq_map {n : Nat} {conds : List QueryCondition} (hc : Initialised n conds)
    {body : Table → Nat → Datum → Except DbError Table} {u : Datum → List Int32}
    (hbody : ∀ t it d, t.data[it]? = some d → d.datum.length = n →
      body t it d = .ok (t.modifyRow it (u d))) :
    (rest : List Datum) → (∀ d ∈ rest, d.datum.length = n) → (before : List Datum) →
    (counter : Nat) → (t : Table) → t.data = before ++ rest →
    update conds body rest.length before.length counter t =
      (.ok (counter + rest.countP (holds conds)),
        { t with data := before ++ rest.map (change conds u) })
  | [], _, before, counter, t, ht => by
      rw [List.append_nil] at ht
      simp [update, ← ht]
  | d :: rest, hrow, before, counter, t, ht => by
      have hd := hrow d List.mem_cons_self
      have hrest := fun d hd => hrow d (List.mem_cons_of_mem _ hd)
      have hget : t.data[before.length]? = some d := by simp [ht]
      have heval := evalCondition_eq t d conds (by rwa [hd])
      have ih := update_eq_map hc hbody rest hrest
      rw [List.length_cons, update, hget]
      dsimp only
      rw [heval]
      cases hh : holds conds d with
      | false =>
          have ih := ih (before ++ [d]) counter t (by simp [ht])
          rw [List.length_append, List.length_singleton] at ih
          simp [ih, hh, change]
      | true =>
          have ih := ih (before ++ [{ d with datum := u d }]) (counter + 1)
            (t.modifyRow before.length (u d)) (by simp [Table.modifyRow, ht, modify_append_cons])
          rw [List.length_append, List.length_singleton] at ih
          simp only [hbody t _ d hget hd, ih]
          simp [hh, change, Table.modifyRow, Nat.add_assoc, Nat.add_comm 1]

/-- Initialise the conditions, and change the values of the matching rows. -/
def updateMatching (q : ComplexQuery) (t : Table) (u : Datum → List Int32) : Outcome :=
  match initCondition t "" q.condition with
  | .error e => (.error e, t)
  | .ok _ => (.ok (recordCount (t.matching q.condition).length), t.mapMatching q.condition u)

/-- A query that changes the rows one by one, where the change depends on the row only. -/
theorem updateRows_eq (h : t.Full) (q : ComplexQuery)
    {body : Table → Nat → Datum → Except DbError Table} {u : Datum → List Int32}
    (hbody : ∀ t' it d, t'.data[it]? = some d → d.datum.length = t.fields.length →
      body t' it d = .ok (t'.modifyRow it (u d))) :
    q.updateRows t body = q.updateMatching t u := by
  unfold updateRows updateMatching
  cases hok : initCondition t "" q.condition with
  | error e => rfl
  | ok r =>
      obtain ⟨⟨key, flag⟩, conds⟩ := r
      have hsel := selected_eq_matching h hok
      cases flag with
      | false =>
          have hsame : t.mapMatching q.condition u = t := by
            unfold Table.mapMatching
            rw [List.map_congr_left fun d hd => if_neg fun hmeets => ?_, List.map_id']
            have hmem := Table.mem_matching.mpr ⟨hd, hmeets⟩
            rw [← hsel] at hmem
            contradiction
          simp only [← hsel, hsame]
          rfl
      | true =>
          have hmap := update_eq_map (initialised_initCondition h hok rfl) hbody t.data h.row
            [] 0 t rfl
          have hchange : change conds u = fun d =>
              if t.Meets q.condition d then { d with datum := u d } else d := by
            funext d
            exact if_congr (holds_iff_meets h d hok rfl) rfl rfl
          rw [List.length_nil, List.nil_append, hchange, Nat.zero_add,
            List.countP_eq_length_filter] at hmap
          simp only [Table.size, hmap, ← hsel]
          rfl

/-! ## queries that change cells -/

/-- What ADD makes of the values of a row. -/
def addCells (t : Table) (operands : List String) : Except DbError (Datum → List Int32) := do
  let dstId ← t.getFieldIndex (operands.getLastD "")
  let srcId ← operands.dropLast.mapM t.getFieldIndex
  return fun d => d.datum.set dstId
    (Int32.ofInt (srcId.foldl (fun acc i => acc + (d.datum.getD i 0).toInt) 0))

/-- What SUB makes of the values of a row. -/
def subCells (t : Table) (operands : List String) : Except DbError (Datum → List Int32) := do
  let dstId ← t.getFieldIndex (operands.getLastD "")
  let srcId ← operands.dropLast.mapM t.getFieldIndex
  return fun d => d.datum.set dstId (Int32.ofInt ((d.datum.getD (srcId.headD 0) 0).toInt -
    srcId.tail.foldl (fun acc i => acc + (d.datum.getD i 0).toInt) 0))

/-- What SWAP makes of the values of a row. -/
def swapCells (t : Table) (field1 field2 : String) : Except DbError (Datum → List Int32) := do
  let field1Id ← t.getFieldIndex field1
  let field2Id ← t.getFieldIndex field2
  return fun d => if field1Id ≠ field2Id then
      (d.datum.set field1Id (d.datum.getD field2Id 0)).set field2Id (d.datum.getD field1Id 0)
    else d.datum

/-- What UPDATE makes of the values of a row, unless it writes keys. -/
def assignCell (t : Table) (operands : List String) : Except DbError (Datum → List Int32) := do
  let fieldId ← t.getFieldIndex (operands.getD 0 "")
  return fun d => d.datum.set fieldId (parseValue (operands.getD 1 ""))

/-- Change the values of the matching rows, when the operands can be resolved. -/
def updateCells (q : ComplexQuery) (t : Table)
    (cells : Except DbError (Datum → List Int32)) : Outcome :=
  match cells with
  | .error e => (.error e, t)
  | .ok u => q.updateMatching t u

theorem sumCells_eq (t : Table) (d : Datum) : (ids : List Nat) → (∀ i ∈ ids, i < d.datum.length) →
    sumCells t d ids = .ok (ids.foldl (fun acc i => acc + (d.datum.getD i 0).toInt) 0) := by
  intro ids hids
  unfold sumCells
  generalize (0 : Int) = init
  induction ids generalizing init with
  | nil => rfl
  | cons i ids ih =>
      rw [List.foldlM_cons, get_index t (hids i List.mem_cons_self)]
      exact ih (fun j hj => hids j (List.mem_cons_of_mem _ hj)) _

theorem putCell_eq (t : Table) (it : Nat) (d : Datum) {i : Nat} (hi : i < d.datum.length)
    (v : Int32) : putCell t it d i v = .ok (t.modifyRow it (d.datum.set i v)) := by
  rw [putCell, put_index t hi]
  rfl

/-- The closed form of ADD. -/
theorem executeAdd_eq (h : t.Full) (q : ComplexQuery) :
    q.executeAdd t = q.updateCells t (addCells t q.operands) := by
  unfold executeAdd addCells
  cases hdst : t.getFieldIndex (q.operands.getLastD "") with
  | error e => rfl
  | ok dst =>
      cases hsrc : q.operands.dropLast.mapM t.getFieldIndex with
      | error e => rfl
      | ok src =>
          have hdst := getFieldIndex_lt h hdst
          have hsrc := (mapM_getFieldIndex_lt h hsrc).2
          refine updateRows_eq h q fun t' it d _ hlen => ?_
          rw [← hlen] at hdst hsrc
          rw [sumCells_eq t' d src hsrc]
          exact putCell_eq t' it d hdst _

/-- The closed form of SUB. -/
theorem executeSub_eq (h : t.Full) (q : ComplexQuery) (hop : 2 ≤ q.operands.length) :
    q.executeSub t = q.updateCells t (subCells t q.operands) := by
  unfold executeSub subCells
  cases hdst : t.getFieldIndex (q.operands.getLastD "") with
  | error e => rfl
  | ok dst =>
      cases hsrc : q.operands.dropLast.mapM t.getFieldIndex with
      | error e => rfl
      | ok src =>
          have hdst := getFieldIndex_lt h hdst
          obtain ⟨hcount, hsrc⟩ := mapM_getFieldIndex_lt h hsrc
          rw [List.length_dropLast] at hcount
          refine updateRows_eq h q fun t' it d _ hlen => ?_
          rw [← hlen] at hdst hsrc
          cases src with
          | nil => simp at hcount; omega
          | cons first src =>
              rw [List.headD_cons, get_index t' (hsrc first List.mem_cons_self)]
              simp only [bind, Except.bind, List.tail_cons,
                sumCells_eq t' d src fun i hi => hsrc i (List.mem_cons_of_mem _ hi)]
              exact putCell_eq t' it d hdst _

/-- A row that is written as it is. -/
theorem modifyRow_self {t : Table} {it : Nat} {d : Datum} (hd : t.data[it]? = some d) :
    t.modifyRow it d.datum = t := by
  have hdata : (t.data.modify it fun x => { x with datum := d.datum }) = t.data := by
    refine List.ext_getElem? fun j => ?_
    rw [List.getElem?_modify]
    by_cases hj : it = j
    · subst hj; simp [hd]
    · simp [hj]
  simp [Table.modifyRow, hdata]

/-- The closed form of SWAP. -/
theorem executeSwap_eq (h : t.Full) {q : ComplexQuery} {field1 field2 : String}
    (hop : q.operands = [field1, field2]) :
    q.executeSwap t = q.updateCells t (swapCells t field1 field2) := by
  unfold executeSwap swapCells
  simp only [hop]
  cases hid1 : t.getFieldIndex field1 with
  | error e => rfl
  | ok id1 =>
      cases hid2 : t.getFieldIndex field2 with
      | error e => rfl
      | ok id2 =>
          have hid1 := getFieldIndex_lt h hid1
          have hid2 := getFieldIndex_lt h hid2
          refine updateRows_eq h q fun t' it d hd hlen => ?_
          rw [← hlen] at hid1 hid2
          by_cases hne : id1 ≠ id2
          · simp only [if_pos hne, bind, Except.bind, get_index t' hid1, get_index t' hid2,
              put_index t' hid1]
            rw [put_index t' (by simpa using hid2)]
            rfl
          · simp only [if_neg hne, modifyRow_self hd]
            rfl

/-- The closed form of UPDATE, for a field. -/
theorem executeUpdate_eq (h : t.Full) {q : ComplexQuery} (hkey : q.operands.getD 0 "" ≠ "KEY") :
    q.executeUpdate t = q.updateCells t (assignCell t q.operands) := by
  unfold executeUpdate assignCell
  simp only [if_neg hkey]
  cases hid : t.getFieldIndex (q.operands.getD 0 "") with
  | error e => rfl
  | ok id =>
      have hid := getFieldIndex_lt h hid
      refine updateRows_eq h q fun t' it d _ hlen => ?_
      rw [← hlen] at hid
      exact putCell_eq t' it d hid _

/-! ## queries that add or remove rows -/

/-- Deleting rows by distinct live keys. -/
theorem deleteKeys_eq : (keys : List String) → (counter : Nat) → {t : Table} → t.Indexed →
    keys.Nodup → (∀ key ∈ keys, t.keyMap.get? key ≠ none) →
    (deleteKeys keys counter t).1 = .ok (counter + keys.length) ∧
    (deleteKeys keys counter t).2.tableName = t.tableName ∧
    (deleteKeys keys counter t).2.fields = t.fields ∧
    (deleteKeys keys counter t).2.data.Perm (t.data.filter fun d => decide (d.key ∉ keys)) ∧
    (deleteKeys keys counter t).2.Indexed
  | [], counter, t, hindex, _, _ => by simp [deleteKeys, hindex]
  | key :: keys, counter, t, hindex, hnodup, hlive => by
      obtain ⟨i, hi⟩ := Option.ne_none_iff_exists'.mp (hlive key List.mem_cons_self)
      have hnodup := List.nodup_cons.mp hnodup
      obtain ⟨t', heq, hdel⟩ := Table.removed_of_indexed hindex key
      have hlive' : ∀ k ∈ keys, t'.keyMap.get? k ≠ none := by
        intro k hk hnone
        refine hlive k (List.mem_cons_of_mem _ hk) ?_
        rw [hindex.get?_eq_none_iff]
        rw [hdel.index.get?_eq_none_iff] at hnone
        intro d hd hkey
        refine hnone d ((hdel.mem d).mpr ⟨hd, fun h => hnodup.1 ?_⟩) hkey
        rwa [← h, hkey]
      obtain ⟨hcount, hname, hfields, hdata, hlast⟩ :=
        deleteKeys_eq keys (counter + 1) hdel.index hnodup.2 hlive'
      have hrun : deleteKeys (key :: keys) counter t = deleteKeys keys (counter + 1) t' := by
        rw [deleteKeys, heq, hi]
        rfl
      have hrows : t'.data.Perm (t.data.filter fun d => decide (d.key ≠ key)) := by
        refine (List.perm_ext_iff_of_nodup hdel.index.nodup.of_map
          (hindex.nodup.of_map.filter _)).mpr fun d => ?_
        rw [hdel.mem]
        simp
      rw [hrun]
      refine ⟨by rw [hcount, List.length_cons, Nat.add_assoc, Nat.add_comm 1],
        hname.trans hdel.name, hfields.trans hdel.fields, ?_, hlast⟩
      · refine hdata.trans ((hrows.filter _).trans (List.Perm.of_eq ?_))
        rw [List.filter_filter]
        refine List.filter_congr fun d _ => ?_
        by_cases hk : d.key = key <;> simp [hk]

/-- Delete the matching rows. -/
def deleteMatching (t : Table) (conds : List QueryCondition) : Except DbError Nat × Table :=
  deleteKeys ((t.matching conds).map Datum.key) 0 t

/-- The closed form of DELETE. -/
theorem executeDelete_eq (h : t.Full) (q : ComplexQuery) : q.executeDelete t =
    match initCondition t "" q.condition with
    | .error e => (.error e, t)
    | .ok _ => ((deleteMatching t q.condition).1.map recordCount,
        (deleteMatching t q.condition).2) := by
  unfold executeDelete
  cases hok : initCondition t "" q.condition with
  | error e => rfl
  | ok r =>
      obtain ⟨⟨key, flag⟩, conds⟩ := r
      have hscan := scanIf_collect h hok (f := Datum.key)
        (g := fun delKeys obj => return delKeys ++ [obj.key]) fun _ _ _ => rfl
      simp only [bind, Except.bind, hscan]
      rfl

/-- The matching rows are gone, and the others are still there. -/
theorem deleteMatching_spec (h : t.Proper) (conds : List QueryCondition) :
    (deleteMatching t conds).1 = .ok (t.matching conds).length ∧
    (deleteMatching t conds).2.tableName = t.tableName ∧
    (deleteMatching t conds).2.fields = t.fields ∧
    (deleteMatching t conds).2.data.Perm (t.data.filter fun d => decide (¬ t.Meets conds d)) ∧
    (deleteMatching t conds).2.Proper := by
  have hlive : ∀ k ∈ (t.matching conds).map Datum.key, t.keyMap.get? k ≠ none := by
    intro k hk
    obtain ⟨d, hd, rfl⟩ := List.mem_map.mp hk
    exact h.live (Table.mem_matching.mp hd).1
  obtain ⟨hcount, hname, hfields, hdata, hindex⟩ :=
    deleteKeys_eq _ 0 h.index (h.nodup_matching conds) hlive
  rw [List.length_map, Nat.zero_add] at hcount
  refine ⟨hcount, hname, hfields, hdata.trans (List.Perm.of_eq (List.filter_congr fun d hd => ?_)),
    ⟨deleteKeys_induction (fun _ _ _ _ ht hok => ht.deleteByIndex hok) _ 0 h.toFull, hindex⟩⟩
  -- a row with the key of a matching row is that row
  rw [decide_eq_decide, not_iff_not]
  constructor
  · intro hk
    obtain ⟨d', hd', hkey⟩ := List.mem_map.mp hk
    obtain ⟨hmem, hmeets⟩ := Table.mem_matching.mp hd'
    rwa [← List.inj_on_of_nodup_map h.index.nodup hmem hd hkey]
  · exact fun hmeets => List.mem_map_of_mem (Table.mem_matching.mpr ⟨hd, hmeets⟩)

/-- A copy of a row under its new key. -/
def copyRow (d : Datum) : Datum := ⟨d.key ++ "_copy", d.datum⟩

/-- Different keys have different copies. -/
theorem append_copy_inj {a b : String} (h : a ++ "_copy" = b ++ "_copy") : a = b := by
  have h := congrArg String.toList h
  rw [String.toList_append, String.toList_append] at h
  exact String.toList_inj.mp (List.append_cancel_right h)

/-- Duplicating rows whose new keys are free. -/
theorem duplicateKeys_eq : (rows : List Datum) → (counter : Nat) → {t : Table} → t.Indexed →
    (rows.map Datum.key).Nodup → (∀ d ∈ rows, d ∈ t.data) →
    (∀ d ∈ rows, t.keyMap.get? (copyRow d).key = none) →
    (duplicateKeys (rows.map fun d => (d.key, d.key ++ "_copy")) counter t).1 =
      .ok (counter + rows.length) ∧
    (duplicateKeys (rows.map fun d => (d.key, d.key ++ "_copy")) counter t).2.tableName =
      t.tableName ∧
    (duplicateKeys (rows.map fun d => (d.key, d.key ++ "_copy")) counter t).2.fields = t.fields ∧
    (duplicateKeys (rows.map fun d => (d.key, d.key ++ "_copy")) counter t).2.data =
      t.data ++ rows.map copyRow ∧
    (duplicateKeys (rows.map fun d => (d.key, d.key ++ "_copy")) counter t).2.Indexed
  | [], counter, t, hindex, _, _, _ => by simp [duplicateKeys, hindex]
  | d :: rows, counter, t, hindex, hnodup, hmem, hfree => by
      have hnew := hfree d List.mem_cons_self
      obtain ⟨it, hfind, hrow⟩ := Option.bind_eq_some_iff.mp
        ((Table.row?_eq_some_iff hindex d.key d).mpr ⟨hmem d List.mem_cons_self, rfl⟩)
      have hfind : t.keyMap.get? d.key = some it := hfind
      have hins := Table.insertByIndex_eq t hnew d.datum
      have hindex' := Table.indexed_insert hindex hnew d.datum
      have hdup : t.duplicateByKey d.key (d.key ++ "_copy") = .ok (true, { t with
          keyMap := t.keyMap.set (copyRow d).key t.data.length
          data := t.data ++ [⟨(copyRow d).key, d.datum⟩] }) := by
        have hnew : t.keyMap.get? (d.key ++ "_copy") = none := hnew
        have hins : t.insertByIndex (d.key ++ "_copy") d.datum = _ := hins
        simp only [Table.duplicateByKey, hnew, hfind, hrow, hins, bind, Except.bind]
        rfl
      rw [List.map_cons, List.nodup_cons] at hnodup
      obtain ⟨hcount, hname, hfields, hdata, hlast⟩ := duplicateKeys_eq rows (counter + 1) hindex'
        hnodup.2 (fun x hx => List.mem_append_left _ (hmem x (List.mem_cons_of_mem _ hx)))
        fun x hx => by
          rw [FiniteMap.get?_set_of_ne]
          · exact hfree x (List.mem_cons_of_mem _ hx)
          · intro hkey
            exact hnodup.1 (append_copy_inj hkey ▸ List.mem_map_of_mem hx)
      simp only [List.map_cons, duplicateKeys, hdup, ↓reduceIte]
      refine ⟨by rw [hcount, List.length_cons, Nat.add_assoc, Nat.add_comm 1], hname, hfields, ?_,
        hlast⟩
      rw [hdata, List.append_assoc]
      rfl

/-- The matching rows whose new key is not the key of a row. -/
def copied (t : Table) (conds : List QueryCondition) : List Datum :=
  (t.matching conds).filter fun d => decide (∀ d' ∈ t.data, d'.key ≠ (copyRow d).key)

/-- Duplicate these rows. -/
def duplicateMatching (t : Table) (conds : List QueryCondition) : Except DbError Nat × Table :=
  duplicateKeys ((copied t conds).map fun d => (d.key, d.key ++ "_copy")) 0 t

/-- The closed form of DUPLICATE. -/
theorem executeDuplicate_eq (h : t.Proper) (q : ComplexQuery) : q.executeDuplicate t =
    match initCondition t "" q.condition with
    | .error e => (.error e, t)
    | .ok _ => ((duplicateMatching t q.condition).1.map recordCount,
        (duplicateMatching t q.condition).2) := by
  unfold executeDuplicate
  cases hok : initCondition t "" q.condition with
  | error e => rfl
  | ok r =>
      obtain ⟨⟨key, flag⟩, conds⟩ := r
      have hfree : ∀ d : Datum, (t.find? (d.key ++ "_copy")).isNone =
          decide (∀ d' ∈ t.data, d'.key ≠ (copyRow d).key) := fun d => by
        rw [Bool.eq_iff_iff, Option.isNone_iff_eq_none, decide_eq_true_iff]
        exact h.index.get?_eq_none_iff (d.key ++ "_copy")
      have hscan := scanIf_eq_foldl h.toFull hok
        (g := fun toDuplicate obj =>
          let copyKey := obj.key ++ "_copy"
          if (t.find? copyKey).isNone then return toDuplicate ++ [(obj.key, copyKey)]
          else return toDuplicate)
        (f := fun acc d => if decide (∀ d' ∈ t.data, d'.key ≠ (copyRow d).key) then
          acc ++ [(d.key, d.key ++ "_copy")] else acc) (fun acc d _ => by
            simp only [hfree]
            split <;> rfl) []
      rw [← List.foldl_filter, foldl_append_map, List.nil_append] at hscan
      simp only [bind, Except.bind, hscan]
      rfl

/-- The copies stand behind the rows that were there. -/
theorem duplicateMatching_spec (h : t.Proper) (conds : List QueryCondition) :
    (duplicateMatching t conds).1 = .ok (copied t conds).length ∧
    (duplicateMatching t conds).2.tableName = t.tableName ∧
    (duplicateMatching t conds).2.fields = t.fields ∧
    (duplicateMatching t conds).2.data = t.data ++ (copied t conds).map copyRow ∧
    (duplicateMatching t conds).2.Proper := by
  have hsub : (copied t conds).Sublist t.data :=
    List.filter_sublist.trans (Table.matching_sublist t conds)
  obtain ⟨hcount, hname, hfields, hdata, hindex⟩ := duplicateKeys_eq (copied t conds) 0 h.index
    (h.index.nodup.sublist (hsub.map _)) (fun d hd => hsub.subset hd) fun d hd =>
      (h.index.get?_eq_none_iff _).mpr (of_decide_eq_true (List.mem_filter.mp hd).2)
  rw [Nat.zero_add] at hcount
  exact ⟨hcount, hname, hfields, hdata, ⟨duplicateKeys_induction
    (fun _ _ _ _ _ ht hok => ht.duplicateByKey hok) _ 0 h.toFull, hindex⟩⟩

/-! ## queries that read -/

/-- The closed form of COUNT. -/
theorem executeCount_eq (h : t.Full) (q : ComplexQuery) : q.executeCount t = do
    let _ ← initCondition t "" q.condition
    return .answer (Int32.ofInt (t.matching q.condition).length) := by
  unfold executeCount
  cases hok : initCondition t "" q.condition with
  | error e => rfl
  | ok r =>
      obtain ⟨⟨key, flag⟩, conds⟩ := r
      have hscan := scanIf_eq_foldl h hok (g := fun counter _ => return counter + 1)
        (f := fun counter _ => counter + 1) (fun _ _ _ => rfl) (0 : Nat)
      have hlen : ∀ (l : List Datum) (n : Nat), l.foldl (fun n _ => n + 1) n = n + l.length := by
        intro l
        induction l with
        | nil => exact fun _ => rfl
        | cons d l ih =>
            intro n
            rw [List.foldl_cons, ih, List.length_cons, Nat.add_assoc, Nat.add_comm 1]
      rw [hlen, Nat.zero_add] at hscan
      simp only [bind, Except.bind, hscan]

/-- Columns that are accumulated side by side. -/
theorem mapM_zip_eq (t : Table) {g : Int32 → α → α} {d : Datum} : (ids : List Nat) →
    (∀ i ∈ ids, i < d.datum.length) → (acc : List α) →
    ((ids.zip acc).mapM fun (i, a) => do
      return g (← t.get d.datum (.index i)) a) =
      Except.ok ((ids.zip acc).map fun p => g (d.datum.getD p.1 0) p.2)
  | [], _, _ => rfl
  | _ :: _, _, [] => rfl
  | i :: ids, hids, a :: acc => by
      have ih := mapM_zip_eq t (g := g) ids (fun j hj => hids j (List.mem_cons_of_mem _ hj)) acc
      rw [List.zip_cons_cons, List.mapM_cons, ih]
      dsimp only
      rw [get_index t (hids i List.mem_cons_self)]
      rfl

/-- The folds over the columns of some rows are independent of each other. -/
theorem foldl_zip_eq {g : Int32 → α → α} (ids : List Nat) (rows : List Datum) (c : Nat → α) :
    rows.foldl (fun acc d => (ids.zip acc).map fun p => g (d.datum.getD p.1 0) p.2) (ids.map c) =
      ids.map fun i => rows.foldl (fun a d => g (d.datum.getD i 0) a) (c i) := by
  induction rows generalizing c with
  | nil => rfl
  | cons d rows ih =>
      have hstep : ((ids.zip (ids.map c)).map fun p => g (d.datum.getD p.1 0) p.2) =
          ids.map fun i => g (d.datum.getD i 0) (c i) := by
        rw [List.map_zip_eq_zipWith, List.zipWith_map_right, List.zipWith_self]
        rfl
      rw [List.foldl_cons, hstep, ih fun i => g (d.datum.getD i 0) (c i)]
      rfl

/-- The sum of a column over rows. -/
def columnSum (rows : List Datum) (i : Nat) : Int :=
  rows.foldl (fun acc d => acc + (d.datum.getD i 0).toInt) 0

/-- The closed form of SUM. -/
theorem executeSum_eq (h : t.Full) (q : ComplexQuery) : q.executeSum t =
    if q.operands = [] then
      return .tableError "SUM" q.targetTable
        (fill "No operands (? operands)." (toString q.operands.length))
    else if q.operands.any (· = "KEY") then
      return .tableError "SUM" q.targetTable "The KEY field cannot be summed over."
    else do
      let fieldId ← q.operands.mapM t.getFieldIndex
      let _ ← initCondition t "" q.condition
      return .answers (fieldId.map fun i => Int32.ofInt (columnSum (t.matching q.condition) i)) := by
  unfold executeSum
  refine if_congr Iff.rfl rfl (if_congr Iff.rfl rfl ?_)
  cases hids : q.operands.mapM t.getFieldIndex with
  | error e => rfl
  | ok ids =>
      have hlt := (mapM_getFieldIndex_lt h hids).2
      cases hok : initCondition t "" q.condition with
      | error e => rfl
      | ok r =>
          obtain ⟨⟨key, flag⟩, conds⟩ := r
          have hscan := scanIf_eq_foldl h hok (g := addSums t ids)
            (f := fun acc d => (ids.zip acc).map fun p => p.2 + (d.datum.getD p.1 0).toInt)
            (fun acc d hd => mapM_zip_eq t (g := fun v a => a + v.toInt) ids
              (fun i hi => h.row d hd ▸ hlt i hi) acc) (ids.map fun _ => 0)
          rw [foldl_zip_eq (g := fun v a => a + v.toInt) ids _ fun _ => 0] at hscan
          simp only [bind, Except.bind, hscan, List.map_map]
          rfl

/-- The extremum of a column over rows. -/
def columnExtremum (better : Int32 → Int32 → Bool) (start : Int32) (rows : List Datum) (i : Nat) :
    Int32 :=
  rows.foldl (fun cur d => if better (d.datum.getD i 0) cur then d.datum.getD i 0 else cur) start

/-- The closed form of MIN and MAX. -/
theorem executeExtremum_eq (h : t.Full) (q : ComplexQuery) (better : Int32 → Int32 → Bool)
    (start : Int32) : q.executeExtremum better start t = do
      let fieldId ← q.operands.mapM t.getFieldIndex
      let _ ← initCondition t "" q.condition
      return if (t.matching q.condition).length = 0 then .null
        else .answers (fieldId.map (columnExtremum better start (t.matching q.condition))) := by
  unfold executeExtremum
  cases hids : q.operands.mapM t.getFieldIndex with
  | error e => rfl
  | ok ids =>
      have hlt := (mapM_getFieldIndex_lt h hids).2
      cases hok : initCondition t "" q.condition with
      | error e => rfl
      | ok r =>
          obtain ⟨⟨key, flag⟩, conds⟩ := r
          have hstep : ∀ acc, ∀ d ∈ t.data, improve better t ids acc d = .ok (acc.1 + 1,
              (ids.zip acc.2).map fun p =>
                if better (d.datum.getD p.1 0) p.2 then d.datum.getD p.1 0 else p.2) := by
            intro acc d hd
            have hmap := mapM_zip_eq t (g := fun v a => if better v a then v else a) ids
              (fun i hi => h.row d hd ▸ hlt i hi) acc.2
            unfold improve
            simp only [bind, Except.bind] at hmap ⊢
            rw [hmap]
            rfl
          have hpair : ∀ (rows : List Datum) (n : Nat) (c : List Int32),
              rows.foldl (fun acc d => (acc.1 + 1, (ids.zip acc.2).map fun p =>
                if better (d.datum.getD p.1 0) p.2 then d.datum.getD p.1 0 else p.2)) (n, c) =
              (n + rows.length, rows.foldl (fun acc d => (ids.zip acc).map fun p =>
                if better (d.datum.getD p.1 0) p.2 then d.datum.getD p.1 0 else p.2) c) := by
            intro rows
            induction rows with
            | nil => exact fun _ _ => rfl
            | cons d rows ih =>
                intro n c
                rw [List.foldl_cons, ih, List.length_cons, Nat.add_assoc, Nat.add_comm 1]
                rfl
          have hscan := scanIf_eq_foldl h hok hstep (0, ids.map fun _ => start)
          rw [hpair, Nat.zero_add,
            foldl_zip_eq (g := fun v a => if better v a then v else a) ids _ fun _ => start] at hscan
          simp only [bind, Except.bind, hscan]
          rfl

/-- The line of a row. -/
def line (ids : List Nat) (d : Datum) : String :=
  "( " ++ d.key ++ String.join (ids.map fun i =>
    " " ++ QueryResult.showInt (d.datum.getD i 0).toInt) ++ " )\n"

theorem selectLine_eq (t : Table) {ids : List Nat} {d : Datum}
    (hids : ∀ i ∈ ids, i < d.datum.length) : selectLine t ids d = .ok (line ids d) := by
  have hmap : (ids.mapM fun i => do
      return " " ++ QueryResult.showInt (← t.get d.datum (.index i)).toInt) =
      Except.ok (ids.map fun i => " " ++ QueryResult.showInt (d.datum.getD i 0).toInt) := by
    induction ids with
    | nil => rfl
    | cons i ids ih =>
        rw [List.mapM_cons, get_index t (hids i List.mem_cons_self),
          ih fun j hj => hids j (List.mem_cons_of_mem _ hj)]
        rfl
  unfold selectLine
  rw [hmap]
  rfl

/-- The result for the lines of some rows. -/
def selection (lines : List String) : QueryResult :=
  let msg := String.join (lines.mergeSort fun a b => decide (a ≤ b))
  if msg = "" then .null else .successMsg (String.ofList msg.toList.dropLast)

/-- A clause that asks for two different keys is answered without a look at the
operands. -/
theorem executeSelect_eq (h : t.Full) (q : ComplexQuery) : q.executeSelect t = do
    let _ ← initCondition t "" q.condition
    if OneKey q.condition then
      let fieldId ← q.operands.tail.mapM t.getFieldIndex
      return selection ((t.matching q.condition).map (line fieldId))
    else return .successMsg "" := by
  unfold executeSelect
  cases hok : initCondition t "" q.condition with
  | error e => rfl
  | ok r =>
      obtain ⟨⟨key, flag⟩, conds⟩ := r
      have hflag := flag_iff_oneKey hok
      cases flag with
      | false =>
          have hno : ¬ OneKey q.condition := fun h => by simpa using hflag.mpr h
          simp only [bind, Except.bind, hno, Bool.false_eq_true, ↓reduceIte]
      | true =>
          simp only [bind, Except.bind, hflag.mp rfl, ↓reduceIte]
          cases hids : q.operands.tail.mapM t.getFieldIndex with
          | error e => rfl
          | ok ids =>
              have hlt := (mapM_getFieldIndex_lt h hids).2
              have hscan := scanIf_collect h hok (f := line ids)
                (g := fun vMsg obj => do return vMsg ++ [← selectLine t ids obj])
                fun acc d hd => by
                  rw [selectLine_eq t fun i hi => h.row d hd ▸ hlt i hi]
                  rfl
              have hscan : scan conds t (fun vMsg obj => do
                return vMsg ++ [← selectLine t ids obj]) [] = _ := hscan
              simp only [bind, Except.bind] at hscan
              simp only [hscan]
              rfl

end ComplexQuery

end LemonDB
