import LemonDB.Lib.Except
import LemonDB.Query.Execute

/-!
# LemonDB.Query.EveryTable

What a query keeps of all tables.  Tables get in by LOAD and COPYTABLE, go out by DROP,
and are changed in place by TRUNCATE and by the data queries; so a property of a table
and its name is kept by every query if it is kept by each of these changes
(`Database.Every.execute`).
-/

namespace LemonDB

open ComplexQuery

/-! ## what a data query keeps of its table -/

/-- A new value keeps the length of the row. -/
theorem Table.length_put {t : Table} {datum datum' : List Int32} {field : FieldRef}
    {value : Int32} (h : t.put datum field value = .ok datum') : datum'.length = datum.length := by
  obtain ⟨i, _, h⟩ := Except.of_bind_eq_ok h
  rw [← Except.ok.inj h, List.length_set]

namespace ComplexQuery

variable {P : Table → Prop} {t : Table}

/-- What the body of an update keeps, the update keeps. -/
theorem update_induction {conds : List QueryCondition}
    {body : Table → Nat → Datum → Except DbError Table}
    (hbody : ∀ t it obj t', P t → obj ∈ t.data → body t it obj = .ok t' → P t') :
    (remaining it counter : Nat) → {t : Table} → P t →
    P (update conds body remaining it counter t).2
  | 0, _, _, _, h => h
  | remaining + 1, it, counter, t, h => by
      unfold update
      split
      · exact h
      · next obj hobj =>
          split
          · exact h
          · exact update_induction hbody remaining (it + 1) counter h
          · split
            · exact h
            · next t' ht' =>
                exact update_induction hbody remaining (it + 1) (counter + 1)
                  (hbody t it obj t' h (List.mem_of_getElem? hobj) ht')

/-- What the body of a scan that changes rows keeps, the scan keeps. -/
theorem updateRows_induction (q : ComplexQuery)
    {body : Table → Nat → Datum → Except DbError Table}
    (hbody : ∀ t it obj t', P t → obj ∈ t.data → body t it obj = .ok t' → P t') (h : P t) :
    P (q.updateRows t body).2 := by
  unfold updateRows
  split
  · exact h
  · exact h
  · exact update_induction hbody _ _ _ h

/-- The property stays when the values of a row are replaced by as many others. -/
def KeptByValues (P : Table → Prop) : Prop :=
  ∀ t it obj datum, P t → obj ∈ t.data → datum.length = obj.datum.length → P (t.modifyRow it datum)

/-- What new values keep, one new value keeps. -/
theorem KeptByValues.putCell (hP : KeptByValues P) {t t' : Table} {it : Nat} {obj : Datum}
    {index : Nat} {value : Int32} (h : P t) (hobj : obj ∈ t.data)
    (hok : putCell t it obj index value = .ok t') : P t' := by
  obtain ⟨datum, hput, hok⟩ := Except.of_bind_eq_ok hok
  rw [← Except.ok.inj hok]
  exact hP t it obj datum h hobj (Table.length_put hput)

/-- What new values keep, ADD keeps. -/
theorem KeptByValues.executeAdd (hP : KeptByValues P) (q : ComplexQuery) (h : P t) :
    P (q.executeAdd t).2 := by
  unfold ComplexQuery.executeAdd
  dsimp only
  split
  · exact h
  · refine q.updateRows_induction (fun t it obj t' ht hobj hok => ?_) h
    obtain ⟨sum, _, hok⟩ := Except.of_bind_eq_ok hok
    exact hP.putCell ht hobj hok

/-- What new values keep, SUB keeps. -/
theorem KeptByValues.executeSub (hP : KeptByValues P) (q : ComplexQuery) (h : P t) :
    P (q.executeSub t).2 := by
  unfold ComplexQuery.executeSub
  dsimp only
  split
  · exact h
  · refine q.updateRows_induction (fun t it obj t' ht hobj hok => ?_) h
    obtain ⟨value, _, hok⟩ := Except.of_bind_eq_ok hok
    obtain ⟨sum, _, hok⟩ := Except.of_bind_eq_ok hok
    exact hP.putCell ht hobj hok

/-- What new values keep, SWAP keeps. -/
theorem KeptByValues.executeSwap (hP : KeptByValues P) (q : ComplexQuery) (h : P t) :
    P (q.executeSwap t).2 := by
  unfold ComplexQuery.executeSwap
  split
  · dsimp only
    split
    · exact h
    · refine q.updateRows_induction (fun t it obj t' ht hobj hok => ?_) h
      split at hok
      · obtain ⟨v1, _, hok⟩ := Except.of_bind_eq_ok hok
        obtain ⟨v2, _, hok⟩ := Except.of_bind_eq_ok hok
        obtain ⟨datum, hput, hok⟩ := Except.of_bind_eq_ok hok
        obtain ⟨datum', hput', hok⟩ := Except.of_bind_eq_ok hok
        rw [← Except.ok.inj hok]
        exact hP t it obj datum' ht hobj ((Table.length_put hput').trans (Table.length_put hput))
      · cases hok
        exact ht
  · exact h

/-- What one deletion keeps, a list of deletions keeps. -/
theorem deleteKeys_induction
    (hdelete : ∀ t key deleted t', P t → t.deleteByIndex key = .ok (deleted, t') → P t') :
    (keys : List String) → (counter : Nat) → {t : Table} → P t → P (deleteKeys keys counter t).2
  | [], _, _, h => h
  | key :: keys, counter, t, h => by
      unfold deleteKeys
      split
      · exact h
      · next hok => exact deleteKeys_induction hdelete keys _ (hdelete _ _ _ _ h hok)

/-- What one deletion keeps, DELETE keeps. -/
theorem executeDelete_induction (q : ComplexQuery)
    (hdelete : ∀ t key deleted t', P t → t.deleteByIndex key = .ok (deleted, t') → P t')
    (h : P t) : P (q.executeDelete t).2 := by
  unfold executeDelete
  dsimp only
  split
  · exact h
  · exact deleteKeys_induction hdelete _ 0 h

/-- What one copy of a row keeps, a list of copies keeps. -/
theorem duplicateKeys_induction (hduplicate : ∀ t src dst duplicated t', P t →
      t.duplicateByKey src dst = .ok (duplicated, t') → P t') :
    (pairs : List (String × String)) → (counter : Nat) → {t : Table} → P t →
    P (duplicateKeys pairs counter t).2
  | [], _, _, h => h
  | (orig, copy) :: pairs, counter, t, h => by
      unfold duplicateKeys
      split
      · exact h
      · next hok =>
          exact duplicateKeys_induction hduplicate pairs _ (hduplicate _ _ _ _ _ h hok)

/-- What one copy of a row keeps, DUPLICATE keeps. -/
theorem executeDuplicate_induction (q : ComplexQuery)
    (hduplicate : ∀ t src dst duplicated t', P t →
      t.duplicateByKey src dst = .ok (duplicated, t') → P t')
    (h : P t) : P (q.executeDuplicate t).2 := by
  unfold executeDuplicate
  dsimp only
  split
  · exact h
  · exact duplicateKeys_induction hduplicate _ 0 h

end ComplexQuery

/-! ## changes of a table -/

/-- The change that a data query makes to its target table, if it gets past the check of
its operands. -/
def Query.change? : Query → Option (ComplexQuery × (Table → Outcome))
  | insert q => if q.operands ≠ [] then some (q, q.executeInsert) else none
  | update q => if q.operands.length = 2 then some (q, q.executeUpdate) else none
  | delete q => some (q, q.executeDelete)
  | duplicate q => if q.operands = [] then some (q, q.executeDuplicate) else none
  | add q => if 2 ≤ q.operands.length then some (q, q.executeAdd) else none
  | sub q => if 2 ≤ q.operands.length then some (q, q.executeSub) else none
  | swap q => some (q, q.executeSwap)
  | _ => none

/-- Every table has the property, under its name. -/
def Database.Every (P : String → Table → Prop) (database : Database) : Prop :=
  ∀ name t, database.tables.get? name = some t → P name t

namespace Database

variable {P : String → Table → Prop} {database database' : Database}

theorem get?_of_get {name : String} {t : Table} (hok : database.get name = .ok t) :
    database.tables.get? name = some t := by
  unfold Database.get at hok
  split at hok
  · next hget => exact hget.trans (congrArg some (Except.ok.inj hok))
  · contradiction

namespace Every

theorem set (h : database.Every P) {name : String} {t : Table} (ht : P name t) :
    (database.setTable name t).Every P := by
  intro name' t' hget
  have hget : (database.tables.set name t).get? name' = some t' := hget
  rw [FiniteMap.get?_set] at hget
  split at hget
  · next heq => exact heq ▸ Option.some.inj hget ▸ ht
  · exact h name' t' hget

theorem registerTable (h : database.Every P) {t : Table} (ht : P t.tableName t)
    (hok : database.registerTable t = .ok database') : database'.Every P := by
  obtain ⟨_, _, hok⟩ := Except.of_bind_eq_ok hok
  rw [← Except.ok.inj hok]
  exact h.set ht

theorem dropTable (h : database.Every P) {name : String}
    (hok : database.dropTable name = .ok database') : database'.Every P := by
  unfold Database.dropTable at hok
  split at hok
  · rw [← Except.ok.inj hok]
    intro name' t' hget
    rw [FiniteMap.get?_remove] at hget
    split at hget
    · contradiction
    · exact h name' t' hget
  · contradiction

/-! ## data queries -/

theorem writing (h : database.Every P) (q : ComplexQuery) (handlers : Handlers)
    {f : Table → Outcome} (hf : ∀ t, database.tables.get? q.targetTable = some t →
      P q.targetTable t → P q.targetTable (f t).2) :
    (q.writing handlers database f).2.Every P := by
  unfold ComplexQuery.writing
  split
  · exact h
  · next t hget =>
      have hget := get?_of_get hget
      have hset := h.set (hf t hget (h _ t hget))
      dsimp only
      split
      · exact hset
      · exact hset

theorem reading (h : database.Every P) (q : ComplexQuery) (handlers : Handlers)
    (f : Table → Except DbError QueryResult) : (q.reading handlers database f).2.Every P := by
  unfold ComplexQuery.reading
  split <;> exact h

theorem withOperands (h : database.Every P) (q : ComplexQuery) {qname format : String} {ok : Bool}
    {run : QueryResult × Database} (hrun : ok = true → run.2.Every P) :
    (q.withOperands qname format ok database run).2.Every P := by
  unfold ComplexQuery.withOperands
  split
  · next hok => exact hrun hok
  · exact h

end Every

end Database

/-! ## all queries -/

/-- **What the changes of a table keep, a query keeps of every table.** -/
theorem Database.Every.execute {P : String → Table → Prop} {w : World} (h : w.database.Every P)
    (query : Query)
    (load : ∀ {text source database'},
      w.database.loadTableFromStream text source = .ok database' → database'.Every P)
    (clear : ∀ {name t}, P name t → P name t.clear.2)
    (copy : ∀ {name t} (newName), P name t → P newName (t.copy newName))
    (change : ∀ q f, query.change? = some (q, f) →
      ∀ t, w.database.tables.get? q.targetTable = some t → P q.targetTable t →
        P q.targetTable (f t).2) :
    (query.execute w).2.database.Every P := by
  cases query with
  | load targetTable fileName =>
      show (w.load fileName).2.database.Every P
      unfold World.load
      split
      · exact h
      · split
        · next hok => exact load hok
        · exact h
        · exact h
  | dump targetTable fileName =>
      show (w.dump targetTable fileName).2.database.Every P
      unfold World.dump
      split
      · dsimp only
        split
        · exact h
        · split <;> exact h
      · exact h
  | drop targetTable =>
      show (w.database.executeDrop targetTable).2.Every P
      unfold Database.executeDrop
      split
      · next hok => exact h.dropTable hok
      · exact h
  | truncate targetTable =>
      show (w.database.executeTruncate targetTable).2.Every P
      unfold Database.executeTruncate
      split
      · next hget => exact h.set (clear (h _ _ (get?_of_get hget)))
      · exact h
  | copyTable targetTable newTable =>
      show (w.database.executeCopyTable targetTable newTable).2.Every P
      unfold Database.executeCopyTable
      split
      · exact h
      · next hget =>
          split
          · next hok => exact h.registerTable (copy newTable (h _ _ (get?_of_get hget))) hok
          · exact h
  | list | quit | printTable | listen | nop => exact h
  | insert q | update q | duplicate q | add q | sub q =>
      exact h.withOperands q fun hok =>
        h.writing q _ (change q _ (if_pos (of_decide_eq_true hok)))
  | delete q | swap q => exact h.writing q _ (change q _ rfl)
  | count q | sum q => exact h.reading q _ _
  | min q | max q => exact h.withOperands q fun _ => h.reading q _ _
  | select q =>
      refine h.withOperands q fun _ => ?_
      split
      · exact h
      · exact h.reading q _ _

end LemonDB
