import LemonDB.Query.KeyUpdate

/-!
# LemonDB.Query.Interchange

Two WHERE clauses that the same rows meet are interchangeable: the closed forms
of the queries look at the rows that meet the clause and at nothing else of it.
The exception is SELECT, which answers a clause that asks for two different
keys without a look at the table.
-/

namespace LemonDB

open ComplexQuery

/-- The query with another WHERE clause. -/
def ComplexQuery.withClause (q : ComplexQuery) (conds : List QueryCondition) : ComplexQuery :=
  { q with condition := conds }

@[simp] theorem ComplexQuery.operands_withClause (q : ComplexQuery) (conds : List QueryCondition) :
    (q.withClause conds).operands = q.operands := rfl

namespace Query

/-- The query has a WHERE clause. -/
def hasClause : Query → Bool
  | select _ | count _ | sum _ | min _ | max _ | delete _ | duplicate _ | add _ | sub _ | swap _
  | update _ => true
  | _ => false

/-- The query with another WHERE clause. -/
def withClause (query : Query) (conds : List QueryCondition) : Query :=
  match query with
  | select q => select (q.withClause conds)
  | count q => count (q.withClause conds)
  | sum q => sum (q.withClause conds)
  | min q => min (q.withClause conds)
  | max q => max (q.withClause conds)
  | delete q => delete (q.withClause conds)
  | duplicate q => duplicate (q.withClause conds)
  | add q => add (q.withClause conds)
  | sub q => sub (q.withClause conds)
  | swap q => swap (q.withClause conds)
  | update q => update (q.withClause conds)
  | query => query

end Query

namespace ComplexQuery

variable {t : Table}

/-! ## an update of any kind -/

/-- The update of the rows in a list. -/
def updateThese (rows : List Datum) (body : Table → Nat → Datum → Except DbError Table) :
    (remaining it counter : Nat) → Table → Except DbError Nat × Table
  | 0, _, counter, table => (.ok counter, table)
  | remaining + 1, it, counter, table =>
      match table.data[it]? with
      | none => (.ok counter, table)
      | some obj =>
          if obj ∈ rows then match body table it obj with
            | .error e => (.error e, table)
            | .ok table => updateThese rows body remaining (it + 1) (counter + 1) table
          else updateThese rows body remaining (it + 1) counter table

/-- The rows behind the one that is changed stay as they are. -/
def WritesRow (body : Table → Nat → Datum → Except DbError Table) : Prop :=
  ∀ t it d t', body t it d = .ok t' → ∀ j, it < j → t'.data[j]? = t.data[j]?

/-- An update of no rows changes nothing. -/
theorem updateThese_nil (body : Table → Nat → Datum → Except DbError Table) :
    (remaining it counter : Nat) → (t : Table) →
    updateThese [] body remaining it counter t = (.ok counter, t)
  | 0, _, _, _ => rfl
  | remaining + 1, it, counter, t => by
      rw [updateThese]
      split
      · rfl
      · exact updateThese_nil body remaining (it + 1) counter t

/-- The scan sees each row as it was at the start. -/
theorem update_eq_these {conds : List QueryCondition} {rows : List Datum}
    {body : Table → Nat → Datum → Except DbError Table} (hbody : WritesRow body) :
    (remaining it counter : Nat) → (t : Table) →
    (∀ j d, it ≤ j → t.data[j]? = some d → evalCondition conds t d = .ok (decide (d ∈ rows))) →
    update conds body remaining it counter t = updateThese rows body remaining it counter t
  | 0, _, _, _, _ => rfl
  | remaining + 1, it, counter, t, heval => by
      rw [update, updateThese]
      cases hd : t.data[it]? with
      | none => rfl
      | some d =>
          dsimp only
          rw [heval it d (Nat.le_refl it) hd]
          by_cases hmem : d ∈ rows
          · rw [if_pos hmem, decide_eq_true hmem]
            cases hset : body t it d with
            | error e => rfl
            | ok t' =>
                refine update_eq_these hbody remaining (it + 1) (counter + 1) t' fun j x hj hx => ?_
                rw [hbody t it d t' hset j hj] at hx
                exact heval j x (Nat.le_of_succ_le hj) hx
          · rw [if_neg hmem, decide_eq_false hmem]
            exact update_eq_these hbody remaining (it + 1) counter t
              fun j x hj => heval j x (Nat.le_of_succ_le hj)

/-- A query that changes the rows one by one changes those that met the clause at the start.
-/
theorem updateRows_eq_these (h : t.Full) (q : ComplexQuery)
    {body : Table → Nat → Datum → Except DbError Table} (hbody : WritesRow body)
    {r : (String × Bool) × List QueryCondition}
    (hok : initCondition t "" q.condition = .ok r) :
    q.updateRows t body =
      ((updateThese (t.matching q.condition) body t.size 0 0 t).1.map recordCount,
        (updateThese (t.matching q.condition) body t.size 0 0 t).2) := by
  obtain ⟨⟨key, flag⟩, conds⟩ := r
  unfold updateRows
  rw [hok]
  cases flag with
  | false =>
      rw [← selected_eq_matching h hok]
      simp only [selected, Bool.false_eq_true, ↓reduceIte, updateThese_nil]
      rfl
  | true =>
      have heval : ∀ j d, 0 ≤ j → t.data[j]? = some d →
          evalCondition conds t d = .ok (decide (d ∈ t.matching q.condition)) := by
        intro j d _ hd
        have hd := List.mem_of_getElem? hd
        have hinit := initialised_initCondition h hok rfl
        rw [← h.row d hd] at hinit
        rw [evalCondition_eq t d conds hinit, Except.ok.injEq, Bool.eq_iff_iff, decide_eq_true_iff,
          Table.mem_matching, holds_iff_meets h d hok rfl]
        exact (and_iff_right hd).symm
      simp only [update_eq_these hbody t.size 0 0 t heval]

/-- A new key is written into the row of the scan only. -/
theorem writesRow_setKey (key : String) : WritesRow fun t it obj => setKey t it obj key := by
  intro t it d t' hset j hj
  have hset : setKey t it d key = .ok t' := hset
  unfold setKey at hset
  split at hset
  · contradiction
  · rw [← Except.ok.inj hset]
    simp [Nat.ne_of_lt hj]

/-- A new value is written into the row of the scan only. -/
theorem writesRow_putCell (index : Nat) (value : Int32) :
    WritesRow fun t it obj => putCell t it obj index value := by
  intro t it d t' hput j hj
  obtain ⟨datum, _, hput⟩ := Except.of_bind_eq_ok hput
  rw [← Except.ok.inj hput]
  simp [Table.modifyRow, Nat.ne_of_lt hj]

/-! ## two clauses -/

section

variable {c₁ c₂ : List QueryCondition} {r₁ r₂ : (String × Bool) × List QueryCondition}
  (q : ComplexQuery) (h : t.Proper) (hok₁ : initCondition t "" c₁ = .ok r₁)
  (hok₂ : initCondition t "" c₂ = .ok r₂) (hsame : ∀ d ∈ t.data, t.Meets c₁ d ↔ t.Meets c₂ d)

include hsame in
/-- Clauses that agree on the rows select the same rows. -/
theorem matching_congr : t.matching c₁ = t.matching c₂ :=
  List.filter_congr fun d hd => decide_eq_decide.mpr (hsame d hd)

include hok₁ hok₂ hsame in
/-- A change of cells that depends on the row only is the same under both clauses. -/
theorem updateCells_congr (cells : Except DbError (Datum → List Int32)) :
    (q.withClause c₁).updateCells t cells = (q.withClause c₂).updateCells t cells := by
  cases cells with
  | error e => rfl
  | ok u =>
      have hmap : t.mapMatching c₁ u = t.mapMatching c₂ u := by
        unfold Table.mapMatching
        rw [List.map_congr_left fun d hd => if_congr (hsame d hd) rfl rfl]
      simp only [updateCells, updateMatching, withClause, hok₁, hok₂, matching_congr hsame, hmap]

include h hok₁ hok₂ hsame

theorem add_congr : (q.withClause c₁).executeAdd t = (q.withClause c₂).executeAdd t := by
  rw [executeAdd_eq h.toFull, executeAdd_eq h.toFull]
  exact updateCells_congr q hok₁ hok₂ hsame _

theorem sub_congr (hop : 2 ≤ q.operands.length) :
    (q.withClause c₁).executeSub t = (q.withClause c₂).executeSub t := by
  rw [executeSub_eq h.toFull (q.withClause c₁) hop, executeSub_eq h.toFull (q.withClause c₂) hop]
  exact updateCells_congr q hok₁ hok₂ hsame _

theorem swap_congr : (q.withClause c₁).executeSwap t = (q.withClause c₂).executeSwap t := by
  by_cases hop : ∃ field1 field2, q.operands = [field1, field2]
  · obtain ⟨field1, field2, hop⟩ := hop
    rw [executeSwap_eq h.toFull (q := q.withClause c₁) hop,
      executeSwap_eq h.toFull (q := q.withClause c₂) hop]
    exact updateCells_congr q hok₁ hok₂ hsame _
  · unfold executeSwap withClause
    split
    · next field1 field2 heq => exact absurd ⟨field1, field2, heq⟩ hop
    · rfl

/-- UPDATE is the same under both clauses, also where it renames the rows. -/
theorem update_congr : (q.withClause c₁).executeUpdate t = (q.withClause c₂).executeUpdate t := by
  by_cases hop : q.operands.getD 0 "" = "KEY"
  · have hrows : ∀ body, WritesRow body →
        (q.withClause c₁).updateRows t body = (q.withClause c₂).updateRows t body := by
      intro body hbody
      have h₁ := updateRows_eq_these h.toFull (q.withClause c₁) hbody hok₁
      have h₂ := updateRows_eq_these h.toFull (q.withClause c₂) hbody hok₂
      rw [h₁, h₂]
      simp only [withClause, matching_congr hsame]
    unfold executeUpdate
    simp only [operands_withClause, hop, ↓reduceIte, pure, Except.pure]
    by_cases hkey : q.operands.getD 1 "" = ""
    · simp only [if_pos hkey]
      exact hrows _ (writesRow_putCell 0 0)
    · simp only [if_neg hkey]
      exact hrows _ (writesRow_setKey _)
  · rw [executeUpdate_eq h.toFull (q := q.withClause c₁) hop,
      executeUpdate_eq h.toFull (q := q.withClause c₂) hop]
    exact updateCells_congr q hok₁ hok₂ hsame _

/-- DELETE is the same under both clauses. -/
theorem delete_congr : (q.withClause c₁).executeDelete t = (q.withClause c₂).executeDelete t := by
  rw [executeDelete_eq h.toFull, executeDelete_eq h.toFull]
  simp only [withClause, hok₁, hok₂, deleteMatching, matching_congr hsame]

/-- DUPLICATE is the same under both clauses. -/
theorem duplicate_congr :
    (q.withClause c₁).executeDuplicate t = (q.withClause c₂).executeDuplicate t := by
  rw [executeDuplicate_eq h, executeDuplicate_eq h]
  simp only [withClause, hok₁, hok₂, duplicateMatching, copied, matching_congr hsame]

theorem count_congr : (q.withClause c₁).executeCount t = (q.withClause c₂).executeCount t := by
  rw [executeCount_eq h.toFull, executeCount_eq h.toFull]
  simp only [withClause, hok₁, hok₂, matching_congr hsame]
  rfl

theorem sum_congr : (q.withClause c₁).executeSum t = (q.withClause c₂).executeSum t := by
  rw [executeSum_eq h.toFull, executeSum_eq h.toFull]
  simp only [withClause, hok₁, hok₂, matching_congr hsame]
  rfl

/-- MIN and MAX are the same under both clauses. -/
theorem extremum_congr (better : Int32 → Int32 → Bool) (start : Int32) :
    (q.withClause c₁).executeExtremum better start t =
      (q.withClause c₂).executeExtremum better start t := by
  rw [executeExtremum_eq h.toFull, executeExtremum_eq h.toFull]
  simp only [withClause, hok₁, hok₂, matching_congr hsame]
  rfl

/-- SELECT is the same under both clauses, if both ask for two different keys or neither
does: such a clause is answered without a look at the operands. -/
theorem select_congr (hone : OneKey c₁ ↔ OneKey c₂) :
    (q.withClause c₁).executeSelect t = (q.withClause c₂).executeSelect t := by
  rw [executeSelect_eq h.toFull, executeSelect_eq h.toFull]
  simp only [withClause, hok₁, hok₂, matching_congr hsame, hone]
  rfl

end

section

variable {q : ComplexQuery} {c₁ c₂ : List QueryCondition} {database : Database}
  (ht : database.tables.get? q.targetTable = some t)

include ht

/-- Queries that compute the same from their table have the same result. -/
theorem reading_congr (handlers : Handlers) {f₁ f₂ : Table → Except DbError QueryResult}
    (hf : f₁ t = f₂ t) : (q.withClause c₁).reading handlers database f₁ =
      (q.withClause c₂).reading handlers database f₂ := by
  simp only [reading, withClause, Database.get, ht, bind, Except.bind, pure, Except.pure, hf]

/-- Queries with the same outcome on their table have the same result and database. -/
theorem writing_congr (handlers : Handlers) {f₁ f₂ : Table → Outcome} (hf : f₁ t = f₂ t) :
    (q.withClause c₁).writing handlers database f₁ =
      (q.withClause c₂).writing handlers database f₂ := by
  simp only [writing, withClause, Database.get, ht, pure, Except.pure, hf]

omit ht in
/-- The check of the operands does not look at the clause. -/
theorem withOperands_congr {qname format : String} {ok : Bool} {run₁ run₂ : QueryResult × Database}
    (hrun : ok = true → run₁ = run₂) :
    (q.withClause c₁).withOperands qname format ok database run₁ =
      (q.withClause c₂).withOperands qname format ok database run₂ := by
  cases ok with
  | false => rfl
  | true => exact hrun rfl

end

/-! ## SELECT -/

/-- An exception is turned into an error, or into nothing that is printed. -/
theorem handle_output (handlers : Handlers) (name : String) (e : DbError) :
    (handlers.handle name e).success = false ∨ (handlers.handle name e).output = "" := by
  cases e with
  | undefinedBehaviour => exact .inr rfl
  | _ => exact .inl rfl

section

variable {q : ComplexQuery} {database : Database}
  (ht : database.tables.get? q.targetTable = some t) (hkey : q.operands.headD "" = "KEY")
  (h : t.Full) {r : (String × Bool) × List QueryCondition}
  (hok : initCondition t "" q.condition = .ok r)

include hkey in
/-- A SELECT of the KEY first reads its table. -/
theorem select_eq_reading : q.select database =
    q.reading { qname := "SELECT", invalidArgument := "Unknown error '?'",
                exception := "Unkonwn error '?'" } database q.executeSelect := by
  have hop : q.operands ≠ [] := by
    intro hop
    rw [hop] at hkey
    contradiction
  simp only [select, withOperands, hkey, ne_eq, hop, not_false_eq_true, decide_true, ↓reduceIte,
    not_true_eq_false]

include ht hkey h hok

/-- A clause that asks for two different keys is answered by an empty line. -/
theorem select_contradictory (hone : ¬ OneKey q.condition) :
    (q.select database).1 = .successMsg "" := by
  rw [select_eq_reading hkey, reading]
  simp only [Database.get, ht, bind, Except.bind, pure, Except.pure, executeSelect_eq h, hok, hone,
    ↓reduceIte]

/-- Another clause that no row meets is answered by no text, if the operands can be
resolved. -/
theorem select_unmatched (hone : OneKey q.condition) (hnone : t.matching q.condition = []) :
    (q.select database).1.success = false ∨ (q.select database).1.output = "" := by
  have hnull : ∀ ids, selection (List.map (line ids) []) = .null := fun ids => by simp [selection]
  rw [select_eq_reading hkey, reading]
  simp only [Database.get, ht, bind, Except.bind, pure, Except.pure, executeSelect_eq h, hok, hone,
    ↓reduceIte, hnone, hnull]
  cases q.operands.tail.mapM t.getFieldIndex with
  | ok ids => exact .inr rfl
  | error e => exact handle_output _ _ e

/-- A clause that asks for two different keys is told apart from one that does not. -/
theorem select_differs (hone : ¬ OneKey q.condition) {c : List QueryCondition}
    {r' : (String × Bool) × List QueryCondition} (hok' : initCondition t "" c = .ok r')
    (hone' : OneKey c) (hsame : ∀ d ∈ t.data, t.Meets q.condition d ↔ t.Meets c d) :
    ¬ ((q.select database).1.success = ((q.withClause c).select database).1.success ∧
      (q.select database).1.output = ((q.withClause c).select database).1.output) := by
  obtain ⟨⟨key, flag⟩, conds⟩ := r
  have hnone : t.matching c = [] := by
    have hflag : flag = false := by
      have h := flag_iff_oneKey hok
      cases flag with
      | false => rfl
      | true => exact absurd (h.mp rfl) hone
    rw [← matching_congr hsame, ← selected_eq_matching h hok, hflag]
    rfl
  have hunmatched := select_unmatched (q := q.withClause c) ht hkey h hok' hone' hnone
  rw [select_contradictory ht hkey h hok hone]
  rintro ⟨hsuccess, houtput⟩
  obtain hfalse | hempty := hunmatched
  · rw [hfalse] at hsuccess
    contradiction
  · rw [hempty] at houtput
    contradiction

end

end ComplexQuery

/-! ## all queries -/

section

variable {query : Query} {w : World} {t : Table} {c₁ c₂ : List QueryCondition}
  {r₁ r₂ : (String × Bool) × List QueryCondition} (hq : query.hasClause = true)
  (ht : w.database.tables.get? query.table = some t) (h : t.Proper)
  (hok₁ : initCondition t "" c₁ = .ok r₁) (hok₂ : initCondition t "" c₂ = .ok r₂)
  (hsame : ∀ d ∈ t.data, t.Meets c₁ d ↔ t.Meets c₂ d)

include hq ht h hok₁ hok₂ hsame

/-- Every data query is the same under both clauses; SELECT of the KEY if both ask for two
different keys or neither does. -/
theorem execute_congr (hselect : ∀ q, query = .select q → q.operands.headD "" = "KEY" →
      (OneKey c₁ ↔ OneKey c₂)) :
    (query.withClause c₁).execute w = (query.withClause c₂).execute w := by
  have hworld : ∀ {f₁ f₂ : Database → QueryResult × Database}, f₁ w.database = f₂ w.database →
      w.onDatabase f₁ = w.onDatabase f₂ := fun hf => by simp only [World.onDatabase, hf]
  cases query with
  | select q =>
      refine hworld ?_
      by_cases hkey : q.operands.headD "" = "KEY"
      · rw [select_eq_reading (q := q.withClause c₁) hkey,
          select_eq_reading (q := q.withClause c₂) hkey]
        exact reading_congr ht _ (select_congr q h hok₁ hok₂ hsame (hselect q rfl hkey))
      · refine withOperands_congr fun _ => ?_
        rw [if_pos (show (q.withClause c₁).operands.headD "" ≠ "KEY" from hkey),
          if_pos (show (q.withClause c₂).operands.headD "" ≠ "KEY" from hkey)]
        rfl
  | count q => exact hworld (reading_congr ht _ (count_congr q h hok₁ hok₂ hsame))
  | sum q => exact hworld (reading_congr ht _ (sum_congr q h hok₁ hok₂ hsame))
  | min q =>
      exact hworld (withOperands_congr fun _ =>
        reading_congr ht _ (extremum_congr q h hok₁ hok₂ hsame _ _))
  | max q =>
      exact hworld (withOperands_congr fun _ =>
        reading_congr ht _ (extremum_congr q h hok₁ hok₂ hsame _ _))
  | delete q => exact hworld (writing_congr ht _ (delete_congr q h hok₁ hok₂ hsame))
  | duplicate q =>
      exact hworld (withOperands_congr fun _ =>
        writing_congr ht _ (duplicate_congr q h hok₁ hok₂ hsame))
  | add q =>
      exact hworld (withOperands_congr fun _ =>
        writing_congr ht _ (add_congr q h hok₁ hok₂ hsame))
  | sub q =>
      exact hworld (withOperands_congr fun hop =>
        writing_congr ht _ (sub_congr q h hok₁ hok₂ hsame (of_decide_eq_true hop)))
  | swap q => exact hworld (writing_congr ht _ (swap_congr q h hok₁ hok₂ hsame))
  | update q =>
      exact hworld (withOperands_congr fun _ =>
        writing_congr ht _ (update_congr q h hok₁ hok₂ hsame))
  | _ => contradiction

/-- **Clauses that the same rows meet are interchangeable**, in success, text and
tables left, except in a SELECT, where both or none have to ask for two different
keys. -/
theorem interchangeable_iff :
    (((query.withClause c₁).execute w).1.success = ((query.withClause c₂).execute w).1.success ∧
      ((query.withClause c₁).execute w).1.output = ((query.withClause c₂).execute w).1.output ∧
      ((query.withClause c₁).execute w).2 = ((query.withClause c₂).execute w).2) ↔
    ∀ q, query = .select q → q.operands.headD "" = "KEY" → (OneKey c₁ ↔ OneKey c₂) := by
  constructor
  · rintro ⟨hsuccess, houtput, _⟩ q rfl hkey
    by_contra hdiff
    by_cases hone : OneKey c₁
    · have hone₂ : ¬ OneKey c₂ := fun hone₂ => hdiff ⟨fun _ => hone₂, fun _ => hone⟩
      exact select_differs (q := q.withClause c₂) ht hkey h.toFull hok₂ hone₂ hok₁ hone
        (fun d hd => (hsame d hd).symm) ⟨hsuccess.symm, houtput.symm⟩
    · have hone₂ : OneKey c₂ := by
        by_contra hone₂
        exact hdiff ⟨fun h => absurd h hone, fun h => absurd h hone₂⟩
      exact select_differs (q := q.withClause c₁) ht hkey h.toFull hok₁ hone hok₂ hone₂ hsame
        ⟨hsuccess, houtput⟩
  · intro hselect
    have heq := execute_congr hq ht h hok₁ hok₂ hsame hselect
    exact ⟨congrArg (·.1.success) heq, congrArg (·.1.output) heq, congrArg (·.2) heq⟩

end

/-- No row has a value above 2, and no row has the key w. -/
theorem interchangeable_twoRows :
    ((Query.delete ⟨"T", [], [{ field := "a", op := ">", value := "2" }]⟩).execute
      { database := single twoRows }).1.output =
    ((Query.delete ⟨"T", [], [{ field := "KEY", op := "=", value := "w" }]⟩).execute
      { database := single twoRows }).1.output := by
  have hiff := @interchangeable_iff (.delete ⟨"T", [], []⟩) { database := single twoRows } twoRows
    [{ field := "a", op := ">", value := "2" }] [{ field := "KEY", op := "=", value := "w" }] _ _
    rfl (get?_single twoRows) proper_twoRows rfl rfl (by decide +kernel)
  exact (hiff.mpr fun _ hq => by contradiction).2.1

/-- SELECT tells a clause with two different keys from a clause with one of them, even
if no row has it. -/
theorem not_interchangeable : ¬ ∀ (query : Query) (w : World) (t : Table)
    (c₁ c₂ : List QueryCondition) (r₁ r₂ : (String × Bool) × List QueryCondition),
    query.hasClause = true → w.database.tables.get? query.table = some t → t.Proper →
    initCondition t "" c₁ = .ok r₁ → initCondition t "" c₂ = .ok r₂ →
    (∀ d ∈ t.data, t.Meets c₁ d ↔ t.Meets c₂ d) →
    ((query.withClause c₁).execute w).1.success = ((query.withClause c₂).execute w).1.success ∧
      ((query.withClause c₁).execute w).1.output = ((query.withClause c₂).execute w).1.output ∧
      ((query.withClause c₁).execute w).2 = ((query.withClause c₂).execute w).2 := by
  intro hall
  let c₁ : List QueryCondition :=
    [{ field := "KEY", op := "=", value := "p" }, { field := "KEY", op := "=", value := "q" }]
  let c₂ : List QueryCondition := [{ field := "KEY", op := "=", value := "p" }]
  have hsame : ∀ d ∈ twoRows.data, twoRows.Meets c₁ d ↔ twoRows.Meets c₂ d := by decide +kernel
  obtain ⟨hsuccess, houtput, _⟩ := hall (.select ⟨"T", ["KEY"], []⟩)
    { database := single twoRows } twoRows c₁ c₂ _ _ rfl (get?_single twoRows) proper_twoRows
    rfl rfl hsame
  exact select_differs (q := ⟨"T", ["KEY"], c₁⟩) (get?_single twoRows) rfl full_twoRows rfl
    (by decide) rfl (by decide) hsame ⟨hsuccess, houtput⟩

end LemonDB
