import LemonDB.Lib.Except
import LemonDB.Query.Execute

/-!
# LemonDB.Query.Endings

The end of the program.  QUIT ends it by an exception of its own; no other query
has that result, whatever the tables and files are.
-/

namespace LemonDB

namespace ComplexQuery

variable {q : ComplexQuery} {h : Handlers} {database : Database}

/-- An exception that a query catches becomes an error, not the end of the program. -/
theorem handle_ne_quit (h : Handlers) (table : String) (e : DbError) :
    h.handle table e ≠ .quit := by
  cases e <;> simp [Handlers.handle, QueryResult.tableError]

/-- A query that reads its table does not end the program, if what it computes from the
table does not. -/
theorem reading_ne_quit {f : Table → Except DbError QueryResult}
    (hf : ∀ t result, f t = .ok result → result ≠ .quit) : (q.reading h database f).1 ≠ .quit := by
  unfold reading
  split
  · next result hr =>
      obtain ⟨t, _, ht⟩ := Except.of_bind_eq_ok hr
      exact hf t result ht
  · exact handle_ne_quit h _ _

/-- A query that changes its table does not end the program, if its outcome on the table
does not. -/
theorem writing_ne_quit {f : Table → Outcome}
    (hf : ∀ t result, (f t).1 = .ok result → result ≠ .quit) :
    (q.writing h database f).1 ≠ .quit := by
  unfold writing
  split
  · exact handle_ne_quit h _ _
  · next t _ =>
      dsimp only
      split
      · next result hr => exact hf t result hr
      · exact handle_ne_quit h _ _

/-- Wrong operands are an error, not the end of the program. -/
theorem withOperands_ne_quit {qname format : String} {ok : Bool} {run : QueryResult × Database}
    (hrun : run.1 ≠ .quit) : (q.withOperands qname format ok database run).1 ≠ .quit := by
  unfold withOperands
  split
  · exact hrun
  · simp [QueryResult.tableError]

/-- A number of rows is no end. -/
theorem counter_ne_quit {counter : Except DbError Nat} {result : QueryResult}
    (h : counter.map recordCount = .ok result) : result ≠ .quit := by
  cases counter with
  | error e => contradiction
  | ok n =>
      rw [← Except.ok.inj h]
      simp [recordCount]

/-- A scan that changes rows ends with a number of rows. -/
theorem updateRows_ne_quit {t : Table} {body : Table → Nat → Datum → Except DbError Table}
    {result : QueryResult} (h : (q.updateRows t body).1 = .ok result) : result ≠ .quit := by
  unfold updateRows at h
  split at h
  · contradiction
  · rw [← Except.ok.inj h]
    simp [recordCount]
  · exact counter_ne_quit h

variable {t : Table} {result : QueryResult}

/-- ADD does not end the program. -/
theorem executeAdd_ne_quit (h : (q.executeAdd t).1 = .ok result) : result ≠ .quit := by
  unfold executeAdd at h
  dsimp only at h
  split at h
  · contradiction
  · exact updateRows_ne_quit h

/-- SUB does not end the program. -/
theorem executeSub_ne_quit (h : (q.executeSub t).1 = .ok result) : result ≠ .quit := by
  unfold executeSub at h
  dsimp only at h
  split at h
  · contradiction
  · exact updateRows_ne_quit h

/-- SWAP does not end the program. -/
theorem executeSwap_ne_quit (h : (q.executeSwap t).1 = .ok result) : result ≠ .quit := by
  unfold executeSwap at h
  dsimp only at h
  split at h
  · split at h
    · contradiction
    · exact updateRows_ne_quit h
  · rw [← Except.ok.inj h]
    simp [QueryResult.tableError]

/-- UPDATE does not end the program. -/
theorem executeUpdate_ne_quit (h : (q.executeUpdate t).1 = .ok result) : result ≠ .quit := by
  unfold executeUpdate at h
  dsimp only at h
  split at h
  · contradiction
  · exact updateRows_ne_quit h

/-- INSERT does not end the program. -/
theorem executeInsert_ne_quit (h : (q.executeInsert t).1 = .ok result) : result ≠ .quit := by
  unfold executeInsert at h
  split at h
  · contradiction
  · rw [← Except.ok.inj h]
    simp

/-- DELETE does not end the program. -/
theorem executeDelete_ne_quit (h : (q.executeDelete t).1 = .ok result) : result ≠ .quit := by
  unfold executeDelete at h
  dsimp only at h
  split at h
  · contradiction
  · exact counter_ne_quit h

/-- DUPLICATE does not end the program. -/
theorem executeDuplicate_ne_quit (h : (q.executeDuplicate t).1 = .ok result) :
    result ≠ .quit := by
  unfold executeDuplicate at h
  dsimp only at h
  split at h
  · contradiction
  · exact counter_ne_quit h

theorem executeCount_ne_quit (h : q.executeCount t = .ok result) : result ≠ .quit := by
  obtain ⟨_, _, h⟩ := Except.of_bind_eq_ok h
  obtain ⟨_, _, h⟩ := Except.of_bind_eq_ok h
  rw [← Except.ok.inj h]
  simp [QueryResult.answer]

theorem executeSum_ne_quit (h : q.executeSum t = .ok result) : result ≠ .quit := by
  unfold executeSum at h
  split at h
  · rw [← Except.ok.inj h]
    simp [QueryResult.tableError]
  · split at h
    · rw [← Except.ok.inj h]
      simp [QueryResult.tableError]
    · obtain ⟨_, _, h⟩ := Except.of_bind_eq_ok h
      obtain ⟨_, _, h⟩ := Except.of_bind_eq_ok h
      obtain ⟨_, _, h⟩ := Except.of_bind_eq_ok h
      rw [← Except.ok.inj h]
      simp [QueryResult.answers]

/-- MIN and MAX do not end the program. -/
theorem executeExtremum_ne_quit {better : Int32 → Int32 → Bool} {start : Int32}
    (h : q.executeExtremum better start t = .ok result) : result ≠ .quit := by
  obtain ⟨_, _, h⟩ := Except.of_bind_eq_ok h
  obtain ⟨_, _, h⟩ := Except.of_bind_eq_ok h
  obtain ⟨_, _, h⟩ := Except.of_bind_eq_ok h
  rw [← Except.ok.inj h]
  split <;> simp [QueryResult.answers]

theorem executeSelect_ne_quit (h : q.executeSelect t = .ok result) : result ≠ .quit := by
  obtain ⟨_, _, h⟩ := Except.of_bind_eq_ok h
  dsimp only at h
  split at h
  · obtain ⟨_, _, h⟩ := Except.of_bind_eq_ok h
    obtain ⟨_, _, h⟩ := Except.of_bind_eq_ok h
    rw [← Except.ok.inj h]
    split <;> simp
  · rw [← Except.ok.inj h]
    simp

/-- SELECT does not end the program, also where it fails before it has a table. -/
theorem select_ne_quit : (q.select database).1 ≠ .quit := by
  refine withOperands_ne_quit ?_
  split
  · simp [QueryResult.tableError]
  · exact reading_ne_quit fun _ _ => executeSelect_ne_quit

end ComplexQuery

open ComplexQuery QueryResult in
/-- **No query but QUIT** ends the program. -/
theorem quit_of_execute {query : Query} {w : World} (h : (query.execute w).1 = .quit) :
    query = .quit := by
  by_contra hne
  refine absurd h ?_
  cases query with
  | quit => contradiction
  | load t f =>
      show (w.load f).1 ≠ .quit
      unfold World.load
      repeat' split
      all_goals simp [queryError]
  | dump t f =>
      show (w.dump t f).1 ≠ .quit
      unfold World.dump
      dsimp only
      repeat' split
      all_goals simp [queryError]
  | drop t =>
      show (w.database.executeDrop t).1 ≠ .quit
      unfold Database.executeDrop
      split <;> simp [tableError]
  | truncate t =>
      show (w.database.executeTruncate t).1 ≠ .quit
      unfold Database.executeTruncate
      split <;> simp [tableError]
  | copyTable t t' =>
      show (w.database.executeCopyTable t t').1 ≠ .quit
      unfold Database.executeCopyTable
      repeat' split
      all_goals simp [tableError]
  | printTable t =>
      show w.database.executePrintTable t ≠ .quit
      unfold Database.executePrintTable
      repeat' split
      all_goals simp [tableError, querySuccess]
  | list | listen | nop => simp [Query.execute]
  | insert q => exact withOperands_ne_quit (writing_ne_quit fun _ _ => executeInsert_ne_quit)
  | update q => exact withOperands_ne_quit (writing_ne_quit fun _ _ => executeUpdate_ne_quit)
  | select q => exact select_ne_quit
  | delete q => exact writing_ne_quit fun _ _ => executeDelete_ne_quit
  | duplicate q =>
      exact withOperands_ne_quit (writing_ne_quit fun _ _ => executeDuplicate_ne_quit)
  | count q => exact reading_ne_quit fun _ _ => executeCount_ne_quit
  | sum q => exact reading_ne_quit fun _ _ => executeSum_ne_quit
  | min q => exact withOperands_ne_quit (reading_ne_quit fun _ _ => executeExtremum_ne_quit)
  | max q => exact withOperands_ne_quit (reading_ne_quit fun _ _ => executeExtremum_ne_quit)
  | add q => exact withOperands_ne_quit (writing_ne_quit fun _ _ => executeAdd_ne_quit)
  | sub q => exact withOperands_ne_quit (writing_ne_quit fun _ _ => executeSub_ne_quit)
  | swap q => exact writing_ne_quit fun _ _ => executeSwap_ne_quit

end LemonDB
