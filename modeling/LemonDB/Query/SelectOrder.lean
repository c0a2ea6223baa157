import LemonDB.Query.Interchange
import Mathlib.Data.List.Sort
import Mathlib.Data.String.Basic

/-!
# LemonDB.Query.SelectOrder

The answer to SELECT.  The code sorts the lines that it has written, not the
rows.  The keys are in order all the same: a key is followed by a space, which is
smaller than all that a key is made of.
-/

namespace LemonDB

open TextStream

/-- A word in front of a small separator is compared before what follows. -/
theorem lt_of_separated {sep : Char} {w₁ w₂ : Text} (hw : ∀ c ∈ w₂, sep < c) (h : w₁ < w₂)
    (s₁ s₂ : Text) : w₁ ++ sep :: s₁ < w₂ ++ sep :: s₂ := by
  induction w₁ generalizing w₂ with
  | nil =>
      cases w₂ with
      | nil => exact absurd h (List.not_lt_nil _)
      | cons c₂ w₂ => exact List.cons_lt_cons_iff.mpr (.inl (hw c₂ List.mem_cons_self))
  | cons c₁ w₁ ih =>
      cases w₂ with
      | nil => exact absurd h (List.not_lt_nil _)
      | cons c₂ w₂ =>
          obtain hlt | ⟨rfl, hlt⟩ := List.cons_lt_cons_iff.mp h
          · exact List.cons_lt_cons_iff.mpr (.inl hlt)
          · have ih := ih (fun c hc => hw c (List.mem_cons_of_mem _ hc)) hlt
            exact List.cons_lt_cons_iff.mpr (.inr ⟨rfl, ih⟩)

namespace Table

/-- What SELECT shows of a row: its key, and its values in some fields. -/
def shown (t : Table) (fields : List String) (d : Datum) : String :=
  "( " ++ d.key ++
    String.join (fields.map fun field => " " ++ QueryResult.showInt (t.value d field).toInt) ++ " )"

variable {t : Table}

/-- A row is shown by its key, a space and something else. -/
theorem shown_eq (t : Table) (fields : List String) (d : Datum) :
    ∃ s, (t.shown fields d).toList = '(' :: ' ' :: (d.key.toList ++ ' ' :: s) := by
  cases fields with
  | nil => exact ⟨[')'], by simp [shown]⟩
  | cons field fields => simp [shown, String.toList_join, String.toList_append]

/-- The order of the lines is the order of the keys. -/
theorem shown_lt (fields : List String) {d₁ d₂ : Datum} (hd : ∀ c ∈ d₂.key.toList, ' ' < c)
    (h : d₁.key < d₂.key) : t.shown fields d₁ ++ "\n" < t.shown fields d₂ ++ "\n" := by
  obtain ⟨s₁, hs₁⟩ := shown_eq t fields d₁
  obtain ⟨s₂, hs₂⟩ := shown_eq t fields d₂
  have hkey := lt_of_separated hd (String.lt_iff_toList_lt.mp h) (s₁ ++ ['\n']) (s₂ ++ ['\n'])
  rw [String.lt_iff_toList_lt, String.toList_append, String.toList_append, hs₁, hs₂]
  simpa using hkey

/-- A row is shown in one line. -/
theorem not_newline_shown (fields : List String) {d : Datum} (hd : ∀ c ∈ d.key.toList, ' ' < c) :
    ∀ c ∈ (t.shown fields d).toList, c ≠ '\n' := by
  intro c hc
  simp only [shown, String.toList_append, String.toList_join, List.mem_append, List.mem_flatMap,
    List.mem_map] at hc
  rintro rfl
  obtain ((hc | hc) | ⟨_, ⟨field, _, rfl⟩, hc⟩) | hc := hc
  · simp at hc
  · exact absurd (hd _ hc) (by decide)
  · rw [String.toList_append, List.mem_append, QueryResult.showInt,
      String.toList_ofList (l := decimal _)] at hc
    obtain hc | hc := hc
    · simp at hc
    · have hspace := not_isSpace_of_mem_decimal hc
      exact absurd hspace (by decide)
  · simp at hc

end Table

namespace ComplexQuery

variable {t : Table}

theorem line_eq_shown (t : Table) (fields : List String) (d : Datum) :
    line (fields.map fun field => t.fields.idxOf field) d = t.shown fields d ++ "\n" := by
  simp only [line, Table.shown, Table.value, List.map_map]
  rw [@String.append_assoc _ " )" _]
  rfl

/-- The rows in the order of their lines. -/
def sortedRows (t : Table) (fields : List String) (rows : List Datum) : List Datum :=
  rows.mergeSort fun a b => decide (t.shown fields a ++ "\n" ≤ t.shown fields b ++ "\n")

/-- Rows with different keys are sorted by their keys. -/
theorem pairwise_sortedRows (fields : List String) {rows : List Datum}
    (hkeys : ∀ d ∈ rows, ∀ c ∈ d.key.toList, ' ' < c) (hnodup : (rows.map Datum.key).Nodup) :
    (sortedRows t fields rows).Pairwise fun a b => a.key < b.key := by
  have hperm : (sortedRows t fields rows).Perm rows := List.mergeSort_perm _ _
  have hsorted := @List.pairwise_mergeSort _
    (fun a b => decide (t.shown fields a ++ "\n" ≤ t.shown fields b ++ "\n"))
    (fun a b c hab hbc => decide_eq_true (le_trans (of_decide_eq_true hab) (of_decide_eq_true hbc)))
    (fun a b => by simpa using le_total _ _) rows
  have hdistinct : (sortedRows t fields rows).Pairwise fun a b => a.key ≠ b.key :=
    List.pairwise_map.mp ((hperm.map Datum.key).nodup_iff.mpr hnodup)
  refine (hsorted.and hdistinct).imp_of_mem fun {a b} ha _ hab => ?_
  obtain hlt | heq | hgt := lt_trichotomy a.key b.key
  · exact hlt
  · exact absurd heq hab.2
  · have hline := Table.shown_lt (t := t) fields (hkeys a (hperm.mem_iff.mp ha)) hgt
    exact absurd (of_decide_eq_true hab.1) (not_le_of_gt hline)

theorem flatten_endsNewline {ls : List Text} (hne : ls ≠ []) :
    ∃ s, (ls.map (· ++ ['\n'])).flatten = s ++ ['\n'] := by
  obtain rfl | ⟨before, l, rfl⟩ := List.eq_nil_or_concat' ls
  · contradiction
  · exact ⟨(before.map (· ++ ['\n'])).flatten ++ l, by simp⟩

/-- The text of an answer with at least one line. -/
theorem selection_eq (t : Table) (fields : List String) {rows : List Datum} (hne : rows ≠ []) :
    ∃ msg, selection (rows.map (line (fields.map fun field => t.fields.idxOf field))) =
        .successMsg msg ∧
      (QueryResult.successMsg msg).output.toList =
        (((sortedRows t fields rows).map fun d => (t.shown fields d).toList).map
          (· ++ ['\n'])).flatten := by
  have hline : line (fields.map fun field => t.fields.idxOf field) =
      fun d => t.shown fields d ++ "\n" := funext (line_eq_shown t fields)
  have hsorted : (rows.map fun d => t.shown fields d ++ "\n").mergeSort
      (fun a b => decide (a ≤ b)) =
      (sortedRows t fields rows).map fun d => t.shown fields d ++ "\n" := by
    rw [sortedRows, List.map_mergeSort (s := fun a b => decide (a ≤ b)) fun _ _ _ _ => rfl]
  have htext : (String.join ((sortedRows t fields rows).map fun d =>
      t.shown fields d ++ "\n")).toList =
      (((sortedRows t fields rows).map fun d => (t.shown fields d).toList).map
        (· ++ ['\n'])).flatten := by
    rw [String.toList_join, List.flatMap_map, List.map_map, ← List.flatMap_def]
    exact List.flatMap_congr fun d _ => String.toList_append
  have hsome : (sortedRows t fields rows).map (fun d => (t.shown fields d).toList) ≠ [] := by
    have hperm : (sortedRows t fields rows).Perm rows := List.mergeSort_perm _ _
    rw [ne_eq, List.map_eq_nil_iff]
    exact fun hnil => hne (hnil ▸ hperm).symm.eq_nil
  obtain ⟨s, hs⟩ := flatten_endsNewline hsome
  rw [selection, hline, hsorted, hs]
  rw [hs] at htext
  generalize String.join _ = text at htext ⊢
  -- the last line break is taken away, and printed again
  have hne : text ≠ "" := by
    rintro rfl
    simp at htext
  refine ⟨String.ofList s, ?_, ?_⟩
  · simp [hne, htext]
  · simp [QueryResult.output]

section

variable {database : Database} {table : String} {fields : List String}
  {conds : List QueryCondition} {r : (String × Bool) × List QueryCondition}
  (ht : database.tables.get? table = some t) (h : t.Full)
  (hnodup : (t.data.map Datum.key).Nodup) (hkeys : ∀ d ∈ t.data, ∀ c ∈ d.key.toList, ' ' < c)
  (hfields : ∀ field ∈ fields, field ∈ t.fields)
  (hok : initCondition t "" conds = .ok r) (hmatch : t.matching conds ≠ [])

include ht h hnodup hkeys hfields hok hmatch

/-- **SELECT lists each matching row once, in the order of the keys**: the lines of
the answer show the matching rows, and their keys ascend. -/
theorem select_ascending : ∃ (msg : String) (rows : List Datum),
    select ⟨table, "KEY" :: fields, conds⟩ database = (.successMsg msg, database) ∧
    lines (QueryResult.successMsg msg).output.toList =
      rows.map (fun d => (t.shown fields d).toList) ∧
    rows.Perm (t.matching conds) ∧ rows.Pairwise fun a b => a.key < b.key := by
  have hsub := Table.matching_sublist t conds
  have hkeys : ∀ d ∈ t.matching conds, ∀ c ∈ d.key.toList, ' ' < c :=
    fun d hd => hkeys d (hsub.subset hd)
  have hperm : (sortedRows t fields (t.matching conds)).Perm (t.matching conds) :=
    List.mergeSort_perm _ _
  have hone : OneKey conds := by
    obtain ⟨⟨key, flag⟩, conds'⟩ := r
    obtain ⟨d, hd⟩ := List.exists_mem_of_ne_nil _ hmatch
    have hmeets := (Table.mem_matching.mp hd).2
    cases flag with
    | true => exact (flag_iff_oneKey hok).mp rfl
    | false => exact absurd hmeets (not_meets_of_flag hok fun hne => absurd rfl hne)
  obtain ⟨msg, hmsg, htext⟩ := selection_eq t fields hmatch
  refine ⟨msg, _, ?_, ?_, hperm, pairwise_sortedRows fields hkeys (hnodup.sublist (hsub.map _))⟩
  · have hids := mapM_getFieldIndex_eq_idxOf h fields hfields
    rw [select_eq_reading (by rfl), reading]
    simp only [Database.get, ht, bind, Except.bind, pure, Except.pure, executeSelect_eq h, hok, hone,
      ↓reduceIte, List.tail_cons, hids, hmsg]
  · rw [htext]
    refine lines_flatten fun l hl => ?_
    obtain ⟨d, hd, rfl⟩ := List.mem_map.mp hl
    exact Table.not_newline_shown fields (hkeys d (hperm.mem_iff.mp hd))

end

theorem printable_twoRows : ∀ d ∈ twoRows.data, ∀ c ∈ d.key.toList, ' ' < c := by
  have hkeys : ∀ d ∈ twoRows.data, (d.key.toList.all fun c => ' ' < c) = true := by decide
  exact fun d hd c hc => of_decide_eq_true (List.all_eq_true.mp (hkeys d hd) c hc)

/-- A clause that both rows meet. -/
theorem select_ascending_twoRows : ∃ (msg : String) (rows : List Datum),
    select ⟨"T", ["KEY", "a"], [{ field := "a", op := ">", value := "0" }]⟩ (single twoRows) =
      (.successMsg msg, single twoRows) ∧
    lines (QueryResult.successMsg msg).output.toList =
      rows.map (fun d => (twoRows.shown ["a"] d).toList) ∧
    rows.Perm (twoRows.matching [{ field := "a", op := ">", value := "0" }]) ∧
    rows.Pairwise fun a b => a.key < b.key :=
  select_ascending (get?_single twoRows) full_twoRows (by decide) printable_twoRows (by decide) rfl
    (by decide)

end ComplexQuery

end LemonDB
