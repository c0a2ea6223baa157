import LemonDB.Db.Database
import LemonDB.Db.TableMap

/-!
# LemonDB.Db.DumpLoad

When loading the text of a table gives the table back.  Columns are padded to a
minimal width, but not separated, so an entry that fills its column runs into
the one before it.  `Table.Separated` says that no two entries do;
`load_dump_iff` that this is exactly when the text of a table is read back.
-/

namespace LemonDB

open TextStream

/-- A non-empty string without blanks. -/
def Word (s : String) : Prop := s.toList ≠ [] ∧ ∀ c ∈ s.toList, isSpace c = false

instance (s : String) : Decidable (Word s) :=
  decidable_of_iff (s.toList ≠ [] ∧ s.toList.all (!isSpace ·) = true) (by simp [Word])

namespace Table

/-- The tables that can be told from their text at all. -/
structure Printable (t : Table) : Prop where
  name : Word t.tableName
  field : ∀ f ∈ t.fields, Word f
  fields : t.fields.Nodup
  noKey : "KEY" ∉ t.fields
  key : ∀ d ∈ t.data, Word d.key
  keys : (t.data.map Datum.key).Nodup
  row : ∀ d ∈ t.data, d.datum.length = t.fields.length

/-- The values of a row stay apart from each other and from the key: the first
one has at most nine characters, and the others have at most nine, or a sign. -/
def SeparatedRow : List Int32 → Prop
  | [] => True
  | v :: vs => (-99999999 ≤ v.toInt ∧ v.toInt ≤ 999999999) ∧ ∀ w ∈ vs, w.toInt ≤ 999999999

/-- No entry of the text of the table runs into the one before it. -/
structure Separated (t : Table) : Prop where
  count : t.fields.length + 1 < 2 ^ 64
  field : ∀ f ∈ t.fields, f.length ≤ 9
  row : ∀ d ∈ t.data, SeparatedRow d.datum

/-- Loading the text of the table succeeds and registers the same table. -/
def Reloads (t : Table) (database : Database) (source : String) : Prop :=
  ∃ text database' t', t.text = some text ∧
    database.loadTableFromStream text source = .ok database' ∧
    database'.tables.get? t.tableName = some t' ∧
    t'.tableName = t.tableName ∧ t'.fields = t.fields ∧ t'.data = t.data

/-! ## columns -/

theorem column_eq (s : Text) : column s = List.replicate (width - s.length) ' ' ++ s := rfl

theorem isSpace_of_mem_replicate {n : Nat} {c : Char} (h : c ∈ List.replicate n ' ') :
    isSpace c = true := by
  rw [(List.mem_replicate.mp h).2]
  rfl

/-- A short entry has a blank in front of it. -/
theorem head?_column {s : Text} (h : s.length ≤ 9) : (column s).head? = some ' ' := by
  have hn : width - s.length = (9 - s.length) + 1 := by unfold width; omega
  rw [column_eq, hn, List.replicate_succ]
  rfl

/-- An entry that fills its column has none. -/
theorem column_of_length {s : Text} (h : ¬ s.length ≤ 9) : column s = s := by
  have hn : width - s.length = 0 := by unfold width; omega
  rw [column_eq, hn]
  rfl

/-- The first column of a line is always read back. -/
theorem readString_column {w s : Text} (hw : ∀ c ∈ w, isSpace c = false) (hne : w ≠ [])
    (hs : StartsBlank s) : readString (column w ++ s) = some (w, s) := by
  rw [column_eq, List.append_assoc]
  exact readString_append (fun c hc => isSpace_of_mem_replicate hc) hw hne hs

/-- A cell is read back from its column, whatever its width. -/
theorem readInt_column (v : Int32) {s : Text} (hs : StartsNonDigit s) :
    readInt (column (decimal v.toInt) ++ s) = some (v, s) := by
  rw [column_eq, List.append_assoc]
  exact readInt_decimal (fun c hc => isSpace_of_mem_replicate hc) v hs

/-- The columns of a list of entries. -/
def columns (l : List Text) : Text := l.flatMap column

theorem columns_cons (w : Text) (l : List Text) : columns (w :: l) = column w ++ columns l := rfl

theorem startsBlank_columns {l : List Text} (h : ∀ w ∈ l, w.length ≤ 9) :
    StartsBlank (columns l) := by
  intro c hc
  cases l with
  | nil => contradiction
  | cons w l =>
      rw [columns_cons, List.head?_append, head?_column (h w List.mem_cons_self)] at hc
      rw [← Option.some.inj hc]
      rfl

/-! ## the header -/

/-- The names of short fields are read back. -/
theorem readFields_columns : (fields : List String) → (∀ f ∈ fields, Word f) →
    (∀ f ∈ fields, f.length ≤ 9) →
    Database.readFields fields.length (columns (fields.map String.toList)) = some fields
  | [], _, _ => rfl
  | f :: fields, hw, hl => by
      have hrest : StartsBlank (columns (fields.map String.toList)) := by
        refine startsBlank_columns fun w hmem => ?_
        obtain ⟨g, hg, rfl⟩ := List.mem_map.mp hmem
        exact hl g (List.mem_cons_of_mem _ hg)
      have hf := hw f List.mem_cons_self
      rw [List.map_cons, columns_cons, List.length_cons, Database.readFields,
        readString_column hf.2 hf.1 hrest]
      have ih := readFields_columns fields (fun g hg => hw g (List.mem_cons_of_mem _ hg))
        fun g hg => hl g (List.mem_cons_of_mem _ hg)
      simp [ih]

/-- So many fields need so many words. -/
theorem le_wordStarts_of_readFields : {n : Nat} → {s : Text} → {fields : List String} →
    Database.readFields n s = some fields → n ≤ wordStarts s
  | 0, _, _, _ => Nat.zero_le _
  | n + 1, s, fields, h => by
      obtain ⟨⟨w, rest⟩, hw, h⟩ := Option.bind_eq_some_iff.mp h
      obtain ⟨fields', hf, _⟩ := Option.bind_eq_some_iff.mp h
      have ih := le_wordStarts_of_readFields hf
      have hone := wordStarts_readString hw
      omega

/-- The words in a line of columns: a long entry continues the one before. -/
theorem starts_columns : (l : List Text) → (∀ w ∈ l, w ≠ [] ∧ ∀ c ∈ w, isSpace c = false) →
    starts (!isSpace ·) true (columns l) = l.countP (·.length ≤ 9)
  | [], _ => rfl
  | w :: l, h => by
      have ih := starts_columns l fun w hw => h w (List.mem_cons_of_mem _ hw)
      obtain ⟨hne, hw⟩ := h w List.mem_cons_self
      have hw' : ∀ c ∈ w, (!isSpace c) = true := fun c hc => by simp [hw c hc]
      rw [columns_cons, List.countP_cons]
      by_cases hlen : w.length ≤ 9
      · have hhead : ∀ c ∈ (column w ++ columns l).head?, (!isSpace c) = false := by
          intro c hc
          rw [List.head?_append, head?_column hlen] at hc
          rw [← Option.some.inj hc]
          rfl
        rw [starts_of_head _ hhead, column_eq, List.append_assoc, starts_append_outside,
          starts_append_run _ hw' hne, ih]
        · simp [hlen, Nat.add_comm]
        · intro c hc
          simp [isSpace_of_mem_replicate hc]
      · rw [column_of_length hlen, starts_append_inside _ hw', ih]
        simp [hlen]

/-! ## rows -/

theorem not_isDigit_head_decimal {v : Int} (h : v ≤ 999999999) :
    ∃ c l, column (decimal v) = c :: l ∧ c.isDigit = false := by
  by_cases hlen : (decimal v).length ≤ 9
  · have hhead := head?_column hlen
    cases hc : column (decimal v) with
    | nil => rw [hc] at hhead; contradiction
    | cons c l =>
        rw [hc] at hhead
        exact ⟨c, l, rfl, by rw [Option.some.inj hhead]; decide⟩
  · have hneg : v < 0 := by
      rw [length_decimal_le_iff] at hlen
      omega
    rw [column_of_length hlen, decimal_of_neg hneg]
    exact ⟨'-', _, rfl, by decide⟩

theorem startsNonDigit_values {vs : List Int32} (h : ∀ w ∈ vs, w.toInt ≤ 999999999) :
    StartsNonDigit (columns (vs.map fun v => decimal v.toInt)) := by
  intro c hc
  cases vs with
  | nil => simp [columns] at hc
  | cons v vs =>
      obtain ⟨c', l, hcol, hd⟩ := not_isDigit_head_decimal (h v List.mem_cons_self)
      rw [List.map_cons, columns_cons, hcol, List.cons_append, List.head?_cons] at hc
      rw [← Option.some.inj hc]
      exact hd

/-- The values of a row are read back, if each of them but the first starts with a blank or
a sign. -/
theorem readValues_columns : (vs : List Int32) → (∀ w ∈ vs.tail, w.toInt ≤ 999999999) →
    Database.readValues vs.length (columns (vs.map fun v => decimal v.toInt)) = some vs
  | [], _ => rfl
  | v :: vs, h => by
      rw [List.map_cons, columns_cons, List.length_cons, Database.readValues,
        readInt_column v (@startsNonDigit_values vs h)]
      have ih := readValues_columns vs fun w hw => h w (List.mem_of_mem_tail hw)
      simp [ih]

/-- So many values need so many runs of digits. -/
theorem le_numberStarts_of_readValues : {n : Nat} → {s : Text} → {vs : List Int32} →
    Database.readValues n s = some vs → n ≤ numberStarts s
  | 0, _, _, _ => Nat.zero_le _
  | n + 1, s, vs, h => by
      obtain ⟨⟨v, rest⟩, hv, h⟩ := Option.bind_eq_some_iff.mp h
      obtain ⟨vs', hvs, _⟩ := Option.bind_eq_some_iff.mp h
      have ih := le_numberStarts_of_readValues hvs
      have hone := numberStarts_readInt hv
      omega

/-- A value has one run of digits, which continues the one before exactly when
the value is a positive one that fills its column. -/
theorem starts_column_decimal (v : Int) (s : Text) :
    starts Char.isDigit true (column (decimal v) ++ s) =
      (if v ≤ 999999999 then 1 else 0) + starts Char.isDigit true s := by
  have hdigits : ∀ n : Nat, ∀ c ∈ Nat.toDigits 10 n, c.isDigit = true :=
    fun n c hc => isDigit_of_mem_toDigits hc
  by_cases hv : v ≤ 999999999
  · obtain ⟨c, l, hcol, hc⟩ := not_isDigit_head_decimal hv
    have hhead : ∀ c ∈ (column (decimal v) ++ s).head?, c.isDigit = false := by
      intro c' hc'
      rw [hcol, List.cons_append, List.head?_cons] at hc'
      rw [← Option.some.inj hc']
      exact hc
    rw [if_pos hv, starts_of_head _ hhead, column_eq, List.append_assoc, starts_append_outside]
    · by_cases hneg : v < 0
      · rw [decimal_of_neg hneg, ← List.singleton_append, List.append_assoc, starts_append_outside]
        · exact starts_append_run _ (hdigits _) Nat.toDigits_ne_nil s
        · simp
      · rw [decimal_of_nonneg (Int.not_lt.mp hneg)]
        exact starts_append_run _ (hdigits _) Nat.toDigits_ne_nil s
    · intro c hc
      rw [(List.mem_replicate.mp hc).2]
      decide
  · have hlen : ¬ (decimal v).length ≤ 9 := by
      rw [length_decimal_le_iff]
      omega
    rw [if_neg hv, column_of_length hlen, decimal_of_nonneg (by omega),
      starts_append_inside _ (hdigits _), Nat.zero_add]

theorem starts_values : (vs : List Int32) →
    starts Char.isDigit true (columns (vs.map fun v => decimal v.toInt)) =
      vs.countP (·.toInt ≤ 999999999)
  | [] => rfl
  | v :: vs => by
      rw [List.map_cons, columns_cons, starts_column_decimal, starts_values vs, List.countP_cons,
        Nat.add_comm]
      simp

/-- The word that the key ends up in takes characters away from the values. -/
theorem numberStarts_dropWhile_le (s : Text) :
    numberStarts (s.dropWhile (!isSpace ·)) ≤ starts Char.isDigit true s := by
  have hhead : ∀ c ∈ (s.dropWhile (!isSpace ·)).head?, c.isDigit = false := by
    intro c hc
    have hspace := head?_dropWhile (!isSpace ·) s c hc
    cases hd : c.isDigit with
    | false => rfl
    | true => simp [not_isSpace_of_isDigit hd] at hspace
  have hle : ∀ (w r : Text) (b : Bool), (∀ c ∈ r.head?, c.isDigit = false) →
      numberStarts r ≤ starts Char.isDigit b (w ++ r) := by
    intro w r
    induction w with
    | nil =>
        intro b hr
        rw [List.nil_append, starts_of_head _ hr]
        exact Nat.le_refl _
    | cons c w ih =>
        intro b hr
        exact Nat.le_trans (ih _ hr) (Nat.le_add_left _ _)
  have h := hle (s.takeWhile (!isSpace ·)) _ true hhead
  rwa [List.takeWhile_append_dropWhile] at h

theorem dropWhile_append_word {w : Text} (hw : ∀ c ∈ w, isSpace c = false) (s : Text) :
    (w ++ s).dropWhile (!isSpace ·) = s.dropWhile (!isSpace ·) :=
  List.dropWhile_append_of_pos fun c hc => by simp [hw c hc]

/-- The line of a row, without its end. -/
theorem rowText_eq {n : Nat} {d : Datum} (h : d.datum.length = n) :
    rowText n d = some (column d.key.toList ++ columns (d.datum.map fun v => decimal v.toInt) ++
      ['\n']) := by
  rw [rowText, if_pos (Nat.le_of_eq h.symm), ← h, List.take_length, columns, List.flatMap_map]

/-- Reading a key and so many values from the line of a row: exactly the
separated rows are read back. -/
theorem readRow_iff {key : String} (hkey : Word key) (vs : List Int32) :
    (∃ s, readString (column key.toList ++ columns (vs.map fun v => decimal v.toInt)) =
        some (key.toList, s) ∧ Database.readValues vs.length s = some vs) ↔ SeparatedRow vs := by
  cases vs with
  | nil =>
      refine iff_of_true ⟨[], ?_, rfl⟩ trivial
      have h := readString_column (s := []) hkey.2 hkey.1 (fun c hc => by contradiction)
      simpa [columns] using h
  | cons v vs =>
      rw [List.map_cons, columns_cons]
      constructor
      · intro ⟨s, hread, hvals⟩
        have hcount := le_numberStarts_of_readValues hvals
        -- the text after the key
        have hs : s = (column (decimal v.toInt) ++
            columns (vs.map fun v => decimal v.toInt)).dropWhile (!isSpace ·) := by
          unfold readString at hread
          split at hread
          · contradiction
          · simp only [Option.some.injEq, Prod.mk.injEq] at hread
            rw [← hread.2, column_eq, List.append_assoc, List.dropWhile_append_of_pos
              fun c hc => isSpace_of_mem_replicate hc]
            have hkeep : (key.toList ++ (column (decimal v.toInt) ++
                columns (vs.map fun v => decimal v.toInt))).dropWhile isSpace = key.toList ++
                (column (decimal v.toInt) ++ columns (vs.map fun v => decimal v.toInt)) := by
              cases hk : key.toList with
              | nil => exact absurd hk hkey.1
              | cons c l => simp [hkey.2 c (by rw [hk]; exact List.mem_cons_self)]
            rw [hkeep, dropWhile_append_word hkey.2]
        by_cases hlen : (decimal v.toInt).length ≤ 9
        · refine ⟨(length_decimal_le_iff _).mp hlen, ?_⟩
          -- nothing was taken away, and each value has its own run of digits
          have hle := numberStarts_dropWhile_le (column (decimal v.toInt) ++
            columns (vs.map fun v => decimal v.toInt))
          rw [← hs, starts_column_decimal, starts_values] at hle
          have hmax := List.countP_le_length (p := fun v : Int32 => v.toInt ≤ 999999999) (l := vs)
          have hall : vs.countP (·.toInt ≤ 999999999) = vs.length := by
            rw [List.length_cons] at hcount
            split at hle <;> omega
          simpa using List.countP_eq_length.mp hall
        · exfalso
          rw [column_of_length hlen, dropWhile_append_word
            fun c hc => not_isSpace_of_mem_decimal hc] at hs
          have hle := numberStarts_dropWhile_le (columns (vs.map fun v => decimal v.toInt))
          rw [← hs, starts_values] at hle
          have hmax := List.countP_le_length (p := fun v : Int32 => v.toInt ≤ 999999999) (l := vs)
          rw [List.length_cons] at hcount
          omega
      · intro ⟨hv, hvs⟩
        refine ⟨_, readString_column hkey.2 hkey.1 ?_, ?_⟩
        · intro c hc
          rw [List.head?_append, head?_column ((length_decimal_le_iff _).mpr hv)] at hc
          rw [← Option.some.inj hc]
          rfl
        · exact readValues_columns (v :: vs) hvs

/-! ## the lines of the text -/

/-- The line of a row. -/
def line (d : Datum) : Text :=
  column d.key.toList ++ columns (d.datum.map fun v => decimal v.toInt)

theorem not_newline {c : Char} (h : isSpace c = false) : c ≠ '\n' := by
  rintro rfl
  exact absurd h (by decide)

theorem not_newline_column {w : Text} (hw : ∀ c ∈ w, isSpace c = false) :
    ∀ c ∈ column w, c ≠ '\n' := by
  intro c hc
  rw [column_eq, List.mem_append] at hc
  obtain hc | hc := hc
  · rw [(List.mem_replicate.mp hc).2]
    decide
  · exact not_newline (hw c hc)

theorem not_newline_columns {l : List Text} (hl : ∀ w ∈ l, ∀ c ∈ w, isSpace c = false) :
    ∀ c ∈ columns l, c ≠ '\n' := by
  intro c hc
  obtain ⟨w, hw, hc⟩ := List.mem_flatMap.mp hc
  exact not_newline_column (hl w hw) c hc

theorem not_newline_line {d : Datum} (hd : Word d.key) : ∀ c ∈ line d, c ≠ '\n' := by
  intro c hc
  obtain hc | hc := List.mem_append.mp hc
  · exact not_newline_column hd.2 c hc
  · refine not_newline_columns (fun w hw => ?_) c hc
    obtain ⟨v, _, rfl⟩ := List.mem_map.mp hw
    exact fun c hc => not_isSpace_of_mem_decimal hc

theorem line_ne_nil {d : Datum} (hd : Word d.key) : line d ≠ [] := by
  intro h
  rw [line, column_eq] at h
  exact hd.1 (List.append_eq_nil_iff.mp (List.append_eq_nil_iff.mp h).1).2

/-- The first line: the name and the number of columns. -/
def metadata (t : Table) : Text := t.tableName.toList ++ '\t' :: decimal (t.fields.length + 1)

variable {t : Table}

/-- The text of a table with printable names, line by line. -/
theorem text_eq (h : t.Printable) : t.text = some (t.metadata ++ '\n' :: (t.headerText ++ '\n' ::
    (t.data.map fun d => line d ++ ['\n']).flatten)) := by
  have hrows : t.data.mapM (rowText t.fields.length) = some (t.data.map fun d => line d ++ ['\n']) := by
    have hrow := h.row
    clear h
    generalize t.data = data at hrow ⊢
    induction data with
    | nil => rfl
    | cons d data ih =>
        rw [List.mapM_cons, rowText_eq (hrow d List.mem_cons_self),
          ih fun d hd => hrow d (List.mem_cons_of_mem _ hd)]
        rfl
  unfold text
  rw [hrows]
  simp [metadata]

theorem headerText_eq (t : Table) :
    t.headerText = column "KEY".toList ++ columns (t.fields.map String.toList) := by
  rw [headerText, columns, List.flatMap_map]

/-- The text has the lines that were written. -/
theorem lines_text (h : t.Printable) {text : Text} (ht : t.text = some text) :
    lines text = t.metadata :: t.headerText :: t.data.map line := by
  have hmeta : ∀ c ∈ t.metadata, c ≠ '\n' := by
    intro c hc
    rw [metadata, List.mem_append, List.mem_cons] at hc
    obtain hc | rfl | hc := hc
    · exact not_newline (h.name.2 c hc)
    · decide
    · exact not_newline (not_isSpace_of_mem_decimal hc)
  have hheader : ∀ c ∈ t.headerText, c ≠ '\n' := by
    intro c hc
    rw [headerText_eq, List.mem_append] at hc
    obtain hc | hc := hc
    · have hkey : Word "KEY" := by decide
      exact not_newline_column hkey.2 c hc
    · refine not_newline_columns (fun w hw => ?_) c hc
      obtain ⟨f, hf, rfl⟩ := List.mem_map.mp hw
      exact (h.field f hf).2
  have hrows := @lines_flatten (t.data.map line) fun l hl => by
    obtain ⟨d, hd, rfl⟩ := List.mem_map.mp hl
    exact not_newline_line (h.key d hd)
  rw [List.map_map] at hrows
  rw [text_eq h, Option.some.injEq] at ht
  rw [← ht, lines_append_newline hmeta, lines_append_newline hheader]
  exact congrArg _ (congrArg _ hrows)

/-! ## the lines read back -/

/-- The line reads as this row. -/
def RowReads (numFields : Nat) (l : Text) (d : Datum) : Prop :=
  ∃ s, readString l = some (d.key.toList, s) ∧ Database.readValues numFields s = some d.datum

/-- What the rows are read as is appended to the table. -/
theorem readRows_sound {err : String} {n : Nat} : {ls : List Text} → {count : Nat} →
    {t t' : Table} → (∀ l ∈ ls, l ≠ []) → Database.readRows err (n + 1) count t ls = .ok t' →
    ∃ data, t'.tableName = t.tableName ∧ t'.data = t.data ++ data ∧
      List.Forall₂ (RowReads n) ls data
  | [], _, t, t', _, h => by
      rw [← Except.ok.inj h]
      exact ⟨[], rfl, by simp, .nil⟩
  | [] :: ls, _, t, t', hne, h => absurd rfl (hne [] List.mem_cons_self)
  | (c :: l) :: ls, count, t, t', hne, h => by
      obtain ⟨⟨key, s⟩, hkey, h⟩ := Except.of_bind_eq_ok h
      obtain ⟨tuple, htuple, h⟩ := Except.of_bind_eq_ok h
      obtain ⟨t₁, hins, h⟩ := Except.of_bind_eq_ok h
      obtain ⟨data, hname, hdata, hall⟩ := readRows_sound (fun l hl => hne l (List.mem_cons_of_mem _ hl)) h
      have hread : readString (c :: l) = some (key, s) := by
        cases hr : readString (c :: l) with
        | none => rw [hr] at hkey; contradiction
        | some p => rw [hr] at hkey; exact congrArg some (Except.ok.inj hkey)
      have hvals : Database.readValues n s = some tuple := by
        rw [Nat.add_sub_cancel] at htuple
        cases hr : Database.readValues n s with
        | none => rw [hr] at htuple; contradiction
        | some p => rw [hr] at htuple; exact congrArg some (Except.ok.inj htuple)
      obtain ⟨_, rfl⟩ := of_insertByIndex_eq_ok hins
      refine ⟨⟨String.ofList key, tuple⟩ :: data, hname, ?_, .cons ⟨s, ?_, hvals⟩ hall⟩
      · rw [hdata, List.append_assoc, List.singleton_append]
      · rw [String.toList_ofList]
        exact hread

/-- Lines that read as rows with new keys are read. -/
theorem readRows_complete {err : String} {n : Nat} : {ls : List Text} → {data : List Datum} →
    (count : Nat) → {t : Table} → (∀ l ∈ ls, l ≠ []) → List.Forall₂ (RowReads n) ls data →
    t.Indexed → ((t.data ++ data).map Datum.key).Nodup →
    ∃ t', Database.readRows err (n + 1) count t ls = .ok t' ∧ t'.tableName = t.tableName ∧
      t'.fields = t.fields ∧ t'.data = t.data ++ data
  | [], [], count, t, _, _, _, _ => ⟨t, rfl, rfl, rfl, by simp⟩
  | [] :: ls, _, _, t, hne, _, _, _ => absurd rfl (hne [] List.mem_cons_self)
  | (c :: l) :: ls, d :: data, count, t, hne, hall, hindex, hnodup => by
      obtain ⟨⟨s, hread, hvals⟩, hall⟩ := List.forall₂_cons.mp hall
      have hnew : t.keyMap.get? d.key = none := by
        rw [hindex.get?_eq_none_iff]
        intro x hx hkey
        rw [List.map_append, List.nodup_append] at hnodup
        exact hnodup.2.2 _ (List.mem_map_of_mem hx) _ (by simp) hkey
      have hnodup' : (((t.data ++ [(⟨d.key, d.datum⟩ : Datum)]) ++ data).map Datum.key).Nodup := by
        simpa using hnodup
      obtain ⟨t', hread', hname, hfields, hdata⟩ := @readRows_complete err n _ _ (count + 1) _
        (fun l hl => hne l (List.mem_cons_of_mem _ hl)) hall
        (indexed_insert hindex hnew d.datum) hnodup'
      refine ⟨t', ?_, hname, hfields, by rw [hdata]; simp⟩
      rw [Database.readRows, hread]
      · simp only [Database.orThrow, Nat.add_sub_cancel, bind, Except.bind, pure, Except.pure, hvals,
          String.ofList_toList, insertByIndex_eq t hnew d.datum]
        exact hread'
      · exact List.cons_ne_nil c l

theorem foldlM_addField_ok {name : String} : (fields : List (String × Nat)) →
    (∀ p ∈ fields, p.1 ≠ "KEY") → (m : FiniteMap String Nat) →
    ∃ m', fields.foldlM (addField name) m = .ok m'
  | [], _, m => ⟨m, rfl⟩
  | p :: fields, h, m => by
      have hp : addField name m p = .ok (emplaceField m p.1 p.2) := by
        simp only [addField, h p List.mem_cons_self, ↓reduceIte]
        rfl
      rw [List.foldlM_cons, hp]
      exact foldlM_addField_ok fields (fun p hp => h p (List.mem_cons_of_mem _ hp)) _

/-- A table can be created from fields without a KEY. -/
theorem create_ok {name : String} {fields : List String} (h : "KEY" ∉ fields) :
    ∃ fieldMap, create name fields = .ok { tableName := name, fields, fieldMap } := by
  obtain ⟨m, hm⟩ := @foldlM_addField_ok name fields.zipIdx (fun p hp hk => by
    exact h (hk ▸ List.fst_mem_of_mem_zipIdx hp)) ∅
  exact ⟨m, by rw [create, hm]; rfl⟩

/-- The name of the table is read back. -/
theorem readString_metadata (h : t.Printable) :
    readString t.metadata = some (t.tableName.toList, '\t' :: decimal (t.fields.length + 1)) := by
  have hread := @readString_append [] _ ('\t' :: decimal (t.fields.length + 1))
    (fun c hc => by contradiction) h.name.2 h.name.1 fun c hc => by
      rw [← Option.some.inj hc]
      decide
  exact hread

/-- The number of fields is read back, if it fits into 64 bits. -/
theorem readSize_metadata (t : Table) : readSize ('\t' :: decimal (t.fields.length + 1)) =
    if t.fields.length + 1 < 2 ^ 64 then some (t.fields.length + 1, []) else none := by
  have hread := @readSize_decimal ['\t'] [] (fun c hc => by
    rw [List.mem_singleton.mp hc]
    decide) (t.fields.length + 1) fun c hc => by contradiction
  rw [List.append_nil] at hread
  exact hread

/-- A successful load, taken apart. -/
theorem of_load_eq_ok (h : t.Printable) {text : Text} (ht : t.text = some text)
    {database database' : Database} {source : String}
    (hload : database.loadTableFromStream text source = .ok database') :
    t.fields.length + 1 < 2 ^ 64 ∧
    (∃ fields, Database.readFields (t.fields.length + 1) t.headerText = some fields) ∧
    ∃ t', database'.tables.get? t.tableName = some t' ∧
      List.Forall₂ (RowReads t.fields.length) (t.data.map line) t'.data := by
  unfold Database.loadTableFromStream at hload
  simp only [lines_text h ht, readString_metadata h, Database.orThrow] at hload
  obtain ⟨⟨name, s⟩, hname, hload⟩ := Except.of_bind_eq_ok hload
  obtain ⟨rfl, rfl⟩ := Prod.mk.inj (Except.ok.inj hname)
  obtain ⟨⟨count, s⟩, hcount, hload⟩ := Except.of_bind_eq_ok hload
  rw [readSize_metadata] at hcount
  by_cases hlt : ¬ t.fields.length + 1 < 2 ^ 64
  · rw [if_neg hlt] at hcount
    contradiction
  · have hlt := not_not.mp hlt
    rw [if_pos hlt] at hcount
    obtain ⟨rfl, rfl⟩ := Prod.mk.inj (Except.ok.inj hcount)
    obtain ⟨_, _, hload⟩ := Except.of_bind_eq_ok hload
    obtain ⟨fields, hfields, hload⟩ := Except.of_bind_eq_ok hload
    refine ⟨hlt, ?_, ?_⟩
    · cases hf : Database.readFields (t.fields.length + 1) t.headerText with
      | none => rw [hf] at hfields; contradiction
      | some fields => exact ⟨fields, rfl⟩
    · cases fields with
      | nil => contradiction
      | cons key fields =>
          dsimp only at hload
          split at hload
          · contradiction
          · obtain ⟨t₀, hcreate, hload⟩ := Except.of_bind_eq_ok hload
            obtain ⟨t', hrows, hload⟩ := Except.of_bind_eq_ok hload
            obtain ⟨_, _, hload⟩ := Except.of_bind_eq_ok hload
            obtain ⟨data, hname, hdata, hall⟩ := readRows_sound (fun l hl => by
              obtain ⟨d, hd, rfl⟩ := List.mem_map.mp hl
              exact line_ne_nil (h.key d hd)) hrows
            have hempty : t₀.tableName = t.tableName ∧ t₀.data = [] := by
              unfold create at hcreate
              obtain ⟨m, _, hcreate⟩ := Except.of_bind_eq_ok hcreate
              rw [← Except.ok.inj hcreate]
              exact ⟨String.ofList_toList, rfl⟩
            rw [hempty.2, List.nil_append] at hdata
            rw [hempty.1] at hname
            refine ⟨t', ?_, hdata ▸ hall⟩
            rw [← Except.ok.inj hload, ← hname]
            exact FiniteMap.get?_set_self _ _ _

/-- A table that is read back has no entries that run into each other. -/
theorem separated_of_reloads (h : t.Printable) {database : Database} {source : String}
    (hload : t.Reloads database source) : t.Separated := by
  obtain ⟨text, database', t', ht, hload, hget, _, _, hdata⟩ := hload
  obtain ⟨hcount, ⟨fields, hfields⟩, t'', hget', hall⟩ := of_load_eq_ok h ht hload
  rw [hget, Option.some.injEq] at hget'
  rw [← hget', hdata] at hall
  refine ⟨hcount, ?_, ?_⟩
  · -- each field starts a word of its own
    have hle := le_wordStarts_of_readFields hfields
    have hwords : ∀ w ∈ "KEY".toList :: t.fields.map String.toList,
        w ≠ [] ∧ ∀ c ∈ w, isSpace c = false := by
      intro w hw
      obtain rfl | hw := List.mem_cons.mp hw
      · exact (by decide : Word "KEY")
      · obtain ⟨f, hf, rfl⟩ := List.mem_map.mp hw
        exact h.field f hf
    have hstarts := starts_columns _ hwords
    have hhead : ∀ c ∈ (columns ("KEY".toList :: t.fields.map String.toList)).head?,
        (!isSpace c) = false := by
      intro c hc
      rw [columns_cons, List.head?_append, head?_column (by decide)] at hc
      rw [← Option.some.inj hc]
      rfl
    rw [headerText_eq, ← columns_cons, wordStarts, ← starts_of_head _ hhead true, hstarts,
      List.countP_cons, List.countP_map] at hle
    have hmax := List.countP_le_length (p := (fun w : Text => decide (w.length ≤ 9)) ∘ String.toList)
      (l := t.fields)
    have hcount : t.fields.countP ((fun w : Text => decide (w.length ≤ 9)) ∘ String.toList) =
        t.fields.length := by
      split at hle <;> omega
    intro f hf
    have hf := List.countP_eq_length.mp hcount f hf
    rw [← String.length_toList]
    simpa using hf
  · intro d hd
    have hreads : RowReads t.fields.length (line d) d := by
      rw [List.forall₂_map_left_iff, List.forall₂_same] at hall
      exact hall d hd
    rw [← h.row d hd] at hreads
    exact (readRow_iff (h.key d hd) d.datum).mp hreads

/-- A table whose columns are separated is loaded again as it was. -/
theorem reloads_of_separated (h : t.Printable) {database : Database}
    (hnew : database.tables.get? t.tableName = none) (source : String) (hsep : t.Separated) :
    t.Reloads database source := by
  have hfields : Database.readFields (t.fields.length + 1) t.headerText =
      some ("KEY" :: t.fields) := by
    have hword : ∀ f ∈ "KEY" :: t.fields, Word f := by
      intro f hf
      obtain rfl | hf := List.mem_cons.mp hf
      · decide
      · exact h.field f hf
    have hshort : ∀ f ∈ "KEY" :: t.fields, f.length ≤ 9 := by
      intro f hf
      obtain rfl | hf := List.mem_cons.mp hf
      · decide
      · exact hsep.field f hf
    rw [headerText_eq]
    exact readFields_columns ("KEY" :: t.fields) hword hshort
  obtain ⟨fieldMap, hcreate⟩ := @create_ok t.tableName _ h.noKey
  obtain ⟨t', hrows, hname, hfields', hdata⟩ := @readRows_complete
    (Database.errString source) t.fields.length (t.data.map line) t.data 2
    { tableName := t.tableName, fields := t.fields, fieldMap } (fun l hl => by
      obtain ⟨d, hd, rfl⟩ := List.mem_map.mp hl
      exact line_ne_nil (h.key d hd)) (by
      rw [List.forall₂_map_left_iff, List.forall₂_same]
      intro d hd
      rw [← h.row d hd]
      exact (readRow_iff (h.key d hd) d.datum).mpr (hsep.row d hd))
    (PositionIndex.indexes_nil _) h.keys
  refine ⟨_, { database with tables := database.tables.set t'.tableName t' }, t',
    text_eq h, ?_, ?_, hname, hfields', hdata⟩
  · have hcount : t.fields.length + 1 < 2 ^ 64 := hsep.count
    unfold Database.loadTableFromStream
    rw [lines_text h (text_eq h)]
    simp only [readString_metadata h, readSize_metadata, Database.orThrow, hcount, ↓reduceIte,
      bind, Except.bind, pure, Except.pure, String.ofList_toList, Database.testDuplicate, hnew,
      hfields, ne_eq, not_true_eq_false, hcreate, hrows, Database.registerTable, hname]
  · rw [hname]
    exact FiniteMap.get?_set_self _ _ _

/-- **Dump and load**: loading the text of a table gives the same table back
exactly when no entry of the text runs into the one before it. -/
theorem load_dump_iff (h : t.Printable) {database : Database}
    (hnew : database.tables.get? t.tableName = none) (source : String) :
    t.Reloads database source ↔ t.Separated :=
  ⟨separated_of_reloads h, reloads_of_separated h hnew source⟩

/-- A value with ten digits runs into the key of its row. -/
theorem wide_value_not_reloaded : ∃ t,
    (create "T" ["v"] >>= (·.insertByIndex "x" [1234567890])) = .ok t ∧ t.Printable ∧
      ¬ t.Reloads {} "" := by
  obtain ⟨t, ht⟩ : ∃ t, (create "T" ["v"] >>= (·.insertByIndex "x" [1234567890])) = .ok t :=
    ⟨_, rfl⟩
  have hprint : t.Printable := by
    cases ht
    exact ⟨by decide, by decide, by decide, by decide, by decide, by decide, by decide⟩
  refine ⟨t, ht, hprint, fun hload => ?_⟩
  have hrow := (separated_of_reloads hprint hload).row ⟨"x", [1234567890]⟩ (by cases ht; simp)
  revert hrow
  unfold SeparatedRow
  decide

/-- A long negative value behind a shorter one is read back. -/
theorem load_dump_negative : ∃ t,
    (create "T" ["v", "w"] >>= (·.insertByIndex "x" [5, -1234567890])) = .ok t ∧
      t.Reloads {} "" := by
  obtain ⟨t, ht⟩ : ∃ t, (create "T" ["v", "w"] >>= (·.insertByIndex "x" [5, -1234567890])) = .ok t :=
    ⟨_, rfl⟩
  have hprint : t.Printable := by
    cases ht
    exact ⟨by decide, by decide, by decide, by decide, by decide, by decide, by decide⟩
  have hsep : t.Separated := by
    cases ht
    exact ⟨by decide, by decide, by simp [SeparatedRow]⟩
  exact ⟨t, ht, (load_dump_iff hprint rfl "").mpr hsep⟩

end Table

end LemonDB
