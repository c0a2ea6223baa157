import LemonDB.Query.Footprint
import LemonDB.Query.KeyedTables
import LemonDB.Query.RowOrder
import LemonDB.Runtime.Runtime

/-!
# LemonDB.Runtime.RowOrderRuns

The order in which rows are stored is not observable: the single-threaded loop outputs
the same from two worlds whose tables have the same rows, and leaves such worlds again.
DUMP and SHOWTABLE are left out, which write the rows in their order, and LIST, which
prints the tables in the order of their map; so is an UPDATE of the KEY, which can end
the key index.
-/

namespace LemonDB

open ComplexQuery

/-! ## worlds up to the order of rows -/

namespace Database

/-- The same tables, up to the order of their rows. -/
def SameTables (d₁ d₂ : Database) : Prop :=
  ∀ name, Option.Rel Table.SameRows (d₁.tables.get? name) (d₂.tables.get? name)

namespace SameTables

variable {d₁ d₂ : Database}

/-- A name has no table in both, or two tables with the same rows. -/
theorem cases (h : d₁.SameTables d₂) (name : String) :
    (d₁.tables.get? name = none ∧ d₂.tables.get? name = none) ∨
    ∃ t₁ t₂, d₁.tables.get? name = some t₁ ∧ d₂.tables.get? name = some t₂ ∧ t₁.SameRows t₂ := by
  have h := h name
  cases h₁ : d₁.tables.get? name with
  | none =>
      rw [h₁] at h
      cases h₂ : d₂.tables.get? name with
      | none => exact .inl ⟨rfl, rfl⟩
      | some t₂ => rw [h₂] at h; contradiction
  | some t₁ =>
      rw [h₁] at h
      cases h₂ : d₂.tables.get? name with
      | none => rw [h₂] at h; contradiction
      | some t₂ =>
          rw [h₂] at h
          obtain ⟨h⟩ := h
          exact .inr ⟨t₁, t₂, rfl, rfl, h⟩

theorem set (h : d₁.SameTables d₂) (name : String) {t₁ t₂ : Table} (ht : t₁.SameRows t₂) :
    (d₁.setTable name t₁).SameTables (d₂.setTable name t₂) := by
  intro name'
  show Option.Rel _ ((d₁.tables.set name t₁).get? name') ((d₂.tables.set name t₂).get? name')
  rw [FiniteMap.get?_set, FiniteMap.get?_set]
  split
  · exact .some ht
  · exact h name'

theorem remove (h : d₁.SameTables d₂) (name : String) :
    SameTables { d₁ with tables := d₁.tables.remove name }
      { d₂ with tables := d₂.tables.remove name } := by
  intro name'
  show Option.Rel _ ((d₁.tables.remove name).get? name') ((d₂.tables.remove name).get? name')
  rw [FiniteMap.get?_remove, FiniteMap.get?_remove]
  split
  · exact .none
  · exact h name'

end SameTables

end Database

/-- The same tables, up to the order of their rows, and the same files. -/
structure World.SameTables (w₁ w₂ : World) : Prop where
  tables : w₁.database.SameTables w₂.database
  file : ∀ path, w₁.view (.file path) = w₂.view (.file path)

/-- Full rows, exact key maps, and row numbers that fit the type of a count. -/
structure World.Regular (w : World) : Prop where
  rectangular : w.database.Rectangular
  keyed : w.database.Keyed
  small : ∀ name ∈ w.database.tables.keys, ∀ t ∈ w.database.tables.get? name,
    t.data.length < 2 ^ 31

/-- A table of a regular world is sound. -/
theorem World.Regular.sound {w : World} (r : w.Regular) {name : String} {t : Table}
    (h : w.database.tables.get? name = some t) : t.Sound where
  fieldMap := (r.rectangular name t h).fieldMap
  index := (r.keyed name t h).index
  row := (r.rectangular name t h).row
  size := r.small name ((FiniteMap.mem_keys_iff _ _).mpr ⟨t, h⟩) t h

/-- A query that does not depend on the order of rows. -/
def Query.orderFree : Query → Bool
  | dump .. | list | printTable _ => false
  | update q => decide (q.operands.headD "" ≠ "KEY")
  | _ => true

/-! ## one query -/

/-- The results agree, and the databases have the same tables. -/
def SameStep (r₁ r₂ : QueryResult × Database) : Prop :=
  r₁.1 = r₂.1 ∧ r₁.2.SameTables r₂.2

/-- All tables are sound. -/
def SoundTables (d : Database) : Prop :=
  ∀ {name t}, d.tables.get? name = some t → t.Sound

section

variable {q : ComplexQuery} {d₁ d₂ : Database} (s₁ : SoundTables d₁) (s₂ : SoundTables d₂)

include s₁ s₂

/-- A query that only reads its table. -/
theorem sameTables_reading (handlers : Handlers) {f : Table → Except DbError QueryResult}
    (h : d₁.SameTables d₂)
    (hf : ∀ {t₁ t₂}, t₁.Sound → t₂.Sound → t₁.SameRows t₂ → f t₁ = f t₂) :
    SameStep (q.reading handlers d₁ f) (q.reading handlers d₂ f) := by
  unfold reading Database.get
  obtain ⟨h₁, h₂⟩ | ⟨t₁, t₂, h₁, h₂, ht⟩ := h.cases q.targetTable
  · simp only [h₁, h₂, bind, Except.bind]
    exact ⟨rfl, h⟩
  · simp only [h₁, h₂, bind, Except.bind, pure, Except.pure, hf (s₁ h₁) (s₂ h₂) ht]
    cases f t₂ <;> exact ⟨rfl, h⟩

/-- A query that changes its table. -/
theorem sameTables_writing (handlers : Handlers) {f : Table → Outcome} (h : d₁.SameTables d₂)
    (hf : ∀ {t₁ t₂}, t₁.Sound → t₂.Sound → t₁.SameRows t₂ → Agree (f t₁) (f t₂)) :
    SameStep (q.writing handlers d₁ f) (q.writing handlers d₂ f) := by
  unfold writing Database.get
  obtain ⟨h₁, h₂⟩ | ⟨t₁, t₂, h₁, h₂, ht⟩ := h.cases q.targetTable
  · simp only [h₁, h₂]
    exact ⟨rfl, h⟩
  · obtain ⟨hres, hrows⟩ := hf (s₁ h₁) (s₂ h₂) ht
    simp only [h₁, h₂, pure, Except.pure, hres]
    cases (f t₂).1 <;> exact ⟨rfl, h.set _ hrows⟩

omit s₁ s₂ in
/-- The check of the operands does not look at the tables. -/
theorem sameTables_withOperands {qname format : String} {ok : Bool}
    {run₁ run₂ : QueryResult × Database} (h : d₁.SameTables d₂)
    (hrun : ok = true → SameStep run₁ run₂) :
    SameStep (q.withOperands qname format ok d₁ run₁) (q.withOperands qname format ok d₂ run₂) := by
  unfold withOperands
  cases ok with
  | false => exact ⟨rfl, h⟩
  | true => exact hrun rfl

end

section

variable {w₁ w₂ : World} {query : Query}

theorem sameTables_onDatabase (h : w₁.SameTables w₂) {f : Database → QueryResult × Database}
    (hf : (f w₁.database).1 = (f w₂.database).1 ∧
      (f w₁.database).2.SameTables (f w₂.database).2) :
    (w₁.onDatabase f).1 = (w₂.onDatabase f).1 ∧
      (w₁.onDatabase f).2.SameTables (w₂.onDatabase f).2 :=
  ⟨hf.1, hf.2, h.file⟩

/-- A data query. -/
theorem sameTables_row (h : w₁.SameTables w₂) (r₁ : w₁.Regular) (r₂ : w₂.Regular)
    (hq : query.isRowQuery = true) : (query.execute w₁).1 = (query.execute w₂).1 ∧
      (query.execute w₁).2.SameTables (query.execute w₂).2 := by
  have s₁ : SoundTables w₁.database := fun hget => r₁.sound hget
  have s₂ : SoundTables w₂.database := fun hget => r₂.sound hget
  have hd := h.tables
  cases query with
  | insert q =>
      exact sameTables_onDatabase h <| sameTables_withOperands hd fun _ =>
        sameTables_writing s₁ s₂ _ hd fun s₁ s₂ ht => agree_executeInsert s₁ s₂ ht q
  | update q =>
      have hkey := Query.operand_of_isRowQuery hq
      exact sameTables_onDatabase h <| sameTables_withOperands hd fun _ =>
        sameTables_writing s₁ s₂ _ hd fun s₁ s₂ ht => agree_executeUpdate s₁ s₂ ht q hkey
  | select q =>
      refine sameTables_onDatabase h <| sameTables_withOperands hd fun _ => ?_
      split
      · exact ⟨rfl, hd⟩
      · exact sameTables_reading s₁ s₂ _ hd fun s₁ s₂ ht => executeSelect_congr s₁ s₂ ht q
  | delete q =>
      exact sameTables_onDatabase h <|
        sameTables_writing s₁ s₂ _ hd fun s₁ s₂ ht => agree_executeDelete s₁ s₂ ht q
  | duplicate q =>
      exact sameTables_onDatabase h <| sameTables_withOperands hd fun _ =>
        sameTables_writing s₁ s₂ _ hd fun s₁ s₂ ht => agree_executeDuplicate s₁ s₂ ht q
  | count q =>
      exact sameTables_onDatabase h <|
        sameTables_reading s₁ s₂ _ hd fun s₁ s₂ ht => executeCount_congr s₁ s₂ ht q
  | sum q =>
      exact sameTables_onDatabase h <|
        sameTables_reading s₁ s₂ _ hd fun s₁ s₂ ht => executeSum_congr s₁ s₂ ht q
  | min q =>
      exact sameTables_onDatabase h <| sameTables_withOperands hd fun _ =>
        sameTables_reading s₁ s₂ _ hd fun s₁ s₂ ht =>
          executeExtremum_congr s₁ s₂ ht q min_comm_of_lt _
  | max q =>
      exact sameTables_onDatabase h <| sameTables_withOperands hd fun _ =>
        sameTables_reading s₁ s₂ _ hd fun s₁ s₂ ht =>
          executeExtremum_congr s₁ s₂ ht q max_comm_of_gt _
  | add q =>
      exact sameTables_onDatabase h <| sameTables_withOperands hd fun _ =>
        sameTables_writing s₁ s₂ _ hd fun s₁ s₂ ht => agree_executeAdd s₁ s₂ ht q
  | sub q =>
      exact sameTables_onDatabase h <| sameTables_withOperands hd fun hop =>
        sameTables_writing s₁ s₂ _ hd fun s₁ s₂ ht =>
          agree_executeSub s₁ s₂ ht q (of_decide_eq_true hop)
  | swap q =>
      exact sameTables_onDatabase h <|
        sameTables_writing s₁ s₂ _ hd fun s₁ s₂ ht => agree_executeSwap s₁ s₂ ht q
  | _ => contradiction

/-- A LOAD reads the same file, and looks at one name. -/
theorem sameTables_load (h : w₁.SameTables w₂) (fileName : String) :
    (w₁.load fileName).1 = (w₂.load fileName).1 ∧
      (w₁.load fileName).2.SameTables (w₂.load fileName).2 := by
  have hfile := (Content.file.inj (h.file fileName)).1
  cases hget : w₁.files.get? fileName with
  | none =>
      rw [hget] at hfile
      unfold World.load
      rw [hget, ← hfile]
      exact ⟨rfl, h⟩
  | some text =>
      rw [hget] at hfile
      rw [Query.load_eq_loaded hget, Query.load_eq_loaded hfile.symm]
      have herror : ∀ e, (Query.loaded w₁ (.error e)).1 = (Query.loaded w₂ (.error e)).1 ∧
          (Query.loaded w₁ (.error e)).2.SameTables (Query.loaded w₂ (.error e)).2 := by
        intro e
        obtain ⟨r, hr⟩ := Query.loaded_error e
        rw [hr, hr]
        exact ⟨rfl, h⟩
      obtain ⟨e, he⟩ | ⟨name, r, _, hr⟩ := Database.load_cases text fileName
      · rw [he, he]
        exact herror e
      · rw [hr, hr]
        obtain ⟨h₁, h₂⟩ | ⟨t₁, t₂, h₁, h₂, _⟩ := h.tables.cases name
        · rw [h₁, h₂]
          cases r with
          | error e => exact herror e
          | ok t => exact ⟨rfl, h.tables.set name ⟨rfl, rfl, List.Perm.refl _⟩, h.file⟩
        · rw [h₁, h₂]
          exact herror _

/-- DROP removes the table of one name from both databases. -/
theorem sameTables_drop (h : w₁.database.SameTables w₂.database) (name : String) :
    (w₁.database.executeDrop name).1 = (w₂.database.executeDrop name).1 ∧
      (w₁.database.executeDrop name).2.SameTables (w₂.database.executeDrop name).2 := by
  unfold Database.executeDrop Database.dropTable
  obtain ⟨h₁, h₂⟩ | ⟨t₁, t₂, h₁, h₂, _⟩ := h.cases name
  · rw [h₁, h₂]
    exact ⟨rfl, h⟩
  · rw [h₁, h₂]
    exact ⟨rfl, h.remove name⟩

/-- TRUNCATE leaves no rows in either table. -/
theorem sameTables_truncate (h : w₁.database.SameTables w₂.database) (name : String) :
    (w₁.database.executeTruncate name).1 = (w₂.database.executeTruncate name).1 ∧
      (w₁.database.executeTruncate name).2.SameTables (w₂.database.executeTruncate name).2 := by
  unfold Database.executeTruncate Database.get
  obtain ⟨h₁, h₂⟩ | ⟨t₁, t₂, h₁, h₂, ht⟩ := h.cases name
  · rw [h₁, h₂]
    exact ⟨rfl, h⟩
  · rw [h₁, h₂]
    exact ⟨rfl, h.set name ⟨ht.name, ht.fields, List.Perm.refl _⟩⟩

/-- COPYTABLE copies the rows in the order that they have. -/
theorem sameTables_copyTable (h : w₁.database.SameTables w₂.database) (name newName : String) :
    (w₁.database.executeCopyTable name newName).1 = (w₂.database.executeCopyTable name newName).1 ∧
      (w₁.database.executeCopyTable name newName).2.SameTables
        (w₂.database.executeCopyTable name newName).2 := by
  unfold Database.executeCopyTable Database.get Database.registerTable Database.testDuplicate
  obtain ⟨h₁, h₂⟩ | ⟨t₁, t₂, h₁, h₂, ht⟩ := h.cases name
  · rw [h₁, h₂]
    exact ⟨rfl, h⟩
  · rw [h₁, h₂]
    have hname₁ : (t₁.copy newName).tableName = newName := rfl
    have hname₂ : (t₂.copy newName).tableName = newName := rfl
    simp only [pure, Except.pure, hname₁, hname₂]
    obtain ⟨h₁', h₂'⟩ | ⟨t₁', t₂', h₁', h₂', _⟩ := h.cases newName
    · rw [h₁', h₂']
      exact ⟨rfl, h.set newName ⟨rfl, ht.fields, ht.rows⟩⟩
    · rw [h₁', h₂']
      exact ⟨rfl, h⟩

/-- **One query** gives the same result, and leaves the same tables. -/
theorem sameTables_execute (h : w₁.SameTables w₂) (r₁ : w₁.Regular) (r₂ : w₂.Regular)
    (hfree : query.orderFree = true) : (query.execute w₁).1 = (query.execute w₂).1 ∧
      (query.execute w₁).2.SameTables (query.execute w₂).2 := by
  cases query with
  | load targetTable fileName => exact sameTables_load h fileName
  | dump | list | printTable => contradiction
  | drop targetTable => exact sameTables_onDatabase h (sameTables_drop h.tables targetTable)
  | truncate targetTable => exact sameTables_onDatabase h (sameTables_truncate h.tables targetTable)
  | copyTable targetTable newTable =>
      exact sameTables_onDatabase h (sameTables_copyTable h.tables targetTable newTable)
  | quit => exact ⟨rfl, h⟩
  | listen fileName => exact ⟨rfl, h⟩
  | nop => exact ⟨rfl, h⟩
  | update q => exact sameTables_row h r₁ r₂ hfree
  | _ => exact sameTables_row h r₁ r₂ rfl

end

/-! ## sequences of queries -/

/-- A query that does not depend on the order of rows, gives full rows, and leaves no table
with too many rows. -/
structure OrderFree (w : World) (query : Query) : Prop where
  free : query.orderFree = true
  full : InsertsFullRow w query
  small : ∀ name ∈ (query.execute w).2.database.tables.keys,
    ∀ t ∈ (query.execute w).2.database.tables.get? name, t.data.length < 2 ^ 31

/-- Each query of the list is free of the row order in the world that it is executed in. -/
def OrderFreeRun : World → List Query → Prop
  | _, [] => True
  | w, query :: queries => OrderFree w query ∧ OrderFreeRun (query.execute w).2 queries

instance (w : World) (query : Query) : Decidable (OrderFree w query) :=
  decidable_of_iff (query.orderFree = true ∧ InsertsFullRow w query ∧
      ∀ name ∈ (query.execute w).2.database.tables.keys,
        ∀ t ∈ (query.execute w).2.database.tables.get? name, t.data.length < 2 ^ 31)
    ⟨fun h => ⟨h.1, h.2.1, h.2.2⟩, fun h => ⟨h.free, h.full, h.small⟩⟩

instance decidableOrderFreeRun : (w : World) → (queries : List Query) →
    Decidable (OrderFreeRun w queries)
  | _, [] => .isTrue trivial
  | w, query :: queries =>
      have := decidableOrderFreeRun (query.execute w).2 queries
      inferInstanceAs (Decidable (OrderFree w query ∧ _))

section

variable {w₁ w₂ : World} {query : Query}

/-- A query that is free of the row order renames no row. -/
theorem keepsKeys_of_orderFree (hfree : query.orderFree = true) (w : World) :
    KeepsKeys w query := by
  intro q hq hkey
  cases query with
  | update q' =>
      obtain rfl := Option.some.inj hq
      have hfree : q'.operands.headD "" ≠ "KEY" := of_decide_eq_true hfree
      rw [hkey.1] at hfree
      exact absurd rfl hfree
  | _ => contradiction

theorem World.Regular.execute (r : w₁.Regular) (h : OrderFree w₁ query) :
    (query.execute w₁).2.Regular :=
  ⟨rectangular_execute r.rectangular query h.full,
    keyed_execute r.keyed query (keepsKeys_of_orderFree h.free w₁), h.small⟩

/-- A query that is free of the row order in one world is so in a world with the same tables. -/
theorem OrderFree.sameTables (h : w₁.SameTables w₂) (r₁ : w₁.Regular) (r₂ : w₂.Regular)
    (hfree : OrderFree w₁ query) : OrderFree w₂ query := by
  refine ⟨hfree.free, fun q hq hop t₂ h₂ hnew => ?_, fun name _ t₂ h₂ => ?_⟩
  · obtain ⟨_, hnone⟩ | ⟨t₁, t₂', h₁, h₂', ht⟩ := h.tables.cases q.targetTable
    · rw [hnone] at h₂
      contradiction
    · obtain rfl : t₂' = t₂ := Option.some.inj (h₂'.symm.trans h₂)
      have hnew := (get?_keyMap_eq_none_iff (r₁.sound h₁) (r₂.sound h₂') ht _).mpr hnew
      exact (hfree.full q hq hop t₁ h₁ hnew).trans (congrArg List.length ht.fields)
  · have hafter := (sameTables_execute h r₁ r₂ hfree.free).2
    obtain ⟨_, hnone⟩ | ⟨t₁, t₂', h₁, h₂', ht⟩ := hafter.tables.cases name
    · rw [hnone] at h₂
      contradiction
    · obtain rfl : t₂' = t₂ := Option.some.inj (h₂'.symm.trans h₂)
      rw [← ht.rows.length_eq]
      exact hfree.small name ((FiniteMap.mem_keys_iff _ _).mpr ⟨t₁, h₁⟩) t₁ h₁

end

/-- A query that is free of the row order prints nothing itself. -/
theorem printed_of_orderFree {query : Query} (h : query.orderFree = true) (w : World) :
    query.printed w = [] := by
  cases query <;> first | rfl | contradiction

/-- **The order of rows is not observable**: from worlds with the same files, and tables with
the same rows, the single-threaded loop gives the same output, and leaves such worlds
again. -/
theorem executeInOrder_sameTables : {queries : List Query} → {w₁ w₂ : World} →
    w₁.SameTables w₂ → w₁.Regular → w₂.Regular → OrderFreeRun w₁ queries →
    {o : Output} → {u₁ : World} → executeInOrder queries w₁ = some (o, u₁) →
    ∃ u₂, executeInOrder queries w₂ = some (o, u₂) ∧ u₁.SameTables u₂
  | [], w₁, w₂, h, _, _, _, o, u₁, hrun => by
      cases hrun
      exact ⟨w₂, rfl, h⟩
  | query :: queries, w₁, w₂, h, r₁, r₂, hfree, o, u₁, hrun => by
      obtain ⟨hstep, hfree⟩ := hfree
      have hsame := sameTables_execute h r₁ r₂ hstep.free
      have r₁' := r₁.execute hstep
      have r₂' := r₂.execute (hstep.sameTables h r₁ r₂)
      cases h₁ : query.execute w₁ with
      | mk result w₁' =>
      cases h₂ : query.execute w₂ with
      | mk result' w₂' =>
          rw [h₁] at hsame hfree r₁'
          rw [h₂] at hsame r₂'
          obtain ⟨rfl, hsame⟩ := hsame
          by_cases hdef : result = .undefined
          · rw [executeInOrder, h₁, hdef] at hrun
            contradiction
          · by_cases hquit : result = .quit
            · rw [executeInOrder, h₁, hquit] at hrun
              rw [executeInOrder, h₂, hquit]
              cases hrun
              exact ⟨w₂', rfl, hsame⟩
            · rw [executeInOrder_cons h₁ hdef hquit, printed_of_orderFree hstep.free] at hrun
              rw [executeInOrder_cons h₂ hdef hquit, printed_of_orderFree hstep.free]
              obtain ⟨⟨o', u⟩, hrest, heq⟩ := Option.map_eq_some_iff.mp hrun
              cases heq
              obtain ⟨u₂, hrest₂, hu⟩ := executeInOrder_sameTables hsame r₁' r₂' hfree hrest
              exact ⟨u₂, by rw [hrest₂]; rfl, hu⟩

/-- The rows of `twoRows`, inserted the other way round. -/
def swappedRows : Table where
  fields := ["a"]
  fieldMap := (∅ : FiniteMap String Nat).set "a" 0
  data := [⟨"y", [2]⟩, ⟨"x", [1]⟩]
  keyMap := ((∅ : FiniteMap String Nat).set "y" 0).set "x" 1
  tableName := "T"

theorem proper_swappedRows : swappedRows.Proper where
  fieldMap := full_twoRows.fieldMap
  row := by decide
  index := ((PositionIndex.indexes_nil Datum.key).append (x := ⟨"y", [2]⟩) rfl).append
    (x := ⟨"x", [1]⟩) (by decide)

theorem eq_of_get?_single {t t' : Table} {name : String}
    (h : (single t).tables.get? name = some t') : name = "T" ∧ t' = t := by
  unfold single at h
  rw [FiniteMap.get?_set] at h
  split at h
  · next hname => exact ⟨hname, (Option.some.inj h).symm⟩
  · contradiction

/-- A world with a single table is regular if the table is. -/
theorem regular_single {t : Table} (hname : t.tableName = "T") (h : t.Proper)
    (hsize : t.data.length < 2 ^ 31) : World.Regular { database := single t } where
  rectangular name t' hget := by
    obtain ⟨rfl, rfl⟩ := eq_of_get?_single hget
    exact h.toFull
  keyed name t' hget := by
    obtain ⟨rfl, rfl⟩ := eq_of_get?_single hget
    exact ⟨hname, h.fieldMap, h.index⟩
  small name _ t' hget := by
    obtain ⟨rfl, rfl⟩ := eq_of_get?_single hget
    exact hsize

/-- The rows are duplicated, copied to another table, and added up. -/
def duplicateAndSum : List Query :=
  [.duplicate ⟨"T", [], []⟩, .copyTable "T" "U", .insert ⟨"U", ["z", "5"], []⟩,
   .sum ⟨"U", ["a"], []⟩]

theorem executeInOrder_sameTables_twoRows : ∃ o u₁ u₂,
    executeInOrder duplicateAndSum { database := single twoRows } = some (o, u₁) ∧
    executeInOrder duplicateAndSum { database := single swappedRows } = some (o, u₂) ∧
    u₁.SameTables u₂ := by
  have hsame :
      World.SameTables { database := single twoRows } { database := single swappedRows } := by
    refine ⟨fun name => ?_, fun _ => rfl⟩
    simp only [single, FiniteMap.get?_set]
    split
    · exact .some ⟨rfl, rfl, List.Perm.swap _ _ _⟩
    · exact .none
  obtain ⟨⟨o, u₁⟩, hrun⟩ : ∃ p,
      executeInOrder duplicateAndSum { database := single twoRows } = some p :=
    Option.isSome_iff_exists.mp (by decide +kernel)
  have r₁ := regular_single rfl proper_twoRows (by decide)
  have r₂ := regular_single rfl proper_swappedRows (by decide)
  obtain ⟨u₂, hrun₂, hu⟩ := executeInOrder_sameTables hsame r₁ r₂ (by decide +kernel) hrun
  exact ⟨o, u₁, u₂, hrun, hrun₂, hu⟩

end LemonDB
