import LemonDB.Scheduler.Creation

/-!
# LemonDB.Scheduler.Workload

The lists of queries whose registered tasks create their tables first.
-/

namespace LemonDB

namespace Query

/-- The table that a query creates. -/
def creates : Query → Option String
  | load t _ | copyTable _ t => some t
  | _ => none

/-- The table that has to be there already. -/
def uses : Query → Option String
  | load .. | list | quit | listen _ | nop => none
  | query => some query.table

/-- The file that a query reads or writes. -/
def file : Query → Option String
  | load _ f | dump _ f => some f
  | _ => none

end Query

/-- Each table is created once, in front of the queries that use it, and each file is
for one query. -/
structure CreatesFirst (queries : List Query) : Prop where
  once : (queries.filterMap Query.creates).Nodup
  before : queries.Pairwise fun q q' => ∀ t ∈ q'.creates, q.uses ≠ some t
  self : ∀ q ∈ queries, ∀ t ∈ q.creates, q.uses ≠ some t
  named : ∀ q ∈ queries, ∀ t ∈ q.creates, t ≠ "" ∧ t ≠ controlTableId
  files : (queries.filterMap Query.file).Nodup

instance (queries : List Query) : Decidable (CreatesFirst queries) :=
  decidable_of_iff ((queries.filterMap Query.creates).Nodup ∧
      queries.Pairwise (fun q q' => ∀ t ∈ q'.creates, q.uses ≠ some t) ∧
      (∀ q ∈ queries, ∀ t ∈ q.creates, q.uses ≠ some t) ∧
      (∀ q ∈ queries, ∀ t ∈ q.creates, t ≠ "" ∧ t ≠ controlTableId) ∧
      (queries.filterMap Query.file).Nodup)
    ⟨fun h => ⟨h.1, h.2.1, h.2.2.1, h.2.2.2.1, h.2.2.2.2⟩,
     fun h => ⟨h.once, h.before, h.self, h.named, h.files⟩⟩

/-- A pair of entries, by their positions. -/
theorem rel_of_pairwise {R : α → α → Prop} {l : List α} (h : l.Pairwise R) {i j : Nat} {a b : α}
    (hi : l[i]? = some a) (hj : l[j]? = some b) (hlt : i < j) : R a b := by
  obtain ⟨hi, ha⟩ := List.getElem?_eq_some_iff.mp hi
  obtain ⟨hj, hb⟩ := List.getElem?_eq_some_iff.mp hj
  exact ha ▸ hb ▸ List.pairwise_iff_getElem.mp h i j hi hj hlt

namespace TaskQueue

/-! ## the payloads -/

/-- The keys in a payload are those of the query. -/
structure Keyed (x : ScheduledItem) : Prop where
  file : ∀ f, (.file, f) ∈ x.ident.notifies → x.query.file = some f
  newTable : ∀ d, x.depends = .copyTable d → d.newTable = x.query.newTable

/-- How a LOAD is marked.  The first one on a file waits for nothing, and is
executed. -/
theorem load_markedItem (env : Env) (dm : DependencyManager) {t : ParsedQuery}
    (hty : t.type = .load) : ∃ d flag,
      (markedItem env dm t).1 = { freshItem t with depends := .load d, droppedFlag := flag } ∧
      d.filePath = t.query.filePath ∧
      (dm.entrySeq (.file, t.query.filePath) = 0 → d.pendingTable = [] ∧ flag = false) := by
  unfold markedItem DependencyManager.markScheduled
  simp only [freshItem, hty, QueryType.isMarked, ↓reduceIte]
  split
  · next hp =>
      refine ⟨_, _, rfl, rfl, fun hentry => ?_⟩
      have hentry : (dm.lastScheduledFile.entry t.query.filePath).2 = 0 := hentry
      simp only [DependencyManager.markScheduledFile, ScheduledMap.mark, hentry] at hp
      omega
  · refine ⟨_, _, rfl, rfl, fun hentry => ⟨rfl, ?_⟩⟩
    have hentry : (dm.lastScheduledFile.entry t.query.filePath).2 = 0 := hentry
    simp [DependencyManager.markScheduledFile, ScheduledMap.mark, hentry]

theorem keyed_markedItem (env : Env) (dm : DependencyManager) {t : ParsedQuery}
    (hty : t.type = t.query.type) : Keyed (markedItem env dm t).1 := by
  obtain ⟨seq, tableName, type, priority, query⟩ := t
  dsimp only at hty
  subst hty
  cases query with
  | load targetTable fileName =>
      obtain ⟨d, flag, hm, hpath, _⟩ := load_markedItem env dm
        (t := ⟨seq, tableName, .load, priority, .load targetTable fileName⟩) rfl
      have hpath : d.filePath = fileName := hpath
      rw [show (Query.load targetTable fileName).type = .load from rfl, hm]
      constructor
      · intro f hf
        simp only [ScheduledItem.ident, Ident.of, Ident.notifies, freshItem, hpath] at hf
        obtain hf | hf := List.mem_cons.mp hf
        · rw [(Prod.mk.inj hf).2]
          rfl
        · split at hf <;> simp at hf
      · exact fun _ h => by contradiction
  | dump targetTable fileName =>
      constructor <;> simp [markedItem, freshItem, DependencyManager.markScheduled, Query.type,
        QueryType.isMarked, ScheduledItem.ident, Ident.of, Ident.notifies, Query.filePath, Query.file]
  | _ =>
      constructor <;> simp [markedItem, freshItem, DependencyManager.markScheduled, Query.type,
        QueryType.isMarked, ScheduledItem.ident, Ident.of, Ident.notifies]

theorem forall_registered (env : Env) {P : ScheduledItem → Prop} {tasks : List ParsedQuery}
    (h : ∀ dm, ∀ t ∈ tasks, P (markedItem env dm t).1) : ∀ x ∈ registered env tasks, P x := by
  unfold registered
  induction tasks using List.reverseRecOn with
  | nil => exact fun x hx => absurd hx List.not_mem_nil
  | append_singleton tasks t ih =>
      rw [markAll_append]
      intro x hx
      obtain hx | hx := List.mem_append.mp hx
      · exact ih (fun dm t ht => h dm t (List.mem_append_left _ ht)) x hx
      · rw [List.mem_singleton.mp hx]
        exact h _ t (by simp)

/-- Only a LOAD can be pending, or be skipped. -/
theorem unmarked_of_ne_load (env : Env) (dm : DependencyManager) {t : ParsedQuery}
    (hty : t.type ≠ .load) : (markedItem env dm t).1.depends.isPending = false ∧
      (markedItem env dm t).1.droppedFlag = false := by
  unfold markedItem DependencyManager.markScheduled
  cases h : t.type with
  | load => contradiction
  | _ => simp [freshItem, h, QueryType.isMarked, DependencyPayload.isPending]

theorem file_of_load {query : Query} (h : query.type = .load) :
    query.file = some query.filePath := by
  cases query <;> first | rfl | contradiction

theorem query_registered (env : Env) (tasks : List ParsedQuery) :
    (registered env tasks).map (·.query) = tasks.map (·.query) :=
  map_registered env (fun dm t => by
    obtain ⟨_, _, hm⟩ := markedItem_same env dm t
    rw [hm]
    rfl) tasks

/-- Where each file is for one query, no LOAD waits for a DUMP, and none is
skipped. -/
theorem resolved_registered (env : Env) {tasks : List ParsedQuery} (hinc : Increasing tasks)
    (hty : ∀ t ∈ tasks, t.type = t.query.type)
    (hfiles : (tasks.filterMap (·.query.file)).Nodup) :
    ∀ x ∈ registered env tasks, x.depends.isPending = false ∧ x.droppedFlag = false := by
  induction tasks using List.reverseRecOn with
  | nil => exact fun x hx => absurd hx List.not_mem_nil
  | append_singleton tasks t ih =>
      have hprefix : Increasing tasks := by
        unfold Increasing at hinc ⊢
        rw [List.map_append] at hinc
        exact (List.pairwise_append.mp hinc).1
      have hty' : ∀ t ∈ tasks, t.type = t.query.type := fun t ht =>
        hty t (List.mem_append_left _ ht)
      rw [List.filterMap_append] at hfiles
      obtain ⟨hfiles, _, hdisj⟩ := List.nodup_append.mp hfiles
      intro x hx
      unfold registered at hx
      rw [markAll_append] at hx
      obtain hx | hx := List.mem_append.mp hx
      · exact ih hprefix hty' hfiles x hx
      · rw [List.mem_singleton.mp hx]
        by_cases hload : t.type = .load
        · obtain ⟨d, flag, hm, _, hfirst⟩ := load_markedItem env (markAll env tasks).2 hload
          -- the file is for this query only
          have hentry : (markAll env tasks).2.entrySeq (.file, t.query.filePath) = 0 := by
            refine ((recorded_markAll env hprefix).entry _).resolve_right ?_
            rintro ⟨y, hy, _, hn⟩
            have hkeyed := forall_registered env (P := Keyed)
              (fun dm t ht => keyed_markedItem env dm (hty' t ht)) y hy
            have hquery : y.query ∈ tasks.map (·.query) := by
              rw [← query_registered env]
              exact List.mem_map_of_mem hy
            obtain ⟨t', ht', hq⟩ := List.mem_map.mp hquery
            refine hdisj _ (List.mem_filterMap.mpr ⟨t', ht', hq ▸ hkeyed.file _ hn⟩) _ ?_ rfl
            exact List.mem_filterMap.mpr ⟨t, by simp, file_of_load ((hty t (by simp)) ▸ hload)⟩
          obtain ⟨hp, hflag⟩ := hfirst hentry
          rw [hm]
          exact ⟨by simp [DependencyPayload.isPending, hp], hflag⟩
        · exact unmarked_of_ne_load env _ hload

theorem map_query_submitAll (queries : List Query) :
    (submitAll queries).map (·.query) = queries := by
  rw [submitAll, List.map_map]
  exact List.zipIdx_map_fst 1 queries

/-- Each query is registered. -/
theorem map_query_registered (env : Env) (queries : List Query) :
    (registered env (submitAll queries)).map (·.query) = queries :=
  (query_registered env _).trans (map_query_submitAll queries)

/-- What a query is registered as. -/
theorem registered_submitAll (env : Env) {queries : List Query} {x : ScheduledItem}
    (hx : x ∈ registered env (submitAll queries)) : ∃ k query, queries[k]? = some query ∧
      x.seq = k + 1 ∧ x.type = query.type ∧ x.tableId = resolveTableId query ∧ x.query = query := by
  have hmap := map_registered env (f := fun x => (x.seq, x.type, x.tableId, x.query))
    (g := fun t => (t.seq, t.type, t.tableName, t.query)) (fun dm t => by
      obtain ⟨_, _, hm⟩ := markedItem_same env dm t
      rw [hm]
      rfl) (submitAll queries)
  have hmem := List.mem_map_of_mem (f := fun x : ScheduledItem =>
    (x.seq, x.type, x.tableId, x.query)) hx
  rw [hmap] at hmem
  simp only [submitAll, List.map_map, List.mem_map, Prod.exists, Function.comp_apply, submitQuery,
    Prod.mk.injEq, List.mem_zipIdx_iff_le_and_getElem?_sub] at hmem
  obtain ⟨query, i, ⟨hle, hq⟩, hseq, hty, htab, hquery⟩ := hmem
  exact ⟨i - 1, query, hq, by omega, hty.symm, htab.symm, hquery.symm⟩

end TaskQueue

theorem type_submitAll {queries : List Query} {t : ParsedQuery} (ht : t ∈ submitAll queries) :
    t.type = t.query.type := by
  obtain ⟨p, _, rfl⟩ := List.mem_map.mp ht
  rfl

/-- The queue that a query is routed to, if it is not the pseudo table. -/
theorem uses_of_resolve {query : Query} {t : String} (hty : query.type.isQueued = true)
    (ht : resolveTableId query = t) (hne : t ≠ controlTableId) : query.uses = some t := by
  have htable : query.table = t := by
    unfold resolveTableId at ht
    split at ht
    · exact absurd ht.symm hne
    · exact ht
  cases query with
  | nop => exact absurd ht.symm hne
  | load | list | quit | listen => contradiction
  | _ => exact congrArg some htable

namespace CreatesFirst

variable {queries : List Query} {i j : Nat} {q q' : Query} {t : String}

/-- Two queries that create the same table are the same. -/
theorem eq_of_creates (h : CreatesFirst queries) (hi : queries[i]? = some q)
    (hj : queries[j]? = some q') (hq : q.creates = some t) (hq' : q'.creates = some t) : i = j := by
  have honce := List.pairwise_filterMap.mp h.once
  obtain hlt | heq | hgt := Nat.lt_trichotomy i j
  · exact absurd rfl (rel_of_pairwise honce hi hj hlt t hq t hq')
  · exact heq
  · exact absurd rfl (rel_of_pairwise honce hj hi hgt t hq' t hq)

/-- A table is created in front of the queries that use it. -/
theorem lt_of_uses (h : CreatesFirst queries) (hi : queries[i]? = some q)
    (hj : queries[j]? = some q') (hq : q.creates = some t) (hq' : q'.uses = some t) : i < j := by
  obtain hlt | heq | hgt := Nat.lt_trichotomy i j
  · exact hlt
  · subst heq
    obtain rfl := Option.some.inj (hi.symm.trans hj)
    exact absurd hq' (h.self q (List.mem_of_getElem? hi) t hq)
  · exact absurd hq' (rel_of_pairwise h.before hj hi hgt t hq)

/-- Two queries with the same file are the same. -/
theorem eq_of_file (h : CreatesFirst queries) (hi : queries[i]? = some q)
    (hj : queries[j]? = some q') {f : String} (hq : q.file = some f) (hq' : q'.file = some f) :
    i = j := by
  have hfiles := List.pairwise_filterMap.mp h.files
  obtain hlt | heq | hgt := Nat.lt_trichotomy i j
  · exact absurd rfl (rel_of_pairwise hfiles hi hj hlt f hq f hq')
  · exact heq
  · exact absurd rfl (rel_of_pairwise hfiles hj hi hgt f hq' f hq)

theorem resolved (h : CreatesFirst queries) (env : Env) :
    ∀ x ∈ TaskQueue.registered env (submitAll queries),
      x.depends.isPending = false ∧ x.droppedFlag = false := by
  refine TaskQueue.resolved_registered env (increasing_submitAll queries)
    (fun t ht => type_submitAll ht) ?_
  have heq : (submitAll queries).filterMap (·.query.file) = queries.filterMap Query.file := by
    conv_rhs => rw [← TaskQueue.map_query_submitAll queries, List.filterMap_map]
    rfl
  exact heq ▸ h.files

/-- What creates a table is registered for a query that creates it. -/
theorem creates_of_registered (h : CreatesFirst queries) (env : Env) {x : ScheduledItem}
    (hx : x ∈ TaskQueue.registered env (submitAll queries)) (ht : x.ident.Creates t) :
    ∃ k query, queries[k]? = some query ∧ x.seq = k + 1 ∧ query.creates = some t := by
  obtain ⟨k, query, hk, hseq, hty, htab, hquery⟩ := TaskQueue.registered_submitAll env hx
  refine ⟨k, query, hk, hseq, ?_⟩
  obtain ⟨hload, heq⟩ | ⟨hcopy, d, hd, heq⟩ := ht
  · have hload : query.type = .load := hty.symm.trans hload
    cases query with
    | load t' f =>
        have hne := (h.named _ (List.mem_of_getElem? hk) t' rfl).1
        simp only [ScheduledItem.ident, Ident.of, (h.resolved env x hx).1, htab, resolveTableId,
          Query.table, hne, Bool.false_eq_true, and_false, ↓reduceIte] at heq
        exact congrArg some heq
    | _ => contradiction
  · have hcopy : query.type = .copyTable := hty.symm.trans hcopy
    have hkeyed := TaskQueue.forall_registered env (P := TaskQueue.Keyed)
      (fun dm t ht => TaskQueue.keyed_markedItem env dm (type_submitAll ht)) x hx
    cases query with
    | copyTable t' new =>
        have hnew := hkeyed.newTable d hd
        rw [hquery] at hnew
        exact congrArg some (hnew.symm.trans heq)
    | _ => contradiction

end CreatesFirst

/-- **A workload that creates its tables first** is registered as such. -/
theorem createdFirst_registered (env : Env) {queries : List Query} (h : CreatesFirst queries) :
    CreatedFirst (TaskQueue.registered env (submitAll queries)) := by
  have hinc := increasing_submitAll queries
  constructor
  case nodup =>
    rw [TaskQueue.seq_registered]
    exact hinc.nodup
  case resolved => exact fun x hx => (h.resolved env x hx).1
  case unflagged => exact fun x hx => (h.resolved env x hx).2
  case once =>
    intro x hx y hy t hxt hyt
    obtain ⟨i, q, hi, hiseq, hq⟩ := h.creates_of_registered env hx hxt
    obtain ⟨j, q', hj, hjseq, hq'⟩ := h.creates_of_registered env hy hyt
    rw [hiseq, hjseq, h.eq_of_creates hi hj hq hq']
  case before =>
    intro x hx y hy t hxt hyt
    obtain ⟨i, q, hi, hiseq, hq⟩ := h.creates_of_registered env hx hxt
    obtain ⟨j, q', hj, hjseq, hty, htab, _⟩ := TaskQueue.registered_submitAll env hy
    simp only [ScheduledItem.onQueue, Bool.and_eq_true, decide_eq_true_eq] at hyt
    have huses : q'.uses = some t := uses_of_resolve (hty ▸ hyt.1) (htab ▸ hyt.2)
      (h.named q (List.mem_of_getElem? hi) t hq).2
    have hlt := h.lt_of_uses hi hj hq huses
    omega
  case control =>
    intro x hx hbar
    obtain ⟨k, query, _, _, hty, htab, _⟩ := TaskQueue.registered_submitAll env hx
    rw [hty] at hbar
    rw [htab]
    cases query <;> first | rfl | contradiction

/-! ## runs -/

theorem captured_preserved_split (env : Env) : SplitPreserved env fun _ => Stage.Captured where
  move := Stage.captured_move
  begin := (Stage.captured_preserved env True).begin
  settle h _ _ := h
  decrement h := h

theorem captured_split_run {env : Env} {tasks : List ParsedQuery}
    {guard : SplitState → SplitAction → Prop} {r : SplitState}
    (run : (splitScheduler env).Runs guard (.start env tasks) r) : r.stage.Captured :=
  (captured_preserved_split env).run run fun _ ht => absurd ht List.not_mem_nil

/-- The accounting of a whole run. -/
theorem idents_split_run {env : Env} {tasks : List ParsedQuery} {guard : SplitState → SplitAction → Prop}
    {r : SplitState} (run : (splitScheduler env).Runs guard (.start env tasks) r) :
    r.stage.idents = (TaskQueue.registered env tasks).map ScheduledItem.ident := by
  have hpres : SplitPreserved env fun _ s =>
      s.idents = (TaskQueue.registered env tasks).map ScheduledItem.ident := {
    move := fun h hm => (Stage.idents_move hm).trans h
    begin := (Stage.idents_preserved env True _).begin
    settle := fun h hc _ => by
      rw [← h, Stage.idents, Stage.idents, ← Stage.out_finish hc]
      rfl
    decrement := fun h => h }
  exact hpres.run run (@idents_run env (fun _ _ => True) tasks _ (.refl _))

/-- The sequence numbers of the tasks that are held, in flight and finished are those
of the tasks. -/
theorem seqs_split_run {env : Env} {tasks : List ParsedQuery}
    {guard : SplitState → SplitAction → Prop} {r : SplitState}
    (run : (splitScheduler env).Runs guard (.start env tasks) r) :
    r.queue.items.map (·.seq) + (r.inFlight.map (·.seq) ++ r.finished.map (·.seq) : List Nat) =
      (tasks.map (·.seq) : List Nat) := by
  have hcap := captured_split_run run
  have hsame : r.inFlight.map (·.onCompleted.seq) = r.inFlight.map (·.seq) :=
    List.map_congr_left fun task ht => (hcap task (List.mem_append_left _ ht)).1
  have hall := seqs_of_idents (r := r.toRunState) (idents_split_run run)
  rw [RunState.seqs, hsame] at hall
  rw [← hall, TaskQueue.items_eq, Multiset.map_add, Multiset.map_coe, ← Multiset.coe_add]
  abel

/-- Each sequence number is in one place only. -/
theorem nodup_split_run {env : Env} {tasks : List ParsedQuery} (hseq : (tasks.map (·.seq)).Nodup)
    {guard : SplitState → SplitAction → Prop} {r : SplitState}
    (run : (splitScheduler env).Runs guard (.start env tasks) r) :
    (r.queue.items.map (·.seq) +
      (r.inFlight.map (·.seq) ++ r.finished.map (·.seq) : List Nat)).Nodup := by
  rw [seqs_split_run run]
  exact Multiset.coe_nodup.mpr hseq

/-- Tasks in flight have different sequence numbers. -/
theorem nodup_inFlight {env : Env} {tasks : List ParsedQuery} (hseq : (tasks.map (·.seq)).Nodup)
    {guard : SplitState → SplitAction → Prop} {r : SplitState}
    (run : (splitScheduler env).Runs guard (.start env tasks) r) :
    (r.inFlight.map (·.seq)).Nodup :=
  (List.nodup_append.mp (Multiset.coe_nodup.mp
    (Multiset.nodup_add.mp (nodup_split_run hseq run)).2.1)).1

/-- **Tables are created, then used one task at a time and in order**, whatever the
threads do: at most one task of each table's queue is in flight, the tasks of the
queue were handed out in increasing order, and only after the table was opened. -/
theorem created_then_used_in_order {env : Env} {queries : List Query} (h : CreatesFirst queries)
    {r : SplitState} (run : (splitScheduler env).Reachable (.start env (submitAll queries)) r)
    (t : String) : (r.inFlight.filter (·.fromQueue t)).length ≤ 1 ∧
      ((r.handedOut.filter (·.fromQueue t)).map (·.seq)).Pairwise (· < ·) ∧
      ∀ task ∈ r.handedOut, task.fromQueue t = true → ∃ c ∈ r.finished, c.Opens t := by
  have hbuilding := building_run (increasing_submitAll queries) (createdFirst_registered env h) run
  have hord := hbuilding.tables.ordered t
  have hcap := captured_split_run run
  have hflight := fromQueue_eq hcap t r.inFlight fun _ h => List.mem_append_left _ h
  have hlog := fromQueue_eq hcap t r.handedOut fun _ h => List.mem_append_right _ h
  refine ⟨?_, ?_, fun task ht hq => ?_⟩
  · have hone := hord.one
    have hcard : (r.stage.lane t).flying.card = (r.inFlight.filter (·.fromQueue t)).length := by
      have hlen := congrArg List.length hflight
      rw [List.length_map, List.length_map] at hlen
      exact (List.length_map _).trans hlen
    omega
  · rw [← hlog]
    exact hord.log
  · refine (hbuilding.handed task ht).2 t ?_
    rw [Completion.onQueue, (hcap task (List.mem_append_right _ ht)).2]
    exact hq

/-- A table that is loaded, copied, and used next to its copy. -/
def loadedAndCopied : List Query :=
  [.load "T" "f", .copyTable "T" "U", .select ⟨"T", ["KEY"], []⟩, .truncate "U", .drop "T"]

/-- While `U` is truncated, the SELECT on `T` is in flight. -/
theorem created_then_used_in_order_copied : ∃ r, (splitScheduler (.binaryHeap id)).Reachable
    (.start (.binaryHeap id) (submitAll loadedAndCopied)) r ∧
    r.inFlight.map (·.seq) = [4, 3] ∧ (r.inFlight.filter (·.fromQueue "T")).length ≤ 1 ∧
      ((r.handedOut.filter (·.fromQueue "T")).map (·.seq)).Pairwise (· < ·) ∧
      ∀ task ∈ r.handedOut, task.fromQueue "T" = true → ∃ c ∈ r.finished, c.Opens "T" := by
  obtain ⟨r, run, hr⟩ := (splitScheduler (.binaryHeap id)).exists_of_execute (fun _ _ => True)
    (fun r => r.inFlight.map (·.seq) = [4, 3])
    (.start (.binaryHeap id) (submitAll loadedAndCopied))
    [.fetch, .apply 0, .decrement, .fetch, .apply 0, .fetch, .fetch] (by decide +kernel)
  exact ⟨r, run, hr, created_then_used_in_order (by decide +kernel) run "T"⟩

end LemonDB
