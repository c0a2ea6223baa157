import LemonDB.Query.Endings
import LemonDB.Query.Footprint
import LemonDB.Runtime.Quit
import LemonDB.Scheduler.Workload

/-!
# LemonDB.Runtime.Serial

Serial equivalence.  Where each table is created first (`CreatesFirst`), the
results that the multi-threaded path outputs are those of the single-threaded
loop, and so are the tables and files in the end.

The workers execute the tasks in some order.  Any two of them that depend on
each other are executed in the order of their sequence numbers (`Executed`):
they use the same table, whose queue hands out one task at a time and in order,
or one of them creates the table, and is completed before the other one is
handed out.  So the order of execution is a rearrangement of the order of
submission.
-/

namespace LemonDB

open Query

/-! ## the queries by their sequence numbers -/

/-- Numbered queries as actions. -/
def numbered : Footprint (Nat × Query) World QueryResult Resource Content :=
  footprint.comap Prod.snd

/-- Results that nothing is printed in front of. -/
def plainOutput (results : List QueryResult) : Output where
  printed := results.map fun _ => []
  shown := results

/-- Queries executed one after the other, without the checks of the loop. -/
theorem executeInOrder_perform : (l : List (Nat × Query)) → (w : World) →
    (∀ p ∈ l, p.2.silent = true) →
    (∀ p ∈ (numbered.perform l w).1, p.2 ≠ .undefined ∧ p.2 ≠ .quit) →
    executeInOrder (l.map Prod.snd) w = some
      (plainOutput ((numbered.perform l w).1.map Prod.snd), (numbered.perform l w).2)
  | [], _, _, _ => rfl
  | (n, query) :: l, w, hsilent, h => by
      obtain ⟨hundef, hquit⟩ := h _ List.mem_cons_self
      have hrec := executeInOrder_perform l (query.execute w).2
        (fun p hp => hsilent p (List.mem_cons_of_mem _ hp))
        fun p hp => h p (List.mem_cons_of_mem _ hp)
      have hprinted := Query.printed_of_silent (hsilent _ List.mem_cons_self) w
      have hexec : query.execute w = ((query.execute w).1, (query.execute w).2) := rfl
      rw [List.map_cons, executeInOrder_cons hexec hundef hquit, hrec, hprinted]
      rfl

namespace Query

/-- A query reads the tables that it uses or creates. -/
theorem table_of_reads {query : Query} {t : String} (hlist : query ≠ .list)
    (h : .table t ∈ query.reads) : query.uses = some t ∨ query.creates = some t := by
  cases query with
  | list => contradiction
  | _ => simp_all [reads, uses, creates, table, eq_comm]

/-- A query reads no file but its own. -/
theorem file_of_reads {query : Query} {f : String} (hlist : query ≠ .list)
    (h : .file f ∈ query.reads) : query.file = some f := by
  cases query with
  | list => contradiction
  | _ => simp_all [reads, file]

end Query

/-! ## dependent queries -/

/-- Dependent queries have a table in common. -/
theorem CreatesFirst.dependent {queries : List Query} (h : CreatesFirst queries)
    (hlist : .list ∉ queries) {i j : Nat} {a b : Query} (hi : queries[i]? = some a)
    (hj : queries[j]? = some b) (hne : i ≠ j) (hdep : ¬ footprint.Independent a b) :
    ∃ t, (a.uses = some t ∨ a.creates = some t) ∧ (b.uses = some t ∨ b.creates = some t) := by
  have ha : a ≠ .list := fun heq => hlist (heq ▸ List.mem_of_getElem? hi)
  have hb : b ≠ .list := fun heq => hlist (heq ▸ List.mem_of_getElem? hj)
  have hboth : ∀ k, k ∈ a.reads → k ∈ b.reads →
      ∃ t, (a.uses = some t ∨ a.creates = some t) ∧ (b.uses = some t ∨ b.creates = some t) := by
    intro k hka hkb
    cases k with
    | table t => exact ⟨t, Query.table_of_reads ha hka, Query.table_of_reads hb hkb⟩
    | file f =>
        exact absurd (h.eq_of_file hi hj (Query.file_of_reads ha hka) (Query.file_of_reads hb hkb))
          hne
  obtain hw | hw := not_and_or.mp hdep
  · obtain ⟨k, hka, hkb⟩ := Set.not_disjoint_iff.mp hw
    exact hboth k (a.writes_subset_reads hka) hkb
  · obtain ⟨k, hkb, hka⟩ := Set.not_disjoint_iff.mp hw
    exact hboth k hka (b.writes_subset_reads hkb)

/-- The queue of a query that uses a table. -/
def queueName (t : String) : String := if t = "" then controlTableId else t

theorem resolve_of_uses {query : Query} {t : String} (h : query.uses = some t) :
    query.type.isQueued = true ∧ resolveTableId query = queueName t := by
  cases query with
  | load | list | quit | listen | nop => contradiction
  | _ =>
      obtain rfl := Option.some.inj h
      exact ⟨rfl, rfl⟩

section

variable {env : Env} {queries : List Query} {world : World} {rt : Runtime}

/-- What holds of the scheduler in a run of a workload that creates its tables
first. -/
structure Runtime.Built (env : Env) (queries : List Query) (rt : Runtime) : Prop where
  first : CreatesFirst queries
  building : rt.stage.Building (TaskQueue.registered env (submitAll queries))
  sourced : rt.stage.Sourced (submitAll queries)
  captured : rt.stage.Captured

theorem built_run (h : CreatesFirst queries)
    (run : (runtime env).Reachable (.start env queries world) rt) : rt.Built env queries where
  first := h
  building := building_run (increasing_submitAll queries) (createdFirst_registered env h)
    (Runtime.scheduler_run run)
  sourced := (tracked_run run).sourced
  captured := captured_split_run (Runtime.scheduler_run run)

namespace Runtime.Built

/-- The query of a task, with its item. -/
theorem query_of_task (h : rt.Built env queries) {task : ExecutableTask}
    (ht : task ∈ rt.handedOut) : ∃ k, queries[k]? = some task.query ∧ task.seq = k + 1 ∧
      ∃ x ∈ TaskQueue.registered env (submitAll queries), x.ident = task.onCompleted.ident ∧
        x.seq = k + 1 ∧ x.type = task.query.type ∧ x.tableId = resolveTableId task.query := by
  obtain ⟨k, hk, hseq, _⟩ := (mem_source_submitAll queries _ _ _).mp (h.sourced.out task ht)
  obtain ⟨x, hx, hid⟩ := h.building.registered task ht
  obtain ⟨i, query, hi, hxseq, hty, htab, _⟩ := TaskQueue.registered_submitAll env hx
  have hseq' : task.onCompleted.seq = task.seq := (h.captured task (List.mem_append_right _ ht)).1
  have hxid : x.seq = task.onCompleted.seq := congrArg Ident.seq hid
  obtain rfl : i = k := by omega
  obtain rfl := Option.some.inj (hi.symm.trans hk)
  exact ⟨i, hk, hseq, x, hx, hid, hxseq, hty, htab⟩

/-- A task that uses a table comes from its queue. -/
theorem onQueue_of_uses (h : rt.Built env queries) {task : ExecutableTask}
    (ht : task ∈ rt.handedOut) {t : String} (huses : task.query.uses = some t) :
    task.onCompleted.onQueue (queueName t) = true := by
  obtain ⟨_, _, _, x, _, hid, _, hty, htab⟩ := h.query_of_task ht
  obtain ⟨hqueued, hresolve⟩ := resolve_of_uses huses
  rw [← Completion.onQueue_ident, ← hid, ScheduledItem.onQueue_ident, ScheduledItem.onQueue, hty,
    hqueued, htab, hresolve]
  simp

/-- **Dependent tasks are executed in order**: whatever was handed out in front of a
task in flight, and depends on it, has a smaller sequence number. -/
theorem lt_of_dependent (h : rt.Built env queries) (hlist : .list ∉ queries)
    {task done : ExecutableTask} (hflight : task ∈ rt.inFlight) (hdone : done ∈ rt.handedOut)
    (hne : done.seq ≠ task.seq) (hdep : ¬ footprint.Independent task.query done.query) :
    done.seq < task.seq := by
  have hout := h.sourced.inFlight task hflight
  obtain ⟨i, hi, hiseq, _⟩ := h.query_of_task hout
  obtain ⟨j, hj, hjseq, _⟩ := h.query_of_task hdone
  have hij : i ≠ j := by omega
  have hseq : task.onCompleted.seq = task.seq := (h.captured task (List.mem_append_right _ hout)).1
  have hseq' : done.onCompleted.seq = done.seq :=
    (h.captured done (List.mem_append_right _ hdone)).1
  obtain ⟨t, hta, htb⟩ := h.first.dependent hlist hi hj hij hdep
  obtain huses' | hcreates' := htb
  · have hq' := h.onQueue_of_uses hdone huses'
    obtain huses | hcreates := hta
    · -- both are from one queue, and the one in flight was taken last
      have hq := h.onQueue_of_uses hout huses
      have hle : done.onCompleted.seq ≤ task.onCompleted.seq := by
        refine h.building.latest (queueName t) _ ?_ _ ?_
        · exact Multiset.mem_coe.mpr (List.mem_map.mpr
            ⟨task, List.mem_filter.mpr ⟨hflight, hq⟩, rfl⟩)
        · exact List.mem_map.mpr ⟨done, List.mem_filter.mpr ⟨hdone, hq'⟩, rfl⟩
      omega
    · -- the table was created before it was used
      exfalso
      have hnamed := h.first.named _ (List.mem_of_getElem? hi) t hcreates
      rw [queueName, if_neg hnamed.1] at hq'
      obtain ⟨c, hc, hopens⟩ := (h.building.handed done hdone).2 t hq'
      have hmem : c ∈ rt.stage.completions := List.mem_append_right _ hc
      obtain ⟨x, hx, hid, hx'⟩ :=
        h.building.creates (createdFirst_registered env h.first) hmem hopens
      obtain ⟨k, q, hk, hkseq, hq⟩ := h.first.creates_of_registered env hx hx'
      have heq := h.first.eq_of_creates hi hk hcreates hq
      have hcseq : x.seq = c.seq := congrArg Ident.seq hid
      exact h.building.seq_ne (createdFirst_registered env h.first) hflight
        (List.mem_append_right _ hc) (by omega)
  · obtain huses | hcreates := hta
    · have hlt := h.first.lt_of_uses hj hi hcreates' huses
      omega
    · exact absurd (h.first.eq_of_creates hi hj hcreates hcreates') hij

end Runtime.Built

/-- **No data race**: where each table is created first, no two tasks in flight at the
same time depend on each other. -/
theorem inFlight_independent (h : CreatesFirst queries) (hlist : .list ∉ queries)
    (run : (runtime env).Reachable (.start env queries world) rt) :
    rt.inFlight.Pairwise fun task task' => footprint.Independent task.query task'.query := by
  have hbuilt := built_run h run
  have hnodup := nodup_inFlight (increasing_submitAll queries).nodup (Runtime.scheduler_run run)
  refine (List.pairwise_map.mp hnodup).imp_of_mem fun {task task'} ht ht' hne => ?_
  by_contra hdep
  -- each of them would be the last one of its table
  have hlt := hbuilt.lt_of_dependent hlist ht (hbuilt.sourced.inFlight task' ht') (Ne.symm hne) hdep
  have hlt' := hbuilt.lt_of_dependent hlist ht' (hbuilt.sourced.inFlight task ht) hne
    fun hindep => hdep hindep.symm
  omega

/-! ## the order of execution -/

/-- What the workers have executed so far, in this order. -/
structure Runtime.Executed (world : World) (rt : Runtime) (log : List (Nat × Query)) : Prop where
  performed : rt.world = (numbered.perform log world).2
  futures : ∀ n result, rt.futures.get? n = some result →
    ∃ query, ((n, query), result) ∈ (numbered.perform log world).1
  handed : ∀ p ∈ log, (rt.futures.get? p.1).isSome = true ∧
    ∃ task ∈ rt.handedOut, task.seq = p.1 ∧ task.query = p.2
  defined : ∀ p ∈ (numbered.perform log world).1, p.2 ≠ .undefined
  nodup : (log.map Prod.fst).Nodup
  ordered : log.Pairwise fun p p' => ¬ numbered.Independent p' p → p.1 < p'.1

theorem Runtime.executed_start (env : Env) (queries : List Query) (world : World) :
    (Runtime.start env queries world).Executed world [] where
  performed := rfl
  futures _ _ h := by contradiction
  handed _ h := absurd h List.not_mem_nil
  defined _ h := absurd h List.not_mem_nil
  nodup := List.nodup_nil
  ordered := List.Pairwise.nil

/-- The execution of a task, with what it checks. -/
theorem Runtime.execute_checks {rt' : Runtime} {k : Nat} (h : rt.execute k = some rt') :
    ∃ task, rt.inFlight[k]? = some task ∧ rt.futures.get? task.seq = none ∧
      (task.execute rt.world).1 ≠ .undefined ∧
      rt' = { rt with
        world := (task.execute rt.world).2
        futures := rt.futures.set task.seq (task.execute rt.world).1 } := by
  obtain ⟨task, hk, hrt'⟩ := Runtime.execute_cases h
  refine ⟨task, hk, ?_, fun hundef => ?_, hrt'⟩
  · by_contra hsome
    have hsome : (rt.futures.get? task.seq).isSome = true := Option.isSome_iff_ne_none.mpr hsome
    simp [Runtime.execute, hk, hsome] at h
  · have hexec : task.execute rt.world = (.undefined, (task.execute rt.world).2) :=
      Prod.ext hundef rfl
    unfold Runtime.execute at h
    rw [hk] at h
    dsimp only at h
    rw [hexec] at h
    split at h <;> contradiction

/-- A task in flight that is not executed comes behind what was executed. -/
theorem Runtime.Executed.append {log : List (Nat × Query)} (h : rt.Executed world log)
    (hbuilt : rt.Built env queries) (hlist : .list ∉ queries) {task : ExecutableTask}
    (hflight : task ∈ rt.inFlight) (hfree : rt.futures.get? task.seq = none) :
    ((log ++ [(task.seq, task.query)]).map Prod.fst).Nodup ∧
      (log ++ [(task.seq, task.query)]).Pairwise fun p p' =>
        ¬ numbered.Independent p' p → p.1 < p'.1 := by
  have hfresh : ∀ p ∈ log, p.1 ≠ task.seq := by
    intro p hp heq
    have hsome := (h.handed p hp).1
    rw [heq, hfree] at hsome
    contradiction
  constructor
  · rw [List.map_append, List.nodup_append]
    refine ⟨h.nodup, List.nodup_singleton _, ?_⟩
    rintro n hn m hm rfl
    obtain ⟨p, hp, rfl⟩ := List.mem_map.mp hn
    exact hfresh p hp (List.mem_singleton.mp hm)
  · rw [List.pairwise_append]
    refine ⟨h.ordered, List.pairwise_singleton _ _, fun p hp p' hp' hdep => ?_⟩
    obtain rfl := List.mem_singleton.mp hp'
    obtain ⟨_, done, hdone, hseq, hquery⟩ := h.handed p hp
    have hlt := hbuilt.lt_of_dependent hlist hflight hdone (hseq ▸ hfresh p hp)
      (by rw [hquery]; exact hdep)
    exact hseq ▸ hlt

/-- One more query answers what it answers in the world that the log leaves. -/
theorem Runtime.Executed.answers_append {log : List (Nat × Query)} (h : rt.Executed world log)
    (n : Nat) (query : Query) : numbered.perform (log ++ [(n, query)]) world =
      ((numbered.perform log world).1 ++ [((n, query), (query.execute rt.world).1)],
        (query.execute rt.world).2) := by
  rw [Footprint.perform_append, ← h.performed]
  rfl

/-- The execution of one more task. -/
theorem Runtime.Executed.execute {log : List (Nat × Query)} (h : rt.Executed world log)
    (hbuilt : rt.Built env queries) (hlist : .list ∉ queries) {rt' : Runtime} {k : Nat}
    (hs : rt.execute k = some rt') : ∃ log, rt'.Executed world log := by
  obtain ⟨task, hk, hfree, hdef, rfl⟩ := Runtime.execute_checks hs
  have hflight := List.mem_of_getElem? hk
  have hout := hbuilt.sourced.inFlight task hflight
  have hexec : task.execute rt.world = task.query.execute rt.world := by
    rw [ExecutableTask.execute, (hbuilt.building.handed task hout).1]
    rfl
  obtain ⟨hnodup, hordered⟩ := h.append hbuilt hlist hflight hfree
  have hanswers := h.answers_append task.seq task.query
  refine ⟨log ++ [(task.seq, task.query)], ?_⟩
  rw [hexec] at hdef ⊢
  constructor
  case performed =>
    rw [hanswers]
  case futures =>
    intro n result hres
    rw [hanswers]
    rw [FiniteMap.get?_set] at hres
    split at hres
    · next hn =>
        obtain rfl := Option.some.inj hres
        exact ⟨task.query, by simp [hn]⟩
    · obtain ⟨query, hmem⟩ := h.futures n result hres
      exact ⟨query, List.mem_append_left _ hmem⟩
  case handed =>
    intro p hp
    obtain hp | hp := List.mem_append.mp hp
    · obtain ⟨hsome, hhand⟩ := h.handed p hp
      refine ⟨?_, hhand⟩
      rw [FiniteMap.get?_set]
      split
      · rfl
      · exact hsome
    · obtain rfl := List.mem_singleton.mp hp
      exact ⟨by rw [FiniteMap.get?_set_self]; rfl, task, hout, rfl, rfl⟩
  case defined =>
    intro p hp
    rw [hanswers] at hp
    obtain hp | hp := List.mem_append.mp hp
    · exact h.defined p hp
    · rw [List.mem_singleton.mp hp]
      exact hdef
  case nodup => exact hnodup
  case ordered => exact hordered

/-- Every run executes its tasks in an order that keeps the order of dependent
ones. -/
theorem executed_run (h : CreatesFirst queries) (hlist : .list ∉ queries)
    (run : (runtime env).Reachable (.start env queries world) rt) :
    ∃ log, rt.Executed world log := by
  refine run.invariant_of (J := fun rt => rt.Built env queries)
    (I := fun rt => ∃ log, rt.Executed world log) (fun rt run => built_run h run)
    ⟨[], Runtime.executed_start env queries world⟩ fun rt a rt' hbuilt _ ⟨log, hlog⟩ _ hs => ?_
  obtain ⟨k, _, hk⟩ | ⟨b, r, hr, rfl⟩ := Runtime.step_cases hs
  · exact hlog.execute hbuilt hlist hk
  · refine ⟨log, { hlog with handed := fun p hp => ?_ }⟩
    obtain ⟨hsome, task, htask, hp⟩ := hlog.handed p hp
    exact ⟨hsome, task, SplitState.handedOut_subset hr htask, hp⟩

/-! ## the results -/

/-- The queries with the sequence numbers that they are submitted with. -/
def submitted (queries : List Query) : List (Nat × Query) :=
  (queries.zipIdx 1).map fun p => (p.2, p.1)

theorem map_fst_submitted (queries : List Query) :
    (submitted queries).map Prod.fst = List.range' 1 queries.length := by
  rw [submitted, List.map_map]
  exact List.zipIdx_map_snd 1 queries

theorem map_snd_submitted (queries : List Query) : (submitted queries).map Prod.snd = queries := by
  rw [submitted, List.map_map]
  exact List.zipIdx_map_fst 1 queries

theorem mem_submitted {n : Nat} {query : Query} :
    (n, query) ∈ submitted queries ↔ ∃ k, queries[k]? = some query ∧ n = k + 1 := by
  simp only [submitted, List.mem_map, Prod.exists, Prod.mk.injEq,
    List.mem_zipIdx_iff_le_and_getElem?_sub]
  constructor
  · rintro ⟨q, i, ⟨hle, hq⟩, rfl, rfl⟩
    exact ⟨i - 1, hq, (Nat.sub_add_cancel hle).symm⟩
  · rintro ⟨k, hk, rfl⟩
    exact ⟨query, k + 1, ⟨Nat.le_add_left 1 k, hk⟩, rfl, rfl⟩

/-- A LOAD whose file nobody has written finds what it was parsed for. -/
theorem allOk_of_named : {l : List (Nat × Query)} → {w : World} →
    (l.filterMap (·.2.file)).Nodup → (∀ p ∈ l, p.2 ≠ .list) → (∀ p ∈ l, p.2.NamesTable w) →
    numbered.AllOk l w
  | [], _, _, _, _ => trivial
  | (n, query) :: l, w, hfiles, hlist, hnames => by
      have hquery : query.NamesTable w := hnames _ List.mem_cons_self
      refine ⟨hquery, allOk_of_named (hfiles.sublist ((List.sublist_cons_self _ _).filterMap _))
        (fun p hp => hlist p (List.mem_cons_of_mem _ hp)) fun p hp => ?_⟩
      have hp' := hnames p (List.mem_cons_of_mem _ hp)
      cases hload : p.2 with
      | load t f =>
          rw [hload] at hp'
          -- the file is not that of `query`
          have hframe : (query.execute w).2.view (.file f) = w.view (.file f) := by
            refine (Query.local_execute query).frame hquery fun hw => ?_
            have hf := Query.file_of_reads (hlist _ List.mem_cons_self)
              (query.writes_subset_reads hw)
            rw [List.filterMap_cons_some (f := fun p : Nat × Query => p.2.file) hf] at hfiles
            refine (List.nodup_cons.mp hfiles).1 (List.mem_filterMap.mpr ⟨p, hp, ?_⟩)
            rw [hload]
            rfl
          intro text htext
          exact hp' text ((Content.file.inj hframe).1.symm.trans htext)
      | _ => trivial

theorem sorted_submitted (queries : List Query) :
    (submitted queries).Pairwise fun p p' => p.1 < p'.1 := by
  rw [← List.pairwise_map (f := Prod.fst) (R := (· < ·)), map_fst_submitted]
  exact List.pairwise_lt_range'

theorem query_of_submitted {p : Nat × Query} (hp : p ∈ submitted queries) : p.2 ∈ queries := by
  have hp := List.mem_map_of_mem (f := Prod.snd) hp
  rwa [map_snd_submitted] at hp

/-- Each query finds what it was parsed for. -/
theorem CreatesFirst.allOk (h : CreatesFirst queries) (hlist : .list ∉ queries)
    (hnames : ∀ query ∈ queries, query.NamesTable world) :
    numbered.AllOk (submitted queries) world := by
  have hfiles : (submitted queries).filterMap (·.2.file) = queries.filterMap Query.file := by
    conv_rhs => rw [← map_snd_submitted queries, List.filterMap_map]
    rfl
  exact allOk_of_named (hfiles ▸ h.files) (fun p hp heq => hlist (heq ▸ query_of_submitted hp))
    fun p hp => hnames p.2 (query_of_submitted hp)

/-- What is executed is submitted. -/
theorem Runtime.Executed.mem_submitted {log : List (Nat × Query)} (h : rt.Executed world log)
    (hbuilt : rt.Built env queries) {p : Nat × Query} (hp : p ∈ log) : p ∈ submitted queries := by
  obtain ⟨_, task, htask, hseq, hquery⟩ := h.handed p hp
  obtain ⟨k, hk, hseq', _⟩ := hbuilt.query_of_task htask
  exact LemonDB.mem_submitted.mpr ⟨k, hquery ▸ hk, hseq ▸ hseq'⟩

/-- **The files of the LOADs stay as they were**: in every state of a run each LOAD finds
what it was parsed for. -/
theorem Runtime.Executed.namesTable {log : List (Nat × Query)} (h : rt.Executed world log)
    (hbuilt : rt.Built env queries) (hlist : .list ∉ queries)
    (hnames : ∀ query ∈ queries, query.NamesTable world) {query : Query} (hq : query ∈ queries) :
    query.NamesTable rt.world := by
  have hmem : ∀ p ∈ log, p ∈ submitted queries := fun p hp => h.mem_submitted hbuilt hp
  have hquery : ∀ p ∈ log, p.2 ∈ queries := fun p hp => query_of_submitted (hmem p hp)
  have hfiles : (log.filterMap (·.2.file)).Nodup := by
    obtain ⟨l, hperm, hsub⟩ := (List.Nodup.of_map Prod.fst h.nodup).subperm hmem
    have hall : (submitted queries).filterMap (·.2.file) = queries.filterMap Query.file := by
      conv_rhs => rw [← map_snd_submitted queries, List.filterMap_map]
      rfl
    refine (hperm.filterMap _).nodup_iff.mp ((hsub.filterMap _).nodup ?_)
    rw [hall]
    exact hbuilt.first.files
  have hok : numbered.AllOk log world := allOk_of_named hfiles
    (fun p hp heq => hlist (heq ▸ hquery p hp)) fun p hp => hnames p.2 (hquery p hp)
  have hstart := hnames query hq
  cases query with
  | load t f =>
      have hframe : numbered.view rt.world (.file f) = numbered.view world (.file f) := by
        rw [h.performed]
        refine Footprint.perform_frame hok fun p hp hw => ?_
        -- the query that writes the file would be the LOAD itself
        have hpl : p.2 ≠ .list := fun heq => hlist (heq ▸ hquery p hp)
        have hpf := Query.file_of_reads hpl (p.2.writes_subset_reads hw)
        obtain ⟨i, hi⟩ := List.getElem?_of_mem hq
        obtain ⟨j, hj⟩ := List.getElem?_of_mem (hquery p hp)
        obtain rfl := hbuilt.first.eq_of_file hi hj rfl hpf
        have hsame : p.2 = .load t f := Option.some.inj (hj.symm.trans hi)
        have hw : Resource.file f ∈ p.2.writes := hw
        rw [hsame] at hw
        contradiction
      have hframe : rt.world.view (.file f) = world.view (.file f) := hframe
      intro text htext
      exact hstart text ((Content.file.inj hframe).1.symm.trans htext)
  | _ => trivial

/-- What has a result is executed. -/
theorem Runtime.Executed.mem_of_ready {log : List (Nat × Query)} (h : rt.Executed world log)
    (hbuilt : rt.Built env queries) {p : Nat × Query} (hp : p ∈ submitted queries)
    (hready : (rt.futures.get? p.1).isSome = true) : p ∈ log := by
  obtain ⟨result, hres⟩ := Option.isSome_iff_exists.mp hready
  obtain ⟨query, hmem⟩ := h.futures p.1 result hres
  have hlog : (p.1, query) ∈ log := by
    rw [← Footprint.map_fst_perform (F := numbered) log world]
    exact List.mem_map_of_mem (f := Prod.fst) hmem
  -- the sequence number tells the query
  obtain ⟨k, hk, hpk⟩ := LemonDB.mem_submitted.mp hp
  obtain ⟨j, hj, hpj⟩ := LemonDB.mem_submitted.mp (h.mem_submitted hbuilt hlog)
  obtain rfl : j = k := by omega
  obtain rfl := Option.some.inj (hj.symm.trans hk)
  exact hlog

/-- Once all results are ready, everything is executed. -/
theorem Runtime.Executed.perm_submitted {log : List (Nat × Query)} (h : rt.Executed world log)
    (hbuilt : rt.Built env queries)
    (hready : ∀ n ∈ List.range' 1 queries.length, (rt.futures.get? n).isSome = true) :
    log.Perm (submitted queries) := by
  have hnodup : (submitted queries).Nodup := by
    refine List.Nodup.of_map Prod.fst ?_
    rw [map_fst_submitted]
    exact List.nodup_range'
  refine (List.perm_ext_iff_of_nodup (List.Nodup.of_map Prod.fst h.nodup) hnodup).mpr fun p =>
    ⟨h.mem_submitted hbuilt, fun hp => ?_⟩
  have hn : p.1 ∈ List.range' 1 queries.length := by
    rw [← map_fst_submitted]
    exact List.mem_map_of_mem hp
  exact h.mem_of_ready hbuilt hp (hready p.1 hn)

theorem mapM_of_forall {f : α → Option β} {g : α → β} : {l : List α} →
    (∀ a ∈ l, f a = some (g a)) → l.mapM f = some (l.map g)
  | [], _ => rfl
  | a :: l, h => by
      rw [List.mapM_cons, h a List.mem_cons_self,
        mapM_of_forall fun b hb => h b (List.mem_cons_of_mem _ hb)]
      rfl

theorem outputResults_of_some : (results : List QueryResult) →
    outputResults (results.map some) = plainOutput results
  | [] => rfl
  | result :: results => by
      rw [List.map_cons, outputResults, outputResults_of_some results]
      rfl

/-- A future that is ready although no promise was broken is fulfilled. -/
theorem Runtime.ready_of_results (hkept : rt.queue.abandoned = [])
    {results : List (Option QueryResult)} (h : rt.getResultsInOrder = some results) :
    ∀ n ∈ List.range' 1 rt.totalSubmitted, (rt.futures.get? n).isSome = true := by
  intro n hn
  obtain ⟨i, hi⟩ := List.getElem?_of_mem hn
  obtain ⟨v, hv, _⟩ := getElem?_of_mapM h hi
  cases hf : rt.futures.get? n with
  | some result => rfl
  | none => simp [Runtime.result, hf, hkept] at hv

/-- The results are the answers to the queries, in the order of submission. -/
theorem Runtime.Executed.results {log l : List (Nat × Query)} (h : rt.Executed world log)
    (hanswers : (numbered.perform l world).1.Perm (numbered.perform log world).1)
    (hends : ∀ p ∈ (numbered.perform l world).1, p.2 ≠ .quit)
    (hnums : l.map Prod.fst = List.range' 1 rt.totalSubmitted)
    (hready : ∀ n ∈ List.range' 1 rt.totalSubmitted, (rt.futures.get? n).isSome = true) :
    rt.getResultsInOrder = some (((numbered.perform l world).1.map Prod.snd).map some) := by
  have hnodup : ((numbered.perform log world).1.map (·.1.1)).Nodup := by
    have hnodup := h.nodup
    rw [← Footprint.map_fst_perform (F := numbered) log world, List.map_map] at hnodup
    exact hnodup
  have hrange : List.range' 1 rt.totalSubmitted =
      (numbered.perform l world).1.map (·.1.1) := by
    rw [← hnums]
    conv_lhs => rw [← Footprint.map_fst_perform (F := numbered) l world, List.map_map]
    rfl
  have hresult : ∀ p ∈ (numbered.perform l world).1, rt.result p.1.1 = some (some p.2) := by
    intro p hp
    obtain ⟨result, hres⟩ := Option.isSome_iff_exists.mp
      (hready p.1.1 (by rw [hrange]; exact List.mem_map_of_mem hp))
    obtain ⟨query, hmem⟩ := h.futures p.1.1 result hres
    have heq := List.inj_on_of_nodup_map hnodup hmem (hanswers.mem_iff.mp hp) rfl
    obtain rfl : result = p.2 := congrArg Prod.snd heq
    have hquit := hends p hp
    unfold Runtime.result
    rw [hres]
    split
    · next heq => exact absurd (Option.some.inj heq) hquit
    · next heq => rw [Option.some.inj heq]
    · contradiction
  rw [Runtime.getResultsInOrder, hrange, List.mapM_map,
    mapM_of_forall (g := fun p => some p.2) hresult, List.map_map]
  rfl

theorem list_notMem (hsilent : ∀ query ∈ queries, query.silent = true) : .list ∉ queries :=
  fun h => Bool.noConfusion (hsilent _ h)

/-- Once each query has a result, the results are what the single-threaded loop outputs. -/
theorem serial_of_ready (h : CreatesFirst queries)
    (hsilent : ∀ query ∈ queries, query.silent = true) (hquit : .quit ∉ queries)
    (hnames : ∀ query ∈ queries, query.NamesTable world)
    (run : (runtime env).Reachable (.start env queries world) rt)
    (hready : ∀ n ∈ List.range' 1 rt.totalSubmitted, (rt.futures.get? n).isSome = true) :
    ∃ results, rt.getResultsInOrder = some results ∧
      ∃ w, executeInOrder queries world = some (outputResults results, w) ∧
        ∀ k, rt.world.view k = w.view k := by
  have hbuilt := built_run h run
  have htotal := totalSubmitted_run run
  have hlist := list_notMem hsilent
  obtain ⟨log, hlog⟩ := executed_run h hlist run
  rw [htotal] at hready
  have hperm := hlog.perm_submitted hbuilt hready
  -- the order of execution is a rearrangement
  obtain ⟨hanswers, hsame, _⟩ := Footprint.perform_rearranged
    (Footprint.rearranged_of_perm Nat.lt_asymm (sorted_submitted queries) hperm hlog.ordered)
    (h.allOk hlist hnames)
  have hends : ∀ p ∈ (numbered.perform (submitted queries) world).1,
      p.2 ≠ .undefined ∧ p.2 ≠ .quit := by
    intro p hp
    refine ⟨hlog.defined p (hanswers.mem_iff.mp hp), fun heq => ?_⟩
    obtain ⟨hp, w, hact⟩ := Footprint.mem_perform hp
    have hq : p.1.2 = .quit := quit_of_execute (w := w) (hact.symm.trans heq)
    exact hquit (hq ▸ query_of_submitted hp)
  have hloop := executeInOrder_perform (submitted queries) world
    (fun p hp => hsilent p.2 (query_of_submitted hp)) hends
  rw [map_snd_submitted] at hloop
  have hcollected := hlog.results hanswers (fun p hp => (hends p hp).2)
    (by rw [map_fst_submitted, htotal]) (by rw [htotal]; exact hready)
  refine ⟨_, hcollected, _, ?_, fun k => (hlog.performed ▸ hsame k).symm⟩
  rw [hloop, outputResults_of_some]

/-- **Serial equivalence**: where each table is created first, no query prints itself,
and no LOAD is abandoned, the multi-threaded path outputs what the single-threaded loop outputs,
and leaves the same tables and files. -/
theorem serial_equivalence (h : CreatesFirst queries)
    (hsilent : ∀ query ∈ queries, query.silent = true) (hquit : .quit ∉ queries)
    (hnames : ∀ query ∈ queries, query.NamesTable world)
    (run : (runtime env).Reachable (.start env queries world) rt)
    (hkept : rt.queue.abandoned = []) {results : List (Option QueryResult)}
    (hres : rt.getResultsInOrder = some results) :
    ∃ w, executeInOrder queries world = some (outputResults results, w) ∧
      ∀ k, rt.world.view k = w.view k := by
  obtain ⟨results', hres', w, hloop, hview⟩ :=
    serial_of_ready h hsilent hquit hnames run (Runtime.ready_of_results hkept hres)
  obtain rfl := Option.some.inj (hres'.symm.trans hres)
  exact ⟨w, hloop, hview⟩

end

/-- Two loaded tables: one is truncated while the other one is read. -/
def twoTables : List Query :=
  [.load "T" "f", .load "U" "g", .select ⟨"T", ["KEY", "a"], []⟩, .truncate "U",
   .select ⟨"U", ["KEY"], []⟩]

/-- The tasks on `U` are executed in front of those on `T`. -/
theorem serial_equivalence_two : ∃ rt results, (runtime (.binaryHeap id)).Reachable
    (.start (.binaryHeap id) twoTables threeFiles) rt ∧
    rt.handedOut.map (·.seq) = [1, 2, 4, 3, 5] ∧ rt.getResultsInOrder = some results ∧
    ∃ w, executeInOrder twoTables threeFiles = some (outputResults results, w) ∧
      ∀ k, rt.world.view k = w.view k := by
  obtain ⟨rt, run, hout, hkept, hsome⟩ := (runtime (.binaryHeap id)).exists_of_execute
    (fun _ _ => True) (fun rt => rt.handedOut.map (·.seq) = [1, 2, 4, 3, 5] ∧
      rt.queue.abandoned = [] ∧ rt.getResultsInOrder.isSome = true)
    (.start (.binaryHeap id) twoTables threeFiles)
    [.fetch, .fetch, .execute 1, .execute 0, .apply 0, .apply 0, .decrement, .fetch, .fetch,
     .execute 0, .apply 0, .fetch, .execute 1, .execute 0] (by decide +kernel)
  obtain ⟨results, hres⟩ := Option.isSome_iff_exists.mp hsome
  exact ⟨rt, results, run, hout, hres, serial_equivalence (by decide +kernel) (by decide)
    (by decide) (by decide +kernel) run hkept hres⟩

end LemonDB
