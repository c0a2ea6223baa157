import LemonDB.Query.Endings
import LemonDB.Runtime.Runtime
import LemonDB.Scheduler.Barriers

/-!
# LemonDB.Runtime.Quit

QUIT.  The single-threaded loop executes nothing behind it.  The scheduler
processes all tasks, those behind a QUIT as well, but none of them before the
QUIT was handed out; their results are not output.
-/

namespace LemonDB

/-! ## what the tasks execute -/

/-- What a task is, wherever it is. -/
abbrev Source := Nat × QueryType × Query

def ParsedQuery.source (t : ParsedQuery) : Source := (t.seq, t.type, t.query)

def ScheduledItem.source (x : ScheduledItem) : Source := (x.seq, x.type, x.query)

def ExecutableTask.source (task : ExecutableTask) : Source := (task.seq, task.type, task.query)

theorem mem_source_submitAll (queries : List Query) (n : Nat) (type : QueryType) (query : Query) :
    (n, type, query) ∈ (submitAll queries).map ParsedQuery.source ↔
      ∃ k, queries[k]? = some query ∧ n = k + 1 ∧ type = query.type := by
  simp only [submitAll, List.map_map, List.mem_map, Prod.exists, Function.comp_apply,
    ParsedQuery.source, submitQuery, Prod.mk.injEq, List.mem_zipIdx_iff_le_and_getElem?_sub]
  constructor
  · rintro ⟨q, i, ⟨hle, hq⟩, rfl, rfl, rfl⟩
    exact ⟨i - 1, hq, (Nat.sub_add_cancel hle).symm, rfl⟩
  · rintro ⟨k, hk, rfl, rfl⟩
    exact ⟨query, k + 1, ⟨Nat.le_add_left 1 k, hk⟩, rfl, rfl, rfl⟩

namespace Stage

/-- Whatever the scheduler holds or has handed out was submitted as it is. -/
structure Sourced (tasks : List ParsedQuery) (s : Stage) : Prop where
  held : ∀ o ∈ (s.queue.items + s.transit).map ScheduledItem.source,
    o ∈ tasks.map ParsedQuery.source
  out : ∀ task ∈ s.handedOut, task.source ∈ tasks.map ParsedQuery.source
  inFlight : ∀ task ∈ s.inFlight, task ∈ s.handedOut

variable {env : Env} {lossy : Prop} {tasks : List ParsedQuery} {s s' : Stage}

theorem sourced_move (h : s.Sourced tasks) (hm : Move env lossy s s') : s'.Sourced tasks := by
  obtain ⟨hitems, hf, hd, _⟩ | ⟨q, x, task, hb, hitems, hf, hd, _⟩ :=
    carries_move (f := ScheduledItem.source) (fun _ _ => rfl) (fun _ _ _ _ _ _ => rfl) hm
  · exact ⟨hitems ▸ h.held, hd ▸ h.out, hf ▸ hd ▸ h.inFlight⟩
  · have hheld := h.held
    rw [← hitems] at hheld
    have htask : task.source = x.source := by
      rw [ExecutableTask.source, hb.seq, hb.type, hb.query]
      rfl
    constructor
    · exact fun o ho => hheld o (Multiset.mem_cons_of_mem ho)
    · rw [hd]
      intro t ht
      obtain ht | ht := List.mem_append.mp ht
      · exact h.out t ht
      · rw [List.mem_singleton.mp ht, htask]
        exact hheld _ (Multiset.mem_cons_self _ _)
    · rw [hf, hd]
      exact fun t ht => List.mem_append.mpr ((List.mem_append.mp ht).imp (h.inFlight t) id)

theorem sourced_preserved (env : Env) (tasks : List ParsedQuery) :
    SplitPreserved env fun _ => Sourced tasks where
  move := sourced_move
  begin h _ _ := { h with inFlight := fun t ht => h.inFlight t (List.mem_of_mem_eraseIdx ht) }
  settle h _ _ := ⟨h.held, h.out, h.inFlight⟩
  decrement h := ⟨h.held, h.out, h.inFlight⟩

/-- A barrier is executed as it is, and none is abandoned. -/
structure Unflagged (s : Stage) : Prop where
  placed : s.Placed
  barriers : ∀ x ∈ s.queue.barriers, x.droppedFlag = false
  out : ∀ task ∈ s.handedOut, task.type.isBarrier = true → task.execOverride = false
  abandoned : ∀ x ∈ s.queue.abandoned, x.type.isBarrier = false

/-- A task that was handed out, not from an item with a flag that is a barrier. -/
theorem Unflagged.hand (h : s.Unflagged) {task : ExecutableTask}
    (htask : task.type.isBarrier = true → task.execOverride = false) :
    ∀ t ∈ s.handedOut ++ [task], t.type.isBarrier = true → t.execOverride = false := by
  intro t ht
  obtain ht | ht := List.mem_append.mp ht
  · exact h.out t ht
  · exact List.mem_singleton.mp ht ▸ htask

theorem unflagged_move (h : s.Unflagged) (hm : Move env lossy s s') : s'.Unflagged := by
  have hplaced := placed_move h.placed hm
  cases hm with
  | loseLoad x rest hl htr =>
      refine { h with placed := hplaced, abandoned := fun y hy => ?_ }
      obtain hy | hy := List.mem_append.mp hy
      · exact h.abandoned y hy
      · rw [List.mem_singleton.mp hy]
        exact h.placed.isBarrier_of_transit (htr ▸ List.mem_cons_self)
  | handLoad x rest d task hc htr hd hr hb =>
      refine { h with placed := hplaced, out := h.hand fun hbarrier => ?_ }
      rw [(TaskQueue.built_of_ok hb).type,
        h.placed.isBarrier_of_transit (htr ▸ List.mem_cons_self)] at hbarrier
      contradiction
  | handTable t g head rest task hc hp hq hb hr hbuild =>
      refine { h with placed := hplaced, out := h.hand fun hbarrier => ?_ }
      rw [(TaskQueue.built_of_ok hbuild).type,
        h.placed.isBarrier_of_queueOf (hq ▸ List.mem_cons_self)] at hbarrier
      contradiction
  | handBarrier barrier rest task hc hq hrun hheap hl hb =>
      obtain ⟨g, hrel, _⟩ := ((s.queue.popBarrier barrier rest).countFetch).release_eq env
      simp only [hrel] at hplaced ⊢
      refine ⟨hplaced, fun x hx => h.barriers x ?_, h.hand fun _ => ?_, h.abandoned⟩
      · rw [hq]
        exact List.mem_cons_of_mem _ hx
      · rw [(TaskQueue.built_of_ok hb).execOverride]
        exact h.barriers barrier (hq ▸ List.mem_cons_self)
  | register c t hc ht =>
      obtain ⟨tables, g, hreg, _⟩ :=
        s.queue.registerTableQueue_eq env t (TaskQueue.placeholder c)
      simp only [hreg] at hplaced ⊢
      exact { h with placed := hplaced }
  | reindex c t hc ht =>
      obtain ⟨g, hup, _⟩ := s.queue.upsertHead_eq env t
      simp only [hup] at hplaced ⊢
      exact { h with placed := hplaced }
  | _ => exact { h with placed := hplaced }

theorem unflagged_preserved (env : Env) : SplitPreserved env fun _ => Unflagged where
  move := unflagged_move
  begin h hc hk := { h with placed := (placed_preserved env True).begin h.placed hc hk }
  settle h hc _ := { h with placed := { (placed_preserved env True).finish h.placed hc with } }
  decrement h := { h with placed := { h.placed with } }

end Stage

/-! ## the registered items -/

theorem sourced_start (env : Env) (tasks : List ParsedQuery) :
    (RunState.start env tasks).stage.Sourced tasks := by
  have hreg := TaskQueue.registered_registerAll env tasks
  have hitems : (TaskQueue.registerAll env tasks).setReady.items =
      TaskQueue.registered env tasks := hreg.items
  have hsource := TaskQueue.map_registered env (f := ScheduledItem.source)
    (g := ParsedQuery.source) (fun dm t => by
      obtain ⟨_, _, h⟩ := TaskQueue.markedItem_same env dm t
      rw [h]
      rfl) tasks
  refine ⟨fun o ho => ?_, fun _ h => by contradiction, fun _ h => by contradiction⟩
  simp only [RunState.stage, RunState.start, Multiset.coe_nil, add_zero, hitems,
    Multiset.map_coe, hsource] at ho
  exact ho

theorem unflagged_start (env : Env) (tasks : List ParsedQuery) :
    (RunState.start env tasks).stage.Unflagged := by
  have hreg := TaskQueue.registered_registerAll env tasks
  have hflag := TaskQueue.map_registered env
    (f := fun x => decide (x.type.isBarrier = true → x.droppedFlag = false)) (g := fun _ => true)
    (fun dm t => by
      unfold TaskQueue.markedItem
      split
      · next hm =>
          obtain ⟨_, _, h⟩ := TaskQueue.markScheduled_same env.hashOrder dm
            (TaskQueue.freshItem t) t.type
          have hty : (TaskQueue.freshItem t).type = t.type := rfl
          cases hty' : t.type <;> simp_all [QueryType.isMarked, QueryType.isBarrier]
      · simp [TaskQueue.freshItem]) tasks
  refine ⟨placed_start env tasks, fun x hx => ?_, fun _ h => by contradiction, fun x hx => ?_⟩
  · have hx : x ∈ (TaskQueue.registerAll env tasks).barriers := hx
    rw [hreg.barriers] at hx
    obtain ⟨hmem, hbarrier⟩ := List.mem_filter.mp hx
    have hmap := List.mem_map_of_mem
      (f := fun x => decide (x.type.isBarrier = true → x.droppedFlag = false)) hmem
    rw [hflag] at hmap
    obtain ⟨_, _, htrue⟩ := List.mem_map.mp hmap
    exact of_decide_eq_true htrue.symm hbarrier
  · have hx : x ∈ (TaskQueue.registerAll env tasks).abandoned := hx
    rw [hreg.abandoned] at hx
    contradiction

/-! ## runs of the runtime -/

/-- What holds of the scheduler in every run. -/
structure Runtime.Tracked (env : Env) (queries : List Query) (rt : Runtime) : Prop where
  barred : rt.stage.Barred (TaskQueue.registered env (submitAll queries)) rt.settling
  sourced : rt.stage.Sourced (submitAll queries)
  unflagged : rt.stage.Unflagged

section

variable {env : Env} {queries : List Query} {world : World} {rt : Runtime} {k : Nat}

theorem tracked_run (run : (runtime env).Reachable (.start env queries world) rt) :
    rt.Tracked env queries where
  barred := barred_run (increasing_submitAll queries) (Runtime.scheduler_run run)
  sourced := (Stage.sourced_preserved env _).run (Runtime.scheduler_run run)
    (sourced_start env (submitAll queries))
  unflagged := (Stage.unflagged_preserved env).run (Runtime.scheduler_run run)
    (unflagged_start env _)

namespace Runtime.Tracked

/-- A task in the place of a QUIT is the QUIT. -/
theorem query_eq_quit (h : rt.Tracked env queries) (hk : queries[k]? = some .quit)
    {task : ExecutableTask} (ht : task ∈ rt.handedOut) (hseq : task.seq = k + 1) :
    task.query = .quit ∧ task.type = .quit := by
  obtain ⟨i, hi, hn, hty⟩ := (mem_source_submitAll queries _ _ _).mp (h.sourced.out task ht)
  obtain rfl : i = k := by omega
  have hq : task.query = .quit := Option.some.inj (hi.symm.trans hk)
  exact ⟨hq, by rw [hty, hq]; rfl⟩

/-- The task of a QUIT ends by the exception of QUIT. -/
theorem execute_eq_quit (h : rt.Tracked env queries) (hk : queries[k]? = some .quit)
    {task : ExecutableTask} (ht : task ∈ rt.handedOut) (hseq : task.seq = k + 1) (w : World) :
    task.execute w = (.quit, w) := by
  obtain ⟨hquery, htype⟩ := h.query_eq_quit hk ht hseq
  have hover := h.unflagged.out task ht (by rw [htype]; rfl)
  rw [ExecutableTask.execute, hover, hquery]
  rfl

/-- No QUIT is abandoned. -/
theorem not_abandoned (h : rt.Tracked env queries) (hk : queries[k]? = some .quit)
    {x : ScheduledItem} (hx : x ∈ rt.queue.abandoned) : x.seq ≠ k + 1 := by
  intro hseq
  have hheld : x.source ∈ (submitAll queries).map ParsedQuery.source :=
    h.sourced.held _ (Multiset.mem_map_of_mem _ (Multiset.mem_add.mpr (.inl
      ((rt.queue.mem_items x).mpr (.inr hx)))))
  obtain ⟨i, hi, hn, hty⟩ := (mem_source_submitAll queries _ _ _).mp hheld
  obtain rfl : i = k := by omega
  have hbarrier := h.unflagged.abandoned x hx
  rw [hty, ← Option.some.inj (hk.symm.trans hi)] at hbarrier
  contradiction

/-- Behind a QUIT that was not handed out, nothing was. -/
theorem seq_le_of_pending (h : rt.Tracked env queries) (hk : queries[k]? = some .quit)
    (hpending : ∀ t ∈ rt.handedOut, t.seq ≠ k + 1) {task : ExecutableTask}
    (ht : task ∈ rt.inFlight) : task.seq ≤ k := by
  have hout := h.sourced.inFlight task ht
  have hmem : submitQuery .quit (k + 1) ∈ submitAll queries := by
    refine List.mem_map.mpr ⟨(.quit, k + 1), ?_, rfl⟩
    exact List.mem_zipIdx_iff_le_and_getElem?_sub.mpr ⟨Nat.le_add_left 1 k, hk⟩
  obtain ⟨x, hx, hseq, htype, _⟩ := TaskQueue.exists_registered env hmem
  obtain hbar | ⟨t, ht', htseq⟩ := h.barred.known x hx (by rw [htype]; rfl)
  · have hle : task.seq ≤ x.seq := h.barred.passed task hout x hbar
    have hne := hpending task hout
    have hx : x.seq = k + 1 := hseq
    omega
  · exact absurd (htseq.trans hseq) (hpending t ht')

end Runtime.Tracked

/-- The log of hand-outs grows. -/
theorem SplitState.handedOut_subset {r r' : SplitState} {a : SplitAction}
    (h : (splitScheduler env).step r a = some r') : r.handedOut ⊆ r'.handedOut := by
  cases a with
  | fetch =>
      obtain ⟨r₁, hf, rfl⟩ := Option.map_eq_some_iff.mp h
      obtain ⟨task, q, _, rfl⟩ | ⟨q, _, rfl⟩ := RunState.fetch_cases hf
      · exact List.subset_append_left _ _
      · exact List.Subset.refl _
  | apply k =>
      obtain ⟨task, q, _, _, rfl⟩ := SplitState.apply_cases h
      exact List.Subset.refl _
  | decrement =>
      have h : r.decrement = some r' := h
      unfold SplitState.decrement at h
      split at h
      · rw [← Option.some.inj h]
        exact List.Subset.refl _
      · contradiction

/-- A promise is fulfilled by the execution of its task. -/
theorem futures_run (run : (runtime env).Reachable (.start env queries world) rt) (n : Nat)
    (result : QueryResult) (hres : rt.futures.get? n = some result) :
    ∃ task ∈ rt.handedOut, task.seq = n ∧ ∃ w, result = (task.execute w).1 := by
  refine run.invariant_of (J := fun rt => ∀ task ∈ rt.inFlight, task ∈ rt.handedOut)
    (I := fun rt => ∀ n result, rt.futures.get? n = some result →
      ∃ task ∈ rt.handedOut, task.seq = n ∧ ∃ w, result = (task.execute w).1)
    (fun rt hr => (tracked_run hr).sourced.inFlight) (fun _ _ h => by contradiction)
    (fun rt a rt' hout _ ih _ hs n result h => ?_) n result hres
  obtain ⟨i, _, hi⟩ | ⟨b, r, hr, rfl⟩ := Runtime.step_cases hs
  · obtain ⟨task, htask, rfl⟩ := Runtime.execute_cases hi
    rw [FiniteMap.get?_set] at h
    split at h
    · next hn =>
        exact ⟨task, hout task (List.mem_of_getElem? htask), hn.symm, rt.world,
          (Option.some.inj h).symm⟩
    · exact ih n result h
  · obtain ⟨task, htask, hex⟩ := ih n result h
    exact ⟨task, SplitState.handedOut_subset hr htask, hex⟩

/-! ## the results -/

/-- The future of a QUIT holds its exception. -/
theorem result_of_quit (run : (runtime env).Reachable (.start env queries world) rt)
    (hk : queries[k]? = some .quit) {v : Option QueryResult} (h : rt.result (k + 1) = some v) :
    v = none := by
  have htracked := tracked_run run
  cases hf : rt.futures.get? (k + 1) with
  | some result =>
      obtain ⟨task, htask, hseq, w, rfl⟩ := futures_run run (k + 1) result hf
      rw [htracked.execute_eq_quit hk htask hseq w] at hf
      simp only [Runtime.result, hf, Option.some.injEq] at h
      exact h.symm
  | none =>
      have hany : rt.queue.abandoned.any (fun item => decide (item.seq = k + 1)) = false := by
        rw [List.any_eq_false]
        exact fun x hx => by simpa using htracked.not_abandoned hk hx
      simp [Runtime.result, hf, hany] at h

/-- The results that are collected are those of the single futures. -/
theorem getElem?_of_mapM {f : α → Option β} : {l : List α} → {bs : List β} →
    l.mapM f = some bs → ∀ {i : Nat} {a : α}, l[i]? = some a → ∃ b, f a = some b ∧ bs[i]? = some b
  | [], _, _, _, _, h => by contradiction
  | a :: l, bs, hm, i, a', h => by
      rw [List.mapM_cons] at hm
      obtain ⟨b, hb, hm⟩ := Option.bind_eq_some_iff.mp hm
      obtain ⟨bs', hbs, hm⟩ := Option.bind_eq_some_iff.mp hm
      obtain rfl := Option.some.inj hm
      cases i with
      | zero =>
          rw [List.getElem?_cons_zero, Option.some.injEq] at h
          exact ⟨b, h ▸ hb, rfl⟩
      | succ i => exact getElem?_of_mapM hbs h

/-- What is collected is the result of a future. -/
theorem exists_of_mapM {f : α → Option β} : {l : List α} → {bs : List β} →
    l.mapM f = some bs → ∀ {i : Nat} {b : β}, bs[i]? = some b → ∃ a, l[i]? = some a ∧ f a = some b
  | [], bs, hm, i, b, h => by
      obtain rfl : bs = [] := (Option.some.inj hm).symm
      contradiction
  | a :: l, bs, hm, i, b', h => by
      rw [List.mapM_cons] at hm
      obtain ⟨b, hb, hm⟩ := Option.bind_eq_some_iff.mp hm
      obtain ⟨bs', hbs, hm⟩ := Option.bind_eq_some_iff.mp hm
      obtain rfl := Option.some.inj hm
      cases i with
      | zero =>
          rw [List.getElem?_cons_zero, Option.some.injEq] at h
          exact ⟨a, rfl, h ▸ hb⟩
      | succ i => exact exists_of_mapM hbs h

/-- Only the exception of a QUIT is a null pointer. -/
theorem quit_of_null (run : (runtime env).Reachable (.start env queries world) rt)
    {results : List (Option QueryResult)} (h : rt.getResultsInOrder = some results) {j : Nat}
    (hj : results[j]? = some none) : queries[j]? = some .quit := by
  obtain ⟨n, hn, hres⟩ := exists_of_mapM h hj
  obtain ⟨hlt, hn⟩ := List.getElem?_eq_some_iff.mp hn
  rw [List.getElem_range', Nat.one_mul] at hn
  have hfuture : rt.futures.get? n = some .quit := by
    unfold Runtime.result at hres
    split at hres
    · assumption
    · cases hres
    · split at hres <;> cases hres
  obtain ⟨task, htask, hseq, w, hquit⟩ := futures_run run n _ hfuture
  obtain ⟨i, hi, hi', _⟩ := (mem_source_submitAll queries _ _ _).mp
    ((tracked_run run).sourced.out task htask)
  obtain rfl : i = j := by omega
  rw [hi, Option.some.injEq]
  unfold ExecutableTask.execute at hquit
  split at hquit
  · contradiction
  · exact quit_of_execute hquit.symm

theorem totalSubmitted_run (run : (runtime env).Reachable (.start env queries world) rt) :
    rt.totalSubmitted = queries.length := by
  refine run.invariant (I := fun rt => rt.totalSubmitted = queries.length) rfl
    fun rt a rt' ih _ hs => ?_
  obtain ⟨i, _, hi⟩ | ⟨b, r, hr, rfl⟩ := Runtime.step_cases hs
  · obtain ⟨task, htask, rfl⟩ := Runtime.execute_cases hi
    exact ih
  · exact ih

theorem getResultsInOrder_quit (run : (runtime env).Reachable (.start env queries world) rt)
    (hk : queries[k]? = some .quit) {results : List (Option QueryResult)}
    (h : rt.getResultsInOrder = some results) : results[k]? = some none := by
  have htotal := totalSubmitted_run run
  obtain ⟨hlt, _⟩ := List.getElem?_eq_some_iff.mp hk
  have hrange : (List.range' 1 rt.totalSubmitted)[k]? = some (k + 1) := by
    rw [List.getElem?_range' (htotal ▸ hlt), Nat.one_mul, Nat.add_comm]
  obtain ⟨v, hv, hres⟩ := getElem?_of_mapM h hrange
  rw [result_of_quit run hk hv] at hres
  exact hres

end

/-- The first null pointer ends the output: the results in front of it are shown. -/
theorem outputResults_of_null : {results : List (Option QueryResult)} → {k : Nat} →
    results[k]? = some none → (outputResults results).quit = true ∧ ∃ j ≤ k,
      results[j]? = some none ∧ (outputResults results).shown.map some = results.take j
  | [], _, h => by contradiction
  | none :: _, k, _ => ⟨rfl, 0, Nat.zero_le k, rfl, rfl⟩
  | some _ :: _, 0, h => by simp at h
  | some result :: _, k + 1, h => by
      rw [List.getElem?_cons_succ] at h
      obtain ⟨hquit, j, hj, hnone, hshown⟩ := outputResults_of_null h
      refine ⟨hquit, j + 1, Nat.succ_le_succ hj, hnone, ?_⟩
      rw [List.take_succ_cons, ← hshown]
      rfl

/-- QUIT ends the single-threaded loop. -/
theorem executeInOrder_quit : {queries : List Query} → {k : Nat} → queries[k]? = some .quit →
    (w : World) → executeInOrder queries w = executeInOrder (queries.take (k + 1)) w
  | [], _, h, _ => by contradiction
  | query :: queries, 0, h, w => by
      obtain rfl := Option.some.inj h
      rfl
  | query :: queries, k + 1, h, w => by
      rw [List.getElem?_cons_succ] at h
      rw [List.take_succ_cons, executeInOrder, executeInOrder]
      split
      · rfl
      · rfl
      · rw [executeInOrder_quit h]

/-- The single-threaded loop ends at the first QUIT, and shows what the queries in front
of it show. -/
theorem quit_of_executeInOrder : {queries : List Query} → {k : Nat} → queries[k]? = some .quit →
    {w w' : World} → {o : Output} → executeInOrder queries w = some (o, w') →
    o.quit = true ∧ ∃ j ≤ k, queries[j]? = some .quit ∧
      executeInOrder (queries.take j) w = some ({ o with quit := false }, w')
  | [], _, h, _, _, _, _ => by contradiction
  | query :: queries, 0, h, w, w', o, hrun => by
      obtain rfl := Option.some.inj h
      obtain ⟨rfl, rfl⟩ := Prod.mk.inj (Option.some.inj hrun)
      exact ⟨rfl, 0, Nat.le_refl 0, rfl, rfl⟩
  | query :: queries, k + 1, h, w, w', o, hrun => by
      rw [List.getElem?_cons_succ] at h
      rw [executeInOrder] at hrun
      split at hrun
      · contradiction
      · next hexec =>
          obtain rfl := quit_of_execute (congrArg Prod.fst hexec)
          obtain ⟨rfl, rfl⟩ := Prod.mk.inj (Option.some.inj hrun)
          obtain ⟨-, rfl⟩ := Prod.mk.inj hexec
          exact ⟨rfl, 0, Nat.zero_le _, rfl, rfl⟩
      · next result w₁ hdef hne hexec =>
          obtain ⟨⟨o', w₂⟩, hrec, heq⟩ := Option.map_eq_some_iff.mp hrun
          obtain ⟨rfl, rfl⟩ := Prod.mk.inj heq
          obtain ⟨hquit, j, hj, hat, hfront⟩ := quit_of_executeInOrder h hrec
          refine ⟨hquit, j + 1, Nat.succ_le_succ hj, hat, ?_⟩
          rw [List.take_succ_cons, executeInOrder_cons hexec hdef hne, hfront]
          rfl

/-! ## both modes -/

/-- **QUIT**: until it is handed out, only the queries in front of it change tables or
files, and of the results those in front of the first QUIT are shown.  The
single-threaded loop executes nothing behind the first QUIT. -/
theorem quit_ends_output (env : Env) {queries : List Query} {k : Nat}
    (hk : queries[k]? = some .quit) (world : World) :
    (∀ rt, (runtime env).Reachable (.start env queries world) rt →
      (∀ a rt', (runtime env).step rt a = some rt' → (∀ t ∈ rt.handedOut, t.seq ≠ k + 1) →
        rt'.world = rt.world ∨
          ∃ i task, a = .execute i ∧ rt.inFlight[i]? = some task ∧ task.seq ≤ k) ∧
      ∀ results, rt.getResultsInOrder = some results →
        (outputResults results).quit = true ∧ ∃ j ≤ k, queries[j]? = some .quit ∧
          (outputResults results).shown.map some = results.take j) ∧
    executeInOrder queries world = executeInOrder (queries.take (k + 1)) world ∧
    ∀ o w, executeInOrder queries world = some (o, w) →
      o.quit = true ∧ ∃ j ≤ k, queries[j]? = some .quit ∧
        executeInOrder (queries.take j) world = some ({ o with quit := false }, w) := by
  refine ⟨fun rt run => ⟨fun a rt' hs hpending => ?_, fun results hres => ?_⟩,
    executeInOrder_quit hk world, fun o w => quit_of_executeInOrder hk⟩
  · obtain ⟨i, rfl, hi⟩ | ⟨b, r, hr, rfl⟩ := Runtime.step_cases hs
    · obtain ⟨task, htask, rfl⟩ := Runtime.execute_cases hi
      exact .inr ⟨i, task, rfl, htask, (tracked_run run).seq_le_of_pending hk hpending
        (List.mem_of_getElem? htask)⟩
    · exact .inl rfl
  · obtain ⟨hquit, j, hj, hnone, hshown⟩ :=
      outputResults_of_null (getResultsInOrder_quit run hk hres)
    exact ⟨hquit, j, hj, quit_of_null run hres hnone, hshown⟩

/-- A world with the files of three tables. -/
def threeFiles : World where
  files := ((((∅ : FiniteMap String TextStream.Text).set "f" "T 1\nKEY a\nx 1\n".toList).set
    "g" "U 1\nKEY a\nx 1\n".toList)).set "h" "V 1\nKEY a\nx 1\n".toList

/-- The DROP behind the QUIT is executed, and its result is not output. -/
theorem quit_ends_output_drop : ∃ rt, (runtime (.binaryHeap id)).Reachable
    (.start (.binaryHeap id) [.load "T" "f", .quit, .drop "T"] threeFiles) rt ∧
    rt.world.database.tables.keys = [] ∧
    ∃ results, rt.getResultsInOrder = some results ∧ (outputResults results).quit = true ∧
      ∃ j ≤ 1, [.load "T" "f", .quit, .drop "T"][j]? = some Query.quit ∧
        (outputResults results).shown.map some = results.take j := by
  obtain ⟨rt, run, hworld, hres⟩ := (runtime (.binaryHeap id)).exists_of_execute
    (fun _ _ => True) (fun rt => rt.world.database.tables.keys = [] ∧
      rt.getResultsInOrder = some [some .null, none, some .null])
    (.start (.binaryHeap id) [.load "T" "f", .quit, .drop "T"] threeFiles)
    [.fetch, .execute 0, .apply 0, .decrement, .fetch, .fetch, .execute 0, .execute 1]
    (by decide +kernel)
  exact ⟨rt, run, hworld, _, hres,
    ((quit_ends_output (.binaryHeap id) (k := 1) rfl threeFiles).1 rt run).2 _ hres⟩

/-- A QUIT in front of enough queries for several threads. -/
def quitBehindLoads : List Query :=
  [.load "T" "f", .load "U" "g", .load "V" "h", .quit, .drop "T"] ++ .replicate 995 .list

/-- In the multi-threaded path a query behind a QUIT changes the tables. -/
theorem not_quit_ends_execution : ¬ ∀ (env : Env) (queries : List Query) (world : World)
    (numThreads k : Nat), queries[k]? = some .quit → effectiveThreads numThreads queries ≠ 1 →
    ∀ rt i task rt', (runtime env).Reachable (.start env queries world) rt →
      rt.inFlight[i]? = some task → k + 1 < task.seq → rt.execute i = some rt' →
      rt'.world.database = rt.world.database ∧ rt'.world.files = rt.world.files := by
  intro h
  obtain ⟨rt, run, ⟨task, htask, hseq⟩, rt', hrt', hkeys, hkeys'⟩ :=
    (runtime (.binaryHeap id)).exists_of_execute (fun _ _ => True)
      (fun rt => (∃ task ∈ rt.inFlight[0]?, 4 < task.seq) ∧ ∃ rt' ∈ rt.execute 0,
        rt.world.database.tables.keys = ["V", "U", "T"] ∧
        rt'.world.database.tables.keys = ["V", "U"])
      (.start (.binaryHeap id) quitBehindLoads threeFiles)
      [.fetch, .fetch, .fetch, .execute 0, .execute 1, .execute 2, .apply 0, .apply 0, .apply 0,
        .decrement, .decrement, .decrement, .fetch, .execute 0, .apply 0, .decrement, .fetch]
      (by decide +kernel)
  have hsame := (h (.binaryHeap id) quitBehindLoads threeFiles 8 3 rfl (by decide +kernel) rt 0
    task rt' run htask hseq hrt').1
  rw [hsame, hkeys] at hkeys'
  contradiction

end LemonDB
