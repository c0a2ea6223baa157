import LemonDB.Runtime.Termination

/-!
# LemonDB.Runtime.TotalCorrectness

The thread pool and the single-threaded loop: in every fair schedule the pool outputs
what the loop outputs.

Termination leaves open that a query is not defined for what it finds.  But a task is
handed out behind the earlier ones that it depends on (`executed_of_dependent`), so
what was executed so far can be completed to a rearrangement of the submitted
queries, and each query finds what it finds in the loop (`defined_of_loop`).
-/

namespace LemonDB

namespace Stage

variable {s : Stage}

/-- What is stored for the queue of a table comes behind what was taken from it. -/
theorem TableInv.log_lt {E : String → Prop} (h : s.TableInv E) {x : ScheduledItem}
    (hx : x ∈ s.queue.stored) {t : String} (ht : x.onQueue t = true) :
    ∀ n ∈ (s.lane t).log, n < x.seq := by
  intro n hn
  obtain ⟨hqueued, htab⟩ : x.type.isQueued = true ∧ x.tableId = t := by
    simpa [ScheduledItem.onQueue] using ht
  obtain ⟨hbar, hload⟩ := (TaskQueue.isQueued_iff _).mp hqueued
  obtain hx | ⟨t', hx⟩ | hx | ⟨type, key, hx⟩ := (s.queue.mem_stored x).mp hx
  · exact absurd (h.placed.loads x hx) hload
  · obtain rfl : t' = t := (h.placed.queued t' x hx).2.symm.trans htab
    exact (h.ordered t').log_lt n hn x.seq (List.mem_map_of_mem hx)
  · rw [h.placed.barriers x hx] at hbar
    contradiction
  · refine (h.ordered t).log_lt_parked n hn x.seq (Multiset.mem_map_of_mem _ ?_)
    refine Multiset.mem_filter.mpr ⟨Multiset.mem_add.mpr (.inl ?_), ht⟩
    exact (DependencyManager.mem_waitingItems _ x).mpr ⟨type, key, hx⟩

end Stage

section

variable {env : Env} {queries : List Query} {world : World} {rt : Runtime}

/-- **A task is handed out behind what it depends on**: each earlier query that it depends
on is executed. -/
theorem Runtime.Delivers.executed_of_dependent (h : rt.Delivers env queries)
    (hbuilt : rt.Built env queries) (hlist : .list ∉ queries) {task : ExecutableTask}
    (htask : task ∈ rt.handedOut) {p : Nat × Query} (hp : p ∈ submitted queries)
    (hlt : p.1 < task.seq) (hdep : ¬ footprint.Independent p.2 task.query) :
    (rt.futures.get? p.1).isSome = true := by
  obtain ⟨k, hk, hpk⟩ := mem_submitted.mp hp
  obtain ⟨i, hi, hiseq, _⟩ := hbuilt.query_of_task htask
  have hitems := createdFirst_registered env hbuilt.first
  have hki : k ≠ i := by omega
  -- the item of the earlier query
  obtain ⟨y, hy, hyseq⟩ : ∃ y ∈ TaskQueue.registered env (submitAll queries), y.seq = k + 1 := by
    have hmem := List.mem_map_of_mem (f := Prod.fst) hp
    rw [map_fst_submitted, ← Threadpool.seq_submitAll, ← TaskQueue.seq_registered env, hpk] at hmem
    exact List.mem_map.mp hmem
  obtain ⟨j, query, hj, hjseq, hty, htab, _⟩ := TaskQueue.registered_submitAll env hy
  obtain rfl : j = k := by omega
  obtain rfl := Option.some.inj (hj.symm.trans hk)
  obtain ⟨x, hx, hid⟩ | ⟨c, hc, hid⟩ := Stage.located hbuilt.building.idents h.delivering.kept hy
  · -- it is not stored
    exfalso
    have hx : x ∈ rt.queue.stored := by
      have htr : rt.stage.transit = [] := rfl
      rwa [htr, Multiset.coe_nil, add_zero] at hx
    have hxseq : x.seq = y.seq := congrArg Ident.seq hid
    obtain ⟨t, hta, htb⟩ := hbuilt.first.dependent hlist hk hi hki hdep
    obtain huses' | hcreates' := htb
    · have hq' := hbuilt.onQueue_of_uses htask huses'
      obtain huses | hcreates := hta
      · obtain ⟨hqueued, hresolve⟩ := resolve_of_uses huses
        have hq : x.onQueue (queueName t) = true := by
          rw [← ScheduledItem.onQueue_ident, hid, ScheduledItem.onQueue_ident,
            ScheduledItem.onQueue, hty, hqueued, htab, hresolve]
          simp
        have hlog := hbuilt.building.tables.log_lt hx hq task.onCompleted.seq
          (List.mem_map.mpr ⟨task, List.mem_filter.mpr ⟨htask, hq'⟩, rfl⟩)
        have hseq : task.onCompleted.seq = task.seq :=
          (hbuilt.captured task (List.mem_append_right _ htask)).1
        omega
      · -- what creates the table is completed
        rw [queueName, if_neg (hbuilt.first.named _ (List.mem_of_getElem? hk) t hcreates).1] at hq'
        obtain ⟨c, hc, hopens⟩ := (hbuilt.building.handed task htask).2 t hq'
        have hmem : c ∈ rt.stage.completions := List.mem_append_right _ hc
        obtain ⟨z, hz, hzid, hz'⟩ := hbuilt.building.creates hitems hmem hopens
        obtain ⟨m, q, hm, hmseq, hq⟩ := hbuilt.first.creates_of_registered env hz hz'
        have heq := hbuilt.first.eq_of_creates hk hm hcreates hq
        have hcseq : z.seq = c.seq := congrArg Ident.seq hzid
        exact hbuilt.building.held_ne hitems (Stage.mem_items_of_stored hx) hmem (by omega)
    · obtain huses | hcreates := hta
      · have hlt' := hbuilt.first.lt_of_uses hi hk hcreates' huses
        omega
      · exact hki (hbuilt.first.eq_of_creates hk hi hcreates hcreates')
  · have hcseq : c.seq = y.seq := congrArg Ident.seq hid
    obtain hc | hc := List.mem_append.mp hc
    · -- nor is it in flight
      exfalso
      have hc : c ∈ rt.inFlight.map (·.onCompleted) ++ [] := hc
      rw [List.append_nil] at hc
      obtain ⟨task', ht', rfl⟩ := List.mem_map.mp hc
      have hout' := hbuilt.sourced.inFlight task' ht'
      have hseq' : task'.onCompleted.seq = task'.seq :=
        (hbuilt.captured task' (List.mem_append_left _ ht')).1
      obtain ⟨m, hm, hmseq, _⟩ := hbuilt.query_of_task hout'
      obtain rfl : m = j := by omega
      have hquery := Option.some.inj (hm.symm.trans hk)
      have hlt' := hbuilt.lt_of_dependent hlist ht' htask (by omega) (hquery ▸ hdep)
      omega
    · rw [hpk, ← hyseq, ← hcseq]
      exact h.done c hc

/-- The loop is defined for what its queries find. -/
theorem defined_of_loop : (l : List (Nat × Query)) → (w : World) → (∀ p ∈ l, p.2 ≠ .quit) →
    {r : Output × World} → executeInOrder (l.map Prod.snd) w = some r →
    ∀ p ∈ (numbered.perform l w).1, p.2 ≠ .undefined
  | [], _, _, _, _ => fun p hp => absurd hp List.not_mem_nil
  | (n, query) :: l, w, hquit, r, h => by
      rw [List.map_cons, executeInOrder] at h
      intro p hp
      split at h
      · contradiction
      · next heq =>
          exact absurd (quit_of_execute (congrArg Prod.fst heq)) (hquit _ List.mem_cons_self)
      · next result w' hundef _ heq =>
          obtain ⟨r', hr', _⟩ := Option.map_eq_some_iff.mp h
          have hact : numbered.act (n, query) w = (result, w') := heq
          simp only [Footprint.perform, hact] at hp
          obtain rfl | hp := List.mem_cons.mp hp
          · exact hundef
          · exact defined_of_loop l w' (fun p hp => hquit p (List.mem_cons_of_mem _ hp)) hr' p hp

/-- **No query is undefined** for what it finds, if the loop is defined. -/
theorem Runtime.Delivers.defined (h : rt.Delivers env queries) (hbuilt : rt.Built env queries)
    (hlist : .list ∉ queries) (hquit : .quit ∉ queries)
    (hnames : ∀ query ∈ queries, query.NamesTable world) {log : List (Nat × Query)}
    (hlog : rt.Executed world log) {task : ExecutableTask} (hflight : task ∈ rt.inFlight)
    (hfree : rt.futures.get? task.seq = none) {r : Output × World}
    (hloop : executeInOrder queries world = some r) : (task.query.execute rt.world).1 ≠ .undefined := by
  have hout := hbuilt.sourced.inFlight task hflight
  obtain ⟨hnodup, hordered⟩ := hlog.append hbuilt hlist hflight hfree
  have hanswers := hlog.answers_append task.seq task.query
  generalize hl : log ++ [(task.seq, task.query)] = l at hnodup hordered hanswers
  have htask : ∀ p ∈ l, ∃ done ∈ rt.handedOut, done.seq = p.1 ∧ done.query = p.2 := by
    intro p hp
    rw [← hl] at hp
    obtain hp | hp := List.mem_append.mp hp
    · exact (hlog.handed p hp).2
    · obtain rfl := List.mem_singleton.mp hp
      exact ⟨task, hout, rfl, rfl⟩
  -- what is executed, and this task, can be completed to all queries
  have hrearranged := Footprint.rearranged_of_closed (F := numbered) Nat.lt_asymm
    (sorted_submitted queries) (List.Nodup.of_map Prod.fst hnodup)
    (fun p hp => by
      obtain ⟨done, hdone, hseq, hquery⟩ := htask p hp
      obtain ⟨k, hk, hkseq, _⟩ := hbuilt.query_of_task hdone
      exact mem_submitted.mpr ⟨k, hquery ▸ hk, hseq ▸ hkseq⟩)
    hordered (fun p hp p' hp' hlt hdep => by
      obtain ⟨done, hdone, hseq, hquery⟩ := htask p hp
      rw [← hl]
      refine List.mem_append_left _ (hlog.mem_of_ready hbuilt hp' ?_)
      exact h.executed_of_dependent hbuilt hlist hdone hp' (hseq ▸ hlt)
        (by rw [hquery]; exact hdep))
  obtain ⟨hperm, _⟩ := Footprint.perform_rearranged hrearranged (hbuilt.first.allOk hlist hnames)
  have hmem : ((task.seq, task.query), (task.query.execute rt.world).1) ∈
      (numbered.perform (submitted queries) world).1 := by
    refine hperm.mem_iff.mpr ?_
    rw [Footprint.perform_append, hanswers]
    exact List.mem_append_left _ (List.mem_append_right _ List.mem_cons_self)
  have hquit' : ∀ p ∈ submitted queries, p.2 ≠ .quit := fun p hp heq =>
    hquit (heq ▸ query_of_submitted hp)
  rw [← map_snd_submitted queries] at hloop
  exact defined_of_loop _ world hquit' hloop _ hmem

end

/-- **Total correctness**: if the tables that are used are created first, there are no more
LOADs than a batch has tasks, no query prints anything itself, and the single-threaded loop
is defined, then in every fair schedule of the workers all results get ready, and the pool
outputs what the loop outputs, and leaves the same tables and files. -/
theorem total_correctness {env : Env} {numThreads : Nat} {queries : List Query} {world : World}
    (hself : SelfContained queries)
    (hloads : (queries.filter fun query => decide (query.type = .load)).length ≤ fetchBatchSize)
    (hsilent : ∀ query ∈ queries, query.silent = true) (hquit : .quit ∉ queries)
    (hnames : ∀ query ∈ queries, query.NamesTable world) (hpos : 0 < numThreads)
    {schedule : Nat → Nat} (hfair : Transition.Fair {i | i < numThreads} schedule)
    {o : Output} {w : World} (hloop : executeInOrder queries world = some (o, w)) :
    ∃ n p results, (awaiting env).along schedule (.start env numThreads queries world) n = p ∧
      p.getResultsInOrder = some results ∧ outputResults results = o ∧
      ∀ k, p.world.view k = w.view k := by
  obtain ⟨n, hend⟩ := (Threadpool.progresses env hself hloads hpos world).eventually hfair
    (Transition.Runs.refl _)
  obtain ⟨p, hp⟩ : ∃ p, (awaiting env).along schedule (.start env numThreads queries world) n = p :=
    ⟨_, rfl⟩
  rw [hp] at hend
  have hend : p.Undefined ∨ ∃ results, p.getResultsInOrder = some results :=
    hend.symm.imp id Runtime.results_of_ready
  have run : (awaiting env).Reachable (.start env numThreads queries world) p :=
    hp ▸ Transition.reachable_along schedule _ n
  obtain ⟨rt, hgoing⟩ := Threadpool.going_run hself hloads run
  obtain ⟨hqueue, hworld, hfutures, htotal⟩ :
      p.queue = rt.queue ∧ p.world = rt.world ∧ p.futures = rt.futures ∧
        p.totalSubmitted = rt.totalSubmitted := by
    simpa [Threadpool.shared] using hgoing.refines.shared
  obtain ⟨w', hw', task, ht, hundef⟩ | ⟨results, hres⟩ := hend
  · -- the task that is not defined is in flight
    exfalso
    obtain rfl := Worker.eq_running ht
    obtain ⟨i, hi⟩ := List.getElem?_of_mem hw'
    have hpending : task ∈ p.pending := by
      rw [Threadpool.pending, Threadpool.tally_eq hi]
      simp [Worker.share]
    have hflight : task ∈ rt.inFlight := by
      rw [← Multiset.mem_coe, hgoing.refines.tasks]
      exact Multiset.mem_add.mpr (.inl hpending)
    have hbuilt := built_run hself.toCreatesFirst hgoing.run
    have hlist := list_notMem hsilent
    obtain ⟨log, hlog⟩ := executed_run hself.toCreatesFirst hlist hgoing.run
    refine hgoing.delivers.defined hbuilt hlist hquit hnames hlog hflight
      (hgoing.refines.unset task hpending) hloop ?_
    rw [hworld, ExecutableTask.execute,
      (hbuilt.building.handed task (hbuilt.sourced.inFlight task hflight)).1] at hundef
    exact hundef
  · refine ⟨n, p, results, hp, hres, ?_⟩
    rw [Threadpool.getResultsInOrder, hqueue, hfutures, htotal] at hres
    have hready := Runtime.ready_of_results hgoing.delivers.delivering.kept hres
    obtain ⟨results', hres', w', hloop', hview⟩ :=
      serial_of_ready hself.toCreatesFirst hsilent hquit hnames hgoing.run hready
    obtain rfl := Option.some.inj (hres'.symm.trans hres)
    obtain ⟨rfl, rfl⟩ := Prod.mk.inj (Option.some.inj (hloop'.symm.trans hloop))
    exact ⟨rfl, fun k => hworld ▸ hview k⟩

/-- Two workers take turns on two tables. -/
theorem total_correctness_two : ∃ o w, executeInOrder twoTables threeFiles = some (o, w) ∧
    ∃ n p results, (awaiting (.binaryHeap id)).along (· % 2)
      (.start (.binaryHeap id) 2 twoTables threeFiles) n = p ∧
      p.getResultsInOrder = some results ∧ outputResults results = o ∧
      ∀ k, p.world.view k = w.view k := by
  obtain ⟨⟨o, w⟩, hloop⟩ : ∃ r, executeInOrder twoTables threeFiles = some r :=
    Option.isSome_iff_exists.mp (by decide +kernel)
  exact ⟨o, w, hloop, total_correctness (by decide +kernel) (by decide) (by decide) (by decide)
    (by decide +kernel) Nat.zero_lt_two (Transition.fair_mod 2) hloop⟩

end LemonDB
