import LemonDB.Scheduler.Workload

/-!
# LemonDB.Scheduler.LoadsPreferred

When no LOAD can be lost.  A fetch round that draws a LOAD and a table candidate
destroys the LOAD if the table candidate goes first: if it has the priority of a
LOAD and a smaller sequence number.  Only DUMP, DROP, TRUNCATE and COPYTABLE have
that priority.  So no run loses anything where none of these is submitted in
front of a LOAD.
-/

namespace LemonDB

/-- No LOAD comes behind a table task of its priority. -/
def LoadsPreferred (items : List ScheduledItem) : Prop :=
  ∀ x ∈ items, ∀ y ∈ items, x.type = .load → y.type.isQueued = true →
    classifyPriority y.type = .high → x.seq < y.seq

/-- What the choice between two candidates looks at. -/
def ScheduledItem.rank (x : ScheduledItem) : Nat × QueryType × QueryPriority :=
  (x.seq, x.type, x.priority)

namespace Stage

variable {env : Env} {lossy : Prop} {items : List ScheduledItem} {s s' : Stage}

/-- The tasks are ranked as they were registered. -/
structure Ranked (items : List ScheduledItem) (s : Stage) : Prop where
  placed : s.Placed
  held : ∀ o ∈ (s.queue.items + s.transit).map ScheduledItem.rank,
    o ∈ items.map ScheduledItem.rank

theorem ranked_move (h : s.Ranked items) (hm : Move env lossy s s') : s'.Ranked items := by
  refine ⟨placed_move h.placed hm, ?_⟩
  obtain ⟨hitems, _⟩ | ⟨_, _, _, _, hitems, _⟩ :=
    carries_move (f := ScheduledItem.rank) (fun _ _ => rfl) (fun _ _ _ _ _ _ => rfl) hm
  · exact hitems ▸ h.held
  · have hheld := h.held
    rw [← hitems] at hheld
    exact fun o ho => hheld o (Multiset.mem_cons_of_mem ho)

theorem ranked_preserved (env : Env) (items : List ScheduledItem) :
    SplitPreserved env fun _ => Ranked items where
  move := ranked_move
  begin h hc hk := { h with placed := (placed_preserved env True).begin h.placed hc hk }
  settle h hc _ := { h with placed := { (placed_preserved env True).finish h.placed hc with } }
  decrement h := { h with placed := { h.placed with } }

/-- The LOAD goes first. -/
theorem Ranked.preferLoad (h : s.Ranked items) (hitems : LoadsPreferred items)
    (hprio : ∀ x ∈ items, x.priority = classifyPriority x.type) {x y : ScheduledItem} {t : String}
    (hx : x ∈ s.queue.items + s.transit) (hload : x.type = .load) (hy : y ∈ s.queue.queueOf t) :
    TaskQueue.preferLoad x y = true := by
  have hof : ∀ z ∈ s.queue.items + s.transit, ∃ z' ∈ items, z'.rank = z.rank := fun z hz =>
    List.mem_map.mp (h.held _ (Multiset.mem_map_of_mem _ hz))
  obtain ⟨x', hx', hrx⟩ := hof x hx
  obtain ⟨y', hy', hry⟩ := hof y (mem_items_of_stored (TaskQueue.mem_stored_of_queueOf hy))
  have hqueued := (h.placed.queued t y hy).1
  simp only [ScheduledItem.rank, Prod.mk.injEq] at hrx hry
  have hpx : x.priority = .high := by
    rw [← hrx.2.2, hprio x' hx', hrx.2.1, hload]
    rfl
  have hpy : y.priority = classifyPriority y.type := by
    rw [← hry.2.2, hprio y' hy', hry.2.1]
  have hlt : classifyPriority y.type = .high → x.seq < y.seq := by
    intro hhigh
    have := hitems x' hx' y' hy' (hrx.2.1.trans hload) (hry.2.1 ▸ hqueued) (hry.2.1 ▸ hhigh)
    omega
  unfold TaskQueue.preferLoad
  rw [hpx, hpy]
  cases hty : y.type <;> rw [hty] at hqueued hlt <;>
    simp_all [classifyPriority, QueryPriority.value, QueryType.isQueued, QueryType.isBarrier]

/-- In a ranked stage each LOAD candidate goes before each table candidate. -/
theorem Ranked.prefers (h : s.Ranked items) (hitems : LoadsPreferred items)
    (hprio : ∀ x ∈ items, x.priority = classifyPriority x.type) : s.queue.Prefers := by
  intro x hx y hy
  have hx := s.queue.mem_loadQueue_of_candidate hx
  obtain ⟨t, _, ⟨rest, hq⟩, _⟩ := (s.queue.mem_tableCandidates y).mp hy
  exact h.preferLoad hitems hprio (mem_items_of_stored (TaskQueue.mem_stored_of_loadQueue hx))
    (h.placed.loads x hx) (hq ▸ List.mem_cons_self)

/-- What follows from an invariant of the moves holds before every round. -/
theorem everyFetchRound_of_move {I : Stage → Prop} {p : TaskQueue → Bool}
    (move : ∀ {s s'}, I s → Move env True s s' → I s')
    (hp : ∀ s, I s → s.completing = none → p s.queue = true) (h : I s)
    (hc : s.completing = none) : s.queue.everyFetchRound env p = true := by
  refine TaskQueue.everyFetchRound_of_round
    (I := fun q => ∃ s : Stage, s.queue = q ∧ I s ∧ s.completing = none) ?_ ?_ ⟨s, rfl, h, hc⟩
  · rintro q q' ⟨s, rfl, h, hc⟩ hr
    have hround := @moves_fetchRound env True s hc fun _ => trivial
    rw [hr] at hround
    exact ⟨s.withQueue q', rfl, moves_preserve move hround h, hc⟩
  · rintro q ⟨s, rfl, h, hc⟩
    exact hp s h hc

end Stage

/-- A callback abandons nothing. -/
theorem TaskQueue.abandoned_callback {env : Env} {q q' : TaskQueue} {c : Completion}
    (h : q.callback env c = .ok q') : q'.abandoned = q.abandoned := by
  let s : Stage := { queue := q, completing := some c }
  have hms : Moves env False s (s.withQueue q') := Stage.moves_callback rfl rfl h
  refine moves_preserve (I := fun s => s.queue.abandoned = q.abandoned) (fun h hm => ?_) hms rfl
  obtain ⟨lost, hlost, hnil⟩ := TaskQueue.abandoned_move hm
  rw [hlost, hnil id, List.append_nil, h]

section

variable {env : Env} {queries : List Query}

theorem priority_registered (env : Env) (queries : List Query) :
    ∀ x ∈ TaskQueue.registered env (submitAll queries), x.priority = classifyPriority x.type := by
  have hmap := TaskQueue.map_registered env (f := fun x => (x.priority, x.type))
    (g := fun t => (t.priority, t.type)) (fun dm t => by
      obtain ⟨_, _, hm⟩ := TaskQueue.markedItem_same env dm t
      rw [hm]
      rfl) (submitAll queries)
  intro x hx
  have hmem := List.mem_map_of_mem (f := fun x : ScheduledItem => (x.priority, x.type)) hx
  rw [hmap] at hmem
  obtain ⟨t, ht, heq⟩ := List.mem_map.mp hmem
  obtain ⟨p, _, rfl⟩ := List.mem_map.mp ht
  obtain ⟨hprio, hty⟩ := Prod.mk.inj heq
  rw [← hprio, ← hty]
  rfl

theorem ranked_start (env : Env) (tasks : List ParsedQuery) :
    (RunState.start env tasks).stage.Ranked (TaskQueue.registered env tasks) := by
  refine ⟨placed_start env tasks, fun o ho => ?_⟩
  obtain ⟨x, hx, rfl⟩ := Multiset.mem_map.mp ho
  have hx : x ∈ (TaskQueue.registerAll env tasks).items + (0 : Multiset ScheduledItem) := hx
  rw [add_zero, (TaskQueue.registered_registerAll env tasks).items] at hx
  exact List.mem_map_of_mem hx

/-- No DUMP, DROP, TRUNCATE or COPYTABLE is submitted in front of a LOAD. -/
def LoadsFirst (queries : List Query) : Prop :=
  queries.Pairwise fun q q' => q'.type = .load → q.type.isQueued = true →
    classifyPriority q.type ≠ .high

instance (queries : List Query) : Decidable (LoadsFirst queries) :=
  inferInstanceAs (Decidable (List.Pairwise _ _))

theorem LoadsFirst.registered (h : LoadsFirst queries) :
    LoadsPreferred (TaskQueue.registered env (submitAll queries)) := by
  intro x hx y hy hload hqueued hhigh
  obtain ⟨i, q, hi, hxs, hxt, _⟩ := TaskQueue.registered_submitAll env hx
  obtain ⟨j, q', hj, hys, hyt, _⟩ := TaskQueue.registered_submitAll env hy
  rw [hxt] at hload
  rw [hyt] at hqueued hhigh
  by_contra hle
  have hne : i ≠ j := by
    rintro rfl
    obtain rfl := Option.some.inj (hi.symm.trans hj)
    rw [hload] at hqueued
    contradiction
  exact rel_of_pairwise h hj hi (by omega) hload hqueued hhigh

/-- No LOAD is abandoned where no task of its priority is submitted in front of
it. -/
theorem abandoned_of_loadsFirst (h : LoadsFirst queries)
    {guard : SplitState → SplitAction → Prop} {r : SplitState}
    (run : (splitScheduler env).Runs guard (.start env (submitAll queries)) r) :
    r.queue.abandoned = [] := by
  have hwf : SplitPreserved env fun _ s => s.queue.globalIndex.WF :=
    { move := Stage.wf_move, begin := fun h _ _ => h, settle := fun h _ _ => h, decrement := id }
  refine run.invariant_of (J := fun r => r.stage.Ranked
      (TaskQueue.registered env (submitAll queries)) ∧ r.queue.globalIndex.WF)
    (I := fun r => r.queue.abandoned = [])
    (fun r run => ⟨(Stage.ranked_preserved env _).run run (ranked_start env _),
      hwf.run run (@wf_run env (fun _ _ => True) _ _ (.refl _))⟩)
    (TaskQueue.registered_registerAll env _).abandoned fun r a r' hranked _ hkept _ hs => ?_
  cases a with
  | fetch =>
      obtain ⟨r₁, hf, rfl⟩ := Option.map_eq_some_iff.mp hs
      have hprefers := hranked.1.prefers h.registered (priority_registered env queries)
      exact (abandoned_step hranked.2 (a := .fetch) (fun _ => hprefers) hf).trans hkept
  | apply k =>
      obtain ⟨task, q, _, hc, rfl⟩ := SplitState.apply_cases hs
      exact (TaskQueue.abandoned_callback hc).trans hkept
  | decrement =>
      change r.decrement = some r' at hs
      unfold SplitState.decrement at hs
      split at hs
      · rw [← Option.some.inj hs]
        exact hkept
      · contradiction

/-- **No task is lost** where no task of the priority of a LOAD is submitted in front
of it: whatever the threads do, no promise is broken and each task is in one of
its places. -/
theorem no_task_lost_of_loadsFirst (h : LoadsFirst queries) {r : SplitState}
    (run : (splitScheduler env).Reachable (.start env (submitAll queries)) r) :
    r.queue.abandoned = [] ∧ ∀ task ∈ submitAll queries, r.Holds task.seq := by
  have hkept := abandoned_of_loadsFirst h run
  refine ⟨hkept, fun task ht => ?_⟩
  obtain ⟨y, hy, hseq, _⟩ := TaskQueue.exists_registered env ht
  rw [← RunState.mem_seqs (captured_split_run run), ← hseq, RunState.seqs, Multiset.mem_add,
    Multiset.mem_add]
  obtain ⟨x, hx, hid⟩ | ⟨c, hc, hid⟩ := Stage.located (idents_split_run run) hkept hy
  · have hx : x ∈ r.queue.stored + (0 : Multiset ScheduledItem) := hx
    rw [add_zero] at hx
    have hxseq : x.seq = y.seq := congrArg Ident.seq hid
    exact .inl (.inl (hxseq ▸ Multiset.mem_map_of_mem (·.seq) hx))
  · have hcseq : c.seq = y.seq := congrArg Ident.seq hid
    have hc : c ∈ r.inFlight.map (·.onCompleted) ++ [] ++ r.finished := hc
    rw [List.append_nil, List.mem_append] at hc
    obtain hc | hc := hc
    · obtain ⟨task, htask, rfl⟩ := List.mem_map.mp hc
      exact .inl (.inr (hcseq ▸ List.mem_map_of_mem (f := (·.onCompleted.seq)) htask))
    · exact .inr (hcseq ▸ List.mem_map_of_mem (f := (·.seq)) hc)

end

/-- The second fetch draws the LOAD of `U` next to the SELECT on `T`, and the last one
finds the DROP behind them. -/
theorem no_task_lost_of_loadsFirst_two : ∃ r, (splitScheduler (.binaryHeap id)).Reachable
    (.start (.binaryHeap id) (submitAll [.load "T" "f", .select ⟨"T", [], []⟩, .load "U" "g",
      .drop "U"])) r ∧
    r.handedOut.map (·.seq) = [1, 3, 4] ∧ r.queue.abandoned = [] ∧
    ∀ task ∈ submitAll [.load "T" "f", .select ⟨"T", [], []⟩, .load "U" "g", .drop "U"],
      r.Holds task.seq := by
  obtain ⟨r, run, hr⟩ := (splitScheduler (.binaryHeap id)).exists_of_execute (fun _ _ => True)
    (fun r => r.handedOut.map (·.seq) = [1, 3, 4])
    (.start (.binaryHeap id) (submitAll [.load "T" "f", .select ⟨"T", [], []⟩, .load "U" "g",
      .drop "U"]))
    [.fetch, .apply 0, .fetch, .apply 0, .decrement, .fetch] (by decide +kernel)
  exact ⟨r, run, hr, no_task_lost_of_loadsFirst (by decide) run⟩

end LemonDB
