import LemonDB.Scheduler.Registration

/-!
# LemonDB.Scheduler.Conservation

What leaves the scheduler.  A fetch round that draws a LOAD and a table candidate,
and prefers the table candidate, destroys the LOAD together with its promise
(`lostLoad`); that is the only way in which a task can be lost.  The tasks in all
places and the lost ones are those that were registered (`seqs_run`).
-/

namespace LemonDB

namespace TaskQueue

/-! ## abandoned items -/

/-- The LOAD that a round destroys: it was drawn together with a table candidate
that goes first. -/
def lostLoad (env : Env) (q : TaskQueue) : Option ScheduledItem :=
  match q.getFetched env with
  | (some loadCand, some (tableCand, _), _) =>
      if preferLoad loadCand tableCand then none else some loadCand
  | _ => none

/-- A property of the queue that a round leaves behind. -/
def Round.Leaves (P : TaskQueue → Prop) : Round → Prop
  | .inl q => P q
  | .inr (.ok (_, q)) => P q
  | .inr (.error _) => True

@[simp] theorem abandoned_upsertHead (env : Env) (q : TaskQueue) (t : String) :
    (q.upsertHead env t).abandoned = q.abandoned := by
  unfold upsertHead
  split <;> rfl

theorem abandoned_foldl_upsertHead (env : Env) (ts : List String) (q : TaskQueue) :
    (ts.foldl (upsertHead env) q).abandoned = q.abandoned := by
  induction ts generalizing q with
  | nil => rfl
  | cons t ts ih => rw [List.foldl_cons, ih, abandoned_upsertHead]

/-- A fetch that ends with the barriers abandons nothing. -/
theorem abandoned_fetchBarrier (env : Env) (q : TaskQueue) :
    Round.Leaves (fun q' => q'.abandoned = q.abandoned) (.inr (q.fetchBarrier env)) := by
  unfold fetchBarrier
  split
  · exact rfl
  · split
    · exact rfl
    · dsimp only [bind, Except.bind]
      split
      · exact trivial
      · exact abandoned_foldl_upsertHead env _ _

/-- The rest of a round, with its candidate judged: the exception of the judgement, the
queue in which the candidate is parked, or the hand-out. -/
def Round.judged (judgement : Except SchedError (Option TaskQueue))
    (built : Except SchedError ExecutableTask) (next : TaskQueue) : Round :=
  match judgement with
  | .error e => .inr (.error e)
  | .ok (some q) => .inl q
  | .ok none => .inr (built.bind fun out => .ok (some out, next))

/-- What a round leaves behind that parks or hands out its candidate. -/
theorem Round.leaves_judged {P : TaskQueue → Prop}
    {judgement : Except SchedError (Option TaskQueue)} {built : Except SchedError ExecutableTask}
    {next : TaskQueue} (hpark : ∀ q, judgement = .ok (some q) → P q) (hnext : P next) :
    (Round.judged judgement built next).Leaves P := by
  cases judgement with
  | error e => exact trivial
  | ok parked =>
      cases parked with
      | some q => exact hpark q rfl
      | none =>
          cases built with
          | error e => exact trivial
          | ok out => exact hnext

/-- The LOAD branch judges its candidate, then builds its task. -/
theorem fetchLoad_eq (q : TaskQueue) (x : ScheduledItem) : q.fetchLoad x =
    .judged (q.judgeLoadDeps x) (q.buildExecutableFromScheduled x) q.countFetch := rfl

/-- The table branch judges its candidate, then builds its task. -/
theorem fetchTable_eq (q : TaskQueue) (x : ScheduledItem) (t : String) : q.fetchTable x t =
    .judged (q.judgeNormalDeps x t) (q.buildExecutableFromScheduled x)
      (q.setQueue t (q.queueOf t).tail).countFetch := rfl

/-- The LOAD branch abandons nothing. -/
theorem abandoned_fetchLoad (q : TaskQueue) (x : ScheduledItem) :
    Round.Leaves (fun q' => q'.abandoned = q.abandoned) (q.fetchLoad x) := by
  rw [fetchLoad_eq]
  refine Round.leaves_judged (fun q' hj => ?_) rfl
  obtain ⟨type, key, rfl, _⟩ := judgeLoadDeps_park hj
  rfl

/-- The table branch abandons nothing. -/
theorem abandoned_fetchTable (q : TaskQueue) (x : ScheduledItem) (t : String) :
    Round.Leaves (fun q' => q'.abandoned = q.abandoned) (q.fetchTable x t) := by
  rw [fetchTable_eq]
  refine Round.leaves_judged (fun q' hj => ?_) rfl
  obtain ⟨type, key, rfl, _⟩ := judgeNormalDeps_park hj
  rfl

/-- Drawing the candidates abandons nothing. -/
theorem abandoned_getFetched (env : Env) (q : TaskQueue) :
    (q.getFetched env).2.2.abandoned = q.abandoned := by
  obtain ⟨moved, hpick⟩ := pickTable_spec env q.takeLoad.2
  have htake : q.takeLoad.2.abandoned = q.abandoned := by
    obtain ⟨h, _⟩ | ⟨_, _, _, _, h⟩ | ⟨_, _, _, _, _, h⟩ := q.takeLoad_cases <;> rw [h]
  unfold getFetched
  dsimp only
  rw [hpick.frame]
  exact htake

/-- A round abandons the LOAD that it loses, and nothing else. -/
theorem abandoned_fetchRound (env : Env) (q : TaskQueue) :
    (q.fetchRound env).Leaves fun q' =>
      q'.abandoned = q.abandoned ++ (q.lostLoad env).toList := by
  have hget := abandoned_getFetched env q
  unfold fetchRound lostLoad
  generalize q.getFetched env = r at hget ⊢
  obtain ⟨loadCand, tableCand, q'⟩ := r
  dsimp only at hget ⊢
  rw [← hget]
  cases loadCand with
  | none =>
      cases tableCand with
      | none => simpa using abandoned_fetchBarrier env q'
      | some p => simpa using abandoned_fetchTable q' p.1 p.2
  | some x =>
      cases tableCand with
      | none => simpa using abandoned_fetchLoad q' x
      | some p =>
          dsimp only
          split
          · simpa using abandoned_fetchLoad q' x
          · exact abandoned_fetchTable (q'.abandon (some x)) p.1 p.2

/-- A fetch only adds to the abandoned items, and adds nothing if no round loses a LOAD. -/
theorem abandoned_fetchNext {env : Env} {q q' : TaskQueue} {out : Option ExecutableTask}
    (h : q.fetchNext env = .ok (out, q')) : ∃ lost, q'.abandoned = q.abandoned ++ lost ∧
      (q.everyFetchRound env (fun q => (q.lostLoad env).isNone) = true → lost = []) := by
  have hnone : ∀ q, (everyRound env fun q => (q.lostLoad env).isNone).run q = true →
      (q.lostLoad env).toList = [] := by
    intro q hall
    rw [Option.isNone_iff_eq_none.mp (everyRound_head hall), Option.toList_none]
  unfold fetchNext at h
  split at h
  · next hready =>
      have hloop := (fetchLoop env).run_induction (P := fun q r => r = .ok (out, q') →
        ∃ lost, q'.abandoned = q.abandoned ++ lost ∧
          ((everyRound env fun q => (q.lostLoad env).isNone).run q = true → lost = [])) ?_ ?_ q h
      · unfold everyFetchRound
        rwa [hready, Bool.not_true, Bool.false_or]
      · intro q r hb hr
        have hleaves := abandoned_fetchRound env q
        rw [show q.fetchRound env = .inr r from hb, hr] at hleaves
        exact ⟨_, hleaves, hnone q⟩
      · intro q q₁ r hb ih hr
        have hleaves := abandoned_fetchRound env q
        rw [show q.fetchRound env = .inl q₁ from hb] at hleaves
        obtain ⟨lost, hlost, hnil⟩ := ih hr
        refine ⟨_, by rw [hlost, hleaves, List.append_assoc], fun hall => ?_⟩
        rw [hnone q hall, hnil (everyRound_tail hall hb), List.append_nil]
  · exact ⟨[], by rw [(Prod.mk.inj (Except.ok.inj h)).2, List.append_nil], fun _ => rfl⟩

/-- A move abandons nothing, or the LOAD that it loses. -/
theorem abandoned_move {env : Env} {lossy : Prop} {s s' : Stage} (h : Move env lossy s s') :
    ∃ lost, s'.queue.abandoned = s.queue.abandoned ++ lost ∧ (¬ lossy → lost = []) := by
  cases h with
  | loseLoad x rest hlossy => exact ⟨[x], rfl, fun hn => absurd hlossy hn⟩
  | handBarrier barrier rest task =>
      exact ⟨[], (abandoned_foldl_upsertHead env _ _).trans (List.append_nil _).symm, fun _ => rfl⟩
  | register c t =>
      refine ⟨[], ?_, fun _ => rfl⟩
      rw [List.append_nil]
      unfold registerTableQueue
      dsimp only
      split
      · rfl
      · rw [abandoned_upsertHead]
        rfl
  | reindex c t =>
      exact ⟨[], (abandoned_upsertHead env _ _).trans (List.append_nil _).symm, fun _ => rfl⟩
  | _ => exact ⟨[], (List.append_nil _).symm, fun _ => rfl⟩

end TaskQueue

/-- **Nothing comes back**: what the scheduler holds after a move, it held
before. -/
theorem Stage.stored_move {env : Env} {lossy : Prop} {s s' : Stage} {f : ScheduledItem → β}
    (hflag : ∀ x b, f { x with droppedFlag := b } = f x)
    (hresolve : ∀ x d t, x.type = .load → x.depends = .load d → d.pendingTable ≠ [] →
      f { x with tableId := t } = f x) (h : Move env lossy s s') :
    (s'.queue.stored + s'.transit).map f ≤ (s.queue.stored + s.transit).map f := by
  obtain ⟨lost, hlost, _⟩ := TaskQueue.abandoned_move h
  have hle : (s'.queue.items + s'.transit).map f ≤ (s.queue.items + s.transit).map f := by
    obtain ⟨hitems, _⟩ | ⟨_, x, _, _, hitems, _⟩ := carries_move hflag hresolve h
    · exact le_of_eq hitems
    · rw [← hitems]
      exact Multiset.le_cons_self _ _
  have hbefore : (s.queue.items + s.transit).map f =
      (s.queue.stored + s.transit).map f + (s.queue.abandoned : Multiset ScheduledItem).map f := by
    rw [TaskQueue.items_eq, add_right_comm, Multiset.map_add]
  have hafter : (s'.queue.items + s'.transit).map f =
      (s'.queue.stored + s'.transit).map f + (lost : Multiset ScheduledItem).map f +
        (s.queue.abandoned : Multiset ScheduledItem).map f := by
    rw [TaskQueue.items_eq, hlost, ← Multiset.coe_add, add_right_comm, Multiset.map_add,
      Multiset.map_add _ (s.queue.abandoned : Multiset ScheduledItem), ← add_assoc,
      add_right_comm]
  rw [hbefore, hafter] at hle
  exact (Multiset.le_add_right _ _).trans (le_of_add_le_add_right hle)

/-! ## every task is somewhere -/

namespace RunState

/-- The places where a task can be. -/
def Holds (r : RunState) (seq : Nat) : Prop :=
  (∃ x ∈ r.queue.loadQueue, x.seq = seq) ∨ (∃ t, ∃ x ∈ r.queue.queueOf t, x.seq = seq) ∨
  (∃ x ∈ r.queue.barriers, x.seq = seq) ∨
  (∃ type key, ∃ x ∈ r.queue.depManager.waitingOn type key, x.seq = seq) ∨
  (∃ task ∈ r.inFlight, task.seq = seq) ∨ (∃ c ∈ r.finished, c.seq = seq)

/-- The sequence numbers in all places of a state of a run. -/
def seqs (r : RunState) : Multiset Nat :=
  r.queue.stored.map (·.seq) + (r.inFlight.map (·.onCompleted.seq) : List Nat) +
    (r.finished.map (·.seq) : List Nat)

/-- The places of a state, by the sequence numbers in them. -/
theorem mem_seqs {r : RunState} (h : r.stage.Captured) (seq : Nat) :
    seq ∈ r.seqs ↔ r.Holds seq := by
  have hflight : (∃ task ∈ r.inFlight, task.onCompleted.seq = seq) ↔
      ∃ task ∈ r.inFlight, task.seq = seq := by
    refine exists_congr fun task => and_congr_right fun ht => ?_
    rw [(h task (List.mem_append_left _ ht)).1]
  simp only [seqs, Multiset.mem_add, Multiset.mem_map, Multiset.mem_coe, List.mem_map, hflight,
    TaskQueue.mem_stored, Holds]
  grind

end RunState

/-- The accounting of a whole run. -/
theorem idents_run {env : Env} {guard : RunState → RunAction → Prop} {tasks : List ParsedQuery}
    {r : RunState} (run : (scheduler env).Runs guard (.start env tasks) r) :
    r.stage.idents = (TaskQueue.registered env tasks).map ScheduledItem.ident := by
  have hreg := TaskQueue.registered_registerAll env tasks
  refine (Stage.idents_preserved env True _).run run ?_
  have hitems : (TaskQueue.registerAll env tasks).setReady.items =
      TaskQueue.registered env tasks := hreg.items
  simp [Stage.idents, Stage.held, Stage.out, RunState.stage, RunState.start, hitems]

theorem captured_run {env : Env} {guard : RunState → RunAction → Prop} {tasks : List ParsedQuery}
    {r : RunState} (run : (scheduler env).Runs guard (.start env tasks) r) : r.stage.Captured :=
  (Stage.captured_preserved env True).run run fun _ h => absurd h List.not_mem_nil

/-- The sequence numbers in the places of `Holds` and the abandoned ones are those of
the tasks. -/
theorem seqs_of_idents {env : Env} {tasks : List ParsedQuery} {r : RunState}
    (h : r.stage.idents = (TaskQueue.registered env tasks).map ScheduledItem.ident) :
    r.seqs + (r.queue.abandoned.map (·.seq) : List Nat) = (tasks.map (·.seq) : List Nat) := by
  have h := congrArg (Multiset.map Ident.seq) h
  rw [Multiset.map_coe, List.map_map,
    show Ident.seq ∘ ScheduledItem.ident = ScheduledItem.seq from rfl,
    TaskQueue.seq_registered env tasks] at h
  rw [← h]
  simp only [Stage.idents, Stage.held, Stage.out, RunState.stage, TaskQueue.items_eq,
    RunState.seqs, Multiset.map_add, Multiset.map_map, Multiset.map_coe, List.map_map]
  have hitem : Ident.seq ∘ ScheduledItem.ident = (·.seq) := rfl
  have hflight : (Ident.seq ∘ fun task : ExecutableTask => task.onCompleted.ident) =
      (·.onCompleted.seq) := rfl
  have hfin : Ident.seq ∘ Completion.ident = (·.seq) := rfl
  simp only [hitem, hflight, hfin, Option.toList_none, List.map_nil, Multiset.coe_nil, add_zero]
  abel

/-- In a run, the places and the abandoned LOADs together hold each sequence number of the
list once. -/
theorem seqs_run {env : Env} {guard : RunState → RunAction → Prop} {tasks : List ParsedQuery}
    {r : RunState} (run : (scheduler env).Runs guard (.start env tasks) r) :
    r.seqs + (r.queue.abandoned.map (·.seq) : List Nat) = (tasks.map (·.seq) : List Nat) :=
  seqs_of_idents (idents_run run)

/-- No sequence number is in two of the places or among the abandoned ones. -/
theorem nodup_seqs_run {env : Env} {guard : RunState → RunAction → Prop} {tasks : List ParsedQuery}
    (hseq : (tasks.map (·.seq)).Nodup) {r : RunState}
    (run : (scheduler env).Runs guard (.start env tasks) r) :
    (r.seqs + (r.queue.abandoned.map (·.seq) : List Nat)).Nodup := by
  rw [seqs_run run]
  exact Multiset.coe_nodup.mpr hseq

end LemonDB
