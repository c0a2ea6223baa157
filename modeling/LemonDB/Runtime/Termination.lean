import LemonDB.Lib.Fairness
import LemonDB.Runtime.ThreadpoolRuns
import LemonDB.Scheduler.Delivery

/-!
# LemonDB.Runtime.Termination

What the thread pool gets done when none of its threads is left out.

A batch has at most 16 tasks.  If there are not more LOADs than that, then they are
all handed out before the first worker leaves its first batch, so no fetch loses a
task (`Threadpool.Going`), and a worker that fetches while nothing is executed gets
one.  Each step lowers the work that is left, or lets a worker go round once more
(`works_cases`), so in a fair schedule all results get ready (`results_ready`), and
they are those of the single-threaded loop (`total_correctness`).
-/

namespace LemonDB

/-! ## the runtime goes on -/

namespace Runtime

variable {env : Env} {queries : List Query} {world : World} {rt rt' : Runtime}

/-- Only a callback completes a task. -/
theorem finished_step {a : RuntimeAction} (hs : (runtime env).step rt a = some rt') :
    (∃ k, a = .apply k) ∨ rt'.finished = rt.finished := by
  cases a with
  | fetch =>
      obtain ⟨r, hr, rfl⟩ := Option.map_eq_some_iff.mp hs
      obtain ⟨r₁, hf, rfl⟩ := Option.map_eq_some_iff.mp hr
      obtain ⟨_, _, _, rfl⟩ | ⟨_, _, rfl⟩ := RunState.fetch_cases hf <;> exact .inr rfl
  | execute k =>
      obtain ⟨task, hk, rfl⟩ := execute_cases hs
      exact .inr rfl
  | apply k => exact .inl ⟨k, rfl⟩
  | decrement =>
      obtain ⟨r, hr, rfl⟩ := Option.map_eq_some_iff.mp hs
      change rt.toSplitState.decrement = some r at hr
      unfold SplitState.decrement at hr
      split at hr
      · rw [← Option.some.inj hr]
        exact .inr rfl
      · contradiction

/-- The scheduler goes on, and what is completed is executed. -/
structure Delivers (env : Env) (queries : List Query) (rt : Runtime) : Prop where
  delivering : rt.stage.Delivering env (TaskQueue.registered env (submitAll queries)) rt.settling
  done : ∀ c ∈ rt.finished, (rt.futures.get? c.seq).isSome = true

theorem delivers_start (env : Env) (h : SelfContained queries) (world : World) :
    (start env queries world).Delivers env queries where
  delivering := delivering_start env (increasing_submitAll queries) (provided_registered env h)
  done _ hc := absurd hc List.not_mem_nil

/-- No step stops that, as long as no task completes while a LOAD is left. -/
theorem Delivers.step (h : rt.Delivers env queries) (hself : SelfContained queries)
    (hcap : rt.stage.Captured) {a : RuntimeAction} (hg : ∀ k, a = .apply k → rt.stage.LoadsGone)
    (hs : (runtime env).step rt a = some rt') : rt'.Delivers env queries := by
  have hnext : ∀ {b r}, LoadsOut rt.toSplitState b →
      (splitScheduler env).step rt.toSplitState b = some r →
      r.stage.Delivering env (TaskQueue.registered env (submitAll queries)) r.settling :=
    fun hg hs => Stage.delivering_step (provided_registered env hself)
      (recorded_markAll env (increasing_submitAll queries)) h.delivering hg hs
  cases a with
  | fetch =>
      obtain ⟨r, hr, rfl⟩ := Option.map_eq_some_iff.mp hs
      refine ⟨hnext (b := .fetch) (by rintro ⟨k, hk⟩; contradiction) hr, fun c hc => ?_⟩
      exact h.done c ((finished_step hs).resolve_left (by simp) ▸ hc)
  | execute k =>
      obtain ⟨task, hk, rfl⟩ := execute_cases hs
      refine ⟨h.delivering, fun c hc => ?_⟩
      rw [FiniteMap.get?_set]
      split
      · rfl
      · exact h.done c hc
  | apply k =>
      have hs : rt.apply env k = some rt' := hs
      unfold Runtime.apply at hs
      split at hs
      · contradiction
      · next task hk =>
          split at hs
          · next hready =>
              obtain ⟨r, hr, rfl⟩ := Option.map_eq_some_iff.mp hs
              refine ⟨hnext (b := .apply k) (fun _ => hg k rfl) hr, fun c hc => ?_⟩
              obtain ⟨task', q, hk', _, rfl⟩ := SplitState.apply_cases hr
              obtain rfl := Option.some.inj (hk.symm.trans hk')
              obtain hc | hc := List.mem_append.mp hc
              · exact h.done c hc
              · have hseq : task.onCompleted.seq = task.seq :=
                  (hcap task (List.mem_append_left _ (List.mem_of_getElem? hk))).1
                rw [List.mem_singleton.mp hc, hseq]
                exact hready
          · contradiction
  | decrement =>
      obtain ⟨r, hr, rfl⟩ := Option.map_eq_some_iff.mp hs
      refine ⟨hnext (b := .decrement) (by rintro ⟨k, hk⟩; contradiction) hr, fun c hc => ?_⟩
      exact h.done c ((finished_step hs).resolve_left (by simp) ▸ hc)

end Runtime

/-! ## the pool goes on -/

/-- The pool while the results are awaited: nobody is asked to stop. -/
def awaiting (env : Env) : Transition Threadpool Nat where
  step p i := p.work env i

/-- A worker that has not left its first batch. -/
def Worker.Early : Worker → Prop
  | looping | working | fetching _ => True
  | _ => False

/-- A worker in its first batch has executed no task. -/
theorem Worker.Early.executed {w : Worker} (h : w.Early) : w.share.2.1 = 0 := by
  cases w <;> first | rfl | contradiction

namespace Threadpool

variable {env : Env} {numThreads : Nat} {queries : List Query} {world : World} {p p' : Threadpool}
  {rt : Runtime} {i : Nat}

theorem awaiting_run (run : (awaiting env).Reachable p p') : (threadpool env).Reachable p p' :=
  run.map (f := id) fun _ i _ hs => (Transition.Runs.refl _).tail (a := .work i) trivial hs

theorem mem_executed {task : ExecutableTask} (h : task ∈ p.executed) :
    ∃ w ∈ p.workers, task ∈ w.share.2.1 := by
  have htotal : p.executed = Parties.total (fun w => w.share.2.1) p.workers := by
    change (Parties.total Worker.share p.workers).2.1 + 0 = _
    rw [add_zero]
    exact Parties.total_map ((AddMonoidHom.fst (Multiset ExecutableTask) Nat).comp
      (AddMonoidHom.snd (Multiset ExecutableTask) (Multiset ExecutableTask × Nat))) _ _
  rw [htotal] at h
  exact Parties.mem_total h

/-- The pool goes on: either all LOADs are handed out, or no worker has left its first
batch. -/
structure Going (env : Env) (queries : List Query) (world : World) (p : Threadpool)
    (rt : Runtime) : Prop where
  run : (runtime env).Reachable (.start env queries world) rt
  refines : p.Refines rt
  delivers : rt.Delivers env queries
  stop : p.stopRequested = []
  live : ∀ w ∈ p.workers, w ≠ .exited
  loads : rt.stage.LoadsGone ∨ p.localQueue = [] ∧ (∀ w ∈ p.workers, w.Early) ∧
    rt.finished = [] ∧ ∀ task ∈ rt.inFlight, task.onCompleted.type = .load

theorem going_start (env : Env) (numThreads : Nat) (h : SelfContained queries) (world : World) :
    (start env numThreads queries world).Going env queries world (.start env queries world) where
  run := .refl _
  refines := refines_start env numThreads queries world
  delivers := Runtime.delivers_start env h world
  stop := rfl
  live w hw := by
    rw [List.eq_of_mem_replicate hw]
    exact Worker.noConfusion
  loads := .inr ⟨rfl, fun w hw => by rw [List.eq_of_mem_replicate hw]; trivial, rfl,
    fun task ht => absurd ht List.not_mem_nil⟩

/-- A task that completes was executed, so there is no LOAD left. -/
theorem Going.loadsGone_of_apply (h : p.Going env queries world rt) {rt' : Runtime} {k : Nat}
    (hs : (runtime env).step rt (.apply k) = some rt') : rt.stage.LoadsGone := by
  refine h.loads.resolve_right fun ⟨_, hearly, _⟩ => ?_
  have hs : rt.apply env k = some rt' := hs
  unfold Runtime.apply at hs
  split at hs
  · contradiction
  · next task hk =>
      split at hs
      · next hready =>
          have hmem : task ∈ p.pending + p.executed := by
            rw [← h.refines.tasks]
            exact Multiset.mem_coe.mpr (List.mem_of_getElem? hk)
          obtain hmem | hmem := Multiset.mem_add.mp hmem
          · rw [h.refines.unset task hmem] at hready
            contradiction
          · obtain ⟨w, hw, hmem⟩ := mem_executed hmem
            rw [(hearly w hw).executed] at hmem
            exact Multiset.notMem_zero task hmem
      · contradiction

/-- A batch is part of what is fetched. -/
theorem batch_le {batch : List ExecutableTask} (hw : p.workers[i]? = some (.fetching batch)) :
    batch.length ≤ p.pending.card := by
  rw [pending, tally_eq hw]
  simp only [Worker.share, Prod.fst_add, Multiset.card_add, Multiset.coe_card]
  omega

/-- How many LOADs are registered. -/
theorem length_loads (env : Env) (queries : List Query) :
    ((TaskQueue.registered env (submitAll queries)).filter fun x => decide (x.type = .load)).length =
      (queries.filter fun query => decide (query.type = .load)).length := by
  rw [← List.countP_eq_length_filter, ← List.countP_eq_length_filter]
  conv_rhs => rw [← TaskQueue.map_query_registered env queries, List.countP_map]
  refine List.countP_congr fun x hx => ?_
  obtain ⟨_, query, _, _, hty, _, hquery⟩ := TaskQueue.registered_submitAll env hx
  rw [Function.comp_apply, hty, hquery]

/-- What a step of a worker leaves of the LOADs while all of them are in their first
batches. -/
theorem Going.loads_work (h : p.Going env queries world rt) (hself : SelfContained queries)
    (hloads : (queries.filter fun query => decide (query.type = .load)).length ≤ fetchBatchSize)
    (hq : p.localQueue = []) (hearly : ∀ w ∈ p.workers, w.Early) (hfin : rt.finished = [])
    (hflight : ∀ task ∈ rt.inFlight, task.onCompleted.type = .load) {rt' : Runtime}
    (hfin' : rt'.finished = []) (href : p'.Refines rt') (hs : p.work env i = some p') :
    rt'.stage.LoadsGone ∨ p'.localQueue = [] ∧ (∀ w ∈ p'.workers, w.Early) ∧
      rt'.finished = [] ∧ ∀ task ∈ rt'.inFlight, task.onCompleted.type = .load := by
  obtain ⟨w, p₁, w', hw, hworks, rfl⟩ := work_cases hs
  have hqueue : p.queue = rt.queue := congrArg Prod.fst h.refines.shared
  have hqueue' : rt'.queue = p₁.queue := (congrArg Prod.fst href.shared).symm
  have hgone : ∀ {q}, rt'.queue = q → (∀ x ∈ q.items + 0, x.type ≠ .load) → rt'.stage.LoadsGone :=
    fun hq hgone x hx => hgone x (hq ▸ hx)
  have hpending : ∀ task ∈ p.pending, task.onCompleted.type = .load := by
    intro task ht
    refine hflight task ?_
    rw [← Multiset.mem_coe, h.refines.tasks]
    exact Multiset.mem_add.mpr (.inl ht)
  have hnext : p₁.localQueue = [] → w'.Early →
      (∀ task ∈ (p₁.setWorker i w').pending,
        task ∈ p.pending ∨ task.onCompleted.type = .load) →
      rt'.stage.LoadsGone ∨ p₁.localQueue = [] ∧ (∀ w ∈ (p₁.setWorker i w').workers, w.Early) ∧
        rt'.finished = [] ∧ ∀ task ∈ rt'.inFlight, task.onCompleted.type = .load := by
    intro hq' hw' hload
    have hstay : ∀ w ∈ (p₁.setWorker i w').workers, w.Early := by
      intro w₁ hw₁
      obtain hw₁ | rfl := List.mem_or_eq_of_mem_set hw₁
      · exact hearly w₁ (hworks.same.1 ▸ hw₁)
      · exact hw'
    refine .inr ⟨hq', hstay, hfin', fun task ht => ?_⟩
    rw [← Multiset.mem_coe, href.tasks] at ht
    obtain ht | ht := Multiset.mem_add.mp ht
    · exact (hload task ht).elim (hpending task) id
    · obtain ⟨w₁, hw₁, ht⟩ := mem_executed ht
      rw [(hstay w₁ hw₁).executed] at ht
      exact absurd ht (Multiset.notMem_zero task)
  have hold : p.pending = _ := congrArg Prod.fst (tally_eq hw)
  have hnew : (p₁.setWorker i w').pending = _ :=
    congrArg Prod.fst (tally_setWorker hw hworks.same.1 w')
  have hitems := provided_registered env hself
  have hrec := recorded_markAll env (increasing_submitAll queries)
  cases hworks with
  | exit hstop =>
      rw [h.stop] at hstop
      contradiction
  | loop => exact hnext hq trivial fun task ht => .inl (hold.trans hnew.symm ▸ ht)
  | take task rest hq' =>
      rw [hq] at hq'
      contradiction
  | empty hq' => exact hnext hq trivial fun task ht => .inl (hold.trans hnew.symm ▸ ht)
  | fetch batch task queue hlt hf =>
      obtain hnone | ⟨task', heq, _, hload⟩ :=
        h.delivers.delivering.load_of_fetch hitems hrec (hqueue ▸ hf)
      · exact .inl (hgone hqueue' hnone)
      · obtain rfl := Option.some.inj heq
        refine hnext hq trivial fun t ht => ?_
        rw [hnew] at ht
        rw [hold]
        simp only [Worker.share, Prod.fst_add, Multiset.mem_add, Multiset.mem_coe,
          List.mem_append, List.mem_singleton] at ht ⊢
        obtain ((ht | rfl) | ht) | ht := ht
        · exact .inl (.inl (.inl ht))
        · exact .inr hload
        · exact .inl (.inl (.inr ht))
        · exact .inl (.inr ht)
  | noMore batch queue hlt hf =>
      obtain hnone | ⟨task, heq, _⟩ :=
        h.delivers.delivering.load_of_fetch hitems hrec (hqueue ▸ hf)
      · exact .inl (hgone hqueue' hnone)
      · contradiction
  | full batch hge =>
      refine .inl (hgone (hqueue'.trans hqueue) ?_)
      refine h.delivers.delivering.early.building.loadsGone_of_length hfin hflight ?_
      have hcard := congrArg Multiset.card h.refines.tasks
      rw [Multiset.coe_card, Multiset.card_add] at hcard
      have hbatch := batch_le hw
      rw [length_loads]
      omega
  | publish | sleep | acquire | execute | callback | decrement | release =>
      exact absurd (hearly _ (List.mem_of_getElem? hw)) id

/-- **The pool goes on**, whatever its workers do. -/
theorem Going.work (h : p.Going env queries world rt) (hself : SelfContained queries)
    (hloads : (queries.filter fun query => decide (query.type = .load)).length ≤ fetchBatchSize)
    (hs : p.work env i = some p') : ∃ rt', p'.Going env queries world rt' := by
  obtain ⟨rt', hstep, href⟩ := h.refines.work h.run hs
  have hrun : (runtime env).Reachable rt rt' := by
    obtain rfl | ⟨a, hstep⟩ := hstep
    · exact .refl rt'
    · exact (Transition.Runs.refl rt).tail trivial hstep
  have hgone : rt.stage.LoadsGone → rt'.stage.LoadsGone :=
    (Stage.loadsGone_preserved env).run (Runtime.scheduler_run hrun)
  obtain ⟨w, p₁, w', hw, hworks, rfl⟩ := work_cases hs
  refine ⟨rt', ?_⟩
  constructor
  case run => exact h.run.trans hrun
  case refines => exact href
  case delivers =>
    obtain rfl | ⟨a, hstep⟩ := hstep
    · exact h.delivers
    · refine h.delivers.step hself (captured_split_run (Runtime.scheduler_run h.run)) ?_ hstep
      rintro k rfl
      exact h.loadsGone_of_apply hstep
  case stop => exact hworks.same.2.trans h.stop
  case live =>
    intro w₁ hw₁
    obtain hw₁ | rfl := List.mem_or_eq_of_mem_set hw₁
    · exact h.live w₁ (hworks.same.1 ▸ hw₁)
    · rintro rfl
      cases hworks with
      | exit hstop =>
          rw [h.stop] at hstop
          contradiction
  case loads =>
    obtain hload | ⟨hq, hearly, hfin, hflight⟩ := h.loads
    · exact .inl (hgone hload)
    · have hkeep : rt'.stage.LoadsGone ∨ rt'.finished = rt.finished := by
        obtain rfl | ⟨a, hstep⟩ := hstep
        · exact .inr rfl
        · obtain ⟨k, rfl⟩ | hfin := Runtime.finished_step hstep
          · exact .inl (hgone (h.loadsGone_of_apply hstep))
          · exact .inr hfin
      obtain hload | hkeep := hkeep
      · exact .inl hload
      · exact h.loads_work hself hloads hq hearly hfin hflight (hkeep.trans hfin) href hs

/-- The pool goes on in every state that it reaches. -/
theorem going_run (hself : SelfContained queries)
    (hloads : (queries.filter fun query => decide (query.type = .load)).length ≤ fetchBatchSize)
    (run : (awaiting env).Reachable (.start env numThreads queries world) p) :
    ∃ rt, p.Going env queries world rt :=
  run.invariant (I := fun p => ∃ rt, p.Going env queries world rt)
    ⟨_, going_start env numThreads hself world⟩
    fun _ _ _ ⟨_, h⟩ _ hs => h.work hself hloads hs

theorem length_run (run : (awaiting env).Reachable (.start env numThreads queries world) p) :
    p.workers.length = numThreads := by
  refine run.invariant (I := fun p => p.workers.length = numThreads) List.length_replicate
    fun p i p' h _ hs => ?_
  obtain ⟨w, p₁, w', _, hworks, rfl⟩ := work_cases hs
  exact List.length_set.trans (hworks.same.1 ▸ h)

end Threadpool

/-! ## the work that is left -/

/-- The steps that the tasks of a worker still need. -/
def Worker.rank : Worker → Nat
  | looping | working | exited => 0
  | fetching batch => 8 * batch.length
  | fetched batch => 7 * batch.length
  | acquiring _ => 5
  | running _ => 4
  | fulfilled _ => 3
  | settling _ => 2
  | releasing _ => 1

namespace Threadpool

variable {env : Env} {numThreads : Nat} {queries : List Query} {world : World} {p p' : Threadpool}
  {i : Nat} {w w' : Worker}

def rank (p : Threadpool) : Nat :=
  9 * p.queue.items.card + 6 * p.localQueue.length + Parties.total Worker.rank p.workers

/-- A step of a worker that goes round without a task. -/
inductive Rounds (env : Env) (p : Threadpool) : Worker → Worker → Prop
  | loop : Rounds env p .looping .working
  | empty : p.localQueue = [] → Rounds env p .working (.fetching [])
  | noMore (queue) : p.queue.fetchNext env = .ok (none, queue) →
      Rounds env p (.fetching []) (.fetched [])
  | sleep : p.localQueue = [] → Rounds env p (.fetched []) .looping

/-- **Each step lowers the work that is left**, or lets a worker go round. -/
theorem rank_work (hstop : p.stopRequested = []) (hs : p.work env i = some p') :
    p'.rank < p.rank ∨ p'.rank = p.rank ∧ p'.localQueue = p.localQueue ∧
      ∃ w w', p.workers[i]? = some w ∧ Rounds env p w w' ∧ p'.workers = p.workers.set i w' := by
  obtain ⟨w, p₁, w', hw, hworks, rfl⟩ := work_cases hs
  have hold : p.rank = 9 * p.queue.items.card + 6 * p.localQueue.length +
      (w.rank + Parties.total Worker.rank (p.workers.eraseIdx i)) := by
    rw [rank, Parties.total_erase _ hw]
  have hnew : (p₁.setWorker i w').rank = 9 * p₁.queue.items.card + 6 * p₁.localQueue.length +
      (w'.rank + Parties.total Worker.rank (p.workers.eraseIdx i)) := by
    rw [← Parties.total_set _ hw, ← hworks.same.1]
    rfl
  generalize Parties.total Worker.rank (p.workers.eraseIdx i) = others at hold hnew
  rw [hold, hnew]
  cases hworks with
  | exit hi =>
      rw [hstop] at hi
      contradiction
  | loop => exact .inr ⟨rfl, rfl, _, _, hw, .loop, rfl⟩
  | empty hq => exact .inr ⟨rfl, rfl, _, _, hw, .empty hq, rfl⟩
  | take task rest hq =>
      left
      simp only [hq, Worker.rank, List.length_cons]
      omega
  | fetch batch task queue hlt hf =>
      left
      have hcard := TaskQueue.card_items_fetchNext hf
      simp only [Option.toList_some, List.length_singleton] at hcard
      simp only [Worker.rank, List.length_append, List.length_singleton]
      omega
  | noMore batch queue hlt hf =>
      have hcard := TaskQueue.card_items_fetchNext hf
      simp only [Option.toList_none, List.length_nil] at hcard
      cases batch with
      | nil =>
          refine .inr ⟨?_, rfl, _, _, hw, .noMore queue hf, rfl⟩
          simp only [Worker.rank, List.length_nil]
          omega
      | cons task batch =>
          left
          simp only [Worker.rank, List.length_cons]
          omega
  | full batch hge =>
      left
      rw [fetchBatchSize] at hge
      simp only [Worker.rank]
      omega
  | publish batch task rest hq =>
      left
      have hlen := congrArg List.length hq
      simp only [List.length_append, List.length_cons] at hlen
      simp only [Worker.rank]
      omega
  | sleep batch hq =>
      obtain ⟨hnil, rfl⟩ := List.append_eq_nil_iff.mp hq
      exact .inr ⟨rfl, rfl, _, _, hw, .sleep hnil, rfl⟩
  | acquire task lm | execute task | release task lm =>
      left
      simp only [Worker.rank, setValue]
      omega
  | callback task queue hc =>
      left
      have hcard := TaskQueue.card_items_callback hc
      simp only [Worker.rank]
      omega
  | decrement task =>
      left
      simp only [Worker.rank, TaskQueue.items_countCompleted]
      omega

end Threadpool

/-! ## who helps -/

namespace Worker

/-- A worker without a task, on its way round. -/
def Resting : Worker → Prop
  | looping | working | fetching [] | fetched [] => True
  | _ => False

instance : DecidablePred Resting
  | looping | working | fetching [] | fetched [] => isTrue trivial
  | fetching (_ :: _) | fetched (_ :: _) | acquiring _ | running _ | fulfilled _ | settling _
  | releasing _ | exited => isFalse id

def batch : Worker → List ExecutableTask
  | fetching batch | fetched batch => batch
  | _ => []

/-- How many steps it takes to the next task, from the local queue or from the
scheduler. -/
def turns (empty : Bool) : Worker → Nat
  | fetching _ => if empty then 1 else 2
  | working => if empty then 2 else 1
  | looping => if empty then 3 else 2
  | fetched _ => if empty then 4 else 1
  | _ => 0

variable {w : Worker}

theorem Resting.share (h : w.Resting) : w.share = 0 := by
  unfold Resting at h
  split at h <;> first | rfl | contradiction

theorem Resting.executing (h : w.Resting) : w.executing = none := by
  unfold Resting at h
  split at h <;> first | rfl | contradiction

theorem Resting.batch (h : w.Resting) : w.batch = [] := by
  unfold Resting at h
  split at h <;> first | rfl | contradiction

theorem resting_or (hlive : w ≠ .exited) : (∃ task, w.executing = some task) ∨
    (∃ task, w = .acquiring task) ∨ w.batch ≠ [] ∨ w.Resting := by
  cases w with
  | exited => contradiction
  | running task | fulfilled task | settling task | releasing task => exact .inl ⟨task, rfl⟩
  | acquiring task => exact .inr (.inl ⟨task, rfl⟩)
  | looping | working => exact .inr (.inr (.inr trivial))
  | fetching batch | fetched batch =>
      cases batch with
      | nil => exact .inr (.inr (.inr trivial))
      | cons task batch => exact .inr (.inr (.inl (List.cons_ne_nil task batch)))

end Worker

namespace Threadpool

variable {env : Env} {numThreads : Nat} {queries : List Query} {world : World} {p p' : Threadpool}
  {i j : Nat} {w w' : Worker}

/-- The worker gets something done, whatever the others do until its turn. -/
inductive Helps (p : Threadpool) (i : Nat) : Prop
  | executing (w : Worker) (task : ExecutableTask) : p.workers[i]? = some w →
      w.executing = some task → Helps p i
  | acquiring (task : ExecutableTask) : p.workers[i]? = some (.acquiring task) →
      (∀ w ∈ p.workers, w.executing = none) → Helps p i
  | carrying (w : Worker) : p.workers[i]? = some w → w.batch ≠ [] → Helps p i
  | resting (w : Worker) : p.workers[i]? = some w → w.Resting →
      (p.localQueue = [] → ∀ w ∈ p.workers, w.Resting) → Helps p i

def turns (p : Threadpool) (i : Nat) : Nat :=
  p.workers[i]?.elim 0 (Worker.turns p.localQueue.isEmpty)

theorem Rounds.resting (h : Rounds env p w w') : w.Resting ∧ w'.Resting := by
  cases h <;> exact ⟨trivial, trivial⟩

/-- A worker that goes round helps only where the local queue has a task, or all of them
go round. -/
theorem Rounds.all_resting (h : Rounds env p w w') (hw : p.workers[i]? = some w)
    (hi : p.Helps i) (hempty : p.localQueue = []) : ∀ w ∈ p.workers, w.Resting := by
  have hrest := h.resting.1
  cases hi with
  | executing w₁ task hw₁ ht =>
      obtain rfl := Option.some.inj (hw.symm.trans hw₁)
      rw [hrest.executing] at ht
      contradiction
  | acquiring task hw₁ =>
      obtain rfl := Option.some.inj (hw.symm.trans hw₁)
      contradiction
  | carrying w₁ hw₁ hb =>
      obtain rfl := Option.some.inj (hw.symm.trans hw₁)
      exact absurd hrest.batch hb
  | resting w₁ _ _ hall => exact hall hempty

/-- A worker that goes round does not keep anybody from helping. -/
theorem Rounds.helps (h : Rounds env p w w') (hw : p.workers[i]? = some w)
    (hworkers : p'.workers = p.workers.set i w') (hq : p'.localQueue = p.localQueue)
    (hj : p.Helps j) : p'.Helps j := by
  obtain ⟨hrest, hrest'⟩ := h.resting
  have hlt := (List.getElem?_eq_some_iff.mp hw).1
  have hself : p'.workers[i]? = some w' := by rw [hworkers, List.getElem?_set_self hlt]
  have hother : j ≠ i → p'.workers[j]? = p.workers[j]? := fun hne => by
    rw [hworkers, List.getElem?_set_ne hne.symm]
  have hall : ∀ {P : Worker → Prop}, P w' → (∀ w ∈ p.workers, P w) → ∀ w ∈ p'.workers, P w := by
    intro P hw' hP w₁ hw₁
    rw [hworkers] at hw₁
    obtain hw₁ | rfl := List.mem_or_eq_of_mem_set hw₁
    · exact hP w₁ hw₁
    · exact hw'
  by_cases hji : j = i
  · subst hji
    exact .resting w' hself hrest' fun hempty => hall hrest' (h.all_resting hw hj (hq ▸ hempty))
  · cases hj with
    | executing w₁ task hw₁ ht => exact .executing w₁ task (hother hji ▸ hw₁) ht
    | acquiring task hw₁ hnone =>
        exact .acquiring task (hother hji ▸ hw₁) (hall hrest'.executing hnone)
    | carrying w₁ hw₁ hb => exact .carrying w₁ (hother hji ▸ hw₁) hb
    | resting w₁ hw₁ hrest₁ hempty =>
        exact .resting w₁ (hother hji ▸ hw₁) hrest₁ fun hq' => hall hrest' (hempty (hq ▸ hq'))

/-- A worker on its rounds comes closer to its next task. -/
theorem Rounds.turns_lt (h : Rounds env p w w') (hw : p.workers[i]? = some w)
    (hworkers : p'.workers = p.workers.set i w') (hq : p'.localQueue = p.localQueue)
    (hfetch : p.localQueue = [] → ∀ q, p.queue.fetchNext env ≠ .ok (none, q)) :
    p'.turns i < p.turns i := by
  have hlt := (List.getElem?_eq_some_iff.mp hw).1
  rw [turns, turns, hworkers, hq, List.getElem?_set_self hlt, hw, Option.elim_some, Option.elim_some]
  cases h with
  | loop => cases p.localQueue.isEmpty <;> decide
  | empty hnil | sleep hnil =>
      rw [hnil]
      decide
  | noMore queue hf =>
      have hne : p.localQueue ≠ [] := fun hnil => hfetch hnil queue hf
      rw [List.isEmpty_eq_false_iff.mpr hne]
      decide

theorem turns_le (hworkers : p'.workers = p.workers.set i w')
    (hq : p'.localQueue = p.localQueue) (hne : j ≠ i) : p'.turns j ≤ p.turns j := by
  rw [turns, turns, hworkers, hq, List.getElem?_set_ne hne.symm]

/-- In a pool without workers that have left, some worker helps. -/
theorem exists_helps (hlive : ∀ w ∈ p.workers, w ≠ .exited) (hpos : 0 < p.workers.length) :
    ∃ i < p.workers.length, p.Helps i := by
  have hindex : ∀ w ∈ p.workers, ∃ i < p.workers.length, p.workers[i]? = some w := fun w hw => by
    obtain ⟨i, hi⟩ := List.getElem?_of_mem hw
    exact ⟨i, (List.getElem?_eq_some_iff.mp hi).1, hi⟩
  by_cases hexec : ∃ w ∈ p.workers, ∃ task, w.executing = some task
  · obtain ⟨w, hw, task, ht⟩ := hexec
    obtain ⟨i, hi, hw⟩ := hindex w hw
    exact ⟨i, hi, .executing w task hw ht⟩
  have hnone : ∀ w ∈ p.workers, w.executing = none := fun w hw =>
    Option.eq_none_iff_forall_ne_some.mpr fun task ht => hexec ⟨w, hw, task, ht⟩
  by_cases hacq : ∃ task, .acquiring task ∈ p.workers
  · obtain ⟨task, hw⟩ := hacq
    obtain ⟨i, hi, hw⟩ := hindex _ hw
    exact ⟨i, hi, .acquiring task hw hnone⟩
  by_cases hcarry : ∃ w ∈ p.workers, w.batch ≠ []
  · obtain ⟨w, hw, hb⟩ := hcarry
    obtain ⟨i, hi, hw⟩ := hindex w hw
    exact ⟨i, hi, .carrying w hw hb⟩
  have hall : ∀ w ∈ p.workers, w.Resting := by
    intro w hw
    obtain h | ⟨task, rfl⟩ | h | h := Worker.resting_or (hlive w hw)
    · exact absurd ⟨w, hw, h⟩ hexec
    · exact absurd ⟨task, hw⟩ hacq
    · exact absurd ⟨w, hw, h⟩ hcarry
    · exact h
  exact ⟨0, hpos, .resting _ (List.getElem?_eq_getElem hpos) (hall _ (List.getElem_mem hpos))
    fun _ => hall⟩

/-- A query that a worker runs is not defined for what it finds. -/
def Undefined (p : Threadpool) : Prop :=
  ∃ w ∈ p.workers, ∃ task ∈ w.runs, (task.execute p.world).1 = .undefined

/-- A worker that helps is not blocked. -/
theorem Helps.enabled (h : p.Helps i)
    (run : (threadpool env).Reachable (.start env numThreads queries world) p)
    (hlive : ∀ w ∈ p.workers, w ≠ .exited) : p.Enabled env i := by
  have hof : ∀ {w}, p.workers[i]? = some w → (∀ task, w ≠ .acquiring task) → p.Enabled env i :=
    fun hw => enabled_of_not_acquiring run hw (hlive _ (List.mem_of_getElem? hw))
  cases h with
  | executing w task hw ht =>
      refine hof hw ?_
      rintro task' rfl
      contradiction
  | acquiring task hw hnone =>
      refine (enabled_or_owned run hw).resolve_right ?_
      rintro ⟨_, _, _, _, w', task', _, _, hw', ht', _⟩
      rw [hnone w' (List.mem_of_getElem? hw')] at ht'
      contradiction
  | carrying w hw hb =>
      refine hof hw ?_
      rintro task rfl
      exact hb rfl
  | resting w hw hrest =>
      refine hof hw ?_
      rintro task rfl
      exact hrest

/-- When all workers go round and the local queue is empty, a fetch gets a task, as long
as a result is missing. -/
theorem Going.fetches {rt : Runtime} (h : p.Going env queries world rt) (hself : SelfContained queries)
    (hrest : ∀ w ∈ p.workers, w.Resting) (hq : p.localQueue = []) (hready : ¬ p.Ready)
    (q : TaskQueue) : p.queue.fetchNext env ≠ .ok (none, q) := by
  have htally : p.tally = 0 := by
    rw [tally, Parties.total_eq_zero fun w hw => (hrest w hw).share, hq]
    rfl
  have hflight : rt.inFlight = [] := by
    have htasks := h.refines.tasks
    rw [pending, executed, htally] at htasks
    simpa using htasks
  have hsettling : rt.settling = 0 := by
    rw [h.refines.settling, settling, htally]
    rfl
  have hleft : ∃ x ∈ TaskQueue.registered env (submitAll queries),
      x.seq ∉ rt.finished.map (·.seq) := by
    unfold Ready at hready
    push Not at hready
    obtain ⟨n, hn, hset, _⟩ := hready
    have htotal : p.totalSubmitted = queries.length :=
      (congrArg (·.2.2.2) h.refines.shared).trans (totalSubmitted_run h.run)
    rw [htotal, ← seq_submitAll, ← TaskQueue.seq_registered env] at hn
    obtain ⟨x, hx, rfl⟩ := List.mem_map.mp hn
    refine ⟨x, hx, fun hfin => hset ?_⟩
    obtain ⟨c, hc, heq⟩ := List.mem_map.mp hfin
    have hfutures : p.futures = rt.futures := congrArg (·.2.2.1) h.refines.shared
    rw [hfutures, ← heq]
    exact h.delivers.done c hc
  obtain ⟨task, q', hf⟩ := h.delivers.delivering.fetches (provided_registered env hself)
    (recorded_markAll env (increasing_submitAll queries)) hflight hsettling hleft
  have hqueue : p.queue = rt.queue := congrArg Prod.fst h.refines.shared
  rw [hqueue, hf]
  simp

/-- **Fair schedules get everything done**: they bring about a state in which each result
is ready, or a query is not defined. -/
theorem progresses (env : Env) (hself : SelfContained queries)
    (hloads : (queries.filter fun query => decide (query.type = .load)).length ≤ fetchBatchSize)
    (hpos : 0 < numThreads) (world : World) :
    (awaiting env).Progresses {i | i < numThreads}
      ((awaiting env).Reachable (.start env numThreads queries world))
      (fun p => p.Ready ∨ p.Undefined) rank Helps turns where
  helper := by
    intro p run _
    obtain ⟨rt, hgoing⟩ := going_run hself hloads run
    have hlen := length_run run
    obtain ⟨i, hi, hhelps⟩ := exists_helps hgoing.live (hlen ▸ hpos)
    exact ⟨i, hlen ▸ hi, hhelps⟩
  enabled := by
    intro p i run hgoal hhelps
    obtain ⟨rt, hgoing⟩ := going_run hself hloads run
    refine (hhelps.enabled (awaiting_run run) hgoing.live).resolve_right ?_
    rintro (⟨batch, e, _, hf⟩ | ⟨task, hw, hundef⟩)
    · obtain ⟨r, hok⟩ := hgoing.delivers.delivering.fetchNext_ok (provided_registered env hself)
      have hqueue : p.queue = rt.queue := congrArg Prod.fst hgoing.refines.shared
      rw [← hqueue, hf] at hok
      contradiction
    · exact hgoal (.inr ⟨_, List.mem_of_getElem? hw, task, rfl, hundef⟩)
  step := by
    intro p i p' run hgoal hs
    obtain ⟨rt, hgoing⟩ := going_run hself hloads run
    refine ⟨run.tail trivial hs, ?_⟩
    obtain hlt | ⟨heq, hq, w, w', hw, hrounds, hworkers⟩ := rank_work hgoing.stop hs
    · exact .inl hlt
    · refine .inr ⟨heq, fun j hj => ?_⟩
      refine ⟨hrounds.helps hw hworkers hq hj, ?_⟩
      by_cases hji : j = i
      · subst hji
        have hlt := hrounds.turns_lt hw hworkers hq fun hnil =>
          hgoing.fetches hself (hrounds.all_resting hw hj hnil) hnil fun h => hgoal (.inl h)
        exact ⟨Nat.le_of_lt hlt, fun _ => hlt⟩
      · exact ⟨turns_le hworkers hq hji, fun heq => absurd heq.symm hji⟩

end Threadpool

/-- When each future is ready, the results can be collected. -/
theorem Runtime.results_of_ready {rt : Runtime} (h : ∀ n ∈ List.range' 1 rt.totalSubmitted,
    (rt.futures.get? n).isSome = true ∨ ∃ x ∈ rt.queue.abandoned, x.seq = n) :
    ∃ results, rt.getResultsInOrder = some results := by
  refine ⟨_, mapM_of_forall (g := fun n => (rt.result n).getD none) fun n hn => ?_⟩
  unfold Runtime.result
  cases hres : rt.futures.get? n with
  | some result => cases result <;> rfl
  | none =>
      obtain hset | ⟨x, hx, hseq⟩ := h n hn
      · rw [hres] at hset
        contradiction
      · have hany : (rt.queue.abandoned.any fun item => decide (item.seq = n)) = true :=
          List.any_eq_true.mpr ⟨x, hx, decide_eq_true hseq⟩
        rw [hany]
        rfl

/-- **Termination**: if the tables that are used are created first, and there are no more
LOADs than a batch has tasks, then in every fair schedule of the workers all results
get ready, unless a query is not defined for what it finds. -/
theorem results_ready (env : Env) {numThreads : Nat} {queries : List Query} (world : World)
    (hself : SelfContained queries)
    (hloads : (queries.filter fun query => decide (query.type = .load)).length ≤ fetchBatchSize)
    (hpos : 0 < numThreads) {schedule : Nat → Nat}
    (hfair : Transition.Fair {i | i < numThreads} schedule) :
    ∃ n p, (awaiting env).along schedule (.start env numThreads queries world) n = p ∧
      (p.Undefined ∨ ∃ results, p.getResultsInOrder = some results) := by
  obtain ⟨n, hn⟩ := (Threadpool.progresses env hself hloads hpos world).eventually hfair
    (Transition.Runs.refl _)
  exact ⟨n, _, rfl, hn.symm.imp id Runtime.results_of_ready⟩

/-- Two workers take turns. -/
theorem results_ready_two : ∃ n p, (awaiting (.binaryHeap id)).along (· % 2)
    (.start (.binaryHeap id) 2 twoTables threeFiles) n = p ∧
    (p.Undefined ∨ ∃ results, p.getResultsInOrder = some results) :=
  results_ready (.binaryHeap id) threeFiles (by decide +kernel) (by decide) Nat.zero_lt_two
    (Transition.fair_mod 2)

/-! ## the bound on the LOADs -/

namespace TaskQueue

/-- Nothing can be fetched any more. -/
structure Starved (q : TaskQueue) : Prop where
  loads : q.loadQueue = []
  heap : q.globalIndex.heap = []
  barriers : q.barriers = []

instance (q : TaskQueue) : Decidable q.Starved :=
  decidable_of_iff (q.loadQueue = [] ∧ q.globalIndex.heap = [] ∧ q.barriers = [])
    ⟨fun h => ⟨h.1, h.2.1, h.2.2⟩, fun h => ⟨h.1, h.2, h.3⟩⟩

theorem Starved.fetchNext {q : TaskQueue} (h : q.Starved) (env : Env) :
    q.fetchNext env = .ok (none, q) := by
  have htake : q.takeLoad = (none, q) := by
    unfold takeLoad
    rw [h.loads]
  have hpick : q.globalIndex.pickBest env.heap = (none, q.globalIndex) := by
    refine (GlobalIndex.pickBestLoop env.heap).run_of_return ?_
    simp only [GlobalIndex.pickBestLoop, h.heap, PriorityQueue.pop_nil]
  have htable : (pickTable env).run q = (none, q) := by
    refine (pickTable env).run_of_return ?_
    simp only [pickTable, hpick]
    rfl
  have hround : q.fetchRound env = .inr (.ok (none, q)) := by
    unfold fetchRound getFetched
    rw [htake]
    dsimp only
    rw [htable]
    dsimp only
    unfold fetchBarrier
    rw [h.barriers]
    rfl
  unfold TaskQueue.fetchNext
  split
  · exact (fetchLoop env).run_of_return hround
  · rfl

end TaskQueue

namespace Threadpool

variable {env : Env} {p p' : Threadpool} {i : Nat}

/-- All workers go round, and nothing can be fetched any more. -/
structure Starved (p : Threadpool) : Prop where
  resting : ∀ w ∈ p.workers, w.Resting
  empty : p.localQueue = []
  stop : p.stopRequested = []
  queue : p.queue.Starved

instance (p : Threadpool) : Decidable p.Starved :=
  decidable_of_iff ((∀ w ∈ p.workers, w.Resting) ∧ p.localQueue = [] ∧ p.stopRequested = [] ∧
      p.queue.Starved)
    ⟨fun h => ⟨h.1, h.2.1, h.2.2.1, h.2.2.2⟩, fun h => ⟨h.1, h.2, h.3, h.4⟩⟩

/-- Starved workers go round forever. -/
theorem Starved.work (h : p.Starved) (hs : p.work env i = some p') :
    p'.Starved ∧ p'.getResultsInOrder = p.getResultsInOrder := by
  obtain ⟨w, p₁, w', hw, hworks, rfl⟩ := work_cases hs
  have hrest := h.resting w (List.mem_of_getElem? hw)
  have hgo : p₁.localQueue = p.localQueue → p₁.queue = p.queue → w'.Resting →
      (p₁.setWorker i w').Starved := fun hlocal hqueue hw' => {
    resting := fun w₁ hw₁ => by
      obtain hw₁ | rfl := List.mem_or_eq_of_mem_set hw₁
      · exact h.resting w₁ (hworks.same.1 ▸ hw₁)
      · exact hw'
    empty := hlocal.trans h.empty
    stop := hworks.same.2.trans h.stop
    queue := show p₁.queue.Starved from hqueue ▸ h.queue }
  cases hworks with
  | exit hi =>
      rw [h.stop] at hi
      contradiction
  | loop | empty | sleep => exact ⟨hgo rfl rfl trivial, rfl⟩
  | take task rest hq =>
      rw [h.empty] at hq
      contradiction
  | fetch batch task queue hlt hf =>
      rw [h.queue.fetchNext env] at hf
      exact absurd (congrArg Prod.fst (Except.ok.inj hf)) (Option.some_ne_none task).symm
  | noMore batch queue hlt hf =>
      rw [h.queue.fetchNext env] at hf
      obtain rfl := (Prod.mk.inj (Except.ok.inj hf)).2
      obtain rfl : batch = [] := hrest.batch
      exact ⟨hgo rfl rfl trivial, rfl⟩
  | full batch hge =>
      obtain rfl : batch = [] := hrest.batch
      contradiction
  | publish batch task rest hq =>
      obtain rfl : batch = [] := hrest.batch
      rw [h.empty] at hq
      contradiction
  | acquire | execute | callback | decrement | release => exact absurd hrest id

end Threadpool

/-- A LOAD for each table, and one more query. -/
def manyLoads (k : Nat) : List Query :=
  (List.range k).map (fun i =>
    .load (String.ofList (.replicate (i + 1) 'T')) (String.ofList (.replicate (i + 1) 'f'))) ++
  [.truncate "T"]

/-- **With one more LOAD the pool can hang**: one of two workers has loaded the first table
when it fetches the last LOAD, and the queue of this table drops out of the index. -/
theorem seventeen_loads : SelfContained (manyLoads (fetchBatchSize + 1)) ∧
    ∃ p, (awaiting (.binaryHeap id)).Reachable
      (.start (.binaryHeap id) 2 (manyLoads (fetchBatchSize + 1)) {}) p ∧
      ∀ p', (awaiting (.binaryHeap id)).Reachable p p' → p'.getResultsInOrder = none := by
  refine ⟨by decide +kernel, ?_⟩
  obtain ⟨p, run, hstarved, hnone⟩ := (awaiting (.binaryHeap id)).exists_of_execute
    (fun _ _ => True) (fun p => p.Starved ∧ p.getResultsInOrder = none)
    (.start (.binaryHeap id) 2 (manyLoads (fetchBatchSize + 1)) {}) (.replicate 140 0)
    (by decide +kernel)
  refine ⟨p, run, fun p' run' => ?_⟩
  exact (run'.invariant (I := fun p => p.Starved ∧ p.getResultsInOrder = none) ⟨hstarved, hnone⟩
    fun _ _ _ h _ hs => ⟨(h.1.work hs).1, (h.1.work hs).2.trans h.2⟩).2

end LemonDB
