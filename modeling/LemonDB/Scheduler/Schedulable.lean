import LemonDB.Scheduler.Barriers
import LemonDB.Scheduler.Progress

/-!
# LemonDB.Scheduler.Schedulable

When the scheduler gets to the end of its tasks.  A task is held back by the
tasks in front of it in its table's queue, by its recorded dependencies, and
until some task opens its table.  If the tasks can be ranked so that all of
this is done by tasks of a smaller rank (`Schedulable`), then the task of the
smallest rank that is left can always go on (`nothing_left`).
-/

namespace LemonDB

/-! ## a fetch that finds no candidate -/

namespace TaskQueue

/-- A LOAD round that ends the fetch hands out its candidate. -/
theorem type_of_fetchLoad {q q' : TaskQueue} {x : ScheduledItem} {out : Option ExecutableTask}
    (h : q.fetchLoad x = .inr (.ok (out, q'))) : ∃ task, out = some task ∧ task.type = x.type := by
  unfold fetchLoad at h
  split at h
  · cases Sum.inr.inj h
  · contradiction
  · obtain ⟨task, hb, h⟩ := Except.of_bind_eq_ok (Sum.inr.inj h)
    obtain ⟨rfl, _⟩ := Prod.mk.inj (Except.ok.inj h)
    exact ⟨task, rfl, (built_of_ok hb).type⟩

/-- A table round that ends the fetch hands out its candidate. -/
theorem type_of_fetchTable {q q' : TaskQueue} {x : ScheduledItem} {t : String}
    {out : Option ExecutableTask} (h : q.fetchTable x t = .inr (.ok (out, q'))) :
    ∃ task, out = some task ∧ task.type = x.type := by
  unfold fetchTable at h
  split at h
  · cases Sum.inr.inj h
  · contradiction
  · obtain ⟨task, hb, h⟩ := Except.of_bind_eq_ok (Sum.inr.inj h)
    obtain ⟨rfl, _⟩ := Prod.mk.inj (Except.ok.inj h)
    exact ⟨task, rfl, (built_of_ok hb).type⟩

end TaskQueue

namespace Stage

variable {env : Env} {lossy : Prop} {items : List ScheduledItem} {s s' : Stage}

/-- The fetch runs out of candidates, and ends with the barriers. -/
def Exhausts (env : Env) (lossy : Prop) (s : Stage) (out : Option ExecutableTask)
    (q' : TaskQueue) : Prop :=
  ∃ q, Moves env lossy s (s.withQueue q) ∧ q.globalIndex.heap = [] ∧
    (q.loadQueue = [] ∨ q.loadBlocked = true) ∧ q.fetchBarrier env = .ok (out, q')

/-- A round that ends the fetch with nothing or with a barrier had no candidate. -/
theorem exhausts_fetchRound (hplaced : s.Placed) (hc : s.completing = none)
    {out : Option ExecutableTask} {q' : TaskQueue}
    (hout : ∀ task ∈ out, task.type.isBarrier = true)
    (h : s.queue.fetchRound env = .inr (.ok (out, q'))) : s.Exhausts env lossy out q' := by
  have hcand : ∀ {x : ScheduledItem} {task : ExecutableTask}, x.type.isBarrier = false →
      out = some task ∧ task.type = x.type → False := by
    rintro x task hx ⟨rfl, hty⟩
    have hb := hout task rfl
    rw [hty, hx] at hb
    contradiction
  obtain ⟨hload, hms, hlq⟩ | ⟨x, hload, hms⟩ := @moves_takeLoad env lossy s
  · have hpick := @moves_pickTable env lossy (s.withQueue s.queue.takeLoad.2) hc
    unfold TaskQueue.fetchRound at h
    simp only [TaskQueue.getFetched, hload] at h
    rw [show (s.withQueue s.queue.takeLoad.2).queue = s.queue.takeLoad.2 from rfl] at hpick
    generalize (TaskQueue.pickTable env).run s.queue.takeLoad.2 = r at h hpick
    cases hpick with
    | none q hms' hheap hq hb =>
        exact ⟨q, hms.trans hms', hheap, by rw [hq, hb]; exact hlq, Sum.inr.inj h⟩
    | some t head rest q g hms' hp hq hb =>
        have hplaced' := moves_preserve placed_move (hms.trans hms') hplaced
        obtain ⟨task, htask⟩ := TaskQueue.type_of_fetchTable h
        have hmem : head ∈ q.queueOf t := hq ▸ List.mem_cons_self
        exact (hcand (hplaced'.isBarrier_of_queueOf hmem) htask).elim
  · have hpick := @moves_pickTable env lossy
      { s.withQueue s.queue.takeLoad.2 with transit := x :: s.transit } hc
    have hx := (moves_preserve placed_move hms hplaced).isBarrier_of_transit
      (x := x) List.mem_cons_self
    unfold TaskQueue.fetchRound at h
    simp only [TaskQueue.getFetched, hload] at h
    simp only [withQueue] at hpick
    generalize (TaskQueue.pickTable env).run s.queue.takeLoad.2 = r at h hpick
    cases hpick with
    | none q hms' hheap hq hb =>
        obtain ⟨task, htask⟩ := TaskQueue.type_of_fetchLoad h
        exact (hcand hx htask).elim
    | some t head rest q g hms' hp hq hb =>
        simp only at h
        split at h
        · obtain ⟨task, htask⟩ := TaskQueue.type_of_fetchLoad h
          exact (hcand hx htask).elim
        · have hplaced' := moves_preserve placed_move (hms.trans hms') hplaced
          obtain ⟨task, htask⟩ := TaskQueue.type_of_fetchTable h
          have hmem : head ∈ q.queueOf t := hq ▸ List.mem_cons_self
          exact (hcand (hplaced'.isBarrier_of_queueOf hmem) htask).elim

/-- A fetch that returns with nothing or with a barrier ran out of candidates. -/
theorem exhausts_fetchNext (hplaced : s.Placed) (hc : s.completing = none)
    (hready : s.queue.readyToFetch = true)
    (hl : ¬ lossy → s.queue.everyFetchRound env (fun q => !q.drawsBoth env) = true)
    {out : Option ExecutableTask} {q' : TaskQueue}
    (hout : ∀ task ∈ out, task.type.isBarrier = true)
    (h : s.queue.fetchNext env = .ok (out, q')) : s.Exhausts env lossy out q' := by
  unfold TaskQueue.fetchNext at h
  unfold TaskQueue.everyFetchRound at hl
  rw [if_pos hready] at h
  rw [hready, Bool.not_true, Bool.false_or] at hl
  have hround : ∀ s : Stage, (¬ lossy →
      (TaskQueue.everyRound env (fun q => !q.drawsBoth env)).run s.queue = true) →
      s.queue.drawsBoth env = true → lossy := by
    intro s hall hd
    by_contra hn
    have := TaskQueue.everyRound_head (hall hn)
    simp [hd] at this
  refine (TaskQueue.fetchLoop env).run_induction
    (P := fun q r => ∀ s : Stage, s.queue = q → s.Placed → s.completing = none →
      (¬ lossy → (TaskQueue.everyRound env (fun q => !q.drawsBoth env)).run q = true) →
      r = .ok (out, q') → s.Exhausts env lossy out q') ?_ ?_ s.queue s rfl hplaced hc hl h
  · intro q r hb s hs hplaced hc hall hr
    subst hs
    subst hr
    exact exhausts_fetchRound hplaced hc hout hb
  · intro q q₁ r hb ih s hs hplaced hc hall hr
    subst hs
    have hms : RoundMoves env lossy s (s.queue.fetchRound env) :=
      moves_fetchRound s hc (hround s hall)
    rw [show s.queue.fetchRound env = .inl q₁ from hb] at hms
    obtain ⟨q, hms', hq⟩ := ih (s.withQueue q₁) rfl (moves_preserve placed_move hms hplaced) hc
      (fun hn => TaskQueue.everyRound_tail (hall hn) hb) hr
    exact ⟨q, Relation.ReflTransGen.trans hms hms', hq⟩

theorem ready_move (h : s.queue.readyToFetch = true) (hm : Move env lossy s s') :
    s'.queue.readyToFetch = true := by
  cases hm with
  | handBarrier barrier rest task hc hq hrun hheap hl hb =>
      obtain ⟨g, hrel, _⟩ := ((s.queue.popBarrier barrier rest).countFetch).release_eq env
      simp only [hrel]
      exact h
  | register c t hc ht =>
      obtain ⟨tables, g, hreg, _⟩ :=
        s.queue.registerTableQueue_eq env t (TaskQueue.placeholder c)
      simp only [hreg]
      exact h
  | reindex c t hc ht =>
      obtain ⟨g, hup, _⟩ := s.queue.upsertHead_eq env t
      simp only [hup]
      exact h
  | _ => exact h

end Stage

/-- In a run the task queue stays ready to be fetched from. -/
theorem ready_run {env : Env} {guard : RunState → RunAction → Prop} {tasks : List ParsedQuery}
    {r : RunState} (run : (scheduler env).Runs guard (.start env tasks) r) :
    r.queue.readyToFetch = true :=
  (show Preserved env True fun s => s.queue.readyToFetch = true from
    { move := Stage.ready_move, begin := fun h _ _ => h, finish := fun h _ => h }).run run rfl

/-! ## who opens a table -/

/-- The completion of the task opens the table, wherever its file is resolved to. -/
def ScheduledItem.opens (env : Env) (x : ScheduledItem) (t : String) : Bool :=
  match x.depends with
  | .load _ => (x.targets env).all fun u => decide (u = t)
  | .copyTable d => decide (d.newTable = t)
  | _ => false

namespace Stage

variable {env : Env} {lossy : Prop} {items : List ScheduledItem} {s s' : Stage}

/-- The tasks that were handed out. -/
def completions (s : Stage) : List Completion :=
  s.inFlight.map (·.onCompleted) ++ s.completing.toList ++ s.finished

/-- A LOAD is for one of the tables that it was registered for. -/
structure Aimed (env : Env) (items : List ScheduledItem) (s : Stage) : Prop where
  placed : s.Placed
  held : ∀ y ∈ items, ∀ x, s.HoldsLoad x → x.seq = y.seq → x.targets env ⊆ y.targets env
  out : ∀ y ∈ items, ∀ c ∈ s.completions, c.type = .load → c.seq = y.seq →
    c.tableId ∈ y.targets env

/-- Every move keeps what the tasks aim at. -/
theorem aimed_move (h : s.Aimed env items) (hm : Move env lossy s s') : s'.Aimed env items := by
  have hout : ∀ task : ExecutableTask, (∀ y ∈ items, task.onCompleted.type = .load →
      task.onCompleted.seq = y.seq → task.onCompleted.tableId ∈ y.targets env) →
      ∀ y ∈ items, ∀ c ∈ (s.inFlight ++ [task]).map (·.onCompleted) ++ s.completing.toList ++
        s.finished, c.type = .load → c.seq = y.seq → c.tableId ∈ y.targets env := by
    intro task htask y hy c hc
    by_cases hnew : c = task.onCompleted
    · exact hnew ▸ htask y hy
    · refine h.out y hy c ?_
      simpa [completions, hnew] using hc
  have hfree : ∀ {q : TaskQueue} {x : ScheduledItem} {task : ExecutableTask}, q.Built x task →
      x.type ≠ .load → ∀ y ∈ items, task.onCompleted.type = .load →
      task.onCompleted.seq = y.seq → task.onCompleted.tableId ∈ y.targets env := by
    intro q x task hb hx y _ hty
    exact absurd (hb.capturedType.symm.trans hty) hx
  constructor
  · exact placed_move h.placed hm
  · intro y hy x' hx' hseq
    obtain ⟨x, hx, hxs, hsub⟩ := holdsLoad_move h.placed hm hx'
    exact List.Subset.trans hsub (h.held y hy x hx (hxs.trans hseq))
  · cases hm with
    | handLoad x rest d task hc htr hd hr hb =>
        have hbuilt := TaskQueue.built_of_ok hb
        refine hout task fun y hy hty hseq => ?_
        rw [hbuilt.capturedTable]
        rw [hbuilt.capturedType] at hty
        refine h.held y hy x ⟨hty, .inr (.inr (htr ▸ List.mem_cons_self))⟩ ?_ List.mem_cons_self
        exact hbuilt.capturedSeq.symm.trans hseq
    | handTable t g head rest task hc hp hq hb hr hbuild =>
        refine hout task (hfree (TaskQueue.built_of_ok hbuild) fun hty => ?_)
        have hqueued := (h.placed.queued t head (hq ▸ List.mem_cons_self)).1
        rw [hty] at hqueued
        contradiction
    | handBarrier barrier rest task hc hq hrun hheap hl hb =>
        refine hout task (hfree (TaskQueue.built_of_ok hb) fun hty => ?_)
        have hbar := h.placed.barriers barrier (hq ▸ List.mem_cons_self)
        rw [hty] at hbar
        contradiction
    | _ => exact h.out

theorem aimed_preserved (env : Env) (lossy : Prop) (items : List ScheduledItem) :
    Preserved env lossy (Aimed env items) where
  move := aimed_move
  begin {s k task} h hc hk := {
    placed := (placed_preserved env lossy).begin h.placed hc hk
    held := h.held
    out := fun y hy c hcs => by
      refine h.out y hy c ?_
      simp only [completions, begin, Option.toList_some, List.mem_append, List.mem_map,
        List.mem_singleton] at hcs ⊢
      obtain (⟨task', ht, rfl⟩ | rfl) | hcs := hcs
      · exact .inl (.inl ⟨task', List.mem_of_mem_eraseIdx ht, rfl⟩)
      · exact .inl (.inl ⟨task, List.mem_of_getElem? hk, rfl⟩)
      · exact .inr hcs }
  finish {s c} h hc := {
    placed := (placed_preserved env lossy).finish h.placed hc
    held := h.held
    out := fun y hy c' hcs => by
      refine h.out y hy c' ?_
      simp only [completions, finish, hc, Option.toList_some, Option.toList_none, List.mem_append,
        List.mem_singleton, List.append_nil] at hcs ⊢
      grind }

end Stage

theorem aimed_run {env : Env} {guard : RunState → RunAction → Prop} {tasks : List ParsedQuery}
    (hinc : Increasing tasks) {r : RunState}
    (run : (scheduler env).Runs guard (.start env tasks) r) :
    r.stage.Aimed env (TaskQueue.registered env tasks) := by
  have hreg := TaskQueue.registered_registerAll env tasks
  refine (Stage.aimed_preserved env True _).run run ⟨placed_start env _, ?_, fun y hy c hc => ?_⟩
  · rintro y hy x ⟨_, hx | ⟨type, key, hx⟩ | hx⟩ hseq
    · have hx : x ∈ (TaskQueue.registerAll env tasks).loadQueue := hx
      rw [hreg.loadQueue] at hx
      rw [TaskQueue.registered_inj env hinc.nodup x (List.mem_of_mem_filter hx) y hy hseq]
      exact List.Subset.refl _
    · have hx : x ∈ (TaskQueue.registerAll env tasks).depManager.waitingOn type key := hx
      rw [hreg.depManager, hreg.waiting] at hx
      contradiction
    · contradiction
  · contradiction

/-! ## ranks -/

/-- The tasks can be ranked so that whatever holds a task back is done by tasks of
a smaller rank: the tasks in front of it in its table's queue, a completion that
raises a watermark to a recorded dependency, and one that opens its table. -/
structure Schedulable (env : Env) (items : List ScheduledItem) (rank : Nat → Nat) : Prop where
  recaptured : Recaptured items
  queues : ∀ x ∈ items, ∀ y ∈ items, x.seq < y.seq → x.type.isQueued = true →
    y.type.isQueued = true → x.tableId = y.tableId → rank x.seq < rank y.seq
  depends : ∀ x ∈ items, ∀ p ∈ x.waits, p.2 ≠ 0 →
    ∃ y ∈ items, p.1 ∈ y.ident.notifies ∧ p.2 ≤ y.seq ∧ rank y.seq < rank x.seq
  opened : ∀ x ∈ items, x.type.isQueued = true →
    ∃ y ∈ items, y.opens env x.tableId = true ∧ rank y.seq < rank x.seq

instance (items : List ScheduledItem) : Decidable (Recaptured items) :=
  inferInstanceAs (Decidable (∀ x ∈ items, ∀ y ∈ items, _))

instance (env : Env) (items : List ScheduledItem) (rank : Nat → Nat) :
    Decidable (Schedulable env items rank) :=
  have : Decidable (∀ x ∈ items, ∀ y ∈ items, x.seq < y.seq → x.type.isQueued = true →
    y.type.isQueued = true → x.tableId = y.tableId → rank x.seq < rank y.seq) := inferInstance
  have : Decidable (∀ x ∈ items, ∀ p ∈ x.waits, p.2 ≠ 0 →
    ∃ y ∈ items, p.1 ∈ y.ident.notifies ∧ p.2 ≤ y.seq ∧ rank y.seq < rank x.seq) := inferInstance
  have : Decidable (∀ x ∈ items, x.type.isQueued = true →
    ∃ y ∈ items, y.opens env x.tableId = true ∧ rank y.seq < rank x.seq) := inferInstance
  decidable_of_iff (Recaptured items ∧ _ ∧ _ ∧ _)
    ⟨fun h => ⟨h.1, h.2.1, h.2.2.1, h.2.2.2⟩, fun h => ⟨h.1, h.2, h.3, h.4⟩⟩

namespace Stage

variable {env : Env} {items : List ScheduledItem} {s : Stage}

/-- A stored barrier is among the pending ones. -/
theorem Placed.mem_barriers (h : s.Placed) {x : ScheduledItem} (hx : x ∈ s.queue.stored)
    (hb : x.type.isBarrier = true) : x ∈ s.queue.barriers := by
  obtain hx | ⟨t, hx⟩ | hx | ⟨type, key, hx⟩ := (s.queue.mem_stored x).mp hx
  · rw [h.loads x hx] at hb
    contradiction
  · rw [h.isBarrier_of_queueOf hx] at hb
    contradiction
  · exact hx
  · have hm := h.waiting type key x hx
    cases hty : x.type <;> simp_all [QueryType.isMarked, QueryType.isBarrier]

/-- Where a registered task is when none is lost. -/
theorem located (hid : s.idents = items.map ScheduledItem.ident)
    (habandoned : s.queue.abandoned = []) {y : ScheduledItem} (hy : y ∈ items) :
    (∃ x ∈ s.queue.stored + s.transit, x.ident = y.ident) ∨
      ∃ c ∈ s.completions, c.ident = y.ident := by
  have hmem : y.ident ∈ s.idents := by
    rw [hid]
    exact Multiset.mem_coe.mpr (List.mem_map_of_mem hy)
  obtain hheld | hout := Multiset.mem_add.mp hmem
  · obtain ⟨x, hx, heq⟩ := Multiset.mem_map.mp hheld
    rw [TaskQueue.items_eq, habandoned, Multiset.coe_nil, add_zero] at hx
    exact .inl ⟨x, hx, heq⟩
  · right
    simp only [out, Multiset.mem_add, Multiset.mem_coe, List.mem_map] at hout
    simp only [completions, List.mem_append, List.mem_map]
    obtain (⟨task, ht, heq⟩ | ⟨c, hc, heq⟩) | ⟨c, hc, heq⟩ := hout
    · exact ⟨_, .inl (.inl ⟨task, ht, rfl⟩), heq⟩
    · exact ⟨c, .inl (.inr hc), heq⟩
    · exact ⟨c, .inr hc, heq⟩

/-- A completed task that opens the table has opened it. -/
theorem opened_of_finished {E : String → Prop} (hlive : s.Live items E) (haimed : s.Aimed env items)
    {y : ScheduledItem} (hy : y ∈ items) (hfit : y.Fits) {t : String}
    (hopens : y.opens env t = true) {c : Completion} (hc : c ∈ s.finished)
    (hid : c.ident = y.ident) : s.Opened items t := by
  have hty : c.type = y.type := congrArg Ident.type hid
  have hdep : c.depends = y.depends := congrArg Ident.depends hid
  refine (hlive.finished c hc).2 t ?_
  unfold ScheduledItem.opens at hopens
  unfold ScheduledItem.Fits at hfit
  split at hopens
  · next d hd =>
      have hload := load_of_fits (x := y) hfit hd
      have htable := haimed.out y hy c (List.mem_append_right _ hc) (hty.trans hload)
        (congrArg Ident.seq hid)
      exact .inl ⟨hty.trans hload, by simpa using List.all_eq_true.mp hopens _ htable⟩
  · next d hd =>
      rw [hd] at hfit hdep
      refine .inr ⟨hty.trans ?_, d, hdep, by simpa using hopens⟩
      cases hty' : y.type <;> simp_all [DependencyPayload.fits]
  · contradiction

/-- A task whose queue is open and in no place where it is looked at waits behind
another one that is parked. -/
theorem exists_parked (hlive : s.Live items fun _ => False) (hflight : s.inFlight = [])
    (hc : s.completing = none) (htr : s.transit = []) (hheap : s.queue.globalIndex.heap = [])
    (hwait : s.queue.waitingTables = []) {x : ScheduledItem} {t : String}
    (hx : x ∈ s.queue.queueOf t) (he : s.Entered t) :
    ∃ y ∈ s.queue.stored, y.onQueue t = true ∧ y.seq < x.seq := by
  obtain hp | hw | hidle | ⟨c, hc', _⟩ := hlive.served t he (List.ne_nil_of_mem hx)
  · obtain ⟨k, hk, _⟩ := hp
    rw [hheap] at hk
    contradiction
  · rw [hwait] at hw
    contradiction
  · have hflying : (s.lane t).flying = 0 := by simp [lane, hflight]
    have hparked : (s.lane t).parked ≠ 0 := fun hzero => hidle ⟨hzero, hflying⟩
    obtain ⟨n, hn⟩ := Multiset.exists_mem_of_ne_zero hparked
    have hlt := (hlive.tables.ordered t).parked_lt n hn x.seq (List.mem_map_of_mem hx)
    obtain ⟨y, hy, rfl⟩ := Multiset.mem_map.mp hn
    obtain ⟨hy, hq⟩ := Multiset.mem_filter.mp hy
    rw [htr, Multiset.coe_nil, add_zero] at hy
    obtain ⟨type, key, hy⟩ := (DependencyManager.mem_waitingItems _ y).mp hy
    exact ⟨y, TaskQueue.mem_stored_of_waitingOn hy, hq, hlt⟩
  · rw [hc] at hc'
    contradiction

/-- **Nothing is left but barriers** when nothing is in flight and no candidate is
found. -/
theorem nothing_left {dm : DependencyManager} {rank : Nat → Nat} (hwakes : s.Wakes items)
    (hrec : Recorded items dm) (hlive : s.Live items fun _ => False) (haimed : s.Aimed env items)
    (hsched : Schedulable env items rank) (habandoned : s.queue.abandoned = [])
    (hflight : s.inFlight = []) (hc : s.completing = none) (htr : s.transit = [])
    (hheap : s.queue.globalIndex.heap = []) (hload : s.queue.loadQueue = [])
    (hwait : s.queue.waitingTables = [])
    (hbar : ∀ b ∈ s.queue.barriers, ∀ x ∈ s.queue.stored, x.type.isBarrier = false →
      rank x.seq < rank b.seq) : ∀ x ∈ s.queue.stored, x.type.isBarrier = true := by
  have hplaced := haimed.placed
  suffices hrank : ∀ n, ∀ x ∈ s.queue.stored, rank x.seq = n → x.type.isBarrier = true from
    fun x hx => hrank _ x hx rfl
  intro n
  induction n using Nat.strong_induction_on with
  | h n ih =>
  rintro x hx rfl
  by_contra hnb
  have hnb : x.type.isBarrier = false := by simpa using hnb
  -- the tasks of a smaller rank are completed
  have hdone : ∀ y ∈ items, rank y.seq < rank x.seq → ∃ c ∈ s.finished, c.ident = y.ident := by
    intro y hy hlt
    obtain ⟨z, hz, hid⟩ | ⟨c, hcs, hid⟩ := located hwakes.idents habandoned hy
    · rw [htr, Multiset.coe_nil, add_zero] at hz
      have hseq : z.seq = y.seq := congrArg Ident.seq hid
      rw [← hseq] at hlt
      have hb := ih _ hlt z hz rfl
      exact absurd (hbar z (hplaced.mem_barriers hz hb) x hx hnb) (by omega)
    · simp only [completions, hflight, hc, List.map_nil, Option.toList_none, List.nil_append] at hcs
      exact ⟨c, hcs, hid⟩
  obtain ⟨x₀, hx₀, hid⟩ := hwakes.registered (mem_items_of_stored hx)
  have hseq : x₀.seq = x.seq := congrArg Ident.seq hid
  obtain hx' | ⟨t, hx'⟩ | hx' | ⟨type, key, hx'⟩ := (s.queue.mem_stored x).mp hx
  · rw [hload] at hx'
    contradiction
  · have hqueued := hplaced.queued t x hx'
    have hq₀ : x₀.onQueue t = true := by
      rw [← x₀.onQueue_ident, hid, ScheduledItem.onQueue_ident]
      simp [ScheduledItem.onQueue, hqueued]
    have hkey₀ := hq₀
    simp only [ScheduledItem.onQueue, Bool.and_eq_true, decide_eq_true_eq] at hkey₀
    by_cases he : s.Entered t
    · -- the task in front of it has a smaller rank
      obtain ⟨y, hy, hqy, hlt⟩ := exists_parked hlive hflight hc htr hheap hwait hx' he
      obtain ⟨y₀, hy₀, hidy⟩ := hwakes.registered (mem_items_of_stored hy)
      have hseqy : y₀.seq = y.seq := congrArg Ident.seq hidy
      have hq₁ : y₀.onQueue t = true := by
        rw [← y₀.onQueue_ident, hidy, ScheduledItem.onQueue_ident, hqy]
      simp only [ScheduledItem.onQueue, Bool.and_eq_true, decide_eq_true_eq] at hq₁ hqy
      have hrank := hsched.queues y₀ hy₀ x₀ hx₀ (by omega) hq₁.1 hkey₀.1
        (hq₁.2.trans hkey₀.2.symm)
      rw [hseqy, hseq] at hrank
      have hb := ih _ hrank y hy rfl
      simp [QueryType.isQueued, hb] at hqy
    · -- the task that opens the table is completed
      obtain ⟨y, hy, hopens, hlt⟩ := hsched.opened x₀ hx₀ hkey₀.1
      obtain ⟨c, hcs, hidc⟩ := hdone y hy (hseq ▸ hlt)
      obtain hopened | hnone := opened_of_finished hlive haimed hy (hrec.fits y hy)
        (hkey₀.2 ▸ hopens) hcs hidc
      · exact he hopened
      · exact List.filter_eq_nil_iff.mp hnone x₀ hx₀ hq₀
  · rw [hplaced.barriers x hx'] at hnb
    contradiction
  · -- what it waits for is completed, and has raised the watermark
    obtain ⟨d, hd, hless⟩ := hwakes.waits type key x hx'
    have hd₀ := ScheduledItem.waits_of_ident (hwakes.fits hrec (mem_items_of_stored hx)) hid.symm
      (by omega) hd
    obtain ⟨y, hy, hnotify, hle, hlt⟩ := hsched.depends x₀ hx₀ _ hd₀ (by simp; omega)
    obtain ⟨c, hcs, hidc⟩ := hdone y hy (hseq ▸ hlt)
    have hmark := (hlive.finished c hcs).1 _ (hidc ▸ hnotify)
    have hcseq : c.seq = y.seq := congrArg Ident.seq hidc
    have hmark : c.seq ≤ s.queue.depManager.lastCompletedFor type key := hmark
    simp only at hle
    omega

end Stage

/-! ## the end of a fetch without candidates -/

namespace TaskQueue

/-- The barriers give nothing if there is none, or if a task runs. -/
theorem fetchBarrier_none {env : Env} {q q' : TaskQueue}
    (h : q.fetchBarrier env = .ok (none, q')) : q.barriers = [] ∨ 0 < q.running := by
  unfold fetchBarrier at h
  split at h
  · next hnil => exact .inl hnil
  · split at h
    · next hrun => exact .inr hrun
    · obtain ⟨task, _, h⟩ := Except.of_bind_eq_ok h
      cases Except.ok.inj h

/-- A barrier is handed out if no task runs. -/
theorem fetchBarrier_some {env : Env} {q q' : TaskQueue} {task : ExecutableTask}
    (h : q.fetchBarrier env = .ok (some task, q')) : q.running = 0 ∧
      ∃ b rest, q.barriers = b :: rest ∧ task.seq = b.seq ∧ task.type = b.type := by
  unfold fetchBarrier at h
  split at h
  · cases Except.ok.inj h
  · next b rest hbar =>
      split at h
      · cases Except.ok.inj h
      · next hrun =>
          obtain ⟨task', hb, h⟩ := Except.of_bind_eq_ok h
          obtain ⟨heq, _⟩ := Prod.mk.inj (Except.ok.inj h)
          rw [← Option.some.inj heq]
          have hbuilt := built_of_ok hb
          exact ⟨by omega, b, rest, hbar, hbuilt.seq, hbuilt.type⟩

end TaskQueue

/-- In runs whose fetches draw one candidate, nothing is abandoned. -/
theorem abandoned_run {env : Env} {tasks : List ParsedQuery}
    {guard : RunState → RunAction → Prop} (hdraws : ∀ r a, guard r a → r.DrawsOne a)
    {r : RunState} (run : (scheduler env).Runs guard (.start env tasks) r) :
    r.queue.abandoned = [] :=
  abandoned_of_keepsLoads (fun r a hg ha => (hdraws r a hg ha).prefers) run

/-- **What a fetch without candidates leaves**: every task is completed or a pending
barrier. -/
theorem finished_or_barrier {env : Env} {tasks : List ParsedQuery} (hinc : Increasing tasks)
    {rank : Nat → Nat} (hsched : Schedulable env (TaskQueue.registered env tasks) rank)
    {guard : RunState → RunAction → Prop} (hdraws : ∀ r a, guard r a → r.DrawsOne a)
    (hidle : ∀ r a, guard r a → r.ReindexesIdle a) {r : RunState}
    (run : (scheduler env).Runs guard (.start env tasks) r) {q : TaskQueue}
    (hms : Moves env False r.stage (r.stage.withQueue q)) (hflight : r.inFlight = [])
    (hheap : q.globalIndex.heap = []) (hload : q.loadQueue = []) (hwait : q.waitingTables = [])
    (hbar : ∀ b ∈ q.barriers, ∀ x ∈ q.stored, x.type.isBarrier = false →
      rank x.seq < rank b.seq) :
    ∀ y ∈ TaskQueue.registered env tasks,
      (∃ c ∈ r.finished, c.ident = y.ident) ∨ ∃ b ∈ q.barriers, b.ident = y.ident := by
  have hrec := recorded_markAll env hinc
  have hwakes := moves_preserve (Stage.wakes_move hrec (TaskQueue.registered_inj env hinc.nodup))
    hms (wakes_run hinc run)
  have hlive := moves_preserve Stage.live_move hms
    (live_run hinc hsched.recaptured hdraws hidle run)
  have haimed := moves_preserve Stage.aimed_move hms (aimed_run hinc run)
  have habandoned : q.abandoned = [] :=
    moves_preserve (I := fun s => s.queue.abandoned = []) (fun h hm => by
      obtain ⟨lost, hlost, hnil⟩ := TaskQueue.abandoned_move hm
      rw [hlost, h, hnil id, List.append_nil]) hms (abandoned_run hdraws run)
  have hleft := Stage.nothing_left hwakes hrec hlive haimed hsched habandoned hflight rfl rfl
    hheap hload hwait hbar
  intro y hy
  obtain ⟨x, hx, hid⟩ | ⟨c, hc, hid⟩ := Stage.located hwakes.idents habandoned hy
  · have hx : x ∈ q.stored := by
      have hnil : (r.stage.withQueue q).transit = [] := rfl
      rwa [hnil, Multiset.coe_nil, add_zero] at hx
    exact .inr ⟨x, haimed.placed.mem_barriers hx (hleft x hx), hid⟩
  · have hc : c ∈ r.inFlight.map (·.onCompleted) ++ [] ++ r.finished := hc
    rw [hflight] at hc
    exact .inl ⟨c, hc, hid⟩

/-! ## runs -/

namespace RunState

/-- The step draws candidates of one kind, and re-indexes no busy table. -/
def KeepsOrder (r : RunState) (a : RunAction) : Prop := r.DrawsOne a ∧ r.ReindexesIdle a

instance (r : RunState) (a : RunAction) : Decidable (r.KeepsOrder a) :=
  inferInstanceAs (Decidable (_ ∧ _))

/-- The step makes no LOAD late either. -/
def Regular (env : Env) (r : RunState) (a : RunAction) : Prop :=
  r.KeepsOrder a ∧ RegistersInOrder env r a

instance (env : Env) (r : RunState) (a : RunAction) : Decidable (r.Regular env a) :=
  inferInstanceAs (Decidable (_ ∧ _))

end RunState

theorem loadsInOrder_run {env : Env} {tasks : List ParsedQuery}
    {guard : RunState → RunAction → Prop} (horder : ∀ r a, guard r a → RegistersInOrder env r a)
    {r : RunState} (run : (scheduler env).Runs guard (.start env tasks) r) :
    r.stage.LoadsInOrder env :=
  run.invariant (I := fun r => r.stage.LoadsInOrder env) (loadsInOrder_start env _)
    fun r a _ h hg hs => loadsInOrder_step h (horder r a hg) hs

/-- **The scheduler never gets stuck** if the tasks can be ranked: as long as a task
is not completed and none is in flight, a fetch returns one. -/
theorem scheduler_never_stuck {env : Env} {tasks : List ParsedQuery} (hinc : Increasing tasks)
    {rank : Nat → Nat} (hsched : Schedulable env (TaskQueue.registered env tasks) rank)
    {r : RunState} (run : (scheduler env).Runs (RunState.Regular env) (.start env tasks) r)
    (hnext : r.Regular env .fetch) (hflight : r.inFlight = [])
    (hleft : ∃ t ∈ tasks, t.seq ∉ r.finished.map (·.seq)) :
    ∃ task q, r.queue.fetchNext env = .ok (some task, q) := by
  obtain ⟨⟨out, q'⟩, hfetch⟩ := (loadsInOrder_run (fun _ _ hg => hg.2) run).fetchNext_ok rfl
  cases out with
  | some task => exact ⟨task, q', hfetch⟩
  | none =>
      exfalso
      have hplaced := (Stage.placed_preserved env True).run run (placed_start env _)
      have hexhausts : r.stage.Exhausts env False none q' := Stage.exhausts_fetchNext hplaced rfl
        (ready_run run) (fun _ => (hnext.1.1 rfl).everyFetchRound (wf_run run)) (by simp) hfetch
      obtain ⟨q, hms, hheap, hloads, hend⟩ := hexhausts
      -- nothing is running, so there is no barrier
      have hbarred := moves_preserve Stage.barred_move hms (barred_stage hinc run)
      have hrunning : q.running = r.inFlight.length + 0 + 0 := hbarred.running
      rw [hflight] at hrunning
      have hnil : q.barriers = [] :=
        (TaskQueue.fetchBarrier_none hend).resolve_right (by simp [hrunning])
      obtain ⟨hwait, hblocked⟩ := hbarred.released hnil
      have hblocked : q.loadBlocked = false := hblocked
      have hload : q.loadQueue = [] := hloads.resolve_right (by simp [hblocked])
      obtain ⟨t, ht, hleft⟩ := hleft
      obtain ⟨y, hy, hseq, _⟩ := TaskQueue.exists_registered env ht
      obtain ⟨c, hc, hid⟩ | ⟨b, hb, _⟩ := finished_or_barrier hinc hsched (fun _ _ hg => hg.1.1)
        (fun _ _ hg => hg.1.2) run hms hflight hheap hload hwait (by simp [hnil]) y hy
      · have hcseq : c.seq = y.seq := congrArg Ident.seq hid
        exact hleft (List.mem_map.mpr ⟨c, hc, hcseq.trans hseq⟩)
      · rw [hnil] at hb
        contradiction

/-- A copied table, with tasks on both sides of a barrier. -/
def copiedTable : List Query :=
  [.load "T" "f", .copyTable "T" "U", .select ⟨"U", [], []⟩, .list, .dump "U" "g", .drop "T"]

/-- The barrier is next when the tasks in front of it are completed. -/
theorem scheduler_never_stuck_copied : ∃ r, (scheduler (.binaryHeap id)).Runs
    (RunState.Regular (.binaryHeap id)) (.start (.binaryHeap id) (submitAll copiedTable)) r ∧
    r.finished.map (·.seq) = [1, 2, 3] ∧
    ∃ task q, r.queue.fetchNext (.binaryHeap id) = .ok (some task, q) := by
  obtain ⟨r, run, hnext, hflight, hfinished⟩ := (scheduler (.binaryHeap id)).exists_of_execute
    (RunState.Regular (.binaryHeap id))
    (fun r => r.Regular (.binaryHeap id) .fetch ∧ r.inFlight = [] ∧
      r.finished.map (·.seq) = [1, 2, 3])
    (.start (.binaryHeap id) (submitAll copiedTable))
    [.fetch, .complete 0, .fetch, .complete 0, .fetch, .complete 0] (by decide +kernel)
  have hsched : Schedulable (.binaryHeap id)
      (TaskQueue.registered (.binaryHeap id) (submitAll copiedTable)) id := by decide +kernel
  exact ⟨r, run, hfinished, scheduler_never_stuck (increasing_submitAll _) hsched run hnext hflight
    ⟨submitQuery .list 4, by decide, by simp [hfinished, submitQuery]⟩⟩

/-- A SELECT on a table that nothing opens is never returned. -/
theorem not_scheduler_never_stuck : ∃ r, (scheduler (.binaryHeap id)).Reachable
    (.start (.binaryHeap id) (submitAll [.select ⟨"T", ["KEY"], []⟩])) r ∧
    r.inFlight = [] ∧ r.finished = [] ∧
    ¬ ∃ task q, r.queue.fetchNext (.binaryHeap id) = .ok (some task, q) := by
  refine ⟨_, .refl _, rfl, rfl, ?_⟩
  rintro ⟨task, q, h⟩
  have hnone : (((RunState.start (.binaryHeap id)
      (submitAll [.select ⟨"T", ["KEY"], []⟩])).queue.fetchNext (.binaryHeap id)).toOption.bind
        fun p => p.1).isNone = true := by decide +kernel
  rw [h] at hnone
  contradiction

end LemonDB
