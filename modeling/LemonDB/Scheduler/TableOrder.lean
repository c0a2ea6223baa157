import LemonDB.Lib.Lane
import LemonDB.Scheduler.Candidates

/-!
# LemonDB.Scheduler.TableOrder

The tasks of one table's queue are handed out one at a time and in order, as
long as no completion of a foreign task (a LOAD of the table, or a COPYTABLE
into it) enters the queue into the global index while one of its tasks is in
flight or parked.

Each table queue is a `Lane`, and every move takes its head, brings an entry back
or leaves it as it is (`lane_move`).  What a lane leaves to its environment, that the head is
taken only from an idle lane, is the invariant `IndexInv` of the global index.
-/

namespace LemonDB

/-- The item comes from the queue of this table. -/
def ScheduledItem.onQueue (t : String) (x : ScheduledItem) : Bool :=
  x.type.isQueued && decide (x.tableId = t)

/-- The task was taken from the queue of this table. -/
def Completion.onQueue (t : String) (c : Completion) : Bool :=
  c.type.isQueued && decide (c.tableId = t)

namespace Stage

/-- The queue of a table as a lane, by sequence numbers. -/
def lane (s : Stage) (t : String) : Lane Nat where
  queue := (s.queue.queueOf t).map (·.seq)
  parked := ((s.queue.depManager.waitingItems + s.transit).filter (·.onQueue t)).map (·.seq)
  flying := ((s.inFlight.filter (·.onCompleted.onQueue t)).map (·.onCompleted.seq) : List Nat)
  log := (s.handedOut.filter (·.onCompleted.onQueue t)).map (·.onCompleted.seq)

theorem filter_cons_onQueue {x : ScheduledItem} {t : String} (hx : x.onQueue t = true)
    (m : Multiset ScheduledItem) :
    (x ::ₘ m).filter (·.onQueue t) = x ::ₘ m.filter (·.onQueue t) :=
  Multiset.filter_cons_of_pos _ hx

theorem filter_cons_foreign {x : ScheduledItem} {t : String} (hx : x.onQueue t = false)
    (m : Multiset ScheduledItem) : (x ::ₘ m).filter (·.onQueue t) = m.filter (·.onQueue t) :=
  Multiset.filter_cons_of_neg _ (by simp [hx])

/-- A stage with the same tasks of a table has the same lane. -/
theorem lane_eq {s s' : Stage} (t : String) (hq : s'.queue.queueOf t = s.queue.queueOf t)
    (hw : s'.queue.depManager.waitingItems + s'.transit =
      s.queue.depManager.waitingItems + s.transit)
    (hf : s'.inFlight = s.inFlight) (hl : s'.handedOut = s.handedOut) : s'.lane t = s.lane t := by
  unfold lane
  rw [hq, hw, hf, hl]

/-- A task that is not from the queue of the table does not show in its
lane. -/
theorem lane_of_foreign {s s' : Stage} (t : String) {x : ScheduledItem}
    (hx : x.onQueue t = false) (hq : s'.queue.queueOf t = s.queue.queueOf t)
    (hw : s'.queue.depManager.waitingItems + s'.transit =
        x ::ₘ (s.queue.depManager.waitingItems + s.transit) ∨
      s.queue.depManager.waitingItems + s.transit =
        x ::ₘ (s'.queue.depManager.waitingItems + s'.transit))
    (hf : s'.inFlight = s.inFlight) (hl : s'.handedOut = s.handedOut) : s'.lane t = s.lane t := by
  unfold lane
  obtain hw | hw := hw
  · rw [hq, hw, hf, hl, filter_cons_foreign hx]
  · rw [hq, hw, hf, hl, filter_cons_foreign hx]

/-- A LOAD comes from no table queue. -/
theorem onQueue_of_load {x : ScheduledItem} (h : x.type = .load) (t : String) :
    x.onQueue t = false := by
  simp [ScheduledItem.onQueue, h, QueryType.isQueued]

/-- A task comes from the queue that its item comes from. -/
theorem onQueue_of_built {q : TaskQueue} {x : ScheduledItem} {task : ExecutableTask}
    (h : q.Built x task) (t : String) : task.onCompleted.onQueue t = x.onQueue t := by
  unfold Completion.onQueue ScheduledItem.onQueue
  rw [h.capturedType, h.capturedTable]

/-- Handing out a task that is not from the queue of the table. -/
theorem lane_of_hand {s s' : Stage} (t : String) {q : TaskQueue} {x : ScheduledItem}
    {task : ExecutableTask} (hb : q.Built x task) (hx : x.onQueue t = false)
    (hq : s'.queue.queueOf t = s.queue.queueOf t)
    (hw : (s'.queue.depManager.waitingItems + s'.transit).filter (·.onQueue t) =
      (s.queue.depManager.waitingItems + s.transit).filter (·.onQueue t))
    (hf : s'.inFlight = s.inFlight ++ [task]) (hl : s'.handedOut = s.handedOut ++ [task]) :
    s'.lane t = s.lane t := by
  have hneg : ¬ (task.onCompleted.onQueue t = true) := by simp [onQueue_of_built hb t, hx]
  unfold lane
  rw [hq, hw, hf, hl, List.filter_append, List.filter_append, List.filter_singleton]
  simp [hneg]

/-- What is parked of the queue of the table, before one of it is taken out. -/
theorem parked_of_cons {s s' : Stage} {t : String} {x : ScheduledItem} (hx : x.onQueue t = true)
    (hw : s.queue.depManager.waitingItems + s.transit =
      x ::ₘ (s'.queue.depManager.waitingItems + s'.transit)) :
    (s.lane t).parked = x.seq ::ₘ (s'.lane t).parked := by
  simp only [lane]
  rw [hw, filter_cons_onQueue hx, Multiset.map_cons]

/-- A task from the queue of the table that is lost leaves the lane. -/
theorem back_of_lost {s s' : Stage} {t : String} {x : ScheduledItem} (hx : x.onQueue t = true)
    (hq : s'.queue.queueOf t = s.queue.queueOf t)
    (hw : s.queue.depManager.waitingItems + s.transit =
      x ::ₘ (s'.queue.depManager.waitingItems + s'.transit))
    (hf : s'.inFlight = s.inFlight) (hl : s'.handedOut = s.handedOut) :
    Lane.Back (s.lane t) (s'.lane t) := by
  convert Lane.Back.lose (parked_of_cons hx hw) using 1
  unfold lane
  rw [hq, hf, hl]

/-- A task from the queue of the table that is woken comes back to the front of the lane. -/
theorem back_of_woken {s s' : Stage} {t : String} {x : ScheduledItem} (hx : x.onQueue t = true)
    (hq : s'.queue.queueOf t = x :: s.queue.queueOf t)
    (hw : s.queue.depManager.waitingItems + s.transit =
      x ::ₘ (s'.queue.depManager.waitingItems + s'.transit))
    (hf : s'.inFlight = s.inFlight) (hl : s'.handedOut = s.handedOut) :
    Lane.Back (s.lane t) (s'.lane t) := by
  convert Lane.Back.wake (parked_of_cons hx hw) using 1
  unfold lane
  rw [hq, hf, hl, List.map_cons]

/-- The head of the queue of the table is parked. -/
theorem take_of_parked {s s' : Stage} {t : String} {head : ScheduledItem}
    {rest : List ScheduledItem} (hx : head.onQueue t = true) (hidle : (s.lane t).Idle)
    (hq : s.queue.queueOf t = head :: rest) (hq' : s'.queue.queueOf t = rest)
    (hw : s'.queue.depManager.waitingItems + s'.transit =
      head ::ₘ (s.queue.depManager.waitingItems + s.transit))
    (hf : s'.inFlight = s.inFlight) (hl : s'.handedOut = s.handedOut) :
    Lane.Take (s.lane t) (s'.lane t) := by
  have hlane : Lane.Take (s.lane t) { s.lane t with
      queue := rest.map (·.seq), parked := head.seq ::ₘ (s.lane t).parked } :=
    .park hidle (by simp only [lane, hq, List.map_cons])
  convert hlane using 1
  simp only [lane, hq', hw, hf, hl]
  rw [filter_cons_onQueue hx, Multiset.map_cons]

/-- The head of the queue of the table is handed out. -/
theorem take_of_handed {s s' : Stage} {t : String} {q : TaskQueue} {head : ScheduledItem}
    {rest : List ScheduledItem} {task : ExecutableTask} (hb : q.Built head task)
    (hx : head.onQueue t = true) (hidle : (s.lane t).Idle)
    (hq : s.queue.queueOf t = head :: rest) (hq' : s'.queue.queueOf t = rest)
    (hw : s'.queue.depManager.waitingItems + s'.transit =
      s.queue.depManager.waitingItems + s.transit)
    (hf : s'.inFlight = s.inFlight ++ [task]) (hl : s'.handedOut = s.handedOut ++ [task]) :
    Lane.Take (s.lane t) (s'.lane t) := by
  have hlane : Lane.Take (s.lane t) { s.lane t with
      queue := rest.map (·.seq), flying := head.seq ::ₘ (s.lane t).flying,
      log := (s.lane t).log ++ [head.seq] } :=
    .hand hidle (by simp only [lane, hq, List.map_cons])
  convert hlane using 1
  -- in flight and in the log, the task is the last one
  have hsnoc : ∀ l : List ExecutableTask,
      ((l ++ [task]).filter (·.onCompleted.onQueue t)).map (·.onCompleted.seq) =
        (l.filter (·.onCompleted.onQueue t)).map (·.onCompleted.seq) ++ [head.seq] := by
    intro l
    simp [List.filter_append, onQueue_of_built hb t, hx, hb.capturedSeq]
  simp only [lane, hq', hw, hf, hl, hsnoc,
    Multiset.coe_eq_coe.mpr (List.perm_append_singleton head.seq _)]
  rfl

theorem load_of_fits {x : ScheduledItem} {d : LoadDeps} (hfit : x.Fits) (hd : x.depends = .load d) :
    x.type = .load := by
  unfold ScheduledItem.Fits at hfit
  rw [hd] at hfit
  cases hty : x.type <;> simp_all [DependencyPayload.fits]

/-- Registering a table marks the items of its queue, and keeps their order. -/
theorem lane_registerTableQueue (s : Stage) (env : Env) (t t' : String) (item : ScheduledItem) :
    ({ s with queue := s.queue.registerTableQueue env t' item } : Stage).lane t = s.lane t := by
  obtain ⟨tables, g, hreg, hqueue, _⟩ := s.queue.registerTableQueue_eq env t' item
  have hseq := congrArg (List.map ScheduledItem.seq) (hqueue t)
  rw [List.map_map, List.map_map] at hseq
  unfold lane
  rw [hreg]
  exact congrArg (fun l => Lane.mk l _ _ _) hseq

/-- The table of a pending LOAD shows in no lane. -/
theorem lane_resolve {s : Stage} {x : ScheduledItem} {rest : List ScheduledItem}
    (htr : s.transit = x :: rest) (hty : x.type = .load) (t' t : String) :
    ({ s with transit := { x with tableId := t' } :: rest } : Stage).lane t = s.lane t := by
  have hx := onQueue_of_load hty t
  have hx' : ({ x with tableId := t' } : ScheduledItem).onQueue t = false :=
    onQueue_of_load (x := { x with tableId := t' }) hty t
  unfold lane
  rw [htr, ← Multiset.cons_coe, ← Multiset.cons_coe, Multiset.add_cons, Multiset.add_cons,
    filter_cons_foreign hx, filter_cons_foreign hx']

/-- A woken task comes back to the lane of its table, and the table is in the index then. -/
theorem lane_requeue (env : Env) {s : Stage} (h : s.Placed) {lossy : Prop} {x : ScheduledItem}
    {rest : List ScheduledItem} (htr : s.transit = x :: rest) (hty : x.type ≠ .load)
    (t : String) :
    ({ s with queue := s.queue.requeue env x, transit := rest } : Stage).lane t = s.lane t ∨
      (Lane.Back (s.lane t)
          (({ s with queue := s.queue.requeue env x, transit := rest } : Stage).lane t) ∧
        (lossy ∨ t ∈ (s.queue.requeue env x).globalIndex.pending)) := by
  have hmark := h.transit x (by rw [htr]; exact List.mem_cons_self)
  have hwait : s.queue.depManager.waitingItems + s.transit = x ::ₘ
      (s.queue.depManager.waitingItems + (rest : Multiset ScheduledItem)) := by
    rw [htr, ← Multiset.cons_coe, Multiset.add_cons]
  by_cases ht : t = x.tableId
  · have hx : x.onQueue t = true := by
      simp [ScheduledItem.onQueue, isQueued_of_isMarked hmark hty, ht]
    refine .inr ⟨back_of_woken hx ?_ hwait rfl rfl, .inr ?_⟩
    · rw [TaskQueue.queueOf_requeue, if_pos ht, ← ht]
    · show t ∈ (s.queue.globalIndex.upsert env.heap (some x.tableId) x.priority
        s.queue.fetchTick x.seq).pending
      rw [GlobalIndex.pending_upsert, ht]
      exact Set.mem_insert _ _
  · have hx : x.onQueue t = false := by simp [ScheduledItem.onQueue, Ne.symm ht]
    refine .inl (lane_of_foreign t hx ?_ (.inr hwait) rfl rfl)
    rw [TaskQueue.queueOf_requeue, if_neg ht]

/-- The move takes the head of the queue of a table that it picked from the
index. -/
structure Picks (env : Env) (s s' : Stage) (t : String) : Prop where
  completing : s.completing = none
  picked : s.queue.globalIndex.pickBest env.heap = (some t, s'.queue.globalIndex)
  head : ∃ head rest, s.queue.queueOf t = head :: rest ∧ s.queue.behindBarrier head.seq = false
  waitingTables : s'.queue.waitingTables = s.queue.waitingTables

/-- **What a move does to the lane of a table.** -/
theorem lane_move {env : Env} {lossy : Prop} {s s' : Stage} (h : s.Placed)
    (hwf : s.queue.globalIndex.WF)
    (hidle : s.completing = none → ∀ t ∈ s.queue.globalIndex.pending, (s.lane t).Idle)
    (hm : Move env lossy s s') (t : String) :
    s'.lane t = s.lane t ∨
      (Lane.Back (s.lane t) (s'.lane t) ∧ (lossy ∨ t ∈ s'.queue.globalIndex.pending)) ∨
      (Lane.Take (s.lane t) (s'.lane t) ∧ Picks env s s' t) := by
  cases hm with
  | takeLoad front rest hq hb hbar =>
      have hfront := h.loads front (by rw [hq]; exact List.mem_cons_self)
      refine .inl (lane_of_foreign t (onQueue_of_load hfront t) rfl (.inl ?_) rfl rfl)
      rw [← Multiset.cons_coe, Multiset.add_cons]
  | loseLoad x rest hl htr =>
      have hw : s.queue.depManager.waitingItems + s.transit =
          x ::ₘ (s.queue.depManager.waitingItems + (rest : Multiset ScheduledItem)) := by
        rw [htr, ← Multiset.cons_coe, Multiset.add_cons]
      by_cases hx : x.onQueue t = true
      · exact .inr (.inl ⟨back_of_lost hx rfl hw rfl rfl, .inl hl⟩)
      · exact .inl (lane_of_foreign t (by simpa using hx) rfl (.inr hw) rfl rfl)
  | park x rest type key htr hw =>
      refine .inl (lane_eq t rfl ?_ rfl rfl)
      rw [htr, ← Multiset.cons_coe, Multiset.add_cons, ← Multiset.cons_add]
      exact congrArg (· + _) (DependencyManager.waitingItems_addWait _ _ _ _)
  | parkTable t' g head rest type key hc hp hq hb hw =>
      have hhead := h.queued t' head (by rw [hq]; exact List.mem_cons_self)
      have hwait : ((s.queue.setIndex g).parkHead t' type key head).depManager.waitingItems =
          head ::ₘ s.queue.depManager.waitingItems :=
        DependencyManager.waitingItems_addWait _ _ _ _
      have hqueue : ∀ t'', ((s.queue.setIndex g).parkHead t' type key head).queueOf t'' =
          if t'' = t' then rest else s.queue.queueOf t'' := by
        intro t''
        have htail : (s.queue.queueOf t').tail = rest := by rw [hq]; rfl
        rw [← htail]
        exact (s.queue.setIndex g).queueOf_setQueue t' t'' _
      by_cases ht : t = t'
      · subst ht
        have hx : head.onQueue t = true := by simp [ScheduledItem.onQueue, hhead]
        have htake := hidle hc t (pending_of_pickBest hwf hp).1
        refine .inr (.inr ⟨take_of_parked hx htake hq ?_ ?_ rfl rfl, hc, hp,
          ⟨head, rest, hq, hb⟩, rfl⟩)
        · rw [hqueue, if_pos rfl]
        · rw [← Multiset.cons_add, ← hwait]
      · have hx : head.onQueue t = false := by
          simp [ScheduledItem.onQueue, hhead, Ne.symm ht]
        refine .inl (lane_of_foreign t hx ?_ (.inl ?_) rfl rfl)
        · simp only [hqueue, if_neg ht]
        · rw [← Multiset.cons_add, ← hwait]
  | handLoad x rest d task hc htr hd hr hb =>
      have hfit := h.fits_of_mem (x := x) (Multiset.mem_add.mpr (.inr (by rw [htr]; simp)))
      have hx := onQueue_of_load (load_of_fits hfit hd) t
      refine .inl (lane_of_hand t (TaskQueue.built_of_ok hb) hx rfl ?_ rfl rfl)
      rw [htr, ← Multiset.cons_coe, Multiset.add_cons, filter_cons_foreign hx]
      rfl
  | handTable t' g head rest task hc hp hq hbar hr hb =>
      have hhead := h.queued t' head (by rw [hq]; exact List.mem_cons_self)
      have hqueue := fun t'' => (s.queue.setIndex g).queueOf_setQueue t' t'' rest
      by_cases ht : t = t'
      · subst ht
        have hx : head.onQueue t = true := by simp [ScheduledItem.onQueue, hhead]
        have htake := hidle hc t (pending_of_pickBest hwf hp).1
        have hrest : ((s.queue.setIndex g).setQueue t rest).countFetch.queueOf t = rest :=
          (hqueue t).trans (if_pos rfl)
        exact .inr (.inr ⟨take_of_handed (TaskQueue.built_of_ok hb) hx htake hq hrest rfl rfl rfl,
          hc, hp, ⟨head, rest, hq, hbar⟩, rfl⟩)
      · have hx : head.onQueue t = false := by
          simp [ScheduledItem.onQueue, hhead, Ne.symm ht]
        exact .inl (lane_of_hand t (TaskQueue.built_of_ok hb) hx
          ((hqueue t).trans (if_neg ht)) rfl rfl rfl)
  | handBarrier barrier rest task hc hq hrun hheap hl hb =>
      have hbar := h.barriers barrier (by rw [hq]; exact List.mem_cons_self)
      have hx : barrier.onQueue t = false := by
        simp [ScheduledItem.onQueue, QueryType.isQueued, hbar]
      obtain ⟨g, hrel, _⟩ := (s.queue.popBarrier barrier rest).countFetch.release_eq env
      refine .inl (lane_of_hand t (TaskQueue.built_of_ok hb) hx ?_ ?_ rfl rfl)
      · simp only [hrel]
        rfl
      · simp only [hrel]
        rfl
  | register c t' hc ht => exact .inl (s.lane_registerTableQueue env t t' _)
  | advance c type key popped rest hc hk hle hp =>
      refine .inl (lane_eq t rfl ?_ rfl rfl)
      rw [← TaskQueue.waitingItems_advance hp, ← Multiset.coe_add]
      abel
  | unregister c tbl hc hty htbl =>
      exact .inl (lane_eq t (s.queue.queueOf_unregister htbl t) rfl rfl rfl)
  | requeue x rest htr hty => exact (lane_requeue env h htr hty t).imp_right .inl
  | resolveLoad x rest d htr hty hd hp => exact .inl (lane_resolve htr hty _ t)
  | requeueLoad x rest htr hty =>
      refine .inl (lane_of_foreign t (onQueue_of_load hty t) rfl (.inr ?_) rfl rfl)
      rw [htr, ← Multiset.cons_coe, Multiset.add_cons]
      rfl
  | reindex c t' hc ht =>
      obtain ⟨g, hup, _⟩ := s.queue.upsertHead_eq env t'
      left
      unfold lane
      rw [hup]
      rfl
  | _ => exact .inl (lane_eq t rfl rfl rfl rfl)

/-- What keeps the lanes in order.  `E` are the tables that the completion under
way may enter into the index although they are busy. -/
structure TableInv (E : String → Prop) (s : Stage) : Prop where
  placed : s.Placed
  ordered : ∀ t, (s.lane t).Ordered
  wf : s.queue.globalIndex.WF
  /-- A table in the index is idle. -/
  pending : ∀ t ∈ s.queue.globalIndex.pending, ¬ E t → (s.lane t).Idle
  /-- A table that the current barrier blocks is idle. -/
  waiting : ∀ t ∈ s.queue.waitingTables, (s.lane t).Idle
  blocked : ∀ t ∈ s.queue.waitingTables, ∃ n rest, (s.lane t).queue = n :: rest ∧
    s.queue.behindBarrier n = true
  own : ∀ c, s.completing = some c → ∀ t, t ∈ c.registers ∨ c.tableQ = some t →
    E t ∨ (s.lane t).Idle
  free : s.completing = none → ∀ t, ¬ E t

variable {env : Env} {lossy : Prop} {E : String → Prop}

/-- An idle lane stays as it is, unless its table is picked. -/
theorem TableInv.keep {s s' : Stage} (h : s.TableInv E) (hm : Move env lossy s s') (t : String)
    (hi : (s.lane t).Idle) : s'.lane t = s.lane t ∨ Picks env s s' t := by
  have hmove := lane_move h.placed h.wf (fun hc t ht => h.pending t ht (h.free hc t)) hm t
  obtain heq | ⟨hback, _⟩ | ⟨_, hpick⟩ := hmove
  · exact .inl heq
  · exact absurd hi hback.not_idle
  · exact .inr hpick

/-- A picked table is neither blocked nor pending any more. -/
theorem TableInv.not_pending {s s' : Stage} (h : s.TableInv E) {t : String}
    (hp : Picks env s s' t) : t ∉ s'.queue.globalIndex.pending := by
  rw [(pending_of_pickBest h.wf hp.picked).2.1]
  simp

theorem TableInv.not_waiting {s s' : Stage} (h : s.TableInv E) {t : String}
    (hp : Picks env s s' t) : t ∉ s'.queue.waitingTables := by
  intro ht
  rw [hp.waitingTables] at ht
  obtain ⟨n, rest, hq, hb⟩ := h.blocked t ht
  obtain ⟨head, rest', hq', hb'⟩ := hp.head
  simp only [lane, hq', List.map_cons, List.cons.injEq] at hq
  rw [← hq.1, hb'] at hb
  contradiction

/-- What a move has to show: which tables it may enter into the index or block. -/
theorem TableInv.of_move {s s' : Stage} (h : s.TableInv E) (hm : Move env lossy s s')
    (hpend : ∀ t ∈ s'.queue.globalIndex.pending, ¬ E t →
      t ∈ s.queue.globalIndex.pending ∨ (s.lane t).Idle ∨ (s'.lane t).Idle)
    (hwait : ∀ t ∈ s'.queue.waitingTables, t ∈ s.queue.waitingTables ∨
      (s.completing = none ∧ t ∈ s.queue.globalIndex.pending ∧
        ∃ n rest, (s.lane t).queue = n :: rest ∧ s.queue.behindBarrier n = true))
    (hbar : s'.queue.waitingTables ≠ [] → s'.queue.barriers = s.queue.barriers)
    (hcomp : s'.completing = s.completing) : s'.TableInv E where
  placed := placed_move h.placed hm
  ordered t := by
    have hmove := lane_move h.placed h.wf (fun hc t ht => h.pending t ht (h.free hc t)) hm t
    obtain heq | ⟨hback, _⟩ | ⟨htake, _⟩ := hmove
    · rw [heq]
      exact h.ordered t
    · exact hback.ordered (h.ordered t)
    · exact htake.ordered (h.ordered t)
  wf := wf_move h.wf hm
  pending t ht hE := by
    have hi : (s.lane t).Idle ∨ (s'.lane t).Idle := by
      obtain hp | hi := hpend t ht hE
      · exact .inl (h.pending t hp hE)
      · exact hi
    obtain hi | hi := hi
    · obtain heq | hp := h.keep hm t hi
      · rwa [heq]
      · exact absurd ht (h.not_pending hp)
    · exact hi
  waiting t ht := by
    have hi : (s.lane t).Idle := by
      obtain hw | ⟨hc, hp, _⟩ := hwait t ht
      · exact h.waiting t hw
      · exact h.pending t hp (h.free hc t)
    obtain heq | hp := h.keep hm t hi
    · rwa [heq]
    · exact absurd ht (h.not_waiting hp)
  blocked t ht := by
    have hi : (s.lane t).Idle ∧
        ∃ n rest, (s.lane t).queue = n :: rest ∧ s.queue.behindBarrier n = true := by
      obtain hw | ⟨hc, hp, hb⟩ := hwait t ht
      · exact ⟨h.waiting t hw, h.blocked t hw⟩
      · exact ⟨h.pending t hp (h.free hc t), hb⟩
    obtain heq | hp := h.keep hm t hi.1
    · rw [heq]
      obtain ⟨n, rest, hq, hb⟩ := hi.2
      refine ⟨n, rest, hq, ?_⟩
      unfold TaskQueue.behindBarrier at hb ⊢
      rwa [hbar (List.ne_nil_of_mem ht)]
    · exact absurd ht (h.not_waiting hp)
  own c hc t ht := by
    rw [hcomp] at hc
    refine (h.own c hc t ht).imp id fun hi => ?_
    obtain heq | hp := h.keep hm t hi
    · rwa [heq]
    · rw [hp.completing] at hc
      contradiction
  free hc := h.free (hcomp ▸ hc)

/-- Every move keeps the lanes in order. -/
theorem tableInv_move {s s' : Stage} (h : s.TableInv E) (hm : Move env lossy s s') :
    s'.TableInv E := by
  have hof := h.of_move hm
  have hmove := lane_move h.placed h.wf (fun hc t ht => h.pending t ht (h.free hc t)) hm
  cases hm with
  | exhausted g hp =>
      obtain ⟨hempty, _⟩ := pending_of_exhausted h.wf hp
      refine hof (fun t ht _ => ?_) (fun _ ht => .inl ht) (fun _ => rfl) rfl
      simp only [TaskQueue.setIndex, hempty] at ht
      exact ht.elim
  | emptyTable t' g hp hq =>
      obtain ⟨_, hpend, _⟩ := pending_of_pickBest h.wf hp
      refine hof (fun t ht _ => .inl ?_) (fun _ ht => .inl ht) (fun _ => rfl) rfl
      simp only [TaskQueue.setIndex, hpend] at ht
      exact ht.1
  | loseTable t' g hl hp =>
      obtain ⟨_, hpend, _⟩ := pending_of_pickBest h.wf hp
      refine hof (fun t ht _ => .inl ?_) (fun _ ht => .inl ht) (fun _ => rfl) rfl
      simp only [TaskQueue.setIndex, hpend] at ht
      exact ht.1
  | blockTable t' g head rest hc hp hq hb =>
      obtain ⟨hmem, hpend, _⟩ := pending_of_pickBest h.wf hp
      refine hof (fun t ht _ => .inl ?_) (fun t ht => ?_) (fun _ => rfl) rfl
      · have ht : t ∈ g.pending := ht
        rw [hpend] at ht
        exact ht.1
      · refine (List.mem_append.mp ht).imp id fun ht => ?_
        rw [List.mem_singleton.mp ht]
        exact ⟨hc, hmem, head.seq, rest.map (·.seq), by simp [lane, hq], hb⟩
  | parkTable t' g head rest type key hc hp hq hb hw =>
      obtain ⟨_, hpend, _⟩ := pending_of_pickBest h.wf hp
      refine hof (fun t ht _ => .inl ?_) (fun _ ht => .inl ht) (fun _ => rfl) rfl
      have ht : t ∈ g.pending := ht
      rw [hpend] at ht
      exact ht.1
  | handTable t' g head rest task hc hp hq hbar hr hb =>
      obtain ⟨_, hpend, _⟩ := pending_of_pickBest h.wf hp
      refine hof (fun t ht _ => .inl ?_) (fun _ ht => .inl ht) (fun _ => rfl) rfl
      have ht : t ∈ g.pending := ht
      rw [hpend] at ht
      exact ht.1
  | handBarrier barrier rest task hc hq hrun hheap hl hb =>
      obtain ⟨g, hrel, hpend, _⟩ := (s.queue.popBarrier barrier rest).countFetch.release_eq env
      refine hof (fun t ht _ => ?_) (fun t ht => ?_) (fun hne => ?_) rfl
      · simp only [hrel] at ht
        have ht : t ∈ g.pending := ht
        rw [hpend] at ht
        exact ht.imp id fun ht => .inl (h.waiting t ht.1)
      · simp only [hrel] at ht
        contradiction
      · simp only [hrel] at hne
        contradiction
  | register c t' hc ht' =>
      obtain ⟨tables, g, hreg, _, hpend, _⟩ :=
        s.queue.registerTableQueue_eq env t' (TaskQueue.placeholder c)
      refine hof (fun t ht hE => ?_) (fun t ht => .inl ?_) (fun _ => ?_) rfl
      · simp only [hreg] at ht
        obtain hpend | hpend := hpend
        · exact .inl (hpend ▸ ht)
        · rw [hpend] at ht
          obtain rfl | ht := ht
          · exact .inr (.inl ((h.own c hc t (.inl ht')).resolve_left hE))
          · exact .inl ht
      · simpa only [hreg] using ht
      · simp only [hreg]
  | requeue x rest htr hty =>
      refine hof (fun t ht _ => ?_) (fun _ ht => .inl ht) (fun _ => rfl) rfl
      have ht : t ∈ insert x.tableId s.queue.globalIndex.pending := by
        rw [← GlobalIndex.pending_upsert env.heap]
        exact ht
      obtain rfl | ht := ht
      · -- the woken item was the one that was away
        obtain heq | ⟨hback, _⟩ | ⟨_, hp⟩ := hmove x.tableId
        · have hlen := congrArg (fun l : Lane Nat => l.queue.length) heq
          simp [lane, TaskQueue.queueOf_requeue] at hlen
        · exact .inr (.inr (hback.idle (h.ordered _)))
        · exact .inl (pending_of_pickBest h.wf hp.picked).1
      · exact .inl ht
  | reindex c t' hc ht' =>
      obtain ⟨g, hup, hpend, _⟩ := s.queue.upsertHead_eq env t'
      refine hof (fun t ht hE => ?_) (fun t ht => .inl ?_) (fun _ => ?_) rfl
      · simp only [hup] at ht
        have ht : t ∈ g.pending := ht
        rw [hpend] at ht
        split at ht
        · exact .inl ht
        · obtain rfl | ht := ht
          · exact .inr (.inl ((h.own c hc t (.inr ht')).resolve_left hE))
          · exact .inl ht
      · simp only [hup] at ht
        exact ht
      · simp only [hup]
        rfl
  | _ => exact hof (fun _ ht _ => .inl ht) (fun _ ht => .inl ht) (fun _ => rfl) rfl

end Stage

/-- The tables of other queues that a completion may enter into the index: the
table of a LOAD, and the new table of a COPYTABLE. -/
def Completion.foreign (c : Completion) : List String :=
  (c.registers ++ c.tableQ.toList).filter fun t => !c.onQueue t

namespace Stage

/-- The start of a completion lands its task, in the lane that it comes from. -/
theorem lane_begin {s : Stage} {k : Nat} {task : ExecutableTask} (hk : s.inFlight[k]? = some task)
    (t : String) : (s.begin k task).lane t = s.lane t ∧ task.onCompleted.onQueue t = false ∨
      Lane.Back (s.lane t) ((s.begin k task).lane t) ∧ task.onCompleted.onQueue t = true := by
  obtain ⟨hlt, htask⟩ := List.getElem?_eq_some_iff.mp hk
  have hperm := ((List.getElem_cons_eraseIdx_perm hlt).filter (·.onCompleted.onQueue t)).map
    (·.onCompleted.seq)
  rw [htask, List.filter_cons] at hperm
  cases hx : task.onCompleted.onQueue t with
  | false =>
      refine .inl ⟨?_, rfl⟩
      simp only [hx, Bool.false_eq_true, ↓reduceIte] at hperm
      simp only [lane, begin, Multiset.coe_eq_coe.mpr hperm]
  | true =>
      simp only [hx, ↓reduceIte, List.map_cons] at hperm
      exact .inr ⟨.land (Multiset.coe_eq_coe.mpr hperm).symm, rfl⟩

/-- The start of a completion: only the foreign tables need care. -/
theorem tableInv_begin (env : Env) {s : Stage} {k : Nat} {task : ExecutableTask}
    (h : s.TableInv fun _ => False) (hc : s.completing = none)
    (hk : s.inFlight[k]? = some task) :
    (s.begin k task).TableInv fun t => t ∈ task.onCompleted.foreign where
  placed := (placed_preserved env True).begin h.placed hc hk
  ordered t := by
    obtain ⟨heq, _⟩ | ⟨hback, _⟩ := lane_begin hk t
    · rw [heq]
      exact h.ordered t
    · exact hback.ordered (h.ordered t)
  wf := h.wf
  pending t ht _ := by
    obtain ⟨heq, _⟩ | ⟨hback, _⟩ := lane_begin hk t
    · rw [heq]
      exact h.pending t ht id
    · exact hback.idle (h.ordered t)
  waiting t ht := by
    obtain ⟨heq, _⟩ | ⟨hback, _⟩ := lane_begin hk t
    · rw [heq]
      exact h.waiting t ht
    · exact hback.idle (h.ordered t)
  blocked t ht := by
    obtain ⟨heq, _⟩ | ⟨hback, _⟩ := lane_begin hk t
    · rw [heq]
      exact h.blocked t ht
    · exact absurd (h.waiting t ht) hback.not_idle
  own c hc' t ht := by
    rw [show c = task.onCompleted from (Option.some.inj hc').symm] at ht
    obtain ⟨_, hx⟩ | ⟨hback, _⟩ := lane_begin hk t
    · left
      refine List.mem_filter.mpr ⟨List.mem_append.mpr (ht.imp id fun ht => ?_), by simp [hx]⟩
      simp [ht]
    · exact .inr (hback.idle (h.ordered t))
  free hc' := by contradiction

/-- The end of a completion. -/
theorem tableInv_finish (env : Env) {s : Stage} {c : Completion} {E : String → Prop} (h : s.TableInv E)
    (hc : s.completing = some c)
    (hE : ∀ t, E t → t ∈ s.queue.globalIndex.pending → (s.lane t).Idle) :
    (s.finish c).TableInv fun _ => False where
  placed := (placed_preserved env True).finish h.placed hc
  ordered := h.ordered
  wf := h.wf
  pending t ht _ := by
    by_cases ht' : E t
    · exact hE t ht' ht
    · exact h.pending t ht ht'
  waiting := h.waiting
  blocked := h.blocked
  own c hc := by contradiction
  free _ _ := id

end Stage

end LemonDB
