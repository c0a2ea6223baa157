import LemonDB.Scheduler.Schedulable

/-!
# LemonDB.Scheduler.Creation

Workloads that create their tables once, before they use them.  There the tasks
of a table wait for its creation, and then they are handed out one at a time and
in order, in every run: whatever candidates a fetch draws, and whatever it loses.

The queue of a table is entered into the global index for the first time by the
completion of the task that creates the table (`Building.opened`).  No other task
creates it, so nobody else can enter the queue while one of its tasks is in
flight, which is the one thing that `TableInv` leaves open.
-/

namespace LemonDB

/-- The completion of the task creates the table: a LOAD of it, or a COPYTABLE into
it. -/
def Ident.Creates (i : Ident) (t : String) : Prop :=
  (i.type = .load ∧ i.tableId = t) ∨
    (i.type = .copyTable ∧ ∃ d, i.depends = .copyTable d ∧ d.newTable = t)

/-- Each table is created by one task, in front of the tasks that use it. -/
structure CreatedFirst (items : List ScheduledItem) : Prop where
  nodup : (items.map (·.seq)).Nodup
  /-- No LOAD waits for a DUMP of its file. -/
  resolved : ∀ x ∈ items, x.depends.isPending = false
  unflagged : ∀ x ∈ items, x.droppedFlag = false
  once : ∀ x ∈ items, ∀ y ∈ items, ∀ t, x.ident.Creates t → y.ident.Creates t → x.seq = y.seq
  before : ∀ x ∈ items, ∀ y ∈ items, ∀ t, x.ident.Creates t → y.onQueue t = true → x.seq < y.seq
  control : ∀ x ∈ items, x.type.isBarrier = true → x.tableId = controlTableId

/-- A task that all items were registered behind marks none of them. -/
theorem TaskQueue.items_registerTableQueue_of_lt (env : Env) {q : TaskQueue} {t : String}
    {item : ScheduledItem} (h : ∀ x ∈ q.queueOf t, item.seq < x.seq) :
    (q.registerTableQueue env t item).items = q.items := by
  unfold registerTableQueue
  dsimp only
  split
  · rfl
  · have hmap : ((q.tables.get? t).getD {}).queue.map (fun pending =>
        if pending.seq < item.seq then { pending with droppedFlag := true } else pending) =
        q.queueOf t := by
      refine (List.map_congr_left fun x hx => ?_).trans (List.map_id _)
      exact if_neg (Nat.lt_asymm (h x hx))
    have hset := q.items_setTable t { registered := true, registerSeq := item.seq, queue := q.queueOf t }
    rw [add_right_cancel_iff] at hset
    rw [hmap, items_upsertHead, hset]

namespace Stage

variable {env : Env} {lossy : Prop} {items : List ScheduledItem} {s s' : Stage}

/-! ## what enters a queue into the index -/

/-- The queue may be entered into the index by the next move. -/
def Enters (s : Stage) (t : String) : Prop :=
  t ∈ s.queue.waitingTables ∨ (∃ x ∈ s.transit, x.onQueue t = true) ∨
    ∃ c, s.completing = some c ∧ (t ∈ c.registers ∨ c.tableQ = some t)

theorem entered_move (h : s.Placed) (hm : Move env lossy s s') (t : String) :
    (s.Entered t → s'.Entered t) ∧ (s'.Entered t → s.Entered t ∨ s.Enters t) := by
  have hsame : s'.queue.globalIndex.entered = s.queue.globalIndex.entered →
      (s.Entered t → s'.Entered t) ∧ (s'.Entered t → s.Entered t ∨ s.Enters t) := by
    intro he
    unfold Entered
    rw [he]
    exact ⟨id, .inl⟩
  cases hm with
  | exhausted g hp => exact hsame (entered_of_pickBest hp)
  | emptyTable t' g hp hq => exact hsame (entered_of_pickBest hp)
  | blockTable t' g head rest hc hp hq hb => exact hsame (entered_of_pickBest hp)
  | loseTable t' g hl hp => exact hsame (entered_of_pickBest hp)
  | parkTable t' g head rest type key hc hp hq hb hw => exact hsame (entered_of_pickBest hp)
  | handTable t' g head rest task hc hp hq hb hr hbuild => exact hsame (entered_of_pickBest hp)
  | handBarrier barrier rest task hc hq hrun hheap hl hb =>
      obtain ⟨g, hrel, _, _, hentered⟩ :=
        ((s.queue.popBarrier barrier rest).countFetch).release_eq env
      simp only [Entered, hrel]
      show (_ → t ∈ g.entered) ∧ (t ∈ g.entered → _)
      rw [hentered]
      exact ⟨.inl, fun ht => ht.imp id fun ht => .inl ht.1⟩
  | register c t' hc ht =>
      obtain ⟨tables, g, hreg, _, _, _, hindex⟩ :=
        s.queue.registerTableQueue_eq env t' (TaskQueue.placeholder c)
      simp only [Entered, hreg]
      obtain ⟨_, _, hentered⟩ | ⟨_, _, hentered⟩ := hindex
      · rw [hentered]
        exact ⟨id, .inl⟩
      · rw [hentered]
        refine ⟨.inr, ?_⟩
        rintro (rfl | he)
        · exact .inr (.inr (.inr ⟨c, hc, .inl ht⟩))
        · exact .inl he
  | requeue x rest htr hty =>
      have hmem : x ∈ s.transit := by rw [htr]; exact List.mem_cons_self
      show (_ → t ∈ (s.queue.globalIndex.upsert env.heap (some x.tableId) _ _ _).entered) ∧
        (t ∈ (s.queue.globalIndex.upsert env.heap (some x.tableId) _ _ _).entered → _)
      rw [GlobalIndex.entered_upsert]
      refine ⟨.inr, ?_⟩
      rintro (rfl | he)
      · refine .inr (.inr (.inl ⟨x, hmem, ?_⟩))
        simp [ScheduledItem.onQueue, isQueued_of_isMarked (h.transit x hmem) hty]
      · exact .inl he
  | reindex c t' hc ht =>
      obtain ⟨g, hup, _, _, hentered⟩ := s.queue.upsertHead_eq env t'
      simp only [Entered, hup]
      show (_ → t ∈ g.entered) ∧ (t ∈ g.entered → _)
      rw [hentered]
      split
      · exact ⟨id, .inl⟩
      · refine ⟨.inr, ?_⟩
        rintro (rfl | he)
        · exact .inr (.inr (.inr ⟨c, hc, .inr ht⟩))
        · exact .inl he
  | _ => exact hsame rfl

/-- A completion enters the queue that its task came from, or the table that it
creates. -/
theorem own_of_built {q : TaskQueue} {x : ScheduledItem} {task : ExecutableTask}
    (hb : q.Built x task) (hcontrol : x.type.isBarrier = true → x.tableId = controlTableId)
    (t : String) (ht : t ∈ task.onCompleted.registers ∨ task.onCompleted.tableQ = some t) :
    task.onCompleted.onQueue t = true ∨ task.onCompleted.Opens t := by
  have hopens : x.type = .load → x.tableId = t → task.onCompleted.Opens t := fun hty heq =>
    .inl ⟨hb.capturedType.trans hty, hb.capturedTable.trans heq⟩
  have hqueue : x.type.isQueued = true → x.tableId = t → task.onCompleted.onQueue t = true := by
    intro hty heq
    rw [onQueue_of_built hb]
    simp [ScheduledItem.onQueue, hty, heq]
  obtain ht | ht := ht
  · unfold Completion.registers at ht
    split at ht
    · next hact =>
        have hactions := hb.actions
        unfold TaskQueue.classifyActions at hactions
        cases hty : x.type with
        | load =>
            rw [hb.capturedType, hty, hb.capturedTable] at ht
            exact .inr (hopens hty (List.mem_singleton.mp ht).symm)
        | copyTable =>
            rw [hb.capturedType, hty] at ht
            obtain rfl | ht := List.mem_cons.mp ht
            · exact .inl (hqueue (by rw [hty]; rfl) hb.capturedTable.symm)
            · split at ht
              · next d _ hd =>
                  exact .inr (.inr ⟨hb.capturedType.trans hty, d, hd,
                    (List.mem_singleton.mp ht).symm⟩)
              · contradiction
        | _ =>
            simp only [hty] at hactions
            rw [← Except.ok.inj hactions] at hact
            simp at hact
    · contradiction
  · rw [hb.tableQ] at ht
    unfold TaskQueue.capturedTableQ at ht
    split at ht
    · next hne =>
        obtain ⟨_, _, rfl⟩ := Option.map_eq_some_iff.mp ht
        by_cases hload : x.type = .load
        · exact .inr (hopens hload rfl)
        · cases hbar : x.type.isBarrier with
          | true => exact absurd (hcontrol hbar) hne.2
          | false => exact .inl (hqueue ((TaskQueue.isQueued_iff _).mpr ⟨hbar, hload⟩) rfl)
    · contradiction

/-! ## the invariant -/

/-- The tables are created and used in order. -/
structure Building (items : List ScheduledItem) (s : Stage) : Prop where
  tables : s.TableInv fun _ => False
  idents : s.idents = items.map ScheduledItem.ident
  latest : ∀ t, (s.lane t).Latest
  /-- Nothing was taken from a queue that was never entered into the index. -/
  untouched : ∀ t, ¬ s.Entered t → (s.lane t).Idle ∧ (s.lane t).log = []
  /-- A table that was entered was opened by the task that creates it. -/
  opened : ∀ t, s.Entered t → ∃ c ∈ s.completing.toList ++ s.finished, c.Opens t
  waiting : ∀ t ∈ s.queue.waitingTables, s.Entered t
  own : ∀ c ∈ s.completions, ∀ t, t ∈ c.registers ∨ c.tableQ = some t →
    c.onQueue t = true ∨ c.Opens t
  logged : ∀ c ∈ s.completions, ∃ task ∈ s.handedOut, task.onCompleted = c
  unflagged : ∀ x ∈ s.queue.items + s.transit, x.droppedFlag = false
  registered : ∀ task ∈ s.handedOut, ∃ y ∈ items, y.ident = task.onCompleted.ident
  handed : ∀ task ∈ s.handedOut, task.execOverride = false ∧
    ∀ t, task.onCompleted.onQueue t = true → ∃ c ∈ s.finished, c.Opens t

/-- Every task that the scheduler holds was registered. -/
theorem Building.held (h : s.Building items) {x : ScheduledItem}
    (hx : x ∈ s.queue.items + s.transit) : ∃ y ∈ items, y.ident = x.ident := by
  have hid : x.ident ∈ s.idents := Multiset.mem_add.mpr (.inl (Multiset.mem_map_of_mem _ hx))
  rw [h.idents] at hid
  exact List.mem_map.mp (Multiset.mem_coe.mp hid)

/-- Every task that was handed out was registered. -/
theorem Building.out (h : s.Building items) {c : Completion} (hc : c ∈ s.completions) :
    ∃ y ∈ items, y.ident = c.ident := by
  obtain ⟨task, htask, rfl⟩ := h.logged c hc
  exact h.registered task htask

/-- Whatever is entered into the index was opened before. -/
theorem Building.opened_of_enters (h : s.Building items) {t : String} (ht : s.Enters t) :
    ∃ c ∈ s.completing.toList ++ s.finished, c.Opens t := by
  have hof : ¬ ((s.lane t).Idle ∧ (s.lane t).log = []) →
      ∃ c ∈ s.completing.toList ++ s.finished, c.Opens t := fun hn =>
    h.opened t (by_contra fun he => hn (h.untouched t he))
  obtain ht | ⟨x, hx, hq⟩ | ⟨c, hc, ht⟩ := ht
  · exact h.opened t (h.waiting t ht)
  · refine hof fun hn => ?_
    have hparked : x.seq ∈ (s.lane t).parked := by
      refine Multiset.mem_map_of_mem _ (Multiset.mem_filter.mpr ⟨?_, hq⟩)
      exact Multiset.mem_add.mpr (.inr (Multiset.mem_coe.mpr hx))
    rw [hn.1.1] at hparked
    exact Multiset.notMem_zero _ hparked
  · have hmem : c ∈ s.completions := by simp [completions, hc]
    obtain hq | hopens := h.own c hmem t ht
    · obtain ⟨task, htask, rfl⟩ := h.logged c hmem
      refine hof fun hn => ?_
      have hlog : task.onCompleted.seq ∈ (s.lane t).log :=
        List.mem_map.mpr ⟨task, List.mem_filter.mpr ⟨htask, hq⟩, rfl⟩
      rw [hn.2] at hlog
      exact List.not_mem_nil hlog
    · exact ⟨c, by simp [hc], hopens⟩

/-- A barrier blocks tables of the index. -/
theorem waitingTables_move (hwf : s.queue.globalIndex.WF) (hm : Move env lossy s s') {t : String}
    (ht : t ∈ s'.queue.waitingTables) :
    t ∈ s.queue.waitingTables ∨ t ∈ s.queue.globalIndex.pending := by
  cases hm with
  | blockTable t' g head rest hc hp hq hb =>
      refine (List.mem_append.mp ht).imp id fun ht => ?_
      rw [List.mem_singleton.mp ht]
      exact (pending_of_pickBest hwf hp).1
  | handBarrier barrier rest task hc hq hrun hheap hl hb =>
      obtain ⟨g, hrel, _⟩ := ((s.queue.popBarrier barrier rest).countFetch).release_eq env
      simp only [hrel] at ht
      contradiction
  | register c t' hc ht' =>
      obtain ⟨tables, g, hreg, _⟩ :=
        s.queue.registerTableQueue_eq env t' (TaskQueue.placeholder c)
      simp only [hreg] at ht
      exact .inl ht
  | reindex c t' hc ht' =>
      obtain ⟨g, hup, _⟩ := s.queue.upsertHead_eq env t'
      simp only [hup] at ht
      exact .inl ht
  | _ => exact .inl ht

/-- A task from the queue of a table is handed out after the table was opened. -/
theorem Building.opened_of_hand (h : s.Building items) (hm : Move env lossy s s')
    {task : ExecutableTask} (hd : s'.handedOut = s.handedOut ++ [task]) {t : String}
    (ht : task.onCompleted.onQueue t = true) : ∃ c ∈ s.finished, c.Opens t := by
  have hlog : (s'.lane t).log = (s.lane t).log ++ [task.onCompleted.seq] := by
    simp [lane, hd, List.filter_append, ht]
  have hne : (s'.lane t).log ≠ (s.lane t).log := by
    intro heq
    have hlen := congrArg List.length (hlog.symm.trans heq)
    simp at hlen
  obtain heq | ⟨hback, _⟩ | ⟨_, hpick⟩ := lane_move h.tables.placed h.tables.wf
    (fun hc t ht => h.tables.pending t ht id) hm t
  · exact absurd (congrArg Lane.log heq) hne
  · exact absurd hback.log hne
  · have hpending := (pending_of_pickBest h.tables.wf hpick.picked).1
    obtain ⟨c, hc, hopens⟩ := h.opened t (GlobalIndex.pending_subset_entered _ hpending)
    rw [hpick.completing] at hc
    exact ⟨c, hc, hopens⟩

theorem mem_completions_of_hand {task : ExecutableTask} (hf : s'.inFlight = s.inFlight ++ [task])
    (hc : s'.completing = s.completing) (hfin : s'.finished = s.finished) {c : Completion}
    (h : c ∈ s'.completions) : c ∈ s.completions ∨ c = task.onCompleted := by
  rw [completions, hf, hc, hfin] at h
  simp only [List.map_append, List.mem_append, List.map_cons, List.map_nil,
    List.mem_singleton] at h
  simp only [completions, List.mem_append]
  tauto

/-- A completion whose tables are idle needs no care. -/
theorem TableInv.tighten {E : String → Prop} (h : s.TableInv E)
    (hE : ∀ t, E t → (s.lane t).Idle) : s.TableInv fun _ => False :=
  { h with
    pending := fun t ht _ => by
      by_cases ht' : E t
      · exact hE t ht'
      · exact h.pending t ht ht'
    own := fun c hc t ht => .inr ((h.own c hc t ht).elim (hE t) id)
    free := fun _ _ => id }

theorem building_settle (env : Env) (h : s.Building items) {c : Completion}
    (hc : s.completing = some c) :
    (s.settle c).Building items := by
  have hmem : ∀ c', c' ∈ s.completing.toList ++ s.finished ↔
      c' ∈ ([] : List Completion) ++ (s.finished ++ [c]) := by
    intro c'
    simp [hc, or_comm, eq_comm]
  have hsub : ∀ c' ∈ (s.settle c).completions, c' ∈ s.completions := by
    intro c' hc'
    rw [completions, List.append_assoc] at hc' ⊢
    exact (List.mem_append.mp hc').elim (List.mem_append_left _)
      fun hc' => List.mem_append_right _ ((hmem c').mpr hc')
  constructor
  case tables =>
    exact { h.tables with
      placed := { (placed_preserved env True).finish h.tables.placed hc with }
      own := fun c hc => by contradiction
      free := fun _ _ => id }
  case idents =>
    rw [← h.idents, Stage.idents, Stage.idents, ← out_finish hc]
    rfl
  case latest => exact h.latest
  case untouched => exact h.untouched
  case opened =>
    intro t he
    obtain ⟨c', hc', hopens⟩ := h.opened t he
    exact ⟨c', (hmem c').mp hc', hopens⟩
  case waiting => exact h.waiting
  case own => exact fun c' hc' => h.own c' (hsub c' hc')
  case logged => exact fun c' hc' => h.logged c' (hsub c' hc')
  case unflagged => exact h.unflagged
  case registered => exact h.registered
  case handed =>
    intro task ht
    refine ⟨(h.handed task ht).1, fun t hq => ?_⟩
    obtain ⟨c', hc', hopens⟩ := (h.handed task ht).2 t hq
    exact ⟨c', List.mem_append_left _ hc', hopens⟩

section

variable (hitems : CreatedFirst items)

include hitems

/-- What opens a table is registered as what creates it. -/
theorem Building.creates (h : s.Building items) {c : Completion} (hc : c ∈ s.completions)
    {t : String} (ht : c.Opens t) : ∃ y ∈ items, y.ident = c.ident ∧ y.ident.Creates t := by
  obtain ⟨y, hy, hid⟩ := h.out hc
  refine ⟨y, hy, hid, ?_⟩
  have hpending : c.depends.isPending = false :=
    (congrArg (fun i => i.depends.isPending) hid).symm.trans (hitems.resolved y hy)
  rw [hid]
  refine ht.imp (fun ⟨hty, heq⟩ => ⟨hty, ?_⟩) id
  simp [Completion.ident, Ident.of, hpending, heq]

/-- A task in flight is not completed. -/
theorem Building.seq_ne (h : s.Building items) {task : ExecutableTask} (ht : task ∈ s.inFlight)
    {c : Completion} (hc : c ∈ s.completing.toList ++ s.finished) :
    task.onCompleted.seq ≠ c.seq := by
  have hnodup : (s.idents.map Ident.seq).Nodup := by
    rw [h.idents, Multiset.map_coe, List.map_map]
    exact Multiset.coe_nodup.mpr hitems.nodup
  rw [Stage.idents, Multiset.map_add] at hnodup
  have hout := (Multiset.nodup_add.mp hnodup).2.1
  simp only [Stage.out, Multiset.map_add, add_assoc] at hout
  have hdisj := (Multiset.nodup_add.mp hout).2.2
  intro heq
  have hflight : c.seq ∈ Multiset.map Ident.seq
      (s.inFlight.map (·.onCompleted.ident) : List Ident) := by
    rw [Multiset.map_coe, List.map_map, Multiset.mem_coe, ← heq]
    exact List.mem_map_of_mem ht
  refine Multiset.disjoint_left.mp hdisj hflight ?_
  rw [← Multiset.map_add, Multiset.mem_map, Multiset.coe_add, ← List.map_append]
  exact ⟨c.ident, Multiset.mem_coe.mpr (List.mem_map_of_mem hc), rfl⟩

/-- Nothing in a queue was registered in front of a task that enters the queue into
the index. -/
theorem Building.lt_of_own (h : s.Building items) {c : Completion} (hc : c ∈ s.completions)
    {t : String} (ht : t ∈ c.registers ∨ c.tableQ = some t) {x : ScheduledItem}
    (hx : x ∈ s.queue.queueOf t) : c.seq < x.seq := by
  obtain hq | hopens := h.own c hc t ht
  · obtain ⟨task, htask, rfl⟩ := h.logged c hc
    refine (h.tables.ordered t).log_lt _ ?_ _ (List.mem_map_of_mem hx)
    exact List.mem_map.mpr ⟨task, List.mem_filter.mpr ⟨htask, hq⟩, rfl⟩
  · obtain ⟨y, hy, hidy, hcreates⟩ := h.creates hitems hc hopens
    obtain ⟨z, hz, hidz⟩ := h.held (mem_items_of_stored (TaskQueue.mem_stored_of_queueOf hx))
    have hqz : z.onQueue t = true := by
      rw [← z.onQueue_ident, hidz, x.onQueue_ident]
      simp [ScheduledItem.onQueue, h.tables.placed.queued t x hx]
    have hlt := hitems.before y hy z hz t hcreates hqz
    have hyseq : y.seq = c.seq := congrArg Ident.seq hidy
    have hzseq : z.seq = x.seq := congrArg Ident.seq hidz
    omega

/-! ## moves -/

/-- What a move does to the items, flags included. -/
theorem Building.carries (h : s.Building items) (hm : Move env lossy s s') :
    Carries (fun x => (x.ident, x.droppedFlag)) s s' := by
  refine carries_move_of (fun c t hc ht => ?_) (fun x d t hty hd hp => ?_) hm
  · have hmem : c ∈ s.completions := by simp [completions, hc]
    rw [TaskQueue.items_registerTableQueue_of_lt env
      fun x hx => h.lt_of_own hitems hmem (.inl ht) hx]
  · rw [ident_resolve x d t hty hd hp]

theorem building_move (h : s.Building items) (hm : Move env lossy s s') : s'.Building items := by
  have hcarries := h.carries hitems hm
  have hkeep : s'.completing = s.completing ∧ s'.finished = s.finished := by
    obtain ⟨_, _, _, hc, hfin⟩ | ⟨_, _, _, _, _, _, _, hc, hfin⟩ := hcarries <;>
      exact ⟨hc, hfin⟩
  -- what was handed out was registered, and has no flag
  have hhand : ∀ {q : TaskQueue} {x : ScheduledItem} {task : ExecutableTask}, q.Built x task →
      (x.ident, x.droppedFlag) ∈ (s.queue.items + s.transit).map
        (fun x => (x.ident, x.droppedFlag)) →
      task.execOverride = false ∧ (x.type.isBarrier = true → x.tableId = controlTableId) ∧
        ∃ y ∈ items, y.ident = task.onCompleted.ident := by
    intro q x task hb hx
    obtain ⟨x', hx', heq⟩ := Multiset.mem_map.mp hx
    obtain ⟨hid, hflag⟩ := Prod.mk.inj heq
    obtain ⟨y, hy, hidy⟩ := h.held hx'
    have hid : y.ident = x.ident := hidy.trans hid
    refine ⟨hb.execOverride.trans (hflag ▸ h.unflagged x' hx'), fun hbar => ?_,
      y, hy, hid.trans hb.ident.symm⟩
    have hty : y.type = x.type := congrArg Ident.type hid
    have hnload : x.type ≠ .load := fun hload => by rw [hload] at hbar; contradiction
    have htab := congrArg Ident.tableId hid
    simp only [ScheduledItem.ident, Ident.of, hty, hnload, false_and, ↓reduceIte] at htab
    rw [← htab]
    exact hitems.control y hy (hty ▸ hbar)
  have hlane := lane_move h.tables.placed h.tables.wf (fun hc t ht => h.tables.pending t ht id) hm
  have hentered := entered_move h.tables.placed hm
  constructor
  case tables => exact tableInv_move h.tables hm
  case idents => exact (idents_move hm).trans h.idents
  case latest =>
    intro t
    obtain heq | ⟨hback, _⟩ | ⟨htake, _⟩ := hlane t
    · rw [heq]
      exact h.latest t
    · exact hback.latest (h.latest t)
    · exact htake.latest (h.tables.ordered t) (h.latest t)
  case untouched =>
    intro t hn
    have hbefore : ¬ s.Entered t := fun he => hn ((hentered t).1 he)
    obtain heq | hpick := h.tables.keep hm t (h.untouched t hbefore).1
    · rw [heq]
      exact h.untouched t hbefore
    · have hpending := (pending_of_pickBest h.tables.wf hpick.picked).1
      exact absurd (GlobalIndex.pending_subset_entered _ hpending) hbefore
  case opened =>
    intro t he
    rw [hkeep.1, hkeep.2]
    exact ((hentered t).2 he).elim (h.opened t) h.opened_of_enters
  case waiting =>
    intro t ht
    refine (hentered t).1 ?_
    obtain ht | ht := waitingTables_move h.tables.wf hm ht
    · exact h.waiting t ht
    · exact GlobalIndex.pending_subset_entered _ ht
  all_goals
    obtain ⟨hmap, hf, hd, hc, hfin⟩ | ⟨q, x, task, hb, hmap, hf, hd, hc, hfin⟩ := hcarries
  case own.keep =>
    rw [completions, hf, hc, hfin]
    exact h.own
  case own.hand =>
    have hcontrol := (hhand hb (hmap ▸ Multiset.mem_cons_self _ _)).2.1
    intro c hmem t ht
    obtain hmem | rfl := mem_completions_of_hand hf hc hfin hmem
    · exact h.own c hmem t ht
    · exact own_of_built hb hcontrol t ht
  case logged.keep =>
    rw [completions, hf, hc, hfin, hd]
    exact h.logged
  case logged.hand =>
    intro c hmem
    rw [hd]
    obtain hmem | rfl := mem_completions_of_hand hf hc hfin hmem
    · obtain ⟨task', ht, heq⟩ := h.logged c hmem
      exact ⟨task', List.mem_append_left _ ht, heq⟩
    · exact ⟨task, List.mem_append_right _ List.mem_cons_self, rfl⟩
  case unflagged.keep =>
    intro x hx
    have hx := Multiset.mem_map_of_mem (fun x => (x.ident, x.droppedFlag)) hx
    rw [hmap] at hx
    obtain ⟨x', hx', heq⟩ := Multiset.mem_map.mp hx
    exact (congrArg Prod.snd heq).symm.trans (h.unflagged x' hx')
  case unflagged.hand =>
    intro y hy
    have hy := Multiset.mem_cons_of_mem (b := (x.ident, x.droppedFlag))
      (Multiset.mem_map_of_mem (fun x => (x.ident, x.droppedFlag)) hy)
    rw [hmap] at hy
    obtain ⟨x', hx', heq⟩ := Multiset.mem_map.mp hy
    exact (congrArg Prod.snd heq).symm.trans (h.unflagged x' hx')
  case registered.keep =>
    rw [hd]
    exact h.registered
  case registered.hand =>
    have hregistered := (hhand hb (hmap ▸ Multiset.mem_cons_self _ _)).2.2
    intro task' ht
    rw [hd] at ht
    obtain ht | ht := List.mem_append.mp ht
    · exact h.registered task' ht
    · exact List.mem_singleton.mp ht ▸ hregistered
  case handed.keep =>
    rw [hd, hfin]
    exact h.handed
  case handed.hand =>
    have hflag := (hhand hb (hmap ▸ Multiset.mem_cons_self _ _)).1
    intro task' ht
    rw [hfin]
    rw [hd] at ht
    obtain ht | ht := List.mem_append.mp ht
    · exact h.handed task' ht
    · rw [List.mem_singleton.mp ht]
      exact ⟨hflag, fun t ht => h.opened_of_hand hm hd ht⟩

/-! ## the steps of a completion -/

/-- A completion may enter the queue of the table that it creates: nobody has used
it yet. -/
theorem building_begin (env : Env) (h : s.Building items) (hc : s.completing = none) {k : Nat}
    {task : ExecutableTask} (hk : s.inFlight[k]? = some task) :
    (s.begin k task).Building items := by
  have hmem : task.onCompleted ∈ s.completions :=
    List.mem_append_left _ (List.mem_append_left _ (List.mem_map_of_mem (List.mem_of_getElem? hk)))
  have hsub : ∀ c ∈ (s.begin k task).completions, c ∈ s.completions := by
    intro c hc'
    obtain hc' | hc' := List.mem_append.mp hc'
    · obtain hc' | hc' := List.mem_append.mp hc'
      · obtain ⟨task', ht', rfl⟩ := List.mem_map.mp hc'
        exact List.mem_append_left _
          (List.mem_append_left _ (List.mem_map_of_mem (List.mem_of_mem_eraseIdx ht')))
      · exact List.mem_singleton.mp hc' ▸ hmem
    · exact List.mem_append_right _ hc'
  have hlane := lane_begin hk
  constructor
  case tables =>
    refine (tableInv_begin env h.tables hc hk).tighten fun t ht => ?_
    obtain ⟨ht, hforeign⟩ := List.mem_filter.mp ht
    have hforeign : task.onCompleted.onQueue t = false := by simpa using hforeign
    have hown : t ∈ task.onCompleted.registers ∨ task.onCompleted.tableQ = some t :=
      (List.mem_append.mp ht).imp id fun ht => Option.mem_toList.mp ht
    have hopens := (h.own _ hmem t hown).resolve_left (by simp [hforeign])
    obtain ⟨heq, _⟩ | ⟨_, hq⟩ := hlane t
    · rw [heq]
      refine (h.untouched t fun he => ?_).1
      -- no other task opens the table
      obtain ⟨c, hc', hopens'⟩ := h.opened t he
      obtain ⟨x, hx, hidx, hcreates⟩ := h.creates hitems hmem hopens
      have hmem' : c ∈ s.completions := by
        rw [completions, List.append_assoc]
        exact List.mem_append_right _ hc'
      obtain ⟨y, hy, hidy, hcreates'⟩ := h.creates hitems hmem' hopens'
      have hseq := hitems.once x hx y hy t hcreates hcreates'
      have hxseq : x.seq = task.onCompleted.seq := congrArg Ident.seq hidx
      have hyseq : y.seq = c.seq := congrArg Ident.seq hidy
      exact h.seq_ne hitems (List.mem_of_getElem? hk) hc' (by omega)
    · rw [hforeign] at hq
      contradiction
  case idents => exact (idents_preserved env True _).begin h.idents hc hk
  case latest =>
    intro t
    obtain ⟨heq, _⟩ | ⟨hback, _⟩ := hlane t
    · rw [heq]
      exact h.latest t
    · exact hback.latest (h.latest t)
  case untouched =>
    intro t hn
    obtain ⟨heq, _⟩ | ⟨hback, _⟩ := hlane t
    · rw [heq]
      exact h.untouched t hn
    · exact absurd (h.untouched t hn).1 hback.not_idle
  case opened =>
    intro t he
    obtain ⟨c, hc', hopens⟩ := h.opened t he
    rw [hc] at hc'
    exact ⟨c, List.mem_append_right _ hc', hopens⟩
  case waiting => exact h.waiting
  case own => exact fun c hc' => h.own c (hsub c hc')
  case logged => exact fun c hc' => h.logged c (hsub c hc')
  case unflagged => exact h.unflagged
  case registered => exact h.registered
  case handed => exact h.handed

theorem building_preserved (env : Env) : SplitPreserved env fun _ => Building items where
  move := building_move hitems
  begin h hc hk := building_begin hitems env h hc hk
  settle h hc _ := building_settle env h hc
  decrement h := { h with tables := { h.tables with placed := { h.tables.placed with } } }

end

end Stage

/-! ## runs -/

theorem building_start (env : Env) {tasks : List ParsedQuery} (hinc : Increasing tasks)
    (hitems : CreatedFirst (TaskQueue.registered env tasks)) :
    (RunState.start env tasks).stage.Building (TaskQueue.registered env tasks) := by
  have hreg := TaskQueue.registered_registerAll env tasks
  have hindex : (RunState.start env tasks).stage.queue.globalIndex = {} := hreg.globalIndex
  have hblocked : (RunState.start env tasks).stage.queue.waitingTables = [] := hreg.waitingTables
  have hidle : ∀ t, (RunState.start env tasks).stage.lane t =
      ⟨((TaskQueue.registered env tasks).filter (·.onQueue t)).map (·.seq), 0, 0, []⟩ :=
    lane_start env tasks
  constructor
  case tables => exact tableInv_start env hinc
  case idents => exact @idents_run env (fun _ _ => True) tasks _ (.refl _)
  case latest =>
    intro t
    rw [hidle]
    exact fun a ha => absurd ha (Multiset.notMem_zero a)
  case untouched =>
    intro t _
    rw [hidle]
    exact ⟨⟨rfl, rfl⟩, rfl⟩
  case opened =>
    intro t ht
    rw [Stage.Entered, hindex, GlobalIndex.entered_empty] at ht
    exact ht.elim
  case waiting =>
    rw [hblocked]
    exact fun t ht => absurd ht List.not_mem_nil
  case own => exact fun c hc => absurd hc List.not_mem_nil
  case logged => exact fun c hc => absurd hc List.not_mem_nil
  case unflagged =>
    intro x hx
    have hitems' : (TaskQueue.registerAll env tasks).setReady.items =
        TaskQueue.registered env tasks := hreg.items
    simp only [RunState.stage, RunState.start, Multiset.coe_nil, add_zero, hitems'] at hx
    exact hitems.unflagged x (Multiset.mem_coe.mp hx)
  case registered => exact fun task ht => absurd ht List.not_mem_nil
  case handed => exact fun task ht => absurd ht List.not_mem_nil

theorem building_run {env : Env} {tasks : List ParsedQuery} (hinc : Increasing tasks)
    (hitems : CreatedFirst (TaskQueue.registered env tasks))
    {guard : SplitState → SplitAction → Prop} {r : SplitState}
    (run : (splitScheduler env).Runs guard (.start env tasks) r) :
    r.stage.Building (TaskQueue.registered env tasks) :=
  (Stage.building_preserved hitems env).run run (building_start env hinc hitems)

end LemonDB
