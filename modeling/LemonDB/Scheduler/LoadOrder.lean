import LemonDB.Runtime.QueryExecutor
import LemonDB.Scheduler.Placement

/-!
# LemonDB.Scheduler.LoadOrder

When `fetchNext` throws.  `classifyActions` rejects a LOAD whose table was
registered by a larger sequence number.  No exception leaves a fetch as long as
no completion registers a table while the scheduler still holds an earlier LOAD
of that table (`RegistersInOrder`).
-/

namespace LemonDB

/-! ## the registrations of the tables -/

namespace TaskQueue

/-- The sequence number by which a table is registered. -/
def registration (q : TaskQueue) (t : String) : Option Nat :=
  (q.tables.get? t).bind fun tbl => if tbl.registered then some tbl.registerSeq else none

/-- A LOAD whose table was not registered later has actions. -/
theorem classifyActions_load {q : TaskQueue} {x : ScheduledItem} (hty : x.type = .load)
    (h : ∀ n, q.registration x.tableId = some n → n ≤ x.seq) :
    ∃ actions, q.classifyActions x = .ok actions := by
  unfold registration at h
  unfold classifyActions
  rw [hty]
  cases htbl : q.tables.get? x.tableId with
  | none => exact ⟨_, rfl⟩
  | some tbl =>
      rw [htbl, Option.bind_some] at h
      dsimp only [Option.getD_some]
      by_cases hr : tbl.registered = true
      · rw [if_pos hr, if_neg (Nat.not_lt.mpr (h tbl.registerSeq (by rw [if_pos hr])))]
        exact ⟨_, rfl⟩
      · rw [if_neg hr]
        exact ⟨_, rfl⟩

/-- A LOAD registers its table, unless the table is registered already. -/
theorem actions_of_load {q : TaskQueue} {x : ScheduledItem} {actions : List CompletionAction}
    (hty : x.type = .load) (h : q.classifyActions x = .ok actions) :
    (q.registration x.tableId ≠ none ∧ actions = [.updateDeps]) ∨
      actions = [.registerTable, .updateDeps] := by
  unfold classifyActions at h
  unfold registration
  simp only [hty] at h
  cases htbl : q.tables.get? x.tableId with
  | none =>
      rw [htbl] at h
      exact .inr (Except.ok.inj h).symm
  | some tbl =>
      rw [htbl, Option.getD_some] at h
      split at h
      · next hr =>
          split at h
          · contradiction
          · exact .inl ⟨by simp [hr], (Except.ok.inj h).symm⟩
      · exact .inr (Except.ok.inj h).symm

/-- Every other task has actions. -/
theorem classifyActions_of_ne_load (q : TaskQueue) {x : ScheduledItem} (hty : x.type ≠ .load) :
    ∃ actions, q.classifyActions x = .ok actions := by
  unfold classifyActions
  split <;> first | contradiction | exact ⟨_, rfl⟩

/-- Only a LOAD or a COPYTABLE registers tables. -/
theorem Built.registers_of_drop {q : TaskQueue} {x : ScheduledItem} {task : ExecutableTask}
    (h : q.Built x task) (hty : task.onCompleted.type = .drop) :
    task.onCompleted.registers = [] := by
  have hact := h.actions
  rw [h.capturedType] at hty
  rw [classifyActions, hty] at hact
  rw [Completion.registers, ← Except.ok.inj hact]
  rfl

@[simp] theorem registration_setIndex (q : TaskQueue) (g : GlobalIndex String) :
    (q.setIndex g).registration = q.registration := rfl

@[simp] theorem registration_setQueue (q : TaskQueue) (t : String) (l : List ScheduledItem) :
    (q.setQueue t l).registration = q.registration := by
  funext t'
  simp only [registration, setQueue, setTable, FiniteMap.get?_set]
  split
  · next ht =>
      rw [ht]
      cases q.tables.get? t <;> rfl
  · rfl

@[simp] theorem registration_upsertHead (env : Env) (q : TaskQueue) (t : String) :
    (q.upsertHead env t).registration = q.registration := by
  unfold upsertHead
  split <;> rfl

@[simp] theorem registration_release (env : Env) (q : TaskQueue) :
    (q.release env).registration = q.registration := by
  obtain ⟨g, h, _⟩ := q.release_eq env
  rw [h]
  rfl

/-- Registering a table that is registered keeps its first number. -/
theorem registration_registerTableQueue (env : Env) (q : TaskQueue) (t : String)
    (item : ScheduledItem) (t' : String) :
    (q.registerTableQueue env t item).registration t' =
      if t' = t then some ((q.registration t).getD item.seq) else q.registration t' := by
  unfold registerTableQueue
  dsimp only
  by_cases hr : ((q.tables.get? t).getD {}).registered = true
  · rw [if_pos hr]
    split
    · next ht =>
        rw [ht, registration]
        cases htbl : q.tables.get? t with
        | none => simp [htbl] at hr
        | some tbl =>
            rw [htbl, Option.getD_some] at hr
            simp [hr]
    · rfl
  · rw [if_neg hr, registration_upsertHead]
    simp only [registration, setTable, FiniteMap.get?_set]
    split
    · cases htbl : q.tables.get? t with
      | none => rfl
      | some tbl =>
          rw [htbl, Option.getD_some] at hr
          simp [hr]
    · rfl

/-- A table that is unregistered has no number any more. -/
theorem registration_unregister (q : TaskQueue) (t : String) (tbl : TableQueue) (t' : String) :
    (q.setTable t { tbl with registered := false }).registration t' =
      if t' = t then none else q.registration t' := by
  simp only [registration, setTable, FiniteMap.get?_set]
  split <;> rfl

end TaskQueue

/-! ## the LOADs that are held -/

/-- The tables that a LOAD may be handed out for.  The table of a pending LOAD
is resolved again when its file is completed. -/
def ScheduledItem.targets (env : Env) (x : ScheduledItem) : List String :=
  x.tableId :: match x.depends with
    | .load d => if d.pendingTable ≠ [] then [env.fileTableName d.filePath] else []
    | _ => []

/-- Resolving the table of a pending LOAD leaves it with one of its targets. -/
theorem targets_resolve {env : Env} {x : ScheduledItem} {d : LoadDeps} (hd : x.depends = .load d)
    (hp : d.pendingTable ≠ []) :
    ({ x with tableId := env.fileTableName d.filePath } : ScheduledItem).targets env ⊆
      x.targets env := by
  intro t ht
  simp only [ScheduledItem.targets, hd, if_pos hp, List.mem_cons] at ht ⊢
  exact .inr (ht.elim .inl id)

namespace Stage

variable {env : Env} {lossy : Prop} {s s' : Stage}

/-- The scheduler holds a LOAD. -/
def HoldsLoad (s : Stage) (x : ScheduledItem) : Prop :=
  x.type = .load ∧ (x ∈ s.queue.loadQueue ∨
    (∃ type key, x ∈ s.queue.depManager.waitingOn type key) ∨ x ∈ s.transit)

/-- A LOAD that is held after a move was held before it. -/
theorem holdsLoad_move (hplaced : s.Placed) (hm : Move env lossy s s') {x' : ScheduledItem}
    (h : s'.HoldsLoad x') :
    ∃ x, s.HoldsLoad x ∧ x.seq = x'.seq ∧ x'.targets env ⊆ x.targets env := by
  obtain ⟨hty, hx⟩ := h
  have hsame : (x' ∈ s.queue.loadQueue ∨
      (∃ type key, x' ∈ s.queue.depManager.waitingOn type key) ∨ x' ∈ s.transit) →
      ∃ x, s.HoldsLoad x ∧ x.seq = x'.seq ∧ x'.targets env ⊆ x.targets env :=
    fun hx => ⟨x', ⟨hty, hx⟩, rfl, List.Subset.refl _⟩
  cases hm with
  | takeLoad front rest hq hb hbar =>
      refine hsame ?_
      obtain hx | hx | hx := hx
      · exact .inl (hq ▸ List.mem_cons_of_mem _ hx)
      · exact .inr (.inl hx)
      · obtain rfl | hx := List.mem_cons.mp hx
        · exact .inl (hq ▸ List.mem_cons_self)
        · exact .inr (.inr hx)
  | loseLoad x rest hl htr =>
      exact hsame (hx.imp id (.imp id fun hx => htr ▸ List.mem_cons_of_mem _ hx))
  | park x rest type key htr hw =>
      refine hsame ?_
      obtain hx | ⟨type', key', hx⟩ | hx := hx
      · exact .inl hx
      · obtain hx | ⟨rfl, _⟩ := (s.queue.depManager.mem_waitingOn_addWait ..).mp hx
        · exact .inr (.inl ⟨type', key', hx⟩)
        · exact .inr (.inr (htr ▸ List.mem_cons_self))
      · exact .inr (.inr (htr ▸ List.mem_cons_of_mem _ hx))
  | parkTable t g head rest type key hc hp hq hb hw =>
      refine hsame ?_
      obtain hx | ⟨type', key', hx⟩ | hx := hx
      · exact .inl hx
      · obtain hx | ⟨rfl, _⟩ := (s.queue.depManager.mem_waitingOn_addWait ..).mp hx
        · exact .inr (.inl ⟨type', key', hx⟩)
        · have hqueued := (hplaced.queued t x' (hq ▸ List.mem_cons_self)).1
          rw [hty] at hqueued
          contradiction
      · exact .inr (.inr hx)
  | handLoad x rest d task hc htr hd hr hb =>
      exact hsame (hx.imp id (.imp id fun hx => htr ▸ List.mem_cons_of_mem _ hx))
  | handBarrier barrier rest task hc hq hrun hheap hl hb =>
      obtain ⟨g, hrel, _⟩ := ((s.queue.popBarrier barrier rest).countFetch).release_eq env
      simp only [hrel] at hx
      exact hsame hx
  | register c t hc ht =>
      obtain ⟨tables, g, hreg, _⟩ :=
        s.queue.registerTableQueue_eq env t (TaskQueue.placeholder c)
      simp only [hreg] at hx
      exact hsame hx
  | advance c type key popped rest hc hk hle hp =>
      obtain ⟨hpop, hrest⟩ := TaskQueue.mem_waitingOn_advance hp
      refine hsame (hx.imp id ?_)
      rintro (⟨type', key', hx⟩ | hx)
      · exact .inl ⟨type', key', hrest type' key' x' hx⟩
      · exact (List.mem_append.mp hx).elim .inr fun hx => .inl ⟨type, key, hpop x' hx⟩
  | requeue x rest htr hty' =>
      exact hsame (hx.imp id (.imp id fun hx => htr ▸ List.mem_cons_of_mem _ hx))
  | resolveLoad x rest d htr hty' hd hp =>
      have hsub : rest ⊆ s.transit := htr ▸ List.subset_cons_self _ _
      obtain hx | hx | hx := hx
      · exact hsame (.inl hx)
      · exact hsame (.inr (.inl hx))
      · obtain rfl | hx := List.mem_cons.mp hx
        · exact ⟨x, ⟨hty', .inr (.inr (htr ▸ List.mem_cons_self))⟩, rfl, targets_resolve hd hp⟩
        · exact hsame (.inr (.inr (hsub hx)))
  | requeueLoad x rest htr hty' =>
      refine hsame ?_
      obtain hx | hx | hx := hx
      · obtain rfl | hx := List.mem_cons.mp hx
        · exact .inr (.inr (htr ▸ List.mem_cons_self))
        · exact .inl hx
      · exact .inr (.inl hx)
      · exact .inr (.inr (htr ▸ List.mem_cons_of_mem _ hx))
  | reindex c t hc ht =>
      obtain ⟨g, hup, _⟩ := s.queue.upsertHead_eq env t
      simp only [hup] at hx
      exact hsame hx
  | _ => exact hsame hx

/-- What a move does to the registration of a table. -/
theorem registration_move (hm : Move env lossy s s') (t : String) :
    s'.queue.registration t = s.queue.registration t ∨
    (∃ c, s.completing = some c ∧ t ∈ c.registers ∧ s.queue.registration t = none ∧
      s'.queue.registration t = some c.seq ∧
      (s.queue.queueOf t = [] ∨ t ∈ s'.queue.globalIndex.entered)) ∨
    (∃ c, s.completing = some c ∧ c.type = .drop ∧ s'.queue.registration t = none) := by
  cases hm with
  | parkTable t' g head rest type key hc hp hq hb hw =>
      left
      show ((s.queue.setIndex g).setQueue t' _).registration t = _
      rw [TaskQueue.registration_setQueue]
      rfl
  | handTable t' g head rest task hc hp hq hb hr hbuild =>
      left
      show ((s.queue.setIndex g).setQueue t' rest).registration t = _
      rw [TaskQueue.registration_setQueue]
      rfl
  | handBarrier barrier rest task hc hq hrun hheap hl hb =>
      left
      rw [TaskQueue.registration_release]
      rfl
  | register c t' hc ht =>
      obtain ⟨tables, g, hentry, _, _, _, hindex⟩ :=
        s.queue.registerTableQueue_eq env t' (TaskQueue.placeholder c)
      rw [TaskQueue.registration_registerTableQueue]
      split
      · next heq =>
          subst heq
          cases hreg : s.queue.registration t with
          | none =>
              refine .inr (.inl ⟨c, hc, ht, rfl, rfl, ?_⟩)
              obtain ⟨⟨tbl, htbl, hr⟩ | hnil, _⟩ | ⟨_, _, hentered⟩ := hindex
              · simp [TaskQueue.registration, htbl, hr] at hreg
              · exact .inl hnil
              · rw [hentry]
                exact .inr (hentered ▸ Set.mem_insert t _)
          | some n => exact .inl rfl
      · exact .inl rfl
  | unregister c tbl hc hty htbl =>
      rw [TaskQueue.registration_unregister]
      split
      · exact .inr (.inr ⟨c, hc, hty, rfl⟩)
      · exact .inl rfl
  | requeue x rest htr hty =>
      left
      show (s.queue.setQueue x.tableId _).registration t = _
      rw [TaskQueue.registration_setQueue]
  | reindex c t' hc ht =>
      left
      rw [TaskQueue.registration_upsertHead]
  | _ => exact .inl rfl

/-- No held LOAD may be handed out for a table with a larger registration. -/
structure LoadsInOrder (env : Env) (s : Stage) : Prop where
  placed : s.Placed
  inOrder : ∀ x, s.HoldsLoad x → ∀ t ∈ x.targets env, ∀ n, s.queue.registration t = some n →
    n ≤ x.seq
  completing : ∀ c, s.completing = some c → ∀ t ∈ c.registers, c.type ≠ .drop ∧
    (s.queue.registration t = none → ∀ x, s.HoldsLoad x → t ∈ x.targets env → c.seq ≤ x.seq)
  actions : ∀ task ∈ s.inFlight, task.onCompleted.type = .drop → task.onCompleted.registers = []

/-- Every move keeps the LOADs in front of the registrations of their tables. -/
theorem loadsInOrder_move (h : s.LoadsInOrder env) (hm : Move env lossy s s') :
    s'.LoadsInOrder env := by
  have hcarry := carries_move (f := ScheduledItem.seq) (fun _ _ => rfl) (fun _ _ _ _ _ _ => rfl) hm
  have hc := completing_move hm
  constructor
  · exact placed_move h.placed hm
  · intro x' hx' t ht n hn
    obtain ⟨x, hx, hseq, htargets⟩ := holdsLoad_move h.placed hm hx'
    rw [← hseq]
    obtain hsame | ⟨c, hcs, hreg, hnone, hsome, _⟩ | ⟨c, hcs, hty, hnone⟩ := registration_move hm t
    · exact h.inOrder x hx t (htargets ht) n (hsame.symm.trans hn)
    · obtain rfl := Option.some.inj (hsome.symm.trans hn)
      exact (h.completing c hcs t hreg).2 hnone x hx (htargets ht)
    · rw [hnone] at hn
      contradiction
  · intro c hcs t hreg
    rw [hc] at hcs
    obtain ⟨hdrop, hearlier⟩ := h.completing c hcs t hreg
    refine ⟨hdrop, fun hnone x' hx' ht => ?_⟩
    obtain ⟨x, hx, hseq, htargets⟩ := holdsLoad_move h.placed hm hx'
    rw [← hseq]
    obtain hsame | ⟨c', _, _, _, hsome, _⟩ | ⟨c', hcs', hty, _⟩ := registration_move hm t
    · exact hearlier (hsame.symm.trans hnone) x hx (htargets ht)
    · rw [hsome] at hnone
      contradiction
    · rw [Option.some.inj (hcs.symm.trans hcs')] at hdrop
      contradiction
  · intro task htask hty
    obtain ⟨_, hf, _⟩ | ⟨q, x, new, hb, _, hf, _⟩ := hcarry
    · exact h.actions task (hf ▸ htask) hty
    · rw [hf] at htask
      obtain htask | htask := List.mem_append.mp htask
      · exact h.actions task htask hty
      · rw [List.mem_singleton.mp htask] at hty ⊢
        exact hb.registers_of_drop hty

end Stage

/-! ## a fetch without exceptions -/

namespace TaskQueue

/-- The judgement of a LOAD with its payload raises no exception. -/
theorem judgeLoadDeps_ok (q : TaskQueue) {x : ScheduledItem} (hty : x.type = .load)
    (hm : x.Matches) : ∃ parked, q.judgeLoadDeps x = .ok parked := by
  unfold ScheduledItem.Matches at hm
  unfold judgeLoadDeps
  cases hd : x.depends with
  | load d =>
      dsimp only [DependencyPayload.getLoad, bind, Except.bind]
      split
      · exact ⟨_, rfl⟩
      · split <;> exact ⟨_, rfl⟩
  | _ => simp [hty, hd, DependencyPayload.matchesType] at hm

/-- The judgement of a table task with its payload raises no exception. -/
theorem judgeNormalDeps_ok (q : TaskQueue) {x : ScheduledItem} (t : String) (hm : x.Matches) :
    ∃ parked, q.judgeNormalDeps x t = .ok parked := by
  unfold ScheduledItem.Matches at hm
  unfold judgeNormalDeps
  cases hty : x.type with
  | dump =>
      cases hd : x.depends with
      | dump d =>
          dsimp only [DependencyPayload.getDump, bind, Except.bind]
          split
          · exact ⟨_, rfl⟩
          · split <;> exact ⟨_, rfl⟩
      | _ => simp [hty, hd, DependencyPayload.matchesType] at hm
  | drop =>
      cases hd : x.depends with
      | drop d =>
          dsimp only [DependencyPayload.getDrop, bind, Except.bind]
          split <;> exact ⟨_, rfl⟩
      | _ => simp [hty, hd, DependencyPayload.matchesType] at hm
  | copyTable =>
      cases hd : x.depends with
      | copyTable d =>
          dsimp only [DependencyPayload.getCopyTable, bind, Except.bind]
          split
          · exact ⟨_, rfl⟩
          · split <;> exact ⟨_, rfl⟩
      | _ => simp [hty, hd, DependencyPayload.matchesType] at hm
  | _ => exact ⟨_, rfl⟩

theorem buildExecutableFromScheduled_ok {q : TaskQueue} {x : ScheduledItem}
    (h : ∃ actions, q.classifyActions x = .ok actions) :
    ∃ task, q.buildExecutableFromScheduled x = .ok task := by
  obtain ⟨actions, h⟩ := h
  unfold buildExecutableFromScheduled
  rw [h]
  exact ⟨_, rfl⟩

/-- A round ends without an exception. -/
def Round.Ok : Round → Prop
  | .inl _ => True
  | .inr r => ∃ p, r = .ok p

/-- A LOAD round raises no exception, if its LOAD is in order. -/
theorem fetchLoad_ok {q : TaskQueue} {x : ScheduledItem} (hty : x.type = .load) (hfit : x.Fits)
    (h : ∀ n, q.registration x.tableId = some n → n ≤ x.seq) : (q.fetchLoad x).Ok := by
  obtain ⟨parked, hj⟩ := q.judgeLoadDeps_ok hty hfit.matches
  obtain ⟨task, hb⟩ := buildExecutableFromScheduled_ok (classifyActions_load hty h)
  unfold fetchLoad
  rw [hj]
  cases parked with
  | some q' => exact trivial
  | none =>
      dsimp only [bind, Except.bind]
      rw [hb]
      exact ⟨_, rfl⟩

/-- A table round raises no exception. -/
theorem fetchTable_ok {q : TaskQueue} {x : ScheduledItem} (t : String) (hty : x.type ≠ .load)
    (hfit : x.Fits) : (q.fetchTable x t).Ok := by
  obtain ⟨parked, hj⟩ := q.judgeNormalDeps_ok t hfit.matches
  obtain ⟨task, hb⟩ := buildExecutableFromScheduled_ok (q.classifyActions_of_ne_load hty)
  unfold fetchTable
  rw [hj]
  cases parked with
  | some q' => exact trivial
  | none =>
      dsimp only [bind, Except.bind]
      rw [hb]
      exact ⟨_, rfl⟩

/-- The barriers raise no exception. -/
theorem fetchBarrier_ok (env : Env) {q : TaskQueue} (h : ∀ x ∈ q.barriers, x.type ≠ .load) :
    ∃ p, q.fetchBarrier env = .ok p := by
  unfold fetchBarrier
  split
  · exact ⟨_, rfl⟩
  · next barrier rest hbar =>
      split
      · exact ⟨_, rfl⟩
      · obtain ⟨task, hb⟩ := buildExecutableFromScheduled_ok
          ((q.popBarrier barrier rest).classifyActions_of_ne_load
            (h barrier (hbar ▸ List.mem_cons_self)))
        have hb : ({ q with
            barriers := rest
            quitFlag := q.quitFlag || decide (barrier.type = .quit) } :
              TaskQueue).buildExecutableFromScheduled barrier = .ok task := hb
        dsimp only [bind, Except.bind]
        rw [hb]
        exact ⟨_, rfl⟩

/-- Where the candidates of a round come from. -/
theorem getFetched_frame (env : Env) (q : TaskQueue) :
    (∀ x, (q.getFetched env).1 = some x → x ∈ q.loadQueue) ∧
    (∀ x t, (q.getFetched env).2.1 = some (x, t) → x ∈ q.queueOf t) ∧
    (q.getFetched env).2.2.tables = q.tables ∧ (q.getFetched env).2.2.barriers = q.barriers := by
  obtain ⟨moved, hpick⟩ := pickTable_spec env q.takeLoad.2
  have htake : (∀ x, q.takeLoad.1 = some x → x ∈ q.loadQueue) ∧
      q.takeLoad.2.tables = q.tables ∧ q.takeLoad.2.barriers = q.barriers := by
    obtain ⟨h, _⟩ | ⟨_, _, _, _, h⟩ | ⟨front, rest, hq, _, _, h⟩ := q.takeLoad_cases
    · exact ⟨by simp [h], by simp [h], by simp [h]⟩
    · exact ⟨by simp [h], by simp [h], by simp [h]⟩
    · exact ⟨by simp [h, hq], by simp [h], by simp [h]⟩
  refine ⟨htake.1, fun x t hx => ?_, ?_, ?_⟩
  · obtain ⟨⟨rest, hq⟩, _⟩ := hpick.head x t hx
    have hq : q.queueOf t = x :: rest := by
      rw [← hq, queueOf, queueOf, htake.2.1]
    exact hq ▸ List.mem_cons_self
  · show ((pickTable env).run q.takeLoad.2).2.tables = q.tables
    rw [hpick.frame]
    exact htake.2.1
  · show ((pickTable env).run q.takeLoad.2).2.barriers = q.barriers
    rw [hpick.frame]
    exact htake.2.2

end TaskQueue

namespace Stage.LoadsInOrder

variable {env : Env} {s : Stage}

/-- A round raises no exception while the LOADs are in order. -/
theorem fetchRound_ok (h : s.LoadsInOrder env) : (s.queue.fetchRound env).Ok := by
  obtain ⟨hload, htable, htables, hbarriers⟩ := s.queue.getFetched_frame env
  have hloadOk : ∀ {q : TaskQueue}, q.tables = s.queue.tables → ∀ x ∈ s.queue.loadQueue,
      (q.fetchLoad x).Ok := by
    intro q hq x hx
    have hty := h.placed.loads x hx
    have hfit := h.placed.fits_of_stored (TaskQueue.mem_stored_of_loadQueue hx)
    refine TaskQueue.fetchLoad_ok hty hfit fun n hn => ?_
    rw [TaskQueue.registration, hq] at hn
    exact h.inOrder x ⟨hty, .inl hx⟩ x.tableId List.mem_cons_self n hn
  have htableOk : ∀ (q : TaskQueue) (t : String), ∀ x ∈ s.queue.queueOf t,
      (q.fetchTable x t).Ok := by
    intro q t x hx
    refine TaskQueue.fetchTable_ok t (fun hty => ?_) (h.placed.fits_of_queueOf hx)
    have hqueued := (h.placed.queued t x hx).1
    rw [hty] at hqueued
    contradiction
  unfold TaskQueue.fetchRound
  split
  · next q hf =>
      rw [hf] at hbarriers
      refine TaskQueue.fetchBarrier_ok env fun x hx hty => ?_
      have hbarrier := h.placed.barriers x (hbarriers ▸ hx)
      rw [hty] at hbarrier
      contradiction
  · next x q hf =>
      rw [hf] at hload htables
      exact hloadOk htables x (hload x rfl)
  · next x t q hf =>
      rw [hf] at htable
      exact htableOk q t x (htable x t rfl)
  · next y x t q hf =>
      rw [hf] at hload htable htables
      split
      · exact hloadOk htables y (hload y rfl)
      · exact htableOk _ t x (htable x t rfl)

/-- A fetch raises no exception. -/
theorem fetchNext_ok (h : s.LoadsInOrder env) (hc : s.completing = none) :
    ∃ p, s.queue.fetchNext env = .ok p := by
  have hloop := (TaskQueue.fetchLoop env).run_induction
    (P := fun q r => ∀ s : Stage, s.queue = q → s.completing = none → s.LoadsInOrder env →
      ∃ p, r = .ok p) ?_ ?_ s.queue
  · unfold TaskQueue.fetchNext
    split
    · exact hloop s rfl hc h
    · exact ⟨_, rfl⟩
  · intro q r hb s hs _ h
    subst hs
    have hok := h.fetchRound_ok
    rw [show s.queue.fetchRound env = .inr r from hb] at hok
    exact hok
  · intro q q' r hb ih s hs hc h
    subst hs
    have hround := @moves_fetchRound env True s hc fun _ => trivial
    rw [show s.queue.fetchRound env = .inl q' from hb] at hround
    exact ih (s.withQueue q') rfl hc (moves_preserve loadsInOrder_move hround h)

end Stage.LoadsInOrder

/-! ## runs -/

/-- The step registers no table for which the scheduler still holds an earlier
LOAD: when a task completes that registers a table, and the table is not
registered then, no LOAD with a smaller sequence number may still be handed out
for it. -/
def RegistersInOrder (env : Env) (r : RunState) (a : RunAction) : Prop :=
  ∀ task ∈ r.completes a, ∀ t ∈ task.onCompleted.registers, r.queue.registration t = none →
    ∀ x ∈ r.queue.stored, x.type = .load → t ∈ x.targets env → task.onCompleted.seq ≤ x.seq

instance (env : Env) (r : RunState) (a : RunAction) : Decidable (RegistersInOrder env r a) :=
  inferInstanceAs (Decidable (∀ task ∈ r.completes a, _))

/-- A step keeps the LOADs in order, if a completion registers in order. -/
theorem loadsInOrder_step {env : Env} {r r' : RunState} {a : RunAction}
    (h : r.stage.LoadsInOrder env) (hg : RegistersInOrder env r a)
    (hs : (scheduler env).step r a = some r') : r'.stage.LoadsInOrder env := by
  cases a with
  | fetch =>
      have hms : Moves env True r.stage r'.stage := moves_fetch hs fun hn => absurd trivial hn
      exact moves_preserve Stage.loadsInOrder_move hms h
  | complete k =>
      obtain ⟨task, q, hk, _, hms, hr'⟩ := @moves_complete _ True _ _ _ hs
      have hbegin : (r.stage.begin k task).LoadsInOrder env := by
        refine { h with
          placed := (Stage.placed_preserved env True).begin h.placed rfl hk
          completing := fun c hc t ht => ?_
          actions := fun task ht => h.actions task (List.mem_of_mem_eraseIdx ht) }
        obtain rfl := Option.some.inj hc
        refine ⟨fun hty => ?_, fun hnone x hx htarget => ?_⟩
        · rw [h.actions task (List.mem_of_getElem? hk) hty] at ht
          contradiction
        · obtain ⟨hty, hx⟩ := hx
          refine hg task hk t ht hnone x ((r.queue.mem_stored x).mpr ?_) hty htarget
          obtain hx | hx | hx := hx
          · exact .inl hx
          · exact .inr (.inr (.inr hx))
          · contradiction
      have hend := moves_preserve Stage.loadsInOrder_move hms hbegin
      rw [hr']
      exact { hend with
        placed := (Stage.placed_preserved env True).finish hend.placed rfl
        completing := fun c hc => by contradiction }

/-- No table is registered when a run starts. -/
theorem registration_start (env : Env) (tasks : List ParsedQuery) (t : String) :
    (RunState.start env tasks).queue.registration t = none := by
  have hreg := TaskQueue.registered_registerAll env tasks
  show (TaskQueue.registerAll env tasks).registration t = none
  unfold TaskQueue.registration
  cases htbl : (TaskQueue.registerAll env tasks).tables.get? t with
  | none => rfl
  | some tbl => simp [hreg.unregistered t tbl htbl]

theorem loadsInOrder_start (env : Env) (tasks : List ParsedQuery) :
    (RunState.start env tasks).stage.LoadsInOrder env := by
  refine ⟨placed_start env tasks, fun x _ t _ n hn => ?_, fun c hc => by contradiction,
    fun task ht => by contradiction⟩
  exact absurd ((registration_start env tasks t).symm.trans hn) (by simp)

/-- **A fetch never throws**, in the runs in which no completion registers a table
while an earlier LOAD of it is held. -/
theorem fetchNext_never_throws (env : Env) (queries : List Query) {r : RunState}
    (run : (scheduler env).Runs (RegistersInOrder env) (.start env (submitAll queries)) r) :
    ∃ p, r.queue.fetchNext env = .ok p := by
  have hr : r.stage.LoadsInOrder env := run.invariant (I := fun r => r.stage.LoadsInOrder env)
    (loadsInOrder_start env _)
    fun r a r' h hg hs => loadsInOrder_step h hg hs
  exact hr.fetchNext_ok rfl

/-- Two LOADs of a table, the second of which waits for the first one. -/
theorem fetchNext_never_throws_load : ∃ r, (scheduler (.binaryHeap id)).Runs
    (RegistersInOrder (.binaryHeap id))
    (.start (.binaryHeap id) (submitAll [.load "T" "f", .load "T" "g"])) r ∧
    r.queue.registration "T" = some 1 ∧ r.queue.loadQueue.map (·.seq) = [2] ∧
    ∃ p, r.queue.fetchNext (.binaryHeap id) = .ok p := by
  obtain ⟨r, run, hreg, hload⟩ := (scheduler (.binaryHeap id)).exists_of_execute
    (RegistersInOrder (.binaryHeap id))
    (fun r => r.queue.registration "T" = some 1 ∧ r.queue.loadQueue.map (·.seq) = [2])
    (.start (.binaryHeap id) (submitAll [.load "T" "f", .load "T" "g"]))
    [.fetch, .fetch, .complete 0] (by decide +kernel)
  exact ⟨r, run, hreg, hload, fetchNext_never_throws (.binaryHeap id) _ run⟩

/-- The files of the tables `T`, `U` and `V`. -/
def tableFiles : FiniteMap String TextStream.Text :=
  (((∅ : FiniteMap String TextStream.Text).set "t" "T 1\nKEY a\nx 1\n".toList).set
    "u" "U 1\nKEY a\nx 1\n".toList).set "v" "V 1\nKEY a\nx 1\n".toList

/-- Two tables are dumped to one file, which is loaded in between. -/
def dumpedTwice : Option QueryCollection :=
  QueryCollection.collectQueriesFromStream tableFiles
    { inputStream :=
        "LOAD t;LOAD v;DROP V;DUMP T g;LOAD g;LOAD u;DUMP U g;".toList
      parser := .main }

theorem isSome_dumpedTwice : dumpedTwice.isSome = true := by decide +kernel

/-- The environment of a run after this parse. -/
def dumpedTwiceEnv : Env := .binaryHeap fun fileName =>
  (Database.getFileTableName tableFiles (dumpedTwice.get isSome_dumpedTwice).fileTableNameMap
    fileName).1

/-- When `DUMP T g` is completed, `LOAD g` (5) is resolved to `U`, which was
registered by `LOAD u` (6): the next fetch throws. -/
theorem not_fetchNext_never_throws : ¬ ∀ (files : FiniteMap String TextStream.Text)
    (text : TextStream.Text) (c : QueryCollection) (env : Env),
    QueryCollection.collectQueriesFromStream files { inputStream := text, parser := .main } =
      some c →
    (∀ fileName, env.fileTableName fileName =
      (Database.getFileTableName files c.fileTableNameMap fileName).1) →
    ∀ r, (scheduler env).Reachable (.start env (submitAll c.allQueries)) r →
      ∃ p, r.queue.fetchNext env = .ok p := by
  intro h
  obtain ⟨r, run, hthrows⟩ := (scheduler dumpedTwiceEnv).exists_of_execute (fun _ _ => True)
    (fun r => r.queue.fetchNext dumpedTwiceEnv matches .error (.invalidArgument
      "Wrongly execute a later Load 6 before an earlier Load 5"))
    (.start dumpedTwiceEnv (submitAll (dumpedTwice.get isSome_dumpedTwice).allQueries))
    [.fetch, .fetch, .fetch, .complete 0, .fetch, .complete 1, .complete 1] (by decide +kernel)
  obtain ⟨p, hp⟩ := h tableFiles _ _ dumpedTwiceEnv (Option.some_get isSome_dumpedTwice).symm
    (fun _ => rfl) r run
  rw [hp] at hthrows
  contradiction

end LemonDB
