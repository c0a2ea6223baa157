import LemonDB.Scheduler.Completions

/-!
# LemonDB.Scheduler.Barriers

Nothing overtakes a barrier, and a barrier releases what it held.

The first pending barrier has the smallest sequence number of all pending ones,
so a candidate that is not behind it is behind none (`le_of_not_behindBarrier`).
A barrier is handed out when `running` is 0; `running` counts at least the tasks
whose completion has not begun or not ended, in whatever order the two steps of
a completion and the fetches come.
-/

namespace LemonDB

/-- A task in front of the first barrier is in front of all of them. -/
theorem TaskQueue.le_of_not_behindBarrier {q : TaskQueue}
    (hsorted : q.barriers.Pairwise fun a b => a.seq < b.seq) {n : Nat}
    (h : q.behindBarrier n = false) : ∀ b ∈ q.barriers, n ≤ b.seq := by
  unfold TaskQueue.behindBarrier at h
  split at h
  · next hnil =>
      rw [hnil]
      exact fun _ hb => absurd hb List.not_mem_nil
  · next first rest hbar =>
      rw [hbar, List.pairwise_cons] at hsorted
      have hfirst : n ≤ first.seq := by simpa using h
      rw [hbar]
      intro b hb
      obtain rfl | hb := List.mem_cons.mp hb
      · exact hfirst
      · exact Nat.le_trans hfirst (Nat.le_of_lt (hsorted.1 b hb))

theorem TaskQueue.barriers_ne_nil {q : TaskQueue} {n : Nat} (h : q.behindBarrier n = true) :
    q.barriers ≠ [] := by
  intro hnil
  simp [TaskQueue.behindBarrier, hnil] at h

namespace Stage

/-- The barriers are pending in order, nothing has overtaken one, and they hold
something back only as long as there is one. -/
structure Barred (items : List ScheduledItem) (n : Nat) (s : Stage) : Prop where
  placed : s.Placed
  sorted : s.queue.barriers.Pairwise fun a b => a.seq < b.seq
  passed : ∀ task ∈ s.handedOut, ∀ b ∈ s.queue.barriers, task.seq ≤ b.seq
  transit : s.completing = none → ∀ x ∈ s.transit, ∀ b ∈ s.queue.barriers, x.seq ≤ b.seq
  known : ∀ x ∈ items, x.type.isBarrier = true →
    x ∈ s.queue.barriers ∨ ∃ task ∈ s.handedOut, task.seq = x.seq
  running : s.queue.running = s.inFlight.length + s.completing.toList.length + n
  released : s.queue.barriers = [] → s.queue.waitingTables = [] ∧ s.queue.loadBlocked = false

variable {env : Env} {lossy : Prop} {items : List ScheduledItem} {n : Nat} {s s' : Stage}

/-- A move that leaves the barriers, what they hold back, and the tasks that
were handed out. -/
theorem Barred.keep (h : s.Barred items n) (hplaced : s'.Placed)
    (hbar : s'.queue.barriers = s.queue.barriers) (hout : s'.handedOut = s.handedOut)
    (hflight : s'.inFlight = s.inFlight) (hc : s'.completing = s.completing)
    (hrun : s'.queue.running = s.queue.running)
    (htables : s'.queue.waitingTables = s.queue.waitingTables)
    (hblocked : s'.queue.loadBlocked = s.queue.loadBlocked)
    (htransit : s.completing = none → ∀ x ∈ s'.transit, x ∈ s.transit) : s'.Barred items n where
  placed := hplaced
  sorted := hbar ▸ h.sorted
  passed := by
    rw [hbar, hout]
    exact h.passed
  transit hnone x hx := by
    rw [hbar]
    rw [hc] at hnone
    exact h.transit hnone x (htransit hnone x hx)
  known := by
    rw [hbar, hout]
    exact h.known
  running := by
    rw [hrun, hflight, hc]
    exact h.running
  released := by
    rw [hbar, htables, hblocked]
    exact h.released

/-- A task is handed out that is in front of all barriers. -/
theorem Barred.hand (h : s.Barred items n) (hplaced : s'.Placed) {task : ExecutableTask}
    (hbar : s'.queue.barriers = s.queue.barriers) (hout : s'.handedOut = s.handedOut ++ [task])
    (hflight : s'.inFlight = s.inFlight ++ [task]) (hc : s'.completing = s.completing)
    (hrun : s'.queue.running = s.queue.running + 1)
    (htables : s'.queue.waitingTables = s.queue.waitingTables)
    (hblocked : s'.queue.loadBlocked = s.queue.loadBlocked)
    (htransit : ∀ x ∈ s'.transit, x ∈ s.transit)
    (hfront : ∀ b ∈ s.queue.barriers, task.seq ≤ b.seq) : s'.Barred items n where
  placed := hplaced
  sorted := hbar ▸ h.sorted
  passed t ht b hb := by
    rw [hbar] at hb
    rw [hout] at ht
    obtain ht | ht := List.mem_append.mp ht
    · exact h.passed t ht b hb
    · rw [List.mem_singleton.mp ht]
      exact hfront b hb
  transit hnone x hx := by
    rw [hbar]
    rw [hc] at hnone
    exact h.transit hnone x (htransit x hx)
  known x hx hbarrier := by
    rw [hbar, hout]
    refine (h.known x hx hbarrier).imp id ?_
    intro ⟨t, ht, hseq⟩
    exact ⟨t, List.mem_append_left _ ht, hseq⟩
  running := by
    rw [hrun, hflight, hc, h.running, List.length_append, List.length_singleton]
    omega
  released := by
    rw [hbar, htables, hblocked]
    exact h.released

theorem barred_move (h : s.Barred items n) (hm : Move env lossy s s') : s'.Barred items n := by
  have hplaced := placed_move h.placed hm
  cases hm with
  | blockLoad front rest hq hb =>
      exact { h with
        placed := hplaced
        released := fun hnil => absurd hnil (TaskQueue.barriers_ne_nil hb) }
  | takeLoad front rest hq hblocked hb =>
      refine { h with placed := hplaced, transit := fun hnone x hx => ?_ }
      obtain rfl | hx := List.mem_cons.mp hx
      · exact TaskQueue.le_of_not_behindBarrier h.sorted hb
      · exact h.transit hnone x hx
  | blockTable t g head rest hc hp hq hb =>
      exact { h with
        placed := hplaced
        released := fun hnil => absurd hnil (TaskQueue.barriers_ne_nil hb) }
  | loseLoad x rest hl htr =>
      refine h.keep hplaced rfl rfl rfl rfl rfl rfl rfl fun _ y hy => ?_
      rw [htr]
      exact List.mem_cons_of_mem _ hy
  | park x rest type key htr hw =>
      refine h.keep hplaced rfl rfl rfl rfl rfl rfl rfl fun _ y hy => ?_
      rw [htr]
      exact List.mem_cons_of_mem _ hy
  | handLoad x rest d task hc htr hd hr hb =>
      refine h.hand hplaced rfl rfl rfl rfl rfl rfl rfl (fun y hy => ?_) ?_
      · rw [htr]
        exact List.mem_cons_of_mem _ hy
      · rw [(TaskQueue.built_of_ok hb).seq]
        exact h.transit hc x (htr ▸ List.mem_cons_self)
  | handTable t g head rest task hc hp hq hb hr hbuild =>
      refine h.hand hplaced rfl rfl rfl rfl rfl rfl rfl (fun _ hy => hy) ?_
      rw [(TaskQueue.built_of_ok hbuild).seq]
      exact TaskQueue.le_of_not_behindBarrier h.sorted hb
  | handBarrier barrier rest task hc hq hrun hheap hl hb =>
      obtain ⟨g, hrel, _⟩ := ((s.queue.popBarrier barrier rest).countFetch).release_eq env
      have hsorted := h.sorted
      rw [hq, List.pairwise_cons] at hsorted
      have hseq := (TaskQueue.built_of_ok hb).seq
      have hrest : ∀ b ∈ rest, b ∈ s.queue.barriers := by
        rw [hq]
        exact fun b hb => List.mem_cons_of_mem _ hb
      simp only [hrel] at hplaced ⊢
      refine ⟨hplaced, hsorted.2, fun t ht b hb => ?_, fun hnone x hx b hb => ?_,
        fun x hx hbarrier => ?_, ?_, fun _ => ⟨rfl, rfl⟩⟩
      · obtain ht | ht := List.mem_append.mp ht
        · exact h.passed t ht b (hrest b hb)
        · rw [List.mem_singleton.mp ht, hseq]
          exact Nat.le_of_lt (hsorted.1 b hb)
      · exact h.transit hnone x hx b (hrest b hb)
      · obtain hpending | ⟨t, ht, htseq⟩ := h.known x hx hbarrier
        · rw [hq] at hpending
          obtain rfl | hpending := List.mem_cons.mp hpending
          · exact .inr ⟨task, List.mem_append_right _ List.mem_cons_self, hseq⟩
          · exact .inl hpending
        · exact .inr ⟨t, List.mem_append_left _ ht, htseq⟩
      · show s.queue.running + 1 =
          (s.inFlight ++ [task]).length + s.completing.toList.length + n
        rw [h.running, List.length_append, List.length_singleton]
        omega
  | register c t hc ht =>
      obtain ⟨tables, g, hreg, _⟩ :=
        s.queue.registerTableQueue_eq env t (TaskQueue.placeholder c)
      simp only [hreg] at hplaced ⊢
      exact h.keep hplaced rfl rfl rfl rfl rfl rfl rfl fun _ _ hy => hy
  | advance c type key popped rest hc hk hle hp =>
      refine h.keep hplaced rfl rfl rfl rfl rfl rfl rfl fun hnone => ?_
      rw [hc] at hnone
      contradiction
  | requeue x rest htr hty =>
      refine h.keep hplaced rfl rfl rfl rfl rfl rfl rfl fun _ y hy => ?_
      rw [htr]
      exact List.mem_cons_of_mem _ hy
  | resolveLoad x rest d htr hty hd hp =>
      refine { h with placed := hplaced, transit := fun hnone y hy => ?_ }
      have htransit := h.transit hnone
      rw [htr] at htransit
      obtain rfl | hy := List.mem_cons.mp hy
      · exact htransit x List.mem_cons_self
      · exact htransit y (List.mem_cons_of_mem _ hy)
  | requeueLoad x rest htr hty =>
      refine h.keep hplaced rfl rfl rfl rfl rfl rfl rfl fun _ y hy => ?_
      rw [htr]
      exact List.mem_cons_of_mem _ hy
  | reindex c t hc ht =>
      obtain ⟨g, hup, _⟩ := s.queue.upsertHead_eq env t
      simp only [hup] at hplaced ⊢
      exact h.keep hplaced rfl rfl rfl rfl rfl rfl rfl fun _ _ hy => hy
  | _ => exact h.keep hplaced rfl rfl rfl rfl rfl rfl rfl fun _ _ hy => hy

theorem barred_preserved (env : Env) (items : List ScheduledItem) :
    SplitPreserved env (Barred items) where
  move := barred_move
  begin {n s k task} h hc hk := by
    obtain ⟨hlt, _⟩ := List.getElem?_eq_some_iff.mp hk
    have hlen := List.length_eraseIdx_add_one hlt
    have hrun := h.running
    rw [hc] at hrun
    refine { h with
      placed := (placed_preserved env True).begin h.placed hc hk
      transit := fun hnone => by contradiction
      running := ?_ }
    show s.queue.running = (s.inFlight.eraseIdx k).length + 1 + n
    simp only [Option.toList_none, List.length_nil] at hrun
    omega
  settle {n s c} h hc htr := by
    have hplaced := (placed_preserved env True).finish h.placed hc
    have hrun := h.running
    rw [hc] at hrun
    refine { h with
      placed := { hplaced with }
      transit := fun _ x hx => ?_
      running := ?_ }
    · change x ∈ s.transit at hx
      rw [htr] at hx
      contradiction
    · show s.queue.running = s.inFlight.length + 0 + (n + 1)
      simp only [Option.toList_some, List.length_singleton] at hrun
      omega
  decrement {n s} h := by
    refine { h with
      placed := { h.placed with }
      running := ?_ }
    show s.queue.running - 1 = s.inFlight.length + s.completing.toList.length + n
    have hrun := h.running
    omega

/-! ## the hand-out of a fetch -/

/-- The tasks that were handed out since a fetch began; the first one is a barrier
only if nothing was running. -/
def HandsOut (r : RunState) (s : Stage) : Prop :=
  ∃ new, s.handedOut = r.handedOut ++ new ∧ (new = [] → s.queue.running = r.queue.running) ∧
    ∀ task ∈ new.head?, task.type.isBarrier = true → r.queue.running = 0

/-- A hand-out, after which nothing counts but the first task. -/
theorem HandsOut.hand {r : RunState} (h : s.HandsOut r) {task : ExecutableTask}
    (hout : s'.handedOut = s.handedOut ++ [task])
    (hbarrier : task.type.isBarrier = true → s.queue.running = 0) : s'.HandsOut r := by
  obtain ⟨new, hnew, hrun, hhead⟩ := h
  refine ⟨new ++ [task], by rw [hout, hnew, List.append_assoc], by simp, ?_⟩
  cases new with
  | nil =>
      intro t ht hb
      rw [← hrun rfl]
      exact hbarrier (by rw [← Option.some.inj ht] at hb; exact hb)
  | cons first new => exact hhead

theorem handsOut_move {r : RunState} (hplaced : s.Placed) (h : s.HandsOut r)
    (hm : Move env lossy s s') : s'.HandsOut r := by
  cases hm with
  | handLoad x rest d task hc htr hd hr hb =>
      refine h.hand rfl fun hbarrier => ?_
      rw [(TaskQueue.built_of_ok hb).type,
        hplaced.isBarrier_of_transit (htr ▸ List.mem_cons_self)] at hbarrier
      contradiction
  | handTable t g head rest task hc hp hq hb hr hbuild =>
      refine h.hand rfl fun hbarrier => ?_
      rw [(TaskQueue.built_of_ok hbuild).type,
        hplaced.isBarrier_of_queueOf (hq ▸ List.mem_cons_self)] at hbarrier
      contradiction
  | handBarrier barrier rest task hc hq hrun hheap hl hb =>
      exact h.hand rfl fun _ => hrun
  | register c t hc ht =>
      obtain ⟨tables, g, hreg, _⟩ :=
        s.queue.registerTableQueue_eq env t (TaskQueue.placeholder c)
      simp only [hreg]
      exact h
  | reindex c t hc ht =>
      obtain ⟨g, hup, _⟩ := s.queue.upsertHead_eq env t
      simp only [hup]
      exact h
  | _ => exact h

end Stage

/-- A fetch hands out a barrier only if nothing is running. -/
theorem running_of_fetch {env : Env} {r r' : RunState} (hplaced : r.stage.Placed)
    (h : r.fetch env = some r') {task : ExecutableTask}
    (hout : r'.handedOut = r.handedOut ++ [task]) (hbarrier : task.type.isBarrier = true) :
    r.queue.running = 0 := by
  have hstart : r.stage.HandsOut r := ⟨[], by simp [RunState.stage], fun _ => rfl, by simp⟩
  have hend : r'.stage.Placed ∧ r'.stage.HandsOut r :=
    moves_preserve (I := fun s => s.Placed ∧ s.HandsOut r)
      (fun hs hm => ⟨Stage.placed_move hs.1 hm, Stage.handsOut_move hs.1 hs.2 hm⟩)
      (moves_fetch h fun hn => absurd trivial hn) ⟨hplaced, hstart⟩
  obtain ⟨new, hnew, _, hhead⟩ := hend.2
  have hnew : new = [task] := List.append_cancel_left (hnew.symm.trans hout)
  exact hhead task (by rw [hnew]; rfl) hbarrier

/-! ## runs -/

theorem barred_run {env : Env} {tasks : List ParsedQuery} (hinc : Increasing tasks)
    {r : SplitState} (run : (splitScheduler env).Reachable (.start env tasks) r) :
    r.stage.Barred (TaskQueue.registered env tasks) r.settling := by
  have hreg := TaskQueue.registered_registerAll env tasks
  have hbar : (RunState.start env tasks).queue.barriers =
      (TaskQueue.registered env tasks).filter fun x => x.type.isBarrier := hreg.barriers
  have hrun : (RunState.start env tasks).queue.running = 0 := hreg.running
  refine (Stage.barred_preserved env (TaskQueue.registered env tasks)).run run ?_
  refine ⟨placed_start env _, ?_, fun _ ht => by contradiction, fun _ _ hx => by contradiction,
    fun x hx hbarrier => .inl ?_, hrun, fun _ => ⟨hreg.waitingTables, hreg.loadBlocked⟩⟩
  · show (RunState.start env tasks).queue.barriers.Pairwise _
    rw [hbar]
    exact (hinc.registered env).filter _
  · show x ∈ (RunState.start env tasks).queue.barriers
    rw [hbar]
    exact List.mem_filter.mpr ⟨hx, hbarrier⟩

/-- The barriers of a run whose completions are single steps wait for what is before them. -/
theorem barred_stage {env : Env} {guard : RunState → RunAction → Prop} {tasks : List ParsedQuery}
    (hinc : Increasing tasks) {r : RunState}
    (run : (scheduler env).Runs guard (.start env tasks) r) :
    r.stage.Barred (TaskQueue.registered env tasks) 0 := by
  have hpres := Stage.barred_preserved env (TaskQueue.registered env tasks)
  refine run.invariant (I := fun r => r.stage.Barred (TaskQueue.registered env tasks) 0)
    (barred_run hinc (.refl (SplitState.start env tasks))) fun r a r' h _ hs => ?_
  cases a with
  | fetch => exact moves_preserve Stage.barred_move (moves_fetch hs fun hn => absurd trivial hn) h
  | complete k =>
      obtain ⟨task, q, hk, _, hms, hr'⟩ := @moves_complete _ True _ _ _ hs
      have hend := moves_preserve hpres.move hms (hpres.begin h rfl hk)
      rw [hr']
      exact hpres.decrement (hpres.settle hend rfl rfl)

/-- **Nothing overtakes a barrier, and a barrier releases what it held**: in
every state of a run with completions in two steps, a task is handed out behind
all barriers with a smaller sequence number, a barrier is handed out when no
task is uncompleted, and without a pending barrier nothing is held back. -/
theorem barriers_respected {env : Env} {tasks : List ParsedQuery} (hinc : Increasing tasks)
    {r : SplitState} (run : (splitScheduler env).Reachable (.start env tasks) r) :
    (∀ r' task, r.fetch env = some r' → r'.handedOut = r.handedOut ++ [task] →
      (∀ b ∈ tasks, b.type.isBarrier = true → b.seq < task.seq →
        ∃ t ∈ r.handedOut, t.seq = b.seq) ∧
      (task.type.isBarrier = true → r.inFlight = [] ∧ r.settling = 0)) ∧
    (r.queue.barriers = [] → r.queue.waitingTables = [] ∧ r.queue.loadBlocked = false) := by
  have hr := barred_run hinc run
  refine ⟨fun r' task hfetch hout => ⟨fun b hb hbarrier hlt => ?_, fun hbarrier => ?_⟩,
    hr.released⟩
  · have hr' := barred_run hinc (run.tail (a := .fetch) trivial hfetch)
    obtain ⟨x, hx, hseq, htype, _⟩ := TaskQueue.exists_registered env hb
    obtain hpending | ⟨t, ht, htseq⟩ := hr'.known x hx (htype ▸ hbarrier)
    · have hle := hr'.passed task (hout ▸ List.mem_append_right _ List.mem_cons_self) x hpending
      omega
    · change t ∈ r'.handedOut at ht
      rw [hout] at ht
      obtain ht | ht := List.mem_append.mp ht
      · exact ⟨t, ht, htseq.trans hseq⟩
      · rw [List.mem_singleton.mp ht] at htseq
        omega
  · obtain ⟨r₁, hstep, rfl⟩ := Option.map_eq_some_iff.mp hfetch
    have hzero := running_of_fetch hr.placed hstep hout hbarrier
    have hrun : r.queue.running = r.inFlight.length + 0 + r.settling := hr.running
    exact ⟨List.eq_nil_of_length_eq_zero (by omega), by omega⟩

/-- A DROP behind a LIST is held back while the LOAD in front of it completes: the LIST
is handed out once nothing is in flight, and the DROP behind it. -/
theorem barriers_respected_list : ∃ r₁ r₁' list r₂ r₂' drop,
    (splitScheduler (.binaryHeap id)).Reachable
      (.start (.binaryHeap id) (submitAll [.load "T" "f", .list, .drop "T"])) r₁ ∧
    r₁.fetch (.binaryHeap id) = some r₁' ∧ r₁'.handedOut = r₁.handedOut ++ [list] ∧
    list.type = .list ∧ r₁.inFlight = [] ∧ r₁.settling = 0 ∧
    (splitScheduler (.binaryHeap id)).Reachable
      (.start (.binaryHeap id) (submitAll [.load "T" "f", .list, .drop "T"])) r₂ ∧
    r₂.fetch (.binaryHeap id) = some r₂' ∧ r₂'.handedOut = r₂.handedOut ++ [drop] ∧
    drop.seq = 3 ∧ (∃ t ∈ r₂.handedOut, t.seq = 2) ∧
    r₂.queue.waitingTables = [] ∧ r₂.queue.loadBlocked = false := by
  have hinc := increasing_submitAll [.load "T" "f", .list, .drop "T"]
  obtain ⟨r₁, run₁, r₁', hfetch₁, list, _, hout₁, hlist⟩ :=
    (splitScheduler (.binaryHeap id)).exists_of_execute (fun _ _ => True)
      (fun r => ∃ r' ∈ r.fetch (.binaryHeap id), ∃ list ∈ r'.handedOut.getLast?,
        r'.handedOut = r.handedOut ++ [list] ∧ list.type = .list)
      (.start (.binaryHeap id) (submitAll [.load "T" "f", .list, .drop "T"]))
      [.fetch, .apply 0, .fetch, .decrement] (by decide +kernel)
  obtain ⟨r₂, run₂, hbar, r₂', hfetch₂, drop, _, hout₂, hdrop⟩ :=
    (splitScheduler (.binaryHeap id)).exists_of_execute (fun _ _ => True)
      (fun r => r.queue.barriers = [] ∧ ∃ r' ∈ r.fetch (.binaryHeap id),
        ∃ drop ∈ r'.handedOut.getLast?, r'.handedOut = r.handedOut ++ [drop] ∧ drop.seq = 3)
      (.start (.binaryHeap id) (submitAll [.load "T" "f", .list, .drop "T"]))
      [.fetch, .apply 0, .fetch, .decrement, .fetch] (by decide +kernel)
  obtain ⟨hnone, hsettled⟩ :=
    ((barriers_respected hinc run₁).1 r₁' list hfetch₁ hout₁).2 (by rw [hlist]; rfl)
  have hbefore := ((barriers_respected hinc run₂).1 r₂' drop hfetch₂ hout₂).1
    (submitQuery .list 2) (by decide) rfl (by rw [hdrop]; decide)
  obtain ⟨hwait, hblocked⟩ := (barriers_respected hinc run₂).2 hbar
  exact ⟨r₁, r₁', list, r₂, r₂', drop, run₁, hfetch₁, hout₁, hlist, hnone, hsettled, run₂, hfetch₂,
    hout₂, hdrop, hbefore, hwait, hblocked⟩

end LemonDB
