import LemonDB.Scheduler.Schedulable

/-!
# LemonDB.Scheduler.Fences

When a barrier is a full fence.  A barrier is handed out when a fetch finds
nothing else and nothing is running; what it held back is released then, and not
when it is completed.  So the tasks in front of a barrier are completed if they
can be, and it keeps the others from being handed out next to it only if there
are none (`Fenced`).
-/

namespace LemonDB

/-- The barriers are behind all other tasks, also in rank. -/
def Fenced (items : List ScheduledItem) (rank : Nat → Nat) : Prop :=
  ∀ b ∈ items, b.type.isBarrier = true → ∀ x ∈ items, x.type.isBarrier = false →
    x.seq < b.seq ∧ rank x.seq < rank b.seq

instance (items : List ScheduledItem) (rank : Nat → Nat) : Decidable (Fenced items rank) :=
  inferInstanceAs (Decidable (∀ b ∈ items, b.type.isBarrier = true → ∀ x ∈ items, _ → _))

theorem TaskQueue.behindBarrier_eq_false {q : TaskQueue} {n : Nat}
    (h : ∀ b ∈ q.barriers, n ≤ b.seq) : q.behindBarrier n = false := by
  unfold behindBarrier
  split
  · rfl
  · next first rest hbar =>
      have hle := h first (hbar ▸ List.mem_cons_self)
      simpa using hle

namespace Stage

variable {env : Env} {lossy : Prop} {items : List ScheduledItem} {rank : Nat → Nat}
  {dm : DependencyManager} {s s' : Stage}

/-- What is stored keeps to the order of the registered tasks. -/
theorem Wakes.fenced (hwakes : s.Wakes items) (hplaced : s.Placed) (hf : Fenced items rank)
    {b x : ScheduledItem} (hb : b ∈ s.queue.barriers) (hx : x ∈ s.queue.stored)
    (hnb : x.type.isBarrier = false) : x.seq < b.seq ∧ rank x.seq < rank b.seq := by
  obtain ⟨x₀, hx₀, hidx⟩ := hwakes.registered (mem_items_of_stored hx)
  obtain ⟨b₀, hb₀, hidb⟩ := hwakes.registered
    (mem_items_of_stored (TaskQueue.mem_stored_of_barriers hb))
  have htx : x₀.type = x.type := congrArg Ident.type hidx
  have htb : b₀.type = b.type := congrArg Ident.type hidb
  have hsx : x₀.seq = x.seq := congrArg Ident.seq hidx
  have hsb : b₀.seq = b.seq := congrArg Ident.seq hidb
  have h := hf b₀ hb₀ (by rw [htb, hplaced.barriers b hb]) x₀ hx₀ (by rw [htx, hnb])
  rwa [hsx, hsb] at h

/-- No barrier holds anything back. -/
structure Unblocked (items : List ScheduledItem) (s : Stage) : Prop where
  placed : s.Placed
  wakes : s.Wakes items
  tables : s.queue.waitingTables = []
  loads : s.queue.loadBlocked = false

/-- Every move keeps the barriers from holding anything back. -/
theorem unblocked_move (hrec : Recorded items dm)
    (hinj : ∀ x ∈ items, ∀ y ∈ items, x.seq = y.seq → x = y) (hf : Fenced items rank)
    (h : s.Unblocked items) (hm : Move env lossy s s') : s'.Unblocked items := by
  have hplaced := placed_move h.placed hm
  have hwakes := wakes_move hrec hinj h.wakes hm
  have hfront : ∀ x ∈ s.queue.stored, x.type.isBarrier = false →
      s.queue.behindBarrier x.seq = false := fun x hx hnb =>
    TaskQueue.behindBarrier_eq_false fun b hb =>
      Nat.le_of_lt (h.wakes.fenced h.placed hf hb hx hnb).1
  cases hm with
  | blockLoad front rest hq hb =>
      have hmem : front ∈ s.queue.loadQueue := hq ▸ List.mem_cons_self
      rw [hfront front (TaskQueue.mem_stored_of_loadQueue hmem)
        (by rw [h.placed.loads front hmem]; rfl)] at hb
      contradiction
  | blockTable t g head rest hc hp hq hb =>
      have hmem : head ∈ s.queue.queueOf t := hq ▸ List.mem_cons_self
      rw [hfront head (TaskQueue.mem_stored_of_queueOf hmem)
        (h.placed.isBarrier_of_queueOf hmem)] at hb
      contradiction
  | handBarrier barrier rest task hc hq hrun hheap hl hb =>
      obtain ⟨g, hrel, _⟩ := ((s.queue.popBarrier barrier rest).countFetch).release_eq env
      simp only [hrel] at hplaced hwakes ⊢
      exact ⟨hplaced, hwakes, rfl, rfl⟩
  | register c t hc ht =>
      obtain ⟨tables, g, hreg, _⟩ :=
        s.queue.registerTableQueue_eq env t (TaskQueue.placeholder c)
      simp only [hreg] at hplaced hwakes ⊢
      exact ⟨hplaced, hwakes, h.tables, h.loads⟩
  | reindex c t hc ht =>
      obtain ⟨g, hup, _⟩ := s.queue.upsertHead_eq env t
      simp only [hup] at hplaced hwakes ⊢
      exact ⟨hplaced, hwakes, h.tables, h.loads⟩
  | _ => exact ⟨hplaced, hwakes, h.tables, h.loads⟩

theorem unblocked_preserved (env : Env) (lossy : Prop) (hrec : Recorded items dm)
    (hinj : ∀ x ∈ items, ∀ y ∈ items, x.seq = y.seq → x = y) (hf : Fenced items rank) :
    Preserved env lossy (Unblocked items) where
  move := unblocked_move hrec hinj hf
  begin h hc hk := { h with
    placed := (placed_preserved env lossy).begin h.placed hc hk
    wakes := (wakes_preserved env lossy hrec hinj).begin h.wakes hc hk }
  finish h hc := { h with
    placed := (placed_preserved env lossy).finish h.placed hc
    wakes := (wakes_preserved env lossy hrec hinj).finish h.wakes hc }

end Stage

/-! ## runs -/

theorem unblocked_run {env : Env} {guard : RunState → RunAction → Prop} {tasks : List ParsedQuery}
    (hinc : Increasing tasks) {rank : Nat → Nat}
    (hf : Fenced (TaskQueue.registered env tasks) rank) {r : RunState}
    (run : (scheduler env).Runs guard (.start env tasks) r) :
    r.stage.Unblocked (TaskQueue.registered env tasks) := by
  have hreg := TaskQueue.registered_registerAll env tasks
  have hstart : (scheduler env).Runs guard (.start env tasks) (.start env tasks) := .refl _
  exact (Stage.unblocked_preserved env True (recorded_markAll env hinc)
    (TaskQueue.registered_inj env hinc.nodup) hf).run run
    ⟨placed_start env _, wakes_run hinc hstart, hreg.waitingTables, hreg.loadBlocked⟩

section

variable {env : Env} {tasks : List ParsedQuery} {rank : Nat → Nat}

/-- A fetch that returns a barrier finds the tasks in front of it completed. -/
theorem finished_of_fetchNext (hinc : Increasing tasks)
    (hsched : Schedulable env (TaskQueue.registered env tasks) rank)
    (hf : Fenced (TaskQueue.registered env tasks) rank) {r : RunState}
    (run : (scheduler env).Runs RunState.KeepsOrder (.start env tasks) r)
    (hnext : r.KeepsOrder .fetch) {task : ExecutableTask} {q' : TaskQueue}
    (hfetch : r.queue.fetchNext env = .ok (some task, q')) (hb : task.type.isBarrier = true) :
    ∀ y ∈ TaskQueue.registered env tasks, y.type.isBarrier = false ∨ y.seq < task.seq →
      ∃ c ∈ r.finished, c.ident = y.ident := by
  intro y hy hfront
  have hplaced := (Stage.placed_preserved env True).run run (placed_start env _)
  have hexhausts : r.stage.Exhausts env False (some task) q' :=
    Stage.exhausts_fetchNext hplaced rfl (ready_run run)
      (fun _ => (hnext.1 rfl).everyFetchRound (wf_run run))
      (by rintro _ ⟨⟩; exact hb) hfetch
  obtain ⟨q, hms, hheap, hloads, hend⟩ := hexhausts
  have hbarred := moves_preserve Stage.barred_move hms (barred_stage hinc run)
  have hunblocked := moves_preserve (Stage.unblocked_move (recorded_markAll env hinc)
    (TaskQueue.registered_inj env hinc.nodup) hf) hms (unblocked_run hinc hf run)
  obtain ⟨hrunning, b, rest, hbar, hseq, _⟩ := TaskQueue.fetchBarrier_some hend
  -- nothing is running, so nothing is in flight
  have hlen : q.running = r.inFlight.length + 0 + 0 := hbarred.running
  have hflight : r.inFlight = [] := List.eq_nil_of_length_eq_zero (by omega)
  have hopen : q.loadBlocked = false := hunblocked.loads
  have hload : q.loadQueue = [] := hloads.resolve_right (by simp [hopen])
  obtain hdone | ⟨b', hb', hid⟩ := finished_or_barrier hinc hsched (fun _ _ hg => hg.1)
    (fun _ _ hg => hg.2) run hms hflight hheap hload hunblocked.tables
    (fun b hb x hx hnb => (hunblocked.wakes.fenced hunblocked.placed hf hb hx hnb).2) y hy
  · exact hdone
  · -- the barriers that are left are not in front of this one
    exfalso
    have hty : b'.type = y.type := congrArg Ident.type hid
    have hseq' : b'.seq = y.seq := congrArg Ident.seq hid
    have hsorted : q.barriers.Pairwise fun a b => a.seq < b.seq := hbarred.sorted
    have hle : b.seq ≤ b'.seq := by
      rw [hbar] at hb' hsorted
      obtain rfl | hb' := List.mem_cons.mp hb'
      · exact Nat.le_refl _
      · exact Nat.le_of_lt ((List.pairwise_cons.mp hsorted).1 b' hb')
    obtain hnb | hlt := hfront
    · rw [← hty, hunblocked.placed.barriers b' hb'] at hnb
      contradiction
    · omega

/-- While a barrier is in flight, all tasks but barriers are completed. -/
def Drained (items : List ScheduledItem) (r : RunState) : Prop :=
  (∃ b ∈ r.inFlight, b.type.isBarrier = true) →
    ∀ y ∈ items, y.type.isBarrier = false → ∃ c ∈ r.finished, c.ident = y.ident

/-- In a run, a barrier in flight finds all other tasks completed. -/
theorem drained_run (hinc : Increasing tasks)
    (hsched : Schedulable env (TaskQueue.registered env tasks) rank)
    (hf : Fenced (TaskQueue.registered env tasks) rank) {r : RunState}
    (run : (scheduler env).Runs RunState.KeepsOrder (.start env tasks) r) :
    Drained (TaskQueue.registered env tasks) r := by
  refine run.invariant_of (I := Drained (TaskQueue.registered env tasks))
    (J := fun r => (scheduler env).Runs RunState.KeepsOrder (.start env tasks) r)
    (fun _ run => run) (fun ⟨b, hb, _⟩ => by contradiction) fun r a r' run _ h hg hs => ?_
  cases a with
  | fetch =>
      obtain ⟨task, q, hfetch, rfl⟩ | ⟨q, hfetch, rfl⟩ := RunState.fetch_cases hs
      · rintro ⟨b, hb, hbarrier⟩ y hy hnb
        obtain hb | hb := List.mem_append.mp hb
        · exact h ⟨b, hb, hbarrier⟩ y hy hnb
        · obtain rfl := List.mem_singleton.mp hb
          exact finished_of_fetchNext hinc hsched hf run hg hfetch hbarrier y hy (.inl hnb)
      · exact h
  | complete k =>
      obtain ⟨task, q, _, _, _, hr'⟩ := @moves_complete _ True _ _ _ hs
      rintro ⟨b, hb, hbarrier⟩ y hy hnb
      have hflight : r'.inFlight = r.inFlight.eraseIdx k := congrArg (fun s : Stage => s.inFlight) hr'
      have hfinished : r'.finished = r.finished ++ [task.onCompleted] :=
        congrArg (fun s : Stage => s.finished) hr'
      rw [hflight] at hb
      obtain ⟨c, hc, hid⟩ := h ⟨b, List.mem_of_mem_eraseIdx hb, hbarrier⟩ y hy hnb
      exact ⟨c, hfinished ▸ List.mem_append_left _ hc, hid⟩

end

/-- **Barriers are full fences** if they are behind all other tasks and these can be
ranked: a barrier is handed out when all tasks in front of it are completed, and
nothing is handed out while a barrier is in flight. -/
theorem barriers_fence {env : Env} {tasks : List ParsedQuery} (hinc : Increasing tasks)
    (hfences : (∃ t ∈ tasks, t.type.isBarrier = true) → ∃ rank,
      Schedulable env (TaskQueue.registered env tasks) rank ∧
      Fenced (TaskQueue.registered env tasks) rank) {r : RunState}
    (run : (scheduler env).Runs RunState.KeepsOrder (.start env tasks) r)
    (hnext : r.KeepsOrder .fetch) {r' : RunState} {task : ExecutableTask}
    (hfetch : r.fetch env = some r') (hout : r'.handedOut = r.handedOut ++ [task]) :
    (task.type.isBarrier = true → ∀ t ∈ tasks, t.seq < task.seq →
      t.seq ∈ r.finished.map (·.seq)) ∧ ∀ b ∈ r.inFlight, b.type.isBarrier = false := by
  obtain ⟨task', q, hq, rfl⟩ | ⟨q, _, rfl⟩ := RunState.fetch_cases hfetch
  · obtain rfl : task' = task := List.singleton_inj.mp (List.append_cancel_left hout)
    have run' := run.tail hnext (show (scheduler env).step r .fetch = _ from hfetch)
    have hcap := captured_run run'
    have hknown : ∀ u ∈ r.inFlight ++ [task'], ∃ y ∈ TaskQueue.registered env tasks,
        y.ident = u.onCompleted.ident := fun u hu =>
      registered_of_out run' (Stage.ident_mem_out_of_inFlight hu)
    have hranked : ∀ u ∈ r.inFlight ++ [task'], u.type.isBarrier = true → ∃ rank,
        Schedulable env (TaskQueue.registered env tasks) rank ∧
        Fenced (TaskQueue.registered env tasks) rank := by
      intro u hu hb
      obtain ⟨y, hy, hid⟩ := hknown u hu
      obtain ⟨t, ht, htype⟩ := TaskQueue.type_of_registered env hy
      have hty : y.type = u.onCompleted.type := congrArg Ident.type hid
      refine hfences ⟨t, ht, ?_⟩
      rwa [htype, hty, (hcap u (List.mem_append_left _ hu)).2]
    have hself : task' ∈ r.inFlight ++ [task'] := List.mem_append_right _ List.mem_cons_self
    refine ⟨fun hb t ht hlt => ?_, fun b hb => ?_⟩
    · obtain ⟨rank, hsched, hf⟩ := hranked task' hself hb
      obtain ⟨y, hy, hseq, _⟩ := TaskQueue.exists_registered env ht
      obtain ⟨c, hc, hid⟩ := finished_of_fetchNext hinc hsched hf run hnext hq hb y hy
        (.inr (hseq ▸ hlt))
      have hcseq : c.seq = y.seq := congrArg Ident.seq hid
      exact List.mem_map.mpr ⟨c, hc, hcseq.trans hseq⟩
    · by_contra hbarrier
      have hbarrier : b.type.isBarrier = true := by simpa using hbarrier
      cases hnb : task'.type.isBarrier with
      | true =>
          -- a barrier is returned when nothing is in flight
          have hzero := running_of_fetch ((Stage.placed_preserved env True).run run
            (placed_start env _)) hfetch hout hnb
          have hlen : r.queue.running = r.inFlight.length + 0 + 0 := (barred_stage hinc run).running
          have hpos := List.length_pos_of_mem hb
          omega
      | false =>
          -- the others are completed
          obtain ⟨rank, hsched, hf⟩ := hranked b (List.mem_append_left _ hb) hbarrier
          obtain ⟨y, hy, hid⟩ := hknown task' hself
          have hty : y.type = task'.onCompleted.type := congrArg Ident.type hid
          obtain ⟨c, hc, hidc⟩ := drained_run hinc hsched hf run ⟨b, hb, hbarrier⟩ y hy
            (by rw [hty, (hcap task' (List.mem_append_left _ hself)).2, hnb])
          have hseq : c.seq = task'.onCompleted.seq := congrArg Ident.seq (hidc.trans hid)
          have hnodup := (Multiset.nodup_add.mp (nodup_seqs_run hinc.nodup run')).1
          have hdisj := (Multiset.nodup_add.mp hnodup).2.2
          refine Multiset.disjoint_left.mp hdisj (Multiset.mem_add.mpr (.inr ?_))
            (Multiset.mem_coe.mpr (List.mem_map.mpr ⟨c, hc, hseq⟩))
          exact Multiset.mem_coe.mpr (List.mem_map.mpr ⟨task', hself, rfl⟩)
  · have hlen := congrArg List.length hout
    simp at hlen

/-- A barrier in front of a QUIT, behind the tasks of one table. -/
def finalBarriers : List Query := [.load "T" "f", .dump "T" "g", .list, .quit]

/-- The QUIT is handed out last. -/
theorem barriers_fence_final : ∃ r r' task, (scheduler (.binaryHeap id)).Runs
    RunState.KeepsOrder (.start (.binaryHeap id) (submitAll finalBarriers)) r ∧
    r.fetch (.binaryHeap id) = some r' ∧ r'.handedOut = r.handedOut ++ [task] ∧
    task.seq = 4 ∧ (task.type.isBarrier = true → ∀ t ∈ submitAll finalBarriers,
      t.seq < task.seq → t.seq ∈ r.finished.map (·.seq)) ∧
    ∀ b ∈ r.inFlight, b.type.isBarrier = false := by
  obtain ⟨r, run, hnext, r', hfetch, task, _, hout, hseq⟩ :=
    (scheduler (.binaryHeap id)).exists_of_execute RunState.KeepsOrder
      (fun r => r.KeepsOrder .fetch ∧ ∃ r' ∈ r.fetch (.binaryHeap id),
        ∃ task ∈ r'.handedOut.getLast?, r'.handedOut = r.handedOut ++ [task] ∧ task.seq = 4)
      (.start (.binaryHeap id) (submitAll finalBarriers))
      [.fetch, .complete 0, .fetch, .complete 0, .fetch, .complete 0] (by decide +kernel)
  have hranked : Schedulable (.binaryHeap id)
      (TaskQueue.registered (.binaryHeap id) (submitAll finalBarriers)) id ∧
      Fenced (TaskQueue.registered (.binaryHeap id) (submitAll finalBarriers)) id := by
    decide +kernel
  exact ⟨r, r', task, run, hfetch, hout, hseq,
    barriers_fence (increasing_submitAll _) (fun _ => ⟨id, hranked⟩) run hnext hfetch hout⟩

/-- LIST (2) passes a SELECT on a table that is not loaded, and `LOAD T` (3) is handed
out while LIST is in flight. -/
theorem not_barriers_fence : ∃ r₁ r₂ r₃ : RunState, ∃ list load : ExecutableTask,
    (scheduler (.binaryHeap id)).Reachable (.start (.binaryHeap id) (submitAll
      [.select ⟨"T", ["KEY"], []⟩, .list, .load "T" "f"])) r₁ ∧
    r₁.fetch (.binaryHeap id) = some r₂ ∧ r₂.handedOut = r₁.handedOut ++ [list] ∧
    list.type = .list ∧ list.seq = 2 ∧ 1 ∉ r₁.finished.map (·.seq) ∧
    r₂.fetch (.binaryHeap id) = some r₃ ∧ r₃.handedOut = r₂.handedOut ++ [load] ∧
    list ∈ r₂.inFlight := by
  obtain ⟨r₁, run, r₂, hlist, list, _, hout, hty, hseq, hnot, r₃, hload, load, _, hout', hmem⟩ :=
    (scheduler (.binaryHeap id)).exists_of_execute (fun _ _ => True)
      (fun r₁ => ∃ r₂ ∈ r₁.fetch (.binaryHeap id), ∃ list ∈ r₂.handedOut.getLast?,
        r₂.handedOut = r₁.handedOut ++ [list] ∧ list.type = .list ∧ list.seq = 2 ∧
        1 ∉ r₁.finished.map (·.seq) ∧ ∃ r₃ ∈ r₂.fetch (.binaryHeap id),
        ∃ load ∈ r₃.handedOut.getLast?, r₃.handedOut = r₂.handedOut ++ [load] ∧
        list ∈ r₂.inFlight)
      (.start (.binaryHeap id) (submitAll [.select ⟨"T", ["KEY"], []⟩, .list, .load "T" "f"]))
      [] (by decide +kernel)
  exact ⟨r₁, r₂, r₃, list, load, run, hlist, hout, hty, hseq, hnot, hload, hout', hmem⟩

end LemonDB
