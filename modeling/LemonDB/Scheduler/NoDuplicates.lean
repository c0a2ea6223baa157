import LemonDB.Scheduler.Conservation

/-!
# LemonDB.Scheduler.NoDuplicates

No task is in two places, or in one place twice.  The accounting of
`idents_run` counts every registered task once; what remains to see is that the
log of hand-outs has the tasks that are in flight or completed, each as often
as it is there (`Stage.Logged`).
-/

namespace LemonDB

namespace Stage

/-- The log of hand-outs has the tasks that are out. -/
def Logged (s : Stage) : Prop :=
  (s.handedOut.map (·.onCompleted.ident) : Multiset Ident) = s.out

/-- A move that hands out a task logs it. -/
theorem logged_move {env : Env} {lossy : Prop} {s s' : Stage} (h : s.Logged)
    (hm : Move env lossy s s') : s'.Logged := by
  have hlog : (s.handedOut.map (·.onCompleted.ident) : Multiset Ident) = s.out := h
  obtain ⟨_, hf, hd, hc, hfin⟩ | ⟨q, x, task, _, _, hf, hd, hc, hfin⟩ :=
    carries_move (f := ScheduledItem.ident) (fun _ _ => rfl) ident_resolve hm
  · rw [Logged, hd, hlog, out, out, hf, hc, hfin]
  · have hnew : s'.out = s.out + {task.onCompleted.ident} := by
      simp only [out, hf, hc, hfin, List.map_append, List.map_cons, List.map_nil,
        ← Multiset.coe_add, Multiset.coe_singleton]
      abel
    rw [Logged, hd, hnew, ← hlog, List.map_append, ← Multiset.coe_add]
    rfl

theorem logged_preserved (env : Env) (lossy : Prop) : Preserved env lossy Logged where
  move := logged_move
  begin h hc hk := h.trans (out_begin hc hk).symm
  finish h hc := h.trans (out_finish hc).symm

end Stage

theorem logged_run {env : Env} {guard : RunState → RunAction → Prop} {tasks : List ParsedQuery}
    {r : RunState} (run : (scheduler env).Runs guard (.start env tasks) r) : r.stage.Logged :=
  (Stage.logged_preserved env True).run run rfl

/-- **No task is duplicated**: a sequence number occurs at most once in the load
queue, the table queues, the barriers, the waiting heaps, the tasks in flight
and the completed tasks together, and at most once in the log of hand-outs. -/
theorem no_task_duplicated {env : Env} {tasks : List ParsedQuery}
    (hseq : (tasks.map (·.seq)).Nodup) {r : RunState}
    (run : (scheduler env).Reachable (.start env tasks) r) :
    (r.queue.stored.map (·.seq) + (r.inFlight.map (·.seq) : List Nat) +
      (r.finished.map (·.seq) : List Nat)).Nodup ∧ (r.handedOut.map (·.seq)).Nodup := by
  have hcap := captured_run run
  have hflight : r.inFlight.map (·.onCompleted.seq) = r.inFlight.map (·.seq) :=
    List.map_congr_left fun task ht => (hcap task (List.mem_append_left _ ht)).1
  have hout : r.handedOut.map (·.onCompleted.seq) = r.handedOut.map (·.seq) :=
    List.map_congr_left fun task ht => (hcap task (List.mem_append_right _ ht)).1
  have hall : r.seqs.Nodup := (Multiset.nodup_add.mp (nodup_seqs_run hseq run)).1
  have hlog := congrArg (Multiset.map Ident.seq) (logged_run run)
  rw [RunState.seqs, hflight] at hall
  refine ⟨hall, ?_⟩
  -- the tasks that were handed out are those in flight and the completed ones
  have hlist : (r.handedOut.map (·.seq) : Multiset Nat) =
      (r.inFlight.map (·.seq) : List Nat) + (r.finished.map (·.seq) : List Nat) := by
    rw [← hout, ← hflight]
    simpa [Stage.out, RunState.stage, Function.comp_def] using hlog
  rw [add_assoc] at hall
  rw [← Multiset.coe_nodup, hlist]
  exact (Multiset.nodup_add.mp hall).2.1

/-- A DUMP that waits for its table, and is handed out once it is loaded. -/
theorem no_task_duplicated_dump : ∃ r, (scheduler (.binaryHeap id)).Reachable
    (.start (.binaryHeap id) (submitAll [.load "T" "f", .dump "T" "g", .load "T" "g"])) r ∧
    r.handedOut.map (·.seq) = [1, 2, 3] ∧
    (r.queue.stored.map (·.seq) + (r.inFlight.map (·.seq) : List Nat) +
      (r.finished.map (·.seq) : List Nat)).Nodup ∧ (r.handedOut.map (·.seq)).Nodup := by
  obtain ⟨r, run, hr⟩ := (scheduler (.binaryHeap id)).exists_of_execute
    (fun _ _ => True) (fun r => r.handedOut.map (·.seq) = [1, 2, 3])
    (.start (.binaryHeap id) (submitAll [.load "T" "f", .dump "T" "g", .load "T" "g"]))
    [.fetch, .fetch, .complete 0, .fetch, .complete 0, .fetch] (by decide +kernel)
  exact ⟨r, run, hr, no_task_duplicated (by decide) run⟩

end LemonDB
