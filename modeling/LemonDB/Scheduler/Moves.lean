import LemonDB.Lib.Except
import LemonDB.Scheduler.Items
import LemonDB.Scheduler.Run
import Mathlib.Logic.Relation

/-!
# LemonDB.Scheduler.Moves

The scheduler as a machine of small moves: an abstract layer over `fetchNext`
and `onCompleted`.  A `Stage` is a state in the middle of a call; a `Move`
takes one item from one place to the next, or changes one record.  Every call
of the public interface is a sequence of moves (`moves_fetch`,
`moves_complete`), so an invariant of the scheduler needs one case for each
kind of move, and no further look at the code.

A fetch round that draws a LOAD and a table candidate at the same time loses
one of them: these two moves are possible only when `lossy` holds.
-/

namespace LemonDB

/-- The scheduler in the middle of a call: `transit` holds the items that were
taken out of a queue or a heap and not yet put anywhere. -/
structure Stage extends RunState where
  transit : List ScheduledItem := []
  completing : Option Completion := none

namespace TaskQueue

/-- The item has to wait on the key. -/
def Waits (q : TaskQueue) (x : ScheduledItem) (type : DependencyType) (key : String) : Prop :=
  ∃ d, ((type, key), d) ∈ x.waits ∧ q.depManager.lastCompletedFor type key < d

/-- The item has nothing to wait for. -/
def Ready (q : TaskQueue) (x : ScheduledItem) : Prop :=
  ∀ k d, (k, d) ∈ x.waits → d ≤ q.depManager.lastCompletedFor k.1 k.2

/-- Take out the first barrier. -/
def popBarrier (q : TaskQueue) (barrier : ScheduledItem) (rest : List ScheduledItem) : TaskQueue :=
  { q with barriers := rest, quitFlag := q.quitFlag || decide (barrier.type = .quit) }

/-- Enter the tables that a barrier blocked into the global index, and unblock
the load queue. -/
def release (env : Env) (q : TaskQueue) : TaskQueue :=
  { q.waitingTables.foldl (upsertHead env) q with waitingTables := [], loadBlocked := false }

/-- Advance the watermark of a key; `rest` keeps waiting on it. -/
def advance (q : TaskQueue) (type : DependencyType) (key : String) (seq : Nat)
    (rest : WaitingHeap) : TaskQueue :=
  { q with depManager := (q.depManager.setLastCompleted type key seq).setWaiting type key rest }

end TaskQueue

/-- The tables that a completion registers. -/
def Completion.registers (c : Completion) : List String :=
  if .registerTable ∈ c.actions then
    c.tableId :: match c.type, c.depends with
      | .copyTable, .copyTable d => [d.newTable]
      | _, _ => []
  else []

namespace Stage

/-- Hand out a task, leaving the queue as given. -/
def hand (s : Stage) (queue : TaskQueue) (task : ExecutableTask) : Stage :=
  { s with queue := queue.countFetch, inFlight := s.inFlight ++ [task],
           handedOut := s.handedOut ++ [task] }

/-- A completion starts: the task is no longer in flight. -/
def begin (s : Stage) (k : Nat) (task : ExecutableTask) : Stage :=
  { s with inFlight := s.inFlight.eraseIdx k, completing := some task.onCompleted }

/-- A completion ends. -/
def finish (s : Stage) (c : Completion) : Stage :=
  { s with queue := s.queue.countCompleted, completing := none, finished := s.finished ++ [c] }

end Stage

open TaskQueue in
/-- The moves of the scheduler. -/
inductive Move (env : Env) (lossy : Prop) : Stage → Stage → Prop
  | blockLoad {s : Stage} (front rest) : s.queue.loadQueue = front :: rest →
      s.queue.behindBarrier front.seq = true →
      Move env lossy s { s with queue := { s.queue with loadBlocked := true } }
  | takeLoad {s : Stage} (front rest) : s.queue.loadQueue = front :: rest →
      s.queue.loadBlocked = false → s.queue.behindBarrier front.seq = false →
      Move env lossy s
        { s with queue := { s.queue with loadQueue := rest }, transit := front :: s.transit }
  | exhausted {s : Stage} (g) : s.queue.globalIndex.pickBest env.heap = (none, g) →
      Move env lossy s { s with queue := s.queue.setIndex g }
  | emptyTable {s : Stage} (t g) : s.queue.globalIndex.pickBest env.heap = (some t, g) →
      s.queue.queueOf t = [] → Move env lossy s { s with queue := s.queue.setIndex g }
  | blockTable {s : Stage} (t g head rest) : s.completing = none →
      s.queue.globalIndex.pickBest env.heap = (some t, g) → s.queue.queueOf t = head :: rest →
      s.queue.behindBarrier head.seq = true →
      Move env lossy s { s with queue := (s.queue.setIndex g).blockTable t }
  | loseTable {s : Stage} (t g) : lossy →
      s.queue.globalIndex.pickBest env.heap = (some t, g) →
      Move env lossy s { s with queue := s.queue.setIndex g }
  | loseLoad {s : Stage} (x rest) : lossy → s.transit = x :: rest →
      Move env lossy s { s with queue := s.queue.abandon (some x), transit := rest }
  | park {s : Stage} (x rest type key) : s.transit = x :: rest →
      (x.Fits → s.queue.Waits x type key) →
      Move env lossy s { s with queue := s.queue.addWait type key x, transit := rest }
  | parkTable {s : Stage} (t g head rest type key) : s.completing = none →
      s.queue.globalIndex.pickBest env.heap = (some t, g) → s.queue.queueOf t = head :: rest →
      s.queue.behindBarrier head.seq = false → (head.Fits → s.queue.Waits head type key) →
      Move env lossy s { s with queue := (s.queue.setIndex g).parkHead t type key head }
  | handLoad {s : Stage} (x rest d task) : s.completing = none →
      s.transit = x :: rest → x.depends = .load d →
      s.queue.Ready x →
      s.queue.buildExecutableFromScheduled x = .ok task →
      Move env lossy s ({ s with transit := rest }.hand s.queue task)
  | handTable {s : Stage} (t g head rest task) : s.completing = none →
      s.queue.globalIndex.pickBest env.heap = (some t, g) → s.queue.queueOf t = head :: rest →
      s.queue.behindBarrier head.seq = false →
      (head.Fits → head.type ≠ .load → s.queue.Ready head) →
      s.queue.buildExecutableFromScheduled head = .ok task →
      Move env lossy s (s.hand ((s.queue.setIndex g).setQueue t rest) task)
  | handBarrier {s : Stage} (barrier rest task) : s.completing = none →
      s.queue.barriers = barrier :: rest →
      s.queue.running = 0 → s.queue.globalIndex.heap = [] →
      (s.queue.loadQueue = [] ∨ s.queue.loadBlocked = true) →
      (s.queue.popBarrier barrier rest).buildExecutableFromScheduled barrier = .ok task →
      Move env lossy s { s with
        queue := ((s.queue.popBarrier barrier rest).countFetch).release env,
        inFlight := s.inFlight ++ [task], handedOut := s.handedOut ++ [task] }
  | register {s : Stage} (c t) : s.completing = some c → t ∈ c.registers →
      Move env lossy s { s with queue := s.queue.registerTableQueue env t (placeholder c) }
  | advance {s : Stage} (c type key popped rest) : s.completing = some c →
      (type, key) ∈ c.ident.notifies → s.queue.depManager.lastCompletedFor type key ≤ c.seq →
      DependencyManager.popReady type c.seq (s.queue.depManager.waitingOn type key) =
        .ok (popped, rest) →
      Move env lossy s
        { s with queue := s.queue.advance type key c.seq rest, transit := s.transit ++ popped }
  | unregister {s : Stage} (c tbl) : s.completing = some c → c.type = .drop →
      s.queue.tables.get? c.tableId = some tbl →
      Move env lossy s
        { s with queue := s.queue.setTable c.tableId { tbl with registered := false } }
  | requeue {s : Stage} (x rest) : s.transit = x :: rest → x.type ≠ .load →
      Move env lossy s { s with queue := s.queue.requeue env x, transit := rest }
  | resolveLoad {s : Stage} (x rest d) : s.transit = x :: rest → x.type = .load →
      x.depends = .load d → d.pendingTable ≠ [] →
      Move env lossy s
        { s with transit := { x with tableId := env.fileTableName d.filePath } :: rest }
  | requeueLoad {s : Stage} (x rest) : s.transit = x :: rest → x.type = .load →
      Move env lossy s { s with queue := s.queue.requeueLoad x, transit := rest }
  | reindex {s : Stage} (c t) : s.completing = some c → c.tableQ = some t →
      Move env lossy s { s with queue := s.queue.upsertHead env t }

/-- A sequence of moves. -/
abbrev Moves (env : Env) (lossy : Prop) : Stage → Stage → Prop :=
  Relation.ReflTransGen (Move env lossy)

namespace TaskQueue

/-! ## the judgements -/

theorem judgeLoadDeps_park {q q' : TaskQueue} {x : ScheduledItem}
    (h : q.judgeLoadDeps x = .ok (some q')) :
    ∃ type key, q' = q.addWait type key x ∧ (x.Fits → q.Waits x type key) := by
  unfold judgeLoadDeps at h
  cases hd : x.depends with
  | load d =>
      simp only [hd, DependencyPayload.getLoad, bind, Except.bind, pure, Except.pure] at h
      split at h
      · next hf =>
          injection h with h
          injection h with h
          exact ⟨_, _, h.symm, fun _ => ⟨_, by simp [ScheduledItem.waits, hd,
            DependencyPayload.waits], hf⟩⟩
      · split at h
        · next ht =>
            injection h with h
            injection h with h
            exact ⟨_, _, h.symm, fun _ => ⟨_, by simp [ScheduledItem.waits, hd,
              DependencyPayload.waits], ht⟩⟩
        · simp at h
  | _ => simp [hd, DependencyPayload.getLoad, bind, Except.bind] at h

theorem judgeLoadDeps_ready {q : TaskQueue} {x : ScheduledItem}
    (h : q.judgeLoadDeps x = .ok none) : (∃ d, x.depends = .load d) ∧ q.Ready x := by
  unfold judgeLoadDeps at h
  cases hd : x.depends with
  | load d =>
      simp only [hd, DependencyPayload.getLoad, bind, Except.bind, pure, Except.pure] at h
      refine ⟨⟨d, rfl⟩, fun k n hk => ?_⟩
      simp only [ScheduledItem.waits, hd, DependencyPayload.waits] at hk
      grind
  | _ => simp [hd, DependencyPayload.getLoad, bind, Except.bind] at h

theorem judgeNormalDeps_park {q q' : TaskQueue} {x : ScheduledItem} {t : String}
    (h : q.judgeNormalDeps x t = .ok (some q')) :
    ∃ type key, q' = q.parkHead t type key x ∧ (x.Fits → q.Waits x type key) := by
  unfold judgeNormalDeps at h
  cases hty : x.type <;> simp only [hty] at h <;> try contradiction
  all_goals
    cases hd : x.depends <;>
      simp only [hd, DependencyPayload.getDump, DependencyPayload.getDrop,
        DependencyPayload.getCopyTable, bind, Except.bind, pure, Except.pure] at h <;>
      try contradiction
  all_goals
    unfold Waits
    simp only [ScheduledItem.waits, hd, DependencyPayload.waits]
    grind

theorem judgeNormalDeps_ready {q : TaskQueue} {x : ScheduledItem} {t : String}
    (h : q.judgeNormalDeps x t = .ok none) (hfit : x.Fits) (hload : x.type ≠ .load) :
    q.Ready x := by
  unfold judgeNormalDeps at h
  unfold ScheduledItem.Fits at hfit
  intro k n hk
  cases hty : x.type <;> cases hd : x.depends <;>
    simp [hty, hd, DependencyPayload.fits, ScheduledItem.waits, DependencyPayload.waits,
      DependencyPayload.getDump, DependencyPayload.getDrop, DependencyPayload.getCopyTable, bind,
      Except.bind, pure, Except.pure] at hfit hload hk h
  all_goals grind

end TaskQueue

/-- A round draws a LOAD and a table candidate. -/
def TaskQueue.drawsBoth (env : Env) (q : TaskQueue) : Bool :=
  (q.getFetched env).1.isSome && (q.getFetched env).2.1.isSome

/-! ## fetchNext is a sequence of moves -/

namespace GlobalIndex

/-- `pickBest` returns none only from a heap that it has emptied. -/
theorem heap_pickBest_none {α : Type u} [DecidableEq α] (pq : PriorityQueue (Key α))
    (g : GlobalIndex α) : (g.pickBest pq).1 = none → (g.pickBest pq).2.heap = [] := by
  refine (pickBestLoop pq).run_induction
    (P := fun _ r => r.1 = none → r.2.heap = []) ?_ (fun _ _ _ _ h => h) g
  intro g r hb hnone
  cases hp : pq.pop g.heap with
  | none =>
      simp only [pickBestLoop, hp, Sum.inr.injEq] at hb
      rw [← hb]
      exact pq.pop_eq_none_iff.mp hp
  | some p =>
      simp only [pickBestLoop, hp] at hb
      split at hb
      · rw [← Sum.inr.inj hb] at hnone
        contradiction
      · contradiction

end GlobalIndex

namespace Stage

variable {env : Env} {lossy : Prop}

/-- The same stage with another task queue. -/
def withQueue (s : Stage) (queue : TaskQueue) : Stage := { s with queue }

@[simp] theorem withQueue_withQueue (s : Stage) (q q' : TaskQueue) :
    (s.withQueue q).withQueue q' = s.withQueue q' := rfl

/-- Taking the LOAD candidate. -/
theorem moves_takeLoad (s : Stage) :
    (s.queue.takeLoad.1 = none ∧ Moves env lossy s (s.withQueue s.queue.takeLoad.2) ∧
      (s.queue.takeLoad.2.loadQueue = [] ∨ s.queue.takeLoad.2.loadBlocked = true)) ∨
    (∃ x, s.queue.takeLoad.1 = some x ∧
      Moves env lossy s
        { s.withQueue s.queue.takeLoad.2 with transit := x :: s.transit }) := by
  obtain ⟨h, hq⟩ | ⟨front, rest, hq, hb, h⟩ | ⟨front, rest, hq, hb, hbar, h⟩ :=
    s.queue.takeLoad_cases
  · rw [h]
    exact .inl ⟨rfl, .refl, hq⟩
  · rw [h]
    exact .inl ⟨rfl, .single (.blockLoad front rest hq hb), .inr rfl⟩
  · rw [h]
    exact .inr ⟨front, rfl, .single (.takeLoad front rest hq hb hbar)⟩

/-- The search for a table candidate, up to the entry that it returns. -/
inductive PickMoves (env : Env) (lossy : Prop) (s : Stage) :
    Option (ScheduledItem × String) × TaskQueue → Prop
  | none (q) : Moves env lossy s (s.withQueue q) → q.globalIndex.heap = [] →
      q.loadQueue = s.queue.loadQueue → q.loadBlocked = s.queue.loadBlocked →
      PickMoves env lossy s (none, q)
  | some (t head rest q g) : Moves env lossy s (s.withQueue q) →
      q.globalIndex.pickBest env.heap = (some t, g) → q.queueOf t = head :: rest →
      q.behindBarrier head.seq = false → PickMoves env lossy s (some (head, t), q.setIndex g)

theorem pickMoves_of_move {s : Stage} {q : TaskQueue}
    {r : Option (ScheduledItem × String) × TaskQueue} (hm : Move env lossy s (s.withQueue q))
    (hl : q.loadQueue = s.queue.loadQueue) (hb : q.loadBlocked = s.queue.loadBlocked)
    (h : PickMoves env lossy (s.withQueue q) r) : PickMoves env lossy s r := by
  cases h with
  | none q' hms hheap hl' hb' =>
      exact .none q' (.head hm hms) hheap (hl'.trans hl) (hb'.trans hb)
  | some t head rest q' g hms hp hq hbar => exact .some t head rest q' g (.head hm hms) hp hq hbar

theorem moves_pickTable (s : Stage) (hc : s.completing = none) :
    PickMoves env lossy s ((TaskQueue.pickTable env).run s.queue) := by
  have hrun := (TaskQueue.pickTable env).run_induction
    (P := fun q r => ∀ s : Stage, s.queue = q → s.completing = none → PickMoves env lossy s r)
    ?_ ?_ s.queue
  · exact hrun s rfl hc
  · intro q r hb s hs hc
    subst hs
    have hturn := TaskQueue.pickTable_turn env s.queue
    rw [hb] at hturn
    cases hturn with
    | exhausted g hp =>
        have hheap := GlobalIndex.heap_pickBest_none env.heap s.queue.globalIndex
        rw [hp] at hheap
        exact .none _ (.single (.exhausted g hp)) (hheap rfl) rfl rfl
    | found t g head rest hp hq hbar => exact .some t head rest s.queue g .refl hp hq hbar
  · intro q q' r hb ih s hs hc
    subst hs
    have hturn := TaskQueue.pickTable_turn env s.queue
    rw [hb] at hturn
    cases hturn with
    | emptyQueue t g hp hq =>
        exact pickMoves_of_move (.emptyTable t g hp hq) rfl rfl (ih _ rfl hc)
    | blocked t g head rest hp hq hbar =>
        exact pickMoves_of_move (.blockTable t g head rest hc hp hq hbar) rfl rfl (ih _ rfl hc)

/-- The stage after a fetch that hands out at most one task. -/
def afterFetch (s : Stage) (out : Option ExecutableTask) (queue : TaskQueue) : Stage :=
  { s with queue, inFlight := s.inFlight ++ out.toList, handedOut := s.handedOut ++ out.toList }

theorem afterFetch_none (s : Stage) (queue : TaskQueue) :
    s.afterFetch none queue = s.withQueue queue := by
  simp [afterFetch, withQueue]

/-- What a round amounts to, given how it ends. -/
def RoundMoves (env : Env) (lossy : Prop) (s : Stage) : TaskQueue.Round → Prop
  | .inl q => Moves env lossy s (s.withQueue q)
  | .inr (.ok (out, q)) => Moves env lossy s (s.afterFetch out q)
  | .inr (.error _) => True

/-- A round with a LOAD as its candidate. -/
theorem moves_fetchLoad {s : Stage} {x : ScheduledItem} (s' : Stage) (hc : s.completing = none)
    (hms : Moves env lossy s { s' with transit := x :: s.transit })
    (hs : s' = s.withQueue s'.queue) : RoundMoves env lossy s (s'.queue.fetchLoad x) := by
  have hc' : s'.completing = none := by rw [hs]; exact hc
  unfold TaskQueue.fetchLoad
  cases hj : s'.queue.judgeLoadDeps x with
  | error e => exact trivial
  | ok o =>
      cases o with
      | some q =>
          obtain ⟨type, key, rfl, hw⟩ := TaskQueue.judgeLoadDeps_park hj
          have hm := hms.tail (.park x s.transit type key rfl hw)
          rw [hs] at hm
          exact hm
      | none =>
          cases hb : s'.queue.buildExecutableFromScheduled x with
          | error e => simp only [RoundMoves, bind, Except.bind]
          | ok task =>
              obtain ⟨⟨d, hd⟩, hr⟩ := TaskQueue.judgeLoadDeps_ready hj
              have hm := hms.tail (.handLoad x s.transit d task hc' rfl hd hr hb)
              rw [hs] at hm
              simp only [RoundMoves, bind, Except.bind, pure, Except.pure]
              exact hm

/-- A round with a table candidate. -/
theorem moves_fetchTable {s : Stage} {head : ScheduledItem} {rest : List ScheduledItem}
    {t : String} {g : GlobalIndex String} (s' : Stage) (hc : s.completing = none)
    (hms : Moves env lossy s s') (hs : s' = s.withQueue s'.queue) (hp : s'.queue.globalIndex.pickBest env.heap = (some t, g))
    (hq : s'.queue.queueOf t = head :: rest) (hb : s'.queue.behindBarrier head.seq = false) :
    RoundMoves env lossy s ((s'.queue.setIndex g).fetchTable head t) := by
  have hc' : s'.completing = none := by rw [hs]; exact hc
  unfold TaskQueue.fetchTable
  cases hj : (s'.queue.setIndex g).judgeNormalDeps head t with
  | error e => exact trivial
  | ok o =>
      cases o with
      | some q =>
          obtain ⟨type, key, rfl, hw⟩ := TaskQueue.judgeNormalDeps_park hj
          have hm := hms.tail (.parkTable t g head rest type key hc' hp hq hb hw)
          rw [hs] at hm
          exact hm
      | none =>
          cases hbuild : (s'.queue.setIndex g).buildExecutableFromScheduled head with
          | error e => simp only [RoundMoves, bind, Except.bind]
          | ok task =>
              have hr := TaskQueue.judgeNormalDeps_ready hj
              have hm := hms.tail (.handTable t g head rest task hc' hp hq hb hr hbuild)
              rw [hs] at hm
              simp only [RoundMoves, bind, Except.bind, pure, Except.pure, TaskQueue.queueOf_setIndex,
                hq, List.tail_cons]
              exact hm

/-- A round without a candidate. -/
theorem moves_fetchBarrier {s : Stage} {q : TaskQueue} (hc : s.completing = none)
    (hms : Moves env lossy s (s.withQueue q)) (hheap : q.globalIndex.heap = [])
    (hl : q.loadQueue = [] ∨ q.loadBlocked = true) :
    RoundMoves env lossy s (.inr (q.fetchBarrier env)) := by
  unfold TaskQueue.fetchBarrier
  cases hbar : q.barriers with
  | nil =>
      simp only [RoundMoves, pure, Except.pure, afterFetch_none]
      exact hms
  | cons barrier rest =>
      by_cases hrun : q.running > 0
      · simp only [hrun, ↓reduceIte, RoundMoves, pure, Except.pure, afterFetch_none]
        exact hms
      · simp only [hrun, ↓reduceIte]
        have hpop : ({ q with
            barriers := rest,
            quitFlag := q.quitFlag || decide (barrier.type = QueryType.quit) } : TaskQueue) =
            q.popBarrier barrier rest := rfl
        rw [hpop]
        cases hb : (q.popBarrier barrier rest).buildExecutableFromScheduled barrier with
        | error e => simp only [RoundMoves, bind, Except.bind]
        | ok task =>
            have hm := hms.tail (.handBarrier barrier rest task hc hbar (Nat.eq_zero_of_not_pos hrun)
              hheap hl hb)
            simp only [RoundMoves, bind, Except.bind, pure, Except.pure]
            exact hm

theorem moves_fetchRound (s : Stage) (hc : s.completing = none)
    (hl : s.queue.drawsBoth env = true → lossy) :
    RoundMoves env lossy s (s.queue.fetchRound env) := by
  unfold TaskQueue.drawsBoth at hl
  obtain ⟨hload, hms, hlq⟩ | ⟨x, hload, hms⟩ := @moves_takeLoad env lossy s
  · have hpick := @moves_pickTable env lossy
      (s.withQueue s.queue.takeLoad.2) hc
    unfold TaskQueue.fetchRound
    simp only [TaskQueue.getFetched, hload]
    generalize hr : (TaskQueue.pickTable env).run s.queue.takeLoad.2 = r
    rw [show (s.withQueue s.queue.takeLoad.2).queue = s.queue.takeLoad.2 from rfl, hr] at hpick
    cases hpick with
    | none q hms' hheap hq hb =>
        exact moves_fetchBarrier hc (hms.trans hms') hheap (by rw [hq, hb]; exact hlq)
    | some t head rest q g hms' hp hq hb =>
        exact moves_fetchTable (s.withQueue q) hc (hms.trans hms') rfl hp hq hb
  · have hpick := @moves_pickTable env lossy
      { s.withQueue s.queue.takeLoad.2 with transit := x :: s.transit } hc
    simp only [TaskQueue.getFetched, hload] at hl
    unfold TaskQueue.fetchRound
    simp only [TaskQueue.getFetched, hload]
    generalize hr : (TaskQueue.pickTable env).run s.queue.takeLoad.2 = r at hl
    simp only [withQueue] at hpick
    rw [hr] at hpick
    cases hpick with
    | none q hms' hheap hq hb =>
        exact moves_fetchLoad (s.withQueue q) hc (hms.trans hms') rfl
    | some t head rest q g hms' hp hq hb =>
        have hlossy : lossy := hl rfl
        have hms := hms.trans hms'
        simp only
        split
        · exact moves_fetchLoad (s.withQueue (q.setIndex g)) hc
            (hms.tail (.loseTable t g hlossy hp)) rfl
        · exact moves_fetchTable (s.withQueue (q.abandon (some x))) hc
            (hms.tail (.loseLoad x s.transit hlossy rfl)) rfl hp hq hb

/-- **A fetch is a sequence of moves**, and loses no candidate when none of its
rounds draws two. -/
theorem moves_fetchNext (s : Stage) (hc : s.completing = none)
    (hl : ¬ lossy → s.queue.everyFetchRound env (fun q => !q.drawsBoth env) = true) :
    RoundMoves env lossy s (.inr (s.queue.fetchNext env)) := by
  unfold TaskQueue.fetchNext
  unfold TaskQueue.everyFetchRound at hl
  by_cases hr : s.queue.readyToFetch = true
  · rw [if_pos hr]
    rw [hr, Bool.not_true, Bool.false_or] at hl
    have hloop := (TaskQueue.fetchLoop env).run_induction
      (P := fun q r => ∀ s : Stage, s.queue = q → s.completing = none →
        (¬ lossy → (TaskQueue.everyRound env (fun q => !q.drawsBoth env)).run q = true) →
        RoundMoves env lossy s (.inr r)) ?_ ?_ s.queue
    · exact hloop s rfl hc hl
    · intro q r hb s hs hc hall
      subst hs
      have hround := @moves_fetchRound env lossy s hc fun hd => by
        by_contra hn
        have := TaskQueue.everyRound_head (hall hn)
        simp [hd] at this
      rwa [show s.queue.fetchRound env = .inr r from hb] at hround
    · intro q q' r hb ih s hs hc hall
      subst hs
      have hround := @moves_fetchRound env lossy s hc fun hd => by
        by_contra hn
        have := TaskQueue.everyRound_head (hall hn)
        simp [hd] at this
      rw [show s.queue.fetchRound env = .inl q' from hb] at hround
      have hrest := ih (s.withQueue q') rfl hc fun hn => TaskQueue.everyRound_tail (hall hn) hb
      cases r with
      | error e => exact trivial
      | ok p => exact hround.trans hrest
  · rw [if_neg hr]
    simp only [RoundMoves, pure, Except.pure, afterFetch_none]
    exact .refl

/-! ## onCompleted is a sequence of moves -/

/-- The same stage with another task queue and other items in transit. -/
def carry (s : Stage) (queue : TaskQueue) (transit : List ScheduledItem) : Stage :=
  { s with queue, transit }

@[simp] theorem carry_queue (s : Stage) (q : TaskQueue) (tr : List ScheduledItem) :
    (s.carry q tr).queue = q := rfl

@[simp] theorem carry_transit (s : Stage) (q : TaskQueue) (tr : List ScheduledItem) :
    (s.carry q tr).transit = tr := rfl

@[simp] theorem carry_completing (s : Stage) (q : TaskQueue) (tr : List ScheduledItem) :
    (s.carry q tr).completing = s.completing := rfl

@[simp] theorem carry_carry (s : Stage) (q q' : TaskQueue) (tr tr' : List ScheduledItem) :
    (s.carry q tr).carry q' tr' = s.carry q' tr' := rfl

theorem carry_self (s : Stage) : s.carry s.queue s.transit = s := rfl

theorem moves_notifyCompleted {s : Stage} {c : Completion} {type : DependencyType} {key : String}
    {ready ready' : List ScheduledItem} {q : TaskQueue} (hc : s.completing = some c)
    (hk : (type, key) ∈ c.ident.notifies)
    (h : s.queue.notifyCompleted type key c.seq ready = .ok (ready', q)) :
    ∃ popped, ready' = ready ++ popped ∧
      Moves env lossy s (s.carry q (s.transit ++ popped)) := by
  unfold TaskQueue.notifyCompleted DependencyManager.notifyCompleted at h
  simp only [bind, Except.bind, pure, Except.pure] at h
  by_cases hlt : c.seq < s.queue.depManager.lastCompletedFor type key
  · rw [if_pos hlt] at h
    simp only [Except.ok.injEq, Prod.mk.injEq] at h
    obtain ⟨rfl, rfl⟩ := h
    exact ⟨[], by simp, by rw [List.append_nil]; exact .refl⟩
  · rw [if_neg hlt] at h
    have hw : (s.queue.depManager.setLastCompleted type key c.seq).waitingOn type key =
        s.queue.depManager.waitingOn type key := by cases type <;> rfl
    rw [hw] at h
    cases hpop : DependencyManager.popReady type c.seq
        (s.queue.depManager.waitingOn type key) with
    | error e => simp only [hpop] at h; contradiction
    | ok p =>
        obtain ⟨popped, rest⟩ := p
        simp only [hpop, Except.ok.injEq, Prod.mk.injEq] at h
        obtain ⟨rfl, rfl⟩ := h
        exact ⟨popped, rfl,
          .single (.advance c type key popped rest hc hk (Nat.le_of_not_lt hlt) hpop)⟩

theorem moves_notifyTables {c : Completion} {q : TaskQueue} {ready' : List ScheduledItem} :
    {ts : List String} → {ready : List ScheduledItem} → {s : Stage} → s.completing = some c →
    (∀ t ∈ ts, (.table, t) ∈ c.ident.notifies) →
    s.queue.notifyTables c.seq ready ts = .ok (ready', q) →
    ∃ popped, ready' = ready ++ popped ∧ Moves env lossy s (s.carry q (s.transit ++ popped))
  | [], ready, s, _, _, h => by
      simp only [TaskQueue.notifyTables, pure, Except.pure, Except.ok.injEq, Prod.mk.injEq] at h
      obtain ⟨rfl, rfl⟩ := h
      exact ⟨[], by simp, by simpa [carry_self] using Relation.ReflTransGen.refl⟩
  | t :: ts, ready, s, hc, hk, h => by
      obtain ⟨⟨ready₁, q₁⟩, hn, h⟩ := Except.of_bind_eq_ok h
      obtain ⟨popped₁, rfl, hms₁⟩ : ∃ popped, ready₁ = ready ++ popped ∧
          Moves env lossy s (s.carry q₁ (s.transit ++ popped)) :=
        moves_notifyCompleted hc (hk t List.mem_cons_self) hn
      obtain ⟨popped₂, rfl, hms₂⟩ := moves_notifyTables
        (s := s.carry q₁ (s.transit ++ popped₁)) hc
        (fun t' ht' => hk t' (List.mem_cons_of_mem _ ht')) h
      refine ⟨popped₁ ++ popped₂, List.append_assoc .., hms₁.trans ?_⟩
      simpa using hms₂

/-- Advancing the records of a completed task puts the released items in
transit. -/
theorem moves_updateDependencyRecords {s : Stage} {c : Completion} {q : TaskQueue}
    {item : ScheduledItem} {readyFile readyTable : List ScheduledItem}
    (hc : s.completing = some c) (hi : item = TaskQueue.placeholder c)
    (h : s.queue.updateDependencyRecords item = .ok (readyFile, readyTable, q)) :
    Moves env lossy s (s.carry q (s.transit ++ (readyFile ++ readyTable))) := by
  have hid : item.ident = c.ident := by rw [hi]; rfl
  have htid : item.tableId = c.tableId := by rw [hi]; rfl
  have hnotify : ∀ {type key}, (type, key) ∈ item.ident.notifies →
      ∀ {s : Stage} {q' : TaskQueue} {ready ready' : List ScheduledItem}, s.completing = some c →
      s.queue.notifyCompleted type key item.seq ready = .ok (ready', q') →
      ∃ popped, ready' = ready ++ popped ∧
        Moves env lossy s (s.carry q' (s.transit ++ popped)) := by
    intro type key hk s q' ready ready' hc hn
    have hseq : item.seq = c.seq := by rw [hi]; rfl
    rw [hseq] at hn
    exact moves_notifyCompleted hc (hid ▸ hk) hn
  have htab : item.type ≠ .load → item.ident.tableId = item.tableId := fun hn => by
    simp [ScheduledItem.ident, Ident.of, hn]
  unfold TaskQueue.updateDependencyRecords at h
  cases hty : item.type with
  | load =>
      simp only [hty] at h
      obtain ⟨d, hd, h⟩ := Except.of_bind_eq_ok h
      obtain ⟨⟨rf, q₁⟩, hf, h⟩ := Except.of_bind_eq_ok h
      have hdep := DependencyPayload.eq_of_getLoad hd
      obtain ⟨popped₁, hpop₁, hms₁⟩ := hnotify (by simp [Ident.notifies, hty, hdep]) hc hf
      rw [List.nil_append] at hpop₁
      subst hpop₁
      by_cases hp : d.pendingTable ≠ []
      · rw [if_pos hp] at h
        obtain ⟨⟨rt, q₂⟩, ht, h⟩ := Except.of_bind_eq_ok h
        have hseq : item.seq = c.seq := by rw [hi]; rfl
        obtain ⟨popped₂, hpop₂, hms₂⟩ := @moves_notifyTables env lossy _ _ _ _ _
          (s.carry q₁ (s.transit ++ rf)) hc
          (fun t ht => by simp [← hid, Ident.notifies, hty, hdep, hp, ht]) (hseq ▸ ht)
        simp only [pure, Except.pure, Except.ok.injEq, Prod.mk.injEq] at h
        obtain ⟨rfl, rfl, rfl⟩ := h
        rw [hpop₂]
        simpa using hms₁.trans hms₂
      · rw [if_neg hp] at h
        obtain ⟨⟨rt, q₂⟩, ht, h⟩ := Except.of_bind_eq_ok h
        have htab : item.ident.tableId = item.tableId := by
          simp [ScheduledItem.ident, Ident.of, hdep, DependencyPayload.isPending, not_not.mp hp]
        obtain ⟨popped₂, hpop₂, hms₂⟩ := hnotify (s := s.carry q₁ (s.transit ++ rf))
          (by simp [Ident.notifies, hty, hdep, not_not.mp hp, htab]) hc ht
        simp only [pure, Except.pure, Except.ok.injEq, Prod.mk.injEq] at h
        obtain ⟨rfl, rfl, rfl⟩ := h
        rw [hpop₂]
        simpa using hms₁.trans hms₂
  | dump =>
      simp only [hty] at h
      obtain ⟨d, hd, h⟩ := Except.of_bind_eq_ok h
      obtain ⟨⟨rf, q₁⟩, hf, h⟩ := Except.of_bind_eq_ok h
      obtain ⟨⟨rt, q₂⟩, ht, h⟩ := Except.of_bind_eq_ok h
      have hdep := DependencyPayload.eq_of_getDump hd
      have htab := htab (by simp [hty])
      obtain ⟨popped₁, hpop₁, hms₁⟩ := hnotify (by simp [Ident.notifies, hty, hdep]) hc hf
      obtain ⟨popped₂, hpop₂, hms₂⟩ := hnotify (s := s.carry q₁ (s.transit ++ popped₁))
        (by simp [Ident.notifies, hty, hdep, htab]) hc ht
      simp only [pure, Except.pure, Except.ok.injEq, Prod.mk.injEq] at h
      obtain ⟨rfl, rfl, rfl⟩ := h
      rw [hpop₁, hpop₂]
      simpa using hms₁.trans hms₂
  | drop =>
      simp only [hty] at h
      obtain ⟨⟨rt, q₁⟩, ht, h⟩ := Except.of_bind_eq_ok h
      have htab := htab (by simp [hty])
      obtain ⟨popped, hpop, hms⟩ := hnotify (by simp [Ident.notifies, hty, htab]) hc ht
      rw [List.nil_append] at hpop
      subst hpop
      cases htbl : q₁.tables.get? item.tableId with
      | none =>
          simp only [htbl, pure, Except.pure, Except.ok.injEq, Prod.mk.injEq] at h
          obtain ⟨rfl, rfl, rfl⟩ := h
          exact hms
      | some tbl =>
          simp only [htbl, pure, Except.pure, Except.ok.injEq, Prod.mk.injEq] at h
          obtain ⟨rfl, rfl, rfl⟩ := h
          rw [htid] at htbl ⊢
          exact hms.tail (.unregister c tbl hc (by rw [← hty, hi]; rfl) htbl)
  | copyTable =>
      simp only [hty] at h
      obtain ⟨d, hd, h⟩ := Except.of_bind_eq_ok h
      obtain ⟨⟨rt₁, q₁⟩, h₁, h⟩ := Except.of_bind_eq_ok h
      obtain ⟨⟨rt₂, q₂⟩, h₂, h⟩ := Except.of_bind_eq_ok h
      have hdep := DependencyPayload.eq_of_getCopyTable hd
      have htab := htab (by simp [hty])
      obtain ⟨popped₁, hpop₁, hms₁⟩ := hnotify (by simp [Ident.notifies, hty, hdep, htab]) hc h₁
      obtain ⟨popped₂, hpop₂, hms₂⟩ := hnotify (s := s.carry q₁ (s.transit ++ popped₁))
        (by simp [Ident.notifies, hty, hdep]) hc h₂
      simp only [pure, Except.pure, Except.ok.injEq, Prod.mk.injEq] at h
      obtain ⟨rfl, rfl, rfl⟩ := h
      rw [hpop₂, hpop₁]
      simpa using hms₁.trans hms₂
  | _ =>
      simp only [hty] at h
      have htab := htab (by simp [hty])
      split at h
      · next ht =>
          obtain ⟨⟨rt, q₁⟩, hn, h⟩ := Except.of_bind_eq_ok h
          obtain ⟨popped, hpop, hms⟩ :=
            hnotify (by simp [Ident.notifies, hty, htab, ht]) hc hn
          simp only [pure, Except.pure, Except.ok.injEq, Prod.mk.injEq] at h
          obtain ⟨rfl, rfl, rfl⟩ := h
          rw [hpop]
          simpa using hms
      · simp only [pure, Except.pure, Except.ok.injEq, Prod.mk.injEq] at h
        obtain ⟨rfl, rfl, rfl⟩ := h
        rw [List.append_nil, List.append_nil]
        exact .refl

/-- A woken item that waited on a file goes back to a queue, or to another
heap. -/
theorem moves_updateReadyFiles {s : Stage} {x : ScheduledItem} {rest : List ScheduledItem}
    {q : TaskQueue} (htr : s.transit = x :: rest)
    (h : s.queue.updateReadyFiles env x = .ok q) : Moves env lossy s (s.carry q rest) := by
  unfold TaskQueue.updateReadyFiles at h
  split at h
  · next hty =>
      obtain ⟨d, hd, h⟩ := Except.of_bind_eq_ok h
      have hdep := DependencyPayload.eq_of_getLoad hd
      split at h
      · next hp =>
          rw [← Except.ok.inj h]
          have hm := @Move.resolveLoad env lossy _ x rest d htr hty hdep hp
          exact .tail (.single hm) (.requeueLoad _ rest rfl hty)
      · split at h
        · next hlt =>
            rw [← Except.ok.inj h]
            refine .single (.park x rest .table x.tableId htr fun _ => ⟨_, ?_, hlt⟩)
            simp [ScheduledItem.waits, hdep, DependencyPayload.waits]
        · rw [← Except.ok.inj h]
          exact .single (.requeueLoad x rest htr hty)
  · next hty =>
      rw [← Except.ok.inj h]
      exact .single (.requeue x rest htr hty)

/-- A woken item that waited on a table goes back to a queue, or to another
heap. -/
theorem moves_updateReadyTables {s : Stage} {x : ScheduledItem} {rest : List ScheduledItem}
    {q : TaskQueue} (htr : s.transit = x :: rest)
    (h : s.queue.updateReadyTables env x = .ok q) : Moves env lossy s (s.carry q rest) := by
  unfold TaskQueue.updateReadyTables at h
  split at h
  · next hty =>
      rw [← Except.ok.inj h]
      exact .single (.requeueLoad x rest htr hty)
  · next hload =>
      split at h
      · obtain ⟨d, hd, h⟩ := Except.of_bind_eq_ok h
        have hdep := DependencyPayload.eq_of_getCopyTable hd
        split at h
        · next hlt =>
            rw [← Except.ok.inj h]
            refine .single (.park x rest .table x.tableId htr fun _ => ⟨_, ?_, hlt⟩)
            simp [ScheduledItem.waits, hdep, DependencyPayload.waits]
        · split at h
          · next hlt =>
              rw [← Except.ok.inj h]
              refine .single (.park x rest .table d.newTable htr fun _ => ⟨_, ?_, hlt⟩)
              simp [ScheduledItem.waits, hdep, DependencyPayload.waits]
          · rw [← Except.ok.inj h]
            exact .single (.requeue x rest htr hload)
      · rw [← Except.ok.inj h]
        exact .single (.requeue x rest htr hload)

/-- Putting back the items in transit, one after the other. -/
theorem moves_putBack {f : TaskQueue → ScheduledItem → Except SchedError TaskQueue}
    (hf : ∀ {s : Stage} {x rest q}, s.transit = x :: rest → f s.queue x = .ok q →
      Moves env lossy s (s.carry q rest)) (rest : List ScheduledItem) (xs : List ScheduledItem)
    {s : Stage} {q : TaskQueue} (htr : s.transit = xs ++ rest)
    (h : xs.foldlM f s.queue = .ok q) : Moves env lossy s (s.carry q rest) := by
  have hfold := Except.foldlM_induction (f := f)
    (P := fun q xs q' => ∀ s : Stage, s.queue = q → s.transit = xs ++ rest →
      Moves env lossy s (s.carry q' rest)) ?_ ?_ xs s.queue q h
  · exact hfold s rfl htr
  · intro q s hs htr
    rw [List.nil_append] at htr
    rw [← hs, ← htr]
    exact .refl
  · intro q x xs q₁ q' hx ih s hs htr
    subst hs
    exact (hf htr hx).trans (ih (s.carry q₁ (xs ++ rest)) rfl rfl)

theorem moves_applyUpdateDeps {s : Stage} {c : Completion} {q : TaskQueue}
    (hc : s.completing = some c) (htr : s.transit = [])
    (h : s.queue.applyUpdateDeps env (TaskQueue.placeholder c) = .ok q) :
    Moves env lossy s (s.withQueue q) := by
  unfold TaskQueue.applyUpdateDeps at h
  obtain ⟨⟨readyFile, readyTable, q₁⟩, hr, h⟩ := Except.of_bind_eq_ok h
  obtain ⟨q₂, hfiles, htables⟩ := Except.of_bind_eq_ok h
  have hms₁ : Moves env lossy s (s.carry q₁ (s.transit ++ (readyFile ++ readyTable))) :=
    moves_updateDependencyRecords hc rfl hr
  have hms₂ : Moves env lossy (s.carry q₁ (s.transit ++ (readyFile ++ readyTable)))
      (s.carry q₂ readyTable) :=
    moves_putBack moves_updateReadyFiles readyTable readyFile (by simp [htr]) hfiles
  have hms₃ : Moves env lossy (s.carry q₂ readyTable) (s.carry q []) :=
    moves_putBack moves_updateReadyTables [] readyTable (by simp) htables
  have hend : s.withQueue q = s.carry q [] := by rw [← htr]; rfl
  rw [hend]
  exact hms₁.trans (hms₂.trans hms₃)

theorem moves_applyRegisterTable {s : Stage} {c : Completion} {q : TaskQueue}
    (hc : s.completing = some c) (hact : .registerTable ∈ c.actions)
    (h : s.queue.applyRegisterTable env (TaskQueue.placeholder c) = .ok q) :
    Moves env lossy s (s.withQueue q) := by
  have hm := @Move.register env lossy _ c c.tableId hc
    (by simp [Completion.registers, hact])
  unfold TaskQueue.applyRegisterTable at h
  split at h
  · next hty =>
      obtain ⟨d, hd, h⟩ := Except.of_bind_eq_ok h
      have hdep := DependencyPayload.eq_of_getCopyTable hd
      rw [← Except.ok.inj h]
      refine .tail (.single hm) (.register c d.newTable hc ?_)
      have hty : c.type = .copyTable := hty
      have hdep : c.depends = .copyTable d := hdep
      simp [Completion.registers, hact, hty, hdep]
  · rw [← Except.ok.inj h]
    exact .single hm

theorem moves_applyActions {c : Completion} {q : TaskQueue} :
    {actions : List CompletionAction} → {s : Stage} → s.completing = some c → s.transit = [] →
    (∀ a ∈ actions, a ∈ c.actions) →
    s.queue.applyActions env actions (TaskQueue.placeholder c) = .ok q →
    Moves env lossy s (s.withQueue q)
  | [], s, _, _, _, h => by
      rw [← Except.ok.inj h]
      exact .refl
  | a :: actions, s, hc, htr, hact, h => by
      unfold TaskQueue.applyActions at h
      rw [List.foldlM_cons] at h
      obtain ⟨q₁, ha, h⟩ := Except.of_bind_eq_ok h
      have hms₁ : Moves env lossy s (s.withQueue q₁) := by
        cases a with
        | registerTable =>
            exact moves_applyRegisterTable hc (hact _ List.mem_cons_self) ha
        | updateDeps => exact moves_applyUpdateDeps hc htr ha
      exact hms₁.trans (moves_applyActions (s := s.withQueue q₁) hc htr
        (fun b hb => hact b (List.mem_cons_of_mem _ hb)) h)

theorem moves_callback {s : Stage} {c : Completion} {q : TaskQueue} (hc : s.completing = some c)
    (htr : s.transit = []) (h : s.queue.callback env c = .ok q) :
    Moves env lossy s (s.withQueue q) := by
  unfold TaskQueue.callback at h
  obtain ⟨q₁, ha, h⟩ := Except.of_bind_eq_ok h
  have hms : Moves env lossy s (s.withQueue q₁) := moves_applyActions hc htr (fun _ h => h) ha
  cases ht : c.tableQ with
  | none =>
      rw [ht] at h
      exact Except.ok.inj h ▸ hms
  | some t =>
      rw [ht] at h
      rw [← Except.ok.inj h]
      exact hms.tail (.reindex c t hc ht)

end Stage

/-! ## the calls of a run -/

/-- The stage between two calls. -/
def RunState.stage (r : RunState) : Stage := { r with }

/-- **A fetch is a sequence of moves.** -/
theorem moves_fetch {env : Env} {lossy : Prop} {r r' : RunState} (h : r.fetch env = some r')
    (hl : ¬ lossy → r.queue.everyFetchRound env (fun q => !q.drawsBoth env) = true) :
    Moves env lossy r.stage r'.stage := by
  have hms := @Stage.moves_fetchNext env lossy r.stage rfl hl
  change Stage.RoundMoves env lossy r.stage (.inr (r.queue.fetchNext env)) at hms
  obtain ⟨task, q, hf, rfl⟩ | ⟨q, hf, rfl⟩ := RunState.fetch_cases h
  · rw [hf] at hms
    exact hms
  · rw [hf] at hms
    simp only [Stage.RoundMoves, Stage.afterFetch_none] at hms
    exact hms

/-- **A completion is a sequence of moves**, between its start and its end. -/
theorem moves_complete {env : Env} {lossy : Prop} {r r' : RunState} {k : Nat}
    (h : r.complete env k = some r') : ∃ task q, r.inFlight[k]? = some task ∧
      r.queue.callback env task.onCompleted = .ok q ∧
      Moves env lossy (r.stage.begin k task) ((r.stage.begin k task).withQueue q) ∧
      r'.stage = ((r.stage.begin k task).withQueue q).finish task.onCompleted := by
  unfold RunState.complete at h
  cases hk : r.inFlight[k]? with
  | none => rw [hk] at h; contradiction
  | some task =>
      rw [hk] at h
      cases hq : r.queue.onCompleted env task.onCompleted with
      | error e => simp only [hq] at h; contradiction
      | ok q =>
          simp only [hq, Option.some.injEq] at h
          subst h
          unfold TaskQueue.onCompleted at hq
          obtain ⟨q₁, hcb, hq⟩ := Except.of_bind_eq_ok hq
          rw [← Except.ok.inj hq]
          exact ⟨task, q₁, rfl, hcb, Stage.moves_callback rfl rfl hcb, rfl⟩

/-! ## the invariant rule -/

/-- The property is preserved by whatever happens within a call. -/
structure Preserved (env : Env) (lossy : Prop) (I : Stage → Prop) : Prop where
  move : ∀ {s s'}, I s → Move env lossy s s' → I s'
  begin : ∀ {s k task}, I s → s.completing = none → s.inFlight[k]? = some task →
    I (s.begin k task)
  finish : ∀ {s c}, I s → s.completing = some c → I (s.finish c)

/-- What every move preserves, a sequence of moves preserves. -/
theorem moves_preserve {env : Env} {lossy : Prop} {I : Stage → Prop}
    (move : ∀ {s s'}, I s → Move env lossy s s' → I s') {s s' : Stage}
    (hms : Moves env lossy s s') (hI : I s) : I s' := by
  induction hms with
  | refl => exact hI
  | tail _ hm ih => exact move ih hm

/-- What happens within a call preserves the property, so a step of a run
does. -/
theorem Preserved.step {env : Env} {lossy : Prop} {I : Stage → Prop} (hI : Preserved env lossy I)
    {r r' : RunState} {a : RunAction}
    (hl : a = .fetch → ¬ lossy →
      r.queue.everyFetchRound env (fun q => !q.drawsBoth env) = true)
    (h : (scheduler env).step r a = some r') (hr : I r.stage) : I r'.stage := by
  cases a with
  | fetch => exact moves_preserve hI.move (moves_fetch h (hl rfl)) hr
  | complete k =>
      obtain ⟨task, q, hk, _, hms, hr'⟩ := @moves_complete _ lossy _ _ _ h
      rw [hr']
      exact hI.finish (moves_preserve hI.move hms (hI.begin hr rfl hk)) rfl

/-- What happens within a call preserves the property, so it holds along every
run. -/
theorem Preserved.run {env : Env} {guard : RunState → RunAction → Prop} {I : Stage → Prop}
    (hI : Preserved env True I) {r r' : RunState} (run : (scheduler env).Runs guard r r')
    (hr : I r.stage) : I r'.stage :=
  run.invariant (I := fun r => I r.stage) hr fun _ _ _ hI' _ hs =>
    hI.step (fun _ hn => absurd trivial hn) hs hI'

end LemonDB
