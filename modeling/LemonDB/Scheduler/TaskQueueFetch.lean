import LemonDB.Scheduler.TaskQueue

/-!
# LemonDB.Scheduler.TaskQueueFetch

`fetchNext` and its helpers: the candidates of a round, the judgement of their
dependencies, barriers, and the loop over rounds.  A round that does not
return parks an item in a waiting heap and goes round again; it takes an entry
from the load queue or from the heap of the global index and puts none back,
so their lengths bound the number of rounds.
-/

namespace LemonDB

namespace TaskQueue

/-- Count a hand-out. -/
def countFetch (s : TaskQueue) : TaskQueue :=
  { s with running := s.running + 1, fetchTick := s.fetchTick + 1 }

/-- Whether a sequence number lies behind the first pending barrier. -/
def behindBarrier (s : TaskQueue) (seq : Nat) : Bool :=
  match s.barriers with
  | [] => false
  | barrier :: _ => decide (seq > barrier.seq)

/-- The LOAD candidate of one round: the front of the load queue, unless it is
blocked or behind a barrier. -/
def takeLoad (s : TaskQueue) : Option ScheduledItem × TaskQueue :=
  match s.loadQueue with
  | [] => (none, s)
  | front :: rest =>
      if s.loadBlocked then (none, s)
      else if s.behindBarrier front.seq then (none, { s with loadBlocked := true })
      else (some front, { s with loadQueue := rest })

/-- Note a table queue as blocked by the current barrier. -/
def blockTable (s : TaskQueue) (table : String) : TaskQueue :=
  { s with waitingTables := s.waitingTables ++ [table] }

/-- The table candidate of one round: the head of the best indexed queue that
is neither empty nor behind a barrier. -/
def pickTable (env : Env) :
    MeasuredLoop TaskQueue (Option (ScheduledItem × String) × TaskQueue) where
  body s := match s.globalIndex.pickBest env.heap with
    | (none, g) => .inr (none, s.setIndex g)
    | (some picked, g) =>
        let s := s.setIndex g
        match s.queueOf picked with
        | [] => .inl s
        | head :: _ =>
            if s.behindBarrier head.seq then
              .inl (s.blockTable picked)
            else .inr (some (head, picked), s)
  measure s := s.globalIndex.heap.length
  decreases := by
    intro s s' h
    have hlt := GlobalIndex.length_pickBest_lt env.heap s.globalIndex
    rcases hp : s.globalIndex.pickBest env.heap with ⟨_ | picked, g⟩
    · simp only [hp] at h
      contradiction
    · rw [hp] at hlt
      simp only [hp] at h
      split at h
      · exact (Sum.inl.inj h) ▸ hlt rfl
      · split at h
        · exact (Sum.inl.inj h) ▸ hlt rfl
        · contradiction

/-- The LOAD and the table task between which a round decides. -/
def getFetched (env : Env) (s : TaskQueue) :
    Option ScheduledItem × Option (ScheduledItem × String) × TaskQueue :=
  let (loadCand, s) := s.takeLoad
  let (tableCand, s) := (pickTable env).run s
  (loadCand, tableCand, s)

/-- Hand out the first barrier once nothing runs; the tables and the load
queue that it blocked are released. -/
def fetchBarrier (env : Env) (s : TaskQueue) :
    Except SchedError (Option ExecutableTask × TaskQueue) :=
  match s.barriers with
  | [] => return (none, s)
  | barrierItem :: barriers =>
      if s.running > 0 then return (none, s)
      else do
        let s := { s with barriers, quitFlag := s.quitFlag || decide (barrierItem.type = QueryType.quit) }
        let out ← s.buildExecutableFromScheduled barrierItem
        let s := s.countFetch
        let s := s.waitingTables.foldl (upsertHead env) s
        return (some out, { s with waitingTables := [], loadBlocked := false })

/-- Park a LOAD whose file or table it depends on is not completed. -/
def judgeLoadDeps (s : TaskQueue) (loadCand : ScheduledItem) :
    Except SchedError (Option TaskQueue) := do
  let lDeps ← loadCand.depends.getLoad
  if lDeps.fileDependsOn > s.depManager.lastCompletedFor .file lDeps.filePath then
    return some (s.addWait .file lDeps.filePath loadCand)
  else if lDeps.tableDependsOn > s.depManager.lastCompletedFor .table loadCand.tableId then
    return some (s.addWait .table loadCand.tableId loadCand)
  else return none

/-- Move the head of a table queue to the waiting heap of a key. -/
def parkHead (s : TaskQueue) (table : String) (type : DependencyType) (key : String)
    (head : ScheduledItem) : TaskQueue :=
  (s.setQueue table (s.queueOf table).tail).addWait type key head

/-- Park the head of a table queue whose file or tables are not completed. -/
def judgeNormalDeps (s : TaskQueue) (tableCand : ScheduledItem) (tableCandQ : String) :
    Except SchedError (Option TaskQueue) :=
  match tableCand.type with
  | .dump => do
      let dumpDeps ← tableCand.depends.getDump
      if dumpDeps.fileDependsOn > s.depManager.lastCompletedFor .file dumpDeps.filePath then
        return some (s.parkHead tableCandQ .file dumpDeps.filePath tableCand)
      else if dumpDeps.tableDependsOn > s.depManager.lastCompletedFor .table tableCand.tableId then
        return some (s.parkHead tableCandQ .table tableCand.tableId tableCand)
      else return none
  | .drop => do
      let dropDeps ← tableCand.depends.getDrop
      if dropDeps.tableDependsOn > s.depManager.lastCompletedFor .table tableCand.tableId then
        return some (s.parkHead tableCandQ .table tableCand.tableId tableCand)
      else return none
  | .copyTable => do
      let copyDeps ← tableCand.depends.getCopyTable
      if copyDeps.srcTableDependsOn > s.depManager.lastCompletedFor .table tableCand.tableId then
        return some (s.parkHead tableCandQ .table tableCand.tableId tableCand)
      else if copyDeps.dstTableDependsOn >
          s.depManager.lastCompletedFor .table copyDeps.newTable then
        return some (s.parkHead tableCandQ .table copyDeps.newTable tableCand)
      else return none
  | _ => return none

/-- Whether the LOAD candidate goes before the table candidate. -/
def preferLoad (loadCand tableCand : ScheduledItem) : Bool :=
  decide (loadCand.priority.value < tableCand.priority.value) ||
    (decide (loadCand.priority = tableCand.priority) && decide (loadCand.seq < tableCand.seq))

/-- How one round of `fetchNext` ends: go round again, or leave the loop. -/
abbrev Round := TaskQueue ⊕ Except SchedError (Option ExecutableTask × TaskQueue)

/-- The LOAD branch of a round. -/
def fetchLoad (s : TaskQueue) (loadCand : ScheduledItem) : Round :=
  match s.judgeLoadDeps loadCand with
  | .error e => .inr (.error e)
  | .ok (some s) => .inl s
  | .ok none => .inr do
      let out ← s.buildExecutableFromScheduled loadCand
      return (some out, s.countFetch)

/-- The table branch of a round. -/
def fetchTable (s : TaskQueue) (tableCand : ScheduledItem) (tableCandQ : String) : Round :=
  match s.judgeNormalDeps tableCand tableCandQ with
  | .error e => .inr (.error e)
  | .ok (some s) => .inl s
  | .ok none => .inr do
      let out ← s.buildExecutableFromScheduled tableCand
      -- the next task of the queue is entered when this one completes
      return (some out, (s.setQueue tableCandQ (s.queueOf tableCandQ).tail).countFetch)

/-- The end of a round destroys the LOAD candidate that was not used. -/
def abandon (s : TaskQueue) : Option ScheduledItem → TaskQueue
  | none => s
  | some loadCand => { s with abandoned := s.abandoned ++ [loadCand] }

/-- One round of `fetchNext`. -/
def fetchRound (env : Env) (s : TaskQueue) : Round :=
  match s.getFetched env with
  | (none, none, s) => .inr (s.fetchBarrier env)
  | (some loadCand, none, s) => s.fetchLoad loadCand
  | (none, some (tableCand, tableCandQ), s) => s.fetchTable tableCand tableCandQ
  | (some loadCand, some (tableCand, tableCandQ), s) =>
      if preferLoad loadCand tableCand then s.fetchLoad loadCand
      else (s.abandon (some loadCand)).fetchTable tableCand tableCandQ

/-! ## what the candidates are -/

/-- The LOAD candidate: none and nothing changed; none and the load queue gets
blocked; or the front of the load queue. -/
theorem takeLoad_cases (s : TaskQueue) :
    (s.takeLoad = (none, s) ∧ (s.loadQueue = [] ∨ s.loadBlocked = true)) ∨
    (∃ front rest, s.loadQueue = front :: rest ∧ s.behindBarrier front.seq = true ∧
      s.takeLoad = (none, { s with loadBlocked := true })) ∨
    (∃ front rest, s.loadQueue = front :: rest ∧ s.loadBlocked = false ∧
      s.behindBarrier front.seq = false ∧
      s.takeLoad = (some front, { s with loadQueue := rest })) := by
  unfold takeLoad
  split
  · next hnil => exact .inl ⟨rfl, .inl hnil⟩
  · next front rest hq =>
      split
      · next hb => exact .inl ⟨rfl, .inr hb⟩
      · next hb =>
          split
          · next hbar => exact .inr (.inl ⟨front, rest, hq, hbar, rfl⟩)
          · next hbar =>
              exact .inr (.inr ⟨front, rest, hq, by simpa using hb, by simpa using hbar, rfl⟩)

@[simp] theorem queueOf_setIndex (s : TaskQueue) (g : GlobalIndex String) (t : String) :
    (s.setIndex g).queueOf t = s.queueOf t := rfl

@[simp] theorem behindBarrier_setIndex (s : TaskQueue) (g : GlobalIndex String) (n : Nat) :
    (s.setIndex g).behindBarrier n = s.behindBarrier n := rfl

/-- One turn of the search for a table candidate. -/
inductive PickTurn (env : Env) (s : TaskQueue) :
    TaskQueue ⊕ Option (ScheduledItem × String) × TaskQueue → Prop
  | exhausted (g) : s.globalIndex.pickBest env.heap = (none, g) →
      PickTurn env s (.inr (none, s.setIndex g))
  | emptyQueue (t g) : s.globalIndex.pickBest env.heap = (some t, g) → s.queueOf t = [] →
      PickTurn env s (.inl (s.setIndex g))
  | blocked (t g head rest) : s.globalIndex.pickBest env.heap = (some t, g) →
      s.queueOf t = head :: rest → s.behindBarrier head.seq = true →
      PickTurn env s (.inl ((s.setIndex g).blockTable t))
  | found (t g head rest) : s.globalIndex.pickBest env.heap = (some t, g) →
      s.queueOf t = head :: rest → s.behindBarrier head.seq = false →
      PickTurn env s (.inr (some (head, t), s.setIndex g))

theorem pickTable_turn (env : Env) (s : TaskQueue) : PickTurn env s ((pickTable env).body s) := by
  cases hp : s.globalIndex.pickBest env.heap with
  | mk picked g =>
      cases picked with
      | none =>
          simp only [pickTable, hp]
          exact .exhausted g hp
      | some t =>
          cases hq : s.queueOf t with
          | nil =>
              simp only [pickTable, hp, queueOf_setIndex, hq]
              exact .emptyQueue t g hp hq
          | cons head rest =>
              cases hb : s.behindBarrier head.seq with
              | true =>
                  have hturn := PickTurn.blocked t g head rest hp hq hb
                  simpa [pickTable, hp, hq, hb] using hturn
              | false =>
                  have hturn := PickTurn.found t g head rest hp hq hb
                  simpa [pickTable, hp, hq, hb] using hturn

/-- The search for a table candidate takes entries from the global index, moves
the tables that a barrier blocks to `waitingTables`, and changes nothing
else. -/
structure PickTableSpec (s : TaskQueue) (cand : Option (ScheduledItem × String)) (s' : TaskQueue)
    (moved : List String) : Prop where
  frame : s' = { s with globalIndex := s'.globalIndex, waitingTables := s.waitingTables ++ moved }
  length_le : s'.globalIndex.heap.length ≤ s.globalIndex.heap.length
  length_lt : cand.isSome → s'.globalIndex.heap.length < s.globalIndex.heap.length
  blocked : ∀ t ∈ moved, ∃ head rest, s.queueOf t = head :: rest ∧ s.behindBarrier head.seq = true
  head : ∀ h t, cand = some (h, t) → (∃ rest, s.queueOf t = h :: rest) ∧
    s.behindBarrier h.seq = false

theorem pickTable_spec (env : Env) (s : TaskQueue) :
    ∃ moved, PickTableSpec s ((pickTable env).run s).1 ((pickTable env).run s).2 moved := by
  refine (pickTable env).run_induction (P := fun s r => ∃ moved, PickTableSpec s r.1 r.2 moved)
    ?_ ?_ s
  · intro s r hb
    have hturn := pickTable_turn env s
    rw [hb] at hturn
    cases hturn with
    | exhausted g hp =>
        have hle := GlobalIndex.length_pickBest_le env.heap s.globalIndex
        exact ⟨[], by simp [setIndex], by rwa [hp] at hle, by simp, by simp, by simp⟩
    | found t g head rest hp hq hbar =>
        have hlt := GlobalIndex.length_pickBest_lt env.heap s.globalIndex
        rw [hp] at hlt
        refine ⟨[], by simp [setIndex], Nat.le_of_lt (hlt rfl), fun _ => hlt rfl, by simp, ?_⟩
        rintro h t' ⟨rfl, rfl⟩
        exact ⟨⟨rest, hq⟩, hbar⟩
  · intro s s' r hb ⟨moved, hr⟩
    have hturn := pickTable_turn env s
    have hdec := (pickTable env).decreases hb
    rw [hb] at hturn
    have hle : r.2.globalIndex.heap.length < s.globalIndex.heap.length :=
      Nat.lt_of_le_of_lt hr.length_le hdec
    cases hturn with
    | emptyQueue t g hp hq =>
        refine ⟨moved, ?_, Nat.le_of_lt hle, fun _ => hle, hr.blocked, hr.head⟩
        rw [hr.frame]
        rfl
    | blocked t g head rest hp hq hbar =>
        refine ⟨t :: moved, ?_, Nat.le_of_lt hle, fun _ => hle, ?_, hr.head⟩
        · rw [hr.frame]
          simp [setIndex, blockTable]
        · intro t' ht'
          rcases List.mem_cons.mp ht' with rfl | ht'
          · exact ⟨head, rest, hq, hbar⟩
          · exact hr.blocked t' ht'

/-! ## the loop terminates -/

/-- What bounds the rounds of `fetchNext`. -/
def roundMeasure (s : TaskQueue) : Nat := s.loadQueue.length + s.globalIndex.heap.length

theorem judgeLoadDeps_some {s s' : TaskQueue} {loadCand : ScheduledItem}
    (h : s.judgeLoadDeps loadCand = .ok (some s')) :
    ∃ type key, s' = s.addWait type key loadCand := by
  unfold judgeLoadDeps at h
  cases hd : loadCand.depends.getLoad with
  | error e => rw [hd] at h; contradiction
  | ok d =>
      simp only [hd, bind, Except.bind, pure, Except.pure] at h
      grind

theorem judgeNormalDeps_some {s s' : TaskQueue} {tableCand : ScheduledItem} {tableCandQ : String}
    (h : s.judgeNormalDeps tableCand tableCandQ = .ok (some s')) :
    ∃ type key, s' = s.parkHead tableCandQ type key tableCand := by
  unfold judgeNormalDeps at h
  simp only [bind, Except.bind, pure, Except.pure] at h
  grind

theorem fetchLoad_inl {s s' : TaskQueue} {loadCand : ScheduledItem}
    (h : s.fetchLoad loadCand = .inl s') : s.judgeLoadDeps loadCand = .ok (some s') := by
  unfold fetchLoad at h
  grind

theorem fetchTable_inl {s s' : TaskQueue} {tableCand : ScheduledItem} {tableCandQ : String}
    (h : s.fetchTable tableCand tableCandQ = .inl s') :
    s.judgeNormalDeps tableCand tableCandQ = .ok (some s') := by
  unfold fetchTable at h
  grind

theorem length_takeLoad_le (s : TaskQueue) :
    s.takeLoad.2.loadQueue.length ≤ s.loadQueue.length := by
  rcases s.takeLoad_cases with ⟨h, _⟩ | ⟨_, _, _, _, h⟩ | ⟨front, rest, hq, _, _, h⟩
  · rw [h]
  · rw [h]
  · rw [h, hq]
    exact Nat.le_succ _

theorem length_takeLoad_lt {s : TaskQueue} {loadCand : ScheduledItem}
    (h : s.takeLoad.1 = some loadCand) :
    s.takeLoad.2.loadQueue.length < s.loadQueue.length := by
  rcases s.takeLoad_cases with ⟨h', _⟩ | ⟨_, _, _, _, h'⟩ | ⟨front, rest, hq, _, _, h'⟩
  · rw [h'] at h; contradiction
  · rw [h'] at h; contradiction
  · rw [h', hq]
    exact Nat.lt_succ_self _

/-- A round that finds a candidate takes an entry out. -/
theorem roundMeasure_getFetched {env : Env} {s s' : TaskQueue} {loadCand : Option ScheduledItem}
    {tableCand : Option (ScheduledItem × String)}
    (h : s.getFetched env = (loadCand, tableCand, s'))
    (hc : loadCand.isSome ∨ tableCand.isSome) : s'.roundMeasure < s.roundMeasure := by
  obtain ⟨moved, hpick⟩ := pickTable_spec env s.takeLoad.2
  simp only [getFetched, Prod.mk.injEq] at h
  obtain ⟨hl, ht, rfl⟩ := h
  have hlq : ((pickTable env).run s.takeLoad.2).2.loadQueue = s.takeLoad.2.loadQueue := by
    rw [hpick.frame]
  have hheap : s.takeLoad.2.globalIndex = s.globalIndex := by
    rcases s.takeLoad_cases with ⟨h, _⟩ | ⟨_, _, _, _, h⟩ | ⟨_, _, _, _, _, h⟩ <;> rw [h]
  have hle := hpick.length_le
  have hlle := length_takeLoad_le s
  simp only [roundMeasure, hlq]
  rw [hheap] at hle
  rcases hc with hc | hc
  · obtain ⟨l, hsome⟩ := Option.isSome_iff_exists.mp hc
    have hlt := length_takeLoad_lt (hl.trans hsome)
    omega
  · have hlt := hpick.length_lt (ht ▸ hc)
    rw [hheap] at hlt
    omega

theorem roundMeasure_fetchRound {env : Env} {s s' : TaskQueue} (h : s.fetchRound env = .inl s') :
    s'.roundMeasure < s.roundMeasure := by
  have hload : ∀ {s₁ : TaskQueue} {l : ScheduledItem}, s₁.fetchLoad l = .inl s' →
      s'.roundMeasure = s₁.roundMeasure := by
    intro s₁ l hs
    obtain ⟨type, key, rfl⟩ := judgeLoadDeps_some (fetchLoad_inl hs)
    rfl
  have htable : ∀ {s₁ : TaskQueue} {x : ScheduledItem} {q : String}, s₁.fetchTable x q = .inl s' →
      s'.roundMeasure = s₁.roundMeasure := by
    intro s₁ x q hs
    obtain ⟨type, key, rfl⟩ := judgeNormalDeps_some (fetchTable_inl hs)
    rfl
  unfold fetchRound at h
  split at h
  · contradiction
  · next hf => exact hload h ▸ roundMeasure_getFetched hf (.inl rfl)
  · next hf => exact htable h ▸ roundMeasure_getFetched hf (.inr rfl)
  · next hf =>
      split at h
      · exact hload h ▸ roundMeasure_getFetched hf (.inl rfl)
      · have hlt := roundMeasure_getFetched hf (.inl rfl)
        rw [htable h]
        exact hlt

/-- The `while (true)` loop of `fetchNext`. -/
def fetchLoop (env : Env) :
    MeasuredLoop TaskQueue (Except SchedError (Option ExecutableTask × TaskQueue)) where
  body := fetchRound env
  measure := roundMeasure
  decreases := roundMeasure_fetchRound

/-- Whether a condition holds before every round of the loop. -/
def everyRound (env : Env) (p : TaskQueue → Bool) : MeasuredLoop TaskQueue Bool where
  body s := if p s then
      match s.fetchRound env with
      | .inl s => .inl s
      | .inr _ => .inr true
    else .inr false
  measure := roundMeasure
  decreases := by
    intro s s' h
    split at h
    · cases hr : s.fetchRound env with
      | inl q =>
          rw [hr] at h
          exact roundMeasure_fetchRound (hr.trans (congrArg Sum.inl (Sum.inl.inj h)))
      | inr r => rw [hr] at h; contradiction
    · contradiction

theorem everyRound_head {env : Env} {p : TaskQueue → Bool} {s : TaskQueue}
    (h : (everyRound env p).run s = true) : p s = true := by
  cases hp : p s with
  | true => rfl
  | false =>
      rw [(everyRound env p).run_of_return (r := false) (by simp [everyRound, hp])] at h
      contradiction

theorem everyRound_tail {env : Env} {p : TaskQueue → Bool} {s s' : TaskQueue}
    (h : (everyRound env p).run s = true) (hr : s.fetchRound env = .inl s') :
    (everyRound env p).run s' = true := by
  have hp := everyRound_head h
  have hb : (everyRound env p).body s = .inl s' := by simp [everyRound, hp, hr]
  rwa [(everyRound env p).run_of_continue hb] at h

/-- Fetch the next executable task; none if no task is ready.  An exception
leaves the queue and ends the program. -/
def fetchNext (env : Env) (s : TaskQueue) : Except SchedError (Option ExecutableTask × TaskQueue) :=
  if s.readyToFetch then (fetchLoop env).run s else return (none, s)

/-- Whether a condition holds before every round of a `fetchNext`. -/
def everyFetchRound (env : Env) (p : TaskQueue → Bool) (s : TaskQueue) : Bool :=
  !s.readyToFetch || (everyRound env p).run s

end TaskQueue

end LemonDB
