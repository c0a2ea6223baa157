import LemonDB.Scheduler.Moves
import Mathlib.Data.List.Perm.Basic
import Mathlib.Tactic.Abel

/-!
# LemonDB.Scheduler.Accounting

Where the tasks are.  `TaskQueue.items` gathers everything that the task queue
holds, and `Stage.idents` the tasks of a run wherever they are; no move adds a
task to it or takes one out (`idents_move`).
-/

namespace LemonDB

namespace DependencyManager

/-- The items in all waiting heaps. -/
def waitingItems (dm : DependencyManager) : Multiset ScheduledItem :=
  dm.waitingFile.total Multiset.ofList + dm.waitingTable.total Multiset.ofList

/-- Replacing the heap of a key. -/
theorem waitingItems_setWaiting (dm : DependencyManager) (type : DependencyType) (key : String)
    (heap : WaitingHeap) : (dm.setWaiting type key heap).waitingItems + dm.waitingOn type key =
      dm.waitingItems + (heap : Multiset ScheduledItem) := by
  have hset := fun m : FiniteMap String WaitingHeap =>
    m.total_set_getD (d := []) Multiset.ofList rfl key heap
  have hremove := fun m : FiniteMap String WaitingHeap =>
    m.total_remove_getD (d := []) Multiset.ofList rfl key
  cases type with
  | file =>
      cases heap with
      | nil =>
          simp only [waitingItems, setWaiting, waitingOn, Multiset.coe_nil, add_zero]
          rw [← hremove dm.waitingFile, add_right_comm]
      | cons x heap =>
          simp only [waitingItems, setWaiting, waitingOn]
          rw [add_right_comm, hset, add_right_comm]
  | table =>
      cases heap with
      | nil =>
          simp only [waitingItems, setWaiting, waitingOn, Multiset.coe_nil, add_zero]
          rw [← hremove dm.waitingTable, add_assoc]
      | cons x heap =>
          simp only [waitingItems, setWaiting, waitingOn]
          rw [add_assoc, hset, add_assoc]

/-- An item that starts to wait is one more waiting item. -/
theorem waitingItems_addWait (dm : DependencyManager) (type : DependencyType) (key : String)
    (x : ScheduledItem) : (dm.addWait type key x).waitingItems = x ::ₘ dm.waitingItems := by
  have hset := dm.waitingItems_setWaiting type key
    ((dm.waitingOn type key).orderedInsert (fun a b => a.seq ≤ b.seq) x)
  have hperm : (((dm.waitingOn type key).orderedInsert (fun a b => a.seq ≤ b.seq) x :
      List ScheduledItem) : Multiset ScheduledItem) = x ::ₘ (dm.waitingOn type key) :=
    Multiset.coe_eq_coe.mpr (List.perm_orderedInsert _ x _)
  rw [hperm, ← Multiset.singleton_add, ← add_assoc, add_right_cancel_iff] at hset
  rw [addWait, hset, add_comm, Multiset.singleton_add]

/-- What `popReady` takes out and what it leaves. -/
theorem popReady_append {type : DependencyType} {n : Nat} :
    {heap popped rest : List ScheduledItem} → popReady type n heap = .ok (popped, rest) →
      popped ++ rest = heap
  | [], popped, rest, h => by
      simp only [popReady, Except.ok.injEq, Prod.mk.injEq] at h
      rw [← h.1, ← h.2, List.append_nil]
  | x :: heap, popped, rest, h => by
      simp only [popReady] at h
      obtain ⟨b, _, h⟩ := Except.of_bind_eq_ok h
      split at h
      · obtain ⟨rfl, rfl⟩ := Prod.mk.inj (Except.ok.inj h)
        rfl
      · obtain ⟨⟨popped', rest'⟩, hp, h⟩ := Except.of_bind_eq_ok h
        obtain ⟨rfl, rfl⟩ := Prod.mk.inj (Except.ok.inj h)
        rw [List.cons_append, popReady_append hp]

theorem waitingItems_setLastCompleted (dm : DependencyManager) (type : DependencyType)
    (key : String) (n : Nat) :
    (dm.setLastCompleted type key n).waitingItems = dm.waitingItems := by
  cases type <;> rfl

theorem waitingOn_setLastCompleted (dm : DependencyManager) (type type' : DependencyType)
    (key key' : String) (n : Nat) :
    (dm.setLastCompleted type key n).waitingOn type' key' = dm.waitingOn type' key' := by
  cases type <;> rfl

/-- Every waiting item waits on some key. -/
theorem mem_waitingItems (dm : DependencyManager) (x : ScheduledItem) :
    x ∈ dm.waitingItems ↔ ∃ type key, x ∈ dm.waitingOn type key := by
  rw [waitingItems, Multiset.mem_add, FiniteMap.mem_total, FiniteMap.mem_total]
  constructor
  · intro h
    cases h with
    | inl h =>
        obtain ⟨key, heap, hk, hx⟩ := h
        exact ⟨.file, key, by simpa [waitingOn, hk] using hx⟩
    | inr h =>
        obtain ⟨key, heap, hk, hx⟩ := h
        exact ⟨.table, key, by simpa [waitingOn, hk] using hx⟩
  · intro ⟨type, key, hx⟩
    cases type with
    | file =>
        cases hk : dm.waitingFile.get? key with
        | none => simp [waitingOn, hk] at hx
        | some heap => exact .inl ⟨key, heap, hk, by simpa [waitingOn, hk] using hx⟩
    | table =>
        cases hk : dm.waitingTable.get? key with
        | none => simp [waitingOn, hk] at hx
        | some heap => exact .inr ⟨key, heap, hk, by simpa [waitingOn, hk] using hx⟩

theorem waitingItems_eq_zero {dm : DependencyManager}
    (h : ∀ type key, dm.waitingOn type key = []) : dm.waitingItems = 0 := by
  refine Multiset.eq_zero_of_forall_notMem fun x hx => ?_
  obtain ⟨type, key, hx⟩ := (dm.mem_waitingItems x).mp hx
  rw [h] at hx
  contradiction

end DependencyManager

namespace TaskQueue

/-- Everything that the task queue holds. -/
def items (q : TaskQueue) : Multiset ScheduledItem :=
  q.loadQueue + q.tables.total (fun tbl => Multiset.ofList tbl.queue) + q.barriers +
    q.depManager.waitingItems + q.abandoned

/-- Replacing a table queue exchanges its items. -/
theorem items_setTable (q : TaskQueue) (t : String) (tbl : TableQueue) :
    (q.setTable t tbl).items + q.queueOf t = q.items + tbl.queue := by
  have h := q.tables.total_set_getD (d := {}) (fun tbl => Multiset.ofList tbl.queue) rfl t tbl
  simp only [items, setTable, queueOf]
  have hc : ∀ a b c d e x : Multiset ScheduledItem, a + b + c + d + e + x = a + (b + x) + c + d + e :=
    fun a b c d e x => by abel
  rw [hc, h]
  abel

theorem items_setQueue (q : TaskQueue) (t : String) (l : List ScheduledItem) :
    (q.setQueue t l).items + q.queueOf t = q.items + l := items_setTable q t _

/-- Popping the head of a table queue. -/
theorem items_tail {q : TaskQueue} {t : String} {head : ScheduledItem} {rest : List ScheduledItem}
    (h : q.queueOf t = head :: rest) : head ::ₘ (q.setQueue t rest).items = q.items := by
  have hset := q.items_setQueue t rest
  rw [h, ← Multiset.cons_coe, Multiset.add_cons, ← Multiset.cons_add,
    add_right_cancel_iff] at hset
  exact hset

/-- Popping the load queue takes out its front. -/
theorem items_loadQueue {q : TaskQueue} {front : ScheduledItem} {rest : List ScheduledItem}
    (h : q.loadQueue = front :: rest) :
    front ::ₘ ({ q with loadQueue := rest } : TaskQueue).items = q.items := by
  simp only [items, h, ← Multiset.cons_coe, Multiset.cons_add]

/-- Popping the barriers takes out the first one. -/
theorem items_popBarrier {q : TaskQueue} {barrier : ScheduledItem} {rest : List ScheduledItem}
    (h : q.barriers = barrier :: rest) :
    barrier ::ₘ (q.popBarrier barrier rest).items = q.items := by
  simp only [items, popBarrier, h, ← Multiset.cons_coe, Multiset.cons_add, Multiset.add_cons]

/-- An abandoned item is still accounted for. -/
theorem items_abandon (q : TaskQueue) (x : ScheduledItem) :
    (q.abandon (some x)).items = x ::ₘ q.items := by
  simp only [items, abandon, ← Multiset.coe_add, Multiset.coe_singleton, ← Multiset.singleton_add]
  abel

/-- An item that starts to wait is held by the task queue. -/
theorem items_addWait (q : TaskQueue) (type : DependencyType) (key : String) (x : ScheduledItem) :
    (q.addWait type key x).items = x ::ₘ q.items := by
  simp only [items, addWait, DependencyManager.waitingItems_addWait, ← Multiset.singleton_add]
  abel

@[simp] theorem items_setIndex (q : TaskQueue) (g : GlobalIndex String) :
    (q.setIndex g).items = q.items := rfl

@[simp] theorem items_upsert (env : Env) (q : TaskQueue) (t : String) (x : ScheduledItem) :
    (q.upsert env t x).items = q.items := rfl

@[simp] theorem items_upsertHead (env : Env) (q : TaskQueue) (t : String) :
    (q.upsertHead env t).items = q.items := by
  unfold upsertHead
  split <;> rfl

@[simp] theorem items_countFetch (q : TaskQueue) : q.countFetch.items = q.items := rfl

@[simp] theorem items_countCompleted (q : TaskQueue) : q.countCompleted.items = q.items := rfl

/-- A woken item is held by the task queue. -/
theorem items_requeue (env : Env) (q : TaskQueue) (x : ScheduledItem) :
    (q.requeue env x).items = x ::ₘ q.items := by
  have h := q.items_setQueue x.tableId (x :: q.queueOf x.tableId)
  rw [← Multiset.cons_coe, Multiset.add_cons, ← Multiset.cons_add, add_right_cancel_iff] at h
  exact h

theorem items_requeueLoad (q : TaskQueue) (x : ScheduledItem) :
    (q.requeueLoad x).items = x ::ₘ q.items := by
  simp only [items, requeueLoad, ← Multiset.cons_coe, Multiset.cons_add]

theorem items_foldl_upsertHead (env : Env) (ts : List String) (q : TaskQueue) :
    (ts.foldl (upsertHead env) q).items = q.items := by
  induction ts generalizing q with
  | nil => rfl
  | cons t ts ih => rw [List.foldl_cons, ih, items_upsertHead]

/-- The release of a barrier changes no item. -/
theorem items_release (env : Env) (q : TaskQueue) : (q.release env).items = q.items :=
  items_foldl_upsertHead env q.waitingTables q

/-- Advancing a watermark takes the items that it releases off the heap of its key. -/
theorem waitingItems_advance {q : TaskQueue} {type : DependencyType} {key : String} {n : Nat}
    {popped rest : List ScheduledItem}
    (h : DependencyManager.popReady type n (q.depManager.waitingOn type key) = .ok (popped, rest)) :
    (q.advance type key n rest).depManager.waitingItems + popped = q.depManager.waitingItems := by
  have hset := (q.depManager.setLastCompleted type key n).waitingItems_setWaiting type key rest
  rwa [DependencyManager.waitingItems_setLastCompleted,
    DependencyManager.waitingOn_setLastCompleted, ← DependencyManager.popReady_append h,
    ← Multiset.coe_add, ← add_assoc, add_right_cancel_iff] at hset

/-- Advancing a watermark takes out the items that it releases. -/
theorem items_advance {q : TaskQueue} {type : DependencyType} {key : String} {n : Nat}
    {popped rest : List ScheduledItem}
    (h : DependencyManager.popReady type n (q.depManager.waitingOn type key) = .ok (popped, rest)) :
    (q.advance type key n rest).items + popped = q.items := by
  simp only [items, ← waitingItems_advance h]
  simp only [advance]
  abel

/-- Registering a table marks items of its queue, and moves none. -/
theorem items_registerTableQueue (env : Env) (q : TaskQueue) (t : String) (item : ScheduledItem)
    {f : ScheduledItem → β} (hflag : ∀ x b, f { x with droppedFlag := b } = f x) :
    (q.registerTableQueue env t item).items.map f = q.items.map f := by
  unfold registerTableQueue
  dsimp only
  split
  · rfl
  · rw [items_upsertHead]
    have hset := congrArg (Multiset.map f) (q.items_setTable t
      { registered := true
        registerSeq := item.seq
        queue := ((q.tables.get? t).getD {}).queue.map fun pending =>
          if pending.seq < item.seq then { pending with droppedFlag := true } else pending })
    have hmap : ∀ l : List ScheduledItem, (l.map fun pending =>
        if pending.seq < item.seq then { pending with droppedFlag := true } else pending).map f =
          l.map f := by
      intro l
      rw [List.map_map]
      refine List.map_congr_left fun x _ => ?_
      simp only [Function.comp_apply]
      split
      · exact hflag x true
      · rfl
    rw [Multiset.map_add, Multiset.map_add, Multiset.map_coe, Multiset.map_coe, hmap,
      show ((q.tables.get? t).getD {}).queue = q.queueOf t from rfl,
      add_right_cancel_iff] at hset
    exact hset

/-- What the task queue holds and will hand out. -/
def stored (q : TaskQueue) : Multiset ScheduledItem :=
  q.loadQueue + q.tables.total (fun tbl => Multiset.ofList tbl.queue) + q.barriers +
    q.depManager.waitingItems

theorem items_eq (q : TaskQueue) : q.items = q.stored + q.abandoned := rfl

/-- Where the stored items are. -/
theorem mem_stored (q : TaskQueue) (x : ScheduledItem) : x ∈ q.stored ↔
    x ∈ q.loadQueue ∨ (∃ t, x ∈ q.queueOf t) ∨ x ∈ q.barriers ∨
      ∃ type key, x ∈ q.depManager.waitingOn type key := by
  have htable : x ∈ q.tables.total (fun tbl => Multiset.ofList tbl.queue) ↔
      ∃ t, x ∈ q.queueOf t := by
    rw [FiniteMap.mem_total]
    constructor
    · intro ⟨t, tbl, ht, hx⟩
      exact ⟨t, by simpa [queueOf, ht] using hx⟩
    · intro ⟨t, hx⟩
      cases ht : q.tables.get? t with
      | none => simp [queueOf, ht] at hx
      | some tbl => exact ⟨t, tbl, ht, by simpa [queueOf, ht] using hx⟩
  simp only [stored, Multiset.mem_add, Multiset.mem_coe, htable,
    DependencyManager.mem_waitingItems, or_assoc]

section

variable {q : TaskQueue} {x : ScheduledItem}

theorem mem_stored_of_loadQueue (h : x ∈ q.loadQueue) : x ∈ q.stored :=
  (q.mem_stored x).mpr (.inl h)

theorem mem_stored_of_queueOf {t : String} (h : x ∈ q.queueOf t) : x ∈ q.stored :=
  (q.mem_stored x).mpr (.inr (.inl ⟨t, h⟩))

theorem mem_stored_of_barriers (h : x ∈ q.barriers) : x ∈ q.stored :=
  (q.mem_stored x).mpr (.inr (.inr (.inl h)))

theorem mem_stored_of_waitingOn {type : DependencyType} {key : String}
    (h : x ∈ q.depManager.waitingOn type key) : x ∈ q.stored :=
  (q.mem_stored x).mpr (.inr (.inr (.inr ⟨type, key, h⟩)))

end

/-- An item is stored or abandoned. -/
theorem mem_items (q : TaskQueue) (x : ScheduledItem) : x ∈ q.items ↔
    x ∈ q.stored ∨ x ∈ q.abandoned := by
  rw [items_eq, Multiset.mem_add, Multiset.mem_coe]

end TaskQueue

namespace Stage

theorem mem_items_of_stored {s : Stage} {x : ScheduledItem} (hx : x ∈ s.queue.stored) :
    x ∈ s.queue.items + s.transit :=
  Multiset.mem_add.mpr (.inl ((s.queue.mem_items x).mpr (.inl hx)))

/-- The tasks that the scheduler still has to hand out. -/
def held (s : Stage) : Multiset Ident :=
  (s.queue.items + s.transit).map ScheduledItem.ident

/-- The tasks that were handed out. -/
def out (s : Stage) : Multiset Ident :=
  (s.inFlight.map (·.onCompleted.ident) + s.completing.toList.map Completion.ident +
    s.finished.map Completion.ident : Multiset Ident)

theorem ident_mem_out_of_inFlight {s : Stage} {task : ExecutableTask} (h : task ∈ s.inFlight) :
    task.onCompleted.ident ∈ s.out := by
  simp only [out, Multiset.mem_add, Multiset.mem_coe, List.mem_map]
  exact .inl (.inl ⟨task, h, rfl⟩)

theorem ident_mem_out_of_finished {s : Stage} {c : Completion} (h : c ∈ s.finished) :
    c.ident ∈ s.out := by
  simp only [out, Multiset.mem_add, Multiset.mem_coe, List.mem_map]
  exact .inr ⟨c, h, rfl⟩

/-- All tasks of a run. -/
def idents (s : Stage) : Multiset Ident := s.held + s.out

/-- What a move does to the items, as far as `f` sees them: it keeps all of them,
or hands one out. -/
inductive Carries (f : ScheduledItem → β) (s s' : Stage) : Prop
  | keep : (s'.queue.items + s'.transit).map f = (s.queue.items + s.transit).map f →
      s'.inFlight = s.inFlight → s'.handedOut = s.handedOut → s'.completing = s.completing →
      s'.finished = s.finished → Carries f s s'
  | hand (q : TaskQueue) (x : ScheduledItem) (task : ExecutableTask) : q.Built x task →
      f x ::ₘ (s'.queue.items + s'.transit).map f = (s.queue.items + s.transit).map f →
      s'.inFlight = s.inFlight ++ [task] → s'.handedOut = s.handedOut ++ [task] →
      s'.completing = s.completing → s'.finished = s.finished → Carries f s s'

/-- A move that keeps the items in the queue and in transit carries them over. -/
theorem Carries.of_items {f : ScheduledItem → β} {s s' : Stage}
    (h : s'.queue.items + s'.transit = s.queue.items + s.transit)
    (hf : s'.inFlight = s.inFlight) (hd : s'.handedOut = s.handedOut)
    (hc : s'.completing = s.completing) (hfin : s'.finished = s.finished) : Carries f s s' :=
  .keep (by rw [h]) hf hd hc hfin

/-- A hand-out carries an item over into a task. -/
theorem Carries.of_hand {f : ScheduledItem → β} {s s' : Stage} {q : TaskQueue} {x : ScheduledItem}
    {task : ExecutableTask} (hb : q.Built x task)
    (h : x ::ₘ (s'.queue.items + s'.transit) = s.queue.items + s.transit)
    (hf : s'.inFlight = s.inFlight ++ [task]) (hd : s'.handedOut = s.handedOut ++ [task])
    (hc : s'.completing = s.completing) (hfin : s'.finished = s.finished) : Carries f s s' :=
  .hand q x task hb (by rw [← h, Multiset.map_cons]) hf hd hc hfin

/-- **Accounting**: a move neither adds an item nor loses one, except for the one
that it hands out.  `f` must not see the flags that registering a table sets, nor
that the table of a pending LOAD is resolved. -/
theorem carries_move_of {env : Env} {lossy : Prop} {s s' : Stage} {f : ScheduledItem → β}
    (hregister : ∀ c t, s.completing = some c → t ∈ c.registers →
      (s.queue.registerTableQueue env t (TaskQueue.placeholder c)).items.map f =
        s.queue.items.map f)
    (hresolve : ∀ x d t, x.type = .load → x.depends = .load d → d.pendingTable ≠ [] →
      f { x with tableId := t } = f x) (h : Move env lossy s s') : Carries f s s' := by
  cases h with
  | takeLoad front rest hq hb hbar =>
      refine .of_items ?_ rfl rfl rfl rfl
      rw [← TaskQueue.items_loadQueue hq, Multiset.cons_add, ← Multiset.cons_coe,
        Multiset.add_cons]
  | loseLoad x rest hl htr =>
      refine .of_items ?_ rfl rfl rfl rfl
      rw [htr, TaskQueue.items_abandon, Multiset.cons_add, ← Multiset.cons_coe, Multiset.add_cons]
  | park x rest type key htr hw =>
      refine .of_items ?_ rfl rfl rfl rfl
      rw [htr, TaskQueue.items_addWait, Multiset.cons_add, ← Multiset.cons_coe, Multiset.add_cons]
  | parkTable t g head rest type key hc hp hq hb hw =>
      refine .of_items ?_ rfl rfl rfl rfl
      rw [TaskQueue.parkHead, TaskQueue.items_addWait, TaskQueue.queueOf_setIndex, hq,
        List.tail_cons, TaskQueue.items_tail (q := s.queue.setIndex g) hq,
        TaskQueue.items_setIndex]
  | handLoad x rest d task hc htr hd hr hb =>
      refine .of_hand (TaskQueue.built_of_ok hb) ?_ rfl rfl rfl rfl
      rw [htr, ← Multiset.cons_coe, Multiset.add_cons]
      rfl
  | handTable t g head rest task hc hp hq hbar hr hb =>
      refine .of_hand (TaskQueue.built_of_ok hb) ?_ rfl rfl rfl rfl
      rw [← Multiset.cons_add, hand, TaskQueue.items_countFetch,
        TaskQueue.items_tail (q := s.queue.setIndex g) hq, TaskQueue.items_setIndex]
  | handBarrier barrier rest task hc hq hrun hheap hl hb =>
      refine .of_hand (TaskQueue.built_of_ok hb) ?_ rfl rfl rfl rfl
      rw [← Multiset.cons_add, TaskQueue.items_release, TaskQueue.items_countFetch,
        TaskQueue.items_popBarrier hq]
  | register c t hc ht =>
      refine .keep ?_ rfl rfl rfl rfl
      rw [Multiset.map_add, Multiset.map_add, hregister c t hc ht]
  | advance c type key popped rest hc hk hle hp =>
      refine .of_items ?_ rfl rfl rfl rfl
      rw [← Multiset.coe_add, ← TaskQueue.items_advance hp]
      abel
  | unregister c tbl hc hty htbl =>
      have hset := s.queue.items_setTable c.tableId { tbl with registered := false }
      rw [TaskQueue.queueOf, htbl, Option.getD_some, add_right_cancel_iff] at hset
      exact .of_items (by rw [hset]) rfl rfl rfl rfl
  | requeue x rest htr hty =>
      refine .of_items ?_ rfl rfl rfl rfl
      rw [htr, TaskQueue.items_requeue, Multiset.cons_add, ← Multiset.cons_coe, Multiset.add_cons]
  | resolveLoad x rest d htr hty hd hp =>
      refine .keep ?_ rfl rfl rfl rfl
      rw [htr, ← Multiset.cons_coe, ← Multiset.cons_coe, Multiset.add_cons, Multiset.add_cons,
        Multiset.map_cons, Multiset.map_cons, hresolve x d _ hty hd hp]
  | requeueLoad x rest htr hty =>
      refine .of_items ?_ rfl rfl rfl rfl
      rw [htr, TaskQueue.items_requeueLoad, Multiset.cons_add, ← Multiset.cons_coe,
        Multiset.add_cons]
  | reindex c t hc ht =>
      refine .of_items ?_ rfl rfl rfl rfl
      rw [TaskQueue.items_upsertHead]
  | _ => exact .keep rfl rfl rfl rfl rfl

/-- The flag of an item and the table of a pending LOAD are the only things that a
move changes about it. -/
theorem carries_move {env : Env} {lossy : Prop} {s s' : Stage} {f : ScheduledItem → β}
    (hflag : ∀ x b, f { x with droppedFlag := b } = f x)
    (hresolve : ∀ x d t, x.type = .load → x.depends = .load d → d.pendingTable ≠ [] →
      f { x with tableId := t } = f x) (h : Move env lossy s s') : Carries f s s' :=
  carries_move_of (fun _ _ _ _ => TaskQueue.items_registerTableQueue env _ _ _ hflag) hresolve h

/-- A move does not change which task is completing. -/
theorem completing_move {env : Env} {lossy : Prop} {s s' : Stage} (h : Move env lossy s s') :
    s'.completing = s.completing := by
  obtain ⟨_, _, _, hc, _⟩ | ⟨_, _, _, _, _, _, _, hc, _⟩ :=
    carries_move (f := ScheduledItem.seq) (fun _ _ => rfl) (fun _ _ _ _ _ _ => rfl) h
  · exact hc
  · exact hc

/-- A move finishes no task. -/
theorem finished_move {env : Env} {lossy : Prop} {s s' : Stage} (h : Move env lossy s s') :
    s'.finished = s.finished := by
  obtain ⟨_, _, _, _, hfin⟩ | ⟨_, _, _, _, _, _, _, _, hfin⟩ :=
    carries_move (f := ScheduledItem.seq) (fun _ _ => rfl) (fun _ _ _ _ _ _ => rfl) h
  · exact hfin
  · exact hfin

/-- The table of a pending LOAD is no part of its identity. -/
theorem ident_resolve (x : ScheduledItem) (d : LoadDeps) (t : String) (hty : x.type = .load)
    (hd : x.depends = .load d) (hp : d.pendingTable ≠ []) :
    ({ x with tableId := t } : ScheduledItem).ident = x.ident := by
  simp [ScheduledItem.ident, Ident.of, hty, hd, DependencyPayload.isPending, hp]

/-- A move neither adds a task nor loses one. -/
theorem idents_move {env : Env} {lossy : Prop} {s s' : Stage} (h : Move env lossy s s') :
    s'.idents = s.idents := by
  obtain ⟨hitems, hf, hd, hc, hfin⟩ | ⟨q, x, task, hb, hitems, hf, hd, hc, hfin⟩ :=
    carries_move (f := ScheduledItem.ident) (fun _ _ => rfl) ident_resolve h
  · rw [idents, idents, held, held, hitems, out, out, hf, hc, hfin]
  · simp only [idents, held, ← hitems, out, hf, hc, hfin, List.map_append, List.map_cons,
      List.map_nil, hb.ident, ← Multiset.coe_add, Multiset.coe_singleton, ← Multiset.singleton_add]
    abel

/-- A completion that starts takes its task from `inFlight` to `completing`. -/
theorem out_begin {s : Stage} {k : Nat} {task : ExecutableTask} (hc : s.completing = none)
    (hk : s.inFlight[k]? = some task) : (s.begin k task).out = s.out := by
  obtain ⟨hlt, htask⟩ := List.getElem?_eq_some_iff.mp hk
  have hperm := (List.getElem_cons_eraseIdx_perm hlt).map (·.onCompleted.ident)
  rw [htask, List.map_cons] at hperm
  simp only [out, begin, hc, ← Multiset.coe_eq_coe.mpr hperm, ← Multiset.cons_coe,
    Option.toList_some, Option.toList_none, List.map_cons, List.map_nil, Multiset.coe_nil,
    ← Multiset.singleton_add]
  abel

/-- A completion that ends takes its task from `completing` to `finished`. -/
theorem out_finish {s : Stage} {c : Completion} (hc : s.completing = some c) :
    (s.finish c).out = s.out := by
  simp only [out, finish, hc, List.map_append, ← Multiset.coe_add, Option.toList_some,
    Option.toList_none, List.map_nil, Multiset.coe_nil]
  abel

/-- The tasks stay the same ones through everything that happens within a call. -/
theorem idents_preserved (env : Env) (lossy : Prop) (all : Multiset Ident) :
    Preserved env lossy fun s => s.idents = all where
  move h hm := (idents_move hm).trans h
  begin h hc hk := by
    rw [← h, idents, idents, out_begin hc hk]
    rfl
  finish h hc := by
    rw [← h, idents, idents, out_finish hc, held, held, finish, TaskQueue.items_countCompleted]

/-- How many tasks there are. -/
theorem card_idents (s : Stage) : s.idents.card = s.queue.items.card + s.transit.length +
    (s.inFlight.length + s.completing.toList.length + s.finished.length) := by
  simp [idents, held, out, Nat.add_assoc]

/-- The captures of a task in flight are those of its item. -/
def Captured (s : Stage) : Prop :=
  ∀ task ∈ s.inFlight ++ s.handedOut,
    task.onCompleted.seq = task.seq ∧ task.onCompleted.type = task.type

theorem captured_hand {s s' : Stage} {q : TaskQueue} {x : ScheduledItem} {task : ExecutableTask}
    (h : s.Captured) (hb : q.Built x task) (hf : s'.inFlight = s.inFlight ++ [task])
    (hd : s'.handedOut = s.handedOut ++ [task]) : s'.Captured := by
  intro t ht
  rw [hf, hd] at ht
  by_cases hnew : t = task
  · rw [hnew]
    exact ⟨hb.capturedSeq.trans hb.seq.symm, hb.capturedType.trans hb.type.symm⟩
  · refine h t ?_
    simp only [List.mem_append, List.mem_singleton, hnew, or_false] at ht
    exact List.mem_append.mpr ht

/-- Every move keeps the captures of the tasks in flight. -/
theorem captured_move {env : Env} {lossy : Prop} {s s' : Stage} (h : s.Captured)
    (hm : Move env lossy s s') : s'.Captured := by
  cases hm with
  | handLoad x rest d task hc htr hd hr hb =>
      exact captured_hand h (TaskQueue.built_of_ok hb) rfl rfl
  | handTable t g head rest task hc hp hq hbar hr hb =>
      exact captured_hand h (TaskQueue.built_of_ok hb) rfl rfl
  | handBarrier barrier rest task hc hq hrun hheap hl hb =>
      exact captured_hand h (TaskQueue.built_of_ok hb) rfl rfl
  | _ => exact h

theorem captured_preserved (env : Env) (lossy : Prop) : Preserved env lossy Captured where
  move := captured_move
  begin h _ _ t ht := h t <| by
    rw [List.mem_append] at ht ⊢
    exact ht.imp List.mem_of_mem_eraseIdx id
  finish h _ := h

end Stage

namespace TaskQueue

variable {env : Env} {q q' : TaskQueue}

/-- A fetch takes the task that it hands out. -/
theorem card_items_fetchNext {out : Option ExecutableTask} (h : q.fetchNext env = .ok (out, q')) :
    q'.items.card + out.toList.length = q.items.card := by
  have hms := @Stage.moves_fetchNext env True { queue := q } rfl fun hn => absurd trivial hn
  change Stage.RoundMoves env True { queue := q } (.inr (q.fetchNext env)) at hms
  rw [h] at hms
  have hsame : (Stage.afterFetch { queue := q } out q').idents = Stage.idents { queue := q } :=
    moves_preserve (Stage.idents_preserved env True _).move hms rfl
  have hcard := congrArg Multiset.card hsame
  rw [Stage.card_idents, Stage.card_idents] at hcard
  simpa [Stage.afterFetch] using hcard

/-- A callback takes none. -/
theorem card_items_callback {c : Completion} (h : q.callback env c = .ok q') :
    q'.items.card = q.items.card := by
  have hms := @Stage.moves_callback env True { queue := q, completing := some c } c q' rfl rfl h
  have hsame : (Stage.withQueue { queue := q, completing := some c } q').idents =
      Stage.idents { queue := q, completing := some c } :=
    moves_preserve (Stage.idents_preserved env True _).move hms rfl
  have hcard := congrArg Multiset.card hsame
  rw [Stage.card_idents, Stage.card_idents] at hcard
  simpa [Stage.withQueue] using hcard

end TaskQueue

end LemonDB
