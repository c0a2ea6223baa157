import LemonDB.Scheduler.Conservation
import LemonDB.Scheduler.Placement

/-!
# LemonDB.Scheduler.WakeUps

No wake-up is missed: between two calls, whatever waits on a key waits for a
sequence number above the watermark of that key (`TaskQueue.Waits`).

The wake-up loop stops at the first item that is not satisfied.  The items
behind it are not satisfied either, since a heap is ordered by sequence number
and the dependencies recorded for a key grow with it (`Recorded.mono`).
-/

namespace LemonDB

/-- Items of one task have the same dependencies. -/
theorem ScheduledItem.waits_of_ident {x y : ScheduledItem} (hfit : x.Fits) (h : x.ident = y.ident)
    {k : DepKey} {d : Nat} (hd : d ≠ 0) (hx : (k, d) ∈ x.waits) : (k, d) ∈ y.waits := by
  have hy : (k, d) ∈ y.ident.waits := h ▸ (mem_waits_ident hfit hd).mpr hx
  exact (mem_waits_ident (fits_of_ident h hfit) hd).mp hy

/-- An item that stops the wake-up loop is not satisfied. -/
theorem DependencyManager.lt_of_break {type : DependencyType} {key : String} {n d : Nat}
    {x : ScheduledItem} (hfit : x.Fits)
    (h : notifyCompleteBreakHelper type n x = .ok true) (hd : ((type, key), d) ∈ x.waits) :
    n < d := by
  unfold ScheduledItem.Fits at hfit
  unfold notifyCompleteBreakHelper at h
  unfold ScheduledItem.waits at hd
  cases hty : x.type <;> cases hdep : x.depends <;> cases type <;>
    simp_all [DependencyPayload.fits, DependencyPayload.waits, DependencyPayload.getLoad,
      DependencyPayload.getDump, DependencyPayload.getDrop, DependencyPayload.getCopyTable,
      bind, Except.bind, pure, Except.pure]
  omega

/-- What the loop leaves on the heap starts with an item that stopped it. -/
theorem DependencyManager.popReady_rest {type : DependencyType} {n : Nat} :
    {heap popped rest : List ScheduledItem} → popReady type n heap = .ok (popped, rest) →
    rest = [] ∨ ∃ x xs, rest = x :: xs ∧ notifyCompleteBreakHelper type n x = .ok true
  | [], popped, rest, h => by
      simp only [popReady, Except.ok.injEq, Prod.mk.injEq] at h
      exact .inl h.2.symm
  | x :: heap, popped, rest, h => by
      unfold popReady at h
      obtain ⟨stops, hstop, h⟩ := Except.of_bind_eq_ok h
      cases stops with
      | true =>
          simp only [↓reduceIte, pure, Except.pure, Except.ok.injEq, Prod.mk.injEq] at h
          exact .inr ⟨x, heap, h.2.symm, hstop⟩
      | false =>
          simp only [Bool.false_eq_true, ↓reduceIte] at h
          obtain ⟨⟨popped', rest'⟩, hrec, h⟩ := Except.of_bind_eq_ok h
          simp only [pure, Except.pure, Except.ok.injEq, Prod.mk.injEq] at h
          rw [← h.2]
          exact popReady_rest hrec

namespace Stage

/-- The heaps are ordered, and hold items that have something to wait for. -/
structure Wakes (items : List ScheduledItem) (s : Stage) : Prop where
  idents : s.idents = items.map ScheduledItem.ident
  sorted : ∀ type key, (s.queue.depManager.waitingOn type key).Pairwise fun a b => a.seq ≤ b.seq
  waits : ∀ type key, ∀ x ∈ s.queue.depManager.waitingOn type key, s.queue.Waits x type key

variable {items : List ScheduledItem} {dm : DependencyManager} {s s' : Stage}

/-- What the scheduler holds was registered. -/
theorem Wakes.registered (h : s.Wakes items) {x : ScheduledItem}
    (hx : x ∈ s.queue.items + s.transit) : ∃ y ∈ items, y.ident = x.ident := by
  have hid : x.ident ∈ s.idents := Multiset.mem_add.mpr (.inl (Multiset.mem_map_of_mem _ hx))
  rw [h.idents] at hid
  exact List.mem_map.mp (Multiset.mem_coe.mp hid)

theorem mem_items_of_waiting {x : ScheduledItem} {type : DependencyType} {key : String}
    (hx : x ∈ s.queue.depManager.waitingOn type key) : x ∈ s.queue.items + s.transit :=
  mem_items_of_stored (TaskQueue.mem_stored_of_waitingOn hx)

theorem Wakes.fits (h : s.Wakes items) (hrec : Recorded items dm) {x : ScheduledItem}
    (hx : x ∈ s.queue.items + s.transit) : x.Fits := by
  obtain ⟨y, hy, hid⟩ := h.registered hx
  exact ScheduledItem.fits_of_ident hid (hrec.fits y hy)

/-- Letting an item wait that has something to wait for. -/
theorem Wakes.addWait {s s' : Stage} (h : s.Wakes items) (hid : s'.idents = s.idents)
    {type : DependencyType} {key : String} {x : ScheduledItem}
    (hdm : s'.queue.depManager = s.queue.depManager.addWait type key x)
    (hw : s.queue.Waits x type key) : s'.Wakes items := by
  have hlast : ∀ type' key', s'.queue.depManager.lastCompletedFor type' key' =
      s.queue.depManager.lastCompletedFor type' key' := by
    intro type' key'
    rw [hdm]
    exact DependencyManager.lastCompletedFor_setWaiting ..
  constructor
  · exact hid.trans h.idents
  · intro type' key'
    rw [hdm, DependencyManager.addWait, DependencyManager.waitingOn_setWaiting]
    split
    · exact (h.sorted type key).orderedInsert x _
    · exact h.sorted type' key'
  · intro type' key' y hy
    rw [hdm, DependencyManager.mem_waitingOn_addWait] at hy
    unfold TaskQueue.Waits
    rw [hlast]
    obtain hy | ⟨rfl, rfl, rfl⟩ := hy
    · exact h.waits type' key' y hy
    · exact hw

/-- A move that keeps the dependency manager. -/
theorem Wakes.keep (h : s.Wakes items) (hid : s'.idents = s.idents)
    (hdm : s'.queue.depManager = s.queue.depManager) : s'.Wakes items := by
  constructor
  · exact hid.trans h.idents
  · rw [hdm]
    exact h.sorted
  · unfold TaskQueue.Waits
    rw [hdm]
    exact h.waits

/-- **The wake-up loop misses no item**: what it leaves is not satisfied. -/
theorem Wakes.rest_waits (h : s.Wakes items) (hrec : Recorded items dm)
    (hinj : ∀ x ∈ items, ∀ y ∈ items, x.seq = y.seq → x = y) {type : DependencyType}
    {key : String} {n : Nat} {popped rest : List ScheduledItem}
    (hp : DependencyManager.popReady type n (s.queue.depManager.waitingOn type key) =
      .ok (popped, rest)) :
    ∀ y ∈ rest, ∃ d, ((type, key), d) ∈ y.waits ∧ n < d := by
  have happ := DependencyManager.popReady_append hp
  have hmem : ∀ y ∈ rest, y ∈ s.queue.depManager.waitingOn type key := by
    intro y hy
    rw [← happ]
    exact List.mem_append_right _ hy
  have hsorted := h.sorted type key
  rw [← happ, List.pairwise_append] at hsorted
  obtain rfl | ⟨x, xs, rfl, hstop⟩ := DependencyManager.popReady_rest hp
  · intro y hy
    contradiction
  · intro y hy
    have hx := hmem x List.mem_cons_self
    have hfit := h.fits hrec (mem_items_of_waiting hx)
    obtain ⟨d, hd, hless⟩ := h.waits type key x hx
    obtain ⟨e, he, hless'⟩ := h.waits type key y (hmem y hy)
    have hnd := DependencyManager.lt_of_break hfit hstop hd
    refine ⟨e, he, ?_⟩
    obtain ⟨x₀, hx₀, hidx⟩ := h.registered (mem_items_of_waiting hx)
    obtain ⟨y₀, hy₀, hidy⟩ := h.registered (mem_items_of_waiting (hmem y hy))
    have hwx := ScheduledItem.waits_of_ident hfit hidx.symm (by omega) hd
    have hwy := ScheduledItem.waits_of_ident (h.fits hrec (mem_items_of_waiting (hmem y hy)))
      hidy.symm (by omega) he
    have hseq : x₀.seq ≤ y₀.seq := by
      have hxs : x₀.seq = x.seq := congrArg Ident.seq hidx
      have hys : y₀.seq = y.seq := congrArg Ident.seq hidy
      rw [hxs, hys]
      obtain rfl | hy := List.mem_cons.mp hy
      · exact Nat.le_refl _
      · exact (List.pairwise_cons.mp hsorted.2.1).1 y hy
    obtain hlt | heq := Nat.lt_or_eq_of_le hseq
    · -- a later task depends on a later one
      obtain h0 | hle := hrec.mono x₀ hx₀ y₀ hy₀ hlt _ d e hwx hwy <;> omega
    · -- the same task
      have hsame := hinj x₀ hx₀ y₀ hy₀ heq
      have hey := ScheduledItem.waits_of_ident (hrec.fits y₀ hy₀) (hsame ▸ hidx) (by omega) hwy
      exact DependencyManager.lt_of_break hfit hstop hey

theorem wakes_move {env : Env} {lossy : Prop} (hrec : Recorded items dm)
    (hinj : ∀ x ∈ items, ∀ y ∈ items, x.seq = y.seq → x = y) (h : s.Wakes items)
    (hm : Move env lossy s s') : s'.Wakes items := by
  have hid := idents_move hm
  cases hm with
  | park x rest type key htr hw =>
      refine h.addWait hid rfl (hw (h.fits hrec ?_))
      rw [htr]
      exact Multiset.mem_add.mpr (.inr List.mem_cons_self)
  | parkTable t g head rest type key hc hp hq hb hw =>
      refine h.addWait hid rfl (hw (h.fits hrec ?_))
      have hhead : head ∈ s.queue.queueOf t := by rw [hq]; exact List.mem_cons_self
      exact mem_items_of_stored (TaskQueue.mem_stored_of_queueOf hhead)
  | handBarrier barrier rest task hc hq hrun hheap hl hb =>
      obtain ⟨g, hrel, _⟩ := (s.queue.popBarrier barrier rest).countFetch.release_eq env
      refine h.keep hid ?_
      simp only [hrel]
      rfl
  | register c t hc ht =>
      obtain ⟨tables, g, hreg, _⟩ :=
        s.queue.registerTableQueue_eq env t (TaskQueue.placeholder c)
      exact h.keep hid (by simp only [hreg])
  | advance c type key popped rest hc hk hle hp =>
      have hrest := h.rest_waits hrec hinj hp
      have happ := DependencyManager.popReady_append hp
      have hon : ∀ type' key', (s.queue.advance type key c.seq rest).depManager.waitingOn
          type' key' = if type' = type ∧ key' = key then rest
            else s.queue.depManager.waitingOn type' key' := by
        intro type' key'
        rw [TaskQueue.advance, DependencyManager.waitingOn_setWaiting,
          DependencyManager.waitingOn_setLastCompleted]
      have hlast : ∀ type' key', (s.queue.advance type key c.seq rest).depManager.lastCompletedFor
          type' key' = if type' = type ∧ key' = key then c.seq
            else s.queue.depManager.lastCompletedFor type' key' := by
        intro type' key'
        rw [TaskQueue.advance, DependencyManager.lastCompletedFor_setWaiting,
          DependencyManager.lastCompletedFor_setLastCompleted]
      constructor
      · exact hid.trans h.idents
      · intro type' key'
        change ((s.queue.advance type key c.seq rest).depManager.waitingOn type' key').Pairwise _
        rw [hon]
        split
        · have hsorted := h.sorted type key
          rw [← happ, List.pairwise_append] at hsorted
          exact hsorted.2.1
        · exact h.sorted type' key'
      · intro type' key' y hy
        change y ∈ (s.queue.advance type key c.seq rest).depManager.waitingOn type' key' at hy
        change (s.queue.advance type key c.seq rest).Waits y type' key'
        unfold TaskQueue.Waits
        rw [hon] at hy
        rw [hlast]
        split at hy
        · next hk' =>
            rw [if_pos hk']
            obtain ⟨rfl, rfl⟩ := hk'
            exact hrest y hy
        · next hk' =>
            rw [if_neg hk']
            exact h.waits type' key' y hy
  | reindex c t hc ht =>
      obtain ⟨g, hup, _⟩ := s.queue.upsertHead_eq env t
      exact h.keep hid (by simp only [hup]; rfl)
  | _ => exact h.keep hid rfl

theorem wakes_preserved (env : Env) (lossy : Prop) (hrec : Recorded items dm)
    (hinj : ∀ x ∈ items, ∀ y ∈ items, x.seq = y.seq → x = y) :
    Preserved env lossy (Wakes items) where
  move := wakes_move hrec hinj
  begin h hc hk := h.keep ((idents_preserved env lossy _).begin rfl hc hk) rfl
  finish h hc := h.keep ((idents_preserved env lossy _).finish rfl hc) rfl

end Stage

/-- Registered items are told apart by their sequence numbers. -/
theorem TaskQueue.registered_inj (env : Env) {tasks : List ParsedQuery}
    (hseq : (tasks.map (·.seq)).Nodup) :
    ∀ x ∈ registered env tasks, ∀ y ∈ registered env tasks, x.seq = y.seq → x = y := by
  rw [← seq_registered env tasks] at hseq
  exact fun x hx y hy h => List.inj_on_of_nodup_map hseq hx hy h

theorem Increasing.nodup {tasks : List ParsedQuery} (h : Increasing tasks) :
    (tasks.map (·.seq)).Nodup := List.Pairwise.imp Nat.ne_of_lt h

theorem wakes_run {env : Env} {guard : RunState → RunAction → Prop} {tasks : List ParsedQuery}
    (hinc : Increasing tasks) {r : RunState}
    (run : (scheduler env).Runs guard (.start env tasks) r) :
    r.stage.Wakes (TaskQueue.registered env tasks) := by
  have hreg := TaskQueue.registered_registerAll env tasks
  have hwait : ∀ type key,
      (RunState.start env tasks).stage.queue.depManager.waitingOn type key = [] := by
    intro type key
    change (TaskQueue.registerAll env tasks).depManager.waitingOn type key = []
    rw [hreg.depManager, hreg.waiting]
  refine (Stage.wakes_preserved env True (recorded_markAll env hinc)
    (TaskQueue.registered_inj env hinc.nodup)).run run ⟨?_, ?_, ?_⟩
  · exact @idents_run _ guard _ _ (.refl _)
  · intro type key
    rw [hwait]
    exact List.Pairwise.nil
  · intro type key x hx
    rw [hwait] at hx
    contradiction

/-- **No wake-up is missed**: between two calls, whatever waits on a file or a
table has a recorded dependency on it that is above its watermark. -/
theorem no_wakeup_missed {env : Env} {tasks : List ParsedQuery} (hinc : Increasing tasks)
    {r : RunState} (run : (scheduler env).Reachable (.start env tasks) r) (type : DependencyType)
    (key : String) : ∀ x ∈ r.queue.depManager.waitingOn type key,
      ∃ d, ((type, key), d) ∈ x.waits ∧ r.queue.depManager.lastCompletedFor type key < d :=
  (wakes_run hinc run).waits type key

/-- The second LOAD of a file waits for the first one. -/
theorem no_wakeup_missed_reload : ∃ r, (scheduler (.binaryHeap id)).Reachable
    (.start (.binaryHeap id) (submitAll [.load "T" "f", .load "T" "f", .load "T" "f"])) r ∧
    (r.queue.depManager.waitingOn .file "f").map (·.seq) = [3] ∧
    ∀ x ∈ r.queue.depManager.waitingOn .file "f",
      ∃ d, ((.file, "f"), d) ∈ x.waits ∧ r.queue.depManager.lastCompletedFor .file "f" < d := by
  obtain ⟨r, run, hr⟩ := (scheduler (.binaryHeap id)).exists_of_execute (fun _ _ => True)
    (fun r => (r.queue.depManager.waitingOn .file "f").map (·.seq) = [3])
    (.start (.binaryHeap id) (submitAll [.load "T" "f", .load "T" "f", .load "T" "f"]))
    [.fetch, .fetch, .complete 0] (by decide +kernel)
  exact ⟨r, run, hr, no_wakeup_missed (increasing_submitAll _) run .file "f"⟩

end LemonDB
