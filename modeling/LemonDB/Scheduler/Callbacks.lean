import LemonDB.Scheduler.Dependencies
import LemonDB.Scheduler.LoadOrder

/-!
# LemonDB.Scheduler.Callbacks

What a completion callback leaves behind: the watermarks of all keys of its
task have reached it, the tables that it registers are registered, and the
table queue that it captured is in the global index.
-/

namespace LemonDB

namespace TaskQueue

variable {q q' : TaskQueue}

/-! ## the watermarks -/

/-- A completion raises the watermark of the key at least to its task, and
lowers none. -/
theorem watermark_notifyCompleted {type : DependencyType} {key : String} {n : Nat}
    {ready ready' : List ScheduledItem}
    (h : q.notifyCompleted type key n ready = .ok (ready', q')) :
    n ≤ q'.watermark (type, key) ∧ ∀ k, q.watermark k ≤ q'.watermark k := by
  unfold notifyCompleted DependencyManager.notifyCompleted at h
  by_cases hlt : n < q.depManager.lastCompletedFor type key
  · rw [if_pos hlt] at h
    obtain ⟨_, rfl⟩ := Prod.mk.inj (Except.ok.inj h)
    exact ⟨Nat.le_of_lt hlt, fun _ => Nat.le_refl _⟩
  · rw [if_neg hlt] at h
    obtain ⟨⟨ready₁, dm⟩, hdm, h⟩ := Except.of_bind_eq_ok h
    obtain ⟨⟨popped, rest⟩, _, hdm⟩ := Except.of_bind_eq_ok hdm
    obtain ⟨_, rfl⟩ := Prod.mk.inj (Except.ok.inj hdm)
    obtain ⟨_, rfl⟩ := Prod.mk.inj (Except.ok.inj h)
    have hmark : ∀ k : DepKey, ({ q with depManager :=
        (q.depManager.setLastCompleted type key n).setWaiting type key rest } :
          TaskQueue).watermark k = if k = (type, key) then n else q.watermark k := by
      rintro ⟨type', key'⟩
      simp only [watermark, DependencyManager.lastCompletedFor_setWaiting,
        DependencyManager.lastCompletedFor_setLastCompleted, Prod.mk.injEq]
    constructor
    · rw [hmark, if_pos rfl]
    · intro k
      rw [hmark]
      split
      · next hk =>
          subst hk
          exact Nat.le_of_not_lt hlt
      · exact Nat.le_refl _

/-- Notifying tables raises their watermarks and lowers none. -/
theorem watermark_notifyTables {n : Nat} : {ts : List String} → {q : TaskQueue} →
    {ready ready' : List ScheduledItem} → q.notifyTables n ready ts = .ok (ready', q') →
    (∀ t ∈ ts, n ≤ q'.watermark (.table, t)) ∧ ∀ k, q.watermark k ≤ q'.watermark k
  | [], q, ready, ready', h => by
      obtain ⟨_, rfl⟩ := Prod.mk.inj (Except.ok.inj h)
      exact ⟨fun _ ht => absurd ht List.not_mem_nil, fun _ => Nat.le_refl _⟩
  | t :: ts, q, ready, ready', h => by
      obtain ⟨⟨ready₁, q₁⟩, hn, h⟩ := Except.of_bind_eq_ok h
      obtain ⟨ht, hle⟩ := watermark_notifyCompleted hn
      obtain ⟨hts, hle'⟩ := watermark_notifyTables h
      refine ⟨List.forall_mem_cons.mpr ⟨Nat.le_trans ht (hle' _), hts⟩, fun k => ?_⟩
      exact Nat.le_trans (hle k) (hle' k)

/-- The records of a completed task: every key that it notifies has reached
it. -/
theorem watermark_updateDependencyRecords {item : ScheduledItem}
    {readyFile readyTable : List ScheduledItem}
    (h : q.updateDependencyRecords item = .ok (readyFile, readyTable, q')) :
    ∀ k ∈ item.ident.notifies, item.seq ≤ q'.watermark k := by
  have htab : item.type ≠ .load → item.ident.tableId = item.tableId := fun hn => by
    simp [ScheduledItem.ident, Ident.of, hn]
  unfold updateDependencyRecords at h
  unfold Ident.notifies
  cases hty : item.type with
  | load =>
      simp only [hty] at h
      obtain ⟨d, hd, h⟩ := Except.of_bind_eq_ok h
      obtain ⟨⟨rf, q₁⟩, hf, h⟩ := Except.of_bind_eq_ok h
      have hdep := DependencyPayload.eq_of_getLoad hd
      have hfile := (watermark_notifyCompleted hf).1
      simp only [ScheduledItem.ident_type, hty, ScheduledItem.ident_depends, hdep]
      by_cases hp : d.pendingTable ≠ []
      · rw [if_pos hp] at h ⊢
        obtain ⟨⟨rt, q₂⟩, ht, h⟩ := Except.of_bind_eq_ok h
        obtain ⟨_, _, rfl⟩ := Except.ok.inj h
        obtain ⟨htables, hle⟩ := watermark_notifyTables ht
        refine List.forall_mem_cons.mpr ⟨Nat.le_trans hfile (hle _), fun k hk => ?_⟩
        obtain ⟨t, ht, rfl⟩ := List.mem_map.mp hk
        exact htables t ht
      · have htab : item.ident.tableId = item.tableId := by
          simp [ScheduledItem.ident, Ident.of, hdep, DependencyPayload.isPending, not_not.mp hp]
        rw [if_neg hp] at h ⊢
        obtain ⟨⟨rt, q₂⟩, ht, h⟩ := Except.of_bind_eq_ok h
        obtain ⟨_, _, rfl⟩ := Except.ok.inj h
        obtain ⟨htable, hle⟩ := watermark_notifyCompleted ht
        rw [htab]
        exact List.forall_mem_cons.mpr ⟨Nat.le_trans hfile (hle _), by simpa using htable⟩
  | dump =>
      simp only [hty] at h
      obtain ⟨d, hd, h⟩ := Except.of_bind_eq_ok h
      obtain ⟨⟨rf, q₁⟩, hf, h⟩ := Except.of_bind_eq_ok h
      obtain ⟨⟨rt, q₂⟩, ht, h⟩ := Except.of_bind_eq_ok h
      obtain ⟨_, _, rfl⟩ := Except.ok.inj h
      have hdep := DependencyPayload.eq_of_getDump hd
      obtain ⟨htable, hle⟩ := watermark_notifyCompleted ht
      simp only [ScheduledItem.ident_type, hty, ScheduledItem.ident_depends, hdep,
        htab (by simp [hty])]
      exact List.forall_mem_cons.mpr
        ⟨Nat.le_trans (watermark_notifyCompleted hf).1 (hle _), by simpa using htable⟩
  | drop =>
      simp only [hty] at h
      obtain ⟨⟨rt, q₁⟩, ht, h⟩ := Except.of_bind_eq_ok h
      have htable := (watermark_notifyCompleted ht).1
      have hq : ∀ k, q'.watermark k = q₁.watermark k := by
        split at h
        · obtain ⟨_, _, rfl⟩ := Except.ok.inj h
          exact fun _ => rfl
        · obtain ⟨_, _, rfl⟩ := Except.ok.inj h
          exact fun _ => rfl
      simp only [ScheduledItem.ident_type, hty, htab (by simp [hty]), hq]
      simpa using htable
  | copyTable =>
      simp only [hty] at h
      obtain ⟨d, hd, h⟩ := Except.of_bind_eq_ok h
      obtain ⟨⟨rt₁, q₁⟩, h₁, h⟩ := Except.of_bind_eq_ok h
      obtain ⟨⟨rt₂, q₂⟩, h₂, h⟩ := Except.of_bind_eq_ok h
      obtain ⟨_, _, rfl⟩ := Except.ok.inj h
      have hdep := DependencyPayload.eq_of_getCopyTable hd
      obtain ⟨hdst, hle⟩ := watermark_notifyCompleted h₂
      simp only [ScheduledItem.ident_type, hty, ScheduledItem.ident_depends, hdep,
        htab (by simp [hty])]
      exact List.forall_mem_cons.mpr
        ⟨Nat.le_trans (watermark_notifyCompleted h₁).1 (hle _), by simpa using hdst⟩
  | _ =>
      simp only [hty] at h
      simp only [ScheduledItem.ident_type, hty, htab (by simp [hty])]
      split at h
      · next ht =>
          obtain ⟨⟨rt, q₁⟩, hn, h⟩ := Except.of_bind_eq_ok h
          obtain ⟨_, _, rfl⟩ := Except.ok.inj h
          simpa [ht] using (watermark_notifyCompleted hn).1
      · next ht => simp [ht]

end TaskQueue

namespace Stage

variable {env : Env} {lossy : Prop} {s s' : Stage} {c : Completion}

/-- A sequence of moves lowers no watermark. -/
theorem watermark_le_moves (hms : Moves env lossy s s') (k : DepKey) :
    s.queue.watermark k ≤ s'.queue.watermark k :=
  moves_preserve (I := fun s' => s.queue.watermark k ≤ s'.queue.watermark k)
    (fun hI hm => Nat.le_trans hI (watermark_le_move hm k)) hms (Nat.le_refl _)

/-- The update of the dependencies raises the watermarks of all keys that are notified. -/
theorem watermark_applyUpdateDeps {q : TaskQueue}
    (h : s.queue.applyUpdateDeps env (TaskQueue.placeholder c) = .ok q) :
    ∀ k ∈ c.ident.notifies, c.seq ≤ q.watermark k := by
  unfold TaskQueue.applyUpdateDeps at h
  obtain ⟨⟨readyFile, readyTable, q₁⟩, hr, h⟩ := Except.of_bind_eq_ok h
  obtain ⟨q₂, hfiles, htables⟩ := Except.of_bind_eq_ok h
  have hms : Moves env True (s.carry q₁ (readyFile ++ readyTable)) (s.carry q []) :=
    (moves_putBack (s := s.carry q₁ (readyFile ++ readyTable)) moves_updateReadyFiles readyTable
      readyFile rfl hfiles).trans
        (moves_putBack (s := s.carry q₂ readyTable) moves_updateReadyTables [] readyTable
          (by simp) htables)
  intro k hk
  exact Nat.le_trans (TaskQueue.watermark_updateDependencyRecords hr k hk)
    (watermark_le_moves hms k)

/-! ## the registered tables -/

/-- Every table that a completion registers is registered then. -/
theorem registration_applyRegisterTable {q : TaskQueue} (hact : .registerTable ∈ c.actions)
    (h : s.queue.applyRegisterTable env (TaskQueue.placeholder c) = .ok q) :
    ∀ t ∈ c.registers, q.registration t ≠ none := by
  have hkeep : ∀ (q : TaskQueue) (t t' : String) (x : ScheduledItem),
      q.registration t' ≠ none ∨ t' = t → (q.registerTableQueue env t x).registration t' ≠ none := by
    intro q t t' x ht
    rw [TaskQueue.registration_registerTableQueue]
    split
    · simp
    · next hne => exact ht.resolve_right hne
  unfold TaskQueue.applyRegisterTable at h
  unfold Completion.registers
  rw [if_pos hact]
  split at h
  · next hty =>
      have hty : c.type = .copyTable := hty
      obtain ⟨d, hd, h⟩ := Except.of_bind_eq_ok h
      have hdep : c.depends = .copyTable d := DependencyPayload.eq_of_getCopyTable hd
      rw [← Except.ok.inj h, hty, hdep]
      refine List.forall_mem_cons.mpr ⟨?_, List.forall_mem_singleton.mpr ?_⟩
      · exact hkeep _ _ _ _ (.inl (hkeep _ _ _ _ (.inr rfl)))
      · exact hkeep _ _ _ _ (.inr rfl)
  · next hty =>
      have hty : c.type ≠ .copyTable := hty
      rw [← Except.ok.inj h]
      refine List.forall_mem_cons.mpr ⟨hkeep _ _ _ _ (.inr rfl), fun t ht => ?_⟩
      split at ht
      · contradiction
      · contradiction

/-! ## the callback -/

/-- What one action establishes and what moves preserve, the actions establish. -/
theorem applyActions_establish {P : Stage → Prop}
    (hmove : ∀ {s s'}, P s → Move env True s s' → P s') {a : CompletionAction}
    (ha : ∀ {s : Stage} {q}, s.completing = some c → s.transit = [] → a ∈ c.actions →
      TaskQueue.applyAction env (TaskQueue.placeholder c) s.queue a = .ok q → P (s.withQueue q)) :
    {actions : List CompletionAction} → {s : Stage} → {q : TaskQueue} → s.completing = some c →
    s.transit = [] → (∀ b ∈ actions, b ∈ c.actions) → a ∈ actions →
    s.queue.applyActions env actions (TaskQueue.placeholder c) = .ok q → P (s.withQueue q)
  | [], _, _, _, _, _, hmem, _ => absurd hmem List.not_mem_nil
  | b :: actions, s, q, hc, htr, hact, hmem, h => by
      unfold TaskQueue.applyActions at h
      rw [List.foldlM_cons] at h
      obtain ⟨q₁, hb, hq⟩ := Except.of_bind_eq_ok h
      have hrest : ∀ b ∈ actions, b ∈ c.actions := fun b hb => hact b (List.mem_cons_of_mem _ hb)
      obtain rfl | hmem := List.mem_cons.mp hmem
      · exact moves_preserve hmove (moves_applyActions (s := s.withQueue q₁) hc htr hrest hq)
          (ha hc htr (hact a List.mem_cons_self) hb)
      · exact applyActions_establish hmove ha (s := s.withQueue q₁) hc htr hrest hmem hq

/-- What a callback leaves behind. -/
structure CalledBack (c : Completion) (q : TaskQueue) : Prop where
  watermark : .updateDeps ∈ c.actions → ∀ k ∈ c.ident.notifies, c.seq ≤ q.watermark k
  registration : c.type ≠ .drop → ∀ t ∈ c.registers, q.registration t ≠ none
  reindexed : ∀ t, c.tableQ = some t → q.queueOf t ≠ [] → t ∈ q.globalIndex.pending

/-- The actions of a completion leave behind what they should. -/
theorem calledBack_applyActions {q : TaskQueue} (hc : s.completing = some c)
    (htr : s.transit = [])
    (h : s.queue.applyActions env c.actions (TaskQueue.placeholder c) = .ok q) :
    (.updateDeps ∈ c.actions → ∀ k ∈ c.ident.notifies, c.seq ≤ q.watermark k) ∧
    (c.type ≠ .drop → ∀ t ∈ c.registers, q.registration t ≠ none) := by
  constructor
  · intro hact k hk
    refine applyActions_establish (P := fun s => c.seq ≤ s.queue.watermark k)
      (fun hP hm => Nat.le_trans hP (watermark_le_move hm k)) (fun _ _ _ h => ?_) hc htr
      (fun _ hb => hb) hact h
    exact watermark_applyUpdateDeps h k hk
  · intro hdrop t ht
    have hact : .registerTable ∈ c.actions := by
      by_contra hn
      rw [Completion.registers, if_neg hn] at ht
      contradiction
    refine (applyActions_establish
      (P := fun s => s.completing = some c ∧ s.queue.registration t ≠ none) (fun hP hm => ?_)
      (fun hc _ hact h => ⟨hc, registration_applyRegisterTable hact h t ht⟩) hc htr
      (fun _ hb => hb) hact h).2
    refine ⟨(completing_move hm).trans hP.1, fun hnone => ?_⟩
    · obtain hsame | ⟨_, _, _, _, hsome, _⟩ | ⟨c', hc', hty, _⟩ := registration_move hm t
      · exact hP.2 (hsame.symm.trans hnone)
      · rw [hsome] at hnone
        contradiction
      · exact hdrop (Option.some.inj (hP.1.symm.trans hc') ▸ hty)

/-- A callback leaves behind what it should. -/
theorem calledBack_callback {q : TaskQueue} (hc : s.completing = some c) (htr : s.transit = [])
    (h : s.queue.callback env c = .ok q) : CalledBack c q := by
  unfold TaskQueue.callback at h
  obtain ⟨q₁, ha, h⟩ := Except.of_bind_eq_ok h
  obtain ⟨hmark, hreg⟩ := calledBack_applyActions hc htr ha
  cases ht : c.tableQ with
  | none =>
      rw [ht] at h
      rw [← Except.ok.inj h]
      exact ⟨hmark, hreg, fun t ht' => by rw [ht] at ht'; contradiction⟩
  | some t =>
      rw [ht] at h
      rw [← Except.ok.inj h]
      obtain ⟨g, hup, hpend, _⟩ := q₁.upsertHead_eq env t
      refine ⟨fun hact k hk => ?_, fun hdrop t' ht' => ?_, fun t' ht' hne => ?_⟩
      · rw [hup]
        exact hmark hact k hk
      · rw [TaskQueue.registration_upsertHead]
        exact hreg hdrop t' ht'
      · obtain rfl := Option.some.inj (ht.symm.trans ht')
        rw [hup] at hne ⊢
        have hne : ¬ q₁.queueOf t = [] := hne
        rw [if_neg hne] at hpend
        show t ∈ g.pending
        rw [hpend]
        exact Set.mem_insert _ _

end Stage

end LemonDB
