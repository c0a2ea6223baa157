import LemonDB.Scheduler.LoadOrder

/-!
# LemonDB.Scheduler.Rounds

How `fetchNext` ends.  A round that goes on moves one item from the load queue
or a table queue to a waiting heap, and no round moves one back
(`parks_fetchRound`, `keeps_fetchRound`); so the queued items bound the rounds.

The loop is left with a result, or by an exception: `classifyActions` rejects a
LOAD whose table was registered by a larger sequence number.  With matching
payloads a `std::get` fails only for a load queue that holds something else
than LOADs (`fetchNext_error`).
-/

namespace LemonDB

namespace TaskQueue

variable {env : Env} {q q' : TaskQueue} {x : ScheduledItem} {t : String} {e : SchedError}

/-! ## the queued items -/

/-- The items in the load queue and in the table queues. -/
def queuedItems (q : TaskQueue) : Multiset ScheduledItem :=
  q.loadQueue + q.tables.total fun tbl => Multiset.ofList tbl.queue

theorem stored_eq (q : TaskQueue) :
    q.stored = q.queuedItems + q.barriers + q.depManager.waitingItems := rfl

/-- Popping the head of a table queue. -/
theorem queuedItems_tail {rest : List ScheduledItem} (h : q.queueOf t = x :: rest) :
    x ::ₘ (q.setQueue t rest).queuedItems = q.queuedItems := by
  have htail := items_tail h
  simp only [items_eq, stored_eq, ← Multiset.cons_add] at htail
  exact add_right_cancel (add_right_cancel (add_right_cancel htail))

/-- A LOAD candidate is taken from the queued items. -/
theorem queuedItems_takeLoad (q : TaskQueue) :
    (q.takeLoad.1.toList + q.takeLoad.2.queuedItems : Multiset ScheduledItem) =
      q.queuedItems := by
  obtain ⟨h, _⟩ | ⟨_, _, _, _, h⟩ | ⟨front, rest, hq, _, _, h⟩ := q.takeLoad_cases
  · rw [h]
    exact zero_add _
  · rw [h]
    exact zero_add _
  · rw [h]
    simp only [queuedItems, hq, Option.toList_some, Multiset.coe_singleton,
      Multiset.singleton_add, ← Multiset.cons_coe front rest, Multiset.cons_add]

/-- The candidates of a round: the LOAD is taken from the load queue, the table
candidate is still the head of its queue. -/
structure Drawn (q : TaskQueue) (loadCand : Option ScheduledItem)
    (tableCand : Option (ScheduledItem × String)) (q' : TaskQueue) : Prop where
  items : (loadCand.toList + q'.queuedItems : Multiset ScheduledItem) = q.queuedItems
  loads : ∀ x ∈ q'.loadQueue, x ∈ q.loadQueue
  load : ∀ x, loadCand = some x → x ∈ q.loadQueue
  head : ∀ x t, tableCand = some (x, t) → ∃ rest, q'.queueOf t = x :: rest
  tables : q'.tables = q.tables
  barriers : q'.barriers = q.barriers
  depManager : q'.depManager = q.depManager

/-- The candidates of a round are drawn from the queue. -/
theorem drawn_getFetched (env : Env) (q : TaskQueue) :
    q.Drawn (q.getFetched env).1 (q.getFetched env).2.1 (q.getFetched env).2.2 := by
  obtain ⟨moved, hpick⟩ := pickTable_spec env q.takeLoad.2
  obtain ⟨hload, _, htables, hbarriers⟩ := q.getFetched_frame env
  have hframe : (q.getFetched env).2.2 = { q.takeLoad.2 with
      globalIndex := (q.getFetched env).2.2.globalIndex
      waitingTables := q.takeLoad.2.waitingTables ++ moved } := hpick.frame
  have htake : (∀ x ∈ q.takeLoad.2.loadQueue, x ∈ q.loadQueue) ∧
      q.takeLoad.2.depManager = q.depManager := by
    obtain ⟨h, _⟩ | ⟨_, _, _, _, h⟩ | ⟨front, rest, hq, _, _, h⟩ := q.takeLoad_cases
    · simp [h]
    · simp [h]
    · rw [h, hq]
      exact ⟨fun x hx => List.mem_cons_of_mem _ hx, rfl⟩
  have hlq : (q.getFetched env).2.2.loadQueue = q.takeLoad.2.loadQueue := by rw [hframe]
  have hdm : (q.getFetched env).2.2.depManager = q.takeLoad.2.depManager := by rw [hframe]
  have hitems : (q.getFetched env).2.2.queuedItems = q.takeLoad.2.queuedItems := by rw [hframe]; rfl
  have hqueue : ∀ t, (q.getFetched env).2.2.queueOf t = q.takeLoad.2.queueOf t := by
    intro t
    rw [hframe]
    rfl
  exact {
    items := by rw [hitems]; exact q.queuedItems_takeLoad
    loads := by rw [hlq]; exact htake.1
    load := hload
    head := fun x t hx => by rw [hqueue]; exact (hpick.head x t hx).1
    tables := htables
    barriers := hbarriers
    depManager := hdm.trans htake.2 }

/-! ## what a round does to them -/

/-- The item `x` leaves the queues for the waiting heap of a key; besides, the
items `lost` are gone. -/
structure Parks (q : TaskQueue) (x : ScheduledItem) (lost : List ScheduledItem) (q' : TaskQueue) :
    Prop where
  items : x ::ₘ (q'.queuedItems + lost) = q.queuedItems
  waiting : ∃ type key, q'.depManager = q.depManager.addWait type key x
  loads : ∀ y ∈ q'.loadQueue, y ∈ q.loadQueue
  barriers : q'.barriers = q.barriers
  registration : q'.registration = q.registration

theorem registration_of_tables (h : q'.tables = q.tables) : q'.registration = q.registration := by
  funext t
  rw [registration, registration, h]

/-- A LOAD round that goes on has parked its candidate. -/
theorem parks_fetchLoad {q₁ : TaskQueue} {tableCand : Option (ScheduledItem × String)}
    (hd : q.Drawn (some x) tableCand q₁) (h : q₁.fetchLoad x = .inl q') : q.Parks x [] q' := by
  obtain ⟨type, key, rfl⟩ := judgeLoadDeps_some (fetchLoad_inl h)
  exact {
    items := by rw [← hd.items]; exact congrArg (x ::ₘ ·) (add_zero _)
    waiting := ⟨type, key, by rw [← hd.depManager]; rfl⟩
    loads := hd.loads
    barriers := hd.barriers
    registration := registration_of_tables hd.tables }

/-- A table round that goes on has parked its candidate, and lost the LOAD candidate. -/
theorem parks_fetchTable {q₁ : TaskQueue} {loadCand : Option ScheduledItem}
    (hd : q.Drawn loadCand (some (x, t)) q₁) (h : (q₁.abandon loadCand).fetchTable x t = .inl q') :
    q.Parks x loadCand.toList q' := by
  have habandon : ∃ abandoned, q₁.abandon loadCand = { q₁ with abandoned } := by
    cases loadCand <;> exact ⟨_, rfl⟩
  obtain ⟨abandoned, habandon⟩ := habandon
  obtain ⟨type, key, rfl⟩ := judgeNormalDeps_some (fetchTable_inl h)
  obtain ⟨rest, hq⟩ := hd.head x t rfl
  rw [habandon]
  have hparked : (({ q₁ with abandoned } : TaskQueue).parkHead t type key x).queuedItems =
      (q₁.setQueue t (q₁.queueOf t).tail).queuedItems := rfl
  exact {
    items := by
      rw [hparked, ← hd.items, ← queuedItems_tail hq, hq, List.tail_cons, Multiset.add_cons, add_comm]
    waiting := ⟨type, key, by rw [← hd.depManager]; rfl⟩
    loads := hd.loads
    barriers := hd.barriers
    registration := by
      rw [← registration_of_tables hd.tables]
      exact registration_setQueue _ t _ }

/-- **A round that goes on parks an item.** -/
theorem parks_fetchRound (h : q.fetchRound env = .inl q') :
    ∃ x, q.Parks x (q.lostLoad env).toList q' := by
  have hd := q.drawn_getFetched env
  unfold fetchRound at h
  unfold lostLoad
  generalize q.getFetched env = r at hd h ⊢
  obtain ⟨loadCand, tableCand, q₁⟩ := r
  cases loadCand with
  | none =>
      cases tableCand with
      | none => contradiction
      | some c => exact ⟨c.1, parks_fetchTable hd h⟩
  | some l =>
      cases tableCand with
      | none => exact ⟨l, parks_fetchLoad hd h⟩
      | some c =>
          dsimp only at h ⊢
          split at h
          · next hp =>
              rw [if_pos hp]
              exact ⟨l, parks_fetchLoad hd h⟩
          · next hp =>
              rw [if_neg hp]
              exact ⟨c.1, parks_fetchTable hd h⟩

/-- No item enters the queues, and no item leaves a waiting heap. -/
structure Keeps (q q' : TaskQueue) : Prop where
  items : q'.queuedItems ≤ q.queuedItems
  depManager : q'.depManager = q.depManager

/-- A fetch that ends with the barriers moves no item back. -/
theorem keeps_fetchBarrier {out : Option ExecutableTask} (h : q.fetchBarrier env = .ok (out, q')) :
    q.Keeps q' := by
  unfold fetchBarrier at h
  split at h
  · obtain ⟨_, rfl⟩ := Prod.mk.inj (Except.ok.inj h)
    exact ⟨le_refl _, rfl⟩
  · next barrier rest hq =>
      split at h
      · obtain ⟨_, rfl⟩ := Prod.mk.inj (Except.ok.inj h)
        exact ⟨le_refl _, rfl⟩
      · obtain ⟨task, _, h⟩ := Except.of_bind_eq_ok h
        obtain ⟨_, rfl⟩ := Prod.mk.inj (Except.ok.inj h)
        obtain ⟨g, hrel, _⟩ := (q.popBarrier barrier rest).countFetch.release_eq env
        have hqueue : ((q.popBarrier barrier rest).countFetch.release env).queuedItems =
            q.queuedItems := by
          rw [hrel]
          rfl
        have hdm : ((q.popBarrier barrier rest).countFetch.release env).depManager =
            q.depManager := by
          rw [hrel]
          rfl
        exact ⟨le_of_eq hqueue, hdm⟩

/-- A LOAD round that ends the fetch moves no item back. -/
theorem keeps_fetchLoad {out : Option ExecutableTask} (h : q.fetchLoad x = .inr (.ok (out, q'))) :
    q.Keeps q' := by
  unfold fetchLoad at h
  split at h
  · cases h
  · cases h
  · obtain ⟨task, _, h⟩ := Except.of_bind_eq_ok (Sum.inr.inj h)
    obtain ⟨_, rfl⟩ := Prod.mk.inj (Except.ok.inj h)
    exact ⟨le_refl _, rfl⟩

/-- A table round that ends the fetch moves no item back. -/
theorem keeps_fetchTable {out : Option ExecutableTask} (hx : ∃ rest, q.queueOf t = x :: rest)
    (h : q.fetchTable x t = .inr (.ok (out, q'))) : q.Keeps q' := by
  obtain ⟨rest, hq⟩ := hx
  unfold fetchTable at h
  split at h
  · cases h
  · cases h
  · obtain ⟨task, _, h⟩ := Except.of_bind_eq_ok (Sum.inr.inj h)
    obtain ⟨_, rfl⟩ := Prod.mk.inj (Except.ok.inj h)
    rw [hq, List.tail_cons]
    exact ⟨queuedItems_tail hq ▸ Multiset.le_cons_self _ _, rfl⟩

theorem Drawn.keeps {q₁ : TaskQueue} {loadCand : Option ScheduledItem}
    {tableCand : Option (ScheduledItem × String)} (hd : q.Drawn loadCand tableCand q₁)
    (h : q₁.Keeps q') : q.Keeps q' where
  items := h.items.trans (hd.items ▸ Multiset.le_add_left _ _)
  depManager := h.depManager.trans hd.depManager

/-- The round that leaves the loop moves no item back either. -/
theorem keeps_fetchRound {out : Option ExecutableTask}
    (h : q.fetchRound env = .inr (.ok (out, q'))) : q.Keeps q' := by
  have hd := q.drawn_getFetched env
  unfold fetchRound at h
  generalize q.getFetched env = r at hd h
  obtain ⟨loadCand, tableCand, q₁⟩ := r
  cases loadCand with
  | none =>
      cases tableCand with
      | none => exact hd.keeps (keeps_fetchBarrier (Sum.inr.inj h))
      | some c => exact hd.keeps (keeps_fetchTable (hd.head c.1 c.2 rfl) h)
  | some l =>
      cases tableCand with
      | none => exact hd.keeps (keeps_fetchLoad h)
      | some c =>
          dsimp only at h
          split at h
          · exact hd.keeps (keeps_fetchLoad h)
          · have hkeeps := keeps_fetchTable (q := q₁.abandon (some l)) (hd.head c.1 c.2 rfl) h
            exact hd.keeps ⟨hkeeps.items, hkeeps.depManager⟩

/-! ## how the loop ends -/

/-- A round that goes on leaves fewer queued items. -/
theorem card_queuedItems_lt (h : q.fetchRound env = .inl q') :
    Multiset.card q'.queuedItems < Multiset.card q.queuedItems := by
  obtain ⟨x, hx⟩ := parks_fetchRound h
  rw [← hx.items, Multiset.card_cons, Multiset.card_add]
  omega

/-- The item of a LOAD is behind the registration of its table. -/
def Rejects (q : TaskQueue) (x : ScheduledItem) : Prop :=
  x.type = .load ∧ ∃ n, q.registration x.tableId = some n ∧ x.seq < n

/-- `classifyActions` throws for such a LOAD only. -/
theorem classifyActions_error (h : q.classifyActions x = .error e) :
    (∃ what, e = .invalidArgument what) ∧ q.Rejects x := by
  unfold classifyActions at h
  cases hty : x.type with
  | load =>
      simp only [hty] at h
      split at h
      · next hreg =>
          split at h
          · next hlt =>
              refine ⟨⟨_, (Except.error.inj h).symm⟩, hty, _, ?_, hlt⟩
              cases htbl : q.tables.get? x.tableId with
              | none => simp [htbl] at hreg
              | some tbl =>
                  rw [htbl, Option.getD_some] at hreg
                  simp [registration, htbl, hreg]
          · contradiction
      · contradiction
  | _ => simp only [hty] at h; contradiction

/-- A task cannot be built from a LOAD only whose table was registered later. -/
theorem buildExecutableFromScheduled_error (h : q.buildExecutableFromScheduled x = .error e) :
    (∃ what, e = .invalidArgument what) ∧ q.Rejects x := by
  obtain h | ⟨actions, _, h⟩ := Except.of_bind_eq_error h
  · exact classifyActions_error h
  · contradiction

/-- The exceptions of a fetch from a state. -/
inductive Throws (q : TaskQueue) : SchedError → Prop
  | payload (x : ScheduledItem) : x ∈ q.loadQueue → x.type ≠ .load → Throws q .badVariantAccess
  | rejected (x : ScheduledItem) (what : String) : x ∈ q.stored → q.Rejects x →
      Throws q (.invalidArgument what)

/-- Building an executable task throws for a stored item only. -/
theorem throws_of_build {q₁ : TaskQueue} (hreg : q₁.registration = q.registration)
    (hx : x ∈ q.stored) (h : q₁.buildExecutableFromScheduled x = .error e) : q.Throws e := by
  obtain ⟨⟨what, rfl⟩, hty, n, hn, hlt⟩ := buildExecutableFromScheduled_error h
  exact .rejected x what hx ⟨hty, n, hreg ▸ hn, hlt⟩

theorem getLoad_error {p : DependencyPayload} (h : p.getLoad = .error e) : e = .badVariantAccess := by
  cases p with
  | load d => contradiction
  | _ => exact (Except.error.inj h).symm

/-- The judgement of a LOAD fails for a wrong payload only. -/
theorem judgeLoadDeps_error (h : q.judgeLoadDeps x = .error e) : e = .badVariantAccess := by
  obtain h | ⟨d, _, h⟩ := Except.of_bind_eq_error h
  · exact getLoad_error h
  · split at h
    · contradiction
    · split at h <;> contradiction

/-- An exception of a LOAD round is one of the exceptions of the fetch. -/
theorem throws_fetchLoad {q₁ : TaskQueue} (hreg : q₁.registration = q.registration)
    (hx : x ∈ q.loadQueue) (hm : x.Matches) (h : q₁.fetchLoad x = .inr (.error e)) :
    q.Throws e := by
  unfold fetchLoad at h
  split at h
  · next e' hj =>
      obtain rfl := Except.error.inj (Sum.inr.inj h)
      by_cases hty : x.type = .load
      · obtain ⟨parked, hok⟩ := q₁.judgeLoadDeps_ok hty hm
        rw [hok] at hj
        contradiction
      · obtain rfl := judgeLoadDeps_error hj
        exact .payload x hx hty
  · cases h
  · obtain h | ⟨_, _, h⟩ := Except.of_bind_eq_error (Sum.inr.inj h)
    · exact throws_of_build hreg (mem_stored_of_loadQueue hx) h
    · contradiction

/-- An exception of a table round is one of the exceptions of the fetch. -/
theorem throws_fetchTable {q₁ : TaskQueue} (hreg : q₁.registration = q.registration)
    (hx : x ∈ q.queueOf t) (hm : x.Matches) (h : q₁.fetchTable x t = .inr (.error e)) :
    q.Throws e := by
  obtain ⟨parked, hj⟩ := q₁.judgeNormalDeps_ok t hm
  unfold fetchTable at h
  rw [hj] at h
  cases parked with
  | some _ => cases h
  | none =>
      obtain h | ⟨_, _, h⟩ := Except.of_bind_eq_error (Sum.inr.inj h)
      · exact throws_of_build hreg (mem_stored_of_queueOf hx) h
      · contradiction

/-- An exception of the barriers is one of the exceptions of the fetch. -/
theorem throws_fetchBarrier {q₁ : TaskQueue} (hreg : q₁.registration = q.registration)
    (hbar : q₁.barriers = q.barriers) (h : q₁.fetchBarrier env = .error e) : q.Throws e := by
  unfold fetchBarrier at h
  split at h
  · contradiction
  · next barrier rest hq =>
      split at h
      · contradiction
      · obtain h | ⟨_, _, h⟩ := Except.of_bind_eq_error h
        · have hb : barrier ∈ q.barriers := by
            rw [← hbar, hq]
            exact List.mem_cons_self
          have hpop : (q₁.popBarrier barrier rest).registration = q.registration := hreg
          exact throws_of_build hpop (mem_stored_of_barriers hb) h
        · contradiction

/-- An exception of a round is one of the exceptions of the fetch. -/
theorem throws_fetchRound (hm : ∀ x ∈ q.stored, x.Matches)
    (h : q.fetchRound env = .inr (.error e)) : q.Throws e := by
  obtain ⟨hload, htable, htables, hbarriers⟩ := q.getFetched_frame env
  unfold fetchRound at h
  generalize q.getFetched env = r at hload htable htables hbarriers h
  obtain ⟨loadCand, tableCand, q₁⟩ := r
  have hreg := registration_of_tables htables
  have hloads : ∀ {x}, loadCand = some x → q₁.fetchLoad x = .inr (.error e) → q.Throws e :=
    fun hx => throws_fetchLoad hreg (hload _ hx) (hm _ (mem_stored_of_loadQueue (hload _ hx)))
  have htabled : ∀ {q₂ : TaskQueue} {x t}, tableCand = some (x, t) →
      q₂.registration = q.registration → q₂.fetchTable x t = .inr (.error e) → q.Throws e :=
    fun hx hreg => throws_fetchTable hreg (htable _ _ hx) (hm _ (mem_stored_of_queueOf (htable _ _ hx)))
  cases loadCand with
  | none =>
      cases tableCand with
      | none => exact throws_fetchBarrier hreg hbarriers (Sum.inr.inj h)
      | some c => exact htabled rfl hreg h
  | some l =>
      cases tableCand with
      | none => exact hloads rfl h
      | some c =>
          dsimp only at h
          split at h
          · exact hloads rfl h
          · have hlost : (q₁.abandon (some l)).registration = q.registration := hreg
            exact htabled rfl hlost h

/-- What is stored after a round was stored before it. -/
theorem Parks.stored {lost : List ScheduledItem} (h : q.Parks x lost q') {y : ScheduledItem}
    (hy : y ∈ q'.stored) : y ∈ q.stored := by
  have hqueued : y ∈ x ::ₘ (q'.queuedItems + lost) → y ∈ q.stored := by
    intro hy
    rw [h.items] at hy
    simp [stored_eq, hy]
  rw [stored_eq, Multiset.mem_add, Multiset.mem_add] at hy
  obtain (hy | hy) | hy := hy
  · exact hqueued (Multiset.mem_cons_of_mem (Multiset.mem_add.mpr (.inl hy)))
  · rw [h.barriers] at hy
    simp [stored_eq, hy]
  · obtain ⟨type, key, hdm⟩ := h.waiting
    rw [hdm, DependencyManager.waitingItems_addWait, Multiset.mem_cons] at hy
    obtain rfl | hy := hy
    · exact hqueued (Multiset.mem_cons_self _ _)
    · simp [stored_eq, hy]

theorem Parks.throws {lost : List ScheduledItem} (h : q.Parks x lost q') (he : q'.Throws e) :
    q.Throws e := by
  cases he with
  | payload y hy hty => exact .payload y (h.loads y hy) hty
  | rejected y what hy hr => exact .rejected y what (h.stored hy) (by rwa [Rejects, h.registration] at hr)

/-- **The exceptions of `fetchNext`.** -/
theorem throws_fetchNext (hm : ∀ x ∈ q.stored, x.Matches) (h : q.fetchNext env = .error e) :
    q.Throws e := by
  have hloop := (fetchLoop env).run_induction
    (P := fun q r => (∀ x ∈ q.stored, x.Matches) → r = .error e → q.Throws e) ?_ ?_ q
  · unfold fetchNext at h
    split at h
    · exact hloop hm h
    · contradiction
  · intro q r hb hm hr
    exact throws_fetchRound hm (hb.trans (congrArg _ hr))
  · intro q q' r hb ih hm hr
    obtain ⟨x, hx⟩ := parks_fetchRound hb
    exact hx.throws (ih (fun y hy => hm y (hx.stored hy)) hr)

/-- **`fetchNext` ends**: all three loops do.  Every round that goes on parks a
queued item and no round takes one back; the fetch returns, except for the
exceptions of `Throws`. -/
theorem fetchNext_ends (env : Env) {q : TaskQueue} (hm : ∀ x ∈ q.stored, x.Matches) :
    (∃ n ≤ Multiset.card q.queuedItems, Returns (fetchRound env) n q ((fetchLoop env).run q)) ∧
    (∀ q₁ : TaskQueue, ∃ n ≤ q₁.globalIndex.heap.length,
      Returns (pickTable env).body n q₁ ((pickTable env).run q₁)) ∧
    (∀ g : GlobalIndex String, ∃ n ≤ g.heap.length,
      Returns (GlobalIndex.pickBestLoop env.heap).body n g (g.pickBest env.heap)) ∧
    (∀ q₁ q₂ : TaskQueue, q₁.fetchRound env = .inl q₂ →
      ∃ x, q₁.Parks x (q₁.lostLoad env).toList q₂) ∧
    (∀ (q₁ q₂ : TaskQueue) out, q₁.fetchRound env = .inr (.ok (out, q₂)) → q₁.Keeps q₂) ∧
    ((∃ out q', q.fetchNext env = .ok (out, q')) ∨ ∃ e, q.fetchNext env = .error e ∧ q.Throws e) := by
  obtain ⟨n, hn⟩ := (fetchLoop env).returns_run q
  refine ⟨⟨n, hn.rounds_le (m := fun q => Multiset.card q.queuedItems) card_queuedItems_lt, hn⟩,
    (pickTable env).returns_run_le, (GlobalIndex.pickBestLoop env.heap).returns_run_le,
    fun _ _ => parks_fetchRound, fun _ _ _ => keeps_fetchRound, ?_⟩
  cases hr : q.fetchNext env with
  | ok p => exact .inl ⟨p.1, p.2, rfl⟩
  | error e => exact .inr ⟨e, rfl, throws_fetchNext hm hr⟩

/-- A LOAD of the table `T`, which LOAD 6 registered. -/
def oneLoad (seq fileDependsOn : Nat) : TaskQueue where
  readyToFetch := true
  tables := (∅ : FiniteMap String TableQueue).set "T" { registered := true, registerSeq := 6 }
  loadQueue := [{ seq, tableId := "T", type := .load, depends := .load ⟨fileDependsOn, 0, "f", []⟩ }]

theorem matches_oneLoad (seq fileDependsOn : Nat) :
    ∀ x ∈ (oneLoad seq fileDependsOn).stored, x.Matches := by
  have hstored : (oneLoad seq fileDependsOn).stored = {{
      seq, tableId := "T", type := .load, depends := .load ⟨fileDependsOn, 0, "f", []⟩ }} := rfl
  intro x hx
  rw [hstored, Multiset.mem_singleton] at hx
  rw [hx]
  rfl

/-- A LOAD that waits for its file is parked, and the loop ends in the second
round. -/
theorem fetchNext_ends_parked : (∃ q', (oneLoad 7 3).fetchRound (.binaryHeap id) = .inl q') ∧
    ∃ n ≤ 1, Returns (fetchRound (.binaryHeap id)) n (oneLoad 7 3)
      ((fetchLoop (.binaryHeap id)).run (oneLoad 7 3)) := by
  constructor
  · have hround : ((oneLoad 7 3).fetchRound (.binaryHeap id)).isLeft = true := by decide +kernel
    exact Sum.isLeft_iff.mp hround
  · exact (fetchNext_ends (.binaryHeap id) (matches_oneLoad 7 3)).1

/-- The fetch of a LOAD behind the registration of its table throws. -/
theorem not_fetchNext_ends : ¬ ∀ (env : Env) (q : TaskQueue), (∀ x ∈ q.stored, x.Matches) →
    ∃ out q', q.fetchNext env = .ok (out, q') := by
  intro h
  have hthrows : (oneLoad 5 0).fetchNext (.binaryHeap id) matches .error (.invalidArgument
      "Wrongly execute a later Load 6 before an earlier Load 5") := by decide +kernel
  obtain ⟨out, q', hr⟩ := h (.binaryHeap id) (oneLoad 5 0) (matches_oneLoad 5 0)
  rw [hr] at hthrows
  contradiction

end TaskQueue

end LemonDB
