import LemonDB.Scheduler.LoadsPreferred

/-!
# LemonDB.Scheduler.Delivery

When the scheduler delivers all tasks, whatever the threads do.

A fetch round that draws a LOAD and a table candidate delivers one of them, and the
other one is lost.  No round does if the last LOAD is handed out before the first
task completes (`LoadsOut`): as long as nothing is completed, no table is open
(`drawsOne`).  If the tables that are used are created too, then the scheduler is
never stuck, in any interleaving (`delivers`).
-/

namespace LemonDB

/-! ## the workload -/

/-- The tables that are used are created, and no LOAD has to wait: not for a task, and
not for a barrier. -/
structure Provided (items : List ScheduledItem) : Prop extends CreatedFirst items where
  created : ∀ x ∈ items, x.type.isQueued = true → ∃ y ∈ items, y.ident.Creates x.tableId
  named : ∀ x ∈ items, x.type.isQueued = true → x.tableId ≠ "" ∧ x.tableId ≠ controlTableId
  free : ∀ x ∈ items, x.type = .load → ∀ p ∈ x.waits, p.2 = 0
  early : ∀ x ∈ items, ∀ y ∈ items, x.type = .load → y.type.isBarrier = true → x.seq < y.seq

/-- What creates a table opens it. -/
theorem ScheduledItem.opens_of_creates (env : Env) {x : ScheduledItem} {t : String}
    (hfit : x.Fits) (hresolved : x.depends.isPending = false) (h : x.ident.Creates t) :
    x.opens env t = true := by
  unfold ScheduledItem.Fits at hfit
  obtain ⟨hload, heq⟩ | ⟨_, d, hd, heq⟩ := h
  · have hload : x.type = .load := hload
    cases hdep : x.depends with
    | load d =>
        rw [hdep] at hresolved
        have hp : d.pendingTable = [] := by simpa [DependencyPayload.isPending] using hresolved
        simp only [ScheduledItem.ident, Ident.of, hdep, hresolved] at heq
        simpa [ScheduledItem.opens, hdep, ScheduledItem.targets, hp] using heq
    | _ => simp [hload, hdep, DependencyPayload.fits] at hfit
  · have hd : x.depends = .copyTable d := hd
    simp [ScheduledItem.opens, hd, heq]

/-- The tasks can be ranked by their sequence numbers. -/
theorem Provided.schedulable {items : List ScheduledItem} {dm : DependencyManager} (h : Provided items)
    (hrec : Recorded items dm) (env : Env) : Schedulable env items id where
  recaptured x hx _ _ _ hqueued _ _ := h.named x hx hqueued
  queues _ _ _ _ hlt _ _ _ := hlt
  depends x hx := by
    rintro ⟨k, d⟩ hd hne
    obtain hzero | ⟨y, hy, hseq, hnotify, hlt | ⟨rfl, dep, hdep, hself⟩⟩ := hrec.depends x hx k d hd
    · exact absurd hzero hne
    · exact ⟨y, hy, hnotify, Nat.le_of_eq hseq.symm, hlt⟩
    · -- a table is not copied to itself
      have hfit := hrec.fits y hy
      unfold ScheduledItem.Fits at hfit
      have hty : y.type = .copyTable := by
        cases hty : y.type <;> simp_all [DependencyPayload.fits]
      have hcreates : y.ident.Creates y.tableId := .inr ⟨hty, dep, hdep, hself⟩
      have hqueue : y.onQueue y.tableId = true := by
        simp [ScheduledItem.onQueue, hty, QueryType.isQueued, QueryType.isBarrier]
      exact absurd (h.before y hy y hy _ hcreates hqueue) (Nat.lt_irrefl _)
  opened x hx hqueued := by
    obtain ⟨y, hy, hcreates⟩ := h.created x hx hqueued
    refine ⟨y, hy, y.opens_of_creates env (hrec.fits y hy) (h.resolved y hy) hcreates, ?_⟩
    exact h.before y hy x hx _ hcreates (by simp [ScheduledItem.onQueue, hqueued])

/-- Each table that is used is created, no LOAD comes behind a barrier, and nothing is
for the pseudo table. -/
structure SelfContained (queries : List Query) : Prop extends CreatesFirst queries where
  created : ∀ q ∈ queries, ∀ t ∈ q.uses, ∃ q' ∈ queries, q'.creates = some t
  early : queries.Pairwise fun q q' => q.type.isBarrier = true → q'.type ≠ .load
  nop : .nop ∉ queries

instance (queries : List Query) : Decidable (SelfContained queries) :=
  decidable_of_iff (CreatesFirst queries ∧
      (∀ q ∈ queries, ∀ t ∈ q.uses, ∃ q' ∈ queries, q'.creates = some t) ∧
      queries.Pairwise (fun q q' => q.type.isBarrier = true → q'.type ≠ .load) ∧ .nop ∉ queries)
    ⟨fun h => ⟨h.1, h.2.1, h.2.2.1, h.2.2.2⟩, fun h => ⟨h.1, h.created, h.early, h.nop⟩⟩

/-- A task that is queued uses a table. -/
theorem SelfContained.uses {queries : List Query} (h : SelfContained queries) {query : Query}
    (hq : query ∈ queries) (hqueued : query.type.isQueued = true) : ∃ t, query.uses = some t ∧
      t ≠ "" ∧ resolveTableId query = t := by
  have huses : ∃ t, query.uses = some t := by
    cases query with
    | nop => exact absurd hq h.nop
    | load | list | quit | listen => contradiction
    | _ => exact ⟨_, rfl⟩
  obtain ⟨t, ht⟩ := huses
  obtain ⟨q', hq', hcreates⟩ := h.created query hq t ht
  obtain ⟨hempty, hcontrol⟩ := h.named q' hq' t hcreates
  refine ⟨t, ht, hempty, ?_⟩
  cases query with
  | load | list | quit | listen | nop => contradiction
  | _ =>
      obtain rfl := Option.some.inj ht
      exact if_neg hempty

/-- A task notifies the table that it creates, and the one that it is routed to. -/
theorem ScheduledItem.of_notifies {y : ScheduledItem} {t : String} (hfit : y.Fits)
    (hresolved : y.depends.isPending = false) (h : (.table, t) ∈ y.ident.notifies) :
    y.ident.Creates t ∨ y.tableId = t ∧ y.type ≠ .load := by
  unfold ScheduledItem.Fits at hfit
  unfold Ident.notifies at h
  simp only [ScheduledItem.ident, Ident.of, hresolved, Bool.false_eq_true, and_false,
    if_false] at h
  split at h
  · next d hty hdep =>
      have hp : d.pendingTable = [] := by
        rw [hdep] at hresolved
        simpa [DependencyPayload.isPending] using hresolved
      simp only [hp, ne_eq, not_true_eq_false, if_false, List.mem_cons, Prod.mk.injEq,
        reduceCtorEq, false_and, true_and, List.not_mem_nil, or_false, false_or] at h
      refine .inl (.inl ⟨hty, ?_⟩)
      simp [ScheduledItem.ident, Ident.of, hresolved, h]
  · next d hty hdep =>
      simp only [List.mem_cons, Prod.mk.injEq, reduceCtorEq, false_and, true_and,
        List.not_mem_nil, or_false, false_or] at h
      exact .inr ⟨h.symm, by simp [hty]⟩
  · next d hty hdep =>
      simp only [List.mem_cons, Prod.mk.injEq, true_and, List.not_mem_nil, or_false] at h
      obtain h | h := h
      · exact .inr ⟨h.symm, by simp [hty]⟩
      · exact .inl (.inr ⟨hty, d, hdep, h.symm⟩)
  · next hty =>
      simp only [List.mem_cons, Prod.mk.injEq, true_and, List.not_mem_nil, or_false] at h
      exact .inr ⟨h.symm, by simp [hty]⟩
  · next _ hload _ _ =>
      have hty : y.type ≠ .load := by
        intro hty
        cases hdep : y.depends with
        | load d => exact hload d hty hdep
        | _ => simp [hty, hdep, DependencyPayload.fits] at hfit
      split at h
      · simp only [List.mem_cons, Prod.mk.injEq, true_and, List.not_mem_nil, or_false] at h
        exact .inr ⟨h.symm, hty⟩
      · contradiction

/-- Where each table is created first and each file is for one query, a LOAD waits for
nothing. -/
theorem CreatesFirst.load_waits {queries : List Query} (h : CreatesFirst queries) (env : Env)
    {x : ScheduledItem} (hx : x ∈ TaskQueue.registered env (submitAll queries))
    (hload : x.type = .load) : ∀ p ∈ x.waits, p.2 = 0 := by
  have hfirst := createdFirst_registered env h
  have hrec := recorded_markAll env (increasing_submitAll queries)
  have hkeyed := TaskQueue.forall_registered env (P := TaskQueue.Keyed) (fun dm t ht =>
    TaskQueue.keyed_markedItem env dm (@type_submitAll queries t ht))
  have hresolved := (h.resolved env x hx).1
  have hfit := hrec.fits x hx
  unfold ScheduledItem.Fits at hfit
  obtain ⟨i, q, hi, hiseq, hty, _, hquery⟩ := TaskQueue.registered_submitAll env hx
  cases hdep : x.depends with
  | load d =>
      have hcreates : x.ident.Creates x.tableId := by
        refine .inl ⟨hload, ?_⟩
        simp [ScheduledItem.ident, Ident.of, hresolved]
      rintro ⟨k, n⟩ hn
      obtain hzero | ⟨y, hy, _, hnotify, hlt⟩ := hrec.depends x hx k n hn
      · exact hzero
      exfalso
      have hlt : y.seq < x.seq := by
        refine hlt.resolve_right ?_
        rintro ⟨rfl, d', hd', _⟩
        rw [hdep] at hd'
        contradiction
      simp only [ScheduledItem.waits, hdep, DependencyPayload.waits, List.mem_cons,
        Prod.mk.injEq, List.not_mem_nil, or_false] at hn
      obtain ⟨rfl, _⟩ | ⟨rfl, _⟩ := hn
      · -- the file is for this query only
        obtain ⟨j, q', hj, hjseq, _, _, hquery'⟩ := TaskQueue.registered_submitAll env hy
        have hfile := (hkeyed x hx).file d.filePath (by
          simp [Ident.notifies, ScheduledItem.ident, Ident.of, hload, hdep])
        have hfile' := (hkeyed y hy).file d.filePath hnotify
        rw [hquery] at hfile
        rw [hquery'] at hfile'
        have heq := h.eq_of_file hi hj hfile hfile'
        omega
      · -- and no earlier one touches the table
        obtain hcreates' | ⟨htab, hnload⟩ := ScheduledItem.of_notifies (hrec.fits y hy)
          (h.resolved env y hy).1 hnotify
        · have heq := hfirst.once x hx y hy _ hcreates hcreates'
          omega
        · obtain hbar | hbar := Bool.eq_false_or_eq_true y.type.isBarrier
          · obtain ⟨k, q', hk, _, hq'⟩ := h.creates_of_registered env hx hcreates
            have hcontrol := (h.named q' (List.mem_of_getElem? hk) _ hq').2
            exact hcontrol (htab.symm.trans (hfirst.control y hy hbar))
          · have hqueue : y.onQueue x.tableId = true := by
              simp [ScheduledItem.onQueue, htab, (TaskQueue.isQueued_iff _).mpr ⟨hbar, hnload⟩]
            have hlt' := hfirst.before x hx y hy _ hcreates hqueue
            omega
  | _ => simp [hload, hdep, DependencyPayload.fits] at hfit

/-- **A self-contained workload** is registered so that it can be delivered. -/
theorem provided_registered (env : Env) {queries : List Query} (h : SelfContained queries) :
    Provided (TaskQueue.registered env (submitAll queries)) := by
  have hfirst := createdFirst_registered env h.toCreatesFirst
  have hrec := recorded_markAll env (increasing_submitAll queries)
  have huses : ∀ x ∈ TaskQueue.registered env (submitAll queries), x.type.isQueued = true →
      ∃ q ∈ queries, q.uses = some x.tableId := by
    intro x hx hqueued
    obtain ⟨k, q, hk, _, hty, htab, _⟩ := TaskQueue.registered_submitAll env hx
    obtain ⟨t, ht, _, hresolve⟩ := h.uses (List.mem_of_getElem? hk) (hty ▸ hqueued)
    exact ⟨q, List.mem_of_getElem? hk, by rw [ht, htab, hresolve]⟩
  constructor
  case toCreatedFirst => exact hfirst
  case created =>
    intro x hx hqueued
    obtain ⟨q, hq, ht⟩ := huses x hx hqueued
    obtain ⟨q', hq', hcreates⟩ := h.created q hq _ ht
    obtain ⟨y, hy, hyq⟩ := List.mem_map.mp ((TaskQueue.map_query_registered env queries).symm ▸ hq')
    obtain ⟨k, q'', hk, _, hty, htab, hquery⟩ := TaskQueue.registered_submitAll env hy
    obtain rfl : q'' = q' := hquery.symm.trans hyq
    refine ⟨y, hy, ?_⟩
    have hfit := hrec.fits y hy
    unfold ScheduledItem.Fits at hfit
    have hresolved := (h.resolved env y hy).1
    cases q'' with
    | load t f =>
        obtain rfl := Option.some.inj hcreates
        refine .inl ⟨hty, ?_⟩
        simp only [ScheduledItem.ident, Ident.of, hresolved, Bool.false_eq_true, and_false, if_false]
        exact htab.trans (if_neg (h.named _ hq' _ rfl).1)
    | copyTable t new =>
        obtain rfl := Option.some.inj hcreates
        have hkeyed := TaskQueue.forall_registered env (P := TaskQueue.Keyed) (fun dm t ht =>
          TaskQueue.keyed_markedItem env dm (@type_submitAll queries t ht)) y hy
        cases hdep : y.depends with
        | copyTable d =>
            refine .inr ⟨hty, d, hdep, ?_⟩
            rw [hkeyed.newTable d hdep, hquery]
            rfl
        | _ => simp [hty, hdep, Query.type, DependencyPayload.fits] at hfit
    | _ => contradiction
  case named =>
    intro x hx hqueued
    obtain ⟨q, hq, ht⟩ := huses x hx hqueued
    obtain ⟨q', hq', hcreates⟩ := h.created q hq _ ht
    exact h.named q' hq' _ hcreates
  case free => exact fun x hx hload => h.toCreatesFirst.load_waits env hx hload
  case early =>
    intro x hx y hy hload hbar
    obtain ⟨i, q, hi, hiseq, hty, _, _⟩ := TaskQueue.registered_submitAll env hx
    obtain ⟨j, q', hj, hjseq, hty', _, _⟩ := TaskQueue.registered_submitAll env hy
    rw [hty] at hload
    rw [hty'] at hbar
    obtain hlt | rfl | hgt := Nat.lt_trichotomy i j
    · omega
    · obtain rfl := Option.some.inj (hi.symm.trans hj)
      rw [hload] at hbar
      contradiction
    · exact absurd hload (rel_of_pairwise h.early hj hi hgt hbar)

/-! ## when no LOAD is left -/

namespace Stage

variable {env : Env} {lossy : Prop} {items : List ScheduledItem} {s s' : Stage}

/-- No LOAD is left to be handed out. -/
def LoadsGone (s : Stage) : Prop := ∀ x ∈ s.queue.items + s.transit, x.type ≠ .load

theorem loadsGone_move (h : s.LoadsGone) (hm : Move env lossy s s') : s'.LoadsGone := by
  intro x hx hload
  have hx : QueryType.load ∈ (s'.queue.items + s'.transit).map ScheduledItem.type :=
    Multiset.mem_map.mpr ⟨x, hx, hload⟩
  have hbefore : QueryType.load ∈ (s.queue.items + s.transit).map ScheduledItem.type := by
    obtain ⟨hitems, _⟩ | ⟨_, _, _, _, hitems, _⟩ :=
      carries_move (f := ScheduledItem.type) (fun _ _ => rfl) (fun _ _ _ _ _ _ => rfl) hm
    · exact hitems ▸ hx
    · exact hitems ▸ Multiset.mem_cons_of_mem hx
  obtain ⟨y, hy, hload⟩ := Multiset.mem_map.mp hbefore
  exact h y hy hload

/-- Nothing is completed while a LOAD is left, and no barrier blocks the LOADs. -/
structure Early (items : List ScheduledItem) (s : Stage) : Prop where
  building : s.Building items
  ready : s.queue.readyToFetch = true
  unblocked : s.queue.loadBlocked = false
  first : s.LoadsGone ∨ s.completing = none ∧ s.finished = [] ∧ ∀ task ∈ s.inFlight,
    task.onCompleted.type = task.type ∧ (task.type = .load ∨ task.type.isBarrier = true)

/-- No LOAD is behind a barrier. -/
theorem Building.behindBarrier (hitems : Provided items) (h : s.Building items)
    {front : ScheduledItem} (hq : front ∈ s.queue.loadQueue) :
    s.queue.behindBarrier front.seq = false := by
  unfold TaskQueue.behindBarrier
  split
  · rfl
  · next barrier _ hbar =>
      have hb : barrier ∈ s.queue.barriers := hbar ▸ List.mem_cons_self
      obtain ⟨x, hx, hidx⟩ := h.held (mem_items_of_stored (TaskQueue.mem_stored_of_loadQueue hq))
      obtain ⟨y, hy, hidy⟩ := h.held (mem_items_of_stored (TaskQueue.mem_stored_of_barriers hb))
      have hload : x.type = front.type := congrArg Ident.type hidx
      have hbarrier : y.type = barrier.type := congrArg Ident.type hidy
      have hlt := hitems.early x hx y hy (hload.trans (h.tables.placed.loads front hq))
        (hbarrier ▸ h.tables.placed.barriers barrier hb)
      have hxseq : x.seq = front.seq := congrArg Ident.seq hidx
      have hyseq : y.seq = barrier.seq := congrArg Ident.seq hidy
      exact decide_eq_false (by omega)

/-- As long as nothing is completed, no table is open. -/
theorem Building.not_pending (h : s.Building items) (hc : s.completing = none)
    (hfin : s.finished = []) {t : String} {g : GlobalIndex String} :
    s.queue.globalIndex.pickBest env.heap ≠ (some t, g) := by
  intro hp
  obtain ⟨c, hmem, _⟩ := h.opened t
    (GlobalIndex.pending_subset_entered _ (pending_of_pickBest h.tables.wf hp).1)
  rw [hc, hfin] at hmem
  exact List.not_mem_nil hmem

theorem early_move (hitems : Provided items) (h : s.Early items) (hm : Move env lossy s s') :
    s'.Early items := by
  have hbuilding := building_move hitems.toCreatedFirst h.building hm
  have hready := ready_move h.ready hm
  have hplaced := h.building.tables.placed
  have hgone : s.LoadsGone → s'.LoadsGone := (loadsGone_move · hm)
  cases hm with
  | blockLoad front rest hq hb =>
      rw [h.building.behindBarrier hitems (hq ▸ List.mem_cons_self)] at hb
      contradiction
  | handLoad x rest d task hc htr hd hr hb =>
      refine ⟨hbuilding, hready, h.unblocked, h.first.imp hgone fun ⟨hnone, hfin, hflight⟩ =>
        ⟨hnone, hfin, fun t ht => ?_⟩⟩
      obtain ht | ht := List.mem_append.mp ht
      · exact hflight t ht
      · have hfit := hplaced.fits_of_mem (x := x)
          (Multiset.mem_add.mpr (.inr (by rw [htr]; simp)))
        have hbuilt := TaskQueue.built_of_ok hb
        rw [List.mem_singleton.mp ht, hbuilt.type]
        exact ⟨hbuilt.capturedType, .inl (load_of_fits hfit hd)⟩
  | handTable t g head rest task hc hp hq hb hr hbuild =>
      refine ⟨hbuilding, hready, h.unblocked, h.first.imp hgone fun ⟨hnone, hfin, _⟩ => ?_⟩
      exact absurd hp (h.building.not_pending hnone hfin)
  | handBarrier barrier rest task hc hq hrun hheap hl hb =>
      obtain ⟨g, hrel, _⟩ := ((s.queue.popBarrier barrier rest).countFetch).release_eq env
      simp only [hrel] at hbuilding hready hgone ⊢
      refine ⟨hbuilding, hready, rfl, h.first.imp hgone fun ⟨hnone, hfin, hflight⟩ =>
        ⟨hnone, hfin, fun t ht => ?_⟩⟩
      obtain ht | ht := List.mem_append.mp ht
      · exact hflight t ht
      · have hbuilt := TaskQueue.built_of_ok hb
        rw [List.mem_singleton.mp ht, hbuilt.type]
        exact ⟨hbuilt.capturedType, .inr (hplaced.barriers barrier (hq ▸ List.mem_cons_self))⟩
  | register c t hc ht =>
      obtain ⟨tables, g, hreg, _⟩ :=
        s.queue.registerTableQueue_eq env t (TaskQueue.placeholder c)
      simp only [hreg] at hbuilding hready hgone ⊢
      exact ⟨hbuilding, hready, h.unblocked, h.first.imp hgone id⟩
  | reindex c t hc ht =>
      obtain ⟨g, hup, _⟩ := s.queue.upsertHead_eq env t
      simp only [hup] at hbuilding hready hgone ⊢
      exact ⟨hbuilding, hready, h.unblocked, h.first.imp hgone id⟩
  | _ => exact ⟨hbuilding, hready, h.unblocked, h.first.imp hgone id⟩

/-- While the LOADs are handed out first, no round draws two candidates: there are no LOADs,
or no table is open. -/
theorem Early.drawsBoth (hitems : Provided items) (h : s.Early items)
    (hc : s.completing = none) : s.queue.drawsBoth env = false := by
  unfold TaskQueue.drawsBoth
  simp only [TaskQueue.getFetched]
  obtain ⟨htake, _⟩ | ⟨_, _, _, _, htake⟩ | ⟨x, rest, hq, hb, hbar, htake⟩ :=
    s.queue.takeLoad_cases
  · simp [htake]
  · simp [htake]
  · have hx : x ∈ s.queue.loadQueue := hq ▸ List.mem_cons_self
    have hpick := @moves_pickTable env True
      { s.withQueue { s.queue with loadQueue := rest } with transit := x :: s.transit } hc
    have hearly := early_move hitems h (@Move.takeLoad env True s x rest hq hb hbar)
    simp only [withQueue] at hpick
    rw [htake]
    generalize (TaskQueue.pickTable env).run { s.queue with loadQueue := rest } = r at hpick ⊢
    cases hpick with
    | none => rfl
    | some t head rest' q g hms hp hq' =>
        exfalso
        have hend := moves_preserve (early_move hitems) hms hearly
        obtain hgone | ⟨hnone, hfin, _⟩ := hend.first
        · exact hgone x (Multiset.mem_add.mpr (.inr (Multiset.mem_coe.mpr List.mem_cons_self)))
            (h.building.tables.placed.loads x hx)
        · exact hend.building.not_pending hnone hfin hp

theorem Early.drawsOne (hitems : Provided items) (h : s.Early items)
    (hc : s.completing = none) :
    s.queue.everyFetchRound env (fun q => !q.drawsBoth env) = true :=
  everyFetchRound_of_move (early_move hitems)
    (fun s h hc => by rw [h.drawsBoth hitems hc]; rfl) h hc

/-! ## the invariant -/

/-- The scheduler goes on: its tables are built in order, nothing that waits is
forgotten, and nothing was lost. -/
structure Delivering (env : Env) (items : List ScheduledItem) (n : Nat) (s : Stage) : Prop where
  early : s.Early items
  wakes : s.Wakes items
  aimed : s.Aimed env items
  barred : s.Barred items n
  live : s.Live items fun _ => False
  kept : s.queue.abandoned = []
  /-- A table is registered by what opens it. -/
  registered : ∀ t, s.queue.registration t ≠ none →
    ∃ c ∈ s.completing.toList ++ s.finished, c.Opens t

theorem Building.registered_move (h : s.Building items) (hm : Move env lossy s s')
    (hreg : ∀ t, s.queue.registration t ≠ none →
      ∃ c ∈ s.completing.toList ++ s.finished, c.Opens t) (t : String)
    (ht : s'.queue.registration t ≠ none) :
    ∃ c ∈ s'.completing.toList ++ s'.finished, c.Opens t := by
  rw [completing_move hm, finished_move hm]
  obtain hsame | ⟨c, hc, hmem, _⟩ | ⟨_, _, _, hnone⟩ := registration_move hm t
  · exact hreg t (hsame ▸ ht)
  · exact h.opened_of_enters (.inr (.inr ⟨c, hc, .inl hmem⟩))
  · exact absurd hnone ht

/-- A task that is held is not completed. -/
theorem Building.held_ne (hitems : CreatedFirst items) (h : s.Building items) {x : ScheduledItem}
    (hx : x ∈ s.queue.items + s.transit) {c : Completion} (hc : c ∈ s.completions) :
    x.seq ≠ c.seq := by
  have hnodup : (s.idents.map Ident.seq).Nodup := by
    rw [h.idents, Multiset.map_coe, List.map_map]
    exact Multiset.coe_nodup.mpr hitems.nodup
  rw [Stage.idents, Multiset.map_add] at hnodup
  intro heq
  refine Multiset.disjoint_left.mp (Multiset.nodup_add.mp hnodup).2.2
    (Multiset.mem_map.mpr ⟨x.ident, Multiset.mem_map_of_mem _ hx, heq⟩) ?_
  refine Multiset.mem_map.mpr ⟨c.ident, ?_, rfl⟩
  simp only [completions, List.mem_append, List.mem_map] at hc
  simp only [Stage.out, Multiset.mem_add, Multiset.mem_coe, List.mem_map]
  obtain (⟨task, ht, rfl⟩ | hc) | hc := hc
  · exact .inl (.inl ⟨task, ht, rfl⟩)
  · exact .inl (.inr ⟨c, hc, rfl⟩)
  · exact .inr ⟨c, hc, rfl⟩

/-- No LOAD comes too late: the table that it creates is not registered yet. -/
theorem Delivering.loadsInOrder {n : Nat} (hitems : CreatedFirst items)
    (h : s.Delivering env items n) (hc : s.completing = none) : s.LoadsInOrder env where
  placed := h.aimed.placed
  inOrder x hx t ht m hm := by
    exfalso
    have hmem : x ∈ s.queue.items + s.transit := by
      obtain ⟨_, hx | ⟨type, key, hx⟩ | hx⟩ := hx
      · exact mem_items_of_stored (TaskQueue.mem_stored_of_loadQueue hx)
      · exact mem_items_of_stored (TaskQueue.mem_stored_of_waitingOn hx)
      · exact Multiset.mem_add.mpr (.inr (Multiset.mem_coe.mpr hx))
    obtain ⟨y, hy, hid⟩ := h.early.building.held hmem
    have hdep : y.depends = x.depends := congrArg Ident.depends hid
    have hresolved : x.depends.isPending = false := hdep ▸ hitems.resolved y hy
    have heq : t = x.tableId := by
      unfold ScheduledItem.targets at ht
      split at ht
      · next d hd =>
          rw [hd] at hresolved
          have hp : d.pendingTable = [] := by simpa [DependencyPayload.isPending] using hresolved
          simpa [hp] using ht
      · simpa using ht
    have hcreates : y.ident.Creates t := by
      rw [hid]
      refine .inl ⟨hx.1, ?_⟩
      simp [ScheduledItem.ident, Ident.of, hresolved, heq]
    obtain ⟨c, hc', hopens⟩ := h.registered t (by simp [hm])
    have hcmem : c ∈ s.completions := by
      rw [completions, List.append_assoc]
      exact List.mem_append_right _ hc'
    obtain ⟨z, hz, hidz, hcreates'⟩ := h.early.building.creates hitems hcmem hopens
    have hseq := hitems.once y hy z hz t hcreates hcreates'
    have hyseq : y.seq = x.seq := congrArg Ident.seq hid
    have hzseq : z.seq = c.seq := congrArg Ident.seq hidz
    exact h.early.building.held_ne hitems hmem hcmem (by omega)
  completing c hc' := by
    rw [hc] at hc'
    contradiction
  actions task ht := (h.live.prepared _ (List.mem_append_left _ (List.mem_map_of_mem ht))).drops

/-- The next move. -/
theorem delivering_move {n : Nat} {dm : DependencyManager} (hitems : Provided items)
    (hrec : Recorded items dm) (h : s.Delivering env items n) (hm : Move env False s s') :
    s'.Delivering env items n where
  early := early_move hitems h.early hm
  wakes := wakes_move hrec (fun _ hx _ hy hseq =>
    List.inj_on_of_nodup_map hitems.nodup hx hy hseq) h.wakes hm
  aimed := aimed_move h.aimed hm
  barred := barred_move h.barred hm
  live := live_move h.live hm
  kept := by
    obtain ⟨lost, hlost, hnil⟩ := TaskQueue.abandoned_move hm
    rw [hlost, h.kept, hnil id, List.append_nil]
  registered := h.early.building.registered_move hm h.registered

/-- No LOAD waits. -/
theorem Delivering.not_load {n : Nat} {dm : DependencyManager} (hitems : Provided items)
    (hrec : Recorded items dm) (h : s.Delivering env items n) {type : DependencyType} {key : String}
    {x : ScheduledItem} (hx : x ∈ s.queue.depManager.waitingOn type key) : x.type ≠ .load := by
  intro hload
  obtain ⟨d, hd, hlt⟩ := h.wakes.waits type key x hx
  have hmem := mem_items_of_stored (TaskQueue.mem_stored_of_waitingOn hx)
  obtain ⟨y, hy, hid⟩ := h.wakes.registered hmem
  have hw := ScheduledItem.waits_of_ident (h.wakes.fits hrec hmem) hid.symm (by omega) hd
  have hty : y.type = x.type := congrArg Ident.type hid
  have hzero := hitems.free y hy (hty.trans hload) _ hw
  simp only at hzero
  omega

/-- A fetch that finds no candidate leaves no LOAD. -/
theorem Delivering.loadsGone_of_exhausts {n : Nat} {dm : DependencyManager} (hitems : Provided items)
    (hrec : Recorded items dm) (h : s.Delivering env items n) (hc : s.completing = none)
    (htr : s.transit = []) {out : Option ExecutableTask} {q' : TaskQueue}
    (hex : s.Exhausts env False out q') : (s.afterFetch out q').LoadsGone := by
  obtain ⟨q, hms, hheap, hloads, hend⟩ := hex
  have hq : (s.withQueue q).Delivering env items n :=
    moves_preserve (delivering_move hitems hrec) hms h
  have hblocked : q.loadBlocked = false := hq.early.unblocked
  have hnil : q.loadQueue = [] := hloads.resolve_right (by simp [hblocked])
  have hgone : (s.withQueue q).LoadsGone := by
    intro x hx hload
    have htr' : (s.withQueue q).transit = [] := htr
    have hkept : q.abandoned = [] := hq.kept
    rw [htr', Multiset.coe_nil, add_zero] at hx
    obtain hx | hx := (q.mem_items x).mp hx
    · obtain hx | ⟨t, hx⟩ | hx | ⟨type, key, hx⟩ := (q.mem_stored x).mp hx
      · rw [hnil] at hx
        contradiction
      · have hqueued := (hq.aimed.placed.queued t x hx).1
        rw [hload] at hqueued
        contradiction
      · have hbar := hq.aimed.placed.barriers x hx
        rw [hload] at hbar
        contradiction
      · exact hq.not_load hitems hrec hx hload
    · rw [hkept] at hx
      contradiction
  have hms' := @moves_fetchBarrier env False (s.withQueue q) q hc .refl hheap hloads
  rw [hend] at hms'
  exact moves_preserve loadsGone_move hms' hgone

/-! ## the steps -/

theorem wakes_preserved_split (env : Env) {dm : DependencyManager} (hrec : Recorded items dm)
    (hinj : ∀ x ∈ items, ∀ y ∈ items, x.seq = y.seq → x = y) :
    SplitPreserved env fun _ => Wakes items where
  move := wakes_move hrec hinj
  begin := (wakes_preserved env True hrec hinj).begin
  settle h hc _ := h.keep (by rw [Stage.idents, Stage.idents, ← out_finish hc]; rfl) rfl
  decrement h := h.keep rfl rfl

theorem aimed_preserved_split (env : Env) (items : List ScheduledItem) :
    SplitPreserved env fun _ => Aimed env items where
  move := aimed_move
  begin := (aimed_preserved env True items).begin
  settle h hc _ :=
    have hend := (aimed_preserved env True items).finish h hc
    { hend with placed := { hend.placed with } }
  decrement h := { h with placed := { h.placed with } }

theorem loadsGone_preserved (env : Env) : SplitPreserved env fun _ => LoadsGone where
  move := loadsGone_move
  begin h _ _ := h
  settle h _ _ := h
  decrement {n s} h := by
    change ∀ x ∈ s.queue.countCompleted.items + s.transit, _
    rw [TaskQueue.items_countCompleted]
    exact h

/-- The tables are built in order, and registered by what opens them. -/
def Founded (items : List ScheduledItem) (s : Stage) : Prop :=
  s.Building items ∧ ∀ t, s.queue.registration t ≠ none →
    ∃ c ∈ s.completing.toList ++ s.finished, c.Opens t

theorem founded_preserved (hitems : CreatedFirst items) (env : Env) :
    SplitPreserved env fun _ => Founded items where
  move h hm := ⟨building_move hitems h.1 hm, h.1.registered_move hm h.2⟩
  begin h hc hk := by
    refine ⟨building_begin hitems env h.1 hc hk, fun t ht => ?_⟩
    obtain ⟨c, hmem, hopens⟩ := h.2 t ht
    rw [hc] at hmem
    exact ⟨c, List.mem_append_right _ hmem, hopens⟩
  settle {n s c} h hc htr := by
    refine ⟨building_settle env h.1 hc, fun t ht => ?_⟩
    obtain ⟨c', hmem, hopens⟩ := h.2 t ht
    refine ⟨c', ?_, hopens⟩
    rw [hc] at hmem
    simpa [settle, or_comm] using hmem
  decrement h := ⟨(building_preserved hitems env).decrement (n := 0) h.1, h.2⟩

/-- The callback of a task ends. -/
theorem live_settle {E : String → Prop} {c : Completion} (h : s.Live items E)
    (hc : s.completing = some c) (hback : CalledBack c s.queue)
    (htables : (s.settle c).TableInv fun _ => False) : (s.settle c).Live items fun _ => False := by
  have hend := live_finish h hc hback { htables with placed := { htables.placed with } }
  exact { hend with
    tables := htables
    prepared := fun c hc => (hend.prepared c hc).mono fun _ ht => ht }

/-- The counters play no part. -/
theorem live_decrement {E : String → Prop} (h : s.Live items E) :
    (s.withQueue s.queue.countCompleted).Live items E :=
  { h with
    tables := { h.tables with placed := { h.tables.placed with } }
    prepared := fun c hc => (h.prepared c hc).mono fun _ ht => ht }

end Stage

/-! ## runs -/

/-- No task completes while a LOAD is left. -/
def LoadsOut (r : SplitState) (a : SplitAction) : Prop := (∃ k, a = .apply k) → r.stage.LoadsGone

namespace Stage

variable {env : Env} {items : List ScheduledItem} {dm : DependencyManager} {r r' : SplitState}

/-- What a step keeps that depends on which candidates are drawn. -/
theorem Delivering.going (hitems : Provided items) (h : r.stage.Delivering env items r.settling)
    {a : SplitAction} (hg : LoadsOut r a) (hs : (splitScheduler env).step r a = some r')
    (hafter : r'.stage.Building items) : r'.stage.Early items ∧
      (r'.stage.Live items fun _ => False) ∧ r'.queue.abandoned = [] := by
  have hkeep : ∀ {s s' : Stage}, s.queue.abandoned = [] → Move env False s s' →
      s'.queue.abandoned = [] := fun h hm => by
    obtain ⟨lost, hlost, hnil⟩ := TaskQueue.abandoned_move hm
    rw [hlost, h, hnil id, List.append_nil]
  cases a with
  | fetch =>
      obtain ⟨r₁, hf, rfl⟩ := Option.map_eq_some_iff.mp hs
      have hms : Moves env False r.stage r₁.stage :=
        moves_fetch hf fun _ => h.early.drawsOne hitems rfl
      exact ⟨moves_preserve (early_move hitems) hms h.early, moves_preserve live_move hms h.live,
        moves_preserve (I := fun s => s.queue.abandoned = []) hkeep hms h.kept⟩
  | apply k =>
      obtain ⟨task, q, hk, hq, rfl⟩ := SplitState.apply_cases hs
      have hms : Moves env False (r.stage.begin k task) ((r.stage.begin k task).withQueue q) :=
        moves_callback rfl rfl hq
      have hearly : (r.stage.begin k task).Early items :=
        ⟨building_begin hitems.toCreatedFirst env h.early.building rfl hk, h.early.ready,
          h.early.unblocked, .inl (hg ⟨k, rfl⟩)⟩
      have hend := moves_preserve (early_move hitems) hms hearly
      have hgone : ((r.stage.begin k task).withQueue q).LoadsGone :=
        moves_preserve loadsGone_move hms (hg ⟨k, rfl⟩)
      have hbegin := live_begin env h.live rfl hk fun t ht _ => by
        have hmem : task.onCompleted ∈ r.stage.completions := List.mem_append_left _
          (List.mem_append_left _ (List.mem_map_of_mem (List.mem_of_getElem? hk)))
        obtain ⟨y, hy, hid⟩ := h.early.building.out hmem
        rw [← Completion.onQueue_ident, ← hid, ScheduledItem.onQueue_ident] at ht
        simp only [ScheduledItem.onQueue, Bool.and_eq_true, decide_eq_true_eq] at ht
        exact ht.2 ▸ hitems.named y hy ht.1
      have hback : CalledBack task.onCompleted q :=
        calledBack_callback (s := r.stage.begin k task) rfl rfl hq
      exact ⟨⟨hafter, hend.ready, hend.unblocked, .inl hgone⟩,
        live_settle (moves_preserve live_move hms hbegin) rfl hback hafter.tables,
        moves_preserve (I := fun s => s.queue.abandoned = []) hkeep hms h.kept⟩
  | decrement =>
      change r.decrement = some r' at hs
      unfold SplitState.decrement at hs
      split at hs
      · obtain rfl := Option.some.inj hs
        exact ⟨⟨hafter, h.early.ready, h.early.unblocked, h.early.first⟩, live_decrement h.live, h.kept⟩
      · contradiction

theorem delivering_step (hitems : Provided items) (hrec : Recorded items dm)
    (h : r.stage.Delivering env items r.settling) {a : SplitAction} (hg : LoadsOut r a)
    (hs : (splitScheduler env).step r a = some r') :
    r'.stage.Delivering env items r'.settling := by
  have hone : (splitScheduler env).Reachable r r' := (Transition.Runs.refl r).tail trivial hs
  obtain ⟨hbuilding, hregistered⟩ := (founded_preserved hitems.toCreatedFirst env).run hone
    ⟨h.early.building, h.registered⟩
  obtain ⟨hearly, hlive, hkept⟩ := h.going hitems hg hs hbuilding
  exact {
    early := hearly
    wakes := (wakes_preserved_split env hrec fun _ hx _ hy hseq =>
      List.inj_on_of_nodup_map hitems.nodup hx hy hseq).run hone h.wakes
    aimed := (aimed_preserved_split env items).run hone h.aimed
    barred := (barred_preserved env items).run hone h.barred
    live := hlive
    kept := hkept
    registered := hregistered }

end Stage

theorem delivering_start (env : Env) {tasks : List ParsedQuery} (hinc : Increasing tasks)
    (hitems : Provided (TaskQueue.registered env tasks)) :
    (SplitState.start env tasks).stage.Delivering env (TaskQueue.registered env tasks) 0 := by
  have hreg := TaskQueue.registered_registerAll env tasks
  exact {
    early := ⟨building_start env hinc hitems.toCreatedFirst, rfl, hreg.loadBlocked,
      .inr ⟨rfl, rfl, fun task ht => absurd ht List.not_mem_nil⟩⟩
    wakes := @wakes_run env (fun _ _ => True) tasks hinc _ (.refl _)
    aimed := @aimed_run env (fun _ _ => True) tasks hinc _ (.refl _)
    barred := barred_run hinc (.refl _)
    live := live_start env hinc
    kept := hreg.abandoned
    registered := fun t ht => absurd (registration_start env tasks t) ht }

/-! ## what a fetch delivers -/

namespace Stage

variable {env : Env} {items : List ScheduledItem} {dm : DependencyManager} {r : SplitState}

theorem Delivering.fetchNext_ok (hitems : Provided items)
    (h : r.stage.Delivering env items r.settling) : ∃ p, r.queue.fetchNext env = .ok p :=
  (h.loadsInOrder hitems.toCreatedFirst rfl).fetchNext_ok rfl

/-- A fetch hands out a LOAD, or leaves none. -/
theorem Delivering.load_of_fetch (hitems : Provided items) (hrec : Recorded items dm)
    (h : r.stage.Delivering env items r.settling) {out : Option ExecutableTask} {q : TaskQueue}
    (hf : r.queue.fetchNext env = .ok (out, q)) :
    (r.stage.afterFetch out q).LoadsGone ∨
      ∃ task, out = some task ∧ task.type = .load ∧ task.onCompleted.type = .load := by
  have hms := @moves_fetchNext env False r.stage rfl fun _ => h.early.drawsOne hitems rfl
  change RoundMoves env False r.stage (.inr (r.queue.fetchNext env)) at hms
  rw [hf] at hms
  by_cases hbar : ∀ task ∈ out, task.type.isBarrier = true
  · exact .inl (h.loadsGone_of_exhausts hitems hrec rfl rfl (exhausts_fetchNext h.aimed.placed rfl
      h.early.ready (fun _ => h.early.drawsOne hitems rfl) hbar hf))
  · obtain ⟨task, ht, hnbar⟩ := by simpa using hbar
    refine (moves_preserve (early_move hitems) hms h.early).first.imp id fun ⟨_, _, hflight⟩ => ?_
    obtain ⟨hty, hload | hbar⟩ := hflight task (by simp [afterFetch, ht])
    · exact ⟨task, ht, hload, hty.trans hload⟩
    · rw [hnbar] at hbar
      contradiction

/-- Once as many LOADs are in flight as were registered, none is left in the queue. -/
theorem Building.loadsGone_of_length (h : r.stage.Building items) (hfin : r.finished = [])
    (hflight : ∀ task ∈ r.inFlight, task.onCompleted.type = .load)
    (hlen : (items.filter fun x => decide (x.type = .load)).length ≤ r.inFlight.length) :
    r.stage.LoadsGone := by
  have hcount := congrArg (Multiset.countP fun i : Ident => i.type = .load) h.idents
  have hout : r.stage.out.countP (fun i => i.type = .load) = r.inFlight.length := by
    have hout : r.stage.out = (r.inFlight.map (·.onCompleted.ident) : List Ident) := by
      simp [Stage.out, RunState.stage, hfin]
    rw [hout, Multiset.coe_countP, List.countP_map, List.countP_eq_length.mpr]
    exact fun task ht => decide_eq_true (hflight task ht)
  have hitems : ((items.map ScheduledItem.ident : List Ident) : Multiset Ident).countP
      (fun i => i.type = .load) = (items.filter fun x => decide (x.type = .load)).length := by
    rw [Multiset.coe_countP, List.countP_map, ← List.countP_eq_length_filter]
    rfl
  rw [Stage.idents, Multiset.countP_add, hout, hitems] at hcount
  have hzero : r.stage.held.countP (fun i => i.type = .load) = 0 := by omega
  exact fun x hx hload => Multiset.countP_eq_zero.mp hzero x.ident (Multiset.mem_map_of_mem _ hx) hload

/-- **The scheduler is never stuck**: when nothing is in flight and a task is left, a
fetch hands one out. -/
theorem Delivering.fetches (hitems : Provided items) (hrec : Recorded items dm)
    (h : r.stage.Delivering env items r.settling) (hflight : r.inFlight = [])
    (hsettling : r.settling = 0) (hleft : ∃ x ∈ items, x.seq ∉ r.finished.map (·.seq)) :
    ∃ task q, r.queue.fetchNext env = .ok (some task, q) := by
  obtain ⟨⟨out, q'⟩, hfetch⟩ := h.fetchNext_ok hitems
  cases out with
  | some task => exact ⟨task, q', hfetch⟩
  | none =>
      exfalso
      obtain ⟨q, hms, hheap, hloads, hend⟩ : r.stage.Exhausts env False none q' :=
        exhausts_fetchNext h.aimed.placed rfl h.early.ready
          (fun _ => h.early.drawsOne hitems rfl) (by simp) hfetch
      have hq : (r.stage.withQueue q).Delivering env items r.settling :=
        moves_preserve (delivering_move hitems hrec) hms h
      -- nothing is running, so there is no barrier
      have hrunning : q.running = r.inFlight.length + 0 + r.settling := hq.barred.running
      rw [hflight, hsettling] at hrunning
      have hnil : q.barriers = [] :=
        (TaskQueue.fetchBarrier_none hend).resolve_right (by simp [hrunning])
      obtain ⟨hwait, _⟩ := hq.barred.released hnil
      have hblocked : q.loadBlocked = false := hq.early.unblocked
      have hload : q.loadQueue = [] := hloads.resolve_right (by simp [hblocked])
      have hall := nothing_left hq.wakes hrec hq.live hq.aimed (hitems.schedulable hrec env) hq.kept
        hflight rfl rfl hheap hload hwait (by simp [withQueue, hnil])
      obtain ⟨y, hy, hleft⟩ := hleft
      obtain ⟨x, hx, hid⟩ | ⟨c, hc, hid⟩ := located hq.wakes.idents hq.kept hy
      · have hx : x ∈ q.stored := by
          have htr : (r.stage.withQueue q).transit = [] := rfl
          rwa [htr, Multiset.coe_nil, add_zero] at hx
        have hbar := hq.aimed.placed.mem_barriers hx (hall x hx)
        have hbar : x ∈ q.barriers := hbar
        rw [hnil] at hbar
        contradiction
      · have hc : c ∈ r.inFlight.map (·.onCompleted) ++ [] ++ r.finished := hc
        rw [hflight] at hc
        have hcseq : c.seq = y.seq := congrArg Ident.seq hid
        exact hleft (List.mem_map.mpr ⟨c, hc, hcseq⟩)

end Stage

end LemonDB
