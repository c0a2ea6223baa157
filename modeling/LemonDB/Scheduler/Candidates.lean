import LemonDB.Scheduler.Placement

/-!
# LemonDB.Scheduler.Candidates

What a fetch can draw, read off the queue before the fetch.  A round takes a LOAD
from the front of the load queue and the head of an indexed table queue, and brings
none in; so all rounds of a fetch draw from the candidates of the queue that it
starts from (`narrows_fetchRound`).

No LOAD is lost if each LOAD candidate goes before each table candidate
(`KeepsLoads`), and no candidate at all if there are not candidates of both kinds
(`DrawsOne`).
-/

namespace LemonDB

/-! ## the index -/

/-- A table picked from the index is pending. -/
theorem pending_of_pickBest {pq : PriorityQueue (Key String)} {g g' : GlobalIndex String}
    {t : String} (hwf : g.WF) (h : g.pickBest pq = (some t, g')) :
    t ∈ g.pending ∧ g'.pending = g.pending \ {t} ∧ g'.WF := by
  have hspec := GlobalIndex.pickBest_spec pq hwf
  rw [h] at hspec
  cases hspec with
  | picked t g' ht hp hw => exact ⟨ht, hp, hw⟩

/-- The index from which nothing is picked is empty. -/
theorem pending_of_exhausted {pq : PriorityQueue (Key String)} {g g' : GlobalIndex String}
    (hwf : g.WF) (h : g.pickBest pq = (none, g')) : g'.pending = ∅ ∧ g'.WF := by
  have hspec := GlobalIndex.pickBest_spec pq hwf
  rw [h] at hspec
  cases hspec with
  | empty g' _ hp hw => exact ⟨hp, hw⟩

namespace TaskQueue

variable {env : Env} {q q' : TaskQueue}

/-- What the search for a table candidate does to the index: the table of the
candidate is pending before and not afterwards. -/
structure Searched (q : TaskQueue) (cand : Option (ScheduledItem × String)) (q' : TaskQueue) :
    Prop where
  wf : q'.globalIndex.WF
  subset : q'.globalIndex.pending ⊆ q.globalIndex.pending
  picked : ∀ x t, cand = some (x, t) → t ∈ q.globalIndex.pending ∧ t ∉ q'.globalIndex.pending

/-- The search takes entries out of the index only. -/
theorem searched_pickTable (env : Env) {q : TaskQueue} (hwf : q.globalIndex.WF) :
    Searched q ((pickTable env).run q).1 ((pickTable env).run q).2 := by
  refine (pickTable env).run_induction (P := fun q r => q.globalIndex.WF → Searched q r.1 r.2)
    ?_ ?_ q hwf
  · intro q r hb hwf
    have hturn := pickTable_turn env q
    rw [hb] at hturn
    cases hturn with
    | exhausted g hp =>
        obtain ⟨hempty, hg⟩ := pending_of_exhausted hwf hp
        have hempty : (q.setIndex g).globalIndex.pending = ∅ := hempty
        exact ⟨hg, hempty ▸ Set.empty_subset _, by simp⟩
    | found t g head rest hp hq hbar =>
        obtain ⟨ht, hpend, hg⟩ := pending_of_pickBest hwf hp
        have hpend : (q.setIndex g).globalIndex.pending = q.globalIndex.pending \ {t} := hpend
        refine ⟨hg, hpend ▸ Set.sdiff_subset, ?_⟩
        rintro x t' ⟨rfl, rfl⟩
        exact ⟨ht, by simp [hpend]⟩
  · intro q q₁ r hb ih hwf
    have hturn := pickTable_turn env q
    rw [hb] at hturn
    -- an entry without a candidate only leaves the index
    have hrest : ∀ t g, q.globalIndex.pickBest env.heap = (some t, g) → q₁.globalIndex = g →
        Searched q r.1 r.2 := by
      intro t g hp hg
      obtain ⟨_, hpend, hwf'⟩ := pending_of_pickBest hwf hp
      have hsearch := ih (hg ▸ hwf')
      have hsub : q₁.globalIndex.pending ⊆ q.globalIndex.pending := by
        rw [hg, hpend]
        exact Set.sdiff_subset
      exact ⟨hsearch.wf, hsearch.subset.trans hsub,
        fun x t hx => ⟨hsub (hsearch.picked x t hx).1, (hsearch.picked x t hx).2⟩⟩
    cases hturn with
    | emptyQueue t g hp hq => exact hrest t g hp rfl
    | blocked t g head rest hp hq hbar => exact hrest t g hp rfl

/-! ## the candidates -/

/-- The LOAD has to wait for its file or for its table. -/
def mustWait (q : TaskQueue) (x : ScheduledItem) : Bool :=
  match x.depends with
  | .load d =>
      decide (q.depManager.lastCompletedFor .file d.filePath < d.fileDependsOn) ||
        decide (q.depManager.lastCompletedFor .table x.tableId < d.tableDependsOn)
  | _ => false

/-- The LOADs at the front of a list that can be drawn: up to the first one behind a
barrier, and no further than one that need not wait. -/
def drawable (q : TaskQueue) : List ScheduledItem → List ScheduledItem
  | [] => []
  | x :: rest =>
      if q.behindBarrier x.seq then []
      else x :: if q.mustWait x then q.drawable rest else []

/-- The LOADs that a fetch can draw. -/
def loadCandidates (q : TaskQueue) : List ScheduledItem :=
  if q.loadBlocked then [] else q.drawable q.loadQueue

/-- The heads of table queues that a fetch can draw. -/
def tableCandidates (q : TaskQueue) : List ScheduledItem :=
  q.globalIndex.heap.filterMap fun k =>
    if q.globalIndex.latestVersion.get? k.tbl = some k.version then
      (q.queueOf k.tbl).head?.filter fun head => !q.behindBarrier head.seq
    else none

/-- The table candidates are the heads of pending tables that no barrier is in front of. -/
theorem mem_tableCandidates (q : TaskQueue) (x : ScheduledItem) :
    x ∈ q.tableCandidates ↔ ∃ t ∈ q.globalIndex.pending, (∃ rest, q.queueOf t = x :: rest) ∧
      q.behindBarrier x.seq = false := by
  have hhead : ∀ t, (q.queueOf t).head?.filter (fun head => !q.behindBarrier head.seq) = some x ↔
      (∃ rest, q.queueOf t = x :: rest) ∧ q.behindBarrier x.seq = false := by
    intro t
    rw [Option.filter_eq_some_iff, List.head?_eq_some_iff, Bool.not_eq_true']
  simp only [tableCandidates, List.mem_filterMap, GlobalIndex.pending, GlobalIndex.Current,
    Set.mem_ofPred_eq]
  constructor
  · rintro ⟨k, hk, hx⟩
    split at hx
    · next hcur => exact ⟨k.tbl, ⟨k, hk, rfl, hcur⟩, (hhead _).mp hx⟩
    · contradiction
  · rintro ⟨_, ⟨k, hk, rfl, hcur⟩, hx⟩
    exact ⟨k, hk, by rw [if_pos hcur]; exact (hhead _).mpr hx⟩

theorem mem_of_drawable (q : TaskQueue) {x : ScheduledItem} {l : List ScheduledItem}
    (h : x ∈ q.drawable l) : x ∈ l := by
  induction l with
  | nil => exact h
  | cons y rest ih =>
      rw [drawable] at h
      split at h
      · contradiction
      · split at h
        · exact (List.mem_cons.mp h).elim (· ▸ List.mem_cons_self)
            fun h => List.mem_cons_of_mem _ (ih h)
        · exact List.mem_singleton.mp h ▸ List.mem_cons_self

/-- A LOAD candidate is in the load queue. -/
theorem mem_loadQueue_of_candidate (q : TaskQueue) {x : ScheduledItem}
    (h : x ∈ q.loadCandidates) : x ∈ q.loadQueue := by
  unfold loadCandidates at h
  split at h
  · contradiction
  · exact q.mem_of_drawable h

theorem behindBarrier_congr (h : q'.barriers = q.barriers) (n : Nat) :
    q'.behindBarrier n = q.behindBarrier n := by
  unfold behindBarrier
  rw [h]

theorem drawable_congr (hb : q'.barriers = q.barriers)
    (hd : ∀ type key, q'.depManager.lastCompletedFor type key =
      q.depManager.lastCompletedFor type key) (l : List ScheduledItem) :
    q'.drawable l = q.drawable l := by
  have hwait : ∀ x, q'.mustWait x = q.mustWait x := fun x => by simp only [mustWait, hd]
  induction l with
  | nil => rfl
  | cons x rest ih => rw [drawable, drawable, behindBarrier_congr hb, hwait, ih]

/-- The LOAD candidates depend on the load queue, the barriers and the watermarks. -/
theorem loadCandidates_congr (hl : q'.loadQueue = q.loadQueue)
    (hblocked : q'.loadBlocked = q.loadBlocked) (hb : q'.barriers = q.barriers)
    (hd : ∀ type key, q'.depManager.lastCompletedFor type key =
      q.depManager.lastCompletedFor type key) : q'.loadCandidates = q.loadCandidates := by
  rw [loadCandidates, loadCandidates, hl, hblocked, drawable_congr hb hd]

/-- Parking an item changes no LOAD candidate. -/
theorem loadCandidates_addWait (q : TaskQueue) (type : DependencyType) (key : String)
    (x : ScheduledItem) : (q.addWait type key x).loadCandidates = q.loadCandidates :=
  loadCandidates_congr rfl rfl rfl (q.depManager.lastCompletedFor_addWait type · key · x)

/-! ## a round -/

/-- The candidates of `q'` are among those of `q`. -/
structure Narrows (q q' : TaskQueue) : Prop where
  wf : q'.globalIndex.WF
  loads : ∀ x ∈ q'.loadCandidates, x ∈ q.loadCandidates
  tables : ∀ x ∈ q'.tableCandidates, x ∈ q.tableCandidates

theorem mustWait_of_judgeLoadDeps {x : ScheduledItem} (h : q.judgeLoadDeps x = .ok (some q')) :
    q.mustWait x = true := by
  unfold judgeLoadDeps at h
  unfold mustWait
  cases hd : x.depends with
  | load d =>
      simp only [hd, DependencyPayload.getLoad, bind, Except.bind, pure, Except.pure] at h
      grind
  | _ => simp [hd, DependencyPayload.getLoad, bind, Except.bind] at h

/-- Both candidates of a round are candidates of the queue; what they leave has no
others, if the LOAD has to wait. -/
structure Drew (q : TaskQueue) (loadCand : Option ScheduledItem)
    (tableCand : Option (ScheduledItem × String)) (q' : TaskQueue) : Prop where
  wf : q'.globalIndex.WF
  load : ∀ x, loadCand = some x → x ∈ q.loadCandidates
  loads : (∀ x, loadCand = some x → q.mustWait x = true) →
    ∀ x ∈ q'.loadCandidates, x ∈ q.loadCandidates
  table : ∀ x t, tableCand = some (x, t) → x ∈ q.tableCandidates ∧ t ∉ q'.globalIndex.pending
  pending : q'.globalIndex.pending ⊆ q.globalIndex.pending
  tables : q'.tables = q.tables
  barriers : q'.barriers = q.barriers
  depManager : q'.depManager = q.depManager

/-- Drawing the LOAD candidate. -/
theorem drew_takeLoad (q : TaskQueue) (hwf : q.globalIndex.WF) :
    Drew q q.takeLoad.1 none q.takeLoad.2 := by
  obtain ⟨h, _⟩ | ⟨front, rest, hq, hbar, h⟩ | ⟨front, rest, hq, hblocked, hbar, h⟩ :=
    q.takeLoad_cases
  · rw [h]
    exact ⟨hwf, by simp, fun _ _ hx => hx, by simp, subset_rfl, rfl, rfl, rfl⟩
  · rw [h]
    refine ⟨hwf, by simp, fun _ x hx => ?_, by simp, subset_rfl, rfl, rfl, rfl⟩
    simp [loadCandidates] at hx
  · rw [h]
    have hload : q.loadCandidates =
        front :: if q.mustWait front then q.drawable rest else [] := by
      simp [loadCandidates, drawable, hq, hblocked, hbar]
    refine ⟨hwf, fun x hx => ?_, fun hwait x hx => ?_, by simp, subset_rfl, rfl, rfl, rfl⟩
    · rw [hload, Option.some.inj hx]
      exact List.mem_cons_self
    · have hrest : ({ q with loadQueue := rest } : TaskQueue).loadCandidates = q.drawable rest := by
        rw [loadCandidates, if_neg (by simp [hblocked])]
        exact @drawable_congr q { q with loadQueue := rest } rfl (fun _ _ => rfl) rest
      rw [hrest] at hx
      rw [hload, hwait front rfl, if_pos rfl]
      exact List.mem_cons_of_mem _ hx

/-- The two candidates of a round are candidates of the queue. -/
theorem drew_getFetched (env : Env) (q : TaskQueue) (hwf : q.globalIndex.WF) :
    Drew q (q.getFetched env).1 (q.getFetched env).2.1 (q.getFetched env).2.2 := by
  have htake := drew_takeLoad q hwf
  have hsearch := searched_pickTable env htake.wf
  obtain ⟨moved, hpick⟩ := pickTable_spec env q.takeLoad.2
  unfold getFetched
  dsimp only
  generalize (pickTable env).run q.takeLoad.2 = r at hsearch hpick ⊢
  have htables : r.2.tables = q.tables := by rw [hpick.frame, htake.tables]
  have hbarriers : r.2.barriers = q.barriers := by rw [hpick.frame, htake.barriers]
  have hdeps : r.2.depManager = q.depManager := by rw [hpick.frame, htake.depManager]
  refine ⟨hsearch.wf, htake.load, fun hwait x hx => htake.loads hwait x ?_, fun x t hx => ?_,
    hsearch.subset.trans htake.pending, htables, hbarriers, hdeps⟩
  · rwa [loadCandidates_congr (q := q.takeLoad.2) (by rw [hpick.frame]) (by rw [hpick.frame])
      (by rw [hpick.frame]) (fun _ _ => by rw [hpick.frame])] at hx
  · obtain ⟨ht, hnot⟩ := hsearch.picked x t hx
    obtain ⟨⟨rest, hq⟩, hbar⟩ := hpick.head x t hx
    refine ⟨(q.mem_tableCandidates x).mpr ⟨t, htake.pending ht, ⟨rest, ?_⟩, ?_⟩, hnot⟩
    · rwa [queueOf, htake.tables] at hq
    · rwa [behindBarrier_congr htake.barriers] at hbar

/-- A LOAD round that parks its candidate leaves no new candidates. -/
theorem narrows_park {q₁ : TaskQueue} {x : ScheduledItem} {tableCand : Option (ScheduledItem × String)}
    (hd : q.Drew (some x) tableCand q₁) (h : q₁.fetchLoad x = .inl q') : q.Narrows q' := by
  have hj := fetchLoad_inl h
  have hwait : q.mustWait x = true := by
    have hwait := mustWait_of_judgeLoadDeps hj
    rwa [mustWait, hd.depManager] at hwait
  obtain ⟨type, key, rfl⟩ := judgeLoadDeps_some hj
  refine ⟨hd.wf, fun y hy => hd.loads (fun z hz => Option.some.inj hz ▸ hwait) y ?_, fun y hy => ?_⟩
  · rwa [loadCandidates_addWait] at hy
  · obtain ⟨t, ht, ⟨rest, hq⟩, hbar⟩ := (mem_tableCandidates _ y).mp hy
    refine (q.mem_tableCandidates y).mpr ⟨t, hd.pending ht, ⟨rest, ?_⟩, ?_⟩
    · rw [queueOf, ← hd.tables]
      exact hq
    · rw [← behindBarrier_congr hd.barriers]
      exact hbar

/-- A table round that parks its candidate leaves no new candidates. -/
theorem narrows_parkHead {q₁ : TaskQueue} {x : ScheduledItem} {t : String}
    (hd : q.Drew none (some (x, t)) q₁) (h : q₁.fetchTable x t = .inl q') : q.Narrows q' := by
  obtain ⟨type, key, rfl⟩ := judgeNormalDeps_some (fetchTable_inl h)
  refine ⟨hd.wf, fun y hy => hd.loads (by simp) y ?_, fun y hy => ?_⟩
  · have hqueue : (q₁.setQueue t (q₁.queueOf t).tail).loadCandidates = q₁.loadCandidates :=
      loadCandidates_congr rfl rfl rfl fun _ _ => rfl
    rwa [parkHead, loadCandidates_addWait, hqueue] at hy
  · obtain ⟨u, hu, ⟨rest, hq⟩, hbar⟩ := (mem_tableCandidates _ y).mp hy
    -- the table of the parked item has left the index
    have hne : u ≠ t := by
      rintro rfl
      exact (hd.table x u rfl).2 hu
    have hqueue := q₁.queueOf_setQueue t u (q₁.queueOf t).tail
    rw [if_neg hne] at hqueue
    refine (q.mem_tableCandidates y).mpr ⟨u, hd.pending hu, ⟨rest, ?_⟩, ?_⟩
    · rw [queueOf, ← hd.tables]
      exact hqueue.symm.trans hq
    · rw [← behindBarrier_congr hd.barriers]
      exact hbar

/-- Each LOAD candidate goes before each table candidate. -/
def Prefers (q : TaskQueue) : Prop :=
  ∀ x ∈ q.loadCandidates, ∀ y ∈ q.tableCandidates, preferLoad x y = true

theorem Narrows.prefers (h : q.Narrows q') (hp : q.Prefers) : q'.Prefers :=
  fun x hx y hy => hp x (h.loads x hx) y (h.tables y hy)

/-- **A round that goes on leaves fewer candidates**, and loses none. -/
theorem narrows_fetchRound (hwf : q.globalIndex.WF) (hp : q.Prefers)
    (h : q.fetchRound env = .inl q') : q.Narrows q' := by
  have hd := drew_getFetched env q hwf
  unfold fetchRound at h
  generalize q.getFetched env = r at hd h
  obtain ⟨loadCand, tableCand, q₁⟩ := r
  cases loadCand with
  | none =>
      cases tableCand with
      | none => contradiction
      | some c => exact narrows_parkHead hd h
  | some x =>
      cases tableCand with
      | none => exact narrows_park hd h
      | some c =>
          dsimp only at h
          rw [hp x (hd.load x rfl) c.1 (hd.table c.1 c.2 rfl).1, if_pos rfl] at h
          exact narrows_park hd h

theorem Prefers.lostLoad (hp : q.Prefers) (hwf : q.globalIndex.WF) : q.lostLoad env = none := by
  have hd := drew_getFetched env q hwf
  unfold TaskQueue.lostLoad
  generalize q.getFetched env = r at hd
  obtain ⟨loadCand, tableCand, q₁⟩ := r
  cases loadCand with
  | none => rfl
  | some x =>
      cases tableCand with
      | none => rfl
      | some c => exact if_pos (hp x (hd.load x rfl) c.1 (hd.table c.1 c.2 rfl).1)

/-- What a round keeps that goes on holds before every round. -/
theorem everyFetchRound_of_round {I : TaskQueue → Prop} {p : TaskQueue → Bool}
    (round : ∀ {q q'}, I q → q.fetchRound env = .inl q' → I q') (hp : ∀ q, I q → p q = true)
    (h : I q) : q.everyFetchRound env p = true := by
  unfold everyFetchRound
  rw [Bool.or_eq_true]
  refine .inr ((everyRound env p).run_induction (P := fun q r => I q → r = true) ?_ ?_ q h)
  · intro q r hb h
    simp only [everyRound, hp q h, if_true] at hb
    split at hb
    · contradiction
    · exact (Sum.inr.inj hb).symm
  · intro q q₁ r hb ih h
    simp only [everyRound, hp q h, if_true] at hb
    split at hb
    · next hr => exact ih (Sum.inl.inj hb ▸ round h hr)
    · contradiction

/-- No round loses a LOAD. -/
theorem Prefers.everyFetchRound (hp : q.Prefers) (hwf : q.globalIndex.WF) :
    q.everyFetchRound env (fun q => (q.lostLoad env).isNone) = true := by
  refine everyFetchRound_of_round (I := fun q => q.Prefers ∧ q.globalIndex.WF) ?_ ?_ ⟨hp, hwf⟩
  · rintro q q' ⟨hp, hwf⟩ hr
    have hn := narrows_fetchRound hwf hp hr
    exact ⟨hn.prefers hp, hn.wf⟩
  · rintro q ⟨hp, hwf⟩
    rw [hp.lostLoad hwf]
    rfl

/-- There are not candidates of both kinds. -/
def OneKind (q : TaskQueue) : Prop := q.loadCandidates = [] ∨ q.tableCandidates = []

/-- Where there are candidates of one kind only, no LOAD goes behind a table candidate. -/
theorem OneKind.prefers (h : q.OneKind) : q.Prefers := by
  intro x hx y hy
  obtain h | h := h
  · exact absurd (h ▸ hx) List.not_mem_nil
  · exact absurd (h ▸ hy) List.not_mem_nil

/-- No round draws a LOAD and a table candidate. -/
theorem OneKind.everyFetchRound (h : q.OneKind) (hwf : q.globalIndex.WF) :
    q.everyFetchRound env (fun q => !q.drawsBoth env) = true := by
  refine everyFetchRound_of_round (I := fun q => q.OneKind ∧ q.globalIndex.WF) ?_ ?_ ⟨h, hwf⟩
  · rintro q q' ⟨h, hwf⟩ hr
    have hn := narrows_fetchRound hwf h.prefers hr
    refine ⟨h.imp (fun h => ?_) (fun h => ?_), hn.wf⟩
    · exact List.eq_nil_iff_forall_not_mem.mpr fun x hx =>
        absurd (h ▸ hn.loads x hx) List.not_mem_nil
    · exact List.eq_nil_iff_forall_not_mem.mpr fun x hx =>
        absurd (h ▸ hn.tables x hx) List.not_mem_nil
  · rintro q ⟨h, hwf⟩
    have hd := drew_getFetched env q hwf
    rw [Bool.not_eq_true', Bool.eq_false_iff]
    intro hboth
    unfold drawsBoth at hboth
    rw [Bool.and_eq_true] at hboth
    obtain ⟨x, hx⟩ := Option.isSome_iff_exists.mp hboth.1
    obtain ⟨⟨y, t⟩, hy⟩ := Option.isSome_iff_exists.mp hboth.2
    obtain h | h := h
    · exact absurd (h ▸ hd.load x hx) List.not_mem_nil
    · exact absurd (h ▸ (hd.table y t hy).1) List.not_mem_nil

end TaskQueue

/-! ## the index is well formed in every run -/

/-- Every move keeps the index well-formed. -/
theorem Stage.wf_move {env : Env} {lossy : Prop} {s s' : Stage} (h : s.queue.globalIndex.WF)
    (hm : Move env lossy s s') : s'.queue.globalIndex.WF := by
  cases hm with
  | exhausted g hp => exact (pending_of_exhausted h hp).2
  | emptyTable t g hp hq => exact (pending_of_pickBest h hp).2.2
  | blockTable t g head rest hc hp hq hb => exact (pending_of_pickBest h hp).2.2
  | loseTable t g hl hp => exact (pending_of_pickBest h hp).2.2
  | parkTable t g head rest type key hc hp hq hb hw => exact (pending_of_pickBest h hp).2.2
  | handTable t g head rest task hc hp hq hb hr hbuild => exact (pending_of_pickBest h hp).2.2
  | handBarrier barrier rest task hc hq hrun hheap hl hb =>
      obtain ⟨g, hrel, _, hwf, _⟩ := (s.queue.popBarrier barrier rest).countFetch.release_eq env
      simp only [hrel]
      exact hwf h
  | register c t hc ht =>
      obtain ⟨tables, g, hreg, _, _, hwf, _⟩ :=
        s.queue.registerTableQueue_eq env t (TaskQueue.placeholder c)
      simp only [hreg]
      exact hwf h
  | requeue x rest htr hty => exact GlobalIndex.wf_upsert env.heap h _ _ _ _
  | reindex c t hc ht =>
      obtain ⟨g, hup, _, hwf, _⟩ := s.queue.upsertHead_eq env t
      simp only [hup]
      exact hwf h
  | _ => exact h

theorem wf_run {env : Env} {guard : RunState → RunAction → Prop} {tasks : List ParsedQuery}
    {r : RunState} (run : (scheduler env).Runs guard (.start env tasks) r) :
    r.queue.globalIndex.WF := by
  have hstart : (RunState.start env tasks).queue.globalIndex.WF := by
    have hindex : (RunState.start env tasks).queue.globalIndex = {} :=
      (TaskQueue.registered_registerAll env tasks).globalIndex
    rw [hindex]
    exact GlobalIndex.wf_empty
  exact (show Preserved env True fun s => s.queue.globalIndex.WF from
    { move := Stage.wf_move, begin := fun h _ _ => h, finish := fun h _ => h }).run run hstart

/-! ## runs -/

namespace RunState

/-- The step is no fetch that may prefer a table candidate to a LOAD. -/
def KeepsLoads (r : RunState) (a : RunAction) : Prop := a = .fetch → r.queue.Prefers

/-- The step is no fetch that may draw a LOAD and a table candidate. -/
def DrawsOne (r : RunState) (a : RunAction) : Prop := a = .fetch → r.queue.OneKind

instance (r : RunState) (a : RunAction) : Decidable (r.KeepsLoads a) :=
  inferInstanceAs (Decidable (a = .fetch → ∀ x ∈ _, ∀ y ∈ _, _))

instance (r : RunState) (a : RunAction) : Decidable (r.DrawsOne a) :=
  inferInstanceAs (Decidable (a = .fetch → _ ∨ _))

end RunState

/-- A step abandons nothing if its fetch keeps the LOADs. -/
theorem abandoned_step {env : Env} {r r' : RunState} {a : RunAction}
    (hwf : r.queue.globalIndex.WF) (hkeep : r.KeepsLoads a)
    (h : (scheduler env).step r a = some r') : r'.queue.abandoned = r.queue.abandoned := by
  cases a with
  | fetch =>
      have hall := @TaskQueue.Prefers.everyFetchRound env _ (hkeep rfl) hwf
      obtain ⟨task, q, hf, rfl⟩ | ⟨q, hf, rfl⟩ := RunState.fetch_cases h
      all_goals
        obtain ⟨lost, hlost, hnil⟩ := TaskQueue.abandoned_fetchNext hf
        exact hlost.trans (by rw [hnil hall, List.append_nil])
  | complete k =>
      obtain ⟨task, q, _, _, hms, hr'⟩ := @moves_complete _ False _ _ _ h
      have hab := moves_preserve (I := fun s => s.queue.abandoned = r.queue.abandoned)
        (fun hI hm => by
          obtain ⟨lost, hlost, hnil⟩ := TaskQueue.abandoned_move hm
          rw [hlost, hnil id, List.append_nil, hI]) hms rfl
      exact (congrArg (fun s : Stage => s.queue.abandoned) hr').trans hab

/-- A run abandons nothing if all its fetches keep the LOADs. -/
theorem abandoned_of_keepsLoads {env : Env} {tasks : List ParsedQuery}
    {guard : RunState → RunAction → Prop} (hkeep : ∀ r a, guard r a → r.KeepsLoads a)
    {r : RunState} (run : (scheduler env).Runs guard (.start env tasks) r) :
    r.queue.abandoned = [] :=
  run.invariant_of (I := fun r => r.queue.abandoned = []) (J := fun r => r.queue.globalIndex.WF)
    (fun _ run => wf_run run) (TaskQueue.registered_registerAll env tasks).abandoned
    fun r a _ hwf _ hr hg hs => (abandoned_step hwf (hkeep r a hg) hs).trans hr

/-- **No task is lost** in a run in which every LOAD that a fetch can draw goes before
every table candidate: each task is in one of its places. -/
theorem no_task_lost {env : Env} {tasks : List ParsedQuery} {r : RunState}
    (run : (scheduler env).Runs RunState.KeepsLoads (.start env tasks) r) :
    ∀ task ∈ tasks, r.Holds task.seq := by
  have hnil : r.queue.abandoned = [] := abandoned_of_keepsLoads (fun _ _ hg => hg) run
  intro task ht
  have hsum := seqs_run run
  rw [hnil, List.map_nil, Multiset.coe_nil, add_zero] at hsum
  refine (RunState.mem_seqs (captured_run run) task.seq).mp ?_
  rw [hsum]
  exact Multiset.mem_coe.mpr (List.mem_map_of_mem ht)

/-- While `LOAD g` is in the load queue, the completed `LOAD f` makes `DROP A`
eligible: the next fetch hands out the DROP and destroys the LOAD. -/
theorem lost_load : ∃ r, (scheduler (.binaryHeap id)).Reachable
    (.start (.binaryHeap id) (submitAll [.load "A" "f", .drop "A", .load "B" "g"])) r ∧
    ¬ r.Holds 3 := by
  obtain ⟨r, run, hr⟩ := (scheduler (.binaryHeap id)).exists_of_execute
    (fun _ _ => True) (fun r => 3 ∉ r.seqs)
    (.start (.binaryHeap id) (submitAll [.load "A" "f", .drop "A", .load "B" "g"]))
    [.fetch, .complete 0, .fetch] (by decide +kernel)
  exact ⟨r, run, fun h => hr ((RunState.mem_seqs (captured_run run) 3).mpr h)⟩

/-- With both LOADs handed out before the DROP, no fetch finds a LOAD behind it. -/
theorem no_task_lost_two_tables : ∃ r, (scheduler (.binaryHeap id)).Runs RunState.KeepsLoads
    (.start (.binaryHeap id) (submitAll [.load "A" "f", .load "B" "g", .drop "A"])) r ∧
    r.finished.map (·.seq) = [1, 3] ∧
    ∀ task ∈ submitAll [.load "A" "f", .load "B" "g", .drop "A"], r.Holds task.seq := by
  obtain ⟨r, run, hr⟩ := (scheduler (.binaryHeap id)).exists_of_execute
    RunState.KeepsLoads (fun r => r.finished.map (·.seq) = [1, 3])
    (.start (.binaryHeap id) (submitAll [.load "A" "f", .load "B" "g", .drop "A"]))
    [.fetch, .fetch, .complete 0, .fetch, .complete 1] (by decide +kernel)
  exact ⟨r, run, hr, no_task_lost run⟩

end LemonDB
