import LemonDB.Lib.HeapOrder
import LemonDB.Scheduler.GlobalIndex
import Mathlib.Data.List.Induction

/-!
# LemonDB.Scheduler.IndexRuns

Sequences of calls of the global index, from an empty one.

* `index_is_pending_set` — whatever the heap does, the index is the set of the
  tables that were upserted since they were last returned;
* `pickBest_priority_least` — with the array heap the returned entry has the
  best priority of all current entries, although the comparator is not
  transitive inside one priority.
-/

namespace LemonDB

/-- A call of the index. -/
inductive IndexCall (α : Type u) where
  | upsert (tableQ : Option α) (priorityLevel : QueryPriority) (enqueueTick headSeq : Nat)
  | pickBest

/-- What a call did: the table that was upserted, or the answer. -/
inductive IndexEvent (α : Type u) where
  | upserted (tableQ : Option α)
  | returned (outTableQ : Option α)

/-- In a history of events, oldest first, the table was upserted since it was
last returned. -/
def Owed {α : Type u} (history : List (IndexEvent α)) (t : α) : Prop :=
  ∃ before after, history = before ++ .upserted (some t) :: after ∧ .returned (some t) ∉ after

namespace GlobalIndex

variable {α : Type u} [DecidableEq α] (pq : PriorityQueue (Key α))

def call (g : GlobalIndex α) : IndexCall α → IndexEvent α × GlobalIndex α
  | .upsert t p tick seq => (.upserted t, g.upsert pq t p tick seq)
  | .pickBest => (.returned (g.pickBest pq).1, (g.pickBest pq).2)

/-- The history of a sequence of calls, and the index after it. -/
def runCalls (g : GlobalIndex α) : List (IndexCall α) → List (IndexEvent α) × GlobalIndex α
  | [] => ([], g)
  | c :: cs =>
      ((g.call pq c).1 :: ((g.call pq c).2.runCalls cs).1, ((g.call pq c).2.runCalls cs).2)

theorem runCalls_concat (c : IndexCall α) : (cs : List (IndexCall α)) → (g : GlobalIndex α) →
    g.runCalls pq (cs ++ [c]) =
      ((g.runCalls pq cs).1 ++ [((g.runCalls pq cs).2.call pq c).1],
        ((g.runCalls pq cs).2.call pq c).2)
  | [], g => rfl
  | d :: cs, g => by
      rw [List.cons_append, runCalls, runCalls, runCalls_concat c cs, List.cons_append]

/-! ## the set of owed tables -/

omit [DecidableEq α] in
theorem owed_concat {history : List (IndexEvent α)} {e : IndexEvent α} {t : α} :
    Owed (history ++ [e]) t ↔
      e = .upserted (some t) ∨ (Owed history t ∧ e ≠ .returned (some t)) := by
  constructor
  · rintro ⟨before, after, heq, hafter⟩
    obtain rfl | ⟨after', e', rfl⟩ := List.eq_nil_or_concat after
    · exact .inl (List.cons.inj (List.append_inj' heq rfl).2).1
    · rw [List.concat_eq_append, ← List.cons_append, ← List.append_assoc] at heq
      obtain ⟨hhist, he⟩ := List.append_inj' heq rfl
      rw [List.cons.injEq] at he
      rw [List.concat_eq_append, List.mem_append, not_or] at hafter
      refine .inr ⟨⟨before, after', hhist, hafter.1⟩, fun hret => hafter.2 ?_⟩
      rw [← he.1, hret]
      exact List.mem_singleton_self _
  · rintro (rfl | ⟨⟨before, after, rfl, hafter⟩, hne⟩)
    · exact ⟨history, [], rfl, List.not_mem_nil⟩
    · refine ⟨before, after ++ [e], by simp, ?_⟩
      rw [List.mem_append, List.mem_singleton]
      exact fun h => h.elim hafter fun h => hne h.symm

omit [DecidableEq α] in
/-- A table that is owed after it was returned was upserted in between. -/
theorem upserted_mem_of_owed {t : α} {history after : List (IndexEvent α)} :
    Owed (history ++ .returned (some t) :: after) t → .upserted (some t) ∈ after := by
  induction after using List.reverseRecOn with
  | nil =>
      intro h
      obtain h | h := owed_concat.mp h
      · contradiction
      · exact absurd rfl h.2
  | append_singleton after e ih =>
      intro h
      rw [← List.cons_append, ← List.append_assoc] at h
      obtain h | h := owed_concat.mp h
      · exact List.mem_append_right _ (by rw [h]; exact List.mem_singleton_self _)
      · exact List.mem_append_left _ (ih h.1)

/-- The index after a sequence of calls. -/
structure Tracks (history : List (IndexEvent α)) (g : GlobalIndex α) : Prop where
  wf : g.WF
  pending : ∀ t, t ∈ g.pending ↔ Owed history t

variable {pq}

/-- One call. -/
theorem tracks_call {history : List (IndexEvent α)} {g : GlobalIndex α} (h : Tracks history g)
    (c : IndexCall α) : Tracks (history ++ [(g.call pq c).1]) (g.call pq c).2 := by
  cases c with
  | upsert tableQ p tick seq =>
      cases tableQ with
      | none => exact ⟨h.wf, fun t => by rw [owed_concat, ← h.pending]; simp [call, upsert]⟩
      | some u =>
          refine ⟨wf_upsert pq h.wf u p tick seq, fun t => ?_⟩
          rw [owed_concat, ← h.pending, call, pending_upsert, Set.mem_insert_iff]
          simp [eq_comm]
  | pickBest =>
      have hpick := pickBest_spec pq h.wf
      rw [call]
      generalize g.pickBest pq = r at hpick
      cases hpick with
      | empty g' he he' hwf _ _ =>
          refine ⟨hwf, fun t => ?_⟩
          rw [owed_concat, ← h.pending, he, he']
          simp
      | picked u g' hu he hwf _ _ =>
          refine ⟨hwf, fun t => ?_⟩
          rw [owed_concat, ← h.pending, he, Set.mem_sdiff, Set.mem_singleton_iff]
          simp [eq_comm]

/-- A whole sequence of calls. -/
theorem tracks_runCalls (calls : List (IndexCall α)) :
    Tracks (runCalls pq {} calls).1 (runCalls pq {} calls).2 := by
  induction calls using List.reverseRecOn with
  | nil => exact ⟨wf_empty, fun t => by simp [runCalls, Owed]⟩
  | append_singleton calls c ih =>
      rw [runCalls_concat]
      exact tracks_call ih c

theorem owed_of_pickBest {history : List (IndexEvent α)} {g : GlobalIndex α}
    (h : Tracks history g) {t : α} (hp : (g.pickBest pq).1 = some t) : Owed history t := by
  have hpick := pickBest_spec pq h.wf
  generalize g.pickBest pq = r at hpick hp
  cases hpick with
  | empty => contradiction
  | picked u g' hu =>
      rw [← Option.some.inj hp]
      exact (h.pending u).mp hu

/-- A table is returned only when it is owed. -/
theorem owed_of_returned {t : α} (calls : List (IndexCall α)) :
    (history after : List (IndexEvent α)) →
    (runCalls pq {} calls).1 = history ++ .returned (some t) :: after → Owed history t := by
  induction calls using List.reverseRecOn with
  | nil => intro history after h; simp [runCalls] at h
  | append_singleton calls c ih =>
      intro history after h
      rw [runCalls_concat] at h
      obtain rfl | ⟨after', e, rfl⟩ := List.eq_nil_or_concat after
      · obtain ⟨hhist, he⟩ := List.append_inj' h rfl
        rw [← hhist]
        have hret := (List.cons.inj he).1
        cases c with
        | upsert => contradiction
        | pickBest => exact owed_of_pickBest (tracks_runCalls calls) (IndexEvent.returned.inj hret)
      · rw [List.concat_eq_append, ← List.cons_append, ← List.append_assoc] at h
        exact ih history after' (List.append_inj' h rfl).1

variable (pq)

/-- **The index is the set of owed tables**: `pickBest` returns one of the
tables that were upserted since they were last returned, if there is one, and
no table twice without an upsert in between. -/
theorem index_is_pending_set (calls : List (IndexCall α)) :
    let (history, g) := runCalls pq {} calls
    ((g.pickBest pq).1.isSome ↔ ∃ t, Owed history t) ∧
    (∀ t, (g.pickBest pq).1 = some t → Owed history t) ∧
    ∀ t h₁ h₂ h₃, history = h₁ ++ .returned (some t) :: (h₂ ++ .returned (some t) :: h₃) →
      .upserted (some t) ∈ h₂ := by
  have htracks : Tracks (runCalls pq {} calls).1 (runCalls pq {} calls).2 := tracks_runCalls calls
  refine ⟨⟨fun h => ?_, fun ⟨t, ht⟩ => ?_⟩, fun t => owed_of_pickBest htracks, ?_⟩
  · obtain ⟨t, ht⟩ := Option.isSome_iff_exists.mp h
    exact ⟨t, owed_of_pickBest htracks ht⟩
  · have hpick := pickBest_spec pq htracks.wf
    generalize (runCalls pq {} calls).2.pickBest pq = r at hpick ⊢
    cases hpick with
    | empty g' he =>
        have hmem := (htracks.pending t).mpr ht
        rw [he] at hmem
        contradiction
    | picked => rfl
  · intro t h₁ h₂ h₃ h
    rw [← List.cons_append, ← List.append_assoc] at h
    exact upserted_mem_of_owed (owed_of_returned calls _ _ h)

/-! ## the best priority -/

omit [DecidableEq α] in
/-- The comparator is a strict order on the priorities only. -/
theorem keyCmp_respects : BinaryHeap.Respects (@keyCmp α) fun k => k.pri.value where
  le_of_after a b h := by
    unfold keyCmp at h
    split at h
    · simp only [decide_eq_true_eq] at h
      omega
    · next heq => rw [not_not.mp heq]
  le_of_not_after a b h := by
    unfold keyCmp at h
    split at h
    · simp only [decide_eq_false_iff_not] at h
      omega
    · next heq => rw [not_not.mp heq]

/-- The array heap with the comparator of the index. -/
abbrev keyHeap : PriorityQueue (Key α) := .binaryHeap keyCmp

/-- The ranks in the heap of the index are ordered. -/
def HeapOrdered (g : GlobalIndex α) : Prop :=
  BinaryHeap.HeapOrdered (fun k : Key α => k.pri.value) g.heap

/-- What `pickBest` returns belongs to a current entry of the best priority. -/
structure PickOrder (g : GlobalIndex α) (r : Option α × GlobalIndex α) : Prop where
  ordered : r.2.HeapOrdered
  best : ∀ t, r.1 = some t → ∃ top ∈ g.heap, top.tbl = t ∧ g.Current top ∧
    ∀ k ∈ g.heap, g.Current k → ¬ k.pri.value < top.pri.value

theorem pickOrder_pickBest {g : GlobalIndex α} (h : g.HeapOrdered) :
    PickOrder g (g.pickBest keyHeap) := by
  revert h
  refine (pickBestLoop keyHeap).run_induction (P := fun g r => g.HeapOrdered → PickOrder g r)
    ?_ ?_ g
  · intro g r hb h
    cases hp : keyHeap.pop g.heap with
    | none =>
        simp only [pickBestLoop, hp, Sum.inr.injEq] at hb
        subst hb
        exact ⟨h, fun t ht => by contradiction⟩
    | some p =>
        obtain ⟨top, rest⟩ := p
        obtain ⟨hhead, hrest⟩ := BinaryHeap.heapOrdered_pop keyCmp_respects h hp
        simp only [pickBestLoop, hp] at hb
        split at hb
        · next hc =>
            rw [Sum.inr.injEq] at hb
            subst hb
            obtain ⟨l, hl⟩ : ∃ l, g.heap = top :: l := List.head?_eq_some_iff.mp hhead
            refine ⟨hrest, fun t ht => ⟨top, by simp [hl], Option.some.inj ht, hc, ?_⟩⟩
            intro k hk _
            unfold HeapOrdered at h
            rw [hl] at h hk
            have hle := h.root_le k hk
            omega
        · contradiction
  · intro g g' r hb hr h
    cases hp : keyHeap.pop g.heap with
    | none => simp only [pickBestLoop, hp] at hb; contradiction
    | some p =>
        obtain ⟨top, rest⟩ := p
        have hperm := keyHeap.perm_of_pop hp
        obtain ⟨_, hrest⟩ := BinaryHeap.heapOrdered_pop keyCmp_respects h hp
        simp only [pickBestLoop, hp] at hb
        split at hb
        · contradiction
        · next hs =>
            rw [Sum.inl.injEq] at hb
            subst hb
            have hround := hr hrest
            refine ⟨hround.ordered, fun t ht => ?_⟩
            obtain ⟨best, hmem, htbl, hc, hbest⟩ := hround.best t ht
            refine ⟨best, hperm.mem_iff.mpr (List.mem_cons_of_mem _ hmem), htbl, hc, ?_⟩
            intro k hk hck
            -- the entry that was dropped is stale
            obtain rfl | hk := List.mem_cons.mp (hperm.mem_iff.mp hk)
            · exact absurd hck hs
            · exact hbest k hk hck

/-- Every sequence of calls keeps the order. -/
theorem heapOrdered_runCalls (calls : List (IndexCall α)) :
    (runCalls keyHeap {} calls).2.HeapOrdered := by
  induction calls using List.reverseRecOn with
  | nil => exact BinaryHeap.heapOrdered_nil
  | append_singleton calls c ih =>
      rw [runCalls_concat]
      cases c with
      | upsert tableQ p tick seq =>
          cases tableQ with
          | none => exact ih
          | some t => exact BinaryHeap.heapOrdered_push keyCmp_respects _ ih
      | pickBest => exact (pickOrder_pickBest ih).ordered

/-- **Priorities are never inverted**: no current entry has a better priority
than the one whose table `pickBest` returns. -/
theorem pickBest_priority_least (calls : List (IndexCall α)) (t : α)
    (hp : ((runCalls keyHeap {} calls).2.pickBest keyHeap).1 = some t) :
    ∃ top ∈ (runCalls keyHeap {} calls).2.heap, top.tbl = t ∧
      (runCalls keyHeap {} calls).2.Current top ∧
      ∀ k ∈ (runCalls keyHeap {} calls).2.heap, (runCalls keyHeap {} calls).2.Current k →
        ¬ k.pri.value < top.pri.value :=
  (pickOrder_pickBest (heapOrdered_runCalls calls)).best t hp

/-- Two entries of one priority, then a better one. -/
theorem pickBest_priority_least_three :
    let g := (runCalls keyHeap {} [.upsert (some "A") .normal 0 3, .upsert (some "B") .normal 70 1,
      .upsert (some "A") .normal 70 9, .upsert (some "C") .high 90 20]).2
    (g.pickBest keyHeap).1 = some "C" ∧
    ∃ top ∈ g.heap, top.tbl = "C" ∧ g.Current top ∧
      ∀ k ∈ g.heap, g.Current k → ¬ k.pri.value < top.pri.value := by
  have hp : ((runCalls keyHeap {} [.upsert (some "A") .normal 0 3,
      .upsert (some "B") .normal 70 1, .upsert (some "A") .normal 70 9,
      .upsert (some "C") .high 90 20]).2.pickBest keyHeap).1 = some "C" := by
    decide +kernel
  exact ⟨hp, pickBest_priority_least _ "C" hp⟩

end GlobalIndex

end LemonDB
