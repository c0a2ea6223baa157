import Mathlib.Data.List.Pairwise
import Mathlib.Data.List.Perm.Basic
import Mathlib.Data.Set.Lattice
import Mathlib.Order.CompletePartialOrder

/-!
# LemonDB.Lib.Footprint

Actions on a shared state, and the orders in which they can be performed.

A state is looked at in parts.  Each action reads some parts and writes some of
them: its answer and the parts that it writes depend on what it reads only, and
it leaves all other parts alone.  Two actions neither of which writes what the
other one reads commute (`act_comm`).  So a list of actions can be performed in
every order that keeps the order of those that depend on each other
(`perform_rearranged`): each action gives the same answer, and the state in the
end is the same in all parts.

An action may rely on a condition on what it reads (`ok`); the laws are about
states that satisfy it.
-/

/-- Actions that change a state and give an answer, with what they read and
write. -/
structure Footprint (ι : Type u) (σ : Type v) (ρ : Type w) (κ : Type x) (V : Type y) where
  act : ι → σ → ρ × σ
  /-- The parts of a state. -/
  view : σ → κ → V
  reads : ι → Set κ
  writes : ι → Set κ
  ok : ι → σ → Prop
  writes_subset : ∀ a, writes a ⊆ reads a
  ok_local : ∀ {a s t}, (∀ k ∈ reads a, view s k = view t k) → ok a s → ok a t
  answer_local : ∀ {a s t}, ok a s → (∀ k ∈ reads a, view s k = view t k) →
    (act a s).1 = (act a t).1
  write_local : ∀ {a s t}, ok a s → (∀ k ∈ reads a, view s k = view t k) →
    ∀ k ∈ writes a, view (act a s).2 k = view (act a t).2 k
  frame : ∀ {a s k}, ok a s → k ∉ writes a → view (act a s).2 k = view s k

namespace Footprint

variable {ι : Type u} {σ : Type v} {ρ : Type w} {κ : Type x} {V : Type y}
  (F : Footprint ι σ ρ κ V)

/-- Neither action writes what the other one reads. -/
def Independent (a b : ι) : Prop :=
  Disjoint (F.writes a) (F.reads b) ∧ Disjoint (F.writes b) (F.reads a)

/-- The states have the same parts. -/
def Same (s t : σ) : Prop := ∀ k, F.view s k = F.view t k

/-- The actions under other labels. -/
def comap (f : ι' → ι) : Footprint ι' σ ρ κ V where
  act a := F.act (f a)
  view := F.view
  reads a := F.reads (f a)
  writes a := F.writes (f a)
  ok a := F.ok (f a)
  writes_subset a := F.writes_subset (f a)
  ok_local := F.ok_local
  answer_local := F.answer_local
  write_local := F.write_local
  frame := F.frame

variable {F}

theorem Independent.symm {a b : ι} (h : F.Independent a b) : F.Independent b a := ⟨h.2, h.1⟩

theorem Same.refl (s : σ) : F.Same s s := fun _ => rfl

theorem Same.symm {s t : σ} (h : F.Same s t) : F.Same t s := fun k => (h k).symm

theorem Same.trans {s t u : σ} (h : F.Same s t) (h' : F.Same t u) : F.Same s u :=
  fun k => (h k).trans (h' k)

/-! ## one action -/

section

variable {a b : ι} {s t : σ}

theorem Same.ok (h : F.Same s t) (ha : F.ok a s) : F.ok a t := F.ok_local (fun k _ => h k) ha

theorem Same.answer (h : F.Same s t) (ha : F.ok a s) : (F.act a s).1 = (F.act a t).1 :=
  F.answer_local ha fun k _ => h k

/-- An action keeps states the same. -/
theorem Same.act (h : F.Same s t) (ha : F.ok a s) : F.Same (F.act a s).2 (F.act a t).2 := by
  intro k
  by_cases hk : k ∈ F.writes a
  · exact F.write_local ha (fun k _ => h k) k hk
  · rw [F.frame ha hk, F.frame (h.ok ha) hk, h k]

/-- An action does not change what an independent one reads. -/
theorem Independent.view (h : F.Independent a b) (ha : F.ok a s) :
    ∀ k ∈ F.reads b, F.view s k = F.view (F.act a s).2 k :=
  fun _ hk => (F.frame ha (Set.disjoint_right.mp h.1 hk)).symm

theorem Independent.ok (h : F.Independent a b) (ha : F.ok a s) (hb : F.ok b s) :
    F.ok b (F.act a s).2 :=
  F.ok_local (h.view ha) hb

theorem Independent.answer (h : F.Independent a b) (ha : F.ok a s) (hb : F.ok b s) :
    (F.act b (F.act a s).2).1 = (F.act b s).1 :=
  (F.answer_local hb (h.view ha)).symm

/-- **Independent actions commute.** -/
theorem Independent.act_comm (h : F.Independent a b) (ha : F.ok a s) (hb : F.ok b s) :
    F.Same (F.act b (F.act a s).2).2 (F.act a (F.act b s).2).2 := by
  intro k
  have hab := h.ok ha hb
  have hba := h.symm.ok hb ha
  by_cases hka : k ∈ F.writes a
  · have hkb : k ∉ F.writes b := fun hk =>
      Set.disjoint_left.mp h.1 hka (F.writes_subset b hk)
    rw [F.frame hab hkb]
    exact F.write_local ha (h.symm.view hb) k hka
  · rw [F.frame hba hka]
    by_cases hkb : k ∈ F.writes b
    · exact (F.write_local hb (h.view ha) k hkb).symm
    · rw [F.frame hab hkb, F.frame ha hka, F.frame hb hkb]

end

/-! ## lists of actions -/

variable (F)

/-- Perform actions one after the other: their answers, and the state in the
end. -/
def perform : List ι → σ → List (ι × ρ) × σ
  | [], s => ([], s)
  | a :: l, s => ((a, (F.act a s).1) :: (perform l (F.act a s).2).1, (perform l (F.act a s).2).2)

/-- Each action finds what it relies on. -/
def AllOk : List ι → σ → Prop
  | [], _ => True
  | a :: l, s => F.ok a s ∧ AllOk l (F.act a s).2

/-- `l'` has the actions of `l`, with those that depend on each other in the same
order. -/
inductive Rearranged : List ι → List ι → Prop
  | nil : Rearranged [] []
  | cons {a : ι} {l u v : List ι} : (∀ b ∈ u, F.Independent a b) → Rearranged l (u ++ v) →
      Rearranged (a :: l) (u ++ a :: v)

variable {F}

/-- The answers belong to the actions. -/
theorem map_fst_perform : (l : List ι) → (s : σ) → (F.perform l s).1.map Prod.fst = l
  | [], _ => rfl
  | a :: l, s => congrArg (a :: ·) (map_fst_perform l (F.act a s).2)

/-- Every answer was given in some state. -/
theorem mem_perform {p : ι × ρ} : {l : List ι} → {s : σ} → p ∈ (F.perform l s).1 →
    p.1 ∈ l ∧ ∃ t, p.2 = (F.act p.1 t).1
  | [], _, h => absurd h List.not_mem_nil
  | a :: l, s, h => by
      obtain rfl | h := List.mem_cons.mp h
      · exact ⟨List.mem_cons_self, s, rfl⟩
      · obtain ⟨hmem, hact⟩ := mem_perform h
        exact ⟨List.mem_cons_of_mem a hmem, hact⟩

theorem perform_append : (l₁ l₂ : List ι) → (s : σ) →
    F.perform (l₁ ++ l₂) s = ((F.perform l₁ s).1 ++ (F.perform l₂ (F.perform l₁ s).2).1,
      (F.perform l₂ (F.perform l₁ s).2).2)
  | [], _, _ => rfl
  | a :: l₁, l₂, s => by
      rw [List.cons_append, perform, perform_append l₁ l₂]
      rfl

/-- What no action writes stays as it is. -/
theorem perform_frame {k : κ} : {l : List ι} → {s : σ} → F.AllOk l s → (∀ a ∈ l, k ∉ F.writes a) →
    F.view (F.perform l s).2 k = F.view s k
  | [], _, _, _ => rfl
  | a :: l, s, hok, h => by
      rw [perform, perform_frame hok.2 fun b hb => h b (List.mem_cons_of_mem _ hb)]
      exact F.frame hok.1 (h a List.mem_cons_self)

/-- From states that are the same, the same actions give the same answers. -/
theorem Same.perform : {l : List ι} → {s t : σ} → F.Same s t → F.AllOk l s →
    (F.perform l s).1 = (F.perform l t).1 ∧ F.Same (F.perform l s).2 (F.perform l t).2 ∧ F.AllOk l t
  | [], _, _, h, _ => ⟨rfl, h, trivial⟩
  | a :: l, s, t, h, hok => by
      obtain ⟨hanswers, hsame, hrest⟩ := Same.perform (h.act hok.1) hok.2
      refine ⟨?_, hsame, h.ok hok.1, hrest⟩
      simp only [Footprint.perform, h.answer hok.1, hanswers]

/-- The first action can be performed behind independent ones. -/
theorem perform_move {a : ι} {v : List ι} : {u : List ι} → {s : σ} →
    (∀ b ∈ u, F.Independent a b) → F.AllOk (a :: (u ++ v)) s →
    (F.perform (a :: (u ++ v)) s).1.Perm (F.perform (u ++ a :: v) s).1 ∧
      F.Same (F.perform (a :: (u ++ v)) s).2 (F.perform (u ++ a :: v) s).2 ∧
      F.AllOk (u ++ a :: v) s
  | [], s, _, hok => ⟨.refl _, .refl _, hok⟩
  | b :: u, s, hu, hok => by
      obtain ⟨ha, hb, hrest⟩ := hok
      have hab := hu b List.mem_cons_self
      -- what `b` relies on was not written by `a`
      have hb' : F.ok b s := F.ok_local (fun k hk => (hab.view ha k hk).symm) hb
      have ha' := hab.symm.ok hb' ha
      obtain ⟨hanswers, hsame, hrest'⟩ := (hab.act_comm ha hb').perform (l := u ++ v) hrest
      obtain ⟨hperm, hsame', hok'⟩ := perform_move (v := v)
        (fun c hc => hu c (List.mem_cons_of_mem b hc)) ⟨ha', hrest'⟩
      refine ⟨?_, hsame.trans hsame', hb', hok'⟩
      simp only [List.cons_append, perform] at hperm ⊢
      rw [hab.answer ha hb', hanswers]
      rw [hab.symm.answer hb' ha] at hperm
      exact (List.Perm.swap _ _ _).trans (hperm.cons _)

/-- **Rearranging actions** changes neither their answers nor the state in the
end. -/
theorem perform_rearranged {l l' : List ι} (h : F.Rearranged l l') {s : σ} (hok : F.AllOk l s) :
    (F.perform l s).1.Perm (F.perform l' s).1 ∧ F.Same (F.perform l s).2 (F.perform l' s).2 ∧
      F.AllOk l' s := by
  induction h generalizing s with
  | nil => exact ⟨.refl _, .refl _, hok⟩
  | @cons a l u v hu _ ih =>
      obtain ⟨hperm, hsame, hrest⟩ := ih hok.2
      obtain ⟨hperm', hsame', hok'⟩ := perform_move hu ⟨hok.1, hrest⟩
      exact ⟨(hperm.cons _).trans hperm', hsame.trans hsame', hok'⟩

/-- A permutation that keeps the order of dependent actions is a
rearrangement. -/
theorem rearranged_of_perm {lt : ι → ι → Prop} (asymm : ∀ {a b}, lt a b → ¬ lt b a) :
    {l l' : List ι} → l.Pairwise lt → l'.Perm l →
    l'.Pairwise (fun a b => ¬ F.Independent b a → lt a b) → F.Rearranged l l'
  | [], l', _, hp, _ => by rw [hp.eq_nil]; exact .nil
  | a :: l, l', hl, hp, ho => by
      obtain ⟨hlt, hl⟩ := List.pairwise_cons.mp hl
      obtain ⟨u, v, rfl⟩ := List.append_of_mem (hp.mem_iff.mpr List.mem_cons_self)
      have hp : (u ++ v).Perm l := (List.perm_middle.symm.trans hp).cons_inv
      obtain ⟨_, _, hbefore⟩ := List.pairwise_append.mp ho
      refine .cons (fun b hb => ?_) (rearranged_of_perm asymm hl hp (ho.sublist ?_))
      · by_contra hdep
        exact asymm (hlt b (hp.mem_iff.mp (List.mem_append_left v hb)))
          (hbefore b hb a List.mem_cons_self hdep)
      · exact (List.sublist_cons_self a v).append_left u

/-- What was performed so far can be completed to a rearrangement, if each action was
performed behind the earlier ones that it depends on. -/
theorem rearranged_of_closed [DecidableEq ι] {lt : ι → ι → Prop}
    (asymm : ∀ {a b}, lt a b → ¬ lt b a) {l l' : List ι} (hl : l.Pairwise lt) (hnodup : l'.Nodup)
    (hsub : ∀ a ∈ l', a ∈ l) (ho : l'.Pairwise fun a b => ¬ F.Independent b a → lt a b)
    (hclosed : ∀ a ∈ l', ∀ b ∈ l, lt b a → ¬ F.Independent b a → b ∈ l') :
    F.Rearranged l (l' ++ l.filter fun a => decide (a ∉ l')) := by
  have htotal : ∀ a ∈ l, ∀ b ∈ l, a = b ∨ lt a b ∨ lt b a := fun a ha b hb =>
    List.Pairwise.forall_of_forall_of_flip (R := fun a b => a = b ∨ lt a b ∨ lt b a)
      (fun _ _ => .inl rfl) (hl.imp fun h => .inr (.inl h)) (hl.imp fun h => .inr (.inr h)) ha hb
  refine rearranged_of_perm asymm hl ?_ (List.pairwise_append.mpr ⟨ho, ?_, ?_⟩)
  · have hl' : l.Nodup := hl.imp fun {a b} h heq => by
      subst heq
      exact asymm h h
    refine (List.perm_ext_iff_of_nodup (List.nodup_append.mpr
      ⟨hnodup, hl'.filter _, fun a ha b hb heq => ?_⟩) hl').mpr fun a => ?_
    · exact of_decide_eq_true (List.mem_filter.mp hb).2 (heq ▸ ha)
    · by_cases ha : a ∈ l'
      · simp [ha, hsub a ha]
      · simp [ha]
  · refine (hl.sublist List.filter_sublist).imp ?_
    exact fun h _ => h
  · intro a ha b hb hdep
    obtain ⟨hb, hnot⟩ := List.mem_filter.mp hb
    have hnot : b ∉ l' := of_decide_eq_true hnot
    obtain rfl | hlt | hlt := htotal a (hsub a ha) b hb
    · exact absurd ha hnot
    · exact hlt
    · exact absurd (hclosed a ha b hb hlt hdep) hnot

end Footprint
