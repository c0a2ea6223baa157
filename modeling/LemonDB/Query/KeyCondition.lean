import LemonDB.Query.Matching

/-!
# LemonDB.Query.KeyCondition

The fast path for clauses that ask for a key: instead of a scan, the row of this
key is looked up in the key map.  No query uses it, and a comment says that it
causes bugs; but where it takes a decision it agrees with the scan.
-/

namespace LemonDB

namespace ComplexQuery

/-- `testKeyCondition`: what it returns, and the arguments of the calls of its
callback. -/
def testKeyCondition (q : ComplexQuery) (table : Table) :
    Except DbError (Bool × List (Bool × Option Datum)) := do
  let ((key, flag), conds) ← initCondition table "" q.condition
  if !flag then return (true, [(false, none)])
  else if key ≠ "" then
    match table.find? key with
    | none => return (true, [(false, none)])
    | some it => match table.data[it]? with
        | none => throw .undefinedBehaviour
        | some object =>
            if ← evalConditionConst conds table object then return (true, [(true, some object)])
            else return (true, [(false, none)])
  else return (false, [])

variable {t : Table} {conds conds' : List QueryCondition} {d : Datum}

/-- A row that meets the clause has the key that the initialisation returns. -/
theorem key_of_meets : {conds conds' : List QueryCondition} → {key key' : String} → {flag : Bool} →
    initCondition t key conds = .ok ((key', flag), conds') → (key ≠ "" → d.key = key) →
    t.Meets conds d → key' ≠ "" → d.key = key'
  | [], conds', key, key', flag, hok, hd, _, hne => by
      obtain rfl : key = key' := (Prod.mk.inj (Prod.mk.inj (Except.ok.inj hok)).1).1
      exact hd hne
  | cond :: conds, conds', key, key', flag, hok, hd, hmeets, hne => by
      obtain ⟨hone, hmeets⟩ := Table.meets_cons.mp hmeets
      obtain ⟨hkey, hkey', hdiff, _⟩ | ⟨hkey, _, rest, hok, _⟩ | ⟨_, _, _, rest, _, _, hok, _⟩ :=
        initCondition_cons hok
      · rw [Table.satisfies_of_key hkey] at hone
        exact absurd ((hd hkey').symm.trans hone) hdiff
      · rw [Table.satisfies_of_key hkey] at hone
        refine key_of_meets hok (fun hnext => ?_) hmeets hne
        split
        · exact hone
        · next hkey' => exact hd hkey'
      · exact key_of_meets hok hd hmeets hne

/-- The callback was told about the only row that meets the clause, or that there is
none. -/
def Answered (t : Table) (conds : List QueryCondition) (calls : List (Bool × Option Datum)) : Prop :=
  (∃ d ∈ t.data, calls = [(true, some d)] ∧ t.Meets conds d ∧
    ∀ d' ∈ t.data, t.Meets conds d' → d' = d) ∨
  (calls = [(false, none)] ∧ ∀ d ∈ t.data, ¬ t.Meets conds d)

/-- **The key fast path agrees with the full scan**: it calls its callback once, with
the result of the scan, or returns false without a call. -/
theorem testKeyCondition_agrees (q : ComplexQuery) (h : t.Proper)
    {r : (String × Bool) × List QueryCondition} (hok : initCondition t "" q.condition = .ok r) :
    ∃ ret calls, q.testKeyCondition t = .ok (ret, calls) ∧
      (ret = true → Answered t q.condition calls) ∧ (ret = false → calls = []) := by
  obtain ⟨⟨key, flag⟩, conds⟩ := r
  unfold testKeyCondition
  rw [hok]
  cases flag with
  | false =>
      refine ⟨true, _, rfl, fun _ => .inr ⟨rfl, fun d _ => ?_⟩, fun h => by contradiction⟩
      exact not_meets_of_flag hok fun hne => absurd rfl hne
  | true =>
      by_cases hkey : key = ""
      · refine ⟨false, [], ?_, fun h => by contradiction, fun _ => rfl⟩
        simp [bind, Except.bind, hkey, pure, Except.pure]
      · have hone : ∀ d, t.Meets q.condition d → d.key = key := fun d hd =>
          key_of_meets hok (fun hne => absurd rfl hne) hd hkey
        simp only [bind, Except.bind, hkey, Bool.not_true, Bool.false_eq_true, ↓reduceIte, ne_eq,
          not_false_eq_true]
        cases hit : t.find? key with
        | none =>
            refine ⟨true, _, rfl, fun _ => .inr ⟨rfl, fun d hd hmeets => ?_⟩, fun h => by contradiction⟩
            exact (h.index.get?_eq_none_iff key).mp hit d hd (hone d hmeets)
        | some it =>
            obtain ⟨d, hdata, hd⟩ := (h.index key it).mp hit
            have hmem : d ∈ t.data := List.mem_of_getElem? hdata
            have hinit := initialised_initCondition h.toFull hok rfl
            rw [← h.row d hmem] at hinit
            have heval : evalConditionConst conds t d = .ok (holds conds d) :=
              evalCondition_eq t d conds hinit
            have hholds := holds_iff_meets h.toFull d hok rfl
            -- a row that meets the clause has the key, so it is this one
            have hunique : ∀ d' ∈ t.data, t.Meets q.condition d' → d' = d := by
              intro d' hd' hmeets
              have hrow := (Table.row?_eq_some_iff h.index key d').mpr ⟨hd', hone d' hmeets⟩
              rw [(Table.row?_eq_some_iff h.index key d).mpr ⟨hmem, hd⟩] at hrow
              exact (Option.some.inj hrow).symm
            simp only [hdata, heval]
            cases hb : holds conds d with
            | true =>
                refine ⟨true, _, rfl, fun _ => .inl ⟨d, hmem, rfl, hholds.mp hb, hunique⟩, ?_⟩
                exact fun h => by contradiction
            | false =>
                refine ⟨true, _, rfl, fun _ => .inr ⟨rfl, fun d' hd' hmeets => ?_⟩, ?_⟩
                · rw [hunique d' hd' hmeets, ← hholds, hb] at hmeets
                  contradiction
                · exact fun h => by contradiction

/-- A clause with two conditions on the key, and one on a value. -/
theorem testKeyCondition_agrees_twoRows :
    let q : ComplexQuery := ⟨"T", [], [{ field := "KEY", op := "=", value := "y" },
      { field := "a", op := ">", value := "1" }, { field := "KEY", op := "=", value := "y" }]⟩
    ∃ ret calls, q.testKeyCondition twoRows = .ok (ret, calls) ∧
      (ret = true → Answered twoRows q.condition calls) ∧ (ret = false → calls = []) :=
  testKeyCondition_agrees _ proper_twoRows rfl

end ComplexQuery

end LemonDB
