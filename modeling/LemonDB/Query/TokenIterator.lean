import LemonDB.Lib.Loop
import LemonDB.Query.Builders

/-!
# LemonDB.Query.TokenIterator

The parser of the complex queries with its iterator as a position in the token
list.  Each `*iter` and each `++iter` is a step that is not defined at the end;
`LemonDB.Query.Builders`, where the iterator is the list of the tokens to come,
is what these steps amount to (`parseToken_eq`).
-/

namespace LemonDB

namespace TokenIterator

/-- The iterator and the builder. -/
structure ParseState where
  iter : Nat := 0
  builder : ComplexQueryBuilder

/-- A computation that moves the iterator, fills the builder, or raises an exception. -/
abbrev Parsing := EStateM ParseError ParseState

/-- A change of the builder. -/
def build (f : ComplexQueryBuilder → ComplexQueryBuilder) : Parsing Unit :=
  modify fun s => { s with builder := f s.builder }

/-- Throw an `IllFormedQuery` unless the condition holds. -/
def require (ok : Bool) (what : String) : Parsing Unit :=
  if ok then return () else throw (.illFormedQuery what)

section

variable (token : List String)

/-- `*iter`. -/
def deref : Parsing String := do
  match token[(← get).iter]? with
  | some t => return t
  | none => throw .undefinedBehaviour

/-- `++iter`. -/
def increment : Parsing Unit := fun s =>
  if s.iter < token.length then .ok () { s with iter := s.iter + 1 }
  else .error .undefinedBehaviour s

/-- `iter != end`. -/
def hasNext : Parsing Bool := do
  return decide ((← get).iter ≠ token.length)

/-- `if (++iter == end) throw …`, and then `*iter`. -/
def nextToken (what : String) : Parsing String := do
  increment token
  require (← hasNext token) what
  deref token

/-- The position is the one in front of these tokens. -/
def At (s : ParseState) (rest : List String) : Prop :=
  s.iter ≤ token.length ∧ token.drop s.iter = rest

end

/-! ## steps -/

section

variable {token : List String} {s : ParseState} {t : String} {rest : List String}

theorem run_build (f : ComplexQueryBuilder → ComplexQueryBuilder) (s : ParseState) :
    (build f).run s = .ok () { s with builder := f s.builder } := rfl

theorem run_require_true (what : String) (s : ParseState) : (require true what).run s = .ok () s :=
  rfl

theorem run_require_false (what : String) (s : ParseState) :
    (require false what).run s = .error (.illFormedQuery what) s := rfl

/-- Reading a token that is there. -/
theorem run_deref (h : At token s (t :: rest)) : (deref token).run s = .ok t s := by
  have hget : token[s.iter]? = some t := by
    rw [← List.head?_drop, h.2]
    rfl
  simp only [deref, EStateM.run_bind, EStateM.run_get, hget, EStateM.run_pure]

/-- Reading at the end is undefined. -/
theorem run_deref_end (h : token.drop s.iter = []) :
    (deref token).run s = .error .undefinedBehaviour s := by
  have hget : token[s.iter]? = none := by
    rw [← List.head?_drop, h]
    rfl
  simp only [deref, EStateM.run_bind, EStateM.run_get, hget]
  rfl

/-- Stepping over a token that is there. -/
theorem run_increment (h : At token s (t :: rest)) :
    (increment token).run s = .ok () { s with iter := s.iter + 1 } := by
  have hlt : s.iter < token.length := by
    have hlen := congrArg List.length h.2
    rw [List.length_drop, List.length_cons] at hlen
    omega
  exact if_pos hlt

theorem At.next (h : At token s (t :: rest)) (b : ComplexQueryBuilder) :
    At token ⟨s.iter + 1, b⟩ rest := by
  have hlen := congrArg List.length h.2
  rw [List.length_drop, List.length_cons] at hlen
  refine ⟨by dsimp only; omega, ?_⟩
  rw [← List.drop_drop, h.2]
  rfl

/-- The check for the end of the tokens. -/
theorem run_hasNext (h : At token s rest) :
    (hasNext token).run s = .ok (!rest.isEmpty) s := by
  have hlen := congrArg List.length h.2
  rw [List.length_drop] at hlen
  have hle := h.1
  have heq : decide (s.iter ≠ token.length) = !rest.isEmpty := by
    cases rest with
    | nil => simp at hlen ⊢; omega
    | cons t rest => simp at hlen ⊢; omega
  rw [← heq]
  rfl

end

section

variable {token : List String} {s : ParseState} {t t' : String} {rest : List String}

/-- Stepping to a token that is there. -/
theorem run_nextToken (h : At token s (t :: t' :: rest)) (what : String) :
    (nextToken token what).run s = .ok t' { s with iter := s.iter + 1 } := by
  have hnext := h.next s.builder
  simp only [nextToken, EStateM.run_bind, run_increment h, run_hasNext hnext, List.isEmpty_cons,
    Bool.not_false, run_require_true, run_deref hnext]

/-- Stepping to the end is an ill-formed query. -/
theorem run_nextToken_end (h : At token s [t]) (what : String) :
    (nextToken token what).run s =
      .error (.illFormedQuery what) { s with iter := s.iter + 1 } := by
  simp only [nextToken, EStateM.run_bind, run_increment h, run_hasNext (h.next s.builder),
    List.isEmpty_nil, Bool.not_true, run_require_false]

end

/-! ## the functions -/

section

variable (token : List String)

/-- A `while` loop, whose rounds tell whether it goes on. -/
def whileLoop (round : Parsing Bool)
    (moves : ∀ s s', round.run s = .ok true s' → s.iter < token.length ∧ s.iter < s'.iter) :
    MeasuredLoop ParseState (EStateM.Result ParseError ParseState Unit) where
  body s := match round.run s with
    | .ok true s' => .inl s'
    | .ok false s' => .inr (.ok () s')
    | .error e s' => .inr (.error e s')
  measure s := token.length - s.iter
  decreases := by
    intro s s' h
    split at h
    · next hrun =>
        have hmoves := moves _ _ hrun
        rw [← Sum.inl.inj h]
        omega
    · contradiction
    · contradiction

section

variable {round : Parsing Bool}
  (moves : ∀ s s', round.run s = .ok true s' → s.iter < token.length ∧ s.iter < s'.iter)
  {s s' : ParseState} {e : ParseError}

theorem whileLoop_of_true (h : round.run s = .ok true s') :
    (whileLoop token round moves).run s = (whileLoop token round moves).run s' :=
  MeasuredLoop.run_of_continue _ (by simp only [whileLoop, h])

theorem whileLoop_of_false (h : round.run s = .ok false s') :
    (whileLoop token round moves).run s = .ok () s' :=
  MeasuredLoop.run_of_return _ (by simp only [whileLoop, h])

theorem whileLoop_of_error (h : round.run s = .error e s') :
    (whileLoop token round moves).run s = .error e s' :=
  MeasuredLoop.run_of_return _ (by simp only [whileLoop, h])

end

/-- A round of the loop over the operands. -/
def operandRound : Parsing Bool := do
  if (← deref token) = ")" then return false
  else do
    let operand ← deref token
    build (·.pushOperand operand)
    increment token
    require (← hasNext token) "Ill-formed operand"
    return true

end

section

variable {token : List String} {s : ParseState} {t : String} {rest : List String}

/-- One round of the operands, at a token. -/
theorem run_operandRound (h : At token s (t :: rest)) : (operandRound token).run s =
    if t = ")" then .ok false s
    else if rest.isEmpty then .error (.illFormedQuery "Ill-formed operand")
      ⟨s.iter + 1, s.builder.pushOperand t⟩
    else .ok true ⟨s.iter + 1, s.builder.pushOperand t⟩ := by
  unfold operandRound
  rw [EStateM.run_bind, run_deref h]
  dsimp only
  by_cases ht : t = ")"
  · rw [if_pos ht, if_pos ht, EStateM.run_pure]
  · have hbuild : At token ⟨s.iter, s.builder.pushOperand t⟩ (t :: rest) := h
    rw [if_neg ht, if_neg ht]
    simp only [EStateM.run_bind, run_deref h, run_build, run_increment hbuild,
      run_hasNext (h.next (s.builder.pushOperand t))]
    cases rest with
    | nil => rfl
    | cons t' rest => rfl

theorem At.of_drop (h : token.drop s.iter = t :: rest) : At token s (t :: rest) := by
  have hlen := congrArg List.length h
  rw [List.length_drop, List.length_cons] at hlen
  exact ⟨by omega, h⟩

theorem At.lt_length (h : At token s (t :: rest)) : s.iter < token.length := (h.next s.builder).1

end

/-- A round of the operands that goes on has moved the iterator. -/
theorem operandRound_moves (token : List String) (s s' : ParseState)
    (h : (operandRound token).run s = .ok true s') : s.iter < token.length ∧ s.iter < s'.iter := by
  cases hd : token.drop s.iter with
  | nil =>
      unfold operandRound at h
      rw [EStateM.run_bind, run_deref_end hd] at h
      contradiction
  | cons t rest =>
      have hat := At.of_drop hd
      rw [run_operandRound hat] at h
      refine ⟨hat.lt_length, ?_⟩
      split at h
      · exact absurd (EStateM.Result.ok.inj h).1 Bool.false_ne_true
      · split at h
        · contradiction
        · rw [← (EStateM.Result.ok.inj h).2]
          exact Nat.lt_succ_self _

section

variable (token : List String)

/-- The loop over the operands. -/
def operandLoop : Parsing Unit :=
  (whileLoop token (operandRound token) (operandRound_moves token)).run

/-- The loop over the operands. -/
def parseOperands : Parsing Unit := do
  require ((← deref token) = "(") "Ill-formed operand."
  increment token
  operandLoop token
  increment token

/-- A round of the loop over the conditions. -/
def conditionRound : Parsing Bool := do
  if ← hasNext token then do
    require ((← deref token) = "(") "Ill-formed query condition"
    let field ← nextToken token "Missing field in condition"
    let op ← nextToken token "Missing operator in condition"
    let value ← nextToken token "Missing  in condition"
    let close ← nextToken token "Ill-formed query condition"
    require (close = ")") "Ill-formed query condition"
    build (·.pushCondition { field, op, value })
    increment token
    return true
  else return false

end

section

variable {token : List String} {s : ParseState} {t : String} {rest : List String}

/-- A round reads one condition, as the parser on lists does, or fails as it does. -/
theorem run_conditionRound (h : At token s (t :: rest)) :
    (∃ what i, (conditionRound token).run s = .error (.illFormedQuery what) ⟨i, s.builder⟩ ∧
      s.builder.parseWhereConditions (t :: rest) = (.error (.illFormedQuery what), s.builder)) ∨
    (∃ cond i rest', (conditionRound token).run s = .ok true ⟨i, s.builder.pushCondition cond⟩ ∧
      s.iter < i ∧ At token ⟨i, s.builder.pushCondition cond⟩ rest' ∧
      s.builder.parseWhereConditions (t :: rest) =
        (s.builder.pushCondition cond).parseWhereConditions rest') := by
  obtain ⟨iter, b⟩ := s
  by_cases ht : t = "("
  · have hopen : (conditionRound token).run ⟨iter, b⟩ = (do
        let field ← nextToken token "Missing field in condition"
        let op ← nextToken token "Missing operator in condition"
        let value ← nextToken token "Missing  in condition"
        let close ← nextToken token "Ill-formed query condition"
        require (close = ")") "Ill-formed query condition"
        build (·.pushCondition { field, op, value })
        increment token
        return true : Parsing Bool).run ⟨iter, b⟩ := by
      simp [conditionRound, run_hasNext h, run_deref h, ht, run_require_true]
    rw [hopen]
    have h₁ := h.next b
    match rest with
    | [] =>
        refine .inl ⟨"Missing field in condition", iter + 1, ?_, ?_⟩
        · simp [run_nextToken_end h]
        · simp [ComplexQueryBuilder.parseWhereConditions, ht]
    | [field] =>
        refine .inl ⟨"Missing operator in condition", iter + 2, ?_, ?_⟩
        · simp [run_nextToken h, run_nextToken_end h₁]
        · simp [ComplexQueryBuilder.parseWhereConditions, ht]
    | [field, op] =>
        have h₂ := h₁.next b
        refine .inl ⟨"Missing  in condition", iter + 3, ?_, ?_⟩
        · simp [run_nextToken h, run_nextToken h₁, run_nextToken_end h₂]
        · simp [ComplexQueryBuilder.parseWhereConditions, ht]
    | [field, op, value] =>
        have h₂ := h₁.next b
        have h₃ := h₂.next b
        refine .inl ⟨"Ill-formed query condition", iter + 4, ?_, ?_⟩
        · simp [run_nextToken h, run_nextToken h₁, run_nextToken h₂, run_nextToken_end h₃]
        · simp [ComplexQueryBuilder.parseWhereConditions, ht]
    | field :: op :: value :: close :: rest =>
        have h₂ := h₁.next b
        have h₃ := h₂.next b
        have h₄ := h₃.next b
        by_cases hclose : close = ")"
        · have hbuild := h₃.next (b.pushCondition { field, op, value })
          refine .inr ⟨{ field, op, value }, iter + 5, rest, ?_, Nat.lt_add_of_pos_right (by decide),
            h₄.next _, ?_⟩
          · simp only [EStateM.run_bind, run_nextToken h, run_nextToken h₁, run_nextToken h₂,
              run_nextToken h₃, hclose, decide_true, run_require_true, run_build,
              run_increment hbuild, EStateM.run_pure]
          · rw [ComplexQueryBuilder.parseWhereConditions]
            simp [ht, hclose]
        · refine .inl ⟨"Ill-formed query condition", iter + 4, ?_, ?_⟩
          · simp [run_nextToken h, run_nextToken h₁, run_nextToken h₂, run_nextToken h₃, hclose,
              run_require_false]
          · simp [ComplexQueryBuilder.parseWhereConditions, ht, hclose]
  · refine .inl ⟨"Ill-formed query condition", iter, ?_, ?_⟩
    · simp [conditionRound, run_hasNext h, run_deref h, ht, run_require_false]
    · unfold ComplexQueryBuilder.parseWhereConditions
      rw [if_pos ht]

end

/-- A round of the conditions that goes on has moved the iterator. -/
theorem conditionRound_moves (token : List String) (s s' : ParseState)
    (h : (conditionRound token).run s = .ok true s') :
    s.iter < token.length ∧ s.iter < s'.iter := by
  cases hd : token.drop s.iter with
  | nil =>
      by_cases hend : s.iter = token.length
      · have hat : At token s [] := ⟨Nat.le_of_eq hend, hd⟩
        simp [conditionRound, run_hasNext hat] at h
      · have hnext : (hasNext token).run s = .ok true s :=
          congrArg (EStateM.Result.ok · s) (decide_eq_true hend)
        simp [conditionRound, hnext, run_deref_end hd] at h
  | cons t rest =>
      have hat := At.of_drop hd
      refine ⟨hat.lt_length, ?_⟩
      obtain ⟨what, i, hrun, _⟩ | ⟨cond, i, rest', hrun, hlt, _⟩ := run_conditionRound hat
      · rw [hrun] at h
        contradiction
      · rw [hrun] at h
        rwa [← (EStateM.Result.ok.inj h).2]

section

variable (token : List String)

/-- The loop over the conditions. -/
def parseWhereConditions : Parsing Unit :=
  (whileLoop token (conditionRound token) (conditionRound_moves token)).run

/-- `parseToken` in front of the target table. -/
def parseTarget : Parsing Unit := do
  let targetTable ← nextToken token "Missing targed table"
  build fun b => { b with targetTable }
  increment token
  if ← hasNext token then do
    let t ← deref token
    require (t = "WHERE") (fill "Expecting \"WHERE\", found \"?\"." t)
    increment token
    parseWhereConditions token
  else return ()

/-- The operands, with FROM behind them. -/
def parseOperandsFrom : Parsing Unit := do
  parseOperands token
  require (← hasNext token) "Missing FROM clause"
  require ((← deref token) = "FROM") "Missing FROM clause"

/-- The parser of the builders for data queries. -/
def parseToken : Parsing Unit := do
  let t ← nextToken token "Missing FROM clause"
  if t ≠ "FROM" then do
    parseOperandsFrom token
    parseTarget token
  else parseTarget token

end

/-! ## the iterator is a list of tokens -/

/-- What is left when the iterator is forgotten. -/
def forget : EStateM.Result ParseError ParseState Unit → Except ParseError Unit × ComplexQueryBuilder
  | .ok _ s => (.ok (), s.builder)
  | .error e s => (.error e, s.builder)

/-- The outcome of a function that leaves the iterator in front of some tokens. -/
def Agrees (token : List String) (r : EStateM.Result ParseError ParseState Unit) :
    Except ParseError (List String) × ComplexQueryBuilder → Prop
  | (.ok rest, b) => ∃ i, r = .ok () ⟨i, b⟩ ∧ At token ⟨i, b⟩ rest
  | (.error e, b) => ∃ i, r = .error e ⟨i, b⟩

section

variable {token : List String}

/-- The loop over the operands agrees with the recursion on the rest of the tokens. -/
theorem agrees_operandLoop : (rest : List String) → {s : ParseState} → At token s rest →
    Agrees token ((do operandLoop token; increment token : Parsing Unit).run s)
      (s.builder.operandLoop rest)
  | [], s, h => by
      have hround : (operandRound token).run s = .error .undefinedBehaviour s := by
        unfold operandRound
        rw [EStateM.run_bind, run_deref_end h.2]
      have hloop : (operandLoop token).run s = .error .undefinedBehaviour s :=
        whileLoop_of_error token (operandRound_moves token) hround
      rw [EStateM.run_bind, hloop]
      exact ⟨s.iter, rfl⟩
  | t :: rest, s, h => by
      have hround := run_operandRound h
      rw [ComplexQueryBuilder.operandLoop]
      by_cases ht : t = ")"
      · rw [if_pos ht] at hround ⊢
        have hloop : (operandLoop token).run s = .ok () s :=
          whileLoop_of_false token (operandRound_moves token) hround
        rw [EStateM.run_bind, hloop]
        exact ⟨s.iter + 1, run_increment h, h.next s.builder⟩
      · rw [if_neg ht] at hround ⊢
        cases hempty : rest.isEmpty with
        | true =>
            rw [if_pos hempty] at hround
            have hloop : (operandLoop token).run s = .error (.illFormedQuery "Ill-formed operand")
                ⟨s.iter + 1, s.builder.pushOperand t⟩ :=
              whileLoop_of_error token (operandRound_moves token) hround
            rw [EStateM.run_bind, hloop]
            exact ⟨s.iter + 1, rfl⟩
        | false =>
            rw [if_neg (by rw [hempty]; exact Bool.false_ne_true)] at hround
            have hloop : (operandLoop token).run s =
                (operandLoop token).run ⟨s.iter + 1, s.builder.pushOperand t⟩ :=
              whileLoop_of_true token (operandRound_moves token) hround
            have ih := agrees_operandLoop rest (h.next (s.builder.pushOperand t))
            rw [EStateM.run_bind] at ih ⊢
            rw [hloop]
            exact ih

/-- Reading the operands agrees with the recursion on the rest of the tokens. -/
theorem agrees_parseOperands {t : String} {rest : List String} {s : ParseState}
    (h : At token s (t :: rest)) :
    Agrees token ((parseOperands token).run s) (s.builder.parseOperands (t :: rest)) := by
  unfold parseOperands
  rw [EStateM.run_bind, run_deref h, ComplexQueryBuilder.parseOperands]
  by_cases ht : t = "("
  · have hloop := agrees_operandLoop rest (h.next s.builder)
    rw [if_neg (not_not_intro ht)]
    simp only [EStateM.run_bind, ht, decide_true, run_require_true, run_increment h] at hloop ⊢
    exact hloop
  · rw [if_pos ht]
    simp only [EStateM.run_bind, ht, decide_false, run_require_false]
    exact ⟨s.iter, rfl⟩

/-- Reading the conditions agrees with the recursion on the rest of the tokens. -/
theorem forget_parseWhereConditions {rest : List String} {s : ParseState} (h : At token s rest) :
    forget ((parseWhereConditions token).run s) = s.builder.parseWhereConditions rest := by
  let L := whileLoop token (conditionRound token) (conditionRound_moves token)
  refine L.run_induction (P := fun s r => ∀ rest, At token s rest →
    forget r = s.builder.parseWhereConditions rest) ?_ ?_ s rest h
  · intro s r hbody rest h
    cases rest with
    | nil =>
        have hround : (conditionRound token).run s = .ok false s := by
          simp [conditionRound, run_hasNext h]
        simp only [L, whileLoop, hround, Sum.inr.injEq] at hbody
        rw [← hbody]
        rfl
    | cons t rest =>
        obtain ⟨what, i, hrun, hlist⟩ | ⟨cond, i, rest', hrun, _⟩ := run_conditionRound h
        · simp only [L, whileLoop, hrun, Sum.inr.injEq] at hbody
          rw [← hbody, hlist]
          rfl
        · simp only [L, whileLoop, hrun, reduceCtorEq] at hbody
  · intro s s' r hbody ih rest h
    cases rest with
    | nil => simp [L, whileLoop, conditionRound, run_hasNext h] at hbody
    | cons t rest =>
        obtain ⟨what, i, hrun, _⟩ | ⟨cond, i, rest', hrun, _, hat, hlist⟩ := run_conditionRound h
        · simp only [L, whileLoop, hrun, reduceCtorEq] at hbody
        · simp only [L, whileLoop, hrun, Sum.inl.injEq] at hbody
          rw [← hbody] at ih
          rw [hlist]
          exact ih rest' hat

/-- Reading the target agrees with the recursion on the rest of the tokens. -/
theorem forget_parseTarget {t : String} {rest : List String} {s : ParseState}
    (h : At token s (t :: rest)) :
    forget ((parseTarget token).run s) = s.builder.parseTarget rest := by
  unfold parseTarget
  match rest with
  | [] =>
      rw [EStateM.run_bind, run_nextToken_end h]
      rfl
  | [table] =>
      have hbuild := (h.next s.builder).next { s.builder with targetTable := table }
      have htable : At token ⟨s.iter + 1, { s.builder with targetTable := table }⟩ [table] :=
        h.next _
      simp only [EStateM.run_bind, run_nextToken h, run_build, run_increment htable,
        run_hasNext hbuild, List.isEmpty_nil, Bool.not_true]
      rfl
  | table :: token' :: rest =>
      have htable : At token ⟨s.iter + 1, { s.builder with targetTable := table }⟩
        (table :: token' :: rest) := h.next _
      have hnext := htable.next { s.builder with targetTable := table }
      simp only [EStateM.run_bind, run_nextToken h, run_build, run_increment htable,
        run_hasNext hnext, List.isEmpty_cons, Bool.not_false, ↓reduceIte, run_deref hnext]
      rw [ComplexQueryBuilder.parseTarget]
      by_cases htok : token' = "WHERE"
      · simp only [htok, decide_true, run_require_true]
        rw [if_neg (not_not_intro rfl), run_increment (htok ▸ hnext)]
        exact forget_parseWhereConditions (hnext.next _)
      · simp only [htok, decide_false, run_require_false]
        rw [if_pos htok]
        rfl

/-- The iterator is the list of the tokens to come. -/
theorem parseToken_eq (token : List String) (b : ComplexQueryBuilder) :
    forget ((parseToken token).run ⟨0, b⟩) = b.parseToken token := by
  have hat : At token ⟨0, b⟩ token := ⟨Nat.zero_le _, rfl⟩
  unfold parseToken
  rcases token with _ | ⟨operation, _ | ⟨t, rest⟩⟩
  · rfl
  · rw [EStateM.run_bind, run_nextToken_end hat]
    rfl
  · have h₁ := hat.next b
    rw [EStateM.run_bind, run_nextToken hat, ComplexQueryBuilder.parseToken]
    by_cases ht : t = "FROM"
    · simp only [ht, ne_eq, not_true_eq_false, ↓reduceIte]
      exact forget_parseTarget (ht ▸ h₁)
    · have hagrees := agrees_parseOperands h₁
      simp only [ht, ne_eq, not_false_eq_true, ↓reduceIte, parseOperandsFrom, EStateM.run_bind]
      rcases hlist : b.parseOperands (t :: rest) with ⟨e | _ | ⟨t', rest'⟩, b'⟩
      · rw [hlist] at hagrees
        obtain ⟨i, hrun⟩ := hagrees
        simp only [hrun]
        rfl
      · rw [hlist] at hagrees
        obtain ⟨i, hrun, hend⟩ := hagrees
        simp only [hrun, run_hasNext hend, List.isEmpty_nil, Bool.not_true, run_require_false]
        rfl
      · rw [hlist] at hagrees
        obtain ⟨i, hrun, hnext⟩ := hagrees
        simp only [hrun, run_hasNext hnext, List.isEmpty_cons, Bool.not_false,
          run_require_true, run_deref hnext]
        by_cases ht' : t' = "FROM"
        · simp only [ht', decide_true, run_require_true, not_true_eq_false, ↓reduceIte]
          exact forget_parseTarget hnext
        · simp only [ht', decide_false, run_require_false, not_false_eq_true, ↓reduceIte]
          rfl

end

/-! ## the end of the tokens -/

/-- The parser has returned or thrown an `IllFormedQuery`: it has not moved or
read at the end of the tokens. -/
def Safe : EStateM.Result ParseError ParseState Unit → Prop
  | .ok _ _ => True
  | .error (.illFormedQuery _) _ => True
  | .error _ _ => False

/-- The token behind the parenthesis is read without a test for the end. -/
theorem not_safe_open (operation : String) (b : ComplexQueryBuilder) :
    ¬ Safe ((parseToken [operation, "("]).run ⟨0, b⟩) := by
  have heq := parseToken_eq [operation, "("] b
  have hlist : b.parseToken [operation, "("] = (.error .undefinedBehaviour, b) := by
    simp [ComplexQueryBuilder.parseToken, ComplexQueryBuilder.parseOperands,
      ComplexQueryBuilder.operandLoop]
  rw [hlist] at heq
  cases hr : (parseToken [operation, "("]).run ⟨0, b⟩ with
  | ok u s => simp [hr, forget] at heq
  | error e s =>
      rw [hr] at heq
      rw [Except.error.inj (Prod.mk.inj heq).1]
      exact id

/-- **A single opening parenthesis is read past**: the parser stays in front of
the end of the tokens, and returns or throws an `IllFormedQuery`, on all tokens
but an operation with an opening parenthesis and nothing behind it. -/
theorem parseToken_safe_iff (token : List String) (b : ComplexQueryBuilder) (h : token ≠ []) :
    Safe ((parseToken token).run ⟨0, b⟩) ↔ ∀ operation, token ≠ [operation, "("] := by
  constructor
  · intro hsafe operation htoken
    rw [htoken] at hsafe
    exact not_safe_open operation b hsafe
  · intro hopen
    have heq := parseToken_eq token b
    cases hr : (parseToken token).run ⟨0, b⟩ with
    | ok u s => trivial
    | error e s =>
        rw [hr] at heq
        obtain ⟨what, rfl⟩ | ⟨hnil | ⟨operation, htoken⟩, _⟩ :=
          ComplexQueryBuilder.parseToken_error heq.symm
        · trivial
        · exact absurd hnil h
        · exact absurd htoken (hopen operation)

/-- `COUNT ( )`, without a table. -/
theorem parseToken_safe_count :
    ["COUNT", "(", ")"] ≠ [] ∧
      (Safe ((parseToken ["COUNT", "(", ")"]).run ⟨0, {}⟩) ↔
        ∀ operation, ["COUNT", "(", ")"] ≠ [operation, "("]) :=
  ⟨List.cons_ne_nil _ _, parseToken_safe_iff _ {} (List.cons_ne_nil _ _)⟩

/-- The parser reads past `COUNT (`. -/
theorem not_parseToken_safe : ¬ ∀ (token : List String) (b : ComplexQueryBuilder), token ≠ [] →
    Safe ((parseToken token).run ⟨0, b⟩) := fun h =>
  not_safe_open "COUNT" {} (h ["COUNT", "("] {} (List.cons_ne_nil _ _))

end TokenIterator

end LemonDB
