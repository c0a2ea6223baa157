import LemonDB.Db.Exceptions
import LemonDB.Query

/-!
# LemonDB.Query.Builders

The parser of the complex queries, and the grammar that it accepts.

A token list is read through one iterator, which the parsing functions share;
it is modelled by the tokens from its position to the end.  An exception leaves
behind what the builder has collected so far, so every function returns the
builder along with its outcome.
-/

namespace LemonDB

/-- The exceptions of the parser. -/
inductive ParseError where
  | illFormedQuery (what : String)
  | queryBuilderMatchFailed (what : String)
  /-- Not an exception: an iterator is dereferenced at the end of the tokens. -/
  | undefinedBehaviour
  deriving DecidableEq, Repr

structure ComplexQueryBuilder where
  targetTable : String := ""
  operandToken : List String := []
  conditionToken : List QueryCondition := []
  deriving DecidableEq

namespace ComplexQueryBuilder

def clear (_ : ComplexQueryBuilder) : ComplexQueryBuilder :=
  { conditionToken := [], targetTable := "", operandToken := [] }

def pushOperand (b : ComplexQueryBuilder) (token : String) : ComplexQueryBuilder :=
  { b with operandToken := b.operandToken ++ [token] }

def pushCondition (b : ComplexQueryBuilder) (cond : QueryCondition) : ComplexQueryBuilder :=
  { b with conditionToken := b.conditionToken ++ [cond] }

/-- The loop of `parseOperands`.  The end is tested behind each operand, not in
front of the first one. -/
def operandLoop (b : ComplexQueryBuilder) :
    List String → Except ParseError (List String) × ComplexQueryBuilder
  | [] => (.error .undefinedBehaviour, b)
  | token :: iter =>
      if token = ")" then (.ok iter, b)
      else if iter.isEmpty then (.error (.illFormedQuery "Ill-formed operand"), b.pushOperand token)
      else operandLoop (b.pushOperand token) iter

def parseOperands (b : ComplexQueryBuilder) :
    List String → Except ParseError (List String) × ComplexQueryBuilder
  | [] => (.error .undefinedBehaviour, b)
  | token :: iter =>
      if token ≠ "(" then (.error (.illFormedQuery "Ill-formed operand."), b)
      else b.operandLoop iter

def parseWhereConditions (b : ComplexQueryBuilder) :
    List String → Except ParseError Unit × ComplexQueryBuilder
  | [] => (.ok (), b)
  | token :: iter =>
      if token ≠ "(" then (.error (.illFormedQuery "Ill-formed query condition"), b)
      else match iter with
        | [] => (.error (.illFormedQuery "Missing field in condition"), b)
        | [_] => (.error (.illFormedQuery "Missing operator in condition"), b)
        | [_, _] => (.error (.illFormedQuery "Missing  in condition"), b)
        | [_, _, _] => (.error (.illFormedQuery "Ill-formed query condition"), b)
        | field :: op :: value :: token :: iter =>
            if token ≠ ")" then (.error (.illFormedQuery "Ill-formed query condition"), b)
            else (b.pushCondition { field, op, value }).parseWhereConditions iter

/-- `parseToken` behind the token FROM. -/
def parseTarget (b : ComplexQueryBuilder) :
    List String → Except ParseError Unit × ComplexQueryBuilder
  | [] => (.error (.illFormedQuery "Missing targed table"), b)
  | [table] => (.ok (), { b with targetTable := table })
  | table :: token :: iter =>
      if token ≠ "WHERE" then
        (.error (.illFormedQuery (fill "Expecting \"WHERE\", found \"?\"." token)),
          { b with targetTable := table })
      else { b with targetTable := table }.parseWhereConditions iter

def parseToken (b : ComplexQueryBuilder) : List String → Except ParseError Unit × ComplexQueryBuilder
  -- `iter += 1` beyond the end
  | [] => (.error .undefinedBehaviour, b)
  | [_] => (.error (.illFormedQuery "Missing FROM clause"), b)
  | _ :: token :: iter =>
      if token ≠ "FROM" then
        match b.parseOperands (token :: iter) with
        | (.error e, b) => (.error e, b)
        | (.ok [], b) => (.error (.illFormedQuery "Missing FROM clause"), b)
        | (.ok (token :: iter), b) =>
            if token ≠ "FROM" then (.error (.illFormedQuery "Missing FROM clause"), b)
            else b.parseTarget iter
      else b.parseTarget iter

end ComplexQueryBuilder

/-! ## the grammar -/

/-- A condition as it is written. -/
structure Clause where
  field : String
  op : String
  value : String
  deriving DecidableEq

/-- A complex query as it is written. -/
structure ComplexForm where
  operation : String
  operands : Option (List String)
  targetTable : String
  conditions : Option (List Clause)
  /-- An operand list ends at the first closing parenthesis. -/
  operands_open : ∀ l ∈ operands, ")" ∉ l

/-- The tokens of a condition. -/
def Clause.tokens (c : Clause) : List String := ["(", c.field, c.op, c.value, ")"]

/-- The condition that is built from a clause. -/
def Clause.condition (c : Clause) : QueryCondition := { field := c.field, op := c.op, value := c.value }

namespace ComplexForm

/-- The tokens of an operand list. -/
def operandTokens : Option (List String) → List String
  | none => []
  | some l => "(" :: l ++ [")"]

/-- The tokens of a WHERE clause. -/
def whereTokens : Option (List Clause) → List String
  | none => []
  | some l => "WHERE" :: l.flatMap Clause.tokens

/-- The tokens of a query. -/
def tokens (form : ComplexForm) : List String :=
  form.operation :: operandTokens form.operands ++
    "FROM" :: form.targetTable :: whereTokens form.conditions

/-- A builder that has collected exactly the parts of the query. -/
def builder (form : ComplexForm) : ComplexQueryBuilder where
  targetTable := form.targetTable
  operandToken := form.operands.getD []
  conditionToken := (form.conditions.getD []).map Clause.condition

end ComplexForm

namespace ComplexQueryBuilder

/-! ## what the parser accepts -/

/-- The operand loop stops behind the first closing parenthesis. -/
theorem operandLoop_ok_iff {iter rest : List String} {b b' : ComplexQueryBuilder} :
    b.operandLoop iter = (.ok rest, b') ↔ ∃ l, ")" ∉ l ∧ iter = l ++ ")" :: rest ∧
      b' = { b with operandToken := b.operandToken ++ l } := by
  induction iter generalizing b with
  | nil => simp [operandLoop]
  | cons token iter ih =>
      rw [operandLoop]
      by_cases htok : token = ")"
      · rw [if_pos htok]
        constructor
        · intro h
          simp only [Prod.mk.injEq, Except.ok.injEq] at h
          exact ⟨[], by simp, by simp [htok, h.1], by simp [h.2]⟩
        · intro ⟨l, hl, hiter, hb⟩
          cases l with
          | nil => simp_all
          | cons x l => simp_all
      · rw [if_neg htok]
        cases hempty : iter.isEmpty with
        | true =>
            have hnil := List.isEmpty_iff.mp hempty
            simp only [↓reduceIte, Prod.mk.injEq, reduceCtorEq, false_and, false_iff]
            intro ⟨l, hl, hiter, hb⟩
            cases l with
            | nil => simp_all
            | cons x l => simp_all
        | false =>
            simp only [Bool.false_eq_true, ↓reduceIte]
            rw [ih]
            constructor
            · intro ⟨l, hl, hiter, hb⟩
              exact ⟨token :: l, by simp [hl, Ne.symm htok], by simp [hiter],
                by simp [hb, pushOperand]⟩
            · intro ⟨l, hl, hiter, hb⟩
              cases l with
              | nil => exact absurd (List.cons.inj hiter).1 htok
              | cons x l =>
                  obtain ⟨rfl, htail⟩ := List.cons.inj hiter
                  exact ⟨l, fun h => hl (List.mem_cons_of_mem _ h), htail,
                    by simp [hb, pushOperand]⟩

/-- `parseOperands` accepts an operand list, and stops behind it. -/
theorem parseOperands_ok_iff {iter rest : List String} {b b' : ComplexQueryBuilder} :
    b.parseOperands iter = (.ok rest, b') ↔ ∃ l, ")" ∉ l ∧
      iter = ComplexForm.operandTokens (some l) ++ rest ∧
      b' = { b with operandToken := b.operandToken ++ l } := by
  cases iter with
  | nil => simp [parseOperands, ComplexForm.operandTokens]
  | cons token iter =>
      rw [parseOperands]
      by_cases htok : token = "("
      · rw [if_neg (not_not_intro htok), operandLoop_ok_iff]
        simp [ComplexForm.operandTokens, htok]
      · simp [ComplexForm.operandTokens, htok]

/-- `parseWhereConditions` accepts a list of clauses, up to the last token. -/
theorem parseWhereConditions_ok_iff {b b' : ComplexQueryBuilder} (iter : List String) :
    b.parseWhereConditions iter = (.ok (), b') ↔ ∃ l : List Clause,
      iter = l.flatMap Clause.tokens ∧
      b' = { b with conditionToken := b.conditionToken ++ l.map Clause.condition } := by
  fun_induction parseWhereConditions b iter with
  | case1 b =>
      constructor
      · intro h
        exact ⟨[], rfl, by simp [(Prod.mk.inj h).2]⟩
      · intro ⟨l, hl, hb⟩
        cases l with
        | nil => simp [hb]
        | cons c l => simp [Clause.tokens] at hl
  | case8 b paren hopen field op value token iter hclose ih =>
      have hopen := Decidable.not_not.mp hopen
      have hclose := Decidable.not_not.mp hclose
      rw [ih]
      constructor
      · intro ⟨l, hl, hb⟩
        exact ⟨⟨field, op, value⟩ :: l, by simp [Clause.tokens, hl, hclose, hopen],
          by simp [hb, pushCondition, Clause.condition]⟩
      · intro ⟨l, hl, hb⟩
        cases l with
        | nil => simp at hl
        | cons c l =>
            simp [Clause.tokens] at hl
            exact ⟨l, by simp [hl], by simp [hb, hl, pushCondition, Clause.condition]⟩
  | _ =>
      simp only [Prod.mk.injEq, reduceCtorEq, false_and, false_iff]
      intro ⟨l, hl, hb⟩
      cases l with
      | nil => simp at hl
      | cons c l => simp_all [Clause.tokens]

/-- `parseTarget` accepts a table and an optional WHERE clause. -/
theorem parseTarget_ok_iff {iter : List String} {b b' : ComplexQueryBuilder} :
    b.parseTarget iter = (.ok (), b') ↔ ∃ (table : String) (conditions : Option (List Clause)),
      iter = table :: ComplexForm.whereTokens conditions ∧
      b' = { b with
        targetTable := table
        conditionToken := b.conditionToken ++ (conditions.getD []).map Clause.condition } := by
  match iter with
  | [] => simp [parseTarget]
  | [table] =>
      constructor
      · intro h
        exact ⟨table, none, rfl, by simp [← (Prod.mk.inj h).2]⟩
      · intro ⟨table', conditions, hiter, hb⟩
        cases conditions with
        | none => simp_all [parseTarget]
        | some l => simp [ComplexForm.whereTokens] at hiter
  | table :: token :: iter =>
      rw [parseTarget]
      by_cases htok : token = "WHERE"
      · rw [if_neg (not_not_intro htok), parseWhereConditions_ok_iff, htok]
        constructor
        · intro ⟨l, hl, hb⟩
          exact ⟨table, some l, by rw [hl]; rfl, hb⟩
        · intro ⟨table', conditions, hiter, hb⟩
          cases conditions with
          | none => simp [ComplexForm.whereTokens] at hiter
          | some l =>
              simp only [ComplexForm.whereTokens, List.cons.injEq, true_and] at hiter
              exact ⟨l, hiter.2, by rw [hb, hiter.1]; rfl⟩
      · simp only [if_pos htok, Prod.mk.injEq, reduceCtorEq, false_and, false_iff]
        intro ⟨table', conditions, hiter, hb⟩
        cases conditions with
        | none => simp [ComplexForm.whereTokens] at hiter
        | some l => simp_all [ComplexForm.whereTokens]

/-- `parseToken` behind the operation. -/
theorem parseToken_ok_iff {tokens : List String} {b b' : ComplexQueryBuilder} :
    b.parseToken tokens = (.ok (), b') ↔ ∃ (operation : String) (operands : Option (List String))
      (iter : List String), (∀ l ∈ operands, ")" ∉ l) ∧
      tokens = operation :: ComplexForm.operandTokens operands ++ "FROM" :: iter ∧
      { b with operandToken := b.operandToken ++ operands.getD [] }.parseTarget iter =
        (.ok (), b') := by
  match tokens with
  | [] => simp [parseToken]
  | [operation] =>
      simp only [parseToken, Prod.mk.injEq, reduceCtorEq, false_and, false_iff]
      intro ⟨operation', operands, iter, hopen, htokens, htarget⟩
      cases operands <;> simp [ComplexForm.operandTokens] at htokens
  | operation :: token :: iter =>
      rw [parseToken]
      by_cases htok : token = "FROM"
      · -- no operand list: it would start with a parenthesis
        rw [if_neg (not_not_intro htok), htok]
        constructor
        · intro h
          exact ⟨operation, none, iter, by simp, rfl, by simpa using h⟩
        · intro ⟨operation', operands, iter', hopen, htokens, htarget⟩
          cases operands with
          | none =>
              simp only [ComplexForm.operandTokens, List.cons_append, List.nil_append,
                List.cons.injEq, true_and] at htokens
              simpa [htokens.2] using htarget
          | some l => simp [ComplexForm.operandTokens] at htokens
      · rw [if_pos htok]
        constructor
        · intro h
          cases hop : b.parseOperands (token :: iter) with
          | mk r b₁ =>
              rw [hop] at h
              match r with
              | .error e => simp at h
              | .ok [] => simp at h
              | .ok (next :: iter') =>
                  obtain ⟨l, hl, htokens, rfl⟩ := parseOperands_ok_iff.mp hop
                  by_cases hnext : next = "FROM"
                  · refine ⟨operation, some l, iter', by simpa using hl, ?_, ?_⟩
                    · rw [htokens, hnext]
                      rfl
                    · simpa [hnext] using h
                  · simp [hnext] at h
        · intro ⟨operation', operands, iter', hopen, htokens, htarget⟩
          cases operands with
          | none => exact absurd (List.cons.inj (List.cons.inj htokens).2).1 htok
          | some l =>
              have htail := (List.cons.inj htokens).2
              have hop : b.parseOperands (token :: iter) =
                  (.ok ("FROM" :: iter'), { b with operandToken := b.operandToken ++ l }) :=
                parseOperands_ok_iff.mpr ⟨l, hopen l rfl, htail, rfl⟩
              rw [hop]
              simpa using htarget

/-- **The parser accepts exactly the grammar, and loses nothing**: a cleared
builder accepts the tokens of a query, and no others, and has then collected
the parts of this query. -/
theorem parseToken_iff_form (tokens : List String) (b b' : ComplexQueryBuilder) :
    b.clear.parseToken tokens = (.ok (), b') ↔
      ∃ form : ComplexForm, form.tokens = tokens ∧ form.builder = b' := by
  rw [parseToken_ok_iff]
  constructor
  · intro ⟨operation, operands, iter, hopen, htokens, htarget⟩
    obtain ⟨table, conditions, hiter, hb⟩ := parseTarget_ok_iff.mp htarget
    refine ⟨⟨operation, operands, table, conditions, hopen⟩, ?_, ?_⟩
    · rw [htokens, hiter]
      rfl
    · rw [hb]
      rfl
  · intro ⟨form, htokens, hb⟩
    refine ⟨form.operation, form.operands,
      form.targetTable :: ComplexForm.whereTokens form.conditions, form.operands_open, ?_, ?_⟩
    · exact htokens.symm
    · exact parseTarget_ok_iff.mpr ⟨form.targetTable, form.conditions, rfl, hb.symm⟩

/-! ## what the parser throws -/

section

variable {b b' : ComplexQueryBuilder} {iter : List String} {e : ParseError}

theorem thrown_of_eq {what : String}
    (h : ((.error (.illFormedQuery what) : Except ParseError α), b) = (.error e, b')) :
    ∃ what, e = .illFormedQuery what :=
  ⟨what, (Except.error.inj (Prod.mk.inj h).1).symm⟩

theorem operandLoop_error (h : b.operandLoop iter = (.error e, b')) :
    (∃ what, e = .illFormedQuery what) ∨ (iter = [] ∧ e = .undefinedBehaviour) := by
  induction iter generalizing b with
  | nil => exact .inr ⟨rfl, (Except.error.inj (Prod.mk.inj h).1).symm⟩
  | cons t iter ih =>
      rw [operandLoop] at h
      by_cases ht : t = ")"
      · simp [ht] at h
      · rw [if_neg ht] at h
        cases hempty : iter.isEmpty with
        | true =>
            rw [hempty, if_pos rfl] at h
            exact .inl (thrown_of_eq h)
        | false =>
            rw [hempty, if_neg Bool.false_ne_true] at h
            obtain hthrown | ⟨hnil, _⟩ := ih h
            · exact .inl hthrown
            · simp [hnil] at hempty

theorem parseWhereConditions_error (h : b.parseWhereConditions iter = (.error e, b')) :
    ∃ what, e = .illFormedQuery what := by
  fun_induction parseWhereConditions b iter with
  | case1 => simp at h
  | case8 b paren hopen field op value token iter hclose ih => exact ih h
  | _ => exact thrown_of_eq h

theorem parseTarget_error (h : b.parseTarget iter = (.error e, b')) :
    ∃ what, e = .illFormedQuery what := by
  match iter with
  | [] => exact thrown_of_eq h
  | [table] => simp [parseTarget] at h
  | table :: t :: iter =>
      rw [parseTarget] at h
      by_cases ht : t = "WHERE"
      · rw [if_neg (not_not_intro ht)] at h
        exact parseWhereConditions_error h
      · rw [if_pos ht] at h
        exact thrown_of_eq h

/-- The end is tested in front of every token but one. -/
theorem parseToken_error {token : List String} (h : b.parseToken token = (.error e, b')) :
    (∃ what, e = .illFormedQuery what) ∨
      ((token = [] ∨ ∃ operation, token = [operation, "("]) ∧ e = .undefinedBehaviour) := by
  match token with
  | [] => exact .inr ⟨.inl rfl, (Except.error.inj (Prod.mk.inj h).1).symm⟩
  | [operation] => exact .inl (thrown_of_eq h)
  | operation :: t :: iter =>
      rw [parseToken] at h
      by_cases ht : t = "FROM"
      · rw [if_neg (not_not_intro ht)] at h
        exact .inl (parseTarget_error h)
      · rw [if_pos ht, parseOperands] at h
        by_cases hopen : t = "("
        · rw [if_neg (not_not_intro hopen)] at h
          match hloop : b.operandLoop iter with
          | (.error e', b₁) =>
              simp only [hloop, Prod.mk.injEq, Except.error.injEq] at h
              obtain hthrown | ⟨hnil, hundefined⟩ := operandLoop_error hloop
              · exact .inl (h.1 ▸ hthrown)
              · exact .inr ⟨.inr ⟨operation, by rw [hopen, hnil]⟩, h.1 ▸ hundefined⟩
          | (.ok [], b₁) =>
              rw [hloop] at h
              exact .inl (thrown_of_eq h)
          | (.ok (t' :: iter'), b₁) =>
              rw [hloop] at h
              by_cases ht' : t' = "FROM"
              · simp only [ht', ne_eq, not_true_eq_false, ↓reduceIte] at h
                exact .inl (parseTarget_error h)
              · simp only [ht', ne_eq, not_false_eq_true, ↓reduceIte] at h
                exact .inl (thrown_of_eq h)
        · rw [if_pos hopen] at h
          exact .inl (thrown_of_eq h)

end

end ComplexQueryBuilder

end LemonDB
