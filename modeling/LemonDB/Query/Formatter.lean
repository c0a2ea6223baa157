import LemonDB.Query.Result
import Mathlib.Data.List.Induction
import Mathlib.Data.List.TakeDrop

/-!
# LemonDB.Query.Formatter

What a chain of `operator%` makes of a format.  Each application searches the
text that the earlier ones left, so a question mark in a value takes part in
the search, and a backslash at its end hides the placeholder behind it.

Each value is filled in at its own placeholder exactly when behind a value with a
question mark, or with a backslash at its end right in front of a placeholder, all
values are question marks (`fill_positional_iff`).
-/

namespace LemonDB

open TextStream

/-! ## one application -/

/-- `operator%` on the characters of a format, with the case that the source
leaves undefined: without a question mark it reads outside the format. -/
def fillFirst (format value : Text) : Option Text :=
  match format.span fun c => c ≠ '?' with
  | (_, []) => none
  | (before, _ :: after) =>
      if before.getLast? = some '\\' then some format else some (before ++ value ++ after)

/-- `operator%`, undefined without a question mark. -/
def fill? (format value : String) : Option String :=
  (fillFirst format.toList value.toList).map String.ofList

/-- `fill` is `operator%` where that is defined. -/
theorem fill_eq (format value : String) : fill format value = (fill? format value).getD format := by
  unfold fill fill? fillFirst
  rcases format.toList.span fun c => c ≠ '?' with ⟨before, _ | ⟨c, after⟩⟩
  · rfl
  · dsimp only
    split
    · simp
    · rfl

/-- The search stops at the first question mark. -/
theorem span_mark {before : Text} (after : Text) (h : '?' ∉ before) :
    (before ++ '?' :: after).span (fun c => c ≠ '?') = (before, '?' :: after) := by
  have hbefore : ∀ c ∈ before, decide (c ≠ '?') = true := by
    intro c hc
    rw [decide_eq_true_eq]
    rintro rfl
    exact h hc
  rw [List.span_eq_takeWhile_dropWhile, List.takeWhile_append_of_pos hbefore,
    List.dropWhile_append_of_pos hbefore]
  simp

theorem fillFirst_of_notMem {before : Text} (after value : Text) (h : '?' ∉ before) :
    fillFirst (before ++ '?' :: after) value = if before.getLast? = some '\\'
      then some (before ++ '?' :: after) else some (before ++ value ++ after) := by
  unfold fillFirst
  rw [span_mark after h]

/-- An application takes away one question mark at most. -/
theorem fillFirst_count {x : Text} (value : Text) (h : '?' ∈ x) :
    ∃ x', fillFirst x value = some x' ∧ x.count '?' ≤ x'.count '?' + 1 := by
  obtain ⟨before, after, rfl, hb⟩ := List.eq_append_cons_of_mem h
  rw [fillFirst_of_notMem _ _ hb]
  split
  · exact ⟨_, rfl, by omega⟩
  · refine ⟨_, rfl, ?_⟩
    simp only [List.count_append, List.count_cons_self]
    omega

/-- Filling in a question mark changes nothing. -/
theorem fillFirst_self {x : Text} (h : '?' ∈ x) : fillFirst x ['?'] = some x := by
  obtain ⟨before, after, rfl, hb⟩ := List.eq_append_cons_of_mem h
  rw [fillFirst_of_notMem _ _ hb]
  split <;> simp

/-! ## a chain of applications -/

/-- The format with its placeholders replaced by the values, position by
position. -/
def substitute : Text → List Text → Text
  | [], _ => []
  | c :: format, [] => c :: substitute format []
  | c :: format, value :: values =>
      if c = '?' then value ++ substitute format values
      else c :: substitute format (value :: values)

theorem substitute_nil (format : Text) : substitute format [] = format := by
  induction format with
  | nil => rfl
  | cons c format ih => rw [substitute, ih]

theorem substitute_append {before : Text} (format : Text) (values : List Text)
    (h : '?' ∉ before) : substitute (before ++ format) values = before ++ substitute format values := by
  cases values with
  | nil => rw [substitute_nil, substitute_nil]
  | cons value values =>
      induction before with
      | nil => rfl
      | cons c before ih =>
          rw [List.mem_cons, not_or] at h
          rw [List.cons_append, substitute, if_neg (Ne.symm h.1), ih h.2, List.cons_append]

/-- Question marks as values leave the format as it is. -/
theorem substitute_self {values : List Text} (h : ∀ value ∈ values, value = ['?']) :
    (format : Text) → substitute format values = format := by
  intro format
  induction format generalizing values with
  | nil => rfl
  | cons c format ih =>
      cases values with
      | nil => exact substitute_nil _
      | cons value values =>
          rw [List.forall_mem_cons] at h
          rw [substitute]
          split
          · next hc => rw [ih h.2, h.1, hc, List.singleton_append]
          · rw [ih (List.forall_mem_cons.mpr h)]

/-- No placeholder of the format stands behind a backslash. -/
def Unescaped (format : Text) : Prop := ¬ ['\\', '?'] <:+: format

theorem unescaped_of_notMem {format : Text} (h : '\\' ∉ format) : Unescaped format :=
  fun hin => h (List.IsInfix.subset hin List.mem_cons_self)

/-- A text without a question mark, and without a backslash at its end. -/
def Clean (x : Text) : Prop := '?' ∉ x ∧ x.getLast? ≠ some '\\'

theorem Clean.append {x y : Text} (hx : Clean x) (hy : Clean y) : Clean (x ++ y) := by
  constructor
  · exact fun h => (List.mem_append.mp h).elim hx.1 hy.1
  · rw [List.getLast?_append]
    cases h : y.getLast? with
    | none => exact hx.2
    | some c => exact fun he => hy.2 (h.trans he)

/-- The text in front of the first placeholder is clean. -/
theorem Unescaped.split {before after : Text} (h : Unescaped (before ++ '?' :: after))
    (hb : '?' ∉ before) : Clean before ∧ Unescaped after := by
  refine ⟨⟨hb, fun hlast => h ?_⟩, fun hinfix => h ?_⟩
  · obtain ⟨init, rfl⟩ := List.getLast?_eq_some_iff.mp hlast
    exact ⟨init, after, by simp⟩
  · exact hinfix.trans ⟨before ++ ['?'], [], by simp⟩

/-- A question mark fills in itself, again and again. -/
theorem foldlM_fillFirst_self {values : List Text} (h : ∀ value ∈ values, value = ['?'])
    {x : Text} (hx : values ≠ [] → '?' ∈ x) : values.foldlM fillFirst x = some x := by
  induction values with
  | nil => rfl
  | cons value values ih =>
      rw [List.forall_mem_cons] at h
      have hx := hx (List.cons_ne_nil _ _)
      rw [List.foldlM_cons, h.1, fillFirst_self hx]
      exact ih h.2 fun _ => hx

/-! ## the placeholder that an application replaces -/

/-- The text in front of the question mark that `operator%` replaces.  It replaces
none behind a backslash. -/
def replacedAt (format : Text) : Option Text :=
  match format.span fun c => c ≠ '?' with
  | (_, []) => none
  | (before, _ :: _) => if before.getLast? = some '\\' then none else some before

/-- The text in front of the first placeholder. -/
def beforeMark (format : Text) : Text := (format.span fun c => c ≠ '?').1

/-- The text behind the first placeholder. -/
def behindMark (format : Text) : Text := (format.span fun c => c ≠ '?').2.tail

theorem beforeMark_append {before : Text} (after : Text) (h : '?' ∉ before) :
    beforeMark (before ++ '?' :: after) = before := by
  rw [beforeMark, span_mark after h]

theorem behindMark_append {before : Text} (after : Text) (h : '?' ∉ before) :
    behindMark (before ++ '?' :: after) = after := by
  rw [behindMark, span_mark after h, List.tail_cons]

/-- An application replaces the question mark behind clean text. -/
theorem replacedAt_eq_some_iff (before after : Text) :
    replacedAt (before ++ '?' :: after) = some before ↔ Clean before := by
  constructor
  · intro h
    unfold replacedAt at h
    rw [List.span_eq_takeWhile_dropWhile] at h
    split at h
    · contradiction
    · next before' c after' hspan =>
        split at h
        · contradiction
        · next hlast =>
            obtain rfl := Option.some.inj h
            refine ⟨fun hmem => ?_, hlast⟩
            have htake := (Prod.mk.inj hspan).1
            rw [← htake] at hmem
            simpa using List.mem_takeWhile_imp hmem
  · rintro ⟨hmark, hlast⟩
    unfold replacedAt
    rw [span_mark after hmark]
    exact if_neg hlast

/-- Each application replaces the placeholder of its value: `done` is the text that
the earlier ones left of the format in front of the rest.  The question mark as a
value changes nothing, wherever it is filled in. -/
def InPlace : (done format : Text) → List Text → Prop
  | _, _, [] => True
  | done, format, value :: values =>
      (value = ['?'] ∨ replacedAt (done ++ format) = some (done ++ beforeMark format)) ∧
        InPlace (done ++ beforeMark format ++ value) (behindMark format) values

/-- A value that does not get in the way of those behind it: it has no question mark,
and no backslash at its end in front of another placeholder. -/
def Unobtrusive (value after : Text) : Prop :=
  '?' ∉ value ∧ (value.getLast? = some '\\' → after.head? ≠ some '?')

/-- Behind a value that gets in the way there are only question marks. -/
def Unobstructed : (format : Text) → List Text → Prop
  | _, [] => True
  | format, value :: values =>
      (Unobtrusive value (behindMark format) ∨ ∀ w ∈ values, w = ['?']) ∧
        Unobstructed (behindMark format) values

instance (value after : Text) : Decidable (Unobtrusive value after) :=
  inferInstanceAs (Decidable (_ ∧ _))

instance decidableUnobstructed : (format : Text) → (values : List Text) →
    Decidable (Unobstructed format values)
  | _, [] => .isTrue trivial
  | format, _ :: values =>
      have := decidableUnobstructed (behindMark format) values
      inferInstanceAs (Decidable (_ ∧ _))

/-- The text that is filled in, and that in front of the first placeholder behind
it. -/
def CleanUpTo (done format : Text) : Prop := '?' ∈ format → Clean (done ++ beforeMark format)

/-- A value that does not get in the way keeps the text in front of the next
placeholder clean. -/
theorem Unobtrusive.cleanUpTo {done value after : Text} (h : Unobtrusive value after)
    (hdone : Clean done) (hafter : Unescaped after) : CleanUpTo (done ++ value) after := by
  intro hmem
  obtain ⟨before, rest, rfl, hb⟩ := List.eq_append_cons_of_mem hmem
  rw [beforeMark_append rest hb]
  have hbefore := (hafter.split hb).1
  refine ⟨?_, ?_⟩
  · simp only [List.mem_append, not_or]
    exact ⟨⟨hdone.1, h.1⟩, hb⟩
  · rw [List.getLast?_append, List.getLast?_append]
    cases hlast : before.getLast? with
    | some c => exact fun heq => hbefore.2 (hlast.trans heq)
    | none =>
        obtain rfl := List.getLast?_eq_none_iff.mp hlast
        cases hv : value.getLast? with
        | some c => exact fun heq => h.2 (hv.trans heq) rfl
        | none => exact hdone.2

theorem inPlace_self {values : List Text} (h : ∀ value ∈ values, value = ['?'])
    (done format : Text) : InPlace done format values := by
  induction values generalizing done format with
  | nil => trivial
  | cons value values ih =>
      rw [List.forall_mem_cons] at h
      exact ⟨.inl h.1, ih h.2 _ _⟩

/-- Where the values do not get in the way, each of them is filled in at its
place. -/
theorem inPlace_of_unobstructed {values : List Text} {done format : Text}
    (hdone : CleanUpTo done format) (hformat : Unescaped format)
    (hcount : format.count '?' = values.length) (h : Unobstructed format values) :
    InPlace done format values ∧
      values.foldlM fillFirst (done ++ format) = some (done ++ substitute format values) := by
  induction values generalizing done format with
  | nil => exact ⟨trivial, by rw [substitute_nil]; rfl⟩
  | cons value values ih =>
      have hmem : '?' ∈ format := List.count_pos_iff.mp (by rw [hcount]; exact Nat.succ_pos _)
      have hclean := hdone hmem
      obtain ⟨before, after, rfl, hb⟩ := List.eq_append_cons_of_mem hmem
      obtain ⟨-, hafter⟩ := hformat.split hb
      obtain ⟨hfirst, hrest⟩ := h
      rw [beforeMark_append after hb] at hclean
      rw [behindMark_append after hb] at hfirst hrest
      have hcount : after.count '?' = values.length := by
        simpa [List.count_append, List.count_eq_zero_of_not_mem hb] using hcount
      have hplace : replacedAt (done ++ (before ++ '?' :: after)) = some (done ++ before) := by
        rw [← List.append_assoc]
        exact (replacedAt_eq_some_iff _ _).mpr hclean
      rw [InPlace, beforeMark_append after hb, behindMark_append after hb, List.foldlM_cons,
        ← List.append_assoc done, fillFirst_of_notMem _ _ hclean.1, if_neg hclean.2,
        substitute_append _ _ hb, substitute, if_pos rfl]
      obtain hfirst | hself := hfirst
      · obtain ⟨hin, hfill⟩ := ih (hfirst.cleanUpTo hclean hafter) hafter hcount hrest
        refine ⟨⟨.inr (by simpa using hplace), hin⟩, ?_⟩
        simpa only [List.append_assoc, Option.bind_eq_bind, Option.bind_some] using hfill
      · have hmem : values ≠ [] → '?' ∈ done ++ before ++ value ++ after := by
          intro hne
          refine List.mem_append_right _ (List.count_pos_iff.mp ?_)
          rw [hcount]
          exact List.length_pos_iff.mpr hne
        have hfill := foldlM_fillFirst_self hself hmem
        rw [substitute_self hself]
        refine ⟨⟨.inr (by simpa using hplace), inPlace_self hself _ _⟩, ?_⟩
        simpa only [List.append_assoc, Option.bind_eq_bind, Option.bind_some] using hfill

/-- Behind a question mark in the text, only question marks are filled in at their
place. -/
theorem InPlace.self_of_mem {values : List Text} {done format : Text}
    (hcount : format.count '?' = values.length) (h : InPlace done format values)
    (hmark : '?' ∈ done) : ∀ value ∈ values, value = ['?'] := by
  induction values generalizing done format with
  | nil => simp
  | cons value values ih =>
      obtain ⟨hfirst, hrest⟩ := h
      have hmem : '?' ∈ format := List.count_pos_iff.mp (by rw [hcount]; exact Nat.succ_pos _)
      obtain ⟨before, after, rfl, hb⟩ := List.eq_append_cons_of_mem hmem
      rw [beforeMark_append after hb, behindMark_append after hb] at hrest
      rw [beforeMark_append after hb, ← List.append_assoc, replacedAt_eq_some_iff] at hfirst
      have hcount : after.count '?' = values.length := by
        simpa [List.count_append, List.count_eq_zero_of_not_mem hb] using hcount
      have hdone : '?' ∈ done ++ before := List.mem_append_left _ hmark
      rw [List.forall_mem_cons]
      exact ⟨hfirst.resolve_right fun hclean => hclean.1 hdone,
        ih hcount hrest (List.mem_append_left _ hdone)⟩

/-- Behind a backslash that hides the next placeholder, too. -/
theorem InPlace.self_of_hidden {values : List Text} {done format : Text}
    (hcount : format.count '?' = values.length) (h : InPlace done format values)
    (hback : done.getLast? = some '\\') (hnext : format.head? = some '?') :
    ∀ value ∈ values, value = ['?'] := by
  cases values with
  | nil => simp
  | cons value values =>
      obtain ⟨after, rfl⟩ := List.head?_eq_some_iff.mp hnext
      obtain ⟨hfirst, hrest⟩ := h
      have hb : '?' ∉ ([] : Text) := List.not_mem_nil
      have hbefore : beforeMark ('?' :: after) = [] := beforeMark_append after hb
      have hbehind : behindMark ('?' :: after) = after := behindMark_append after hb
      rw [hbefore, List.append_nil, replacedAt_eq_some_iff] at hfirst
      rw [hbefore, hbehind, List.append_nil] at hrest
      have hvalue : value = ['?'] := hfirst.resolve_right fun hclean => hclean.2 hback
      have hcount : after.count '?' = values.length := by simpa using hcount
      rw [List.forall_mem_cons]
      refine ⟨hvalue, hrest.self_of_mem hcount ?_⟩
      rw [hvalue]
      exact List.mem_append_right _ List.mem_cons_self

/-- Values that are filled in at their places do not get in the way. -/
theorem unobstructed_of_inPlace {values : List Text} {done format : Text}
    (hcount : format.count '?' = values.length) (h : InPlace done format values) :
    Unobstructed format values := by
  induction values generalizing done format with
  | nil => trivial
  | cons value values ih =>
      have hmem : '?' ∈ format := List.count_pos_iff.mp (by rw [hcount]; exact Nat.succ_pos _)
      obtain ⟨before, after, rfl, hb⟩ := List.eq_append_cons_of_mem hmem
      obtain ⟨-, hrest⟩ := h
      rw [behindMark_append after hb] at hrest
      have hcount : after.count '?' = values.length := by
        simpa [List.count_append, List.count_eq_zero_of_not_mem hb] using hcount
      rw [Unobstructed, behindMark_append after hb]
      refine ⟨?_, ih hcount hrest⟩
      by_cases hmark : '?' ∈ value
      · exact .inr (hrest.self_of_mem hcount (List.mem_append_right _ hmark))
      · by_cases hhidden : value.getLast? = some '\\' ∧ after.head? = some '?'
        · refine .inr (hrest.self_of_hidden hcount ?_ hhidden.2)
          rw [List.getLast?_append, hhidden.1]
          rfl
        · exact .inl ⟨hmark, fun hlast hnext => hhidden ⟨hlast, hnext⟩⟩

/-! ## the messages -/

theorem foldlM_fill? (values : List String) (format : String) : values.foldlM fill? format =
    ((values.map String.toList).foldlM fillFirst format.toList).map String.ofList := by
  induction values generalizing format with
  | nil => simp
  | cons value values ih =>
      rw [List.map_cons, List.foldlM_cons, List.foldlM_cons, fill?]
      cases fillFirst format.toList value.toList with
      | none => rfl
      | some x => simpa using ih (String.ofList x)

/-- With a placeholder for every value the chain reads nothing outside the
format: it is the chain of `fill`. -/
theorem foldlM_fill?_eq {values : List String} {format : String}
    (h : values.length ≤ format.toList.count '?') :
    values.foldlM fill? format = some (values.foldl fill format) := by
  induction values generalizing format with
  | nil => rfl
  | cons value values ih =>
      have hmem : '?' ∈ format.toList :=
        List.count_pos_iff.mp (Nat.lt_of_lt_of_le (Nat.succ_pos _) h)
      obtain ⟨x, hfill, hcount⟩ := fillFirst_count value.toList hmem
      have hfill : fill? format value = some (String.ofList x) := by rw [fill?, hfill]; rfl
      rw [List.foldlM_cons, List.foldl_cons, fill_eq, hfill]
      refine ih ?_
      rw [List.length_cons] at h
      rw [String.toList_ofList]
      omega

/-- The error message of a query on a table is such a chain. -/
theorem tableError_eq (qname table msg : String) : ∃ m,
    [qname, table, msg].foldlM fill? "Query \"?\" failed in Table \"?\" : ?" = some m ∧
      QueryResult.tableError qname table msg = .errorMsg m := by
  have hcount : [qname, table, msg].length ≤
      "Query \"?\" failed in Table \"?\" : ?".toList.count '?' := by
    rw [List.length_cons, List.length_cons, List.length_singleton]
    decide +kernel
  refine ⟨_, foldlM_fill?_eq hcount, ?_⟩
  rw [QueryResult.tableError, List.foldl_cons, List.foldl_cons, List.foldl_cons, List.foldl_nil]

/-- **Where the values of a message stand**: each value is filled in at its own
placeholder, and the message is the format with its placeholders replaced, exactly
when behind a value with a question mark, or with a backslash at its end right in
front of a placeholder, there are only question marks. -/
theorem fill_positional_iff {format : String} {values : List String}
    (hformat : Unescaped format.toList) (hcount : format.toList.count '?' = values.length) :
    (values.foldlM fill? format =
        some (String.ofList (substitute format.toList (values.map String.toList))) ∧
      InPlace [] format.toList (values.map String.toList)) ↔
    Unobstructed format.toList (values.map String.toList) := by
  have hcount : format.toList.count '?' = (values.map String.toList).length := by
    rw [hcount, List.length_map]
  constructor
  · exact fun h => unobstructed_of_inPlace hcount h.2
  · intro h
    have hclean : CleanUpTo [] format.toList := by
      intro hmem
      obtain ⟨before, after, hsplit, hb⟩ := List.eq_append_cons_of_mem hmem
      rw [hsplit, beforeMark_append after hb]
      exact ((hsplit ▸ hformat).split hb).1
    obtain ⟨hin, hfill⟩ := inPlace_of_unobstructed hclean hformat hcount h
    rw [List.nil_append, List.nil_append] at hfill
    refine ⟨?_, hin⟩
    rw [foldlM_fill?, hfill]
    rfl

/-- A table whose name ends in a backslash, and that does not exist. -/
theorem fill_positional_iff_backslash :
    (["DROP", "a\\", "No such table."] : List String).foldlM fill?
      "Query \"?\" failed in Table \"?\" : ?" =
        some "Query \"DROP\" failed in Table \"a\\\" : No such table." := by
  have hfill := ((@fill_positional_iff "Query \"?\" failed in Table \"?\" : ?"
    ["DROP", "a\\", "No such table."] (unescaped_of_notMem (by decide)) (by decide)).mpr
    (by decide +kernel)).1
  rw [hfill]
  decide +kernel

/-- The message of DROP on a table `a?b` that does not exist. -/
theorem not_fill_positional : ¬ ∀ (values : List String) (format : String),
    Unescaped format.toList → format.toList.count '?' = values.length →
    values.foldlM fill? format =
      some (String.ofList (substitute format.toList (values.map String.toList))) := by
  intro h
  have hfill := h ["DROP", "a?b", "No such table."] "Query \"?\" failed in Table \"?\" : ?"
    (unescaped_of_notMem (by decide)) (by decide)
  have hmessage : (["DROP", "a?b", "No such table."] : List String).foldlM fill?
      "Query \"?\" failed in Table \"?\" : ?" =
        some "Query \"DROP\" failed in Table \"aNo such table.b\" : ?" := by decide +kernel
  rw [hmessage] at hfill
  revert hfill
  decide +kernel

end LemonDB
