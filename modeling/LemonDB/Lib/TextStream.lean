import LemonDB.Lib.Loop
import Mathlib.Algebra.Ring.Int.Defs
import Mathlib.Algebra.Ring.Nat
import Mathlib.Data.List.TakeWhile

/-!
# LemonDB.Lib.TextStream

Formatted text input and output in the C locale, on lists of characters: lines
(`std::getline`), words and integers (`operator>>`), and the decimal rendering
of an integer.

Two groups of lemmas relate reading to writing.  The first ones read back what
was written, when a blank stands in between.  The others bound how much can be
read at all: each word that is read starts at one of the `wordStarts` of the
text, and each number at one of its `numberStarts`.
-/

namespace TextStream

/-- A text is the list of its characters. -/
abbrev Text := List Char

/-! ## reading -/

/-- `std::isspace` in the C locale. -/
def isSpace (c : Char) : Bool :=
  c = ' ' || c = '\t' || c = '\n' || c = '\x0b' || c = '\x0c' || c = '\r'

/-- The lines that `std::getline` reads one after the other. -/
def lines : Text → List Text
  | [] => []
  | c :: s =>
      if c = '\n' then [] :: lines s
      else match lines s with
        | [] => [[c]]
        | l :: ls => (c :: l) :: ls

/-- Extract a string: blanks are skipped, then it ends at the next blank. -/
def readString (s : Text) : Option (Text × Text) :=
  match (s.dropWhile isSpace).takeWhile (!isSpace ·) with
  | [] => none
  | w => some (w, (s.dropWhile isSpace).dropWhile (!isSpace ·))

/-- An optional sign. -/
def readSign : Text → Bool × Text
  | '-' :: s => (true, s)
  | '+' :: s => (false, s)
  | s => (false, s)

/-- Extract the sign and the digits of a number; at least one digit is needed. -/
def readNumber (s : Text) : Option ((Bool × Nat) × Text) :=
  let (negative, s) := readSign (s.dropWhile isSpace)
  match s.takeWhile Char.isDigit with
  | [] => none
  | digits => some ((negative, Nat.ofDigitChars 10 digits 0), s.dropWhile Char.isDigit)

/-- Extract an `int`; it fails outside of the range of the type. -/
def readInt (s : Text) : Option (Int32 × Text) := do
  let ((negative, n), s) ← readNumber s
  let value : Int := if negative then -n else n
  if -2 ^ 31 ≤ value ∧ value < 2 ^ 31 then return (Int32.ofInt value, s) else none

/-- Extract a `size_t`; a sign is accepted, and negates modulo `2 ^ 64`. -/
def readSize (s : Text) : Option (Nat × Text) := do
  let ((negative, n), s) ← readNumber s
  if n < 2 ^ 64 then return (if negative then (2 ^ 64 - n) % 2 ^ 64 else n, s) else none

/-! ## writing -/

/-- The decimal rendering of an integer. -/
def decimal (n : Int) : Text := (toString n).toList

theorem decimal_natCast (n : Nat) : decimal n = Nat.toDigits 10 n := by
  simp [decimal, Int.repr_eq_if]

theorem decimal_of_neg {n : Int} (h : n < 0) : decimal n = '-' :: Nat.toDigits 10 n.natAbs := by
  have hn : (-n).toNat = n.natAbs := by omega
  simp [decimal, Int.repr_eq_if, Int.not_le.mpr h, hn]

theorem decimal_of_nonneg {n : Int} (h : 0 ≤ n) : decimal n = Nat.toDigits 10 n.natAbs := by
  obtain ⟨m, rfl⟩ := Int.eq_ofNat_of_zero_le h
  exact decimal_natCast m

theorem not_isSpace_of_isDigit {c : Char} (h : c.isDigit = true) : isSpace c = false := by
  cases hs : isSpace c with
  | false => rfl
  | true =>
      simp only [isSpace, Bool.or_eq_true, decide_eq_true_eq] at hs
      obtain ((((rfl | rfl) | rfl) | rfl) | rfl) | rfl := hs <;> revert h <;> decide

theorem isDigit_of_mem_toDigits {n : Nat} {c : Char} (h : c ∈ Nat.toDigits 10 n) :
    c.isDigit = true := Nat.isDigit_of_mem_toDigits (by decide) (by decide) h

theorem not_isSpace_of_mem_decimal {n : Int} {c : Char} (h : c ∈ decimal n) :
    isSpace c = false := by
  by_cases hn : 0 ≤ n
  · rw [decimal_of_nonneg hn] at h
    exact not_isSpace_of_isDigit (isDigit_of_mem_toDigits h)
  · rw [decimal_of_neg (Int.not_le.mp hn), List.mem_cons] at h
    obtain rfl | h := h
    · decide
    · exact not_isSpace_of_isDigit (isDigit_of_mem_toDigits h)

/-- The integers that fit into nine characters. -/
theorem length_decimal_le_iff (n : Int) :
    (decimal n).length ≤ 9 ↔ -99999999 ≤ n ∧ n ≤ 999999999 := by
  by_cases hn : 0 ≤ n
  · rw [decimal_of_nonneg hn, Nat.length_toDigits_le_iff (by decide) (by decide)]
    omega
  · rw [decimal_of_neg (Int.not_le.mp hn), List.length_cons, Nat.add_le_add_iff_right (n := 1),
      Nat.length_toDigits_le_iff (by decide) (by decide)]
    omega

/-! ## reading back -/

theorem lines_append_newline : {l : Text} → (∀ c ∈ l, c ≠ '\n') → (s : Text) →
    lines (l ++ '\n' :: s) = l :: lines s
  | [], _, s => by simp [lines]
  | c :: l, h, s => by
      have ih := lines_append_newline (fun c hc => h c (List.mem_cons_of_mem _ hc)) s
      rw [List.cons_append, lines, if_neg (h c List.mem_cons_self), ih]

/-- Lines that were written are read back. -/
theorem lines_flatten : {ls : List Text} → (∀ l ∈ ls, ∀ c ∈ l, c ≠ '\n') →
    lines (ls.map (· ++ ['\n'])).flatten = ls
  | [], _ => rfl
  | l :: ls, h => by
      rw [List.map_cons, List.flatten_cons, List.append_assoc, List.singleton_append,
        lines_append_newline (h l List.mem_cons_self),
        lines_flatten fun l hl => h l (List.mem_cons_of_mem _ hl)]

/-- The text ends, or goes on with a blank. -/
def StartsBlank (s : Text) : Prop := ∀ c ∈ s.head?, isSpace c = true

/-- The text ends, or goes on with something else than a digit. -/
def StartsNonDigit (s : Text) : Prop := ∀ c ∈ s.head?, c.isDigit = false

theorem takeWhile_append_stop {p : Char → Bool} {w s : Text} (hw : ∀ c ∈ w, p c = true)
    (hs : ∀ c ∈ s.head?, p c = false) :
    (w ++ s).takeWhile p = w ∧ (w ++ s).dropWhile p = s := by
  rw [List.takeWhile_append_of_pos hw, List.dropWhile_append_of_pos hw]
  cases s with
  | nil => simp
  | cons c s => simp [hs c rfl]

/-- What stands before a blank is read back. -/
theorem readString_append {blanks w s : Text} (hb : ∀ c ∈ blanks, isSpace c = true)
    (hw : ∀ c ∈ w, isSpace c = false) (hne : w ≠ []) (hs : StartsBlank s) :
    readString (blanks ++ (w ++ s)) = some (w, s) := by
  have hstop := takeWhile_append_stop (p := (!isSpace ·)) (w := w) (s := s)
    (fun c hc => by simp [hw c hc]) fun c hc => by simp [hs c hc]
  have hdrop : (blanks ++ (w ++ s)).dropWhile isSpace = w ++ s := by
    rw [List.dropWhile_append_of_pos hb]
    cases w with
    | nil => exact absurd rfl hne
    | cons c w => simp [hw c List.mem_cons_self]
  unfold readString
  rw [hdrop, hstop.1, hstop.2]
  cases w with
  | nil => exact absurd rfl hne
  | cons c w => rfl

theorem readSign_of_isDigit {c : Char} (hc : c.isDigit = true) (s : Text) :
    readSign (c :: s) = (false, c :: s) := by
  have hm : c ≠ '-' := by rintro rfl; revert hc; decide
  have hp : c ≠ '+' := by rintro rfl; revert hc; decide
  rw [readSign]
  · exact fun s h => hm (List.cons.inj h).1
  · exact fun s h => hp (List.cons.inj h).1

theorem readSign_toDigits (n : Nat) (s : Text) :
    readSign (Nat.toDigits 10 n ++ s) = (false, Nat.toDigits 10 n ++ s) := by
  cases hd : Nat.toDigits 10 n with
  | nil => exact absurd hd Nat.toDigits_ne_nil
  | cons c l =>
      exact readSign_of_isDigit (isDigit_of_mem_toDigits (hd ▸ List.mem_cons_self)) (l ++ s)

/-- The sign of a printed integer is read back. -/
theorem readSign_decimal (n : Int) (s : Text) :
    readSign (decimal n ++ s) = (decide (n < 0), Nat.toDigits 10 n.natAbs ++ s) := by
  by_cases hn : 0 ≤ n
  · rw [decimal_of_nonneg hn, readSign_toDigits, decide_eq_false (Int.not_lt.mpr hn)]
  · rw [decimal_of_neg (Int.not_le.mp hn), decide_eq_true (Int.not_le.mp hn)]
    rfl

/-- A number in front of something that is not a digit is read back. -/
theorem readNumber_decimal {blanks s : Text} (hb : ∀ c ∈ blanks, isSpace c = true) (n : Int)
    (hs : StartsNonDigit s) :
    readNumber (blanks ++ (decimal n ++ s)) = some ((decide (n < 0), n.natAbs), s) := by
  have hstop := takeWhile_append_stop (p := Char.isDigit) (w := Nat.toDigits 10 n.natAbs) (s := s)
    (fun c hc => isDigit_of_mem_toDigits hc) hs
  have hdrop : (blanks ++ (decimal n ++ s)).dropWhile isSpace = decimal n ++ s := by
    rw [List.dropWhile_append_of_pos hb]
    cases hd : decimal n with
    | nil =>
        have hlen := congrArg List.length hd
        by_cases hn : 0 ≤ n
        · rw [decimal_of_nonneg hn] at hd
          exact absurd hd Nat.toDigits_ne_nil
        · rw [decimal_of_neg (Int.not_le.mp hn)] at hd
          contradiction
    | cons c l =>
        have hc := not_isSpace_of_mem_decimal (n := n) (c := c) (by rw [hd]; exact List.mem_cons_self)
        simp [hc]
  unfold readNumber
  rw [hdrop, readSign_decimal]
  dsimp only
  rw [hstop.1, hstop.2]
  have hval := Nat.ofDigitChars_ten_toDigits (n := n.natAbs)
  cases hd : Nat.toDigits 10 n.natAbs with
  | nil => exact absurd hd Nat.toDigits_ne_nil
  | cons c l =>
      rw [hd] at hval
      simp [hval]

/-- A printed cell is read back. -/
theorem readInt_decimal {blanks s : Text} (hb : ∀ c ∈ blanks, isSpace c = true) (v : Int32)
    (hs : StartsNonDigit s) :
    readInt (blanks ++ (decimal v.toInt ++ s)) = some (v, s) := by
  have hlt := v.toInt_lt
  have hle := v.le_toInt
  have hval : (if decide (v.toInt < 0) = true then -(v.toInt.natAbs : Int) else v.toInt.natAbs) =
      v.toInt := by
    simp only [decide_eq_true_eq]
    split
    · omega
    · omega
  unfold readInt
  rw [readNumber_decimal hb v.toInt hs]
  simp only [Option.bind_eq_bind, Option.bind_some, hval]
  rw [if_pos ⟨hle, hlt⟩, Int32.ofInt_toInt]
  rfl

/-- A printed size is read back, if it fits into 64 bits. -/
theorem readSize_decimal {blanks s : Text} (hb : ∀ c ∈ blanks, isSpace c = true) (n : Nat)
    (hs : StartsNonDigit s) :
    readSize (blanks ++ (decimal n ++ s)) = if n < 2 ^ 64 then some (n, s) else none := by
  have hneg : ¬ (n : Int) < 0 := by omega
  unfold readSize
  rw [readNumber_decimal hb n hs]
  simp [hneg]

/-! ## how much can be read -/

/-- The number of characters in `p` that do not follow a character in `p`;
`inside` tells whether the text follows one. -/
def starts (p : Char → Bool) : Bool → Text → Nat
  | _, [] => 0
  | inside, c :: s => (if p c && !inside then 1 else 0) + starts p (p c) s

/-- The positions at which a word starts. -/
def wordStarts (s : Text) : Nat := starts (!isSpace ·) false s

/-- The positions at which a run of digits starts. -/
def numberStarts (s : Text) : Nat := starts Char.isDigit false s

section

variable (p : Char → Bool)

theorem starts_of_head {s : Text} (h : ∀ c ∈ s.head?, p c = false) (b : Bool) :
    starts p b s = starts p false s := by
  cases s with
  | nil => rfl
  | cons c s => simp [starts, h c rfl]

/-- A text of other characters has no start. -/
theorem starts_append_outside {w : Text} (hw : ∀ c ∈ w, p c = false) (s : Text) :
    starts p false (w ++ s) = starts p false s := by
  induction w with
  | nil => rfl
  | cons c w ih =>
      have hc := hw c List.mem_cons_self
      rw [List.cons_append, starts, hc, ih fun c hc => hw c (List.mem_cons_of_mem _ hc)]
      simp

theorem starts_append_inside {w : Text} (hw : ∀ c ∈ w, p c = true) (s : Text) :
    starts p true (w ++ s) = starts p true s := by
  induction w with
  | nil => rfl
  | cons c w ih =>
      have hc := hw c List.mem_cons_self
      rw [List.cons_append, starts, hc, ih fun c hc => hw c (List.mem_cons_of_mem _ hc)]
      simp

/-- A run has one start. -/
theorem starts_append_run {w : Text} (hw : ∀ c ∈ w, p c = true) (hne : w ≠ []) (s : Text) :
    starts p false (w ++ s) = 1 + starts p true s := by
  cases w with
  | nil => contradiction
  | cons c w =>
      have hc := hw c List.mem_cons_self
      rw [List.cons_append, starts, hc,
        starts_append_inside p fun c hc => hw c (List.mem_cons_of_mem _ hc)]
      simp

theorem head?_dropWhile (s : Text) : ∀ c ∈ (s.dropWhile p).head?, p c = false := by
  intro c hc
  cases hd : s.dropWhile p with
  | nil => rw [hd] at hc; contradiction
  | cons c' l =>
      rw [hd] at hc
      have := List.head?_dropWhile_not p s
      rw [hd] at this
      simpa [← Option.some.inj hc] using this

/-- Reading a run of characters in `p` uses up one start. -/
theorem starts_takeWhile {s : Text} (h : s.takeWhile p ≠ []) :
    1 + starts p false (s.dropWhile p) = starts p false s := by
  have hsplit := List.takeWhile_append_dropWhile (p := p) (l := s)
  rw [← starts_of_head p (head?_dropWhile p s) true,
    ← starts_append_run p (fun c hc => List.mem_takeWhile_imp hc) h, hsplit]

/-- Skipping other characters uses up none. -/
theorem starts_dropWhile_outside {q : Char → Bool} (hq : ∀ c, q c = true → p c = false) (s : Text) :
    starts p false (s.dropWhile q) = starts p false s := by
  rw [← starts_append_outside p (w := s.takeWhile q) fun c hc => hq c (List.mem_takeWhile_imp hc),
    List.takeWhile_append_dropWhile]

end

/-- Reading a word uses up one word start. -/
theorem wordStarts_readString {s w rest : Text} (h : readString s = some (w, rest)) :
    1 + wordStarts rest = wordStarts s := by
  unfold readString at h
  split at h
  · contradiction
  · next hne =>
      rw [Option.some.injEq, Prod.mk.injEq] at h
      unfold wordStarts
      rw [← h.2, starts_takeWhile _ hne,
        starts_dropWhile_outside (!isSpace ·) (q := isSpace) fun c hc => by simp [hc]]

theorem starts_readSign (s : Text) :
    starts Char.isDigit false (readSign s).2 = starts Char.isDigit false s := by
  unfold readSign
  split <;> simp [starts]

/-- Reading a number uses up one number start. -/
theorem numberStarts_readNumber {s rest : Text} {n : Bool × Nat}
    (h : readNumber s = some (n, rest)) : 1 + numberStarts rest = numberStarts s := by
  have hspace : ∀ c, isSpace c = true → c.isDigit = false := by
    intro c hc
    cases hd : c.isDigit with
    | false => rfl
    | true => rw [not_isSpace_of_isDigit hd] at hc; contradiction
  unfold readNumber at h
  dsimp only at h
  split at h
  · cases h
  · next hne =>
      rw [Option.some.injEq, Prod.mk.injEq] at h
      unfold numberStarts
      rw [← h.2, starts_takeWhile _ hne, starts_readSign,
        starts_dropWhile_outside Char.isDigit hspace]

theorem numberStarts_readInt {s rest : Text} {v : Int32} (h : readInt s = some (v, rest)) :
    1 + numberStarts rest = numberStarts s := by
  unfold readInt at h
  obtain ⟨⟨⟨negative, n⟩, s'⟩, hn, h⟩ := Option.bind_eq_some_iff.mp h
  obtain ⟨_, h⟩ := Option.ite_none_right_eq_some.mp h
  have hrest : s' = rest := congrArg Prod.snd (Option.some.inj h)
  rw [← hrest]
  exact numberStarts_readNumber hn

/-! ## all words -/

/-- The loop `while (stream >> word)`, which collects the words. -/
def wordLoop : MeasuredLoop (Text × List Text) (List Text) where
  body := fun (s, ws) => match readString s with
    | some (w, rest) => .inl (rest, ws ++ [w])
    | none => .inr ws
  measure := fun (s, _) => wordStarts s
  decreases := by
    rintro ⟨s, ws⟩ ⟨s', ws'⟩ h
    dsimp only at h
    split at h
    · next w rest hread =>
        have hstarts := wordStarts_readString hread
        simp only [Sum.inl.injEq, Prod.mk.injEq] at h
        show wordStarts s' < wordStarts s
        rw [← h.1]
        omega
    · contradiction

/-- The words of a text. -/
def words (s : Text) : List Text := wordLoop.run (s, [])

/-- The loop over the words appends them to those it has. -/
theorem run_wordLoop (s : Text) (ws : List Text) : wordLoop.run (s, ws) = ws ++ words s := by
  induction hn : wordStarts s using Nat.strong_induction_on generalizing s ws with
  | h n ih =>
  unfold words
  cases hread : readString s with
  | none =>
      have hbody : ∀ ws, wordLoop.body (s, ws) = .inr ws := fun ws => by
        simp only [wordLoop, hread]
      rw [wordLoop.run_of_return (hbody ws), wordLoop.run_of_return (hbody []), List.append_nil]
  | some p =>
      obtain ⟨w, rest⟩ := p
      have hlt : wordStarts rest < n := by
        have := wordStarts_readString hread
        omega
      have hbody : ∀ ws, wordLoop.body (s, ws) = .inl (rest, ws ++ [w]) := fun ws => by
        simp only [wordLoop, hread]
      rw [wordLoop.run_of_continue (hbody ws), wordLoop.run_of_continue (hbody []),
        ih _ hlt _ _ rfl, ih _ hlt _ _ rfl, List.append_assoc]
      rfl

theorem words_nil : words [] = [] := wordLoop.run_of_return rfl

theorem words_of_readString {s w rest : Text} (h : readString s = some (w, rest)) :
    words s = w :: words rest := by
  have hbody : wordLoop.body (s, []) = .inl (rest, [w]) := by
    simp only [wordLoop, h, List.nil_append]
  rw [words, wordLoop.run_of_continue hbody, run_wordLoop]
  rfl

/-- Words that were written with blanks in front of them are read back. -/
theorem words_flatMap : {ws : List Text} →
    (∀ w ∈ ws, w ≠ [] ∧ ∀ c ∈ w, isSpace c = false) → words (ws.flatMap (' ' :: ·)) = ws
  | [], _ => words_nil
  | w :: ws, h => by
      obtain ⟨hne, hw⟩ := h w List.mem_cons_self
      have hblank : StartsBlank (ws.flatMap (' ' :: ·)) := by
        cases ws with
        | nil => exact fun c hc => by contradiction
        | cons w' ws => exact fun c hc => by rw [← Option.some.inj hc]; rfl
      have hspace : ∀ c ∈ [' '], isSpace c = true := by simp [isSpace]
      have hread : readString ((w :: ws).flatMap (' ' :: ·)) = some (w, ws.flatMap (' ' :: ·)) :=
        readString_append hspace hw hne hblank
      rw [words_of_readString hread, words_flatMap fun w hw => h w (List.mem_cons_of_mem _ hw)]

end TextStream
