import ScalarLang.Proofs.Grammar.Pieces

/-!
# Tokens as longest matches

What stands in a text is said here without the scanner. `Scanner.Munch` gives the texts of each
token with what may follow them: a word or a numeral goes on as far as it can, and every other
token is one character. `Scanner.Layout` is what may stand between tokens. The first piece of a
text is layout or a token in this sense (`Scanner.head_split`), and the scanner finds whatever
token matches (`Scanner.split_of_munch`).
-/

namespace ScalarLang

namespace Decimal

/-- The value that digits with at most one point among them spell. -/
inductive Denotes : List Char → Float → Prop
  | whole {digits : List Char} : (∀ c ∈ digits, c.isDigit = true) →
      Denotes digits (Float.ofScientific (Nat.ofDigitChars 10 digits 0) true 0)
  | fraction {digits fraction : List Char} : (∀ c ∈ digits ++ fraction, c.isDigit = true) →
      Denotes (digits ++ '.' :: fraction)
        (Float.ofScientific (Nat.ofDigitChars 10 (digits ++ fraction) 0) true fraction.length)

theorem not_mem_of_isDigit {digits : List Char} (h : ∀ c ∈ digits, c.isDigit = true) :
    '.' ∉ digits := fun hmem => nomatch h '.' hmem

theorem numeral?_of_denotes {text : List Char} {value : Float} (h : Denotes text value) :
    numeral? text = some value := by
  cases h with
  | whole hdigits =>
      have hpoint := not_mem_of_isDigit hdigits
      have hfilter : text.filter Char.isDigit = text := List.filter_eq_self.2 hdigits
      have hdrop : text.dropWhile (· != '.') = [] := by
        rw [List.dropWhile_eq_nil_iff]
        intro c hc
        simpa using fun heq : c = '.' => hpoint (heq ▸ hc)
      rw [numeral?, List.count_eq_zero.2 hpoint, if_pos (Nat.zero_le 1), digitsValue, hfilter,
        fractionLength, hdrop]
      rfl
  | @fraction digits fraction hdigits =>
      obtain ⟨hwhole, hfraction⟩ := List.forall_mem_append.1 hdigits
      have hpoint := not_mem_of_isDigit hwhole
      have hfilter : (digits ++ '.' :: fraction).filter Char.isDigit = digits ++ fraction := by
        rw [List.filter_append, List.filter_cons_of_neg (by decide), List.filter_eq_self.2 hwhole,
          List.filter_eq_self.2 hfraction]
      have hdrop : (digits ++ '.' :: fraction).dropWhile (· != '.') = '.' :: fraction := by
        rw [List.dropWhile_append_of_pos, List.dropWhile_cons_of_neg (by decide)]
        intro c hc
        simpa using fun heq : c = '.' => hpoint (heq ▸ hc)
      have hcount : (digits ++ '.' :: fraction).count '.' = 1 := by
        rw [List.count_append, List.count_cons_self, List.count_eq_zero.2 hpoint,
          List.count_eq_zero.2 (not_mem_of_isDigit hfraction)]
      rw [numeral?, hcount, if_pos (Nat.le_refl 1), digitsValue, hfilter, fractionLength, hdrop]
      rfl

theorem isDigit_of_isNumeralChar {text : List Char} (h : ∀ c ∈ text, isNumeralChar c = true)
    (hpoint : '.' ∉ text) : ∀ c ∈ text, c.isDigit = true := by
  intro c hc
  have hclass := h c hc
  rw [isNumeralChar, Bool.or_eq_true, beq_iff_eq] at hclass
  exact hclass.resolve_right fun heq => hpoint (heq ▸ hc)

/-- Digits with at most one point spell a value. -/
theorem exists_denotes {text : List Char} (h : ∀ c ∈ text, isNumeralChar c = true)
    (hcount : text.count '.' ≤ 1) : ∃ value, Denotes text value := by
  by_cases hpoint : '.' ∈ text
  · obtain ⟨digits, fraction, rfl⟩ := List.append_of_mem hpoint
    obtain ⟨hwhole, hrest⟩ := List.forall_mem_append.1 h
    have hfraction := (List.forall_mem_cons.1 hrest).2
    rw [List.count_append, List.count_cons_self] at hcount
    have hdigits := isDigit_of_isNumeralChar hwhole (List.count_eq_zero.1 (by omega))
    have hdigits' := isDigit_of_isNumeralChar hfraction (List.count_eq_zero.1 (by omega))
    exact ⟨_, .fraction (List.forall_mem_append.2 ⟨hdigits, hdigits'⟩)⟩
  · exact ⟨_, .whole (isDigit_of_isNumeralChar h hpoint)⟩

end Decimal

namespace Scanner

/-- The text starts with a character of one class, goes on with characters of another, and ends
where these end. -/
structure Run (first next : Char → Bool) (text after : List Char) : Prop where
  run : ∃ c body, text = c :: body ∧ first c = true ∧ ∀ x ∈ body, next x = true
  maximal : ∀ x ∈ after.head?, next x = false

/-- The character starts blanks, a comment, a word, a numeral or a punctuator. -/
def Starts (c : Char) : Prop :=
  isBlank c = true ∨ c = '#' ∨ c.isAlpha = true ∨ c.isDigit = true ∨ ∃ p : Punctuator, p.char = c

/-- The longest match of a token at the start of a text, and the text behind it. -/
inductive Munch : Token → List Char → List Char → Prop
  | keyword {k : Keyword} {text after : List Char} : Run Char.isAlpha isWordChar text after →
      k.text = String.ofList text → Munch (.keyword k) text after
  | identifier {text after : List Char} : Run Char.isAlpha isWordChar text after →
      (∀ k : Keyword, k.text ≠ String.ofList text) →
      Munch (.identifier (String.ofList text)) text after
  | number {text after : List Char} {value : Float} :
      Run Char.isDigit Decimal.isNumeralChar text after → Decimal.Denotes text value →
      Munch (.number value) text after
  | malformed {text after : List Char} : Run Char.isDigit Decimal.isNumeralChar text after →
      2 ≤ text.count '.' → Munch (.unknown (String.ofList text)) text after
  | punctuator (p : Punctuator) (after : List Char) : Munch (.punctuator p) [p.char] after
  | stray {c : Char} {after : List Char} : ¬ Starts c →
      Munch (.unknown (String.singleton c)) [c] after

/-- Blanks and comments, where the line end that closes a comment belongs to it. -/
inductive Layout : List Char → Prop
  | nil : Layout []
  | blank {c : Char} {rest : List Char} : isBlank c = true → Layout rest → Layout (c :: rest)
  | comment {body : List Char} {terminator : Char} {rest : List Char} :
      (∀ c ∈ body, isLineEnd c = false) → isLineEnd terminator = true → Layout rest →
      Layout ('#' :: (body ++ terminator :: rest))

/-- Layout at the end of a text, where a last comment may be open. -/
inductive Trailer : List Char → Prop
  | layout {gap : List Char} : Layout gap → Trailer gap
  | comment {gap body : List Char} : Layout gap → (∀ c ∈ body, isLineEnd c = false) →
      Trailer (gap ++ '#' :: body)

theorem Layout.append {gap gap' : List Char} (h : Layout gap) (h' : Layout gap') :
    Layout (gap ++ gap') := by
  induction h with
  | nil => exact h'
  | blank hc hrest ih => exact .blank hc ih
  | comment hbody hterminator hrest ih =>
      rw [List.cons_append, List.append_assoc, List.cons_append]
      exact .comment hbody hterminator ih

theorem Layout.append_trailer {gap gap' : List Char} (h : Layout gap) (h' : Trailer gap') :
    Trailer (gap ++ gap') := by
  cases h' with
  | layout h' => exact .layout (h.append h')
  | comment h' hbody =>
      rw [← List.append_assoc]
      exact .comment (h.append h') hbody

/-! ### Classes of characters -/

/-- A character that a word or a numeral can go on with. -/
def goesOn (c : Char) : Bool := isWordChar c || Decimal.isNumeralChar c

theorem goesOn_of_isBlank {c : Char} (h : isBlank c = true) : goesOn c = false := by
  simp only [isBlank, Bool.or_eq_true, beq_iff_eq] at h
  rcases h with ((((rfl | rfl) | rfl) | rfl) | rfl) | rfl <;> decide

theorem goesOn_char (p : Punctuator) : goesOn p.char = false := by cases p <;> decide

theorem goesOn_hash : goesOn '#' = false := by decide

theorem goesOn_of_isAlpha {c : Char} (h : c.isAlpha = true) : goesOn c = true := by
  simp [goesOn, isWordChar, Char.isAlphanum, h]

theorem goesOn_of_isDigit {c : Char} (h : c.isDigit = true) : goesOn c = true := by
  simp [goesOn, isWordChar, Char.isAlphanum, h]

/-- Digits come before letters. -/
theorem isAlpha_of_isDigit {c : Char} (h : c.isDigit = true) : c.isAlpha = false := by
  have hdigit : c.toNat ≤ 57 := (Char.isDigit_iff_toNat.1 h).2
  refine Bool.eq_false_iff.2 fun halpha => ?_
  rcases Bool.or_eq_true_iff.1 halpha with hupper | hlower
  · have hletter : 65 ≤ c.toNat := (of_decide_eq_true hupper).1
    omega
  · have hletter : 97 ≤ c.toNat := of_decide_eq_true (Bool.and_eq_true_iff.1 hlower).1
    omega

/-- What goes on with a token is neither blank nor the mark of a comment. -/
theorem not_blank_of_goesOn {c : Char} (h : goesOn c = true) : isBlank c = false ∧ c ≠ '#' := by
  refine ⟨Bool.eq_false_iff.2 fun hblank => ?_, fun hhash => ?_⟩
  · rw [goesOn_of_isBlank hblank] at h
    cases h
  · rw [hhash, goesOn_hash] at h
    cases h

/-! ### The first piece -/

section Split

variable {c : Char} {body after : List Char}

theorem split_blank (hc : isBlank c = true) (rest : List Char) :
    split c rest = (⟨none, c :: rest.takeWhile isBlank⟩, rest.dropWhile isBlank) := by
  rw [split, if_pos hc]

theorem split_comment (rest : List Char) :
    split '#' rest = (⟨none, '#' :: (commentTail rest).1⟩, (commentTail rest).2) := by
  rw [split, if_neg (by decide), if_pos (beq_self_eq_true '#')]

theorem split_word (hc : c.isAlpha = true) (hbody : ∀ x ∈ body, isWordChar x = true)
    (hafter : ∀ x ∈ after.head?, isWordChar x = false) :
    split c (body ++ after) = (⟨some (wordToken (c :: body)), c :: body⟩, after) := by
  obtain ⟨hblank, hhash⟩ := not_blank_of_goesOn (goesOn_of_isAlpha hc)
  obtain ⟨htake, hdrop⟩ := takeWhile_dropWhile_append after hbody hafter
  simp only [split, hblank, hhash, hc, htake, hdrop, beq_iff_eq, Bool.false_eq_true, if_false,
    if_true]

theorem split_numeral (hc : c.isDigit = true) (hbody : ∀ x ∈ body, Decimal.isNumeralChar x = true)
    (hafter : ∀ x ∈ after.head?, Decimal.isNumeralChar x = false) :
    split c (body ++ after) = (⟨some (numeralToken (c :: body)), c :: body⟩, after) := by
  obtain ⟨hblank, hhash⟩ := not_blank_of_goesOn (goesOn_of_isDigit hc)
  obtain ⟨htake, hdrop⟩ := takeWhile_dropWhile_append after hbody hafter
  simp only [split, hblank, hhash, hc, isAlpha_of_isDigit hc, htake, hdrop, beq_iff_eq,
    Bool.false_eq_true, if_false, if_true]

theorem split_punctuator (p : Punctuator) (rest : List Char) :
    split p.char rest = (⟨some (.punctuator p), [p.char]⟩, rest) := by
  cases p <;> rfl

theorem split_stray (hc : ¬ Starts c) (rest : List Char) :
    split c rest = (⟨some (.unknown (String.singleton c)), [c]⟩, rest) := by
  simp only [Starts, not_or, Bool.not_eq_true, not_exists] at hc
  obtain ⟨hblank, hhash, halpha, hdigit, hpunctuator⟩ := hc
  have hnone : Punctuator.ofChar? c = none := by
    rw [Punctuator.ofChar?, List.find?_eq_none]
    intro p _
    simpa using hpunctuator p
  simp only [split, hblank, hhash, halpha, hdigit, hnone, beq_iff_eq, Bool.false_eq_true, if_false]

end Split

theorem wordToken_eq_keyword {text : List Char} {k : Keyword} (h : k.text = String.ofList text) :
    wordToken text = .keyword k := by
  simp only [wordToken, ← h, Keyword.ofText?_text]

theorem wordToken_eq_identifier {text : List Char}
    (h : ∀ k : Keyword, k.text ≠ String.ofList text) :
    wordToken text = .identifier (String.ofList text) := by
  have hnone : Keyword.ofText? (String.ofList text) = none := by
    rw [Keyword.ofText?, List.find?_eq_none]
    intro k _
    simpa using h k
  simp only [wordToken, hnone]

theorem munch_wordToken {text after : List Char} (h : Run Char.isAlpha isWordChar text after) :
    Munch (wordToken text) text after := by
  by_cases hkeyword : ∃ k : Keyword, k.text = String.ofList text
  · obtain ⟨k, hk⟩ := hkeyword
    rw [wordToken_eq_keyword hk]
    exact .keyword h hk
  · rw [not_exists] at hkeyword
    rw [wordToken_eq_identifier hkeyword]
    exact .identifier h hkeyword

theorem Run.forall_isNumeralChar {text after : List Char}
    (h : Run Char.isDigit Decimal.isNumeralChar text after) :
    ∀ x ∈ text, Decimal.isNumeralChar x = true := by
  obtain ⟨c, body, rfl, hc, hbody⟩ := h.run
  exact List.forall_mem_cons.2 ⟨by rw [Decimal.isNumeralChar, hc, Bool.true_or], hbody⟩

theorem numeralToken_eq_number {text : List Char} {value : Float} (h : Decimal.Denotes text value) :
    numeralToken text = .number value := by
  simp only [numeralToken, Decimal.numeral?_of_denotes h]

theorem numeralToken_eq_unknown {text : List Char} (h : 2 ≤ text.count '.') :
    numeralToken text = .unknown (String.ofList text) := by
  rw [numeralToken, Decimal.numeral?, if_neg (by omega)]

theorem munch_numeralToken {text after : List Char}
    (h : Run Char.isDigit Decimal.isNumeralChar text after) :
    Munch (numeralToken text) text after := by
  by_cases hcount : text.count '.' ≤ 1
  · obtain ⟨value, hvalue⟩ := Decimal.exists_denotes h.forall_isNumeralChar hcount
    rw [numeralToken_eq_number hvalue]
    exact .number h hvalue
  · have hpoints : 2 ≤ text.count '.' := by omega
    rw [numeralToken_eq_unknown hpoints]
    exact .malformed h hpoints

/-- The scanner finds the longest match. -/
theorem split_of_munch {token : Token} {text after : List Char} (h : Munch token text after) :
    ∃ c body, text = c :: body ∧ split c (body ++ after) = (⟨some token, text⟩, after) := by
  cases h with
  | keyword hrun hk =>
      obtain ⟨c, body, rfl, hc, hbody⟩ := hrun.run
      refine ⟨c, body, rfl, ?_⟩
      rw [split_word hc hbody hrun.maximal, wordToken_eq_keyword hk]
  | identifier hrun hne =>
      obtain ⟨c, body, rfl, hc, hbody⟩ := hrun.run
      refine ⟨c, body, rfl, ?_⟩
      rw [split_word hc hbody hrun.maximal, wordToken_eq_identifier hne]
  | number hrun hvalue =>
      obtain ⟨c, body, rfl, hc, hbody⟩ := hrun.run
      refine ⟨c, body, rfl, ?_⟩
      rw [split_numeral hc hbody hrun.maximal, numeralToken_eq_number hvalue]
  | malformed hrun hpoints =>
      obtain ⟨c, body, rfl, hc, hbody⟩ := hrun.run
      refine ⟨c, body, rfl, ?_⟩
      rw [split_numeral hc hbody hrun.maximal, numeralToken_eq_unknown hpoints]
  | punctuator p => exact ⟨p.char, [], rfl, split_punctuator p after⟩
  | @stray c _ hc => exact ⟨c, [], rfl, split_stray hc after⟩

/-- What the first piece of a text can be, and the text behind it. Only an open comment takes all
of it. -/
inductive Head : Piece → List Char → Prop
  | layout {gap after : List Char} : Layout gap → Head ⟨none, gap⟩ after
  | trailer {gap : List Char} : Trailer gap → Head ⟨none, gap⟩ []
  | token {token : Token} {text after : List Char} : Munch token text after →
      Head ⟨some token, text⟩ after

theorem layout_of_forall_isBlank {gap : List Char} (h : ∀ c ∈ gap, isBlank c = true) :
    Layout gap := by
  induction gap with
  | nil => exact .nil
  | cons c gap ih =>
      obtain ⟨hc, hgap⟩ := List.forall_mem_cons.1 h
      exact .blank hc (ih hgap)

theorem head_commentTail (rest : List Char) :
    Head ⟨none, '#' :: (commentTail rest).1⟩ (commentTail rest).2 := by
  obtain ⟨body, hbody, htail | ⟨terminator, after, hterminator, htail⟩⟩ := commentTail_cases rest
  · rw [htail]
    exact .trailer (.comment .nil hbody)
  · rw [htail]
    exact .layout (.comment hbody hterminator .nil)

theorem run_takeWhile {first next : Char → Bool} {c : Char} (hc : first c = true)
    (rest : List Char) :
    Run first next (c :: rest.takeWhile next) (rest.dropWhile next) :=
  ⟨⟨c, _, rfl, hc, fun _ hx => List.mem_takeWhile_imp hx⟩, forall_head?_dropWhile next rest⟩

/-- What the scanner finds at the head of a text is layout or a longest match. -/
theorem head_split (c : Char) (rest : List Char) : Head (split c rest).1 (split c rest).2 := by
  by_cases hblank : isBlank c = true
  · rw [split_blank hblank]
    refine .layout (.blank hblank (layout_of_forall_isBlank fun x hx => ?_))
    exact List.mem_takeWhile_imp hx
  by_cases hhash : c = '#'
  · rw [hhash, split_comment]
    exact head_commentTail rest
  by_cases halpha : c.isAlpha = true
  · have hrun : Run Char.isAlpha isWordChar _ _ := run_takeWhile halpha rest
    rw [← List.takeWhile_append_dropWhile (p := isWordChar) (l := rest),
      split_word halpha (fun _ hx => List.mem_takeWhile_imp hx) hrun.maximal]
    exact .token (munch_wordToken hrun)
  by_cases hdigit : c.isDigit = true
  · have hrun : Run Char.isDigit Decimal.isNumeralChar _ _ := run_takeWhile hdigit rest
    rw [← List.takeWhile_append_dropWhile (p := Decimal.isNumeralChar) (l := rest),
      split_numeral hdigit (fun _ hx => List.mem_takeWhile_imp hx) hrun.maximal]
    exact .token (munch_numeralToken hrun)
  by_cases hpunctuator : ∃ p : Punctuator, p.char = c
  · obtain ⟨p, rfl⟩ := hpunctuator
    rw [split_punctuator]
    exact .token (.punctuator p rest)
  · have hstray : ¬ Starts c := by simp [Starts, hblank, hhash, halpha, hdigit, hpunctuator]
    rw [split_stray hstray]
    exact .token (.stray hstray)

end Scanner

end ScalarLang
