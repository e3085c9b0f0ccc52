import ScalarLang.Proofs.Grammar.Recovery
import ScalarLang.Proofs.Grammar.Prefixes

/-!
# The tokens of each statement

The statements of a source are read one behind the other, and each passes over the tokens that it
is made of (`TokenStream.exists_part`), so the places of these tokens are a range of their own, in
front of the ranges of the statements behind it. What stands between the ranges is passed over by
itself: it consists of semicolons. So every other token belongs to just one of the statements, until
they end for good (`TokenStream.existsUnique_range`).
-/

namespace ScalarLang

/-- The tokens in front of the next one are those of the statement: they are its phrase, or the
token at which it is an error is the last of them, or else it is an error at the end of input. -/
def Statement.MadeOf (statement : Statement) (part : List Lexeme) (next : Lexeme) : Prop :=
  (∃ phrase, statement.phrase? = some phrase ∧
    phrase.Written (part.map Lexeme.token) next.token) ∨
  ∃ found, statement.FailsAt found ∧
    (part.getLast? = some found ∨ found.token = .endOfInput ∧ found = next)

theorem Phrase.Written.ne_nil {w : List Token} {c : Token} {phrase : Phrase}
    (h : phrase.Written w c) : w ≠ [] := by
  cases h with
  | definition | external => exact List.cons_ne_nil _ _
  | topLevel hbody => exact hbody.ne_nil

namespace TokenStream

/-- The stream behind `n` statements. -/
def behind (s : TokenStream) (n : Nat) : TokenStream := (fun later => later.statement.2)^[n] s

/-- How many tokens are in front of those ahead of a later stream. -/
def passed (s later : TokenStream) : Nat := s.ahead.length - later.ahead.length

/-- The place of the first token of the statement behind `n` others. -/
def rangeStart (s : TokenStream) (n : Nat) : Nat := s.passed (s.behind n).skipped

/-- The place behind the last token of the statement behind `n` others. -/
def rangeStop (s : TokenStream) (n : Nat) : Nat := s.passed (s.behind (n + 1))

/-- The tokens of the statement behind `n` others. -/
def rangeTokens (s : TokenStream) (n : Nat) : List Lexeme :=
  s.toList.extract (s.rangeStart n) (s.rangeStop n)

/-- The token at the place `i` is one of the statement behind `n` others. -/
def InRange (s : TokenStream) (n i : Nat) : Prop := s.rangeStart n ≤ i ∧ i < s.rangeStop n

variable {s later after : TokenStream} {front : List Lexeme} {n m i : Nat}

theorem ahead_skipped_suffix (s : TokenStream) : s.skipped.ahead <:+ s.ahead :=
  List.dropWhile_suffix Parse.isSeparator

/-- A statement passes over the tokens that it is made of. -/
theorem exists_part (h : s.skipped.ahead ≠ []) :
    ∃ part, part ≠ [] ∧ s.skipped.ahead = part ++ s.statement.2.ahead ∧
      s.statement.1.MadeOf part s.statement.2.current := by
  obtain ⟨hnil, -⟩ | ⟨-, ⟨phrase, hphrase⟩ | ⟨error, herror⟩⟩ := s.statement_cases
  · exact absurd hnil h
  · obtain ⟨-, hgives⟩ := (s.statement_phrase_iff s.statement.2 phrase).1 ⟨hphrase, rfl⟩
    obtain ⟨part, hahead, hwritten⟩ := (Parse.gives_statementHere _ _ _).1 hgives
    rw [← token_current] at hwritten
    refine ⟨part, ?_, hahead, .inl ⟨phrase, hphrase, hwritten⟩⟩
    rintro rfl
    exact hwritten.ne_nil rfl
  · obtain ⟨taken, ⟨ahead, stop⟩, expected, hsplits, -, rfl, hbehind⟩ :=
      exists_splits_of_malformed herror
    have hahead := hsplits.ahead
    rw [hbehind]
    cases ahead with
    | nil =>
        refine ⟨taken, ?_, hahead, .inr ⟨_, ⟨expected, herror⟩, .inr ⟨rfl, rfl⟩⟩⟩
        rintro rfl
        exact h hahead
    | cons found ahead =>
        -- The token at which the error is has been passed over, too.
        have hlast : (taken ++ [found]).getLast? = some found := List.getLast?_concat
        refine ⟨taken ++ [found], List.concat_ne_nil _ _, ?_,
          .inr ⟨found, ⟨expected, herror⟩, .inl hlast⟩⟩
        rw [hahead]
        exact List.append_cons taken found ahead

/-! ### The streams behind the statements -/

@[simp] theorem behind_zero (s : TokenStream) : s.behind 0 = s := rfl

theorem behind_succ (s : TokenStream) (n : Nat) : s.behind (n + 1) = (s.behind n).statement.2 :=
  Function.iterate_succ_apply' _ n s

theorem ahead_behind_suffix (s : TokenStream) (n : Nat) : (s.behind n).ahead <:+ s.ahead := by
  induction n with
  | zero => exact List.suffix_refl _
  | succ n ih =>
      rw [behind_succ]
      exact (s.behind n).ahead_statement_suffix.trans ih

theorem stop_behind (s : TokenStream) (n : Nat) : (s.behind n).stop = s.stop := by
  induction n with
  | zero => rfl
  | succ n ih =>
      rw [behind_succ, stop_statement, ih]

/-- The statements end behind as many as the program has, and for good. -/
theorem skipped_behind_eq_nil_iff (s : TokenStream) (n : Nat) :
    (s.behind n).skipped.ahead = [] ↔ s.program.1.length ≤ n := by
  induction n generalizing s with
  | zero =>
      rw [behind_zero, Nat.le_zero, List.length_eq_zero_iff]
      refine ⟨program_of_skipped_nil, fun h => ?_⟩
      by_contra hne
      rw [program_of_skipped_ne_nil hne] at h
      cases h
  | succ n ih =>
      have hbehind : s.behind (n + 1) = s.statement.2.behind n := rfl
      rw [hbehind, ih]
      by_cases hnil : s.skipped.ahead = []
      · have hnil' : s.statement.2.skipped.ahead = [] := by rw [statement_of_skipped_nil hnil]; rfl
        simp [program_of_skipped_nil hnil, program_of_skipped_nil hnil']
      · rw [program_of_skipped_ne_nil hnil, List.length_cons, Nat.add_le_add_iff_right]

/-- The statements of a program are those behind one another. -/
theorem program_eq_map_behind (s : TokenStream) :
    s.program.1 = (List.range s.program.1.length).map fun n => (s.behind n).statement.1 := by
  by_cases hnil : s.skipped.ahead = []
  · rw [program_of_skipped_nil hnil]
    rfl
  · have fewer := length_ahead_lt hnil
    have hlater := s.statement.2.program_eq_map_behind
    rw [program_of_skipped_ne_nil hnil, List.length_cons, List.range_succ_eq_map, List.map_cons,
      List.map_map]
    exact congrArg (s.statement.1 :: ·) hlater
  termination_by s.ahead.length

/-! ### The ranges -/

theorem passed_eq_length (h : s.ahead = front ++ later.ahead) : s.passed later = front.length := by
  rw [passed, h, List.length_append, Nat.add_sub_cancel_right]

theorem passed_mono (h : after.ahead <:+ later.ahead) :
    s.passed later ≤ s.passed after :=
  Nat.sub_le_sub_left h.length_le _

/-- The token at the place of a stream is its current one. -/
theorem getElem?_passed (hlater : later.ahead <:+ s.ahead) (hstop : later.stop = s.stop) :
    s.toList[s.passed later]? = some later.current := by
  obtain ⟨front, hfront⟩ := hlater
  rw [passed_eq_length hfront.symm, toList, ← hfront, List.append_assoc,
    List.getElem?_append_right (Nat.le_refl _), Nat.sub_self, final, ← hstop]
  obtain ⟨ahead, stop⟩ := later
  cases ahead <;> rfl

/-- The tokens that are passed over in front of a statement are semicolons. -/
theorem token_of_lt_passed_skipped (hlater : later.ahead <:+ s.ahead) (hle : s.passed later ≤ i)
    (hlt : i < s.passed later.skipped) :
    ∃ lexeme, s.toList[i]? = some lexeme ∧ lexeme.token = .punctuator .semicolon := by
  obtain ⟨front, hfront⟩ := hlater
  have hskipped : later.ahead = later.ahead.takeWhile Parse.isSeparator ++ later.skipped.ahead :=
    List.takeWhile_append_dropWhile.symm
  have hahead : s.ahead =
      front ++ later.ahead.takeWhile Parse.isSeparator ++ later.skipped.ahead := by
    rw [List.append_assoc, ← hskipped, hfront]
  rw [passed_eq_length hfront.symm] at hle
  rw [passed_eq_length hahead, List.length_append] at hlt
  have hplace : i - front.length < (later.ahead.takeWhile Parse.isSeparator).length := by omega
  have hseparator := List.mem_takeWhile_imp (List.getElem_mem hplace)
  refine ⟨_, ?_, eq_of_beq hseparator⟩
  rw [toList, hahead, List.append_assoc, List.append_assoc, List.getElem?_append_right hle,
    List.getElem?_append_left hplace, List.getElem?_eq_getElem hplace]

theorem passed_behind_le_rangeStart (s : TokenStream) (n : Nat) :
    s.passed (s.behind n) ≤ s.rangeStart n :=
  passed_mono (s.behind n).ahead_skipped_suffix

theorem monotone_passed_behind (s : TokenStream) : Monotone fun n => s.passed (s.behind n) := by
  refine monotone_nat_of_le_succ fun n => passed_mono ?_
  rw [behind_succ]
  exact (s.behind n).ahead_statement_suffix

/-- A statement behind another one has its tokens behind those of the other one. -/
theorem rangeStop_le_rangeStart (s : TokenStream) (h : m < n) : s.rangeStop m ≤ s.rangeStart n :=
  (s.monotone_passed_behind h).trans (s.passed_behind_le_rangeStart n)

theorem InRange.eq (h : s.InRange m i) (h' : s.InRange n i) : m = n := by
  by_contra hne
  rcases Nat.lt_or_gt_of_ne hne with hlt | hlt
  · exact absurd (Nat.lt_of_lt_of_le h.2 (s.rangeStop_le_rangeStart hlt)) (Nat.not_lt.2 h'.1)
  · exact absurd (Nat.lt_of_lt_of_le h'.2 (s.rangeStop_le_rangeStart hlt)) (Nat.not_lt.2 h.1)

/-- In front of a statement each token is in the range of a statement or a semicolon. -/
theorem exists_inRange_of_lt_rangeStart (hlt : i < s.rangeStart n) :
    (∃ m < n, s.InRange m i) ∨
      ∃ lexeme, s.toList[i]? = some lexeme ∧ lexeme.token = .punctuator .semicolon := by
  have hgap (n : Nat) (hle : s.passed (s.behind n) ≤ i) (hlt : i < s.rangeStart n) :=
    token_of_lt_passed_skipped (s.ahead_behind_suffix n) hle hlt
  induction n with
  | zero =>
      have hzero : s.passed (s.behind 0) = 0 := Nat.sub_self _
      exact .inr (hgap 0 (hzero.trans_le (Nat.zero_le i)) hlt)
  | succ n ih =>
      -- The place is in front of the statement in front of this one, in its range, or behind it.
      by_cases hbefore : i < s.rangeStart n
      · exact (ih hbefore).imp_left fun ⟨m, hm, hrange⟩ => ⟨m, Nat.lt_succ_of_lt hm, hrange⟩
      by_cases hrange : i < s.rangeStop n
      · exact .inl ⟨n, Nat.lt_succ_self n, Nat.not_lt.1 hbefore, hrange⟩
      · exact .inr (hgap (n + 1) (Nat.not_lt.1 hrange) hlt)

/-- A statement that is not the end of input is made of the tokens in its range. -/
theorem exists_append_rangeTokens (h : (s.behind n).skipped.ahead ≠ []) :
    ∃ front, s.ahead = front ++ s.rangeTokens n ++ (s.behind (n + 1)).ahead ∧
      s.rangeStart n < s.rangeStop n ∧
      (s.behind n).statement.1.MadeOf (s.rangeTokens n) (s.behind (n + 1)).current := by
  obtain ⟨part, hne, hpart, hmade⟩ := exists_part h
  rw [← behind_succ] at hpart hmade
  obtain ⟨front, hfront⟩ := (s.behind n).ahead_skipped_suffix.trans (s.ahead_behind_suffix n)
  have hahead : s.ahead = front ++ part ++ (s.behind (n + 1)).ahead := by
    rw [List.append_assoc, ← hpart, hfront]
  have hstart : s.rangeStart n = front.length := passed_eq_length hfront.symm
  have hstop : s.rangeStop n = front.length + part.length := by
    rw [← List.length_append]
    exact passed_eq_length hahead
  obtain rfl : s.rangeTokens n = part := by
    rw [rangeTokens, hstart, hstop, toList, hahead]
    simp [List.extract_eq_take_drop]
  refine ⟨front, hahead, ?_, hmade⟩
  rw [hstart, hstop]
  exact Nat.lt_add_of_pos_right (List.length_pos_of_ne_nil hne)

/-- Where the statements end, the tokens in none of their ranges are semicolons and the end of
input. -/
theorem token_of_forall_not_inRange (hn : (s.behind n).skipped.ahead = [])
    (hout : ∀ m < n, ¬ s.InRange m i) {lexeme : Lexeme} (hlexeme : s.toList[i]? = some lexeme) :
    lexeme.token = .punctuator .semicolon ∨ lexeme.token = .endOfInput := by
  have hstart : s.rangeStart n = s.ahead.length := by
    rw [rangeStart, passed, hn, List.length_nil, Nat.sub_zero]
  rcases Nat.lt_or_ge i s.ahead.length with hlt | hge
  · obtain ⟨m, hm, hrange⟩ | ⟨lexeme', hlexeme', htoken⟩ :=
      exists_inRange_of_lt_rangeStart (hstart ▸ hlt)
    · exact absurd hrange (hout m hm)
    · obtain rfl := Option.some.inj (hlexeme'.symm.trans hlexeme)
      exact .inl htoken
  · rw [toList, List.getElem?_append_right hge] at hlexeme
    obtain rfl := List.mem_singleton.1 (List.mem_of_getElem? hlexeme)
    exact .inr rfl

/-- The statements of a source end for good, and their tokens are ranges of it, one behind the
other. Each token is in just one of the ranges, but for the end of input and the semicolons between
the ranges. -/
theorem existsUnique_range (source : String) :
    parseProgram source = (List.range (parseProgram source).length).map
        (fun n => ((ofSource source).behind n).statement.1) ∧
      let s := ofSource source
      let count := (parseProgram source).length
      (∀ n, (s.behind n).statement.1 = .endOfInput ↔ count ≤ n) ∧
      (∀ n < count, s.rangeStart n < s.rangeStop n ∧ s.rangeStop n ≤ s.rangeStart (n + 1) ∧
        (∀ lexeme ∈ s.rangeTokens n, lexeme.token ≠ .endOfInput) ∧
        ∃ next, (tokenize source)[s.rangeStop n]? = some next ∧
          (s.behind n).statement.1.MadeOf (s.rangeTokens n) next) ∧
      ∀ i lexeme, (tokenize source)[i]? = some lexeme →
        (∃! n, n < count ∧ s.InRange n i) ∨ (∀ n < count, ¬ s.InRange n i) ∧
          (lexeme.token = .punctuator .semicolon ∨ lexeme.token = .endOfInput) := by
  refine ⟨(ofSource source).program_eq_map_behind, ?_⟩
  intro s count
  have hnil_iff (n : Nat) : (s.behind n).skipped.ahead = [] ↔ count ≤ n :=
    s.skipped_behind_eq_nil_iff n
  refine ⟨fun n => ?_, fun n hn => ?_, fun i lexeme hlexeme => ?_⟩
  · rw [statement_eq_endOfInput_iff, hnil_iff]
  · have hne : (s.behind n).skipped.ahead ≠ [] := fun h => Nat.not_le.2 hn ((hnil_iff n).1 h)
    obtain ⟨front, hahead, hlt, hmade⟩ := exists_append_rangeTokens hne
    refine ⟨hlt, s.passed_behind_le_rangeStart (n + 1), fun x hx => ?_, _,
      getElem?_passed (s.ahead_behind_suffix (n + 1)) (s.stop_behind (n + 1)), hmade⟩
    refine token_ne_endOfInput source x ?_
    rw [hahead]
    exact List.mem_append_left _ (List.mem_append_right front hx)
  · by_cases hrange : ∃ n < count, s.InRange n i
    · obtain ⟨n, hn, hrange⟩ := hrange
      exact .inl ⟨n, ⟨hn, hrange⟩, fun m hm => hm.2.eq hrange⟩
    · have hout : ∀ n < count, ¬ s.InRange n i := fun n hn h => hrange ⟨n, hn, h⟩
      have hnil := (hnil_iff count).2 (Nat.le_refl _)
      exact .inr ⟨hout, token_of_forall_not_inRange hnil hout hlexeme⟩

end TokenStream

end ScalarLang
