import ScalarLang.Proofs.Grammar.Rereading
import ScalarLang.Proofs.Scanning.Lines

/-!
# A semicolon separates programs

No reader takes a semicolon, and after an error reading goes on behind the offending token,
which can only be the semicolon if all tokens in front of it were taken. So the statements in
front of a semicolon do not depend on what is behind it, nor those behind it on what is in front
(`TokenStream.program_append_semicolon`). On a line of its own it also ends whatever the scanner
was at, so that the same holds of source texts (`parseProgram_append_semicolon`).
-/

namespace ScalarLang

namespace TokenStream

/-- Separators in front are passed over. -/
theorem program_congr {s s' : TokenStream} (h : s.skipped.ahead = s'.skipped.ahead)
    (hstop : s.stop = s'.stop) : s.program.1 = s'.program.1 := by
  by_cases hnil : s.skipped.ahead = []
  · rw [program_of_skipped_nil hnil, program_of_skipped_nil (h ▸ hnil)]
  · have hstatement : s.statement = s'.statement := by
      rw [statement_of_skipped_eq rfl hnil, statement_of_skipped_eq h.symm hnil, hstop]
    have hnil' : s'.skipped.ahead ≠ [] := h ▸ hnil
    rw [program_of_skipped_ne_nil hnil, program_of_skipped_ne_nil hnil', hstatement]

theorem ahead_skipped_append {front : List Lexeme} (back : List Lexeme) (stop stop' : Nat)
    (h : (mk front stop').skipped.ahead ≠ []) :
    (mk (front ++ back) stop).skipped.ahead = (mk front stop').skipped.ahead ++ back := by
  have hne : front.dropWhile Parse.isSeparator ≠ [] := h
  rw [skipped, skipped, List.dropWhile_append]
  simp [hne]

theorem ahead_skipped_append_of_nil {front : List Lexeme} (back : List Lexeme) (stop stop' : Nat)
    (h : (mk front stop').skipped.ahead = []) :
    (mk (front ++ back) stop).skipped.ahead = (mk back stop).skipped.ahead := by
  have hnil : front.dropWhile Parse.isSeparator = [] := h
  rw [skipped, skipped, List.dropWhile_append, hnil]
  rfl

/-! ### More bytes in front -/

theorem ahead_skipped_shift (offset : Nat) (s : TokenStream) :
    (s.shift offset).skipped.ahead = s.skipped.ahead.map (Lexeme.shift offset) := by
  rw [skipped, skipped, shift, List.dropWhile_map]
  rfl

theorem ofResult_shift (offset stop : Nat) (r : Reading.Result Statement) :
    ofResult (stop + offset) (r.1.map (Statement.shift offset), r.2.map (Lexeme.shift offset)) =
      ((ofResult stop r).1.shift offset, (ofResult stop r).2.shift offset) := by
  obtain ⟨_ | statement, rest⟩ := r
  · refine Prod.ext ?_ ?_
    · exact congrArg Statement.malformed <|
        (congrArg _ (current_shift offset ⟨rest, stop⟩)).trans
          (ParseError.shift_ofLexeme offset _ _).symm
    · exact advance_shift offset ⟨rest, stop⟩
  · rfl

theorem statement_shift (offset : Nat) {s : TokenStream} (h : s.skipped.ahead ≠ []) :
    (s.shift offset).statement = (s.statement.1.shift offset, s.statement.2.shift offset) := by
  have hne : (s.shift offset).skipped.ahead ≠ [] := by
    rw [ahead_skipped_shift]
    simpa using h
  have hresult := (Parse.repeats_statementHere offset s.skipped.ahead).run_map
  rw [← ahead_skipped_shift] at hresult
  rw [statement_of_skipped_eq rfl hne, statement_of_skipped_eq rfl h, hresult]
  exact ofResult_shift offset s.stop _

/-- With more bytes in front, the same statements are read further on. -/
theorem program_shift (offset : Nat) (s : TokenStream) :
    (s.shift offset).program.1 = s.program.1.map (Statement.shift offset) := by
  have hskipped := ahead_skipped_shift offset s
  by_cases hnil : s.skipped.ahead = []
  · rw [hnil] at hskipped
    rw [program_of_skipped_nil hnil, program_of_skipped_nil hskipped]
    rfl
  · have fewer := length_ahead_lt hnil
    have hne : (s.shift offset).skipped.ahead ≠ [] := by
      rw [hskipped]
      simpa using hnil
    rw [program_of_skipped_ne_nil hnil, program_of_skipped_ne_nil hne, statement_shift offset hnil,
      program_shift offset s.statement.2]
    rfl
  termination_by s.ahead.length

/-! ### Behind a semicolon -/

/-- Tokens without a semicolon in front of a list are in front of the first semicolon. -/
theorem exists_of_append_eq_semicolon {taken rest before after : List Lexeme} {semicolon : Lexeme}
    (hsemicolon : Parse.isSeparator semicolon = true)
    (htaken : ∀ lexeme ∈ taken, Parse.isSeparator lexeme = false)
    (h : taken ++ rest = before ++ semicolon :: after) :
    ∃ middle, before = taken ++ middle ∧ rest = middle ++ semicolon :: after := by
  rcases List.append_eq_append_iff.1 h with ⟨middle, hbefore, hrest⟩ | ⟨extra, htakenEq, hrest⟩
  · exact ⟨middle, hbefore, hrest⟩
  · cases extra with
    | nil =>
        refine ⟨[], ?_, hrest.symm⟩
        rw [htakenEq]
        simp
    | cons lexeme extra =>
        obtain ⟨rfl, -⟩ := List.cons.inj hrest
        have hmem : semicolon ∈ taken := by
          rw [htakenEq]
          exact List.mem_append_right _ List.mem_cons_self
        rw [htaken semicolon hmem] at hsemicolon
        cases hsemicolon

section Semicolon

variable {semicolon : Lexeme} {before : List Lexeme}

/-- What is behind a semicolon is not needed to read a statement in front of it. The next one is
read from in front of the semicolon as well, unless an error was at the semicolon. -/
theorem statement_append_semicolon (after : List Lexeme) (stop stop' : Nat)
    (hsemicolon : Parse.isSeparator semicolon = true)
    (h : (TokenStream.mk before stop').skipped.ahead ≠ []) :
    ∃ statement rest rest',
      (TokenStream.mk (before ++ semicolon :: after) stop).statement = (statement, ⟨rest, stop⟩) ∧
        (TokenStream.mk (before ++ [semicolon]) stop').statement = (statement, ⟨rest', stop'⟩) ∧
        ((∃ middle, rest = middle ++ semicolon :: after ∧ rest' = middle ++ [semicolon]) ∨
          rest = after ∧ rest' = []) := by
  have hskipped (behind : List Lexeme) (stop : Nat) := ahead_skipped_append behind stop stop' h
  generalize (TokenStream.mk before stop').skipped.ahead = first at h hskipped
  have hne (behind : List Lexeme) : first ++ behind ≠ [] := by simp [h]
  rw [statement_of_skipped_eq (hskipped _ stop) (hne _),
    statement_of_skipped_eq (hskipped _ stop') (hne _)]
  obtain ⟨taken, htokens, htaken, hrun⟩ :=
    Parse.repeats_statementHere 0 (first ++ semicolon :: after)
  obtain ⟨middle, rfl, hrest⟩ := exists_of_append_eq_semicolon hsemicolon htaken htokens.symm
  have hresult := hrun (middle ++ [semicolon]) (by rw [hrest]; cases middle <;> rfl)
  rw [Lexeme.shift_zero, List.map_id, ← List.append_assoc] at hresult
  dsimp only at hresult hrest
  rw [hresult]
  generalize (Parse.statementHere (taken ++ middle ++ semicolon :: after)).result = r at hrest ⊢
  obtain ⟨result, rest⟩ := r
  subst hrest
  cases result with
  | ok statement =>
      refine ⟨statement, _, _, rfl, ?_, .inl ⟨middle, rfl, rfl⟩⟩
      exact congrArg (Prod.mk · _) statement.shift_zero
  | error expected =>
      cases middle with
      | nil => exact ⟨_, _, _, rfl, rfl, .inr ⟨rfl, rfl⟩⟩
      | cons lexeme middle => exact ⟨_, _, _, rfl, rfl, .inl ⟨middle, rfl, rfl⟩⟩

/-- The statements in front of a semicolon, and then those behind it. -/
theorem program_append_semicolon (hsemicolon : Parse.isSeparator semicolon = true)
    (before after : List Lexeme) (stop stop' : Nat) :
    (TokenStream.mk (before ++ semicolon :: after) stop).program.1 =
      (TokenStream.mk (before ++ [semicolon]) stop').program.1 ++
        (TokenStream.mk after stop).program.1 := by
  by_cases h : (TokenStream.mk before stop').skipped.ahead = []
  · -- Only separators are in front, so there is no statement.
    have hafter : (TokenStream.mk (semicolon :: after) stop).skipped.ahead =
        (TokenStream.mk after stop).skipped.ahead := List.dropWhile_cons_of_pos hsemicolon
    have hskipped := ahead_skipped_append_of_nil (semicolon :: after) stop stop' h
    have hnil : (TokenStream.mk (before ++ [semicolon]) stop').skipped.ahead = [] :=
      (ahead_skipped_append_of_nil [semicolon] stop' stop' h).trans
        (List.dropWhile_cons_of_pos hsemicolon)
    rw [program_congr (hskipped.trans hafter) rfl, program_of_skipped_nil hnil]
    rfl
  · obtain ⟨statement, rest, rest', hstatement, hstatement', hrests⟩ :=
      statement_append_semicolon after stop stop' hsemicolon h
    have hne (behind : List Lexeme) (stop : Nat) :
        (TokenStream.mk (before ++ behind) stop).skipped.ahead ≠ [] := by
      rw [ahead_skipped_append behind stop stop' h]
      exact List.append_ne_nil_of_left_ne_nil h behind
    have fewer := length_ahead_lt (hne (semicolon :: after) stop)
    rw [program_of_skipped_ne_nil (hne _ _), program_of_skipped_ne_nil (hne _ _), hstatement,
      hstatement', List.cons_append]
    rw [hstatement] at fewer
    congr 1
    rcases hrests with ⟨middle, rfl, rfl⟩ | ⟨rfl, rfl⟩
    · exact program_append_semicolon hsemicolon middle after stop stop'
    · have hnil : (TokenStream.mk [] stop').program.1 = [] := program_of_skipped_nil rfl
      rw [hnil, List.nil_append]
  termination_by before.length
  decreasing_by simpa using fewer

end Semicolon

end TokenStream

namespace Scanner

theorem lexemes_append_semicolon (text text' : List Char) :
    lexemes (text ++ '\n' :: ';' :: '\n' :: text') =
      lexemes (text ++ ['\n']) ++
        ⟨.punctuator .semicolon, ⟨byteLength text + 1, byteLength text + 2⟩⟩ ::
          (lexemes text').map (Lexeme.shift (byteLength text + 3)) := by
  have hsemicolon : lexemes [';'] = [⟨.punctuator .semicolon, ⟨0, 1⟩⟩] := by decide +kernel
  have hbehind : lexemes (';' :: '\n' :: text') =
      lexemes [';'] ++ (lexemes text').map (Lexeme.shift (byteLength [';'] + 1)) :=
    lexemes_append_newline [';'] text'
  have hplace : Lexeme.shift (byteLength text + 1) ⟨.punctuator .semicolon, ⟨0, 1⟩⟩ =
      ⟨.punctuator .semicolon, ⟨byteLength text + 1, byteLength text + 2⟩⟩ := by
    rw [Lexeme.shift, Span.shift, Nat.zero_add, Nat.add_comm 1]
  have hshift : (Lexeme.shift (byteLength text + 1) ∘ Lexeme.shift (byteLength [';'] + 1)) =
      Lexeme.shift (byteLength text + 3) := funext fun lexeme => lexeme.shift_shift _ _
  rw [lexemes_append_newline, lexemes_newline, hbehind, hsemicolon, List.map_append, List.map_map,
    hshift, List.map_singleton, hplace, List.singleton_append]

end Scanner

theorem TokenStream.ofSource_append_semicolon (source source' : String) :
    ofSource (source ++ "\n;\n" ++ source') =
      ⟨Scanner.lexemes (source.toList ++ ['\n']) ++
        ⟨.punctuator .semicolon, ⟨source.utf8ByteSize + 1, source.utf8ByteSize + 2⟩⟩ ::
          ((ofSource source').shift (source.utf8ByteSize + 3)).ahead,
        ((ofSource source').shift (source.utf8ByteSize + 3)).stop⟩ := by
  have hlexemes := Scanner.lexemes_append_semicolon source.toList source'.toList
  rw [Scanner.byteLength_toList] at hlexemes
  have hstop : (source ++ "\n;\n" ++ source').utf8ByteSize =
      source'.utf8ByteSize + (source.utf8ByteSize + 3) := by
    rw [String.utf8ByteSize_append, String.utf8ByteSize_append, Nat.add_comm]
    rfl
  rw [ofSource, hstop, String.toList_append, String.toList_append, List.append_assoc]
  exact congrArg (TokenStream.mk · _) hlexemes

/-- A semicolon on a line of its own separates two programs, whatever their texts are. -/
theorem parseProgram_append_semicolon (source source' : String) :
    parseProgram (source ++ "\n;\n" ++ source') =
      parseProgram (source ++ "\n;\n") ++
        (parseProgram source').map (Statement.shift (source.utf8ByteSize + 3)) := by
  have hempty : (TokenStream.ofSource "").ahead = [] :=
    congrArg (Scanner.locate 0) Scanner.pieces_nil
  have hfront := TokenStream.ofSource_append_semicolon source ""
  rw [String.append_empty, TokenStream.shift, hempty, List.map_nil] at hfront
  rw [parseProgram, parseProgram, parseProgram, ← TokenStream.program_shift, hfront,
    TokenStream.ofSource_append_semicolon]
  have hsemicolon : Parse.isSeparator ⟨.punctuator .semicolon,
      ⟨source.utf8ByteSize + 1, source.utf8ByteSize + 2⟩⟩ = true := rfl
  exact TokenStream.program_append_semicolon hsemicolon _ _ _ _

end ScalarLang
