import ScalarLang.CommandLine.Transcript
import ScalarLang.Proofs.Grammar.Semicolon
import ScalarLang.Proofs.Session.Diagnostics
import ScalarLang.Proofs.Session.Shift

/-!
# Running a text line by line

A line whose last token is a semicolon is read by itself as in front of what follows it
(`TokenStream.program_append_terminated`), and no token goes on across a line break. So a
session that runs such lines one after the other answers as one that runs the whole text, but
for the places of diagnostics, which are as much further on as the line is
(`Session.Realizes.runLines_eq`), and what is printed is the same (`Session.runLines_eq_runSource`).
The program takes the diagnostics after each failure, so it is left with none of them
(`CommandLine.sourceChunks_ofSession`, `Session.consoleChunks_ofSession`).
-/

namespace ScalarLang

/-! ### Lines of an input -/

namespace CommandLine

/-- A text that is not empty is its first line, which only the last line need not end with a line
break, and the lines behind it. -/
theorem exists_inputLines_eq {text : List Char} (h : text ≠ []) :
    ∃ line rest, text = line ++ rest ∧ inputLines text = line :: inputLines rest ∧ line ≠ [] ∧
      (rest = [] ∨ ∃ body, line = body ++ ['\n']) := by
  induction text with
  | nil => exact absurd rfl h
  | cons c text ih =>
      by_cases hc : c = '\n'
      · rw [inputLines, if_pos hc, hc]
        exact ⟨['\n'], text, rfl, rfl, List.cons_ne_nil _ _, .inr ⟨[], rfl⟩⟩
      · rw [inputLines, if_neg hc]
        by_cases hnil : text = []
        · rw [hnil]
          exact ⟨[c], [], rfl, rfl, List.cons_ne_nil _ _, .inl rfl⟩
        · obtain ⟨line, rest, rfl, hlines, -, hend⟩ := ih hnil
          rw [hlines]
          refine ⟨c :: line, rest, rfl, rfl, List.cons_ne_nil _ _, hend.imp_right ?_⟩
          rintro ⟨body, rfl⟩
          exact ⟨c :: body, rfl⟩

/-- Only the end of an input reads as the empty line. -/
theorem ne_nil_of_mem_inputLines {text line : List Char} (h : line ∈ inputLines text) :
    line ≠ [] := by
  by_cases hnil : text = []
  · rw [hnil] at h
    cases h
  · obtain ⟨first, rest, rfl, hlines, hne, -⟩ := exists_inputLines_eq hnil
    rw [hlines] at h
    have fewer : rest.length < (first ++ rest).length := by
      rw [List.length_append]
      exact Nat.lt_add_of_pos_left (List.length_pos_iff.2 hne)
    obtain rfl | hrest := List.mem_cons.1 h
    · exact hne
    · exact ne_nil_of_mem_inputLines hrest
  termination_by text.length

theorem stdout_append (first later : List Chunk) :
    stdout (first ++ later) = stdout first ++ stdout later := by
  rw [stdout, stdout, stdout, List.map_append, String.join_append]

end CommandLine

namespace Scanner

/-- The last token of the text is a semicolon, if there is a token. -/
def Terminated (text : List Char) : Prop :=
  ∀ last ∈ (lexemes text).getLast?, last.token = .punctuator .semicolon

/-- The tokens of a line, and then those behind it. -/
theorem lexemes_append_line {line rest : List Char}
    (h : rest = [] ∨ ∃ body, line = body ++ ['\n']) :
    lexemes (line ++ rest) =
      lexemes line ++ (lexemes rest).map (Lexeme.shift (byteLength line)) := by
  rcases h with rfl | ⟨body, rfl⟩
  · have hnone : lexemes [] = [] := congrArg (locate 0) pieces_nil
    rw [hnone, List.append_nil]
    exact (List.append_nil _).symm
  · rw [List.append_assoc, List.singleton_append, lexemes_append_newline, lexemes_newline,
      byteLength_newline]

end Scanner

/-- What is behind tokens that end with a semicolon makes no difference to their program. -/
theorem TokenStream.program_append_terminated {front : List Lexeme}
    (h : ∀ last ∈ front.getLast?, last.token = .punctuator .semicolon) (back : List Lexeme)
    (stop stop' : Nat) :
    (TokenStream.mk (front ++ back) stop).program.1 =
      (TokenStream.mk front stop').program.1 ++ (TokenStream.mk back stop).program.1 := by
  rcases List.eq_nil_or_concat front with rfl | ⟨before, semicolon, rfl⟩
  · rw [program_of_skipped_nil (s := ⟨[], stop'⟩) rfl]
    rfl
  · rw [List.concat_eq_append] at h ⊢
    have hsemicolon : Parse.isSeparator semicolon = true := by
      rw [Parse.isSeparator, h semicolon (List.getLast?_concat ..)]
      rfl
    rw [List.append_assoc, List.singleton_append]
    exact program_append_semicolon hsemicolon before back stop stop'

theorem utf8ByteSize_ofList (text : List Char) :
    (String.ofList text).utf8ByteSize = Scanner.byteLength text := by
  rw [← Scanner.byteLength_toList, String.toList_ofList]

/-- The program of a text is that of its first line, and then that of what is behind it. -/
theorem TokenStream.program_append_line {line rest : List Char} (hline : Scanner.Terminated line)
    (hend : rest = [] ∨ ∃ body, line = body ++ ['\n']) (offset stop : Nat) :
    (TokenStream.mk ((Scanner.lexemes (line ++ rest)).map (Lexeme.shift offset)) stop).program.1 =
      (parseProgram (String.ofList line)).map (Statement.shift offset) ++
        (TokenStream.mk ((Scanner.lexemes rest).map
          (Lexeme.shift (offset + Scanner.byteLength line))) stop).program.1 := by
  have hterminated : ∀ last ∈ ((Scanner.lexemes line).map (Lexeme.shift offset)).getLast?,
      last.token = .punctuator .semicolon := by
    intro last hlast
    rw [List.getLast?_map] at hlast
    obtain ⟨last', hlast', rfl⟩ := Option.map_eq_some_iff.1 hlast
    exact hline last' hlast'
  have hfront : (TokenStream.mk ((Scanner.lexemes line).map (Lexeme.shift offset))
        (Scanner.byteLength line + offset)).program.1 =
      (parseProgram (String.ofList line)).map (Statement.shift offset) := by
    rw [parseProgram, ← program_shift, ofSource, String.toList_ofList, utf8ByteSize_ofList]
    rfl
  have hback : ((Scanner.lexemes rest).map (Lexeme.shift (Scanner.byteLength line))).map
        (Lexeme.shift offset) =
      (Scanner.lexemes rest).map (Lexeme.shift (offset + Scanner.byteLength line)) := by
    rw [List.map_map]
    exact List.map_congr_left fun lexeme _ => lexeme.shift_shift _ _
  rw [Scanner.lexemes_append_line hend, List.map_append, hback,
    program_append_terminated hterminated _ stop (Scanner.byteLength line + offset), hfront]

/-! ### Line by line -/

/-- What a statement writes to standard output: its listing and its outcome. -/
def Answer.printed (a : Answer) : String :=
  (a.outcome.listing?.elim "" (· ++ "\n")) ++
    if a.outcome.isFailed then "" else a.outcome.text ++ "\n"

namespace CommandLine

/-- An interpreter without diagnostics prints the answer of its session, and is without diagnostics
again: those of a failure are taken, and a success has none. -/
theorem statementChunks_ofSession (s : Session) (file source : String) (statement : Statement) :
    stdout (statementChunks (.ofSession s) file source statement).1 =
        (s.handle statement).1.printed ∧
      (statementChunks (.ofSession s) file source statement).2 =
        .ofSession (s.handle statement).2 := by
  have hopening : stdout (openingChunks (s.handle statement).1.response) =
      (s.handle statement).1.outcome.listing?.elim "" (· ++ "\n") := by
    rw [openingChunks, Answer.response, stdout]
    cases (s.handle statement).1.outcome.listing? <;> simp [String.join_cons]
  have hfailed : (s.handle statement).1.response.outcome.isFailed =
    (s.handle statement).1.outcome.isFailed := rfl
  rw [statementChunks, Interpreter.handle, Interpreter.ofSession]
  dsimp only
  rw [hfailed, Answer.printed, ← hopening]
  cases h : (s.handle statement).1.outcome.isFailed with
  | true => exact ⟨stdout_append _ _, rfl⟩
  | false =>
      rw [Session.diagnostic_handle_eq_none h]
      exact ⟨stdout_append _ _, rfl⟩

theorem programChunks_ofSession (s : Session) (file source : String)
    (statements : List Statement) :
    stdout (programChunks (.ofSession s) file source statements).1 =
        String.join ((s.handleAll statements).1.map Answer.printed) ∧
      (programChunks (.ofSession s) file source statements).2 =
        .ofSession (s.handleAll statements).2 := by
  induction statements generalizing s with
  | nil => exact ⟨rfl, rfl⟩
  | cons statement statements ih =>
      obtain ⟨hprinted, hreached⟩ := statementChunks_ofSession s file source statement
      obtain ⟨hlater, hend⟩ := ih (s.handle statement).2
      rw [programChunks, Session.handleAll_cons, List.map_cons, String.join_cons, ← hprinted,
        ← hlater, ← hend, ← hreached]
      exact ⟨stdout_append _ _, rfl⟩

theorem sourceChunks_ofSession (s : Session) (file source : String) :
    stdout (sourceChunks (.ofSession s) file source).1 =
        String.join ((s.runSource source).1.map Answer.printed) ∧
      (sourceChunks (.ofSession s) file source).2 = .ofSession (s.runSource source).2 :=
  programChunks_ofSession s file source (parseProgram source)

end CommandLine

namespace Session

/-- Runs lines one after the other, with `offset` bytes in front of the first one. The places in
the answers are those in the text of all lines. -/
def runLines (s : Session) (offset : Nat) : List String → List Answer × Session
  | [] => ([], s)
  | line :: lines =>
    ((s.runSource line).1.map (Answer.shift offset) ++
        ((s.runSource line).2.runLines (offset + line.utf8ByteSize) lines).1,
      ((s.runSource line).2.runLines (offset + line.utf8ByteSize) lines).2)

/-- The console prints the answers to the lines. What is printed does not depend on places. -/
theorem consoleChunks_ofSession (s : Session) (offset : Nat) {lines : List String}
    (hlines : ∀ line ∈ lines, line.isEmpty = false) :
    CommandLine.stdout (CommandLine.consoleChunks (.ofSession s) lines).1 =
        String.join ((s.runLines offset lines).1.map Answer.printed) ∧
      (CommandLine.consoleChunks (.ofSession s) lines).2 =
        .ofSession (s.runLines offset lines).2 := by
  induction lines generalizing s offset with
  | nil => exact ⟨rfl, rfl⟩
  | cons line lines ih =>
      have hprinted : Answer.printed ∘ Answer.shift offset = Answer.printed := rfl
      obtain ⟨hline, hlater⟩ := List.forall_mem_cons.1 hlines
      obtain ⟨hsource, hreached⟩ :=
        CommandLine.sourceChunks_ofSession s CommandLine.consoleName line
      obtain ⟨hconsole, hend⟩ := ih (s.runSource line).2 (offset + line.utf8ByteSize) hlater
      have hstep : CommandLine.consoleStep (.ofSession s) line =
          some (CommandLine.sourceChunks (.ofSession s) CommandLine.consoleName line) := by
        rw [CommandLine.consoleStep, hline]
        rfl
      rw [CommandLine.consoleChunks, hstep, runLines, List.map_append, List.map_map, hprinted,
        String.join_append, ← hsource, ← hconsole, ← hend, ← CommandLine.stdout_append, ← hreached]
      exact ⟨rfl, rfl⟩

namespace Realizes

/-- Running lines that end with a semicolon comes to running the text of all of them. -/
theorem runLines_eq {s s' : Session} {settings : Settings} {t : TreeSession}
    (h : s.Realizes settings t) (hs : s.Agrees s') (offset stop : Nat) {text : List Char}
    (hlines : ∀ line ∈ CommandLine.inputLines text, Scanner.Terminated line) :
    let lines := (CommandLine.inputLines text).map String.ofList
    let program := (TokenStream.mk ((Scanner.lexemes text).map (Lexeme.shift offset)) stop).program
    (s.runLines offset lines).1 = (s'.handleAll program.1).1 ∧
      (s.runLines offset lines).2.Agrees (s'.handleAll program.1).2 := by
  intro lines program
  by_cases hnil : text = []
  · subst hnil
    have hnone : Scanner.lexemes [] = [] := congrArg (Scanner.locate 0) Scanner.pieces_nil
    have hempty : program.1 = [] := by
      dsimp only [program]
      rw [hnone]
      exact TokenStream.program_of_skipped_nil rfl
    rw [hempty]
    exact ⟨rfl, hs⟩
  · obtain ⟨line, rest, rfl, hinput, hne, hend⟩ := CommandLine.exists_inputLines_eq hnil
    rw [hinput] at hlines
    obtain ⟨hline, hrest⟩ := List.forall_mem_cons.1 hlines
    have fewer : rest.length < (line ++ rest).length := by
      rw [List.length_append]
      exact Nat.lt_add_of_pos_left (List.length_pos_iff.2 hne)
    have hprogram := TokenStream.program_append_line hline hend offset stop
    have hnamed := named_of_mem_parseProgram (String.ofList line)
    obtain ⟨hanswers, hagrees⟩ := h.handleAll_shift hs offset hnamed
    obtain ⟨hanswers', hagrees'⟩ := (h.handleAll hnamed).2.runLines_eq hagrees
      (offset + Scanner.byteLength line) stop hrest
    dsimp only [lines, program]
    rw [hinput, hprogram, handleAll_append, List.map_cons, runLines, runSource,
      utf8ByteSize_ofList, hanswers, hanswers']
    exact ⟨rfl, hagrees'⟩
  termination_by text.length

end Realizes

/-- Lines that end with a semicolon, or have no token, come to the same one by one as the text of
all of them as a file: the same is printed, with the same listings, the same natives are called in
the same order, the diagnostics are the same with their places in the text, and the sessions
agree in the end, with no diagnostics left. -/
theorem runLines_eq_runSource (settings : Settings) (limit : Nat) (earlier : List String)
    (path text : String)
    (hlines : ∀ line ∈ CommandLine.inputLines text.toList, Scanner.Terminated line) :
    let s := ((Session.new settings limit).runSources earlier).2
    let i := Interpreter.ofSession s
    let lines := (CommandLine.inputLines text.toList).map String.ofList
    CommandLine.stdout (CommandLine.consoleChunks i lines).1 =
        CommandLine.stdout (CommandLine.sourceChunks i path text).1 ∧
      (s.runLines 0 lines).1 = (s.runSource text).1 ∧
      (s.runLines 0 lines).2.Agrees (s.runSource text).2 ∧
      (CommandLine.consoleChunks i lines).2 = .ofSession (s.runLines 0 lines).2 ∧
      (CommandLine.sourceChunks i path text).2 = .ofSession (s.runSource text).2 := by
  intro s i lines
  obtain ⟨t, hrealizes⟩ := exists_realizes settings limit earlier
  obtain ⟨hanswers, hagrees⟩ := hrealizes.runLines_eq (.refl s) 0 text.utf8ByteSize hlines
  rw [Lexeme.shift_zero, List.map_id] at hanswers hagrees
  have hne : ∀ line ∈ lines, line.isEmpty = false := by
    intro line hline
    obtain ⟨chars, hchars, rfl⟩ := List.mem_map.1 hline
    simpa using CommandLine.ne_nil_of_mem_inputLines hchars
  obtain ⟨hfile, hfileEnd⟩ := CommandLine.sourceChunks_ofSession s path text
  obtain ⟨hconsole, hconsoleEnd⟩ := s.consoleChunks_ofSession 0 hne
  rw [hfile, hconsole]
  exact ⟨congrArg (fun answers => String.join (answers.map Answer.printed)) hanswers, hanswers,
    hagrees, hconsoleEnd, hfileEnd⟩

/-- The first line does not parse and the second one calls what is not defined; both are reported in
the text at the places that they have there. -/
theorem runLines_eq_runSource_errors :
    let s := Session.new .standard 3
    let i := Interpreter.ofSession s
    let text := "def f() ;\nf();\n"
    let lines := (CommandLine.inputLines text.toList).map String.ofList
    (∀ line ∈ CommandLine.inputLines text.toList, Scanner.Terminated line) ∧
      lines = ["def f() ;\n", "f();\n"] ∧
      CommandLine.stdout (CommandLine.consoleChunks i lines).1 =
        CommandLine.stdout (CommandLine.sourceChunks i "file" text).1 ∧
      (s.runLines 0 lines).1 = (s.runSource text).1 ∧
      (s.runLines 0 lines).2.Agrees (s.runSource text).2 ∧
      (CommandLine.consoleChunks i lines).2 = .ofSession (s.runLines 0 lines).2 ∧
      (CommandLine.sourceChunks i "file" text).2 = .ofSession (s.runSource text).2 := by
  intro s i text lines
  have hinput : CommandLine.inputLines text.toList =
      ["def f() ;\n".toList, "f();\n".toList] := by decide +kernel
  have hlines : ∀ line ∈ CommandLine.inputLines text.toList, Scanner.Terminated line := by
    rw [hinput]
    unfold Scanner.Terminated
    decide +kernel
  refine ⟨hlines, ?_, runLines_eq_runSource .standard 3 [] "file" text hlines⟩
  simp [lines, hinput]

end Session

end ScalarLang
