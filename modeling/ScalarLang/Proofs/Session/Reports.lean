import ScalarLang.Diagnostic.Report
import ScalarLang.Proofs.Session.Diagnostics

/-!
# Where reports point

The span of a diagnostic counts bytes of the source, and the report is given it as a place counted
in characters (`Report.place?`). What the report marks (`Report.Place.marked`) is therefore the
text that the span cuts out of the source if and only if there are only ASCII characters up to the
end of that text (`Session.designates_iff_ascii`).
-/

namespace ScalarLang

/-! ### Bytes and characters -/

namespace Scanner

theorem length_le_byteLength (text : List Char) : text.length ≤ byteLength text := by
  induction text with
  | nil => exact Nat.le_refl 0
  | cons c text ih =>
      have hpos := c.utf8Size_pos
      have hcons : byteLength (c :: text) = c.utf8Size + byteLength text := rfl
      rw [hcons, List.length_cons]
      omega

/-- A text has as many bytes as characters if all of them are ASCII. -/
theorem byteLength_eq_length_iff {text : List Char} :
    byteLength text = text.length ↔ ∀ c ∈ text, c.toNat < 128 := by
  induction text with
  | nil => exact iff_of_true rfl (List.forall_mem_nil _)
  | cons c text ih =>
      have hpos := c.utf8Size_pos
      have hle := length_le_byteLength text
      have hcons : byteLength (c :: text) = c.utf8Size + byteLength text := rfl
      have hone : c.utf8Size = 1 ↔ c.toNat < 128 := by
        rw [Char.utf8Size_eq_one_iff, UInt32.le_iff_toNat_le]
        exact Nat.lt_succ_iff.symm
      rw [List.forall_mem_cons, ← ih, ← hone, hcons, List.length_cons]
      omega

end Scanner

theorem utf8ByteSize_eq_length_iff {text : String} :
    text.utf8ByteSize = text.length ↔ ∀ c ∈ text.toList, c.toNat < 128 := by
  rw [← Scanner.byteLength_toList, ← String.length_toList, Scanner.byteLength_eq_length_iff]

/-! ### Lines of a source -/

namespace SourceText

/-- The characters of the lines with their places are those of the whole text. -/
theorem flatMap_zipIdx_locate (number offset : Nat) (texts : List (List Char)) :
    ((locate number offset texts).flatMap fun line => line.text.zipIdx line.offset) =
      texts.flatten.zipIdx offset := by
  induction texts generalizing number offset with
  | nil => rfl
  | cons text texts ih =>
      rw [locate, List.flatMap_cons, ih, List.flatten_cons, List.zipIdx_append]

theorem flatMap_zipIdx_lines (source : String) :
    ((ofString source).lines.flatMap fun line => line.text.zipIdx line.offset) =
      source.toList.zipIdx := by
  rw [ofString, flatMap_zipIdx_locate]
  split
  next hempty => rw [List.isEmpty_iff.1 hempty, List.flatten_singleton]
  next => rw [flatten_splitLines]

/-- Every place of a text is on one of its lines. -/
theorem exists_lineAt? {source : String} {place : Nat} (h : place ≤ source.length) :
    ∃ line, (ofString source).lineAt? place = some line := by
  have hne : (if source.toList.isEmpty then [[]] else splitLines source.toList) ≠ [] := by
    split
    · exact List.cons_ne_nil _ _
    next hempty =>
      intro hnil
      have hflatten := flatten_splitLines source.toList
      rw [hnil] at hflatten
      exact hempty (List.isEmpty_iff.2 hflatten.symm)
  obtain ⟨first, later, hlines⟩ := List.exists_cons_of_ne_nil hne
  have hfirst : (ofString source).lines = ⟨1, 0, first⟩ :: locate 2 (0 + first.length) later := by
    rw [ofString, hlines, locate]
  have hinside : place ≤ (ofString source).length := h.trans_eq String.length_toList.symm
  rw [lineAt?, if_pos hinside, hfirst, List.takeWhile_cons_of_pos (by simp)]
  exact Option.isSome_iff_exists.1 (List.getLast?_isSome.2 (List.cons_ne_nil _ _))

end SourceText

/-! ### What a report marks -/

namespace Report

/-- The characters of the source that a report at the place marks. -/
def Place.marked (p : Place) : List Char :=
  ((p.source.lines.flatMap fun line => line.text.zipIdx line.offset).filter
    fun c => p.contains c.2).map Prod.fst

/-- The place is that of the text behind `before`, and nothing else is marked. -/
structure Place.Covers (p : Place) (before text : String) : Prop where
  start : p.span.start = before.length
  stop : p.span.stop = (before ++ text).length
  marked : p.marked = text.toList

/-- The report on the diagnostic is given the place, and what is rendered of it is drawn there. -/
structure Shows (source : String) (d : Diagnostic) (place : Place) : Prop where
  given : place? (.ofString source) d = some place
  render_push : ∀ (ds : Diagnostics) p file, (ds.push d).render p file source =
    ds.render p file source ++
      String.join ((header p d :: body p file d place).map (· ++ "\n"))

/-- The report on the diagnostic points at the text that stands behind `before` in the source, and
at nothing else. -/
def Designates (source : String) (d : Diagnostic) (before text : String) : Prop :=
  ∃ place, Shows source d place ∧ place.Covers before text

theorem shows_of_place? {source : String} {d : Diagnostic} {place : Place}
    (h : place? (.ofString source) d = some place) : Shows source d place := by
  refine ⟨h, fun ds p file => ?_⟩
  have hlines : lines p file (.ofString source) d = header p d :: body p file d place := by
    rw [lines, h]
  rw [Diagnostics.render, render, Diagnostics.items_push, List.flatMap_append, List.map_append,
    String.join_append, List.flatMap_singleton, hlines]
  rfl

theorem Place.span_of? {source : SourceText} {span : Span} {place : Place}
    (h : of? source span = some place) : place.span = span := by
  obtain ⟨first, -, h⟩ := Option.bind_eq_some_iff.1 h
  split at h
  · obtain ⟨last, -, h⟩ := Option.bind_eq_some_iff.1 h
    cases h
    rfl
  · cases h
    rfl

/-- A span inside the source has a place. -/
theorem exists_of? {source : String} {span : Span} (hle : span.start ≤ span.stop)
    (hstop : span.stop ≤ source.length) : ∃ first last,
      Place.of? (.ofString source) span = some ⟨.ofString source, span, first, last⟩ := by
  obtain ⟨first, hfirst⟩ := SourceText.exists_lineAt? (hle.trans hstop)
  obtain ⟨last, hlast⟩ := SourceText.exists_lineAt? ((Nat.sub_le span.stop 1).trans hstop)
  by_cases hempty : span.start < span.stop
  · exact ⟨first, last, by simp [Place.of?, hfirst, hlast, hempty]⟩
  · exact ⟨first, first, by simp [Place.of?, hfirst, hempty]⟩

/-- A place that is counted in characters marks what stands between its ends. -/
theorem marked_eq {before text after : String} {p : Place}
    (hsource : p.source = .ofString (before ++ text ++ after))
    (hstart : p.span.start = before.length) (hstop : p.span.stop = (before ++ text).length) :
    p.marked = text.toList := by
  have hcontains (i : Nat) : p.contains i = true ↔
      before.length ≤ i ∧ i < before.length + text.length := by
    rw [Place.contains, hstart, hstop, String.length_append]
    simp
  -- The source in three parts: none of the first and the last is marked, and all between them.
  have hbefore : (before.toList.zipIdx.filter fun c => p.contains c.2) = [] := by
    refine List.filter_eq_nil_iff.2 fun ⟨c, i⟩ hc => ?_
    have hi := (List.mem_zipIdx hc).2.1
    rw [Nat.zero_add, String.length_toList] at hi
    rw [hcontains]
    omega
  have htext : ((text.toList.zipIdx before.length).filter fun c => p.contains c.2) =
      text.toList.zipIdx before.length := by
    refine List.filter_eq_self.2 fun ⟨c, i⟩ hc => ?_
    obtain ⟨hi, hi', -⟩ := List.mem_zipIdx hc
    rw [String.length_toList] at hi'
    exact (hcontains i).2 ⟨hi, hi'⟩
  have hafter : ((after.toList.zipIdx (before.length + text.length)).filter
      fun c => p.contains c.2) = [] := by
    refine List.filter_eq_nil_iff.2 fun ⟨c, i⟩ hc => ?_
    have hi := (List.mem_zipIdx hc).1
    rw [hcontains]
    omega
  rw [Place.marked, hsource, SourceText.flatMap_zipIdx_lines, String.toList_append,
    String.toList_append, List.zipIdx_append, List.zipIdx_append, List.filter_append,
    List.filter_append, Nat.zero_add, Nat.zero_add, List.length_append, String.length_toList,
    String.length_toList, hbefore, htext, hafter, List.nil_append, List.append_nil,
    List.zipIdx_map_fst]

/-- The report on a diagnostic whose span counts the bytes of a text points at that text if all
characters up to its end are ASCII. -/
theorem designates_iff {source before text after : String} {d : Diagnostic} {span : Span}
    (hspan : d.span = some span) (hsource : source = before ++ text ++ after)
    (hstart : before.utf8ByteSize = span.start)
    (hstop : (before ++ text).utf8ByteSize = span.stop) :
    Designates source d before text ↔ ∀ c ∈ (before ++ text).toList, c.toNat < 128 := by
  have hgiven : place? (.ofString source) d = Place.of? (.ofString source) span := by
    rw [place?, hspan, Option.bind_some]
  constructor
  · rintro ⟨place, hshows, hcovers⟩
    have hplace : place.span = span := Place.span_of? (hgiven.symm.trans hshows.given)
    exact utf8ByteSize_eq_length_iff.1 (hstop.trans (hplace ▸ hcovers.stop))
  · intro hascii
    have hbefore : before.utf8ByteSize = before.length := by
      refine utf8ByteSize_eq_length_iff.2 fun c hc => hascii c ?_
      rw [String.toList_append]
      exact List.mem_append_left _ hc
    have hboth := utf8ByteSize_eq_length_iff.2 hascii
    have hstart' := hstart.symm.trans hbefore
    have hstop' := hstop.symm.trans hboth
    have hle : span.start ≤ span.stop := by
      rw [hstart', hstop', String.length_append]
      exact Nat.le_add_right _ _
    have hinside : span.stop ≤ source.length := by
      rw [hstop', hsource, String.length_append (before ++ text)]
      exact Nat.le_add_right _ _
    obtain ⟨first, last, hplace⟩ := exists_of? hle hinside
    have hmarked := marked_eq (p := ⟨.ofString source, span, first, last⟩) (by rw [hsource])
      hstart' hstop'
    exact ⟨_, shows_of_place? (hgiven.trans hplace), hstart', hstop', hmarked⟩

end Report

/-! ### The diagnostics of a source -/

namespace Session

/-- The span of a diagnostic on parsed statements cuts a text out of their source. -/
theorem Realizes.exists_cuts {s : Session} {settings : Settings} {t : TreeSession}
    (h : s.Realizes settings t) {source : String} {statements : List Statement}
    (hparsed : ∀ statement ∈ statements, statement ∈ parseProgram source) :
    ∀ d ∈ (s.handleAll statements).1.filterMap Answer.diagnostic, ∀ span ∈ d.span,
      ∃ text, span.Cuts source text := by
  induction statements generalizing s t with
  | nil => exact List.forall_mem_nil _
  | cons statement statements ih =>
      obtain ⟨hfirst, hlater⟩ := List.forall_mem_cons.1 hparsed
      have hnamed := named_of_mem_parseProgram source statement hfirst
      intro d hd span hspan
      rw [handleAll_cons, List.mem_filterMap, List.exists_mem_cons_iff] at hd
      obtain hd | hd := hd
      · have hplace := ((h.accounts hfirst).places d hd span hspan).1
        exact Statement.exists_cuts hfirst span hplace
      · exact ih (h.handle hnamed).2 hlater d (List.mem_filterMap.2 hd) span hspan

/-- Whatever a session ran before, the span of a diagnostic cuts a text out of its source. A report
on it points at that text if and only if all characters up to the end of the text are ASCII. -/
theorem designates_iff_ascii (settings : Settings) (limit : Nat) (earlier : List String)
    (source : String) {d : Diagnostic} {span : Span}
    (hd : d ∈ (((Session.new settings limit).runSources earlier).2.runSource source).1.filterMap
      Answer.diagnostic)
    (hspan : d.span = some span) :
    (∃ text, span.Cuts source text) ∧
      ∀ before text after, source = before ++ text ++ after →
        before.utf8ByteSize = span.start → (before ++ text).utf8ByteSize = span.stop →
          (Report.Designates source d before text ↔
            ∀ c ∈ (before ++ text).toList, c.toNat < 128) := by
  obtain ⟨t, hrealizes⟩ := exists_realizes settings limit earlier
  refine ⟨hrealizes.exists_cuts (fun _ hmem => hmem) d hd span hspan, ?_⟩
  intro before text after
  exact Report.designates_iff hspan

/-- No statement starts with a closing parenthesis. -/
theorem mem_diagnostics_of_closeParen {source : String} {span : Span} {later : List Lexeme}
    (h : Scanner.lexemes source.toList = ⟨.punctuator .closeParen, span⟩ :: later) (s : Session) :
    .ofParseError (.unexpectedToken .expression (.punctuator .closeParen) span) ∈
      (s.runSource source).1.filterMap Answer.diagnostic := by
  have hfirst : (TokenStream.ofSource source).statement.1 =
      .malformed (.unexpectedToken .expression (.punctuator .closeParen) span) := by
    rw [TokenStream.ofSource, h]
    simp [TokenStream.statement, Parse.isSeparator, Parse.statementHere, Parse.topLevel,
      Parse.expression, Parse.primary, TokenStream.outcome, TokenStream.current, Reading.map,
      ParseError.ofLexeme]
  have hend : (TokenStream.ofSource source).statement.1.isEnd = false := by
    rw [hfirst]
    rfl
  rw [runSource, parseProgram, TokenStream.program_cons hend, hfirst, handleAll_cons]
  exact List.mem_cons_self

/-- In `)é` the first token is refused, and the report points at it. -/
theorem designates_iff_ascii_closeParen :
    let d := Diagnostic.ofParseError (.unexpectedToken .expression (.punctuator .closeParen) ⟨0, 1⟩)
    d ∈ (((Session.new .standard 3).runSources []).2.runSource ")é").1.filterMap
        Answer.diagnostic ∧
      d.span = some ⟨0, 1⟩ ∧ Report.Designates ")é" d "" ")" := by
  intro d
  have hlexemes : Scanner.lexemes ")é".toList =
      [⟨.punctuator .closeParen, ⟨0, 1⟩⟩, ⟨.unknown "é", ⟨1, 3⟩⟩] := by decide +kernel
  have hd : d ∈ (((Session.new .standard 3).runSources []).2.runSource ")é").1.filterMap
      Answer.diagnostic := mem_diagnostics_of_closeParen hlexemes _
  have hascii : ∀ c ∈ ("" ++ ")").toList, c.toNat < 128 :=
    List.forall_mem_singleton.2 (by decide)
  exact ⟨hd, rfl,
    ((designates_iff_ascii .standard 3 [] ")é" hd rfl).2 "" ")" "é" rfl rfl rfl).2 hascii⟩

/-- In `) 1` behind the comment `#é`, the first token is refused, and the report points at the
blank. -/
theorem not_designates_behind_comment :
    let source := "#é\n) 1"
    let d := Diagnostic.ofParseError (.unexpectedToken .expression (.punctuator .closeParen) ⟨4, 5⟩)
    d ∈ ((Session.new .standard 3).runSource source).1.filterMap Answer.diagnostic ∧
      d.span = some ⟨4, 5⟩ ∧
      source = "#é\n" ++ ")" ++ " 1" ∧ "#é\n".utf8ByteSize = 4 ∧ ("#é\n" ++ ")").utf8ByteSize = 5 ∧
      (Diagnostics.empty.push d).render .plain "input.kal" source = String.join
        ["[SYNTAX] Error: expected an expression, found ')'\n",
          "   ╭─[ input.kal:2:2 ]\n",
          "   │\n",
          " 2 │ ) 1\n",
          "   │  ┬  \n",
          "   │  ╰── unexpected token here\n",
          "───╯\n"] ∧
      (Report.place? (.ofString source) d).map Report.Place.marked = some [' '] ∧
      ¬ Report.Designates source d "#é\n" ")" := by
  intro source d
  have hlexemes : Scanner.lexemes source.toList =
      [⟨.punctuator .closeParen, ⟨4, 5⟩⟩, ⟨.number 1, ⟨6, 7⟩⟩] := by decide +kernel
  have hmarked : (Report.place? (.ofString source) d).map Report.Place.marked = some [' '] := by
    decide
  have hd : d ∈ ((Session.new .standard 3).runSource source).1.filterMap Answer.diagnostic :=
    mem_diagnostics_of_closeParen hlexemes _
  refine ⟨hd, rfl, rfl, rfl, rfl, by decide +kernel, hmarked, ?_⟩
  rintro ⟨place, hshows, hcovers⟩
  rw [hshows.given, Option.map_some, hcovers.marked] at hmarked
  cases hmarked

end Session

end ScalarLang
