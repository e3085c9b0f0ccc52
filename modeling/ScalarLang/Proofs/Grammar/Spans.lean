import ScalarLang.Proofs.Grammar.Pieces
import ScalarLang.Proofs.Grammar.Spelling
import ScalarLang.Proofs.Session.Rotation

/-!
# Spans cut out what they are the place of

The span of a node reaches from the first to the last of the tokens that spell it. The text
between has the same tokens further in front (`TokenStream.exists_text`), so the node is read
from that text again, with its spans as much less (`Expr.Reread`). The same holds of prototypes.
-/

namespace ScalarLang

namespace Scanner

/-- The pieces that some consecutive tokens are those of. -/
theorem exists_pieces_of_spans {parts : List Piece} {part : List Lexeme} {span : Span}
    (hpart : part <:+: locate 0 parts) (hspan : Spans part span) :
    ∃ before middle after, parts = before ++ (middle ++ after) ∧
      locate span.start middle = part ∧ byteLength (before.flatMap Piece.text) = span.start ∧
      span.start + byteLength (middle.flatMap Piece.text) = span.stop := by
  obtain ⟨u, v, htokens⟩ := hpart
  rw [List.append_assoc] at htokens
  obtain ⟨front, behind, rfl, -, hbehind, -⟩ := exists_of_locate_eq_append htokens.symm
  obtain ⟨x, rest, rfl⟩ := List.exists_cons_of_ne_nil hspan.ne_nil
  obtain ⟨blanks, behind, rfl, hmiddle, hstart⟩ := exists_of_locate_eq_cons hbehind
  have hx : x.span.start = span.start := Option.some.inj hspan.start
  rw [hx] at hmiddle hstart
  obtain ⟨middle, after, rfl, hlocate, -, hstop⟩ :=
    exists_of_locate_eq_append (u := x :: rest) hmiddle
  rw [hspan.stop] at hstop
  refine ⟨front ++ blanks, middle, after, by simp, hlocate, ?_, hstop⟩
  rw [List.flatMap_append, byteLength_append, ← hstart, Nat.zero_add]

end Scanner

/-! ### Places in order -/

/-- The tokens stand one behind the other. -/
structure Ordered (tokens : List Lexeme) : Prop where
  pairwise : tokens.Pairwise fun x y => x.span.stop ≤ y.span.start
  le : ∀ x ∈ tokens, x.span.start ≤ x.span.stop

theorem Ordered.ofSource (source : String) : Ordered (TokenStream.ofSource source).ahead :=
  ⟨Scanner.pairwise_locate _ _, fun _ hx => (Scanner.span_of_mem_locate hx).2⟩

theorem Ordered.of_isInfix {part tokens : List Lexeme} (h : Ordered tokens)
    (hpart : part <:+: tokens) : Ordered part :=
  ⟨h.pairwise.sublist hpart.sublist, fun x hx => h.le x (hpart.subset hx)⟩

/-- A token of a part is inside its span. -/
theorem Spans.inside {part : List Lexeme} {span : Span} (h : Spans part span)
    (hordered : Ordered part) {x : Lexeme} (hx : x ∈ part) :
    span.start ≤ x.span.start ∧ x.span.stop ≤ span.stop := by
  constructor
  · obtain ⟨first, rest, rfl⟩ := List.exists_cons_of_ne_nil h.ne_nil
    rw [← Option.some.inj h.start]
    rcases List.mem_cons.1 hx with rfl | hx
    · exact Nat.le_refl _
    · exact Nat.le_trans (hordered.le first List.mem_cons_self)
        (List.rel_of_pairwise_cons hordered.pairwise hx)
  · obtain ⟨rest, last, rfl⟩ := (List.eq_nil_or_concat part).resolve_left h.ne_nil
    have hstop := h.stop
    rw [List.concat_eq_append] at hordered hstop hx
    rw [List.getLast?_concat] at hstop
    rw [← Option.some.inj hstop]
    rcases List.mem_append.1 hx with hmem | hmem
    · have hlast := (List.pairwise_append.1 hordered.pairwise).2.2 x hmem last
        (List.mem_singleton_self last)
      exact Nat.le_trans hlast (hordered.le last (by simp))
    · rw [List.mem_singleton.1 hmem]

/-- The children of the node are inside its span, one behind the other. -/
structure Expr.Nests (e : Expr) : Prop where
  inside : ∀ child ∈ e.children, e.span.start ≤ child.span.start ∧ child.span.stop ≤ e.span.stop
  ordered : e.children.Pairwise fun child child' => child.span.stop ≤ child'.span.start

theorem Holds.pairwise {R : Lexeme → Lexeme → Prop} {tokens : List Lexeme}
    {parts : List (List Lexeme)} (h : Holds tokens parts) (hR : tokens.Pairwise R) :
    parts.Pairwise fun u v => ∀ x ∈ u, ∀ y ∈ v, R x y := by
  induction parts generalizing tokens with
  | nil => exact .nil
  | cons part parts ih =>
      obtain ⟨before, after, rfl, hafter⟩ := h
      have hbehind := (List.pairwise_append.1 hR).2.1
      obtain ⟨-, hlater, hrel⟩ := List.pairwise_append.1 hbehind
      exact .cons (fun v hv x hx y hy => hrel x hx y ((hafter.isInfix hv).subset hy))
        (ih hafter hlater)

theorem Spells.nests {part : List Lexeme} {e : Expr} (h : Spells part e)
    (hordered : Ordered part) : e.Nests := by
  cases h with
  | intro parts hread hspans hchildren hholds hparts =>
      constructor
      · intro child hchild
        rw [← hchildren] at hchild
        obtain ⟨p, hp, rfl⟩ := List.mem_map.1 hchild
        have hsubset := (hholds.isInfix (List.mem_map_of_mem hp)).subset
        obtain ⟨first, hfirst, hstart⟩ := (hparts p hp).spans.exists_first
        obtain ⟨last, hlast, hstop⟩ := (hparts p hp).spans.exists_last
        rw [← hstart, ← hstop]
        exact ⟨(hspans.inside hordered (hsubset hfirst)).1,
          (hspans.inside hordered (hsubset hlast)).2⟩
      · rw [← hchildren, List.pairwise_map]
        have hpairwise := List.pairwise_map.1 (hholds.pairwise hordered.pairwise)
        refine hpairwise.imp_of_mem fun {p q} hp hq hrel => ?_
        obtain ⟨last, hlast, hstop⟩ := (hparts p hp).spans.exists_last
        obtain ⟨first, hfirst, hstart⟩ := (hparts q hq).spans.exists_first
        rw [← hstop, ← hstart]
        exact hrel last hlast first hfirst

/-! ### The text of a span -/

/-- The span reaches over the text in the source. -/
def Span.Cuts (span : Span) (source text : String) : Prop :=
  ∃ before after, source = before ++ text ++ after ∧ before.utf8ByteSize = span.start ∧
    (before ++ text).utf8ByteSize = span.stop

theorem Span.Cuts.stop_eq {span : Span} {source text : String} (h : span.Cuts source text) :
    span.stop = span.start + text.utf8ByteSize := by
  obtain ⟨before, after, -, hstart, hstop⟩ := h
  rw [← hstop, ← hstart, String.utf8ByteSize_append]

theorem Span.Cuts.stop_le {span : Span} {source text : String} (h : span.Cuts source text) :
    span.stop ≤ source.utf8ByteSize := by
  obtain ⟨before, after, rfl, -, hstop⟩ := h
  rw [← hstop, String.utf8ByteSize_append (s := before ++ text)]
  exact Nat.le_add_right _ _

namespace TokenStream

/-- The text that consecutive tokens reach over has the same tokens further in front. -/
theorem exists_text {source : String} {part : List Lexeme} {span : Span}
    (hpart : part <:+: (ofSource source).ahead) (hspan : Spans part span) :
    ∃ text, span.Cuts source text ∧
      (ofSource text).ahead.map (Lexeme.shift span.start) = part := by
  obtain ⟨before, middle, after, hpieces, hlocate, hstart, hstop⟩ :=
    Scanner.exists_pieces_of_spans hpart hspan
  have hsource := Scanner.flatMap_text_pieces source.toList
  rw [hpieces, List.flatMap_append, List.flatMap_append] at hsource
  have hbytes (text : List Char) : (String.ofList text).utf8ByteSize = Scanner.byteLength text := by
    rw [← Scanner.byteLength_toList, String.toList_ofList]
  refine ⟨String.ofList (middle.flatMap Piece.text), ⟨String.ofList (before.flatMap Piece.text),
    String.ofList (after.flatMap Piece.text), ?_, ?_, ?_⟩, ?_⟩
  · rw [← String.ofList_append, ← String.ofList_append, List.append_assoc, hsource,
      String.ofList_toList]
  · rw [hbytes, hstart]
  · rw [String.utf8ByteSize_append, hbytes, hbytes, hstart, hstop]
  · rw [ofSource, String.toList_ofList, Scanner.lexemes, Scanner.pieces_flatMap_text hpieces,
      ← Scanner.locate_eq_map_shift, hlocate]

theorem outcome_of_result {α : Type} {limit : Nat} {s : TokenStream} {r : Reading α limit}
    {value : α} {rest : List Lexeme} (h : r.result = (.ok value, rest)) :
    s.outcome r = (.ok value, ⟨rest, s.stop⟩) := by
  cases r with
  | read =>
      cases h
      rfl
  | failed => cases h

/-- A statement of a program is read of tokens that the program ends with, or is an error. -/
theorem exists_suffix_of_mem_program {s : TokenStream} {statement : Statement}
    (h : statement ∈ s.program.1) :
    (∃ tokens rest, tokens <:+ s.ahead ∧
      (Parse.statementHere tokens).result = (.ok statement, rest)) ∨
    ∃ error, statement = .malformed error := by
  by_cases hnil : s.skipped.ahead = []
  · rw [program_of_skipped_nil hnil] at h
    cases h
  · have fewer := length_ahead_lt hnil
    rw [program_of_skipped_ne_nil hnil] at h
    rcases List.mem_cons.1 h with rfl | hlater
    · rw [statement_of_skipped_eq rfl hnil]
      generalize hresult : (Parse.statementHere s.skipped.ahead).result = r
      obtain ⟨expected | statement, rest⟩ := r
      · exact .inr ⟨_, rfl⟩
      · exact .inl ⟨_, rest, List.dropWhile_suffix _, hresult⟩
    · refine (exists_suffix_of_mem_program hlater).imp_left ?_
      rintro ⟨tokens, rest, hsuffix, hresult⟩
      exact ⟨tokens, rest, hsuffix.trans s.ahead_statement_suffix, hresult⟩
  termination_by s.ahead.length

end TokenStream

/-- The expression of a definition or at the top level. -/
def Statement.expression? : Statement → Option Expr
  | definition d | topLevel d => some d.body
  | external _ | endOfInput | malformed _ => none

namespace Parse

/-- The expression of a statement is read of tokens that the statement's end with. -/
theorem exists_expression_of_statementHere {tokens rest : List Lexeme} {statement : Statement}
    {e : Expr} (h : (statementHere tokens).result = (.ok statement, rest))
    (he : statement.expression? = some e) :
    ∃ tokens' rest', tokens' <:+ tokens ∧ (expression tokens').result = (.ok e, rest') := by
  obtain ⟨span, behind, p, rest', body, rfl, hprototype, hbody, rfl⟩ |
    ⟨span, behind, p, rfl, -, rfl⟩ | ⟨body, hbody, rfl⟩ := cases_of_statementHere h
  · obtain ⟨part, rfl, -, -⟩ := exists_spans_prototype hprototype
    cases he
    exact ⟨rest', rest, (List.suffix_append part rest').trans (List.suffix_cons _ _), hbody⟩
  · cases he
  · cases he
    exact ⟨tokens, rest, List.suffix_refl _, hbody⟩

/-- The prototype of a statement is read of tokens that the statement's end with. -/
theorem exists_prototype_of_statementHere {tokens rest : List Lexeme} {statement : Statement}
    {p : Prototype} (h : (statementHere tokens).result = (.ok statement, rest))
    (hp : statement.prototype? = some p) :
    ∃ tokens' rest', tokens' <:+ tokens ∧ (prototype tokens').result = (.ok p, rest') := by
  obtain ⟨span, behind, p', rest', body, rfl, hprototype, -, rfl⟩ |
    ⟨span, behind, p', rfl, hprototype, rfl⟩ | ⟨body, -, rfl⟩ := cases_of_statementHere h
  · cases hp
    exact ⟨behind, rest', List.suffix_cons _ _, hprototype⟩
  · cases hp
    exact ⟨behind, rest, List.suffix_cons _ _, hprototype⟩
  · cases hp

end Parse

/-- The text that the node's span reaches over is read as the node, to its end, with every span
less by where the node starts. -/
def Expr.Rereads (source : String) (node : Expr) : Prop :=
  ∃ text e, node.span.Cuts source text ∧
    (TokenStream.ofSource text).outcome (Parse.expression (TokenStream.ofSource text).ahead) =
      (.ok e, ⟨[], text.utf8ByteSize⟩) ∧
    e.shift node.span.start = node

/-- The text that the prototype's span reaches over is read as a prototype, to its end, with the
same name and parameters. -/
def Prototype.Rereads (source : String) (p : Prototype) : Prop :=
  ∃ text q, p.span.Cuts source text ∧
    (TokenStream.ofSource text).outcome (Parse.prototype (TokenStream.ofSource text).ahead) =
      (.ok q, ⟨[], text.utf8ByteSize⟩) ∧
    q.name = p.name ∧ q.params = p.params

theorem Spans.start_lt_stop {source : String} {part : List Lexeme} {span : Span}
    (h : Spans part span) (hpart : part <:+: (TokenStream.ofSource source).ahead) :
    span.start < span.stop := by
  obtain ⟨text, hcuts, htokens⟩ := TokenStream.exists_text hpart h
  have hne : text ≠ "" := by
    rintro rfl
    have hnone : (TokenStream.ofSource "").ahead = [] :=
      congrArg (Scanner.locate 0) Scanner.pieces_nil
    rw [hnone] at htokens
    exact h.ne_nil htokens.symm
  rw [hcuts.stop_eq]
  exact Nat.lt_add_of_pos_right <| Nat.pos_of_ne_zero fun hzero =>
    hne (String.utf8ByteSize_eq_zero_iff.1 hzero)

theorem Spells.rereads {source : String} {part : List Lexeme} {node : Expr}
    (h : Spells part node) (hpart : part <:+: (TokenStream.ofSource source).ahead) :
    node.Rereads source := by
  obtain ⟨text, hcuts, htokens⟩ := TokenStream.exists_text hpart h.spans
  have hlocal := (Parse.local_readers node.span.start (TokenStream.ofSource text).ahead).2.1
  have hread := h.reads
  rw [← htokens] at hread
  obtain ⟨e, he, hshift⟩ := hlocal.repeats.exists_of_run_map hread
  exact ⟨text, e, hcuts, TokenStream.outcome_of_result he, hshift⟩

theorem Spans.rereads {source : String} {part : List Lexeme} {p : Prototype}
    (h : Spans part p.span) (hpart : part <:+: (TokenStream.ofSource source).ahead)
    (hread : (Parse.prototype part).result = (.ok p, [])) : p.Rereads source := by
  obtain ⟨text, hcuts, htokens⟩ := TokenStream.exists_text hpart h
  have hlocal := Parse.local_prototype p.span.start (TokenStream.ofSource text).ahead
  rw [← htokens] at hread
  obtain ⟨q, hq, hshift⟩ := hlocal.repeats.exists_of_run_map hread
  refine ⟨text, q, hcuts, TokenStream.outcome_of_result hq, ?_, ?_⟩
  · rw [← hshift]
    rfl
  · rw [← hshift]
    rfl

/-- Every node of a parsed tree has a span that is not empty, holds the spans of its children one
behind the other, and cuts out a text that is read as the node again. So does the span of a parsed
prototype. -/
theorem rereads_of_mem_parseProgram {source : String} {statement : Statement}
    (h : statement ∈ parseProgram source) :
    (∀ tree, statement.expression? = some tree → ∀ node ∈ tree.nodes,
      node.span.start < node.span.stop ∧ node.span.stop ≤ source.utf8ByteSize ∧ node.Nests ∧
        node.Rereads source) ∧
    ∀ p, statement.prototype? = some p → p.Rereads source := by
  obtain ⟨tokens, rest, hsuffix, hread⟩ | ⟨error, rfl⟩ :=
    TokenStream.exists_suffix_of_mem_program h
  · constructor
    · intro tree htree node hnode
      obtain ⟨tokens', rest', hsuffix', hread'⟩ :=
        Parse.exists_expression_of_statementHere hread htree
      obtain ⟨part, rfl, hspells⟩ := Parse.exists_spells hread'
      obtain ⟨part', hinside, hnodeSpells⟩ := hspells.exists_isInfix node hnode
      have htree := (List.prefix_append part rest').isInfix.trans (hsuffix'.trans hsuffix).isInfix
      have hpart : part' <:+: (TokenStream.ofSource source).ahead := hinside.trans htree
      obtain ⟨text, hcuts, -⟩ := TokenStream.exists_text hpart hnodeSpells.spans
      exact ⟨hnodeSpells.spans.start_lt_stop hpart, hcuts.stop_le,
        hnodeSpells.nests ((Ordered.ofSource source).of_isInfix hpart),
        hnodeSpells.rereads hpart⟩
    · intro p hp
      obtain ⟨tokens', rest', hsuffix', hread'⟩ :=
        Parse.exists_prototype_of_statementHere hread hp
      obtain ⟨part, rfl, hspans, hagain⟩ := Parse.exists_spans_prototype hread'
      exact hspans.rereads ((List.prefix_append part rest').isInfix.trans
        (hsuffix'.trans hsuffix).isInfix) hagain
  · exact ⟨nofun, nofun⟩

/-- The difference in `def f(x) x * (f(x) - x)` is read again with its parentheses. -/
theorem rereads_difference :
    let source := "def f(x) x * (f(x) - x)"
    let difference :=
      Expr.binary '-' (.call "f" [.var "x" ⟨16, 17⟩] ⟨14, 18⟩) (.var "x" ⟨21, 22⟩) ⟨13, 23⟩
    let product := Expr.binary '*' (.var "x" ⟨9, 10⟩) difference ⟨9, 23⟩
    let d := Definition.mk ⟨"f", ["x"], ⟨4, 8⟩⟩ product
    .definition d ∈ parseProgram source ∧ difference ∈ product.nodes ∧
      difference.Rereads source ∧ d.prototype.Rereads source := by
  intro source difference product d
  have hlexemes : Scanner.lexemes "def f(x) x * (f(x) - x)".toList =
      [⟨.keyword .definition, ⟨0, 3⟩⟩, ⟨.identifier "f", ⟨4, 5⟩⟩, ⟨.punctuator .openParen, ⟨5, 6⟩⟩,
        ⟨.identifier "x", ⟨6, 7⟩⟩, ⟨.punctuator .closeParen, ⟨7, 8⟩⟩, ⟨.identifier "x", ⟨9, 10⟩⟩,
        ⟨.punctuator .star, ⟨11, 12⟩⟩, ⟨.punctuator .openParen, ⟨13, 14⟩⟩,
        ⟨.identifier "f", ⟨14, 15⟩⟩, ⟨.punctuator .openParen, ⟨15, 16⟩⟩,
        ⟨.identifier "x", ⟨16, 17⟩⟩, ⟨.punctuator .closeParen, ⟨17, 18⟩⟩,
        ⟨.punctuator .minus, ⟨19, 20⟩⟩, ⟨.identifier "x", ⟨21, 22⟩⟩,
        ⟨.punctuator .closeParen, ⟨22, 23⟩⟩] := by decide +kernel
  have hmem : .definition d ∈ parseProgram source := by
    rw [parseProgram, TokenStream.ofSource, hlexemes,
      TokenStream.program_of_skipped_ne_nil (by decide)]
    simp [TokenStream.statement, Parse.isSeparator, Parse.statementHere, Parse.definition,
      Parse.prototype, Parse.parameters, Parse.parameterList, Parse.expression, Parse.primary,
      Parse.climb, Parse.operand, Parse.operatorAhead?, Parse.arguments, Parse.argumentList,
      Parse.argumentSeparator, Parse.closingParen, TokenStream.outcome, Reading.map, Reading.weaken,
      Expr.operation, Operator.ofMark?, Operator.all, Operator.mark, Operator.char,
      Punctuator.char, Expr.span, Expr.withSpan, Span.cover, d, product, difference]
  have hnode : difference ∈ product.nodes := by simp [product, difference, Expr.nodes]
  obtain ⟨hnodes, hprototype⟩ := rereads_of_mem_parseProgram hmem
  exact ⟨hmem, hnode, (hnodes product rfl difference hnode).2.2.2, hprototype d.prototype rfl⟩

end ScalarLang
