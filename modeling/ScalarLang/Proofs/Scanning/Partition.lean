import ScalarLang.Proofs.Scanning.Munch

/-!
# Tokens partition a text

`Scanner.Scans` cuts a text into layout and longest matches in turn, without a scanner. Every
text is cut in this way, and in no other than the scanner cuts it (`Scanner.scans_iff`). So the
tokens of a source stand one behind the other, each is the longest match at its place, and
there is nothing but layout between them (`tokenize_partitions`). A reader that holds one token at
a time shows the same ones in turn (`Cursor.current_iterate_advance`).
-/

namespace ScalarLang

namespace Scanner

/-- The text, with `offset` bytes in front, consists of layout and of the tokens in turn. -/
inductive Scans : Nat → List Char → List Lexeme → Prop
  | done {offset : Nat} {gap : List Char} : Trailer gap → Scans offset gap []
  | token {start : Nat} {gap text after : List Char} {token : Token} {tokens : List Lexeme}
      {span : Span} : Layout gap → Munch token text after →
      span.start = start + byteLength gap → span.stop = span.start + byteLength text →
      Scans span.stop after tokens → Scans start (gap ++ (text ++ after)) (⟨token, span⟩ :: tokens)

theorem locate_pieces_blank {c : Char} (hc : isBlank c = true) (offset : Nat) (rest : List Char) :
    locate offset (pieces (c :: rest)) = locate (offset + c.utf8Size) (pieces rest) := by
  have hone : byteLength [c] = c.utf8Size := rfl
  rw [pieces_cons, split_blank hc]
  cases rest with
  | nil => simp [locate, hone]
  | cons d rest =>
      cases hd : isBlank d with
      | false => simp [hd, locate, hone]
      | true =>
          -- The blanks in front of `rest` belong to the same piece as `c`.
          rw [pieces_cons, split_blank hd, locate, locate, List.takeWhile_cons_of_pos hd,
            List.dropWhile_cons_of_pos hd, ← hone, Nat.add_assoc, ← byteLength_append]
          rfl

/-- Layout has no tokens, whatever is behind it. -/
theorem Layout.locate_pieces {gap : List Char} (h : Layout gap) (offset : Nat)
    (rest : List Char) :
    locate offset (pieces (gap ++ rest)) = locate (offset + byteLength gap) (pieces rest) := by
  induction h generalizing offset with
  | nil => rfl
  | @blank c gap hc _ ih =>
      rw [List.cons_append, locate_pieces_blank hc, ih, Nat.add_assoc]
      rfl
  | @comment body terminator gap hbody hterminator _ ih =>
      have hgap : '#' :: (body ++ terminator :: gap) = '#' :: (body ++ [terminator]) ++ gap := by
        simp
      rw [hgap, List.append_assoc, List.cons_append, List.append_assoc, List.singleton_append,
        pieces_cons, split_comment, commentTail_closed hbody hterminator, locate, ih, Nat.add_assoc,
        byteLength_append]

theorem Trailer.locate_pieces {gap : List Char} (h : Trailer gap) (offset : Nat) :
    locate offset (pieces gap) = [] := by
  cases h with
  | layout h =>
      have hnone := h.locate_pieces offset []
      rw [List.append_nil, pieces_nil] at hnone
      exact hnone
  | comment h hbody =>
      rw [h.locate_pieces, pieces_cons, split_comment, commentTail_open hbody, pieces_nil]
      rfl

/-- Layout in front of a text does not add tokens. -/
theorem Scans.append_left {start : Nat} {gap rest : List Char} {tokens : List Lexeme}
    (hgap : Layout gap) (h : Scans (start + byteLength gap) rest tokens) :
    Scans start (gap ++ rest) tokens := by
  cases h with
  | done htrailer => exact .done (hgap.append_trailer htrailer)
  | token hgap' hmunch hstart hstop hafter =>
      rw [← List.append_assoc]
      refine .token (hgap.append hgap') hmunch ?_ hstop hafter
      rw [hstart, byteLength_append, Nat.add_assoc]

theorem scans_pieces (offset : Nat) (text : List Char) :
    Scans offset text (locate offset (pieces text)) := by
  fun_induction pieces text generalizing offset with
  | case1 => exact .done (.layout .nil)
  | case2 c rest ih =>
      have hhead := head_split c rest
      rw [← text_split_append c rest]
      generalize split c rest = cut at hhead ih
      obtain ⟨piece, after⟩ := cut
      cases hhead with
      -- The layout joins what the text behind it starts with.
      | layout hgap => exact .append_left hgap (ih _)
      | trailer hgap =>
          rw [List.append_nil, pieces_nil]
          exact .done hgap
      | token hmunch => exact .token .nil hmunch rfl rfl (ih _)

/-- A text is cut as the scanner cuts it, and in no other way. -/
theorem scans_iff {offset : Nat} {text : List Char} {tokens : List Lexeme} :
    Scans offset text tokens ↔ locate offset (pieces text) = tokens := by
  refine ⟨fun h => ?_, fun h => h ▸ scans_pieces offset text⟩
  -- The scanner passes over the layout, and then it has no other match than the token.
  induction h with
  | done hgap => exact hgap.locate_pieces _
  | @token start gap text after token tokens span hgap hmunch hstart hstop _ ih =>
      obtain ⟨c, body, rfl, hsplit⟩ := split_of_munch hmunch
      rw [hgap.locate_pieces, List.cons_append, pieces_cons, hsplit, locate, ← hstart]
      dsimp only
      rw [← hstop, ih]

/-! ### Places in the text -/

/-- The text stands in the source between two offsets, in front of `after`. -/
def Between (source : List Char) (start stop : Nat) (text after : List Char) : Prop :=
  ∃ before, source = before ++ (text ++ after) ∧ byteLength before = start ∧
    byteLength (before ++ text) = stop

theorem Between.stop_eq {source text after : List Char} {start stop : Nat}
    (h : Between source start stop text after) : stop = start + byteLength text := by
  obtain ⟨before, -, rfl, rfl⟩ := h
  exact byteLength_append before text

theorem byteLength_pos {text : List Char} (h : text ≠ []) : 0 < byteLength text := by
  obtain ⟨c, body, rfl⟩ := List.exists_cons_of_ne_nil h
  exact Nat.add_pos_left c.utf8Size_pos _

theorem Munch.ne_nil {token : Token} {text after : List Char} (h : Munch token text after) :
    text ≠ [] := by
  obtain ⟨c, body, rfl, -⟩ := split_of_munch h
  exact List.cons_ne_nil c body

theorem Munch.ne_endOfInput {token : Token} {text after : List Char}
    (h : Munch token text after) : token ≠ .endOfInput := by
  cases h <;> nofun

namespace Scans

/-- Where the tokens are taken apart, the text is: behind the last token in front. -/
theorem exists_cut {start : Nat} {rest : List Char} {front back : List Lexeme}
    (h : Scans start rest (front ++ back)) :
    ∃ taken left, rest = taken ++ left ∧ Scans (start + byteLength taken) left back ∧
      start + byteLength taken = (front.getLast?.map (·.span.stop)).getD start := by
  induction front generalizing start rest with
  | nil => exact ⟨[], rest, rfl, h, rfl⟩
  | cons x front ih =>
      cases h with
      | @token _ gap text after token _ span _ _ hstart hstop hafter =>
          obtain ⟨taken, left, rfl, hleft, hlast⟩ := ih hafter
          have hbytes : start + byteLength (gap ++ (text ++ taken)) =
              span.stop + byteLength taken := by
            rw [byteLength_append, byteLength_append, hstop, hstart, Nat.add_assoc, Nat.add_assoc]
          refine ⟨gap ++ (text ++ taken), left, by simp, ?_, ?_⟩
          · rw [hbytes]
            exact hleft
          · rw [hbytes, hlast, List.getLast?_cons]
            cases front.getLast? <;> rfl

variable {source : List Char}

/-- Every token is the longest match at its place. -/
theorem exists_munch {tokens : List Lexeme} (h : Scans 0 source tokens) :
    ∀ x ∈ tokens, ∃ text after,
      Between source x.span.start x.span.stop text after ∧ Munch x.token text after := by
  intro x hx
  obtain ⟨front, back, rfl⟩ := List.append_of_mem hx
  obtain ⟨taken, left, rfl, hleft, -⟩ := h.exists_cut
  cases hleft with
  | @token _ gap text after _ _ span _ hmunch hstart hstop =>
      have hbefore : byteLength (taken ++ gap) = span.start := by
        rw [byteLength_append, hstart, Nat.zero_add]
      refine ⟨text, after, ⟨taken ++ gap, by simp, hbefore, ?_⟩, hmunch⟩
      rw [byteLength_append, hbefore, hstop]

/-- Between two tokens there is layout, and so in front of the first one and behind the last. -/
theorem exists_layout {front back : List Lexeme} (h : Scans 0 source (front ++ back)) :
    ∃ gap after, Between source ((front.getLast?.map (·.span.stop)).getD 0)
        ((back.head?.map (·.span.start)).getD (byteLength source)) gap after ∧
      (Layout gap ∨ back = [] ∧ Trailer gap) := by
  obtain ⟨taken, left, rfl, hleft, hlast⟩ := h.exists_cut
  rw [Nat.zero_add] at hleft hlast
  rw [← hlast]
  cases hleft with
  | done hgap => exact ⟨left, [], ⟨taken, by simp, rfl, rfl⟩, .inr ⟨rfl, hgap⟩⟩
  | @token _ gap text after _ _ _ hgap _ hstart =>
      refine ⟨gap, text ++ after, ⟨taken, rfl, rfl, ?_⟩, .inl hgap⟩
      rw [byteLength_append, ← hstart]
      rfl

end Scans

/-- The tokens take the source apart: each is the longest match at its place, they stand one
behind the other, and what is between them is layout. -/
structure Partitions (source : List Char) (tokens : List Lexeme) : Prop where
  nonempty : ∀ x ∈ tokens, x.span.start < x.span.stop
  ordered : tokens.Pairwise fun x y => x.span.stop ≤ y.span.start
  munch : ∀ x ∈ tokens, ∃ text after,
    Between source x.span.start x.span.stop text after ∧ Munch x.token text after
  layout : ∀ front back, tokens = front ++ back → ∃ gap after,
    Between source ((front.getLast?.map (·.span.stop)).getD 0)
        ((back.head?.map (·.span.start)).getD (byteLength source)) gap after ∧
      (Layout gap ∨ back = [] ∧ Trailer gap)

theorem partitions_lexemes (source : List Char) : Partitions source (lexemes source) := by
  have hscans : Scans 0 source (lexemes source) := scans_pieces 0 source
  have hmunch := hscans.exists_munch
  refine ⟨fun x hx => ?_, pairwise_locate 0 _, hmunch, fun front back htokens => ?_⟩
  · obtain ⟨text, after, hbetween, hlongest⟩ := hmunch x hx
    rw [hbetween.stop_eq]
    exact Nat.lt_add_of_pos_right (byteLength_pos hlongest.ne_nil)
  · rw [htokens] at hscans
    exact hscans.exists_layout

end Scanner

/-- The tokens of a source end with a single end of input, and the other ones partition the
source. -/
theorem tokenize_partitions (source : String) :
    ∃ tokens, tokenize source = tokens ++ [⟨.endOfInput, .empty source.utf8ByteSize⟩] ∧
      (∀ x ∈ tokens, x.token ≠ .endOfInput) ∧ Scanner.Partitions source.toList tokens := by
  have h := Scanner.partitions_lexemes source.toList
  refine ⟨Scanner.lexemes source.toList, rfl, fun x hx => ?_, h⟩
  obtain ⟨text, after, -, hmunch⟩ := h.munch x hx
  exact hmunch.ne_endOfInput

/-! ### One token at a time -/

/-- A stream shows its tokens in turn, and then the end of input forever. -/
theorem TokenStream.current_iterate_advance (s : TokenStream) (n : Nat) :
    (advance^[n] s).current = s.toList[n]?.getD s.final := by
  obtain ⟨tokens, stop⟩ := s
  induction n generalizing tokens with
  | zero => cases tokens <;> rfl
  | succ n ih =>
      rw [Function.iterate_succ_apply]
      cases tokens with
      | nil =>
          rw [advance_nil, ih []]
          cases n <;> rfl
      | cons lexeme tokens => exact ih tokens

/-- A cursor that moved shows what the stream of its unread tokens shows one move before. -/
theorem Cursor.current_iterate_succ (c : Cursor) (n : Nat) :
    (advance^[n + 1] c).current = (TokenStream.advance^[n] c.unread).current := by
  induction n generalizing c with
  | zero => rfl
  | succ n ih => exact ih c.advance

/-- From its first move on, a cursor shows the tokens of its source in turn, and then the end of
input forever. -/
theorem Cursor.current_iterate_advance (source : String) (n : Nat) :
    (advance^[n + 1] (ofSource source)).current =
      (tokenize source)[n]?.getD (TokenStream.ofSource source).final := by
  rw [current_iterate_succ, TokenStream.current_iterate_advance]
  rfl

end ScalarLang
