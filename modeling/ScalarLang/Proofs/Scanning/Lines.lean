import ScalarLang.Proofs.Scanning.Partition

/-!
# Tokens line by line

No token goes on across a line break, and a line break closes a comment. So the tokens of a text
with a line break in it are those in front of the line break and, as much further on, those
behind it (`Scanner.lexemes_append_newline`).
-/

namespace ScalarLang

namespace Scanner

/-- A longest match stays one in front of a text that starts in the same way, or with what no token
goes on with. -/
theorem Munch.congr_head? {token : Token} {text after after' : List Char}
    (h : Munch token text after)
    (hafter : ∀ c ∈ after'.head?, after.head? = some c ∨ goesOn c = false) :
    Munch token text after' := by
  have hmaximal {next : Char → Bool} (hnext : ∀ c ∈ after.head?, next c = false)
      (hgoes : ∀ c, goesOn c = false → next c = false) : ∀ c ∈ after'.head?, next c = false :=
    fun c hc => (hafter c hc).elim (hnext c) (hgoes c)
  have hword (c : Char) (hc : goesOn c = false) : isWordChar c = false :=
    (Bool.or_eq_false_iff.1 hc).1
  have hnumeral (c : Char) (hc : goesOn c = false) : Decimal.isNumeralChar c = false :=
    (Bool.or_eq_false_iff.1 hc).2
  cases h with
  | keyword h hk => exact .keyword ⟨h.run, hmaximal h.maximal hword⟩ hk
  | identifier h hne => exact .identifier ⟨h.run, hmaximal h.maximal hword⟩ hne
  | number h hvalue => exact .number ⟨h.run, hmaximal h.maximal hnumeral⟩ hvalue
  | malformed h hpoints => exact .malformed ⟨h.run, hmaximal h.maximal hnumeral⟩ hpoints
  | punctuator p => exact .punctuator p after'
  | stray hc => exact .stray hc

/-- A line break closes a last comment. -/
theorem Trailer.append_newline {gap : List Char} (h : Trailer gap) : Layout (gap ++ ['\n']) := by
  have hline : Layout ['\n'] := .blank rfl .nil
  cases h with
  | layout h => exact h.append hline
  | @comment gap body h hbody =>
      rw [List.append_assoc]
      exact h.append (.comment hbody rfl .nil)

theorem byteLength_newline (text : List Char) :
    byteLength (text ++ ['\n']) = byteLength text + 1 := by
  rw [byteLength_append]
  rfl

/-- A text is cut at a line break. -/
theorem Scans.append_newline {offset : Nat} {text rest : List Char} {tokens tokens' : List Lexeme}
    (h : Scans offset text tokens) (h' : Scans (offset + (byteLength text + 1)) rest tokens') :
    Scans offset (text ++ '\n' :: rest) (tokens ++ tokens') := by
  induction h with
  | @done offset gap hgap =>
      rw [← byteLength_newline] at h'
      have hscans := Scans.append_left hgap.append_newline h'
      rwa [List.append_assoc] at hscans
  | @token start gap text after token tokens span hgap hmunch hstart hstop hafter ih =>
      rw [List.append_assoc, List.append_assoc]
      refine .token hgap (hmunch.congr_head? fun c hc => ?_) hstart hstop (ih ?_)
      · cases after with
        | nil =>
            obtain rfl : '\n' = c := Option.some.inj hc
            exact .inr (by decide)
        | cons d after => exact .inl hc
      · rw [hstop, hstart]
        rw [byteLength_append, byteLength_append] at h'
        simpa only [Nat.add_assoc] using h'

/-- The tokens in front of a line break, and then those behind it. -/
theorem lexemes_append_newline (text rest : List Char) :
    lexemes (text ++ '\n' :: rest) =
      lexemes text ++ (lexemes rest).map (Lexeme.shift (byteLength text + 1)) := by
  have hrest := scans_pieces (0 + (byteLength text + 1)) rest
  have hscans := (scans_pieces 0 text).append_newline hrest
  rw [lexemes, scans_iff.1 hscans, Nat.zero_add, locate_eq_map_shift (byteLength text + 1)]
  rfl

/-- A line break at the end adds no token. -/
theorem lexemes_newline (text : List Char) : lexemes (text ++ ['\n']) = lexemes text := by
  have hnone : lexemes [] = [] := congrArg (locate 0) pieces_nil
  rw [lexemes_append_newline, hnone]
  exact List.append_nil _

end Scanner

end ScalarLang
