import ScalarLang.Proofs.Emission.Requirements
import ScalarLang.Proofs.Grammar.Program

/-!
# Operators of parsed programs

A tree keeps the operator of a binary expression as its character. Every operator that
the grammar derives is one that the language knows, so no parsed statement has an
unknown one (`Statement.Parsed.isSome_ofChar?`).
-/

namespace ScalarLang

theorem Expr.terms_eq_map (es : List Expr) : Expr.terms es = es.map Expr.term := by
  induction es with
  | nil => rfl
  | cons e es ih => rw [Expr.terms, ih, List.map_cons]

/-- An expression whose tokens the grammar derives has known operators. -/
theorem Derives.isSome_ofChar? {level : Level} {w : List Token} {tree : Term}
    (h : Derives level w tree) {e : Expr} (he : e.term = tree) :
    ∀ op ∈ e.operators, (Operator.ofChar? op).isSome := by
  induction h generalizing e with
  | @operator o u v lhs rhs _ _ ihl ihr =>
      cases e with
      | binary op l r span =>
          obtain ⟨rfl, hl, hr⟩ := Term.binary.inj he
          rw [Expr.operators, List.forall_mem_append, List.forall_mem_append,
            List.forall_mem_singleton, Operator.ofChar?_char]
          exact ⟨ihl hl, ihr hr, rfl⟩
      | number | var | call => cases he
  | tighter _ ih => exact ih he
  | number | var =>
      cases e with
      | number | var => exact List.forall_mem_nil _
      | binary | call => cases he
  | call name args _ ih =>
      cases e with
      | call callee es span =>
          obtain ⟨-, hes⟩ := Term.call.inj he
          rw [Expr.terms_eq_map] at hes
          intro op hop
          obtain ⟨e, hmem, hop⟩ := Expr.mem_operatorsAll.1 hop
          have hterm : e.term ∈ args.map Prod.snd := hes ▸ List.mem_map_of_mem hmem
          obtain ⟨arg, harg, heq⟩ := List.mem_map.1 hterm
          exact ih arg harg heq.symm op hop
      | number | var | binary => cases he
  | parens _ ih => exact ih he

namespace TokenStream

/-- A statement of a program is read somewhere in it. -/
theorem exists_of_mem_program {s : TokenStream} {statement : Statement}
    (hmem : statement ∈ s.program.1) : ∃ s' : TokenStream, s'.statement.1 = statement := by
  unfold program at hmem
  split at hmem
  · cases hmem
  next hlast =>
    have fewer := s.length_ahead_statement_lt (Bool.eq_false_iff.2 hlast)
    rcases List.mem_cons.1 hmem with rfl | hmem
    · exact ⟨s, rfl⟩
    · exact exists_of_mem_program hmem
  termination_by s.ahead.length

/-- A statement that was read in full is written somewhere. -/
theorem exists_written {s : TokenStream} {phrase : Phrase}
    (h : s.statement.1.phrase? = some phrase) : ∃ w c, phrase.Written w c := by
  obtain ⟨-, hgives⟩ := (s.statement_phrase_iff s.statement.2 phrase).1 ⟨h, rfl⟩
  obtain ⟨taken, -, hwritten⟩ := (Parse.gives_statementHere _ _ _).1 hgives
  exact ⟨_, _, hwritten⟩

end TokenStream

/-- The operators of a parsed definition are known. -/
theorem Statement.Parsed.isSome_ofChar? {d : Definition} (h : (Statement.definition d).Parsed) :
    ∀ op ∈ d.body.operators, (Operator.ofChar? op).isSome := by
  rcases h with hend | ⟨source, hmem⟩
  · cases hend
  · obtain ⟨s, hs⟩ := TokenStream.exists_of_mem_program hmem
    have hphrase : s.statement.1.phrase? =
        some (.definition d.prototype.name d.prototype.params d.body.term) := by
      rw [hs]
      rfl
    obtain ⟨w, c, hwritten⟩ := TokenStream.exists_written hphrase
    cases hwritten with
    | definition name params hderives _ => exact hderives.isSome_ofChar? rfl

end ScalarLang
