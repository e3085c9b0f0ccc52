import ScalarLang.Proofs.Grammar.Results
import ScalarLang.Proofs.Grammar.Shift

/-!
# Readers look at one token behind what they take

What a reader makes of tokens depends on those that it takes and on the next one, and on
that one only as far as it goes on the construct. With other tokens behind them, and with
more bytes in front, the same tokens are read in the same way (`Parse.Local`). No reader of
an expression takes a semicolon.
-/

namespace ScalarLang

open Reading

namespace Parse

variable {α β : Type}

/-- The run takes tokens from the front, none of them a semicolon. Moved, and in front of others,
they come to the moved value if what is next may follow them. If the run fails, they fail again in
front of the same next token. -/
inductive Local (offset : Nat) (move : α → α) (follow : List Token → Token → Prop)
    (run : List Lexeme → Result α) : List Lexeme → Result α → Prop
  | read (taken : List Lexeme) {rest : List Lexeme} {value : α} :
      (∀ lexeme ∈ taken, isSeparator lexeme = false) →
      follow (taken.map Lexeme.token) (nextToken rest) →
      (∀ rest', follow (taken.map Lexeme.token) (nextToken rest') →
        run (taken.map (Lexeme.shift offset) ++ rest') = (.ok (move value), rest')) →
      Local offset move follow run (taken ++ rest) (.ok value, rest)
  | failed (taken : List Lexeme) {rest : List Lexeme} {expected : Expectation} :
      (∀ lexeme ∈ taken, isSeparator lexeme = false) →
      (∀ rest', nextToken rest' = nextToken rest →
        run (taken.map (Lexeme.shift offset) ++ rest') = (.error expected, rest')) →
      Local offset move follow run (taken ++ rest) (.error expected, rest)

/-- Moved, and in front of others of which the first is the same, the tokens that the run takes are
read in the same way. None of them is a semicolon. -/
def Repeats (offset : Nat) (move : α → α) (run : List Lexeme → Result α) (tokens : List Lexeme)
    (r : Result α) : Prop :=
  ∃ taken, tokens = taken ++ r.2 ∧ (∀ lexeme ∈ taken, isSeparator lexeme = false) ∧
    ∀ rest', nextToken rest' = nextToken r.2 →
      run (taken.map (Lexeme.shift offset) ++ rest') = (r.1.map move, rest')

/-- Behind moved tokens of a list, what is next is the same as in the list. -/
theorem nextToken_map_append {taken rest rest' : List Lexeme} (offset : Nat)
    (h : taken = [] → nextToken rest' = nextToken rest) :
    nextToken (taken.map (Lexeme.shift offset) ++ rest') = nextToken (taken ++ rest) := by
  cases taken with
  | nil => exact h rfl
  | cons lexeme taken => rfl

namespace Local

variable {offset : Nat} {move : α → α} {follow : List Token → Token → Prop}
  {run : List Lexeme → Result α} {tokens : List Lexeme} {r : Result α}

/-- A run that fails at once, at the token that it looks at. -/
theorem refused {expected : Expectation}
    (h : ∀ rest', nextToken rest' = nextToken tokens → run rest' = (.error expected, rest')) :
    Local offset move follow run tokens (.error expected, tokens) :=
  .failed [] nofun h

/-- A run that takes a single token. -/
theorem single {token : Token} {span : Span} {value : α} (hne : isSeparator ⟨token, span⟩ = false)
    (hfollow : follow [token] (nextToken tokens))
    (h : ∀ rest', follow [token] (nextToken rest') →
      run (⟨token, span.shift offset⟩ :: rest') = (.ok (move value), rest')) :
    Local offset move follow run (⟨token, span⟩ :: tokens) (.ok value, tokens) :=
  .read [_] (List.forall_mem_singleton.2 hne) hfollow h

/-- A token in front of what is taken. -/
theorem cons {lexeme : Lexeme} {follow' : List Token → Token → Prop}
    {run' : List Lexeme → Result α} (h : Local offset move follow run tokens r)
    (hne : isSeparator lexeme = false)
    (hin : ∀ w c, follow w c → follow' (lexeme.token :: w) c)
    (hout : ∀ w c c', follow w c' → follow' (lexeme.token :: w) c → follow w c)
    (hrun : ∀ rest, run' (lexeme.shift offset :: rest) = run rest) :
    Local offset move follow' run' (lexeme :: tokens) r := by
  cases h with
  | @read taken rest value hsemicolon hnext hread =>
      refine .read (lexeme :: taken) (List.forall_mem_cons.2 ⟨hne, hsemicolon⟩)
        (hin _ _ hnext) fun rest' hrest => ?_
      exact (hrun _).trans (hread rest' (hout _ _ _ hnext hrest))
  | @failed taken rest expected hsemicolon hfail =>
      refine .failed (lexeme :: taken) (List.forall_mem_cons.2 ⟨hne, hsemicolon⟩)
        fun rest' hrest => ?_
      exact (hrun _).trans (hfail rest' hrest)

/-- Another condition on what may follow. -/
theorem mono {follow' : List Token → Token → Prop} (h : Local offset move follow run tokens r)
    (hin : ∀ w c, follow w c → follow' w c)
    (hout : ∀ w c c', follow w c' → follow' w c → follow w c) :
    Local offset move follow' run tokens r := by
  cases h with
  | read taken hsemicolon hnext hread =>
      exact .read taken hsemicolon (hin _ _ hnext) fun rest' hrest =>
        hread rest' (hout _ _ _ hnext hrest)
  | failed taken hsemicolon hfail => exact .failed taken hsemicolon hfail

/-- Another run that does the same in front of the same token. -/
theorem congr {run' : List Lexeme → Result α} (h : Local offset move follow run tokens r)
    (hne : ∀ value, r ≠ (.ok value, tokens))
    (hrun : ∀ rest, nextToken rest = nextToken tokens → run' rest = run rest) :
    Local offset move follow run' tokens r := by
  cases h with
  | @read taken rest value hsemicolon hnext hread =>
      refine .read taken hsemicolon hnext fun rest' hrest => (hrun _ ?_).trans (hread rest' hrest)
      refine nextToken_map_append offset fun hnil => ?_
      rw [hnil] at hne
      exact absurd rfl (hne value)
  | @failed taken rest expected hsemicolon hfail =>
      refine .failed taken hsemicolon fun rest' hrest => (hrun _ ?_).trans (hfail rest' hrest)
      exact nextToken_map_append offset fun _ => hrest

/-- One run behind the other. What may follow both may follow the second, and if that takes
nothing, the first. -/
theorem bind {move' : β → β} {follow' followBoth : List Token → Token → Prop}
    {f f' : α → List Lexeme → Result β} (h : Local offset move follow run tokens r)
    (hf : ∀ value rest, r = (.ok value, rest) →
      Local offset move' follow' (f' (move value)) rest (f value rest))
    (hin : ∀ u v c, (v = [] → follow u c) → follow' v c → followBoth (u ++ v) c)
    (hout : ∀ u v c c₁ c₂, follow u c₁ → follow' v c₂ → followBoth (u ++ v) c →
      follow' v c ∧ (v = [] → follow u c)) :
    Local offset move' followBoth (fun rest => (run rest).bind f') tokens (r.bind f) := by
  cases h with
  | failed taken hsemicolon hfail =>
      exact .failed taken hsemicolon fun rest' hrest =>
        congrArg (Result.bind · f') (hfail rest' hrest)
  | @read taken rest value hsemicolon hnext hread =>
      have hsecond := hf value rest rfl
      change Local offset move' followBoth _ _ (f value rest)
      generalize f value rest = r' at hsecond ⊢
      cases hsecond with
      | @read taken' rest value' hsemicolon' hnext' hread' =>
          rw [← List.append_assoc]
          refine .read (taken ++ taken') (List.forall_mem_append.2 ⟨hsemicolon, hsemicolon'⟩) ?_
            fun rest' hrest => ?_
          · rw [List.map_append]
            refine hin _ _ _ (fun hnil => ?_) hnext'
            rw [List.map_eq_nil_iff.1 hnil] at hnext
            exact hnext
          · rw [List.map_append] at hrest ⊢
            obtain ⟨hrest', hnil⟩ := hout _ _ _ _ _ hnext hnext' hrest
            have hfirst : follow (taken.map Lexeme.token)
                (nextToken (taken'.map (Lexeme.shift offset) ++ rest')) := by
              cases taken' with
              | nil => exact hnil rfl
              | cons => exact hnext
            rw [List.append_assoc, hread _ hfirst]
            exact hread' rest' hrest'
      | @failed taken' rest expected hsemicolon' hfail' =>
          rw [← List.append_assoc]
          refine .failed (taken ++ taken') (List.forall_mem_append.2 ⟨hsemicolon, hsemicolon'⟩)
            fun rest' hrest => ?_
          have hfirst : follow (taken.map Lexeme.token)
              (nextToken (taken'.map (Lexeme.shift offset) ++ rest')) := by
            rw [nextToken_map_append offset fun _ => hrest]
            exact hnext
          rw [List.map_append, List.append_assoc, hread _ hfirst]
          exact hfail' rest' hrest

theorem map (h : Local offset move follow run tokens r) (move' : β → β) (g g' : α → β)
    (hg : ∀ value, g' (move value) = move' (g value)) :
    Local offset move' follow (fun rest => (run rest).map g') tokens (r.map g) := by
  cases h with
  | read taken hsemicolon hnext hread =>
      refine .read taken hsemicolon hnext fun rest' hrest => ?_
      rw [hread rest' hrest, ← hg]
      rfl
  | failed taken hsemicolon hfail =>
      exact .failed taken hsemicolon fun rest' hrest => by rw [hfail rest' hrest]; rfl

/-- What was read in front of the tokens left is read again in front of others. -/
theorem reread {part rest : List Lexeme} {value : α}
    (h : Local offset move follow run (part ++ rest) (.ok value, rest)) :
    follow (part.map Lexeme.token) (nextToken rest) ∧
      ∀ rest', follow (part.map Lexeme.token) (nextToken rest') →
        run (part.map (Lexeme.shift offset) ++ rest') = (.ok (move value), rest') := by
  generalize htokens : part ++ rest = tokens at h
  cases h with
  | read _ _ hnext hread =>
      obtain rfl := List.append_cancel_right htokens
      exact ⟨hnext, hread⟩

theorem repeats (h : Local offset move follow run tokens r) :
    Repeats offset move run tokens r := by
  cases h with
  | read _ hsemicolon hnext hread =>
      exact ⟨_, rfl, hsemicolon, fun rest' hrest => hread rest' (hrest ▸ hnext)⟩
  | failed _ hsemicolon hfail => exact ⟨_, rfl, hsemicolon, hfail⟩

end Local

namespace Repeats

variable {offset : Nat} {move : α → α} {run : List Lexeme → Result α} {tokens : List Lexeme}
  {r : Result α}

/-- All tokens moved come to the moved result. -/
theorem run_map (h : Repeats offset move run tokens r) :
    run (tokens.map (Lexeme.shift offset)) = (r.1.map move, r.2.map (Lexeme.shift offset)) := by
  obtain ⟨taken, htokens, -, hrun⟩ := h
  have hnext : nextToken (r.2.map (Lexeme.shift offset)) = nextToken r.2 := by
    cases r.2 <;> rfl
  rw [htokens, List.map_append]
  exact hrun _ hnext

/-- What moved tokens come to in full is the moved value of the tokens. -/
theorem exists_of_run_map (h : Repeats offset move run tokens r) {value : α}
    (hrun : run (tokens.map (Lexeme.shift offset)) = (.ok value, [])) :
    ∃ value', r = (.ok value', []) ∧ move value' = value := by
  rw [h.run_map] at hrun
  obtain ⟨_ | value', rest⟩ := r
  · cases congrArg Prod.fst hrun
  · obtain rfl : rest = [] := List.map_eq_nil_iff.1 (congrArg Prod.snd hrun)
    exact ⟨value', rfl, Except.ok.inj (congrArg Prod.fst hrun)⟩

end Repeats

end Parse

end ScalarLang
