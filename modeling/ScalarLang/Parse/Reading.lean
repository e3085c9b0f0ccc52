import ScalarLang.Parse.Failure

/-!
# Results of readers

A reader takes tokens from the front of a list. `Reading α limit` is what it
made of them: a value and the tokens behind it, or what it expected and the
tokens from the offending one on. The bound on the tokens left is part of the
result, so readers can call each other on what is left. A reading without its
bound is a `Reading.Result`.
-/

namespace ScalarLang

/-- The outcome of reading a value of type `α`. A success leaves fewer than `limit` tokens, and
a failure at most so many. -/
inductive Reading (α : Type) (limit : Nat) where
  | read (value : α) (rest : List Lexeme) (shorter : rest.length < limit)
  | failed (expected : Expectation) (rest : List Lexeme) (bounded : rest.length ≤ limit)

namespace Reading

variable {α β : Type} {limit limit' : Nat}

/-- The tokens behind a token are fewer than those from it on. -/
theorem length_lt (rest : List Lexeme) : rest.length < rest.length + 1 := Nat.lt_succ_self _

theorem length_le (rest : List Lexeme) : rest.length ≤ rest.length + 1 := Nat.le_succ _

theorem length_le_self (tokens : List Lexeme) : tokens.length ≤ tokens.length := Nat.le_refl _

/-- The tokens left: those behind the value, or those from the offending token on. -/
def rest : Reading α limit → List Lexeme
  | read _ rest _ | failed _ rest _ => rest

/-- Changes the value read. -/
def map (f : α → β) : Reading α limit → Reading β limit
  | read value rest shorter => read (f value) rest shorter
  | failed expected rest bounded => failed expected rest bounded

/-- Loosens the bound on the tokens left. -/
def weaken (le : limit ≤ limit') : Reading α limit → Reading α limit'
  | read value rest shorter => read value rest (Nat.lt_of_lt_of_le shorter le)
  | failed expected rest bounded => failed expected rest (Nat.le_trans bounded le)

/-- The value or what was expected, and the tokens left. -/
abbrev Result (α : Type) := Except Expectation α × List Lexeme

def result : Reading α limit → Result α
  | read value rest _ => (.ok value, rest)
  | failed expected rest _ => (.error expected, rest)

@[simp] theorem result_read (value : α) (rest : List Lexeme) (shorter : rest.length < limit) :
    (read value rest shorter).result = (.ok value, rest) := rfl

@[simp] theorem result_failed (expected : Expectation) (rest : List Lexeme)
    (bounded : rest.length ≤ limit) :
    (failed expected rest bounded : Reading α limit).result = (.error expected, rest) := rfl

namespace Result

def bind (r : Result α) (f : α → List Lexeme → Result β) : Result β :=
  match r with
  | (.ok value, rest) => f value rest
  | (.error expected, rest) => (.error expected, rest)

def map (r : Result α) (f : α → β) : Result β := r.bind fun value rest => (.ok (f value), rest)

@[simp] theorem bind_ok (value : α) (rest : List Lexeme) (f : α → List Lexeme → Result β) :
    bind (.ok value, rest) f = f value rest := rfl

@[simp] theorem bind_error (expected : Expectation) (rest : List Lexeme)
    (f : α → List Lexeme → Result β) : bind (.error expected, rest) f = (.error expected, rest) :=
  rfl

@[simp] theorem map_ok (value : α) (rest : List Lexeme) (f : α → β) :
    map (.ok value, rest) f = (.ok (f value), rest) := rfl

@[simp] theorem map_error (expected : Expectation) (rest : List Lexeme) (f : α → β) :
    map (.error expected, rest) f = (.error expected, rest) := rfl

variable {r : Result α} {rest : List Lexeme} {value : β}

theorem bind_eq_ok_iff {f : α → List Lexeme → Result β} :
    r.bind f = (.ok value, rest) ↔
      ∃ first rest', r = (.ok first, rest') ∧ f first rest' = (.ok value, rest) := by
  obtain ⟨_ | first, rest'⟩ := r <;> simp [bind, and_assoc]

theorem map_map {γ : Type} (r : Result α) (f : α → β) (g : β → γ) :
    (r.map f).map g = r.map fun value => g (f value) := by
  obtain ⟨_ | _, _⟩ := r <;> rfl

theorem map_eq_ok_iff {f : α → β} :
    r.map f = (.ok value, rest) ↔ ∃ first, r = (.ok first, rest) ∧ f first = value := by
  constructor
  · intro h
    obtain ⟨first, rest', heq, hvalue⟩ := bind_eq_ok_iff.1 h
    cases hvalue
    exact ⟨first, heq, rfl⟩
  · rintro ⟨first, rfl, rfl⟩
    rfl

end Result

@[simp] theorem result_map (f : α → β) (r : Reading α limit) :
    (r.map f).result = r.result.map f := by
  cases r <;> rfl

@[simp] theorem result_weaken (le : limit ≤ limit') (r : Reading α limit) :
    (r.weaken le).result = r.result := by
  cases r <;> rfl

theorem length_lt_of_result {r : Reading α limit} {value : α} {rest : List Lexeme}
    (h : r.result = (.ok value, rest)) : rest.length < limit := by
  cases r with
  | read value' rest' shorter =>
      cases h
      exact shorter
  | failed => cases h

/-- A reading is its result: the bound is a proof. -/
theorem result_injective {r r' : Reading α limit} (h : r.result = r'.result) : r = r' := by
  cases r <;> cases r' <;> cases h <;> rfl

end Reading

end ScalarLang
