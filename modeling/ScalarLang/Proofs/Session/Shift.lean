import ScalarLang.Proofs.Emission.Shift
import ScalarLang.Proofs.Session.Simulation

/-!
# Statements further on in a text

Sessions that agree but for the places of recorded prototypes (`Session.Agrees`) answer to a
statement and to the same statement further on alike, with the place of a diagnostic as much
further on, and agree again (`Session.Realizes.handle_shift`). So nothing that a session computes
depends on places.
-/

namespace ScalarLang

/-- The diagnostic with its place moved. -/
def Diagnostic.shift (offset : Nat) (d : Diagnostic) : Diagnostic :=
  { d with span := d.span.map (Span.shift offset) }

/-- The answer with the place of its diagnostic moved. -/
def Answer.shift (offset : Nat) (a : Answer) : Answer :=
  { a with diagnostic := a.diagnostic.map (Diagnostic.shift offset) }

theorem Diagnostic.ofParseError_shift (offset : Nat) (e : ParseError) :
    ofParseError (e.shift offset) = (ofParseError e).shift offset := by
  cases e <;> rfl

theorem Diagnostic.ofEmissionError_shift (offset : Nat) (e : EmissionError) :
    ofEmissionError (e.shift offset) = (ofEmissionError e).shift offset := by
  cases e <;> rfl

namespace Session

/-- The sessions are in the same state, but for the places of recorded prototypes. -/
structure Agrees (s s' : Session) : Prop where
  settings : s'.settings = s.settings
  openUnit : s'.openUnit = s.openUnit
  engine : s'.engine = s.engine
  bindings : s'.bindings = s.bindings
  prototypes : s'.prototypes.map Prototype.unplaced = s.prototypes.map Prototype.unplaced
  sealedUnits : s'.sealedUnits = s.sealedUnits

theorem Agrees.refl (s : Session) : s.Agrees s := ⟨rfl, rfl, rfl, rfl, rfl, rfl⟩

/-- The second result is the first one, with the place of an error moved and agreeing sessions. -/
inductive Moved {α : Type} (offset : Nat) :
    Except EmissionError α × Session → Except EmissionError α × Session → Prop
  | ok (value : α) {s s' : Session} : s.Agrees s' → Moved offset (.ok value, s) (.ok value, s')
  | error (error : EmissionError) {s s' : Session} : s.Agrees s' →
      Moved offset (.error error, s) (.error (error.shift offset), s')

section Agrees

variable {s s' : Session} {offset : Nat}

theorem Agrees.emit {α : Type} (h : s.Agrees s') {x x' : Emit α} (hx : Emit.Moves offset x x') :
    Moved offset (s.emit x) (s'.emit x') := by
  rw [Session.emit, Session.emit, hx, h.openUnit, EStateM.adaptExcept]
  cases x s.openUnit with
  | ok value u => exact .ok value { h with openUnit := rfl }
  | error error u => exact .error error { h with openUnit := rfl }

theorem Moved.record {p : Prototype} {r r' : Except EmissionError Signature × Session}
    (h : Moved offset r r') :
    Moved offset (Session.record p r) (Session.record (p.shift offset) r') := by
  cases h with
  | ok signature h =>
      exact .ok signature { h with prototypes := congrArg (p.unplaced :: ·) h.prototypes }
  | error error h => exact .error error h

theorem Agrees.code?_eq (h : s.Agrees s') : s'.code? = s.code? := by
  funext signature
  rw [code?, code?, h.settings, h.openUnit]

/-- The answers to a definition or an external declaration. -/
theorem answer_of_moved {r r' : Except EmissionError Signature × Session} (h : Moved offset r r')
    (outcome : Option String → Outcome) :
    let answer (r : Except EmissionError Signature × Session) : Answer × Session :=
      match r with
      | (.ok signature, s) => (.success (outcome (s.code? signature)), s)
      | (.error error, s) => (.failure (.ofEmissionError error), s)
    (answer r').1 = (answer r).1.shift offset ∧ (answer r).2.Agrees (answer r').2 := by
  intro answer
  cases h with
  | ok signature h =>
      dsimp only [answer]
      rw [h.code?_eq]
      exact ⟨rfl, h⟩
  | error error h =>
      exact ⟨congrArg Answer.failure (Diagnostic.ofEmissionError_shift offset error), h⟩

theorem Agrees.runTopLevel (h : s.Agrees s') (symbol : String) :
    (s'.runTopLevel symbol).1 = (s.runTopLevel symbol).1 ∧
      (s.runTopLevel symbol).2.Agrees (s'.runTopLevel symbol).2 := by
  simp only [Session.runTopLevel, h.openUnit, h.engine, h.settings, h.sealedUnits]
  exact ⟨trivial, ⟨rfl, rfl, rfl, h.bindings, h.prototypes, rfl⟩⟩

end Agrees

namespace Realizes

variable {s s' : Session} {settings : Settings} {t : TreeSession}

theorem emitTopLevel_moved (h : s.Realizes settings t) (hs : s.Agrees s') (offset : Nat)
    (d : Definition) :
    Moved offset (s.emitTopLevel d) (s'.emitTopLevel (d.shift offset)) := by
  have hvalid : ∀ p ∈ s.prototypes, p.repeated? = none := fun p hp =>
    (h.sound.recorded p (h.recorded ▸ hp)).2
  rw [emitTopLevel_eq h.unbound, emitTopLevel_eq (hs.bindings.trans h.unbound)]
  exact hs.emit (d.moves_emit hs.prototypes hvalid)

theorem define_moved (h : s.Realizes settings t) (hs : s.Agrees s') (offset : Nat)
    (d : Definition) :
    Moved offset (s.define d) (s'.define (d.shift offset)) := by
  have hmoved := h.emitTopLevel_moved hs offset d
  have hanonymous : (d.shift offset).prototype.isAnonymous = d.prototype.isAnonymous := rfl
  rw [define, define, hanonymous]
  split
  · exact hmoved
  · exact hmoved.record

theorem handleTopLevel_shift (h : s.Realizes settings t) (hs : s.Agrees s') (offset : Nat)
    (d : Definition) :
    (s'.handleTopLevel (d.shift offset)).1 = (s.handleTopLevel d).1.shift offset ∧
      (s.handleTopLevel d).2.Agrees (s'.handleTopLevel (d.shift offset)).2 := by
  have hmoved := h.emitTopLevel_moved hs offset d
  rw [Session.handleTopLevel, Session.handleTopLevel]
  generalize s.emitTopLevel d = r at hmoved ⊢
  generalize s'.emitTopLevel (d.shift offset) = r' at hmoved ⊢
  cases hmoved with
  | error error hagrees =>
      exact ⟨congrArg Answer.failure (Diagnostic.ofEmissionError_shift offset error), hagrees⟩
  | @ok signature emitted emitted' hagrees =>
      obtain ⟨hrun, hagrees'⟩ := hagrees.runTopLevel d.prototype.name
      have hspan : (d.shift offset).body.span = d.body.span.shift offset := d.body.span_shift offset
      rw [show (d.shift offset).prototype.name = d.prototype.name from rfl, hspan]
      dsimp only
      rw [hrun, hagrees.code?_eq]
      cases (emitted.runTopLevel d.prototype.name).1.result with
      | ok value => exact ⟨rfl, hagrees'⟩
      | error error => exact ⟨rfl, hagrees'⟩

theorem handle_shift (h : s.Realizes settings t) (hs : s.Agrees s') (offset : Nat)
    (statement : Statement) :
    (s'.handle (statement.shift offset)).1 = (s.handle statement).1.shift offset ∧
      (s.handle statement).2.Agrees (s'.handle (statement.shift offset)).2 := by
  cases statement with
  | definition d =>
      exact answer_of_moved (h.define_moved hs offset d) fun code => .defined d.prototype.name code
  | external p =>
      have hmoved : Moved offset (s.declare p) (s'.declare (p.shift offset)) :=
        (hs.emit p.moves_emit).record
      exact answer_of_moved hmoved fun code => .declared p.name code
  | topLevel d => exact h.handleTopLevel_shift hs offset d
  | malformed error =>
      exact ⟨congrArg Answer.failure (Diagnostic.ofParseError_shift offset error), hs⟩
  | endOfInput => exact ⟨rfl, hs⟩

theorem handleAll_shift (h : s.Realizes settings t) (hs : s.Agrees s') (offset : Nat)
    {statements : List Statement} (hnamed : ∀ statement ∈ statements, statement.Named) :
    (s'.handleAll (statements.map (Statement.shift offset))).1 =
        (s.handleAll statements).1.map (Answer.shift offset) ∧
      (s.handleAll statements).2.Agrees
        (s'.handleAll (statements.map (Statement.shift offset))).2 := by
  induction statements generalizing s s' t with
  | nil => exact ⟨rfl, hs⟩
  | cons statement statements ih =>
      obtain ⟨hfirst, hlater⟩ := List.forall_mem_cons.1 hnamed
      obtain ⟨hanswer, hagrees⟩ := h.handle_shift hs offset statement
      obtain ⟨hanswers, hagrees'⟩ := ih (h.handle hfirst).2 hagrees hlater
      rw [List.map_cons, handleAll_cons, handleAll_cons, List.map_cons, hanswer, hanswers]
      exact ⟨rfl, hagrees'⟩

end Realizes

end Session

end ScalarLang
