/-!
# Spans of source text

A span is the half-open range of byte offsets that a token or a tree node
occupies in the text it was read from. `Span.cover` joins the span that opens a
construct with the one that closes it.
-/

namespace ScalarLang

/-- A half-open range of byte offsets into a source text. -/
structure Span where
  start : Nat
  stop : Nat
  deriving DecidableEq, Repr, Inhabited

namespace Span

def empty (offset : Nat) : Span := ⟨offset, offset⟩

/-- The span from the start of `first` to the end of `last`. -/
def cover (first last : Span) : Span := ⟨first.start, last.stop⟩

/-- The same span in a text that has `offset` more bytes in front. -/
def shift (offset : Nat) (span : Span) : Span := ⟨span.start + offset, span.stop + offset⟩

@[simp] theorem start_cover (first last : Span) : (first.cover last).start = first.start := rfl

@[simp] theorem stop_cover (first last : Span) : (first.cover last).stop = last.stop := rfl

@[simp] theorem shift_zero (span : Span) : span.shift 0 = span := rfl

theorem shift_cover (offset : Nat) (first last : Span) :
    (first.cover last).shift offset = (first.shift offset).cover (last.shift offset) := rfl

end Span

end ScalarLang
