/-!
# Coloured text

Text in colour stands between the control sequence that sets the colour and the
one that resets it. Without colour it stands alone.
-/

namespace ScalarLang

/-- Whether text is written in colour. -/
inductive Palette where
  | plain
  | coloured
  deriving DecidableEq, Repr, Inhabited

namespace Palette

/-- The control sequence with the given parameters. -/
def control (parameters : String) : String := "\x1b[" ++ parameters ++ "m"

/-- A text in the style with the given parameters, whatever the palette. -/
def always (parameters text : String) : String := control parameters ++ text ++ control "0"

/-- A text in the style with the given parameters. -/
def paint (p : Palette) (parameters text : String) : String :=
  match p with
  | plain => text
  | coloured => always parameters text

/-- A text in the given style, each character by itself. -/
def paintEach (p : Palette) (parameters : String) (text : List Char) : String :=
  String.join (text.map fun c => p.paint parameters (String.singleton c))

@[simp] theorem paint_plain (parameters text : String) : plain.paint parameters text = text := rfl

end Palette

end ScalarLang
