import ScalarLang.Diagnostic.Basic
import ScalarLang.Text.Lines
import ScalarLang.Text.Paint
import ScalarLang.Text.Width

/-!
# Reports

A report shows a diagnostic with the source lines that it points at, and marks
the place. Places are counted in characters of the source. A report whose place
lies outside the source is its header alone.

A place on one line is underlined, with the label on a line of its own below. A
place on several lines is bracketed at the left, from its first to its last line,
and the lines between are left out.
-/

namespace ScalarLang

namespace Report

def errorStyle : String := "31"

def internalStyle : String := "35"

/-- The style of the margin, of its line numbers and of the frame. -/
def marginStyle : String := "38;5;246"

def skippedStyle : String := "38;5;240"

def sourceStyle : String := "38;5;249"

def noteStyle : String := "38;5;115"

/-- The style of the marked place and of its marks. -/
def labelStyle : String := "38;5;201"

/-- The style of the part of a label that names an offender. -/
def offender (p : Palette) (text : String) : String :=
  match p with
  | .plain => text
  | .coloured => Palette.control "1" ++ Palette.control "91" ++ text ++
      Palette.control "0" ++ Palette.control "0"

def label (p : Palette) : Stage → String
  | .tokenize => offender p "unrecognized input" ++ " here"
  | .parse => offender p "unexpected token" ++ " here"
  | .emit => "while emitting this"
  | .execute => "while evaluating this"
  | .internal => "while handling this"

/-- The first line of a report. The header of an internal error is always coloured. -/
def header (p : Palette) (d : Diagnostic) : String :=
  let title :=
    match d.stage with
    | .internal => Palette.always internalStyle ("[" ++ d.stage.code ++ "] Internal error:")
    | stage => p.paint errorStyle ("[" ++ stage.code ++ "] Error:")
  title ++ " " ++ d.message

/-- A place in the source, from its first to its last line. -/
structure Place where
  source : SourceText
  span : Span
  first : SourceLine
  last : SourceLine
  deriving DecidableEq, Repr, Inhabited

namespace Place

/-- The place of a span, unless the span reaches out of the source. The character in front of the
end of the span decides on the last line. -/
def of? (source : SourceText) (span : Span) : Option Place := do
  let first ← source.lineAt? span.start
  let last ← if span.start < span.stop then source.lineAt? (span.stop - 1) else some first
  return ⟨source, span, first, last⟩

def contains (p : Place) (character : Nat) : Bool :=
  p.span.start ≤ character && character < p.span.stop

def isInline (p : Place) : Bool := p.first.number = p.last.number

/-- Whether the place takes in the end of the source as if it were a character. -/
def takesEnd (p : Place) : Bool := p.span.stop = p.source.length + 1

def startsSecondLine (p : Place) : Bool :=
  p.source.lines.head?.any (·.text.length = p.span.start)

def numberWidth (p : Place) : Nat := (Nat.repr p.last.number).length

end Place

/-- A text of `n` equal characters. -/
def repeated (n : Nat) (c : Char) : String := String.ofList (List.replicate n c)

def numbered (p : Palette) (width number : Nat) : String :=
  let text := Nat.repr number
  " " ++ p.paint marginStyle (repeated (width - text.length) ' ' ++ text ++ " │") ++ " "

/-- The margin beside a line that is not a source line. -/
def unnumbered (p : Palette) (width : Nat) (bar : String) : String :=
  " " ++ p.paint skippedStyle (repeated (width + 1) ' ' ++ bar) ++ " "

def blank (p : Palette) (width : Nat) : String := unnumbered p width "│"

/-- The margin beside source lines that are left out. -/
def gap (p : Palette) (width : Nat) : String := unnumbered p width "┆"

/-- A line of source text without the white space at its end. -/
def trimmed (line : SourceLine) : List Char :=
  (line.text.reverse.dropWhile Width.isWhiteSpace).reverse

/-- The text of a source line, the marked place in the style of marks. White space shows as
blanks. -/
def sourceText (p : Palette) (place : Place) (line : SourceLine) : String :=
  String.join <| (trimmed line).mapIdx fun index c =>
    let style := if place.contains (line.offset + index) then labelStyle else sourceStyle
    if Width.isWhiteSpace c then
      p.paintEach style (List.replicate (Width.columns index c) ' ')
    else p.paint style (String.singleton c)

/-- The number of columns at an index of a source line. Beyond the text every index has one. -/
def columnsAt (line : SourceLine) (index : Nat) : Nat :=
  match (trimmed line)[index]? with
  | some c => Width.columns index c
  | none => 1

/-- Marks over the columns of one character: `mark` in the first of them and `fill` in the others.
There is no mark where there is no column. -/
def marks (p : Palette) (columns : Nat) (mark fill : Char) : String :=
  match columns with
  | 0 => ""
  | more + 1 => p.paintEach labelStyle (mark :: List.replicate more fill)

/-- The line below a marked place: the place is underlined, and its middle points down. -/
def underline (p : Palette) (place : Place) (line : SourceLine) (middle indices : Nat) : String :=
  String.join <| (List.range indices).map fun index =>
    let columns := columnsAt line index
    let marked := place.contains (line.offset + index)
    if index = middle then
      if marked then marks p columns '┬' '─' else marks p columns '│' ' '
    else if marked then marks p columns '─' '─'
    else repeated columns ' '

/-- The line that leads from the middle of a marked place to its label. -/
def arrow (p : Palette) (line : SourceLine) (middle indices : Nat) : String :=
  String.join <| (List.range indices).map fun index =>
    let columns := columnsAt line index
    if index = middle then marks p columns '╰' '─'
    else if middle < index then marks p columns '─' '─'
    else repeated columns ' '

/-- How far an arrow reaches beyond the marked place. -/
def arrowReach : Nat := 2

/-- The lines of a report on a place on one line. A place that reaches beyond its line is not
shown. -/
def inlineBody (p : Palette) (place : Place) (text : String) : List String :=
  let line := place.first
  let width := place.numberWidth
  if line.stop < place.span.stop then [blank p width]
  else
    let middle := (place.span.start + place.span.stop) / 2 - line.offset
    let indices := place.span.stop - line.offset + arrowReach
    [numbered p width line.number ++ sourceText p place line,
      blank p width ++ underline p place line middle indices,
      blank p width ++ arrow p line middle indices ++ " " ++ text]

/-- The lines of a report on a place on several lines. The last line is not shown if the place
takes in the end of the source. -/
def multilineBody (p : Palette) (place : Place) (text : String) : List String :=
  let width := place.numberWidth
  let mark (glyphs : String) : String := p.paintEach labelStyle glyphs.toList
  let opening := numbered p width place.first.number ++ mark "╭─▶ " ++
    sourceText p place place.first
  let between :=
    if place.first.number + 1 < place.last.number || place.takesEnd then
      [gap p width ++ mark "┆" ++ "   "]
    else []
  let columns := (List.range (place.last.text.length + arrowReach)).foldr
    (fun index columns => columnsAt place.last index + columns) 0
  let closing :=
    if place.takesEnd then []
    else
      [numbered p width place.last.number ++ mark "├─▶ " ++ sourceText p place place.last,
        blank p width ++ mark "│" ++ "   " ++ repeated columns ' ',
        blank p width ++ mark "╰───" ++ p.paintEach labelStyle (List.replicate columns '─') ++
          " " ++ text]
  opening :: between ++ closing

/-- The lines of a note, without their line ends. A line ends with a line feed, or with a carriage
return and a line feed; a carriage return on its own belongs to its line. -/
def noteLines : List Char → List (List Char)
  | [] => []
  | '\r' :: '\n' :: rest => [] :: noteLines rest
  | '\n' :: rest => [] :: noteLines rest
  | c :: rest => consToFirst c (noteLines rest)

/-- The lines of a note, the first of them empty. Below a place on several lines they are indented,
and the bracket goes on beside them if the place starts right behind the first source line. -/
def noteBody (p : Palette) (place : Place) (note : String) : List String :=
  let margin := blank p place.numberWidth ++
    if place.isInline then ""
    else if place.startsSecondLine then
      p.paintEach labelStyle ['│'] ++ "   "
    else "    "
  let shown :=
    match (noteLines note.toList).map String.ofList with
    | [] => []
    | first :: later =>
      (margin ++ p.paint noteStyle "Note" ++ ": " ++ first) :: later.map (margin ++ "      " ++ ·)
  margin :: shown

def body (p : Palette) (file : String) (d : Diagnostic) (place : Place) : List String :=
  let width := place.numberWidth
  let margin := repeated (width + 2) ' '
  let frame (glyphs : String) : String := p.paint marginStyle glyphs
  let column := place.span.start - place.first.offset + 1
  let location := file ++ ":" ++ Nat.repr place.first.number ++ ":" ++ Nat.repr column
  let text := label p d.stage
  [margin ++ frame "╭" ++ frame "─" ++ frame "[" ++ " " ++ location ++ " " ++ frame "]",
    margin ++ frame "│"] ++
  (if place.isInline then inlineBody p place text else multilineBody p place text) ++
  (match d.note with
    | some note => noteBody p place note
    | none => []) ++
  [frame (repeated (width + 2) '─' ++ "╯")]

/-- The place that the report on a diagnostic is given: the span of the diagnostic, as it is. -/
def place? (source : SourceText) (d : Diagnostic) : Option Place := d.span.bind (Place.of? source)

def lines (p : Palette) (file : String) (source : SourceText) (d : Diagnostic) : List String :=
  header p d ::
    match place? source d with
    | some place => body p file d place
    | none => []

/-- The reports on a list of diagnostics, one after the other. -/
def render (p : Palette) (file source : String) (diagnostics : List Diagnostic) : String :=
  let source := SourceText.ofString source
  String.join ((diagnostics.flatMap (lines p file source)).map (· ++ "\n"))

end Report

/-- The reports on the diagnostics that were collected. -/
def Diagnostics.render (ds : Diagnostics) (p : Palette) (file source : String) : String :=
  Report.render p file source ds.items

end ScalarLang
