import ExprReader.Console.Piece
import ExprReader.Diagnostic.Basic

/-!
# Annotated lines

A message is shown together with the line it is about. An annotation has six lines: the message,
the place, an empty line of the margin, the line of the source, the same columns with carets under
the characters that are meant, and an empty line at the end.

## Main definitions

* `Extract`: a line in three parts, of which the middle one is meant
* `Extract.cut?`: the parts of a line by byte offsets
* `Annotation`: a message with the line it is about
* `Annotation.pieces`: an annotation as output

## Main results

* `extract_cut?_eq_some_iff`: a cut gives the parts that make up the line and end at the offsets
-/

namespace ExprReader

/-! ## Lines in three parts -/

/-- A line in three parts; the highlighted one is meant. -/
structure Extract where
  before : List Char
  highlight : List Char
  after : List Char
  deriving DecidableEq, Repr

namespace Extract

/-- The parts of a line if the highlight begins and ends at byte offsets between characters. -/
def cut? (line : List Char) (start stop : Nat) : Option Extract := do
  if start ≤ stop then
    let (before, rest) ← Text.cut? start line
    let (highlight, after) ← Text.cut? (stop - start) rest
    return ⟨before, highlight, after⟩
  else none

/-- The parts of a line when both the line and the highlight are spans of one text. There are none
if the highlight does not lie within the line. -/
def within? (text : List Char) (line highlight : Span) : Option Extract := do
  if line.start ≤ highlight.start ∧ highlight.stop ≤ line.stop then
    let chars ← Text.slice? line.start line.stop text
    cut? chars (highlight.start - line.start) (highlight.stop - line.start)
  else none

/-- A cut gives parts that make up the line and begin and end at the offsets. -/
theorem extract_cut?_eq_some_iff {line : List Char} {start stop : Nat} {e : Extract} :
    cut? line start stop = some e ↔
      e.before ++ e.highlight ++ e.after = line ∧ Text.byteLength e.before = start ∧
        Text.byteLength e.before + Text.byteLength e.highlight = stop := by
  obtain ⟨before, highlight, after⟩ := e
  unfold cut?
  split
  · rename_i hle
    simp only [Option.bind_eq_bind, Option.bind_eq_some_iff, Text.cut?_eq_some_iff, Prod.exists,
      Option.pure_def, Option.some.injEq, Extract.mk.injEq]
    constructor
    · rintro ⟨_, rest, ⟨rfl, hstart⟩, _, _, ⟨rfl, hstop⟩, rfl, rfl, rfl⟩
      exact ⟨by simp, hstart, by omega⟩
    · rintro ⟨rfl, hstart, hstop⟩
      exact ⟨before, highlight ++ after, ⟨by simp, hstart⟩, highlight, after,
        ⟨rfl, by omega⟩, rfl, rfl, rfl⟩
  · simp only [reduceCtorEq, false_iff]
    rintro ⟨-, hstart, hstop⟩
    omega

end Extract

/-! ## Messages with their lines -/

/-- A message with the line it is about. -/
structure Annotation where
  severity : Severity
  /-- The name of the source. -/
  name : String
  /-- The number of the line; the first has number one. -/
  number : Nat
  extract : Extract
  message : String
  deriving DecidableEq, Repr

namespace Annotation

/-- The number of the byte at which the highlight begins; the first of the line has number one. -/
def column (a : Annotation) : Nat := Text.byteLength a.extract.before + 1

/-- The line number as it is written. -/
def numeral (a : Annotation) : List Char := Nat.toDigits 10 a.number

/-- Blanks as wide as the line number. -/
def pad (a : Annotation) : List Char := a.numeral.map fun _ => ' '

/-- One caret for each character of the highlight, and one for an empty highlight. -/
def carets (a : Annotation) : List Char := List.replicate (max 1 a.extract.highlight.length) '^'

/-- Errors stand out in red, and notes in green. -/
def accent (a : Annotation) : Piece :=
  .style true (some (match a.severity with
    | .error => .red
    | .info => .green))

/-- The style of the margin and of the place. -/
def gutter : Piece := .style false (some .blue)

/-- The annotation as output. -/
def pieces (a : Annotation) : List Piece :=
  let e := a.extract
  [a.accent, .text a.severity.name.toList,
    .style true none, .text (": ".toList ++ a.message.toList ++ ['\n']),
    gutter, .text (a.pad ++ "--> ".toList),
    .plain, .text a.name.toList,
    gutter, .text (':' :: a.numeral),
    .style false (some .cyan), .text (':' :: Nat.toDigits 10 a.column ++ ['\n']),
    gutter, .text (a.pad ++ " |\n".toList), .text (a.numeral ++ " | ".toList),
    .plain, .text e.before,
    a.accent, .text e.highlight,
    .plain, .text (e.after ++ ['\n']),
    gutter, .text (a.pad ++ " | ".toList),
    a.accent, .text (e.before.map (fun _ => ' ') ++ a.carets ++ ' ' :: a.message.toList ++ ['\n']),
    .plain, .text ['\n']]

/-- The text of the annotation, in color or without. -/
def render (inColor : Bool) (a : Annotation) : List Char := a.pieces.flatMap (Piece.chars inColor)

end Annotation

end ExprReader
