import ExprReader.Diagnostic.Annotation
import ExprReader.Source.Basic

/-!
# Showing diagnostics

A diagnostic is shown on the line of its source on which it begins. A span that goes beyond what is
shown of that line is clipped to it.

## Main definitions

* `DisplayError`: why a diagnostic cannot be shown
* `Annotation.ofDiagnostic`: a diagnostic with its line
* `Diagnostic.write`, `Diagnostic.writeAll`: write one diagnostic, or all of a list
-/

namespace ExprReader

/-- Why a diagnostic cannot be shown. -/
inductive DisplayError
  /-- What is meant does not lie within the line, or not on whole characters. -/
  | outsideLine
  /-- The source has no such place. -/
  | noPlace (cause : PlaceError)
  /-- The stream takes no more. -/
  | broken (reason : String)
  deriving DecidableEq, Repr

/-- The error in words. -/
def DisplayError.message : DisplayError → String
  | outsideLine => "highlighted range does not lie within the reported line"
  | noPlace cause => "cannot locate diagnostic: " ++ cause.message
  | broken reason => "cannot write diagnostic: " ++ reason

/-- The span that is highlighted on a shown line, given in bytes from the beginning of the line:
both ends are clipped to the line, and the end is not before the beginning. -/
def Span.clip (s : Span) (lineStart length : Nat) : Span :=
  -- a start behind the shown line is at a line ending, which is not shown
  let start := min (s.start - lineStart) length
  ⟨start, max start (min length (s.stop - lineStart))⟩

/-- A diagnostic with the line of the source on which it begins. -/
def Annotation.ofDiagnostic (source : Source) (d : Diagnostic) :
    Except DisplayError Annotation := do
  let index ← (source.lineIndex d.span.start).mapError .noPlace
  let line ← (source.line index).mapError .noPlace
  let span := d.span.clip line.start (Text.byteLength line.shown)
  match Extract.cut? line.shown span.start span.stop with
  | some extract => return ⟨d.severity, source.name, index + 1, extract, d.message⟩
  | none => throw .outsideLine

/-- Writes an annotation. -/
def Annotation.write (a : Annotation) : Console.Action DisplayError Unit :=
  EStateM.adaptExcept .broken (Piece.writeAll a.pieces)

namespace Diagnostic

/-- Writes a diagnostic of a source. Nothing is written if it has no place there. -/
def write (source : Source) (d : Diagnostic) : Console.Action DisplayError Unit :=
  match Annotation.ofDiagnostic source d with
  | .ok annotation => annotation.write
  | .error reason => throw reason

/-- Writes diagnostics in order, up to the first that cannot be written. -/
def writeAll (source : Source) : List Diagnostic → Console.Action DisplayError Unit
  | [] => pure ()
  | d :: rest => do
    d.write source
    writeAll source rest

end Diagnostic

end ExprReader
