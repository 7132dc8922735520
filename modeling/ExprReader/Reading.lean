import ExprReader.Expr.Parse
import ExprReader.Token.Scan

/-!
# A text read as an expression

A whole text is scanned, and then one expression is read from its tokens.

## Main definitions

* `Reading`: tokens, expression and diagnostics of a text
* `Reading.ofText`: reads a text
* `Reading.hasFault`: the text has a fault
-/

namespace ExprReader

/-- All that is found in a text. -/
structure Reading where
  tokens : List Token
  result : Except ParseFailure Expr
  /-- What was found while scanning comes before what was found while parsing. -/
  diagnostics : List Diagnostic

namespace Reading

/-- Reads a text. If scanning found faults and left no token to read, the faults say enough, and
the parser is not asked. -/
def ofText (text : String) : Reading :=
  let scan := Scan.ofText text
  -- comments alone are no tokens to read
  if Diagnostic.anyFault scan.diagnostics && scan.tokens.all (fun t => t.isComment || t.isEof) then
    ⟨scan.tokens, .error .noEnd, scan.diagnostics⟩
  else
    let parse := Parse.ofTokens scan.tokens
    ⟨scan.tokens, parse.result, scan.diagnostics ++ parse.diagnostics⟩

/-- A fault was reported, or there is no expression. -/
def hasFault (r : Reading) : Bool := Diagnostic.anyFault r.diagnostics || !r.result.isOk

/-- Two texts have the same expression, or none for the same reason. -/
def sameResult (r s : Reading) : Bool :=
  match r.result, s.result with
  | .ok a, .ok b => a == b
  | .error a, .error b => a == b
  | _, _ => false

/-- Two texts have the same tokens, the same result and the same diagnostics. -/
protected def beq (r s : Reading) : Bool :=
  r.tokens == s.tokens && r.sameResult s && r.diagnostics == s.diagnostics

instance : BEq Reading := ⟨Reading.beq⟩

end Reading

end ExprReader
