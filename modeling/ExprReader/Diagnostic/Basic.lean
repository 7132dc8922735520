import ExprReader.Text.Quoted
import ExprReader.Text.Span

/-!
# Diagnostics

A diagnostic says something about a stretch of a text: either that there is a fault, with its
cause, or a note in free words.

## Main definitions

* `Fault`: the causes of faults in a text
* `Diagnostic`: a fault or a note, and its span
* `Diagnostic.anyFault`: a list of diagnostics holds a fault
* `Diagnostic.faults`: the faults of a list of diagnostics, in order
-/

namespace ExprReader

/-- Why a text is no expression. -/
inductive Fault
  /-- A string has no quote at its end. -/
  | openString
  /-- A character begins no token. -/
  | strayCharacter (found : Char)
  /-- An operand is missing. -/
  | missingOperand
  /-- A closing parenthesis is missing. -/
  | missingParen
  /-- A number token is not the decimal writing of a number. -/
  | malformedNumber (lexeme : String)
  deriving DecidableEq, Repr

/-- The fault in words. -/
def Fault.message : Fault → String
  | openString => "Unterminated string."
  | strayCharacter found => "Unexpected character " ++ Text.quoted found ++ "."
  | missingOperand => "Expect expression."
  | missingParen => "Expect ')' after expression."
  | malformedNumber lexeme => "Invalid number literal '" ++ lexeme ++ "'."

/-- How much a diagnostic matters. -/
inductive Severity
  | error
  | info
  deriving DecidableEq, Repr

/-- The name of a severity, as it heads a diagnostic. -/
def Severity.name : Severity → String
  | error => "error"
  | info => "info"

/-- What a diagnostic says. -/
inductive Diagnostic.Body
  | fault (cause : Fault)
  | note (words : String)
  deriving DecidableEq, Repr

/-- Something said about a stretch of a text. -/
structure Diagnostic where
  body : Diagnostic.Body
  span : Span
  deriving DecidableEq, Repr

namespace Diagnostic

/-- The report of a fault. -/
def error (cause : Fault) (span : Span) : Diagnostic := ⟨.fault cause, span⟩

/-- A note in free words. -/
def info (words : String) (span : Span) : Diagnostic := ⟨.note words, span⟩

/-- Faults are errors, and notes inform. -/
def severity (d : Diagnostic) : Severity :=
  match d.body with
  | .fault _ => .error
  | .note _ => .info

/-- The cause of a fault; a note has none. -/
def fault? (d : Diagnostic) : Option Fault :=
  match d.body with
  | .fault cause => some cause
  | .note _ => none

/-- What is said, in words. -/
def message (d : Diagnostic) : String :=
  match d.body with
  | .fault cause => cause.message
  | .note words => words

/-- The diagnostic with its span moved by `n` bytes. -/
def shift (n : Nat) (d : Diagnostic) : Diagnostic := { d with span := d.span.shift n }

/-- Some diagnostic of the list reports a fault. -/
def anyFault (ds : List Diagnostic) : Bool := ds.any fun d => d.fault?.isSome

/-- The faults that a list of diagnostics reports, in order. -/
def faults (ds : List Diagnostic) : List Fault := ds.filterMap fault?

@[simp] theorem faults_nil : faults [] = [] := rfl

@[simp] theorem faults_append (ds ds' : List Diagnostic) :
    faults (ds ++ ds') = faults ds ++ faults ds' := List.filterMap_append

@[simp] theorem faults_singleton_error (cause : Fault) (span : Span) :
    faults [.error cause span] = [cause] := rfl

end Diagnostic

end ExprReader
