import ExprReader.Diagnostic.Display
import ExprReader.FileTree
import ExprReader.Reading

/-!
# Sessions

A session reads sources and answers on a console: the tree of each expression, and what is wrong
with it. A source is a file, or one line after the other at a prompt.

## Main definitions

* `Failure`: why a session ends before its time
* `Session.answer`: answers one source
* `Session.answerFile`: answers a file
* `Session.answerNext`: answers the next line of some input
* `Session.converse`: answers the lines of some input, one by one
-/

namespace ExprReader

/-- The answer of a program to its caller. -/
inductive ExitStatus
  | success
  /-- The command line is wrong. -/
  | usage
  /-- A text has a fault. -/
  | fault
  /-- Input or output failed. -/
  | runtime
  /-- A file could not be read. -/
  | file
  deriving DecidableEq, Repr

/-- The number that stands for a status. -/
def ExitStatus.code : ExitStatus → Nat
  | success => 0
  | usage => 64
  | fault => 65
  | runtime => 70
  | file => 74

/-- Why a session ends before its time. -/
inductive Failure
  | fileNotFound (path : String)
  | fileUnreadable (path reason : String)
  | readInput (reason : String)
  | writeOutput (reason : String)
  | display (cause : DisplayError)
  deriving DecidableEq, Repr

namespace Failure

/-- The failure in words. -/
def message : Failure → String
  | fileNotFound path => "Could not find file \"" ++ path ++ "\"."
  | fileUnreadable path reason => "Could not read file \"" ++ path ++ "\": " ++ reason
  | readInput reason => "Could not read input: " ++ reason
  | writeOutput reason => "Could not write output: " ++ reason
  | display cause => cause.message

/-- The status with which a program ends after the failure. -/
def exitStatus : Failure → ExitStatus
  | fileNotFound _ | fileUnreadable _ _ => .file
  | readInput _ | writeOutput _ | display _ => .runtime

end Failure

namespace Session

/-- What can be asked of a session. -/
structure Options where
  /-- All tokens are listed before the tree. -/
  listTokens : Bool := false
  deriving DecidableEq, Repr

/-- Something that a session does. -/
abbrev Action (result : Type) := Console.Action Failure result

/-- Writes a result. -/
def print (text : String) : Action Unit :=
  EStateM.adaptExcept .writeOutput (Console.writeText .out text)

/-- Waits until the results have arrived. -/
def flush : Action Unit := EStateM.adaptExcept .writeOutput Console.flush

/-- Writes diagnostics. -/
def explain (source : Source) (ds : List Diagnostic) : Action Unit :=
  EStateM.adaptExcept .display (Diagnostic.writeAll source ds)

/-- Writes each token on a line of its own. -/
def printTokens : List Token → Action Unit
  | [] => pure ()
  | t :: rest => do
    print (t.display ++ "\n")
    printTokens rest

/-- A note for each token, at its place. -/
def notes (tokens : List Token) : List Diagnostic :=
  tokens.map fun t => .info t.kind.name t.span

/-- Lists tokens: one line of results for each, and then one note for each. -/
def listTokens (source : Source) (tokens : List Token) : Action Unit := do
  printTokens tokens
  explain source (notes tokens)

/-- Answers a source: diagnostics first, and then the tree, if there is one. The result tells
whether there was a fault. -/
def answer (options : Options) (source : Source) : Action Bool := do
  let reading := Reading.ofText source.text
  if options.listTokens then listTokens source reading.tokens
  explain source reading.diagnostics
  match reading.result with
  | .ok expr => print (expr.render ++ "\n")
  | .error _ => pure ()
  return reading.hasFault

/-- Answers a file by what reading it gave. Bytes that are no text are left for the scan to
report. -/
def answerFile (options : Options) (path : String) (content : Except FileError (List UInt8)) :
    Action Bool :=
  match content with
  | .ok bytes => answer options (Source.ofText path (String.ofList (Text.decode bytes)))
  | .error .notFound => throw (.fileNotFound path)
  | .error (.unreadable reason) => throw (.fileUnreadable path reason)

/-! ## At a prompt -/

/-- What invites the next line. -/
def invitation : String := "loxy> "

/-- The name of the source that holds the line. -/
def promptName : String := "repl"

/-- A line with nothing on it. -/
def isBlankLine (text : String) : Bool := text == "\n" || text == "\r\n"

/-- Answers one line; a blank one needs no answer. -/
def answerLine (options : Options) (source : Source) : Action Unit := do
  if isBlankLine source.text then pure ()
  else discard (answer options source)

/-- Invites the next line. -/
def invite : Action Unit := do
  print invitation
  flush

/-- Where a session goes on behind a line of its input. -/
structure Next (input : Reader) where
  /-- Still holds the line. -/
  source : Source
  rest : Reader
  shorter : rest.bytes.length < input.bytes.length

/-- Answers the next line of some input, which the source then holds. At the end of the input the
line of the prompt is ended, and the session does not go on. -/
def answerNext (options : Options) (source : Source) (input : Reader) :
    Action (Option (Next input)) :=
  match h : source.refill input with
  | (.error reason, _, _) => throw (.readInput reason)
  -- the invitation still stands on the line
  | (.ok 0, _, _) => do
    print "\n"
    return none
  | (.ok (_ + 1), source, rest) => do
    answerLine options source
    return some ⟨source, rest, Source.refill_shorter h⟩

/-- Answers the lines of some input one by one, each behind an invitation. -/
def converseFrom (options : Options) (source : Source) (input : Reader) : Action Unit := do
  invite
  match ← answerNext options source input with
  | none => pure ()
  | some next => converseFrom options next.source next.rest
termination_by input.bytes.length
decreasing_by exact next.shorter

/-- A session at a prompt. -/
def converse (options : Options) (input : Reader) : Action Unit :=
  converseFrom options (Source.empty promptName) input

end Session

end ExprReader
