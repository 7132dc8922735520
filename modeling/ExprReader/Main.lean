import ExprReader.CommandLine

/-!
# The program

Arguments, files, input and output of the program come from and go to the operating system here;
what is done with them is decided elsewhere. At a prompt a session is performed in parts, since a
line is there to be answered only after it has been asked for.

## Main definitions

* `perform`: a part of a session
* `converseFrom`: the rounds of a session at a prompt
* `main`: the program
-/

namespace ExprReader.Main

/-- The environment tells that the terminal shows color. -/
def terminalShowsColor : IO Bool := do
  let terminal ← IO.getEnv "TERM"
  let plain ← IO.getEnv "NO_COLOR"
  return plain.isNone && terminal.any (· != "dumb")

/-- The bytes of a file, or why there are none. -/
def fileContent (path : String) : IO (Except FileError (List UInt8)) := do
  try
    return .ok (← IO.FS.readBinFile path).toList
  catch
    | .noFileOrDirectory .. => return .error .notFound
    | .inappropriateType none .. => return .error .isDirectory
    | .inappropriateType (some _) .. => return .error .notDirectory
    | e => return .error (.unreadable (toString e))

/-- Hands over to the operating system what a console has taken. -/
def deliver (c : Console) : IO Unit := do
  for (stream, bytes) in c.chunks.reverse do
    let handle ← match stream with
      | .out => IO.getStdout
      | .err => IO.getStderr
    handle.write ⟨bytes.toArray⟩
  (← IO.getStdout).flush

/-- The bytes of the next line of input, line feed included. -/
partial def nextLine (input : IO.FS.Stream) (line : ByteArray) : IO ByteArray := do
  let next ← input.read 1
  if next.isEmpty then return line
  let line := line ++ next
  if next[0]? = some Reader.lineFeed then return line
  nextLine input line

/-- The input as far as its next line, or the reason why there is none. -/
def nextInput : IO Reader := do
  try
    return .ofBytes (← nextLine (← IO.getStdin) .empty).toList
  catch e => return ⟨[], some (toString e)⟩

/-- Performs a part of a session. Where it fails, this is told, and the status stands for the
reason. -/
def perform {α : Type} (s : CommandLine.Settings) (shows : Bool) (part : Session.Action α) :
    IO (Except ExitStatus α) := do
  match part (s.console shows) with
  | .ok result c =>
    deliver c
    return .ok result
  | .error failure c =>
    let outcome := CommandLine.finish (throw failure) c
    deliver outcome.console
    return .error outcome.status

/-- A session at a prompt whose lines are asked for one by one: each is answered before the next is
read. -/
partial def converseFrom (s : CommandLine.Settings) (shows : Bool) (source : Source) :
    IO ExitStatus := do
  match ← perform s shows Session.invite with
  | .error status => return status
  | .ok () =>
    match ← perform s shows (Session.answerNext s.options source (← nextInput)) with
    | .error status => return status
    | .ok none => return .success
    | .ok (some next) => converseFrom s shows next.source

/-- Answers a file, or what is asked besides. -/
def answer (arguments : List String) (shows : Bool) (content : Except FileError (List UInt8)) :
    IO UInt32 := do
  let outcome := CommandLine.run arguments shows (.ofBytes []) fun _ => content
  deliver outcome.console
  return outcome.status.code.toUInt32

end ExprReader.Main

open ExprReader ExprReader.Main in
/-- The program. -/
def main (arguments : List String) : IO UInt32 := do
  let shows ← terminalShowsColor
  match CommandLine.request arguments with
  | .ok (.run s) =>
    match s.path with
    | none => return (← converseFrom s shows (.empty Session.promptName)).code.toUInt32
    | some path => ExprReader.Main.answer arguments shows (← fileContent path)
  | _ => ExprReader.Main.answer arguments shows (.error .notFound)
