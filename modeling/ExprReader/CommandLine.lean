import ExprReader.Session

/-!
# The command line

Arguments are read from left to right. Options can stand on both sides of the path; after `--` there
are none. Whatever decides comes first from the left: an argument that is wrong, or one that asks
for help or the version.

## Main definitions

* `CommandLine.Request`: what the arguments ask for
* `CommandLine.request`: reads the arguments
* `CommandLine.run`: does what they ask for
-/

namespace ExprReader

namespace CommandLine

/-- When diagnostics are written in color. -/
inductive Coloring
  /-- Where the terminal shows it. -/
  | auto
  | always
  | never
  deriving DecidableEq, Repr

/-- The mode of a name. -/
def Coloring.ofName? (name : String) : Option Coloring :=
  [("auto", auto), ("always", always), ("never", never)].lookup name

/-- What the arguments have said so far. -/
structure Settings where
  path : Option String := none
  listTokens : Option Unit := none
  color : Option Coloring := none
  deriving DecidableEq, Repr

/-- What the arguments ask for. -/
inductive Request
  /-- To answer a file, or at a prompt. -/
  | run (settings : Settings)
  | help
  | version
  deriving DecidableEq, Repr

/-- The arguments are wrong. -/
inductive UsageError
  | unexpected (argument : String)
  | missingValue (option : String)
  | invalidValue (option value : String)
  | repeated (option : String)
  deriving DecidableEq, Repr

/-- What is wrong with the arguments, in words. -/
def UsageError.message : UsageError → String
  | unexpected argument => "unexpected argument '" ++ argument ++ "'"
  | missingValue option => "a value is required for '" ++ option ++ "'"
  | invalidValue option value => "invalid value '" ++ value ++ "' for '" ++ option ++ "'"
  | repeated option => "the argument '" ++ option ++ "' cannot be used multiple times"

namespace Settings

/-- Takes a path; there can be one that is not empty. -/
def withPath (s : Settings) (path : String) : Except UsageError Settings :=
  if s.path.isSome then .error (.unexpected path)
  else if path.isEmpty then .error (.missingValue "[PATH]")
  else .ok { s with path := some path }

/-- Asks for the tokens, once. -/
def withTokens (s : Settings) : Except UsageError Settings :=
  if s.listTokens.isSome then .error (.repeated "--tokens")
  else .ok { s with listTokens := some () }

/-- Chooses a mode of color by its name, once. -/
def withColor (s : Settings) (name : String) : Except UsageError Settings :=
  match Coloring.ofName? name with
  | none => .error (.invalidValue "--color <COLOR>" name)
  | some mode =>
    if s.color.isSome then .error (.repeated "--color <COLOR>")
    else .ok { s with color := some mode }

end Settings

/-- Reads arguments after `--`: paths only. -/
def paths (s : Settings) : List String → Except UsageError Request
  | [] => .ok (.run s)
  | path :: rest => do paths (← s.withPath path) rest

/-- Reads a group of short options; each of them ends the reading. -/
def short (argument : String) : List Char → Except UsageError Request
  | 'h' :: _ => .ok .help
  | 'V' :: _ => .ok .version
  | _ => .error (.unexpected argument)

/-- Reads arguments, after some have been read. -/
def requestFrom (s : Settings) : List String → Except UsageError Request
  | [] => .ok (.run s)
  | "--" :: rest => paths s rest
  | "--help" :: _ => .ok .help
  | "--version" :: _ => .ok .version
  | "--tokens" :: rest => do requestFrom (← s.withTokens) rest
  | ["--color"] => .error (.missingValue "--color <COLOR>")
  | "--color" :: name :: rest => do requestFrom (← s.withColor name) rest
  | argument :: rest =>
    match argument.toList with
    | '-' :: '-' :: 'c' :: 'o' :: 'l' :: 'o' :: 'r' :: '=' :: name => do
      requestFrom (← s.withColor (String.ofList name)) rest
    | '-' :: '-' :: _ => .error (.unexpected argument)
    | '-' :: c :: more => short argument (c :: more)
    -- a dash alone is a path as well
    | _ => do requestFrom (← s.withPath argument) rest

/-- What the arguments ask for. -/
def request (arguments : List String) : Except UsageError Request := requestFrom {} arguments

/-- What is shown to who asks for help. -/
def helpText : String :=
  "Parse loxy expressions and print their syntax trees\n" ++
  "\n" ++
  "Usage: loxy [OPTIONS] [PATH]\n" ++
  "\n" ++
  "Arguments:\n" ++
  "  [PATH]  Script to parse; starts an interactive prompt when omitted\n" ++
  "\n" ++
  "Options:\n" ++
  "      --tokens         List every token before printing the tree\n" ++
  "      --color <COLOR>  When to color diagnostics [default: auto] " ++
  "[possible values: auto, always, never]\n" ++
  "  -h, --help           Print help\n" ++
  "  -V, --version        Print version\n"

/-- What is shown to who asks for the version. -/
def versionText : String := "loxy 0.1.0\n"

/-- What is shown when the arguments are wrong. -/
def usageText (e : UsageError) : String :=
  "error: " ++ e.message ++ "\n\nFor more information, try '--help'.\n"

/-- What a program leaves behind. -/
structure Outcome where
  status : ExitStatus
  console : Console
  deriving DecidableEq, Repr

namespace Settings

/-- What is asked of the session. -/
def options (s : Settings) : Session.Options := ⟨s.listTokens.isSome⟩

/-- The console before anything is written; `shows` tells whether the terminal shows color. -/
def console (s : Settings) (shows : Bool) : Console where
  colored :=
    match s.color.getD .auto with
    | .auto => shows
    | .always => true
    | .never => false

end Settings

/-- The console after a text is written, on the assumption that it takes everything. -/
def tell (stream : Stream) (text : String) (c : Console) : Console :=
  c.take stream (Text.encode text.toList)

/-- Ends a session: results are flushed, and a failure is told where diagnostics go. -/
def finish (session : Session.Action ExitStatus) (c : Console) : Outcome :=
  let flushed := do
    let status ← session
    Session.flush
    return status
  match flushed c with
  | .ok status c => ⟨status, c⟩
  | .error failure c => ⟨failure.exitStatus, tell .err (failure.message ++ "\n") c⟩

/-- The session for a file or at a prompt. A fault in a file is a failure of the program, and a
fault in a line is not. -/
def session (s : Settings) (input : Reader) (read : String → Except FileError (List UInt8)) :
    Session.Action ExitStatus :=
  match s.path with
  | some path => do
    let faulty ← Session.answerFile s.options path (read path)
    return if faulty then .fault else .success
  | none => do
    Session.converse s.options input
    return .success

/-- Does what the arguments ask for, with some input and a way to read files. -/
def run (arguments : List String) (shows : Bool) (input : Reader)
    (read : String → Except FileError (List UInt8)) : Outcome :=
  match request arguments with
  | .error e => ⟨.usage, tell .err (usageText e) {}⟩
  | .ok .help => ⟨.success, tell .out helpText {}⟩
  | .ok .version => ⟨.success, tell .out versionText {}⟩
  | .ok (.run s) => finish (session s input read) (s.console shows)

end CommandLine

end ExprReader
