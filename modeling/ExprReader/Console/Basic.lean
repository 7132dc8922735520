import ExprReader.Text.Bytes

/-!
# Two streams of output

Results go to one stream and diagnostics to another. A console remembers every byte that either of
them took, in the order in which they were written, and how many bytes each still takes before it
breaks. What an action writes before it fails stays written.

## Main definitions

* `Console`: what has been written, and what still can be
* `Console.Action`: something that writes to a console, and may fail
* `Console.write`: writes bytes to a stream, as many as it takes
* `Console.flush`: waits until the results have arrived
* `Console.trace`: all bytes written, each with its stream

## Main results

* `trace_take`: what a stream takes is added to the end of the trace
-/

namespace ExprReader

/-- A stream of output. -/
inductive Stream
  /-- Takes results. -/
  | out
  /-- Takes diagnostics. -/
  | err
  deriving DecidableEq, Repr

/-- How long a stream works, and what is said when it breaks. -/
structure Console.Limit where
  /-- The bytes that it still takes. -/
  room : Nat
  /-- Why it takes no more. -/
  reason : String
  deriving DecidableEq, Repr

/-- What has been written to two streams, and what they still take. -/
structure Console where
  /-- What has been written, the newest first. -/
  chunks : List (Stream × List UInt8) := []
  /-- The limit of the stream of results; without one it takes everything. -/
  outLimit : Option Console.Limit := none
  /-- The limit of the stream of diagnostics. -/
  errLimit : Option Console.Limit := none
  /-- Why flushing the results fails; without a reason it works. -/
  flushFailure : Option String := none
  /-- Diagnostics are written in color. -/
  colored : Bool := false
  deriving DecidableEq, Repr

namespace Console

/-- Something that writes to a console and may fail for a reason. -/
abbrev Action (reason result : Type) := EStateM reason Console result

/-- The limit of a stream. -/
def limit (c : Console) : Stream → Option Limit
  | .out => c.outLimit
  | .err => c.errLimit

/-- All bytes written, in order, each with its stream. -/
def trace (c : Console) : List (Stream × UInt8) :=
  c.chunks.reverse.flatMap fun (stream, bytes) => bytes.map fun b => (stream, b)

/-- The bytes written to a stream. -/
def written (c : Console) (stream : Stream) : List UInt8 :=
  c.trace.filterMap fun (s, b) => if s = stream then some b else none

/-- The console after a stream has taken some bytes. -/
def take (c : Console) (stream : Stream) (bytes : List UInt8) : Console :=
  let less := Option.map fun l : Limit => { l with room := l.room - bytes.length }
  match stream with
  | .out => { c with chunks := (.out, bytes) :: c.chunks, outLimit := less c.outLimit }
  | .err => { c with chunks := (.err, bytes) :: c.chunks, errLimit := less c.errLimit }

/-- Writes bytes to a stream. Beyond its limit it takes nothing: the bytes before stay written, and
the write fails. -/
def write (stream : Stream) (bytes : List UInt8) : Action String Unit := fun c =>
  match c.limit stream with
  | none => .ok () (c.take stream bytes)
  | some l =>
    if bytes.length ≤ l.room then .ok () (c.take stream bytes)
    -- what still fits has been taken before the failure shows
    else .error l.reason (c.take stream (bytes.take l.room))

/-- Writes a text to a stream. -/
def writeText (stream : Stream) (text : String) : Action String Unit :=
  write stream (Text.encode text.toList)

/-- Waits until the results have arrived. -/
def flush : Action String Unit := fun c =>
  match c.flushFailure with
  | none => .ok () c
  | some reason => .error reason c

@[simp] theorem trace_take (c : Console) (stream : Stream) (bytes : List UInt8) :
    (c.take stream bytes).trace = c.trace ++ bytes.map fun b => (stream, b) := by
  cases stream <;> simp [take, trace]

end Console

end ExprReader
