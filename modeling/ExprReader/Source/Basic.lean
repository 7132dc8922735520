import ExprReader.Source.Reader
import ExprReader.Text.Bytes
import ExprReader.Text.Lossy

/-!
# Sources

A source is a named text together with its lines. A line is what stands between two line feeds;
it knows the byte offset at which it begins. A source can be loaded at once, or used again and
again for one line of input at a time.

## Main definitions

* `Line`: a line and where it begins
* `Source`: a name, a text and the lines of the text
* `Source.lineIndex`: the line of a byte offset
* `Source.shownLine`: a line as it is shown, without a carriage return at its end
* `Source.refill`: the next line of some input becomes the text

## Main results

* `lines_ofText`: a loaded source has the lines of its text
-/

namespace ExprReader

/-- A line of a text, without its line feed. -/
structure Line where
  /-- The byte offset of its first character. -/
  start : Nat
  chars : List Char
  deriving DecidableEq, Repr

namespace Line

/-- Lines that follow each other with one line feed in between, the first at an offset. -/
def place (start : Nat) : List (List Char) → List Line
  | [] => []
  | chars :: rest => ⟨start, chars⟩ :: place (start + Text.byteLength chars + 1) rest

/-- The lines of a text. -/
def ofText (text : String) : List Line := place 0 (text.toList.splitOn '\n')

/-- The line as it is shown: a carriage return at its end is left out. -/
def shown (line : Line) : List Char :=
  if line.chars.getLast? = some '\r' then line.chars.dropLast else line.chars

end Line

/-- A place that is asked for but lies outside a source. -/
inductive PlaceError
  /-- There is no such byte offset in a text of `length` bytes. -/
  | noOffset (offset length : Nat)
  /-- There is no such line among `count` lines. -/
  | noLine (line count : Nat)
  deriving DecidableEq, Repr

/-- The error in words. -/
def PlaceError.message : PlaceError → String
  | noOffset offset length =>
    s!"offset {offset} is outside the buffer (length {length})"
  | noLine line count =>
    s!"line index {line} is outside the buffer ({count} lines)"

/-- A named text and its lines. -/
structure Source where
  name : String
  text : String
  lines : List Line
  deriving DecidableEq, Repr

namespace Source

/-- The source of a whole text. -/
def ofText (name text : String) : Source := ⟨name, text, Line.ofText text⟩

/-- A source without text, to be filled line by line. -/
def empty (name : String) : Source := ofText name ""

theorem lines_ofText (name text : String) : (ofText name text).lines = Line.ofText text := rfl

/-- The source with its text taken out: one empty line is left. -/
def clear (s : Source) : Source := { s with text := "", lines := [⟨0, []⟩] }

/-- The next line of the input becomes the text. The answer is the number of bytes that the line
took, zero at the end of the input; if the input breaks, the source is left without text. -/
def refill (s : Source) (input : Reader) : Except String Nat × Source × Reader :=
  match input.takeLine with
  -- the old text is given up before the line is read
  | (.error reason, input) => (.error reason, s.clear, input)
  | (.ok bytes, input) =>
    let text := String.ofList (Text.decode bytes)
    (.ok bytes.length, { s.clear with text, lines := Line.ofText text }, input)

/-- A line that is not empty leaves less input. -/
theorem refill_shorter {s after : Source} {input rest : Reader} {n : Nat}
    (h : s.refill input = (.ok (n + 1), after, rest)) :
    rest.bytes.length < input.bytes.length := by
  unfold refill at h
  split at h
  · simp at h
  · rename_i bytes left heq
    simp only [Prod.mk.injEq, Except.ok.injEq] at h
    obtain ⟨hlength, -, rfl⟩ := h
    exact Reader.takeLine_shorter heq (List.ne_nil_of_length_eq_add_one hlength)

/-- The number of bytes of the text. -/
def size (s : Source) : Nat := s.text.utf8ByteSize

/-- The byte offsets at which the lines begin. -/
def lineOffsets (s : Source) : List Nat := s.lines.map Line.start

/-- The index of the line that holds a byte offset, the offset at the end of the text included:
the last line that begins at or before it. -/
def lineIndex (s : Source) (offset : Nat) : Except PlaceError Nat :=
  if s.size < offset then .error (.noOffset offset s.size)
  else .ok ((s.lines.takeWhile fun line => decide (line.start ≤ offset)).length - 1)

/-- The line of an index. -/
def line (s : Source) (index : Nat) : Except PlaceError Line :=
  match s.lines[index]? with
  | some line => .ok line
  | none => .error (.noLine index s.lines.length)

/-- The line of an index as it is shown. -/
def shownLine (s : Source) (index : Nat) : Except PlaceError String :=
  (s.line index).map fun line => String.ofList line.shown

end Source

end ExprReader
