import ExprReader.Console.Basic

/-!
# Output with color

Diagnostics are written piece by piece. A piece is either text or a change of style; on a console
without color the changes of style leave nothing.

## Main definitions

* `Piece`: a part of an output
* `Piece.chars`: the characters of a piece, in color or without
* `Piece.writeAll`: writes pieces where diagnostics go
-/

namespace ExprReader

/-- The colors in use. -/
inductive Color
  | red
  | green
  | blue
  | cyan
  deriving DecidableEq, Repr

/-- The digit that selects a color. -/
def Color.digit : Color → Char
  | red => '1'
  | green => '2'
  | blue => '4'
  | cyan => '6'

/-- A part of an output. -/
inductive Piece
  | text (chars : List Char)
  /-- From here on in a style. -/
  | style (bold : Bool) (color : Option Color)
  /-- From here on without style. -/
  | plain
  deriving DecidableEq, Repr

namespace Piece

/-- The escape sequence with one parameter. -/
def escape (parameter : List Char) : List Char := ['\x1b', '['] ++ parameter ++ ['m']

/-- The characters of a piece when output is in color: a style first takes back the one before. -/
def colored : Piece → List Char
  | text chars => chars
  | style bold color =>
    escape ['0'] ++ (if bold then escape ['1'] else []) ++
      match color with
      | some color => escape ['3', color.digit]
      | none => []
  | plain => escape ['0']

/-- The characters of a piece when output has no color: styles leave nothing. -/
def uncolored : Piece → List Char
  | text chars => chars
  | _ => []

/-- The characters of a piece. -/
def chars (inColor : Bool) (p : Piece) : List Char := if inColor then p.colored else p.uncolored

/-- Writes pieces where diagnostics go, one after the other. -/
def writeAll : List Piece → Console.Action String Unit
  | [] => pure ()
  | piece :: rest => do
    Console.write .err (Text.encode (piece.chars (← get).colored))
    writeAll rest

end Piece

end ExprReader
