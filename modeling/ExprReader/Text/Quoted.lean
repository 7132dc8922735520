import ExprReader.Text.GraphemeExtend
import ExprReader.Text.Printable

/-!
# One character in single quotes

A character in a message stands between single quotes. It is shown as it is where it can be seen
there; otherwise by a short escape if it has one, and else by its number in hexadecimal.

## Main definitions

* `visible c`: the character as it is shown
* `quoted c`: the same between single quotes
-/

namespace ExprReader.Text

/-- The character by its number, in lower-case hexadecimal digits. -/
def byNumber (c : Char) : List Char :=
  ['\\', 'u', '\x7b'] ++ Nat.toDigits 16 c.toNat ++ ['\x7d']

/-- The character as it is shown between single quotes. -/
def visible (c : Char) : List Char :=
  match c with
  | '\x00' => ['\\', '0']
  | '\t' => ['\\', 't']
  | '\n' => ['\\', 'n']
  | '\r' => ['\\', 'r']
  | '\x27' => ['\\', '\x27']
  | '\\' => ['\\', '\\']
  | c => if extendsGrapheme c || !isPrintable c then byNumber c else [c]

/-- The character between single quotes. -/
def quoted (c : Char) : String := String.ofList ('\x27' :: visible c ++ ['\x27'])

end ExprReader.Text
