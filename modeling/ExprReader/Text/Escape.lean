/-!
# Control characters made visible

A text is shown on one line between double quotes: seven control characters, the backslash and
the double quote are each written as a backslash and one more character, and every other
character stands for itself.

## Main definitions

* `escapeMark? c`: what follows the backslash in the escape of `c`, if `c` is escaped
* `escape cs`: the text with its escapes
* `isPlain cs`: nothing in the text needs an escape

## Main results

* `escape_append_of_isPlain`: a plain front is shown as it is, and so is a plain text
-/

namespace ExprReader.Text

/-- The character after the backslash in the escape of `c`; none if `c` stands for itself. -/
def escapeMark? (c : Char) : Option Char :=
  match c with
  | '\x07' => some 'a'
  | '\x08' => some 'b'
  | '\t' => some 't'
  | '\n' => some 'n'
  | '\x0b' => some 'v'
  | '\x0c' => some 'f'
  | '\r' => some 'r'
  | '\\' => some '\\'
  | '"' => some '"'
  | _ => none

/-- One character as it is shown. -/
def escapeChar (c : Char) : List Char :=
  match escapeMark? c with
  | some mark => ['\\', mark]
  | none => [c]

/-- A text as it is shown. -/
def escape (cs : List Char) : List Char := cs.flatMap escapeChar

/-- Nothing in the text needs an escape. -/
def isPlain (cs : List Char) : Bool := cs.all fun c => (escapeMark? c).isNone

@[simp] theorem escape_nil : escape [] = [] := rfl

@[simp] theorem escape_cons (c : Char) (cs : List Char) :
    escape (c :: cs) = escapeChar c ++ escape cs := rfl

/-- Only what stands behind the plain front of a text has to be rewritten. -/
theorem escape_append_of_isPlain {front : List Char} (h : isPlain front) (rest : List Char) :
    escape (front ++ rest) = front ++ escape rest := by
  induction front with
  | nil => rfl
  | cons c front ih =>
    simp only [isPlain, List.all_cons, Bool.and_eq_true, Option.isNone_iff_eq_none] at h
    simp [escapeChar, h.1, ih h.2]

/-- A plain text is shown as it is. -/
theorem escape_of_isPlain {cs : List Char} (h : isPlain cs) : escape cs = cs := by
  simpa using escape_append_of_isPlain h []

end ExprReader.Text
