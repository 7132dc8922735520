import ExprReader.Diagnostic.Basic
import ExprReader.Text.Bytes
import ExprReader.Token.Basic

/-!
# What stands first in a text

A text falls into items one after the other: blanks, tokens, and faults. Which item stands first
is decided by the first character and, for some, by what follows it; every item is as long as it
can be.

## Main definitions

* `Item`: an item with the characters it takes
* `Item.first c rest`: the first item of the text `c :: rest`, and the text after it
* `items cs`: all items of a text

## Main results

* `first_chars`: an item and the text after it are the text before it
* `items_chars`: the items of a text, one after the other, are the text
-/

namespace ExprReader

/-- What can stand first in a text. -/
inductive Item
  /-- A character between tokens. -/
  | blank (c : Char)
  /-- A token that is all of its spelling. -/
  | plain (kind : Token.Kind) (spelling : List Char)
  /-- A string, by what stands between its quotes. -/
  | string (content : List Char)
  /-- A quote without a partner, and all that follows it. -/
  | unterminated (content : List Char)
  /-- A character that begins nothing. -/
  | unexpected (c : Char)
  deriving DecidableEq, Repr

namespace Token.Kind

/-- The kinds that one character spells. -/
def singles : List (Char × Kind) :=
  [('(', leftParen), (')', rightParen), ('\x7b', leftBrace), ('\x7d', rightBrace), (',', comma),
    ('.', dot), ('-', minus), ('+', plus), (';', semicolon), ('*', star), ('/', slash),
    ('!', bang), ('=', equal), ('<', less), ('>', greater)]

/-- The kinds that a character and an equals sign after it spell. -/
def withEquals : List (Char × Kind) :=
  [('!', bangEqual), ('=', equalEqual), ('<', lessEqual), ('>', greaterEqual)]

end Token.Kind

namespace Item

/-- The characters that an item takes. -/
def chars : Item → List Char
  | blank c => [c]
  | plain _ spelling => spelling
  | string content => '"' :: content ++ ['"']
  | unterminated content => '"' :: content
  | unexpected c => [c]

/-- The number of bytes that an item takes. -/
def size (item : Item) : Nat := Text.byteLength item.chars

/-- A character that only keeps tokens apart. -/
def isBlank (c : Char) : Bool := c == ' ' || c == '\t' || c == '\r' || c == '\n'

/-- A character that begins a word. -/
def beginsWord (c : Char) : Bool := c.isAlpha || c == '_'

/-- A character that continues a word. -/
def continuesWord (c : Char) : Bool := c.isAlphanum || c == '_'

/-- A text cut behind the characters at its front that pass a test. -/
def cutWhile (p : Char → Bool) (cs : List Char) : List Char × List Char :=
  (cs.takeWhile p, cs.dropWhile p)

/-- A point with at least one digit behind it, taken off a text if it begins so. -/
def fraction : List Char → List Char × List Char
  | '.' :: rest =>
    -- a point that no digit follows is a token of its own
    let (digits, after) := cutWhile Char.isDigit rest
    if digits.isEmpty then ([], '.' :: rest) else ('.' :: digits, after)
  | cs => ([], cs)

/-- The number that begins with the digit `c`. -/
def number (c : Char) (rest : List Char) : Item × List Char :=
  let (whole, afterWhole) := cutWhile Char.isDigit rest
  let (part, after) := fraction afterWhole
  (plain .number (c :: whole ++ part), after)

/-- The word that begins with `c`: a reserved one, or an identifier. -/
def word (c : Char) (rest : List Char) : Item × List Char :=
  let (more, after) := cutWhile continuesWord rest
  let spelling := c :: more
  (plain ((Token.Kind.ofWord? (String.ofList spelling)).getD .identifier) spelling, after)

/-- The string after its opening quote; without a quote it takes all. -/
def quotedString (rest : List Char) : Item × List Char :=
  match cutWhile (· != '"') rest with
  | (content, _ :: after) => (string content, after)
  | (content, []) => (unterminated content, [])

/-- The operator or bracket that begins with `c`; any other character is unexpected. -/
def operator (c : Char) (rest : List Char) : Item × List Char :=
  match Token.Kind.singles.lookup c, Token.Kind.withEquals.lookup c, rest with
  | none, _, _ => (unexpected c, rest)
  | some _, some kind, '=' :: after => (plain kind [c, '='], after)
  | some kind, _, _ => (plain kind [c], rest)

/-- The first item of the text `c :: rest`, and the text after it. -/
def first (c : Char) (rest : List Char) : Item × List Char :=
  if isBlank c then (blank c, rest)
  -- before the marks, since a slash is one of them
  else if c = '/' ∧ rest.head? = some '/' then
    let (more, after) := cutWhile (· != '\n') rest
    (plain .comment (c :: more), after)
  else if c = '"' then quotedString rest
  else if c.isDigit then number c rest
  else if beginsWord c then word c rest
  else operator c rest

@[simp] theorem cutWhile_append (p : Char → Bool) (cs : List Char) :
    (cutWhile p cs).1 ++ (cutWhile p cs).2 = cs := by
  simp [cutWhile]

theorem fraction_append (cs : List Char) : (fraction cs).1 ++ (fraction cs).2 = cs := by
  unfold fraction
  split
  · rename_i rest
    have := cutWhile_append Char.isDigit rest
    split
    simp_all only
    split <;> simp [this]
  · rfl

theorem number_chars (c : Char) (rest : List Char) :
    (number c rest).1.chars ++ (number c rest).2 = c :: rest := by
  simp [number, chars, fraction_append]

theorem word_chars (c : Char) (rest : List Char) :
    (word c rest).1.chars ++ (word c rest).2 = c :: rest := by
  simp [word, chars]

theorem quotedString_chars (rest : List Char) :
    (quotedString rest).1.chars ++ (quotedString rest).2 = '"' :: rest := by
  have happend := cutWhile_append (· != '"') rest
  unfold quotedString
  split
  · rename_i content q after heq
    -- what stops the content is a quote
    have hq := List.head?_dropWhile_not (p := (· != '"')) (l := rest)
    simp only [cutWhile, Prod.mk.injEq] at heq
    simp only [heq.2, List.head?_cons, bne_eq_false_iff_eq] at hq
    simp only [cutWhile, heq.1, heq.2] at happend
    simp [chars, ← happend, hq]
  · rename_i content heq
    simp only [heq, List.append_nil] at happend
    simp [chars, happend]

theorem operator_chars (c : Char) (rest : List Char) :
    (operator c rest).1.chars ++ (operator c rest).2 = c :: rest := by
  unfold operator
  split <;> simp [chars]

/-- **An item loses nothing**: with the text after it, it is the text before it. -/
theorem first_chars (c : Char) (rest : List Char) :
    (first c rest).1.chars ++ (first c rest).2 = c :: rest := by
  unfold first
  split
  · simp [chars]
  split
  · simp [chars]
  split
  · rename_i hquote
    rw [hquote]
    exact quotedString_chars rest
  split
  · exact number_chars c rest
  split
  · exact word_chars c rest
  · exact operator_chars c rest

theorem chars_first_ne_nil (c : Char) (rest : List Char) : (first c rest).1.chars ≠ [] := by
  unfold first
  split
  · simp [chars]
  split
  · simp [chars]
  split
  · unfold quotedString
    split <;> simp [chars]
  split
  · simp [number, chars]
  split
  · simp [word, chars]
  · unfold operator
    split <;> simp [chars]

theorem length_first (c : Char) (rest : List Char) : (first c rest).2.length ≤ rest.length := by
  have hlength := congrArg List.length (first_chars c rest)
  have hpos := List.length_pos_iff.2 (chars_first_ne_nil c rest)
  simp only [List.length_append, List.length_cons] at hlength
  omega

end Item

/-- The items of a text, in order. -/
def items : List Char → List Item
  | [] => []
  | c :: rest => (Item.first c rest).1 :: items (Item.first c rest).2
termination_by cs => cs.length
decreasing_by exact Nat.lt_succ_of_le (Item.length_first c rest)

@[simp] theorem items_nil : items [] = [] := by rw [items]

theorem items_cons (c : Char) (rest : List Char) :
    items (c :: rest) = (Item.first c rest).1 :: items (Item.first c rest).2 := by
  rw [items]

/-- **The items tile the text**: one after the other they are the text. -/
theorem items_chars (cs : List Char) : (items cs).flatMap Item.chars = cs := by
  fun_induction items cs with
  | case1 => rfl
  | case2 c rest ih => rw [List.flatMap_cons, ih, Item.first_chars]

end ExprReader
