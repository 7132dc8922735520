import ExprReader.Text.Escape
import ExprReader.Text.Span

/-!
# Tokens

A token is a piece of a text that stands for something: its kind, its spelling and the byte
offset at which the spelling begins.

## Main definitions

* `Token.Kind`: the kinds, with their names
* `Token.Kind.ofWord?`: the kind of a reserved word
* `Token`: kind, spelling and offset
* `Token.display`: a token on one line

## Main results

* `name_injective`: no two kinds have the same name
-/

namespace ExprReader

/-- What a token is. -/
inductive Token.Kind
  | leftParen | rightParen | leftBrace | rightBrace | comma | dot | minus | plus | semicolon
  | slash | star
  | bang | bangEqual | equal | equalEqual | greater | greaterEqual | less | lessEqual
  | identifier | string | number
  | kwAnd | kwClass | kwElse | kwFalse | kwFor | kwFn | kwIf | kwNil | kwOr | kwPrint | kwReturn
  | kwSuper | kwThis | kwTrue | kwVar | kwWhile
  | comment
  /-- A kind that no text has; tokens of it can only be given. -/
  | error
  /-- The end of the text. -/
  | eof
  deriving DecidableEq, Repr

namespace Token.Kind

/-- All kinds. -/
def all : List Kind :=
  [leftParen, rightParen, leftBrace, rightBrace, comma, dot, minus, plus, semicolon, slash, star,
    bang, bangEqual, equal, equalEqual, greater, greaterEqual, less, lessEqual,
    identifier, string, number,
    kwAnd, kwClass, kwElse, kwFalse, kwFor, kwFn, kwIf, kwNil, kwOr, kwPrint, kwReturn, kwSuper,
    kwThis, kwTrue, kwVar, kwWhile, comment, error, eof]

/-- The name of a kind, as it is written in listings. -/
def name : Kind → String
  | leftParen => "LEFT_PAREN"
  | rightParen => "RIGHT_PAREN"
  | leftBrace => "LEFT_BRACE"
  | rightBrace => "RIGHT_BRACE"
  | comma => "COMMA"
  | dot => "DOT"
  | minus => "MINUS"
  | plus => "PLUS"
  | semicolon => "SEMICOLON"
  | slash => "SLASH"
  | star => "STAR"
  | bang => "BANG"
  | bangEqual => "BANG_EQUAL"
  | equal => "EQUAL"
  | equalEqual => "EQUAL_EQUAL"
  | greater => "GREATER"
  | greaterEqual => "GREATER_EQUAL"
  | less => "LESS"
  | lessEqual => "LESS_EQUAL"
  | identifier => "IDENTIFIER"
  | string => "STRING"
  | number => "NUMBER"
  | kwAnd => "AND"
  | kwClass => "CLASS"
  | kwElse => "ELSE"
  | kwFalse => "FALSE"
  | kwFor => "FOR"
  | kwFn => "FN"
  | kwIf => "IF"
  | kwNil => "NIL"
  | kwOr => "OR"
  | kwPrint => "PRINT"
  | kwReturn => "RETURN"
  | kwSuper => "SUPER"
  | kwThis => "THIS"
  | kwTrue => "TRUE"
  | kwVar => "VAR"
  | kwWhile => "WHILE"
  | comment => "COMMENT"
  | error => "ERROR"
  | eof => "EOF"

theorem mem_all (k : Kind) : k ∈ all := by cases k <;> decide

/-- The kind of a name. -/
def ofName? (text : String) : Option Kind := all.find? fun k => k.name == text

theorem ofName?_name (k : Kind) : ofName? k.name = some k := by cases k <;> decide

/-- No two kinds have the same name. -/
theorem name_injective {k l : Kind} (h : k.name = l.name) : k = l := by
  have hk := ofName?_name k
  rw [h, ofName?_name] at hk
  exact (Option.some.inj hk).symm

/-- The reserved words and their kinds. -/
def reserved : List (String × Kind) :=
  [("and", kwAnd), ("class", kwClass), ("else", kwElse), ("false", kwFalse), ("for", kwFor),
    ("fn", kwFn), ("if", kwIf), ("nil", kwNil), ("or", kwOr), ("print", kwPrint),
    ("return", kwReturn), ("super", kwSuper), ("this", kwThis), ("true", kwTrue), ("var", kwVar),
    ("while", kwWhile)]

/-- The kind of a reserved word; none if the word is not reserved. -/
def ofWord? (word : String) : Option Kind := reserved.lookup word

end Token.Kind

/-- A piece of a text that stands for something. -/
structure Token where
  kind : Token.Kind
  /-- Its spelling; of a string, what stands between the quotes. -/
  lexeme : String
  /-- The byte offset at which the spelling begins. -/
  offset : Nat
  deriving DecidableEq, Repr

namespace Token

/-- The bytes that the spelling takes. -/
def span (t : Token) : Span := ⟨t.offset, t.offset + t.lexeme.utf8ByteSize⟩

/-- The token marks the end of the text. -/
def isEof (t : Token) : Bool := t.kind == .eof

/-- The token says nothing to a parser. -/
def isComment (t : Token) : Bool := t.kind == .comment

/-- The token with its offset increased by `n`. -/
def shift (n : Nat) (t : Token) : Token := { t with offset := t.offset + n }

/-- The token on one line: the name of its kind, and its spelling with escapes between quotes. -/
def display (t : Token) : String :=
  "[" ++ t.kind.name ++ "] \"" ++ String.ofList (Text.escape t.lexeme.toList) ++ "\""

end Token

end ExprReader
