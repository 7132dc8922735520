import ExprReader.Expr.Basic
import ExprReader.Expr.Cursor

/-!
# Expressions from tokens

The grammar has one level for each precedence, from the loosest to the tightest:

* equality: comparisons, joined by `==` and `!=`
* comparison: sums, joined by `>`, `>=`, `<` and `<=`
* addition: products, joined by `+` and `-`
* multiplication: signed operands, joined by `*` and `/`
* unary: `!`, `-` or `+` before a signed operand, or a primary
* primary: a number, a string, `true`, `false`, `nil`, or an expression in parentheses

Operands of one level are joined from the left. A fault does not end the parse: what is missing is
reported, a missing operand leaves a node of its own, and a missing parenthesis leaves none.

## Main definitions

* `Precedence`: the levels
* `Cursor.operand level`: an operand of a level, and the cursor behind it
* `Cursor.expression`: an expression of any level
* `Parse.ofTokens`: the expression at the front of a list of tokens, and the diagnostics
-/

namespace ExprReader

/-- The levels of the grammar, from the loosest to the tightest. -/
inductive Precedence
  | equality
  | comparison
  | addition
  | multiplication
  | unary
  | primary
  deriving DecidableEq, Repr

namespace Precedence

/-- The operators that join the operands of a level. -/
def operators : Precedence → List Token.Kind
  | equality => [.equalEqual, .bangEqual]
  | comparison => [.greater, .greaterEqual, .less, .lessEqual]
  | addition => [.minus, .plus]
  | multiplication => [.slash, .star]
  | unary | primary => []

/-- The next tighter level. -/
def tighter : Precedence → Precedence
  | equality => comparison
  | comparison => addition
  | addition => multiplication
  | multiplication => unary
  | unary | primary => primary

/-- How many levels are tighter. -/
def height : Precedence → Nat
  | equality => 5
  | comparison => 4
  | addition => 3
  | multiplication => 2
  | unary => 1
  | primary => 0

theorem height_le (level : Precedence) : level.height ≤ 5 := by cases level <;> decide

/-- The operators of the level stand between its operands. -/
def joins (level : Precedence) : Bool := decide (2 ≤ level.height)

theorem height_tighter_lt {level : Precedence} (h : level.joins) :
    level.tighter.height < level.height := by
  cases level <;> simp_all [joins, height, tighter]

end Precedence

/-- The operators that stand before an operand. -/
def signs : List Token.Kind := [.bang, .minus, .plus]

/-- What is read from a cursor on: a tree, and a cursor behind it that has no more tokens ahead. -/
structure Parsed (p : Cursor) where
  expr : Expr
  after : Cursor
  le : after.rest.length ≤ p.rest.length

namespace Cursor

/-- Takes a closing parenthesis, or reports that it is missing. -/
def close (p : Cursor) : Cursor :=
  match p.accept [.rightParen] with
  | some (_, after) => after
  | none => p.fail .missingParen

theorem close_le (p : Cursor) : p.close.rest.length ≤ p.rest.length := by
  unfold close
  split
  · rename_i h
    exact Nat.le_of_lt (accept_shorter h)
  · simp

/-- A literal. Where there is none, the current token is reported and stays; a number that is not
in decimal writing is taken, but a missing operand stands for it. -/
def literal (p : Cursor) : Parsed p :=
  match p.peek with
  | none => ⟨.missing, p.fail .missingOperand, Nat.le_refl _⟩
  | some t =>
    -- the value is that of the kind; only numbers and strings look at the spelling
    match t.kind with
    | .kwNil => ⟨.nil t, p.advance, p.advance_le⟩
    | .kwFalse => ⟨.bool t false, p.advance, p.advance_le⟩
    | .kwTrue => ⟨.bool t true, p.advance, p.advance_le⟩
    | .string => ⟨.string t t.lexeme, p.advance, p.advance_le⟩
    | .number =>
      match Binary64.ofChars? t.lexeme.toList with
      | some value => ⟨.number t value, p.advance, p.advance_le⟩
      | none => ⟨.missing, p.advance.report (.malformedNumber t.lexeme) t.span, p.advance_le⟩
    | _ => ⟨.missing, p.fail .missingOperand, Nat.le_refl _⟩

mutual

/-- An operand of a level: on the levels that join operands, one of the next level and all that is
joined to it. -/
def operand (level : Precedence) (p : Cursor) : Parsed p :=
  if level.joins then
    let left := p.operand level.tighter
    let whole := left.after.chain level left.expr
    ⟨whole.expr, whole.after, Nat.le_trans whole.le left.le⟩
  else if level = .unary then p.signed
  else p.primary
termination_by 9 * p.rest.length + level.height + 3
decreasing_by
  · have := Precedence.height_tighter_lt ‹level.joins›
    omega
  · exact Nat.lt_of_le_of_lt (Nat.mul_le_mul_left 9 left.le) (by omega)
  · omega
  · omega

/-- What a level joins to the operand `left`, from the left on: as long as an operator of the
level follows, it and the operand behind it. -/
def chain (level : Precedence) (left : Expr) (p : Cursor) : Parsed p :=
  match h : p.accept level.operators with
  | none => ⟨left, p, Nat.le_refl _⟩
  | some (op, q) =>
    let right := q.operand level.tighter
    let whole := right.after.chain level (.binary op left right.expr)
    ⟨whole.expr, whole.after,
      Nat.le_trans (Nat.le_trans whole.le right.le) (Nat.le_of_lt (accept_shorter h))⟩
termination_by 9 * p.rest.length
decreasing_by
  · have := accept_shorter h
    have := level.tighter.height_le
    omega
  · exact Nat.lt_of_le_of_lt (Nat.mul_le_mul_left 9 right.le) (by have := accept_shorter h; omega)

/-- An operand with any number of signs before it. -/
def signed (p : Cursor) : Parsed p :=
  match h : p.accept signs with
  | none => p.primary
  | some (op, q) =>
    let inner := q.signed
    ⟨.unary op inner.expr, inner.after,
      Nat.le_trans inner.le (Nat.le_of_lt (accept_shorter h))⟩
termination_by 9 * p.rest.length + 2
decreasing_by
  · omega
  · have := accept_shorter h
    omega

/-- An expression in parentheses, or a literal. -/
def primary (p : Cursor) : Parsed p :=
  match h : p.accept [.leftParen] with
  | none => p.literal
  | some (_, q) =>
    let inner := q.operand .equality
    ⟨.grouping inner.expr, inner.after.close,
      Nat.le_trans (Nat.le_trans (close_le _) inner.le) (Nat.le_of_lt (accept_shorter h))⟩
termination_by 9 * p.rest.length + 1
decreasing_by
  have := accept_shorter h
  simp only [Precedence.height]
  omega

end

/-- An expression, and the cursor behind it. -/
def expression (p : Cursor) : Parsed p := p.operand .equality

end Cursor

/-- Why a list of tokens has no expression at its front. -/
inductive ParseFailure
  /-- The list does not end with the token that marks the end of a text. -/
  | noEnd
  /-- No token at the front belongs to an expression; the first stands at an offset. -/
  | noExpression (offset : Nat)
  deriving DecidableEq, Repr

/-- The failure in words. -/
def ParseFailure.message : ParseFailure → String
  | noEnd => "token stream is empty or not terminated by end of input"
  | noExpression offset => s!"no expression could be parsed at offset {offset}"

/-- The expression at the front of a list of tokens, if there is one, and the faults found. -/
structure Parse where
  result : Except ParseFailure Expr
  diagnostics : List Diagnostic

namespace Parse

/-- Reads one expression; the tokens behind it are left alone. A list that does not end with the
mark of the end is refused without a look, and a tree that is nothing but a missing operand is no
expression. -/
def ofTokens (tokens : List Token) : Parse :=
  if tokens.getLast?.any Token.isEof then
    let start := Cursor.ofTokens tokens
    let read := start.expression
    ⟨if read.expr.isMissing then .error (.noExpression ((start.peek.map Token.offset).getD 0))
      else .ok read.expr,
      read.after.diagnostics⟩
  else ⟨.error .noEnd, []⟩

end Parse

end ExprReader
