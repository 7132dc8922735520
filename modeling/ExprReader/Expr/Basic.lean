import ExprReader.Number.Binary64
import ExprReader.Token.Basic

/-!
# Expression trees

An expression keeps the tokens it was read from. Where an operand was expected and none was found
there is a node that stands for the missing one, so that a text with faults has a tree as well.

## Main definitions

* `Expr`: the trees
* `Expr.render`: a tree as text, every operator in front of its operands and in parentheses
* `Expr.nodes`: the nodes of a tree, each before its operands
-/

namespace ExprReader

/-- An expression. -/
inductive Expr
  /-- Stands where an operand was expected and none was found. -/
  | missing
  | nil (token : Token)
  | bool (token : Token) (value : Bool)
  | number (token : Token) (value : Binary64)
  | string (token : Token) (value : String)
  | unary (op : Token) (operand : Expr)
  | binary (op : Token) (left right : Expr)
  /-- An expression in parentheses. -/
  | grouping (inner : Expr)
  deriving Repr, Inhabited

namespace Expr

/-- The expression stands for a missing operand itself. -/
def isMissing : Expr → Bool
  | missing => true
  | _ => false

/-- Two expressions are the same tree of the same tokens and equal values. A number that is no
quantity equals nothing, so a tree that holds one does not even equal itself. -/
protected def beq : Expr → Expr → Bool
  | missing, missing => true
  | nil t, nil u => t == u
  | bool t a, bool u b => t == u && a == b
  | number t a, number u b => t == u && a == b
  | string t a, string u b => t == u && a == b
  | unary t a, unary u b => t == u && a.beq b
  | binary t a b, binary u c d => t == u && a.beq c && b.beq d
  | grouping a, grouping b => a.beq b
  | _, _ => false

instance : BEq Expr := ⟨Expr.beq⟩

/-- The expression as text: operators stand in front of their operands, each application in
parentheses; numbers are spelled as they were read, and a missing operand leaves nothing. -/
def render : Expr → String
  | missing => ""
  | nil _ => "nil"
  | bool _ value => if value then "true" else "false"
  | number token _ => token.lexeme
  | string _ value => value
  | unary op operand => "(" ++ op.lexeme ++ " " ++ operand.render ++ ")"
  | binary op left right => "(" ++ op.lexeme ++ " " ++ left.render ++ " " ++ right.render ++ ")"
  | grouping inner => "(group " ++ inner.render ++ ")"

/-- The nodes of the tree, each followed by those of its operands from left to right. -/
def nodes (e : Expr) : List Expr :=
  e :: match e with
    | unary _ operand => operand.nodes
    | binary _ left right => left.nodes ++ right.nodes
    | grouping inner => inner.nodes
    | _ => []

end Expr

end ExprReader
