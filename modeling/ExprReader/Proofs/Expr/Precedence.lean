import ExprReader.Expr.Parse

/-!
# Operators and their levels

An operator that stands between two operands belongs to exactly one level; the one that marks the
end of a text is no operator.

## Main definitions

* `Precedence.ofOperator? k`: the level whose operands an operator joins
* `binaryOperators`: the operators that can stand between two operands

## Main results

* `mem_operators_iff`: the operators of a level are those that belong to it
-/

namespace ExprReader

/-- The operators that can stand between two operands. -/
def binaryOperators : List Token.Kind :=
  [.equalEqual, .bangEqual, .greater, .greaterEqual, .less, .lessEqual, .plus, .minus, .star,
    .slash]

theorem eof_notMem_signs : Token.Kind.eof ∉ signs := by simp [signs]

theorem eof_notMem_binaryOperators : Token.Kind.eof ∉ binaryOperators := by simp [binaryOperators]

theorem eof_notMem_leftParen : Token.Kind.eof ∉ [Token.Kind.leftParen] := by simp

theorem eof_notMem_rightParen : Token.Kind.eof ∉ [Token.Kind.rightParen] := by simp

namespace Precedence

/-- The level whose operands an operator joins. -/
def ofOperator? : Token.Kind → Option Precedence
  | .equalEqual | .bangEqual => some equality
  | .greater | .greaterEqual | .less | .lessEqual => some comparison
  | .plus | .minus => some addition
  | .star | .slash => some multiplication
  | _ => none

/-- The operators of a level are those that belong to it. -/
theorem mem_operators_iff {level : Precedence} {k : Token.Kind} :
    k ∈ level.operators ↔ ofOperator? k = some level := by
  cases k <;> cases level <;> decide

/-- An operator joins the operands of one level only. -/
theorem eq_of_mem_operators {l m : Precedence} {k : Token.Kind} (hl : k ∈ l.operators)
    (hm : k ∈ m.operators) : l = m := by
  rw [mem_operators_iff] at hl hm
  exact Option.some.inj (hl.symm.trans hm)

theorem height_injective {l m : Precedence} (h : l.height = m.height) : l = m := by
  cases l <;> cases m <;> simp_all [height]

theorem eof_notMem_operators (level : Precedence) : Token.Kind.eof ∉ level.operators := by
  simp [mem_operators_iff, ofOperator?]

theorem mem_binaryOperators_iff {k : Token.Kind} :
    k ∈ binaryOperators ↔ (ofOperator? k).isSome = true := by
  cases k <;> decide

theorem mem_binaryOperators_of_mem {level : Precedence} {k : Token.Kind}
    (h : k ∈ level.operators) : k ∈ binaryOperators := by
  simp [mem_binaryOperators_iff, mem_operators_iff.mp h]

theorem eq_primary_of_joins_eq_false {level : Precedence} (hjoins : ¬level.joins = true)
    (hunary : level ≠ .unary) : level = .primary := by
  cases level <;> simp_all [joins, height]

end Precedence

end ExprReader
