import ExprReader.Proofs.Expr.Reads

/-!
# Trees of faulty tokens

However faulty the tokens are, a reading takes them one by one and puts each in its place: the tree
says what has been taken, and its operators still bind as their levels demand.

## Main definitions

* `Spells e ts`: the tokens are the tree in infix notation, but for what was missing
* `Expr.level`: the level on which a tree can stand
* `Expr.WellLevelled`: every operator stands above operands that bind tightly enough

## Main results

* `Reads.spells`: what is taken is the tree in infix notation
* `Reads.wellLevelled`: what is read is well levelled
* `Reachable.expression_spells`: both, for every expression that a parser comes to read
-/

namespace ExprReader

/-- The tokens are the tree in infix notation. For a missing operand stands nothing, or the number
that could not be read; a parenthesis that is not closed leaves none at its end. -/
inductive Spells : Expr → List Token → Prop
  | absent : Spells .missing []
  | malformed {t : Token} (hkind : t.kind = .number)
      (hvalue : Binary64.ofChars? t.lexeme.toList = none) : Spells .missing [t]
  | literal {t : Token} {e : Expr} (h : Literal t e) : Spells e [t]
  | unary {op : Token} {e : Expr} {ts : List Token} (hop : op.kind ∈ signs) (h : Spells e ts) :
      Spells (.unary op e) (op :: ts)
  | binary {op : Token} {left right : Expr} {ls rs : List Token} (hop : op.kind ∈ binaryOperators)
      (hleft : Spells left ls) (hright : Spells right rs) :
      Spells (.binary op left right) (ls ++ op :: rs)
  | closed {paren close : Token} {e : Expr} {ts : List Token} (hparen : paren.kind = .leftParen)
      (h : Spells e ts) (hclose : close.kind = .rightParen) :
      Spells (.grouping e) (paren :: ts ++ [close])
  | unclosed {paren : Token} {e : Expr} {ts : List Token} (hparen : paren.kind = .leftParen)
      (h : Spells e ts) : Spells (.grouping e) (paren :: ts)

namespace Expr

/-- The level on which a tree can stand: that of its operator, and the tightest one without. -/
def level : Expr → Precedence
  | binary op _ _ => (Precedence.ofOperator? op.kind).getD .primary
  | unary _ _ => .unary
  | _ => .primary

/-- Every operator stands above operands that bind tightly enough: the operands of an operator
between two are not looser than its own level, and the right one is tighter; that of a sign is not
an operator between two. -/
def WellLevelled : Expr → Prop
  | binary op left right =>
    (∃ level, Precedence.ofOperator? op.kind = some level ∧ left.level.height ≤ level.height ∧
        right.level.height < level.height) ∧ left.WellLevelled ∧ right.WellLevelled
  | unary op operand =>
    op.kind ∈ signs ∧ (∀ op' left right, operand ≠ binary op' left right) ∧ operand.WellLevelled
  | grouping inner => inner.WellLevelled
  | _ => True

theorem level_binary {op : Token} {level : Precedence} (hop : op.kind ∈ level.operators)
    (left right : Expr) : (binary op left right).level = level := by
  rw [Expr.level, Precedence.mem_operators_iff.mp hop, Option.getD_some]

/-- What can stand behind a sign is not joined by an operator. -/
theorem WellLevelled.ne_binary {e : Expr} (h : e.WellLevelled) (hlevel : e.level.height ≤ 1)
    (op : Token) (left right : Expr) : e ≠ binary op left right := by
  rintro rfl
  obtain ⟨⟨level, hop, -, hright⟩, -⟩ := h
  rw [level_binary (Precedence.mem_operators_iff.mpr hop)] at hlevel
  have hmem := Precedence.mem_operators_iff.mpr hop
  cases level <;> simp_all [Precedence.height, Precedence.operators]

end Expr

theorem Literal.wellLevelled {t : Token} {e : Expr} (h : Literal t e) :
    e.WellLevelled ∧ e.level = .primary := by
  cases h <;> exact ⟨trivial, rfl⟩

namespace Cursor

/-- What a task takes, of tokens and in the tree. A chain goes on from an operand that has been
read, which is what `ls` stands for. -/
def Task.Spells : Task → Expr → List Token → Prop
  | operand _, e, ts => ExprReader.Spells e ts
  | chain _ left, e, ts => ∀ ls, ExprReader.Spells left ls → ExprReader.Spells e (ls ++ ts)

/-- **What is taken is the tree in infix notation.** -/
theorem Reads.spells {task : Task} {p q : Cursor} {e : Expr} (h : Reads task p e q) :
    ∃ ts, p.rest = ts ++ q.rest ∧ task.Spells e ts := by
  -- each rule takes its own tokens around those of its parts, or none where it reports a fault
  induction h with
  | layer hjoins _ _ ihleft ihchain =>
    obtain ⟨ls, hls, hleft⟩ := ihleft
    obtain ⟨ts, hts, hchain⟩ := ihchain
    exact ⟨ls ++ ts, by rw [hls, hts, List.append_assoc], hchain ls hleft⟩
  | stop hop =>
    refine ⟨[], rfl, fun ls hleft => ?_⟩
    rwa [List.append_nil]
  | @join level p q r s left right e op hop _ _ ihright ihchain =>
    obtain ⟨hrest, hkind, -⟩ := rest_of_accept level.eof_notMem_operators hop
    obtain ⟨rs, hrs, hright⟩ := ihright
    obtain ⟨ts, hts, hchain⟩ := ihchain
    refine ⟨op :: rs ++ ts, by rw [hrest, hrs, hts]; simp, fun ls hleft => ?_⟩
    -- the chain goes on from the tree of the operator and of both its operands
    have hwhole := hchain (ls ++ op :: rs)
      (.binary (Precedence.mem_binaryOperators_of_mem hkind) hleft hright)
    simpa using hwhole
  | @sign p q r op e hop _ ih =>
    obtain ⟨hrest, hkind, -⟩ := rest_of_accept eof_notMem_signs hop
    obtain ⟨ts, hts, hoperand⟩ := ih
    exact ⟨op :: ts, by rw [hrest, hts, List.cons_append], .unary hkind hoperand⟩
  | unsigned _ _ ih => exact ih
  | @closed p q r s paren close e hparen _ hclose ih =>
    obtain ⟨hrest, hkind, -⟩ := rest_of_accept eof_notMem_leftParen hparen
    obtain ⟨hrest', hkind', -⟩ := rest_of_accept eof_notMem_rightParen hclose
    obtain ⟨ts, hts, hinner⟩ := ih
    exact ⟨paren :: ts ++ [close], by rw [hrest, hts, hrest']; simp,
      .closed (by simpa using hkind) hinner (by simpa using hkind')⟩
  | @unclosed p q r paren e hparen _ _ ih =>
    obtain ⟨hrest, hkind, -⟩ := rest_of_accept eof_notMem_leftParen hparen
    obtain ⟨ts, hts, hinner⟩ := ih
    exact ⟨paren :: ts, by rw [hrest, hts]; rfl, .unclosed (by simpa using hkind) hinner⟩
  | literal ht he => exact ⟨[_], rest_eq_cons_advance ht he.kind_ne_eof, .literal he⟩
  | malformed ht hkind hvalue =>
    exact ⟨[_], rest_eq_cons_advance ht (by simp [hkind]), .malformed hkind hvalue⟩
  | absent _ => exact ⟨[], rfl, .absent⟩

/-- A parser of some tokens takes what its tree spells, and only tokens among these. -/
theorem exists_spells_expression (tokens : List Token) :
    let start := ofTokens tokens
    ∃ taken, start.rest = taken ++ start.expression.after.rest ∧
      ExprReader.Spells start.expression.expr taken ∧ ∀ t ∈ taken, t ∈ tokens := by
  intro start
  obtain ⟨taken, hrest, hspells⟩ := (reads_expression start).spells
  refine ⟨taken, hrest, hspells, fun t ht => ?_⟩
  have hahead : t ∈ start.rest := hrest ▸ List.mem_append_left _ ht
  exact (List.mem_filter.mp hahead).1

/-- A tree that can stand as an operand of a level. -/
def Task.Fits : Task → Expr → Prop
  | operand level, e => e.WellLevelled ∧ e.level.height ≤ level.height
  | chain level left, e =>
    level.joins = true → left.WellLevelled → left.level.height ≤ level.height →
      e.WellLevelled ∧ e.level.height ≤ level.height

/-- **What is read is well levelled.** -/
theorem Reads.wellLevelled {task : Task} {p q : Cursor} {e : Expr} (h : Reads task p e q) :
    task.Fits e := by
  -- operators are looked for level by level, so what an operator is given binds tighter than it
  induction h with
  | layer hjoins _ _ ihleft ihchain =>
    have hlt := Precedence.height_tighter_lt hjoins
    exact ihchain hjoins ihleft.1 (by have := ihleft.2; omega)
  | stop _ => exact fun _ hleft hlevel => ⟨hleft, hlevel⟩
  | @join level _ _ _ _ left right _ op hop _ _ ihright ihchain =>
    intro hjoins hleft hlevel
    have hlt := Precedence.height_tighter_lt hjoins
    have hmem := (rest_of_accept level.eof_notMem_operators hop).2.1
    obtain ⟨hright, hlevel'⟩ := ihright
    refine ihchain hjoins ⟨⟨level, Precedence.mem_operators_iff.mp hmem, hlevel, ?_⟩, hleft,
      hright⟩ ?_
    · omega
    · exact Nat.le_of_eq (congrArg Precedence.height (Expr.level_binary hmem left right))
  | sign hop _ ih =>
    exact ⟨⟨(rest_of_accept eof_notMem_signs hop).2.1, ih.1.ne_binary ih.2, ih.1⟩, Nat.le_refl _⟩
  | unsigned _ _ ih => exact ⟨ih.1, Nat.le_succ_of_le ih.2⟩
  | closed _ _ _ ih => exact ⟨ih.1, Nat.le_refl _⟩
  | unclosed _ _ _ ih => exact ⟨ih.1, Nat.le_refl _⟩
  | literal _ he =>
    exact ⟨he.wellLevelled.1, Nat.le_of_eq (congrArg Precedence.height he.wellLevelled.2)⟩
  | malformed _ _ _ => exact ⟨trivial, Nat.le_refl _⟩
  | absent _ => exact ⟨trivial, Nat.le_refl _⟩

/-- Where a parser comes to, only tokens at the front are gone. -/
theorem Reachable.suffix {tokens : List Token} {p : Cursor} (h : Reachable tokens p) :
    p.rest <:+ tokens.filter fun t => !t.isComment := by
  induction h with
  | start => exact List.suffix_refl _
  | @expression p _ ih =>
    obtain ⟨ts, hts, -⟩ := (reads_expression p).spells
    exact List.IsSuffix.trans ⟨ts, hts.symm⟩ ih
  | @synchronize p _ ih => exact (suffix_synchronize p).trans ih

/-- **Recovery keeps tokens and levels**: wherever a parser comes to read an expression, the tokens
that it takes are the next ones that are no comments, the tree spells just these, and the tree is
well levelled. -/
theorem Reachable.expression_spells {tokens : List Token} {p : Cursor} (h : Reachable tokens p) :
    ∃ before taken, (tokens.filter fun t => !t.isComment) = before ++ p.rest ∧
      p.rest = taken ++ p.expression.after.rest ∧ Spells p.expression.expr taken ∧
      p.expression.expr.WellLevelled := by
  obtain ⟨before, hbefore⟩ := h.suffix
  obtain ⟨taken, htaken, hspells⟩ := (reads_expression p).spells
  exact ⟨before, taken, hbefore.symm, htaken, hspells, (reads_expression p).wellLevelled.1⟩

/-- Behind the semicolon of `) ; * ( 1 + )` the operator lacks its left operand, and the sum its
right one; the parenthesis is closed. -/
theorem expression_spells_of_faults :
    let star : Token := ⟨.star, "*", 4⟩
    let paren : Token := ⟨.leftParen, "(", 6⟩
    let one : Token := ⟨.number, "1", 8⟩
    let plus : Token := ⟨.plus, "+", 10⟩
    let close : Token := ⟨.rightParen, ")", 12⟩
    let tokens := [⟨.rightParen, ")", 0⟩, ⟨.semicolon, ";", 2⟩, star, paren, one, plus, close]
    let p := (ofTokens tokens).synchronize
    Reachable tokens p ∧ p.expression.expr.render = "(*  (group (+ 1 )))" ∧
      ∃ before taken, (tokens.filter fun t => !t.isComment) = before ++ p.rest ∧
        p.rest = taken ++ p.expression.after.rest ∧ Spells p.expression.expr taken ∧
        p.expression.expr.WellLevelled := by
  intro star paren one plus close tokens p
  have hreachable : Reachable tokens p := .synchronize .start
  exact ⟨hreachable, by decide +kernel, hreachable.expression_spells⟩

end Cursor

end ExprReader
