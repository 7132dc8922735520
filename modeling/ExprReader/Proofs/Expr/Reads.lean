import ExprReader.Proofs.Expr.Cursor

/-!
# Readings

What is read from a cursor on, as a relation: one rule for each way in which an operand, or what
is joined to an operand, can be read, with and without faults. The rules speak of single tokens
only, so a property of all readings is an induction with one case for each rule.

## Main definitions

* `Literal t e`: the token is a literal, and the tree is its node
* `Cursor.Task`: an operand of a level, or what a level joins to an operand
* `Cursor.Reads task p e q`: the task, begun at `p`, gives the tree `e` and stops at `q`

## Main results

* `reads_result`: the parser reads by the rules
* `Reads.eq_result`: the rules leave no choice
* `Reads.invariant`: what the moves of a cursor keep is kept by every reading
* `Reads.prefix_diagnostics`: diagnostics are only added
-/

namespace ExprReader

/-- The token is a literal, and the tree is its node. -/
inductive Literal (t : Token) : Expr → Prop
  | nil (hkind : t.kind = .kwNil) : Literal t (.nil t)
  | no (hkind : t.kind = .kwFalse) : Literal t (.bool t false)
  | yes (hkind : t.kind = .kwTrue) : Literal t (.bool t true)
  | string (hkind : t.kind = .string) : Literal t (.string t t.lexeme)
  | number {value : Binary64} (hkind : t.kind = .number)
      (hvalue : Binary64.ofChars? t.lexeme.toList = some value) : Literal t (.number t value)

/-- The kinds with which a primary begins. -/
def primaryStart : List Token.Kind :=
  [.kwNil, .kwFalse, .kwTrue, .string, .number, .leftParen]

theorem Literal.kind_mem {t : Token} {e : Expr} (h : Literal t e) :
    t.kind ∈ primaryStart ∧ t.kind ≠ .leftParen := by
  cases h <;> simp_all [primaryStart]

theorem Literal.kind_ne_eof {t : Token} {e : Expr} (h : Literal t e) : t.kind ≠ .eof := by
  cases h <;> simp_all

namespace Cursor

/-- What is to be read. -/
inductive Task
  /-- An operand of a level. -/
  | operand (level : Precedence)
  /-- What a level joins to an operand that has been read. -/
  | chain (level : Precedence) (left : Expr)

/-- What the parser makes of a task. -/
def Task.result : Task → (p : Cursor) → Parsed p
  | operand level, p => p.operand level
  | chain level left, p => p.chain level left

/-- **The rules of reading.** -/
inductive Reads : Task → Cursor → Expr → Cursor → Prop
  | layer {level : Precedence} {p q r : Cursor} {left e : Expr} (hjoins : level.joins = true)
      (hleft : Reads (.operand level.tighter) p left q) (hchain : Reads (.chain level left) q e r) :
      Reads (.operand level) p e r
  | stop {level : Precedence} {p : Cursor} {left : Expr}
      (hop : p.accept level.operators = none) : Reads (.chain level left) p left p
  | join {level : Precedence} {p q r s : Cursor} {left right e : Expr} {op : Token}
      (hop : p.accept level.operators = some (op, q))
      (hright : Reads (.operand level.tighter) q right r)
      (hchain : Reads (.chain level (.binary op left right)) r e s) :
      Reads (.chain level left) p e s
  | sign {p q r : Cursor} {op : Token} {e : Expr} (hop : p.accept signs = some (op, q))
      (hoperand : Reads (.operand .unary) q e r) : Reads (.operand .unary) p (.unary op e) r
  | unsigned {p q : Cursor} {e : Expr} (hop : p.accept signs = none)
      (hprimary : Reads (.operand .primary) p e q) : Reads (.operand .unary) p e q
  | closed {p q r s : Cursor} {paren close : Token} {e : Expr}
      (hparen : p.accept [.leftParen] = some (paren, q))
      (hinner : Reads (.operand .equality) q e r)
      (hclose : r.accept [.rightParen] = some (close, s)) :
      Reads (.operand .primary) p (.grouping e) s
  | unclosed {p q r : Cursor} {paren : Token} {e : Expr}
      (hparen : p.accept [.leftParen] = some (paren, q))
      (hinner : Reads (.operand .equality) q e r) (hclose : r.accept [.rightParen] = none) :
      Reads (.operand .primary) p (.grouping e) (r.fail .missingParen)
  | literal {p : Cursor} {t : Token} {e : Expr} (ht : p.peek = some t) (he : Literal t e) :
      Reads (.operand .primary) p e p.advance
  | malformed {p : Cursor} {t : Token} (ht : p.peek = some t) (hkind : t.kind = .number)
      (hvalue : Binary64.ofChars? t.lexeme.toList = none) :
      Reads (.operand .primary) p .missing
        (p.advance.report (.malformedNumber t.lexeme) t.span)
  | absent {p : Cursor} (hkind : ∀ t ∈ p.peek, t.kind ∉ primaryStart) :
      Reads (.operand .primary) p .missing (p.fail .missingOperand)

/-! ## One step of the parser -/

section Steps

variable {p q : Cursor} {t : Token} {level : Precedence}

theorem operand_of_joins (p : Cursor) (hjoins : level.joins = true) :
    let left := p.operand level.tighter
    (p.operand level).expr = (left.after.chain level left.expr).expr ∧
      (p.operand level).after = (left.after.chain level left.expr).after := by
  rw [operand.eq_1 level p, if_pos hjoins]
  exact ⟨rfl, rfl⟩

theorem operand_unary (p : Cursor) : p.operand .unary = p.signed := by
  have hjoins : ¬Precedence.unary.joins = true := Bool.false_ne_true
  rw [operand, if_neg hjoins, if_pos rfl]

theorem operand_primary (p : Cursor) : p.operand .primary = p.primary := by
  have hjoins : ¬Precedence.primary.joins = true := Bool.false_ne_true
  have hunary : Precedence.primary ≠ .unary := nofun
  rw [operand, if_neg hjoins, if_neg hunary]

theorem chain_of_none (left : Expr) (hop : p.accept level.operators = none) :
    p.chain level left = ⟨left, p, Nat.le_refl _⟩ := by
  rw [chain]
  split
  · rfl
  · simp_all

theorem chain_of_some (left : Expr) (hop : p.accept level.operators = some (t, q)) :
    let right := q.operand level.tighter
    let whole := right.after.chain level (.binary t left right.expr)
    (p.chain level left).expr = whole.expr ∧ (p.chain level left).after = whole.after := by
  rw [chain.eq_1 level left p]
  split
  · simp_all
  · rename_i heq
    obtain ⟨rfl, rfl⟩ := Prod.mk.inj (Option.some.inj (heq.symm.trans hop))
    exact ⟨rfl, rfl⟩

theorem signed_of_none (hop : p.accept signs = none) : p.signed = p.primary := by
  rw [signed]
  split
  · rfl
  · simp_all

theorem signed_of_some (hop : p.accept signs = some (t, q)) :
    p.signed.expr = .unary t q.signed.expr ∧ p.signed.after = q.signed.after := by
  rw [signed.eq_1 p]
  split
  · simp_all
  · rename_i heq
    obtain ⟨rfl, rfl⟩ := Prod.mk.inj (Option.some.inj (heq.symm.trans hop))
    exact ⟨rfl, rfl⟩

theorem primary_of_none (hparen : p.accept [.leftParen] = none) : p.primary = p.literal := by
  rw [primary]
  split
  · rfl
  · simp_all

theorem primary_of_some (hparen : p.accept [.leftParen] = some (t, q)) :
    p.primary.expr = .grouping (q.operand .equality).expr ∧
      p.primary.after = (q.operand .equality).after.close := by
  rw [primary]
  split
  · simp_all
  · rename_i heq
    obtain ⟨-, rfl⟩ := Prod.mk.inj (Option.some.inj (heq.symm.trans hparen))
    exact ⟨rfl, rfl⟩

theorem close_of_none (hclose : p.accept [.rightParen] = none) :
    p.close = p.fail .missingParen := by
  simp [close, hclose]

theorem close_of_some (hclose : p.accept [.rightParen] = some (t, q)) : p.close = q := by
  simp [close, hclose]

/-- Where no parenthesis opens, a primary is a literal. -/
theorem primary_of_peek (hkind : ∀ t ∈ p.peek, t.kind ≠ .leftParen) : p.primary = p.literal := by
  apply primary_of_none
  rw [accept_eq_none_iff eof_notMem_leftParen]
  intro t ht
  simpa using hkind t ht

theorem literal_of_literal {e : Expr} (ht : p.peek = some t) (he : Literal t e) :
    p.literal.expr = e ∧ p.literal.after = p.advance := by
  cases he <;> simp_all [Cursor.literal]

theorem literal_of_absent (hkind : ∀ t ∈ p.peek, t.kind ∉ primaryStart) :
    p.literal.expr = .missing ∧ p.literal.after = p.fail .missingOperand := by
  unfold Cursor.literal
  split
  · exact ⟨rfl, rfl⟩
  · rename_i t ht
    have := hkind t ht
    split <;> simp_all [primaryStart]

end Steps

/-! ## The parser reads by the rules -/

theorem reads_literal {p : Cursor} (hparen : p.accept [.leftParen] = none) :
    Reads (.operand .primary) p p.literal.expr p.literal.after := by
  rw [accept_eq_none_iff eof_notMem_leftParen] at hparen
  unfold Cursor.literal
  split
  · rename_i hpeek
    exact .absent (by simp [hpeek])
  · rename_i t ht
    split
    · rename_i hkind
      exact .literal ht (.nil hkind)
    · rename_i hkind
      exact .literal ht (.no hkind)
    · rename_i hkind
      exact .literal ht (.yes hkind)
    · rename_i hkind
      exact .literal ht (.string hkind)
    · rename_i hkind
      split
      · rename_i value hvalue
        exact .literal ht (.number hkind hvalue)
      · rename_i hvalue
        exact .malformed ht hkind hvalue
    · refine .absent fun u hu hstart => ?_
      obtain rfl : t = u := Option.some.inj (ht.symm.trans hu)
      have := hparen t ht
      simp_all [primaryStart]

theorem reads_group {p q : Cursor} {paren : Token} {e : Expr} {r : Cursor}
    (hparen : p.accept [.leftParen] = some (paren, q))
    (hinner : Reads (.operand .equality) q e r) :
    Reads (.operand .primary) p (.grouping e) r.close := by
  cases hclose : r.accept [.rightParen] with
  | some result =>
    rw [close_of_some hclose]
    exact .closed hparen hinner hclose
  | none =>
    rw [close_of_none hclose]
    exact .unclosed hparen hinner hclose

/-- **The parser reads by the rules**, whatever lies ahead. -/
theorem reads_result :
    (∀ level p, Reads (.operand level) p (p.operand level).expr (p.operand level).after) ∧
      (∀ p, Reads (.operand .primary) p p.primary.expr p.primary.after) ∧
      (∀ p, Reads (.operand .unary) p p.signed.expr p.signed.after) ∧
      ∀ level left p, Reads (.chain level left) p (p.chain level left).expr
        (p.chain level left).after := by
  -- one case for each branch of the four functions, in the order in which they stand
  apply operand.mutual_induct
  case case1 =>
    intro level p hjoins _ hleft _ hchain
    obtain ⟨he, hafter⟩ := operand_of_joins p hjoins
    rw [he, hafter]
    exact .layer hjoins hleft hchain
  case case2 =>
    intro p _ hsigned
    rwa [operand_unary]
  case case3 =>
    intro level p hjoins hunary hprimary
    obtain rfl := Precedence.eq_primary_of_joins_eq_false hjoins hunary
    rwa [operand_primary]
  case case4 =>
    intro p hparen
    rw [primary_of_none hparen]
    exact reads_literal hparen
  case case5 =>
    intro p paren q hparen hinner
    obtain ⟨he, hafter⟩ := primary_of_some hparen
    rw [he, hafter]
    exact reads_group hparen hinner
  case case6 =>
    intro p hop hprimary
    rw [signed_of_none hop]
    exact .unsigned hop hprimary
  case case7 =>
    intro p op q hop hoperand
    obtain ⟨he, hafter⟩ := signed_of_some hop
    rw [he, hafter]
    exact .sign hop hoperand
  case case8 =>
    intro level left p hop
    rw [chain_of_none left hop]
    exact .stop hop
  case case9 =>
    intro level left p op q hop _ hright _ hchain
    obtain ⟨he, hafter⟩ := chain_of_some left hop
    rw [he, hafter]
    exact .join hop hright hchain

theorem reads_operand (level : Precedence) (p : Cursor) :
    Reads (.operand level) p (p.operand level).expr (p.operand level).after :=
  reads_result.1 level p

theorem reads_expression (p : Cursor) :
    Reads (.operand .equality) p p.expression.expr p.expression.after :=
  reads_operand .equality p

/-! ## The rules leave no choice -/

/-- **The rules leave no choice**: what they give is what the parser makes of the task. -/
theorem Reads.eq_result {task : Task} {p q : Cursor} {e : Expr} (h : Reads task p e q) :
    (task.result p).expr = e ∧ (task.result p).after = q := by
  induction h with
  | layer hjoins _ _ ihleft ihchain =>
    obtain ⟨rfl, rfl⟩ := ihleft
    obtain ⟨rfl, rfl⟩ := ihchain
    exact operand_of_joins _ hjoins
  | stop hop =>
    simp [Task.result, chain_of_none _ hop]
  | join hop _ _ ihright ihchain =>
    obtain ⟨rfl, rfl⟩ := ihright
    obtain ⟨rfl, rfl⟩ := ihchain
    exact chain_of_some _ hop
  | sign hop _ ih =>
    obtain ⟨rfl, rfl⟩ := ih
    simp only [Task.result, operand_unary]
    exact signed_of_some hop
  | unsigned hop _ ih =>
    obtain ⟨rfl, rfl⟩ := ih
    simp only [Task.result, operand_unary, operand_primary, signed_of_none hop, and_self]
  | closed hparen _ hclose ih =>
    obtain ⟨rfl, rfl⟩ := ih
    simp only [Task.result, operand_primary] at hclose ⊢
    obtain ⟨he, hafter⟩ := primary_of_some hparen
    exact ⟨he, hafter.trans (close_of_some hclose)⟩
  | unclosed hparen _ hclose ih =>
    obtain ⟨rfl, rfl⟩ := ih
    simp only [Task.result, operand_primary] at hclose ⊢
    obtain ⟨he, hafter⟩ := primary_of_some hparen
    exact ⟨he, hafter.trans (close_of_none hclose)⟩
  | literal ht he =>
    rw [Task.result, operand_primary, primary_of_peek]
    · exact literal_of_literal ht he
    · intro u hu
      obtain rfl := Option.some.inj (ht.symm.trans hu)
      exact he.kind_mem.2
  | malformed ht hkind hvalue =>
    rw [Task.result, operand_primary, primary_of_peek]
    · simp [Cursor.literal, ht, hkind, hvalue]
    · intro u hu
      obtain rfl := Option.some.inj (ht.symm.trans hu)
      simp [hkind]
  | absent hkind =>
    rw [Task.result, operand_primary, primary_of_peek]
    · exact literal_of_absent hkind
    · intro t ht hparen
      exact hkind t ht (by simp [hparen, primaryStart])

/-! ## What every reading keeps -/

/-- What survives the moves of a cursor survives a reading. Besides taking tokens a reading reports
what is missing, and number tokens that are no numbers. -/
theorem Reads.invariant_faults {P : Cursor → Prop} {task : Task} {p q : Cursor} {e : Expr}
    (h : Reads task p e q)
    (hadvance : ∀ (p : Cursor) (t : Token), p.peek = some t → t.kind ≠ .eof → P p → P p.advance)
    (hfail : ∀ (p : Cursor) (fault : Fault), fault = .missingOperand ∨ fault = .missingParen → P p →
      P (p.fail fault))
    (hreport : ∀ (p : Cursor) (t : Token), p.peek = some t → t.kind = .number →
      Binary64.ofChars? t.lexeme.toList = none → P p →
      P (p.advance.report (.malformedNumber t.lexeme) t.span)) :
    P p → P q := by
  -- accepting a token is taking it
  have haccept : ∀ {p q : Cursor} {t : Token} {kinds : List Token.Kind}, Token.Kind.eof ∉ kinds →
      p.accept kinds = some (t, q) → P p → P q := by
    intro p q t kinds heof h hp
    obtain ⟨ht, hkind, rfl⟩ := (accept_eq_some_iff heof).mp h
    exact hadvance p t ht (kind_ne_eof_of_mem heof hkind) hp
  intro hp
  induction h with
  | layer _ _ _ ihleft ihchain => exact ihchain (ihleft hp)
  | stop _ => exact hp
  | @join level _ _ _ _ _ _ _ _ hop _ _ ihright ihchain =>
    apply ihchain
    apply ihright
    exact haccept level.eof_notMem_operators hop hp
  | sign hop _ ih => exact ih (haccept eof_notMem_signs hop hp)
  | unsigned _ _ ih => exact ih hp
  | closed hparen _ hclose ih =>
    have hinner := ih (haccept eof_notMem_leftParen hparen hp)
    exact haccept eof_notMem_rightParen hclose hinner
  | unclosed hparen _ _ ih =>
    apply hfail _ _ (.inr rfl)
    exact ih (haccept eof_notMem_leftParen hparen hp)
  | literal ht he => exact hadvance _ _ ht he.kind_ne_eof hp
  | malformed ht hkind hvalue => exact hreport _ _ ht hkind hvalue hp
  | absent _ => exact hfail _ _ (.inl rfl) hp

/-- The same where it does not matter what is reported. -/
theorem Reads.invariant {P : Cursor → Prop} {task : Task} {p q : Cursor} {e : Expr}
    (h : Reads task p e q)
    (hadvance : ∀ (p : Cursor) (t : Token), p.peek = some t → t.kind ≠ .eof → P p → P p.advance)
    (hfail : ∀ (p : Cursor) (fault : Fault), P p → P (p.fail fault))
    (hreport : ∀ (p : Cursor) (fault : Fault) (t : Token), p.peek = some t → t.kind ≠ .eof → P p →
      P (p.advance.report fault t.span)) :
    P p → P q :=
  h.invariant_faults hadvance (fun p fault _ => hfail p fault) fun p t ht hkind _ =>
    hreport p _ t ht (by simp [hkind])

/-- Diagnostics are only added. -/
theorem Reads.prefix_diagnostics {task : Task} {p q : Cursor} {e : Expr} (h : Reads task p e q) :
    p.diagnostics <+: q.diagnostics := by
  refine h.invariant (P := fun r => p.diagnostics <+: r.diagnostics) ?_ ?_ ?_ (List.prefix_refl _)
  · intro r t _ _ hr
    rwa [diagnostics_advance]
  · intro r fault hr
    rw [diagnostics_fail]
    exact hr.trans (List.prefix_append _ _)
  · intro r fault t _ _ hr
    rw [diagnostics_report, diagnostics_advance]
    exact hr.trans (List.prefix_append _ _)

end Cursor

end ExprReader
