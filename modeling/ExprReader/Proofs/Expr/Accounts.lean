import ExprReader.Proofs.Expr.Faultless
import ExprReader.Proofs.Expr.Recovery

/-!
# Faults accounted for

Every fault that a parse reports leaves exactly one trace. For an operand that is missing, or is not
the writing of a number, the tree has a node of its own; for a parenthesis that is missing, one of
those that were taken has no partner. So the tree and the tokens taken tell how many faults of each
sort there are, and a parse without a tree has a single fault, at the first token.

## Main definitions

* `Expr.gaps e`: how many nodes stand for a missing operand
* `Fault.leavesGap`: the causes for which there is such a node
* `Accounted gaps taken ds`: the diagnostics are accounted for by the gaps and the tokens taken

## Main results

* `Reads.accounted`: every reading accounts for the diagnostics that it adds
* `Token.Paired.count_eq`: where every parenthesis has its partner, there are as many of either
* `Spells.eq_missing_iff`: when nothing is taken
* `Cursor.exists_accounted_expression`: what an expression takes accounts for all that it reports
* `Parse.ofTokens_accounts`: the account of a whole parse
-/

namespace ExprReader

/-- How many nodes of the tree stand for a missing operand. -/
def Expr.gaps (e : Expr) : Nat := e.nodes.countP Expr.isMissing

/-- A node for a missing operand comes with the fault. -/
def Fault.leavesGap : Fault → Bool
  | .missingOperand | .malformedNumber _ => true
  | _ => false

/-- How many of the tokens are of a kind. -/
def Token.count (kind : Token.Kind) (ts : List Token) : Nat := (ts.map Token.kind).count kind

/-- Diagnostics are accounted for: there is a gap for each of the faults that leave one, each
opening parenthesis taken has a closing one or else a fault, and there are no other diagnostics. -/
structure Accounted (gaps : Nat) (taken : List Token) (ds : List Diagnostic) : Prop where
  gaps_eq : gaps = (Diagnostic.faults ds).countP Fault.leavesGap
  parens_eq : Token.count .leftParen taken =
    Token.count .rightParen taken + (Diagnostic.faults ds).count .missingParen
  causes : ∀ d ∈ ds, ∃ cause, d.fault? = some cause ∧ (cause.leavesGap ∨ cause = .missingParen)

/-! ## Gaps of a tree -/

namespace Expr

variable (op : Token) (e left right : Expr)

@[simp] theorem gaps_missing : missing.gaps = 1 := rfl

@[simp] theorem gaps_unary : (unary op e).gaps = e.gaps := by
  rw [gaps, nodes, List.countP_cons_of_neg Bool.false_ne_true, gaps]

@[simp] theorem gaps_binary : (binary op left right).gaps = left.gaps + right.gaps := by
  rw [gaps, nodes, List.countP_cons_of_neg Bool.false_ne_true, List.countP_append, gaps, gaps]

@[simp] theorem gaps_grouping : (grouping e).gaps = e.gaps := by
  rw [gaps, nodes, List.countP_cons_of_neg Bool.false_ne_true, gaps]

theorem gaps_eq_zero_iff {e : Expr} : e.gaps = 0 ↔ ∀ n ∈ e.nodes, n.isMissing = false := by
  simp [gaps, List.countP_eq_zero]

end Expr

theorem Literal.gaps_eq {t : Token} {e : Expr} (h : Literal t e) : e.gaps = 0 := by
  cases h <;> rfl

/-! ## Parentheses among tokens -/

namespace Token

variable {kind : Kind} {t : Token} {ts us : List Token}

@[simp] theorem count_nil : count kind [] = 0 := rfl

@[simp] theorem count_append : count kind (ts ++ us) = count kind ts + count kind us := by
  rw [count, List.map_append, List.count_append, count, count]

@[simp] theorem count_cons :
    count kind (t :: ts) = count kind ts + if t.kind = kind then 1 else 0 := by
  simp [count, List.count_cons]

theorem ne_paren_of_mem_binaryOperators {k : Kind} (h : k ∈ binaryOperators) :
    k ≠ .leftParen ∧ k ≠ .rightParen := by
  constructor <;> rintro rfl <;> simp [binaryOperators] at h

theorem ne_paren_of_mem_signs {k : Kind} (h : k ∈ signs) : k ≠ .leftParen ∧ k ≠ .rightParen := by
  constructor <;> rintro rfl <;> simp [signs] at h

/-- Where every parenthesis has its partner, there are as many of either. -/
theorem Paired.count_eq (h : Paired ts) : count .leftParen ts = count .rightParen ts := by
  induction h with
  | nil => rfl
  | other hleft hright => simp [hleft, hright]
  | append _ _ ih ih' => rw [count_append, count_append, ih, ih']
  | group hparen _ hclose ih => simp [hparen, hclose, ih]

end Token

theorem Literal.ne_paren {t : Token} {e : Expr} (h : Literal t e) :
    t.kind ≠ .leftParen ∧ t.kind ≠ .rightParen := by
  cases h <;> simp_all

/-! ## Accounts -/

section Accounts

variable {gaps more : Nat} {t paren close : Token} {ts us : List Token} {ds ds' : List Diagnostic}

/-- Accounts add up. -/
theorem Accounted.append (h : Accounted gaps ts ds) (h' : Accounted more us ds') :
    Accounted (gaps + more) (ts ++ us) (ds ++ ds') where
  gaps_eq := by
    rw [Diagnostic.faults_append, List.countP_append, h.gaps_eq, h'.gaps_eq]
  parens_eq := by
    have hparens := h.parens_eq
    have hparens' := h'.parens_eq
    simp only [Token.count_append, Diagnostic.faults_append, List.count_append]
    omega
  causes := List.forall_mem_append.mpr ⟨h.causes, h'.causes⟩

/-- A token that is no parenthesis needs no account. -/
theorem accounted_singleton (h : t.kind ≠ .leftParen ∧ t.kind ≠ .rightParen) :
    Accounted 0 [t] [] :=
  ⟨rfl, by simp [h.1, h.2], nofun⟩

/-- A fault that leaves a gap. -/
theorem accounted_gap {cause : Fault} (h : cause.leavesGap = true) (span : Span) :
    Accounted 1 [] [.error cause span] where
  gaps_eq := by simp [h]
  parens_eq := by cases cause <;> cases h <;> rfl
  causes := List.forall_mem_singleton.mpr ⟨cause, rfl, .inl h⟩

/-- Parentheses around what is accounted for. -/
theorem Accounted.closed (h : Accounted gaps ts ds) (hparen : paren.kind = .leftParen)
    (hclose : close.kind = .rightParen) : Accounted gaps (paren :: ts ++ [close]) ds where
  gaps_eq := h.gaps_eq
  parens_eq := by
    have hparens := h.parens_eq
    simp [hparen, hclose]
    omega
  causes := h.causes

/-- A parenthesis that is not closed before what is accounted for. -/
theorem Accounted.unclosed (h : Accounted gaps ts ds) (hparen : paren.kind = .leftParen)
    (span : Span) : Accounted gaps (paren :: ts) (ds ++ [.error .missingParen span]) where
  gaps_eq := by
    rw [Diagnostic.faults_append, List.countP_append]
    exact h.gaps_eq
  parens_eq := by
    have hparens := h.parens_eq
    simp [hparen]
    omega
  causes := List.forall_mem_append.mpr
    ⟨h.causes, List.forall_mem_singleton.mpr ⟨.missingParen, rfl, .inr rfl⟩⟩

/-- Where there are no gaps and every parenthesis has its partner, nothing has been reported. -/
theorem Accounted.eq_nil (h : Accounted 0 ts ds) (hpaired : Token.Paired ts) : ds = [] := by
  have hgaps := h.gaps_eq
  have hparens := h.parens_eq
  rw [hpaired.count_eq, Nat.left_eq_add, List.count_eq_zero] at hparens
  rw [eq_comm, List.countP_eq_zero] at hgaps
  rw [List.eq_nil_iff_forall_not_mem]
  intro d hd
  obtain ⟨cause, hcause, hgap | rfl⟩ := h.causes d hd
  · exact hgaps cause (List.mem_filterMap.mpr ⟨d, hd, hcause⟩) hgap
  · exact hparens (List.mem_filterMap.mpr ⟨d, hd, hcause⟩)

/-- All diagnostics are counted, those that leave a gap and those that leave a parenthesis open. -/
theorem Accounted.length_eq (h : Accounted gaps ts ds) :
    ds.length = gaps + (Diagnostic.faults ds).count .missingParen := by
  have hcauses := h.causes
  rw [h.gaps_eq]
  clear h
  induction ds with
  | nil => rfl
  | cons d ds ih =>
    rw [List.forall_mem_cons] at hcauses
    obtain ⟨⟨cause, hcause, hleft⟩, hcauses⟩ := hcauses
    have hfaults : Diagnostic.faults (d :: ds) = cause :: Diagnostic.faults ds :=
      List.filterMap_cons_some hcause
    rw [hfaults, List.length_cons, ih hcauses, List.countP_cons, List.count_cons]
    -- a fault leaves a gap or a parenthesis open, and never both
    rcases hleft with hgap | rfl
    · have hne : cause ≠ .missingParen := by
        rintro rfl
        cases hgap
      simp [hgap, hne]
      omega
    · simp [Fault.leavesGap]
      omega

end Accounts

/-! ## Readings -/

namespace Cursor

/-- What accounts for the diagnostics of a task. A chain goes on from an operand that has been read
and accounted for, which is what `ls` and `ds'` stand for. -/
def Task.Accounted : Task → Expr → List Token → List Diagnostic → Prop
  | operand _, e, ts, ds => ExprReader.Accounted e.gaps ts ds
  | chain _ left, e, ts, ds => ∀ ls ds', ExprReader.Accounted left.gaps ls ds' →
      ExprReader.Accounted e.gaps (ls ++ ts) (ds' ++ ds)

/-- **Every reading accounts for the diagnostics that it adds.** -/
theorem Reads.accounted {task : Task} {p q : Cursor} {e : Expr} (h : Reads task p e q) :
    ∃ ts ds, p.rest = ts ++ q.rest ∧ q.diagnostics = p.diagnostics ++ ds ∧
      task.Accounted e ts ds := by
  -- a fault is reported in just those rules that make a gap or leave a parenthesis open
  induction h with
  | layer hjoins _ _ ihleft ihchain =>
    obtain ⟨ls, ds, hls, hds, hleft⟩ := ihleft
    obtain ⟨ts, ds', hts, hds', hchain⟩ := ihchain
    exact ⟨ls ++ ts, ds ++ ds', by rw [hls, hts, List.append_assoc],
      by rw [hds', hds, List.append_assoc], hchain ls ds hleft⟩
  | stop hop =>
    refine ⟨[], [], rfl, (List.append_nil _).symm, fun ls ds hleft => ?_⟩
    rwa [List.append_nil, List.append_nil]
  | @join level p q r s left right e op hop _ _ ihright ihchain =>
    obtain ⟨hrest, hkind, hdiag⟩ := rest_of_accept level.eof_notMem_operators hop
    obtain ⟨rs, ds, hrs, hds, hright⟩ := ihright
    obtain ⟨ts, ds', hts, hds', hchain⟩ := ihchain
    have hop := accounted_singleton (Token.ne_paren_of_mem_binaryOperators
      (Precedence.mem_binaryOperators_of_mem hkind))
    refine ⟨op :: rs ++ ts, ds ++ ds', by rw [hrest, hrs, hts]; simp,
      by rw [hds', hds, hdiag, List.append_assoc], fun ls lds hleft => ?_⟩
    -- the chain goes on from the operator and both its operands
    have hwhole := hchain (ls ++ ([op] ++ rs)) (lds ++ ([] ++ ds))
      (by simpa using hleft.append (hop.append hright))
    simpa using hwhole
  | @sign p q r op e hop _ ih =>
    obtain ⟨hrest, hkind, hdiag⟩ := rest_of_accept eof_notMem_signs hop
    obtain ⟨ts, ds, hts, hds, hoperand⟩ := ih
    have hop := accounted_singleton (Token.ne_paren_of_mem_signs hkind)
    exact ⟨op :: ts, ds, by rw [hrest, hts, List.cons_append], by rw [hds, hdiag],
      by simpa [Task.Accounted] using hop.append hoperand⟩
  | unsigned _ _ ih => exact ih
  | @closed p q r s paren close e hparen _ hclose ih =>
    obtain ⟨hrest, hkind, hdiag⟩ := rest_of_accept eof_notMem_leftParen hparen
    obtain ⟨hrest', hkind', hdiag'⟩ := rest_of_accept eof_notMem_rightParen hclose
    obtain ⟨ts, ds, hts, hds, hinner⟩ := ih
    refine ⟨paren :: ts ++ [close], ds, by rw [hrest, hts, hrest']; simp,
      by rw [hdiag', hds, hdiag], ?_⟩
    rw [Task.Accounted, Expr.gaps_grouping]
    exact hinner.closed (by simpa using hkind) (by simpa using hkind')
  | @unclosed p q r paren e hparen _ _ ih =>
    obtain ⟨hrest, hkind, hdiag⟩ := rest_of_accept eof_notMem_leftParen hparen
    obtain ⟨ts, ds, hts, hds, hinner⟩ := ih
    refine ⟨paren :: ts, ds ++ [.error .missingParen r.here], by rw [hrest, hts]; rfl,
      by rw [diagnostics_fail, hds, hdiag, List.append_assoc], ?_⟩
    rw [Task.Accounted, Expr.gaps_grouping]
    exact hinner.unclosed (by simpa using hkind) r.here
  | @literal p t e ht he =>
    refine ⟨[t], [], rest_eq_cons_advance ht he.kind_ne_eof, by simp, ?_⟩
    rw [Task.Accounted, he.gaps_eq]
    exact accounted_singleton he.ne_paren
  | @malformed p t ht hkind hvalue =>
    refine ⟨[t], [.error (.malformedNumber t.lexeme) t.span],
      rest_eq_cons_advance ht (by simp [hkind]), by simp, ?_⟩
    have htoken : Accounted 0 [t] [] := accounted_singleton (by simp [hkind])
    have hgap : Accounted 1 [] [.error (.malformedNumber t.lexeme) t.span] :=
      accounted_gap rfl t.span
    exact htoken.append hgap
  | @absent p hkind =>
    exact ⟨[], [.error .missingOperand p.here], rfl, rfl, accounted_gap rfl p.here⟩

end Cursor

/-! ## What stands for a missing operand -/

/-- For a missing operand nothing is taken, or the number that could not be read. -/
theorem Spells.missing_cases {ts : List Token} (h : Spells .missing ts) :
    ts = [] ∨ ∃ t, ts = [t] ∧ t.kind = .number := by
  cases h with
  | absent => exact .inl rfl
  | @malformed t hkind _ => exact .inr ⟨t, rfl, hkind⟩
  | literal h => cases h

/-- For a missing operand no parenthesis is taken. -/
theorem Spells.count_leftParen_of_missing {ts : List Token} (h : Spells .missing ts) :
    Token.count .leftParen ts = 0 := by
  rcases h.missing_cases with rfl | ⟨t, rfl, hkind⟩
  · rfl
  · simp [hkind]

/-- Where nothing is taken, the tree is a missing operand. -/
theorem Spells.eq_missing {e : Expr} (h : Spells e []) : e = .missing := by
  generalize hnil : ([] : List Token) = ts at h
  cases h with
  | absent => rfl
  | malformed => cases hnil
  | literal => cases hnil
  | unary => cases hnil
  | binary => simp at hnil
  | closed => simp at hnil
  | unclosed => cases hnil

/-- Unless a number comes first, the tree is a missing operand exactly if nothing is taken. -/
theorem Spells.eq_missing_iff {e : Expr} {ts : List Token} (h : Spells e ts)
    (hfirst : ∀ t ∈ ts.head?, t.kind ≠ .number) : e = .missing ↔ ts = [] := by
  constructor
  · rintro rfl
    rcases h.missing_cases with rfl | ⟨t, rfl, hkind⟩
    · rfl
    · exact absurd hkind (hfirst t rfl)
  · rintro rfl
    exact h.eq_missing

/-- A missing operand by itself has a single fault. -/
theorem Accounted.length_of_missing {ts : List Token} {ds : List Diagnostic}
    (h : Accounted Expr.missing.gaps ts ds) (hspells : Spells .missing ts) : ds.length = 1 := by
  have hopen := hspells.count_leftParen_of_missing
  have hparens := h.parens_eq
  rw [h.length_eq, Expr.gaps_missing]
  omega

/-- **What an expression takes** accounts for all that is reported, if nothing was before. -/
theorem Cursor.exists_accounted_expression {p : Cursor} (hp : p.diagnostics = []) :
    ∃ taken, p.rest = taken ++ p.expression.after.rest ∧ Spells p.expression.expr taken ∧
      Accounted p.expression.expr.gaps taken p.expression.after.diagnostics ∧
      (p.expression.after.diagnostics = [] ↔
        p.expression.expr.gaps = 0 ∧ Token.Paired taken) := by
  have hreads := Cursor.reads_expression p
  obtain ⟨taken, ds, hrest, hds, haccounts⟩ := hreads.accounted
  obtain ⟨taken', hrest', hspells⟩ := hreads.spells
  obtain rfl : taken = taken' := List.append_cancel_right (hrest.symm.trans hrest')
  rw [hp, List.nil_append] at hds
  have haccounts : Accounted p.expression.expr.gaps taken p.expression.after.diagnostics :=
    hds ▸ haccounts
  refine ⟨taken, hrest, hspells, haccounts, ?_, ?_⟩
  · intro hnone
    obtain ⟨front, hfront, hderives, -⟩ := hreads.derives (hnone.trans hp.symm)
    obtain rfl : taken = front := List.append_cancel_right (hrest.symm.trans hfront)
    exact ⟨Expr.gaps_eq_zero_iff.mpr hderives.isMissing_of_mem_nodes, hderives.paired⟩
  · rintro ⟨hgaps, hpaired⟩
    exact (hgaps ▸ haccounts).eq_nil hpaired

namespace Parse

variable {tokens : List Token} {t : Token}

/-- There is something to look at in a list that ends with the mark of the end. -/
theorem exists_find?_of_getLast? (hend : tokens.getLast?.any Token.isEof = true) :
    ∃ t, tokens.find? (fun t => !t.isComment) = some t := by
  obtain ⟨front, mark, rfl, -, hcomment⟩ := Token.exists_mark hend
  rw [← Option.isSome_iff_exists, List.find?_isSome]
  exact ⟨mark, by simp, by simp [hcomment]⟩

/-- The parse of a list with a mark at its end and a first token that is no comment. -/
theorem ofTokens_of_find? (hend : tokens.getLast?.any Token.isEof = true)
    (ht : tokens.find? (fun t => !t.isComment) = some t) :
    ofTokens tokens =
      ⟨if (Cursor.ofTokens tokens).expression.expr.isMissing then .error (.noExpression t.offset)
        else .ok (Cursor.ofTokens tokens).expression.expr,
        (Cursor.ofTokens tokens).expression.after.diagnostics⟩ := by
  have hpeek : (Cursor.ofTokens tokens).peek = some t := (List.head?_filter ..).trans ht
  rw [ofTokens_of_getLast? hend, hpeek]
  rfl

/-- **Every fault leaves one trace.** In the tree that is read from the front there are as many
nodes for a missing operand as faults that leave one; of the parentheses taken as many are open as
there are faults about one; and there are no other diagnostics. So nothing is reported exactly if
the tree lacks nothing and every parenthesis has its partner. There is no tree exactly if all of it
is a missing operand; that is the only fault then, and it is at the first token that is no comment.
Unless this is a number, there is no tree exactly if no token is taken. -/
theorem ofTokens_accounts (tokens : List Token) (hend : tokens.getLast?.any Token.isEof = true) :
    let start := Cursor.ofTokens tokens
    let e := start.expression.expr
    let parse := ofTokens tokens
    let faults := Diagnostic.faults parse.diagnostics
    ∃ taken, start.rest = taken ++ start.expression.after.rest ∧
      e.gaps = faults.countP Fault.leavesGap ∧
      (Token.count .leftParen taken : Int) - Token.count .rightParen taken =
        faults.count .missingParen ∧
      (∀ d ∈ parse.diagnostics, ∃ cause, d.fault? = some cause ∧
        (cause.leavesGap ∨ cause = .missingParen)) ∧
      (parse.diagnostics = [] ↔ e.gaps = 0 ∧ Token.Paired taken) ∧
      ((∃ offset, parse.result = .error (.noExpression offset)) ↔ e = .missing) ∧
      ∃ t, tokens.find? (fun t => !t.isComment) = some t ∧
        (e = .missing → parse.diagnostics.length = 1 ∧
          parse.result = .error (.noExpression t.offset)) ∧
        (t.kind ≠ .number →
          ((∃ offset, parse.result = .error (.noExpression offset)) ↔ taken = [])) := by
  intro start e parse faults
  obtain ⟨t, ht⟩ := exists_find?_of_getLast? hend
  have hparse : parse = ⟨if e.isMissing then .error (.noExpression t.offset) else .ok e,
    start.expression.after.diagnostics⟩ := ofTokens_of_find? hend ht
  have hdiag : start.expression.after.diagnostics = parse.diagnostics := by rw [hparse]
  obtain ⟨taken, hrest, hspells, haccounts, hnone⟩ :=
    Cursor.exists_accounted_expression (p := start) rfl
  rw [hdiag] at haccounts hnone
  have hparens : Token.count .leftParen taken =
      Token.count .rightParen taken + faults.count .missingParen := haccounts.parens_eq
  have hfailed : (∃ offset, parse.result = .error (.noExpression offset)) ↔ e = .missing := by
    rw [hparse]
    cases e <;> simp [Expr.isMissing]
  refine ⟨taken, hrest, haccounts.gaps_eq, by omega, haccounts.causes, hnone, hfailed, t, ht,
    ?_, ?_⟩
  · intro hmissing
    rw [show start.expression.expr = .missing from hmissing] at haccounts hspells
    exact ⟨haccounts.length_of_missing hspells, by rw [hparse, hmissing]; rfl⟩
  · intro hkind
    rw [hfailed]
    refine hspells.eq_missing_iff fun u hu => ?_
    -- the first token taken is the one that was current at the start
    have hpeek : start.peek = some u := by rw [Cursor.peek, hrest, List.head?_append, hu]; rfl
    have hfirst : start.peek = some t := (List.head?_filter ..).trans ht
    obtain rfl : t = u := Option.some.inj (hfirst.symm.trans hpeek)
    exact hkind

/-- In `((1.2.3 + *)` a number is malformed and two operands are missing, and one of the
parentheses has no partner. -/
theorem ofTokens_accounts_of_faults :
    let tokens : List Token := [⟨.comment, "// a", 0⟩, ⟨.leftParen, "(", 5⟩, ⟨.leftParen, "(", 6⟩,
      ⟨.number, "1.2.3", 7⟩, ⟨.plus, "+", 13⟩, ⟨.star, "*", 15⟩, ⟨.rightParen, ")", 17⟩,
      ⟨.eof, "", 18⟩]
    let start := Cursor.ofTokens tokens
    let e := start.expression.expr
    let parse := ofTokens tokens
    let faults := Diagnostic.faults parse.diagnostics
    tokens.getLast?.any Token.isEof = true ∧
      faults = [.malformedNumber "1.2.3", .missingOperand, .missingOperand, .missingParen] ∧
      ∃ taken, start.rest = taken ++ start.expression.after.rest ∧
      e.gaps = faults.countP Fault.leavesGap ∧
      (Token.count .leftParen taken : Int) - Token.count .rightParen taken =
        faults.count .missingParen ∧
      (∀ d ∈ parse.diagnostics, ∃ cause, d.fault? = some cause ∧
        (cause.leavesGap ∨ cause = .missingParen)) ∧
      (parse.diagnostics = [] ↔ e.gaps = 0 ∧ Token.Paired taken) ∧
      ((∃ offset, parse.result = .error (.noExpression offset)) ↔ e = .missing) ∧
      ∃ t, tokens.find? (fun t => !t.isComment) = some t ∧
        (e = .missing → parse.diagnostics.length = 1 ∧
          parse.result = .error (.noExpression t.offset)) ∧
        (t.kind ≠ .number →
          ((∃ offset, parse.result = .error (.noExpression offset)) ↔ taken = [])) := by
  intro tokens start e parse faults
  have hend : tokens.getLast?.any Token.isEof = true := rfl
  exact ⟨hend, by decide +kernel, ofTokens_accounts tokens hend⟩

end Parse

end ExprReader
