import ExprReader.Proofs.Expr.Grammar

/-!
# Parses without a diagnostic

All that a parse reports are faults. If it reports none, the tokens it took are an expression of the
grammar: its tree has no node for a missing operand, and every parenthesis among the tokens has its
partner. So a parse without a tree has reported a fault.

## Main definitions

* `Token.Paired ts`: every parenthesis among the tokens has its partner
* `Parse.Names tokens d`: a fault names no spelling but that of a number token

## Main results

* `Derives.paired`, `Derives.isMissing_of_mem_nodes`: what is derived lacks nothing
* `Parse.isSome_fault?_of_mem_diagnostics`: a parse reports faults only
* `Parse.names_of_mem_diagnostics`: and names only the spellings of number tokens
* `Parse.exists_taken_of_diagnostics_eq_nil`: what is taken if nothing is reported
-/

namespace ExprReader

/-- Every parenthesis among the tokens has its partner. -/
inductive Token.Paired : List Token → Prop
  | nil : Paired []
  | other {t : Token} (hleft : t.kind ≠ .leftParen) (hright : t.kind ≠ .rightParen) : Paired [t]
  | append {ts us : List Token} (h : Paired ts) (h' : Paired us) : Paired (ts ++ us)
  | group {paren close : Token} {ts : List Token} (hparen : paren.kind = .leftParen)
      (h : Paired ts) (hclose : close.kind = .rightParen) : Paired (paren :: ts ++ [close])

section Derives

variable {level : Precedence} {ts : List Token} {e : Expr}

/-- In an expression of the grammar every parenthesis has its partner. -/
theorem Derives.paired (h : Derives level ts e) : Token.Paired ts := by
  induction h with
  | next _ _ ih => exact ih
  | @binary level _ _ _ _ op _ _ hlayer _ hop _ ihleft ihright =>
    have hmem := Precedence.mem_binaryOperators_of_mem ((hlayer.mem_iff _).mp hop)
    have hop' : Token.Paired [op] := by
      constructor
      · intro hkind
        simp [hkind, binaryOperators] at hmem
      · intro hkind
        simp [hkind, binaryOperators] at hmem
    exact ihleft.append (hop'.append ihright)
  | unary hop _ ih =>
    refine .append (.other ?_ ?_) ih
    · rcases hop with hop | hop | hop <;> simp [hop]
    · rcases hop with hop | hop | hop <;> simp [hop]
  | primary _ ih => exact ih
  | literal he =>
    refine .other he.kind_mem.2 ?_
    cases he <;> simp [*]
  | grouping hparen _ hclose ih => exact .group hparen ih hclose

/-- The tree of an expression of the grammar has no node for a missing operand. -/
theorem Derives.isMissing_of_mem_nodes (h : Derives level ts e) :
    ∀ n ∈ e.nodes, n.isMissing = false := by
  induction h with
  | next _ _ ih => exact ih
  | binary _ _ _ _ ihleft ihright =>
    rw [Expr.nodes, List.forall_mem_cons, List.forall_mem_append]
    exact ⟨rfl, ihleft, ihright⟩
  | unary _ _ ih =>
    rw [Expr.nodes, List.forall_mem_cons]
    exact ⟨rfl, ih⟩
  | primary _ ih => exact ih
  | literal he =>
    cases he <;> simp [Expr.nodes, Expr.isMissing]
  | grouping _ _ _ ih =>
    rw [Expr.nodes, List.forall_mem_cons]
    exact ⟨rfl, ih⟩

end Derives

namespace Parse

variable {tokens : List Token}

/-- **A parse reports faults only.** -/
theorem isSome_fault?_of_mem_diagnostics :
    ∀ d ∈ (ofTokens tokens).diagnostics, d.fault?.isSome = true := by
  unfold ofTokens
  split
  · refine (Cursor.reads_expression _).invariant
      (P := fun p => ∀ d ∈ p.diagnostics, d.fault?.isSome = true) ?_ ?_ ?_ nofun
    · intro p t _ _ hp
      rwa [Cursor.diagnostics_advance]
    · intro p fault hp
      rw [Cursor.diagnostics_fail, List.forall_mem_append, List.forall_mem_singleton]
      exact ⟨hp, rfl⟩
    · intro p fault t _ _ hp
      rw [Cursor.diagnostics_report, Cursor.diagnostics_advance, List.forall_mem_append,
        List.forall_mem_singleton]
      exact ⟨hp, rfl⟩
  · exact nofun

/-- The fault says that something is missing, or it names a number token of the list that is no
number. -/
def Names (tokens : List Token) (d : Diagnostic) : Prop :=
  d.body = .fault .missingOperand ∨ d.body = .fault .missingParen ∨
    ∃ t ∈ tokens, t.kind = .number ∧ d.body = .fault (.malformedNumber t.lexeme)

/-- **A parse names no spellings but those of its number tokens.** -/
theorem names_of_mem_diagnostics : ∀ d ∈ (ofTokens tokens).diagnostics, Names tokens d := by
  unfold ofTokens
  split
  · have hnone : ∀ d ∈ (Cursor.ofTokens tokens).diagnostics, Names tokens d := by
      rintro d ⟨⟩
    have hadvance : ∀ {p : Cursor}, p.rest ⊆ tokens → p.advance.rest ⊆ tokens :=
      fun hrest _ ht => hrest ((Cursor.suffix_advance _).subset ht)
    refine ((Cursor.reads_expression _).invariant_faults
      (P := fun p => p.rest ⊆ tokens ∧ ∀ d ∈ p.diagnostics, Names tokens d) ?_ ?_ ?_
      ⟨List.filter_sublist.subset, hnone⟩).2
    · rintro p t _ _ ⟨hrest, hp⟩
      rw [Cursor.diagnostics_advance]
      exact ⟨hadvance hrest, hp⟩
    · rintro p fault hfault ⟨hrest, hp⟩
      rw [Cursor.diagnostics_fail, List.forall_mem_append, List.forall_mem_singleton]
      refine ⟨hrest, hp, ?_⟩
      rcases hfault with rfl | rfl
      · exact .inl rfl
      · exact .inr (.inl rfl)
    · rintro p t ht hkind - ⟨hrest, hp⟩
      rw [Cursor.diagnostics_report, Cursor.diagnostics_advance, List.forall_mem_append,
        List.forall_mem_singleton]
      refine ⟨hadvance hrest, hp, .inr (.inr ⟨t, ?_, hkind, rfl⟩)⟩
      exact hrest (Cursor.mem_rest_of_peek ht)
  · exact nofun

/-- **If nothing is reported, the tokens taken are an expression of the grammar**, and the result is
its tree. -/
theorem exists_taken_of_diagnostics_eq_nil (hend : tokens.getLast?.any Token.isEof = true)
    (hdiag : (ofTokens tokens).diagnostics = []) :
    ∃ e taken, (ofTokens tokens).result = .ok e ∧
      (Cursor.ofTokens tokens).rest = taken ++ (Cursor.ofTokens tokens).expression.after.rest ∧
      Derives .equality taken e := by
  rw [ofTokens_of_getLast? hend] at hdiag ⊢
  obtain ⟨taken, hrest, hderives, -⟩ := (Cursor.reads_expression _).derives hdiag
  exact ⟨_, taken, by rw [hderives.isMissing_eq_false]; rfl, hrest, hderives⟩

end Parse

end ExprReader
