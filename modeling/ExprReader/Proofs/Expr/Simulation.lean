import ExprReader.Proofs.Expr.Reads

/-!
# Readings side by side

Two cursors may see different tokens that look the same. A relation between cursors simulates if
cursors in it see tokens that look the same, and stay in it when both take a token or report a
fault. Then whatever is read from the one is read from the other as well, up to the looks of the
tokens. The relation need not last for ever: it is enough that it does until the tokens come that
are left over in the end.

## Main definitions

* `Expr.mapTokens f e`: the same tree of other tokens
* `Cursor.Simulation f last S`: the relation simulates until the tokens `last` are passed; the
  function tells how a token looks

## Main results

* `Reads.suffix_rest`: a reading only takes tokens off the front
* `Reads.simulated`: a reading is simulated rule by rule
* `Simulation.expression`: so an expression is read alike from both cursors
-/

namespace ExprReader

/-! ## Trees of other tokens -/

namespace Expr

/-- The same tree of other tokens. -/
def mapTokens (f : Token → Token) : Expr → Expr
  | missing => missing
  | nil token => nil (f token)
  | bool token value => bool (f token) value
  | number token value => number (f token) value
  | string token value => string (f token) value
  | unary op operand => unary (f op) (operand.mapTokens f)
  | binary op left right => binary (f op) (left.mapTokens f) (right.mapTokens f)
  | grouping inner => grouping (inner.mapTokens f)

@[simp] theorem mapTokens_id (e : Expr) : e.mapTokens id = e := by
  induction e with
  | missing | nil | bool | number | string => rfl
  | unary op operand ih => rw [mapTokens, ih, id]
  | binary op left right ihleft ihright => rw [mapTokens, ihleft, ihright, id]
  | grouping inner ih => rw [mapTokens, ih]

@[simp] theorem isMissing_mapTokens (f : Token → Token) (e : Expr) :
    (e.mapTokens f).isMissing = e.isMissing := by
  cases e <;> rfl

/-- A tree is rendered by the spellings of its tokens. -/
theorem render_mapTokens {f : Token → Token} (hf : ∀ t, (f t).lexeme = t.lexeme) (e : Expr) :
    (e.mapTokens f).render = e.render := by
  induction e with
  | missing | nil | bool | string => rfl
  | number => exact hf _
  | unary op operand ih => rw [mapTokens, render, render, ih, hf]
  | binary op left right ihleft ihright => rw [mapTokens, render, render, ihleft, ihright, hf]
  | grouping inner ih => rw [mapTokens, render, render, ih]

end Expr

namespace Cursor

/-- Until the tokens `last` are passed, two cursors in the relation see tokens that look the same,
and they stay in it when both take a token or report a fault. How a token looks says at least of
what kind it is and how it is spelled. -/
structure Simulation (f : Token → Token) (last : List Token) (S : Cursor → Cursor → Prop) :
    Prop where
  kind_eq (t : Token) : (f t).kind = t.kind
  lexeme_eq (t : Token) : (f t).lexeme = t.lexeme
  peek_eq {p p' : Cursor} (h : S p p') (hlast : last <:+ p.rest) : p.peek.map f = p'.peek.map f
  advance {p p' : Cursor} {t : Token} (h : S p p') (ht : p.peek = some t) (heof : t.kind ≠ .eof)
    (hlast : last <:+ p.advance.rest) : S p.advance p'.advance
  fail {p p' : Cursor} (h : S p p') (hlast : last <:+ p.rest) (fault : Fault) :
    S (p.fail fault) (p'.fail fault)
  report {p p' : Cursor} {t t' : Token} (h : S p p') (ht : f t = f t') (fault : Fault) :
    S (p.report fault t.span) (p'.report fault t'.span)

section Simulation

variable {f : Token → Token} {last : List Token} {S : Cursor → Cursor → Prop} {p p' q : Cursor}
  {t t' : Token} {kinds : List Token.Kind}

/-! ## One token -/

theorem Simulation.kind_eq_of_eq (hS : Simulation f last S) (ht : f t = f t') :
    t.kind = t'.kind := by
  rw [← hS.kind_eq t, ht, hS.kind_eq]

theorem Simulation.lexeme_eq_of_eq (hS : Simulation f last S) (ht : f t = f t') :
    t.lexeme = t'.lexeme := by
  rw [← hS.lexeme_eq t, ht, hS.lexeme_eq]

/-- The other cursor sees a token that looks the same. -/
theorem Simulation.exists_peek (hS : Simulation f last S) (hp : S p p') (hlast : last <:+ p.rest)
    (ht : p.peek = some t) : ∃ t', p'.peek = some t' ∧ f t = f t' := by
  have hpeek := hS.peek_eq hp hlast
  rw [ht, Option.map_some, eq_comm, Option.map_eq_some_iff] at hpeek
  obtain ⟨t', ht', heq⟩ := hpeek
  exact ⟨t', ht', heq.symm⟩

/-- If no token that the one cursor sees is of some kinds, then none is that the other sees. -/
theorem Simulation.kind_notMem (hS : Simulation f last S) (hp : S p p') (hlast : last <:+ p.rest)
    (hkinds : ∀ t ∈ p.peek, t.kind ∉ kinds) : ∀ t' ∈ p'.peek, t'.kind ∉ kinds := by
  intro t' ht'
  have hpeek := hS.peek_eq hp hlast
  rw [Option.mem_def.mp ht', Option.map_some, Option.map_eq_some_iff] at hpeek
  obtain ⟨t, ht, heq⟩ := hpeek
  rw [← hS.kind_eq_of_eq heq]
  exact hkinds t ht

/-- Where the one cursor accepts nothing, the other does not either. -/
theorem Simulation.accept_eq_none (hS : Simulation f last S) (hp : S p p')
    (hlast : last <:+ p.rest) (heof : Token.Kind.eof ∉ kinds) (h : p.accept kinds = none) :
    p'.accept kinds = none := by
  rw [accept_eq_none_iff heof] at h ⊢
  exact hS.kind_notMem hp hlast h

/-- Where the one cursor accepts a token, the other accepts one that looks the same. -/
theorem Simulation.exists_accept (hS : Simulation f last S) (hp : S p p')
    (heof : Token.Kind.eof ∉ kinds) (hlast : last <:+ q.rest) (h : p.accept kinds = some (t, q)) :
    ∃ t' q', p'.accept kinds = some (t', q') ∧ f t = f t' ∧ S q q' := by
  obtain ⟨ht, hkind, rfl⟩ := (accept_eq_some_iff heof).mp h
  obtain ⟨t', ht', heq⟩ := hS.exists_peek hp (hlast.trans (suffix_advance p)) ht
  refine ⟨t', p'.advance, ?_, heq, hS.advance hp ht (kind_ne_eof_of_mem heof hkind) hlast⟩
  rw [accept_eq_some_iff heof]
  exact ⟨ht', hS.kind_eq_of_eq heq ▸ hkind, rfl⟩

/-- A token that looks like a literal is one, with a node that looks the same. -/
theorem Simulation.exists_literal (hS : Simulation f last S) {e : Expr} (he : Literal t e)
    (ht : f t = f t') : ∃ e', Literal t' e' ∧ e.mapTokens f = e'.mapTokens f := by
  have hkind := hS.kind_eq_of_eq ht
  have hlexeme := hS.lexeme_eq_of_eq ht
  cases he with
  | nil h => exact ⟨_, .nil (hkind ▸ h), by simp only [Expr.mapTokens, ht]⟩
  | no h => exact ⟨_, .no (hkind ▸ h), by simp only [Expr.mapTokens, ht]⟩
  | yes h => exact ⟨_, .yes (hkind ▸ h), by simp only [Expr.mapTokens, ht]⟩
  | string h => exact ⟨_, .string (hkind ▸ h), by simp only [Expr.mapTokens, ht, hlexeme]⟩
  | number h hvalue =>
    exact ⟨_, .number (hkind ▸ h) (hlexeme ▸ hvalue), by simp only [Expr.mapTokens, ht]⟩

/-! ## Readings -/

/-- A reading only takes tokens off the front. -/
theorem Reads.suffix_rest {task : Task} {e : Expr} (h : Reads task p e q) : q.rest <:+ p.rest := by
  refine h.invariant (P := fun r => r.rest <:+ p.rest) ?_ ?_ ?_ (List.suffix_refl _)
  · intro r t _ _ hr
    exact (suffix_advance r).trans hr
  · intro r fault hr
    exact hr
  · intro r fault t _ _ hr
    exact (suffix_advance r).trans hr

/-- What is read from the one cursor is read from the other, up to the looks of the tokens. A chain
goes on from operands that look the same. -/
def Task.Simulated (f : Token → Token) (S : Cursor → Cursor → Prop) :
    Task → Cursor → Expr → Cursor → Prop
  | operand level, p', e, q => ∃ e' q', Reads (.operand level) p' e' q' ∧
      e.mapTokens f = e'.mapTokens f ∧ S q q'
  | chain level left, p', e, q => ∀ left', left.mapTokens f = left'.mapTokens f →
      ∃ e' q', Reads (.chain level left') p' e' q' ∧ e.mapTokens f = e'.mapTokens f ∧ S q q'

/-- **A reading is simulated rule by rule.** -/
theorem Reads.simulated (hS : Simulation f last S) {task : Task} {e : Expr} (h : Reads task p e q)
    (hlast : last <:+ q.rest) (hp : S p p') : task.Simulated f S p' e q := by
  -- the tokens left over at the end of a reading are ahead all the way
  induction h generalizing p' with
  | layer hjoins _ hchain ihleft ihchain =>
    obtain ⟨left', q', hleft', heq, hq⟩ := ihleft (hlast.trans hchain.suffix_rest) hp
    obtain ⟨e', r', hchain', he, hr⟩ := ihchain hlast hq left' heq
    exact ⟨e', r', .layer hjoins hleft' hchain', he, hr⟩
  | @stop level p left hop =>
    intro left' heq
    exact ⟨left', p', .stop (hS.accept_eq_none hp hlast level.eof_notMem_operators hop), heq, hp⟩
  | @join level p q r s left right e op hop hright hchain ihright ihchain =>
    intro left' heq
    have hr := hlast.trans hchain.suffix_rest
    obtain ⟨op', q', hop', hopeq, hq⟩ :=
      hS.exists_accept hp level.eof_notMem_operators (hr.trans hright.suffix_rest) hop
    obtain ⟨right', r', hright', hrighteq, hr⟩ := ihright hr hq
    obtain ⟨e', s', hchain', he, hs⟩ := ihchain hlast hr (.binary op' left' right')
      (by simp only [Expr.mapTokens, hopeq, heq, hrighteq])
    exact ⟨e', s', .join hop' hright' hchain', he, hs⟩
  | sign hop hoperand ih =>
    obtain ⟨op', q', hop', hopeq, hq⟩ :=
      hS.exists_accept hp eof_notMem_signs (hlast.trans hoperand.suffix_rest) hop
    obtain ⟨e', r', hoperand', he, hr⟩ := ih hlast hq
    exact ⟨.unary op' e', r', .sign hop' hoperand', by simp only [Expr.mapTokens, hopeq, he], hr⟩
  | unsigned hop hprimary ih =>
    have hop' := hS.accept_eq_none hp (hlast.trans hprimary.suffix_rest) eof_notMem_signs hop
    obtain ⟨e', q', hprimary', he, hq⟩ := ih hlast hp
    exact ⟨e', q', .unsigned hop' hprimary', he, hq⟩
  | @closed p q r s paren close e hparen hinner hclose ih =>
    have hlast' : last <:+ r.rest := by
      rw [(rest_of_accept eof_notMem_rightParen hclose).1]
      exact hlast.trans (List.suffix_cons close s.rest)
    obtain ⟨paren', q', hparen', -, hq⟩ :=
      hS.exists_accept hp eof_notMem_leftParen (hlast'.trans hinner.suffix_rest) hparen
    obtain ⟨e', r', hinner', he, hr⟩ := ih hlast' hq
    obtain ⟨close', s', hclose', -, hs⟩ :=
      hS.exists_accept hr eof_notMem_rightParen hlast hclose
    exact ⟨.grouping e', s', .closed hparen' hinner' hclose', by simp only [Expr.mapTokens, he], hs⟩
  | unclosed hparen hinner hclose ih =>
    obtain ⟨paren', q', hparen', -, hq⟩ :=
      hS.exists_accept hp eof_notMem_leftParen (hlast.trans hinner.suffix_rest) hparen
    obtain ⟨e', r', hinner', he, hr⟩ := ih hlast hq
    have hclose' := hS.accept_eq_none hr hlast eof_notMem_rightParen hclose
    exact ⟨.grouping e', r'.fail .missingParen, .unclosed hparen' hinner' hclose',
      by simp only [Expr.mapTokens, he], hS.fail hr hlast .missingParen⟩
  | @literal p t e ht he =>
    obtain ⟨t', ht', heq⟩ := hS.exists_peek hp (hlast.trans (suffix_advance p)) ht
    obtain ⟨e', he', hnode⟩ := hS.exists_literal he heq
    exact ⟨e', p'.advance, .literal ht' he', hnode, hS.advance hp ht he.kind_ne_eof hlast⟩
  | @malformed p t ht hkind hvalue =>
    obtain ⟨t', ht', heq⟩ := hS.exists_peek hp (hlast.trans (suffix_advance p)) ht
    have hlexeme := hS.lexeme_eq_of_eq heq
    have hreads : Reads (.operand .primary) p' .missing _ :=
      .malformed ht' (hS.kind_eq_of_eq heq ▸ hkind) (hlexeme ▸ hvalue)
    have hadvance : S p.advance p'.advance := hS.advance hp ht (by simp [hkind]) hlast
    refine ⟨.missing, _, hreads, rfl, ?_⟩
    rw [← hlexeme]
    exact hS.report hadvance heq _
  | absent hkind =>
    exact ⟨.missing, p'.fail .missingOperand, .absent (hS.kind_notMem hp hlast hkind), rfl,
      hS.fail hp hlast .missingOperand⟩

/-- **An expression is read alike from both cursors**, if the relation lasts until the tokens come
that are left over. -/
theorem Simulation.expression (hS : Simulation f last S) (hp : S p p')
    (hlast : last <:+ p.expression.after.rest) :
    p.expression.expr.mapTokens f = p'.expression.expr.mapTokens f ∧
      S p.expression.after p'.expression.after := by
  obtain ⟨e', q', hreads, he, hq⟩ := (reads_expression p).simulated hS hlast hp
  obtain ⟨rfl, rfl⟩ := hreads.eq_result
  exact ⟨he, hq⟩

end Simulation

end Cursor

end ExprReader
