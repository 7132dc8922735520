import ExprReader.Proofs.Expr.Reads

/-!
# The grammar

The grammar of expressions as a relation between tokens and trees that knows nothing of cursors:

```
equality       := comparison ( ("==" | "!=") comparison )*
comparison     := addition ( (">" | ">=" | "<" | "<=") addition )*
addition       := multiplication ( ("+" | "-") multiplication )*
multiplication := unary ( ("*" | "/") unary )*
unary          := ("!" | "-" | "+") unary | primary
primary        := NUMBER | STRING | "true" | "false" | "nil" | "(" equality ")"
```

A repetition is folded from the left, so it is written as a rule that is recursive on the left. The
parser reads without a fault exactly what the grammar derives, and never stops before an operator
that could go on.

## Main definitions

* `Layer level operators next`: a line of the grammar with a repetition
* `Derives level ts e`: the tokens are an operand of the level, and `e` is its tree
* `Parse.tokensAhead tokens`: what there is to read
* `Parse.Split tokens front e back`: an expression, and what is left alone behind it

## Main results

* `Reads.derives`: what is read without a fault is derived
* `Derives.begins`: what is derived is read without a fault
* `ofTokens_eq_ok_iff_split`: parsing succeeds exactly on a split, of which there is one at most
-/

namespace ExprReader

/-- A line of the grammar with a repetition: the level, the operators that join its operands, and
the level of the operands. -/
inductive Layer : Precedence → List Token.Kind → Precedence → Prop
  | equality : Layer .equality [.equalEqual, .bangEqual] .comparison
  | comparison : Layer .comparison [.greater, .greaterEqual, .less, .lessEqual] .addition
  | addition : Layer .addition [.plus, .minus] .multiplication
  | multiplication : Layer .multiplication [.star, .slash] .unary

/-- **The grammar.** -/
inductive Derives : Precedence → List Token → Expr → Prop
  | next {level next : Precedence} {operators : List Token.Kind} {ts : List Token} {e : Expr}
      (hlayer : Layer level operators next) (h : Derives next ts e) : Derives level ts e
  | binary {level next : Precedence} {operators : List Token.Kind} {ls rs : List Token}
      {op : Token} {left right : Expr} (hlayer : Layer level operators next)
      (hleft : Derives level ls left) (hop : op.kind ∈ operators) (hright : Derives next rs right) :
      Derives level (ls ++ op :: rs) (.binary op left right)
  | unary {ts : List Token} {op : Token} {e : Expr}
      (hop : op.kind = .bang ∨ op.kind = .minus ∨ op.kind = .plus) (h : Derives .unary ts e) :
      Derives .unary (op :: ts) (.unary op e)
  | primary {ts : List Token} {e : Expr} (h : Derives .primary ts e) : Derives .unary ts e
  | literal {t : Token} {e : Expr} (h : Literal t e) : Derives .primary [t] e
  | grouping {ts : List Token} {paren close : Token} {e : Expr} (hparen : paren.kind = .leftParen)
      (h : Derives .equality ts e) (hclose : close.kind = .rightParen) :
      Derives .primary (paren :: ts ++ [close]) (.grouping e)

/-! ## The lines of the grammar and the levels of the parser -/

section Layers

variable {level next : Precedence} {operators : List Token.Kind}

theorem Layer.joins (h : Layer level operators next) : level.joins = true := by
  cases h <;> rfl

theorem Layer.next_eq (h : Layer level operators next) : next = level.tighter := by
  cases h <;> rfl

theorem Layer.mem_iff (h : Layer level operators next) (k : Token.Kind) :
    k ∈ operators ↔ k ∈ level.operators := by
  cases h <;> simp [Precedence.operators, or_comm]

theorem Layer.height_eq (h : Layer level operators next) : level.height = next.height + 1 := by
  cases h <;> rfl

theorem Precedence.exists_layer (hjoins : level.joins = true) :
    ∃ operators, Layer level operators level.tighter := by
  cases level with
  | equality => exact ⟨_, .equality⟩
  | comparison => exact ⟨_, .comparison⟩
  | addition => exact ⟨_, .addition⟩
  | multiplication => exact ⟨_, .multiplication⟩
  | unary => cases hjoins
  | primary => cases hjoins

end Layers

namespace Cursor

/-! ## What is read without a fault is derived -/

/-- The current token is no operator of the level or of a tighter one. -/
def StopsAt (level : Precedence) (p : Cursor) : Prop :=
  ∀ l : Precedence, l.height ≤ level.height → ∀ t ∈ p.peek, t.kind ∉ l.operators

theorem stopsAt_unary (p : Cursor) : p.StopsAt .unary := by
  intro l hl t _
  cases l <;> simp_all [Precedence.height, Precedence.operators]

theorem stopsAt_primary (p : Cursor) : p.StopsAt .primary :=
  fun l hl => p.stopsAt_unary l (Nat.le_succ_of_le hl)

/-- A level stops where the next tighter one does, unless one of its own operators follows. -/
theorem StopsAt.of_tighter {level : Precedence} {p : Cursor} (hjoins : level.joins = true)
    (hstops : p.StopsAt level.tighter) (hop : p.accept level.operators = none) :
    p.StopsAt level := by
  intro l hl t ht hmem
  obtain ⟨operators, hlayer⟩ := Precedence.exists_layer hjoins
  have hheight := hlayer.height_eq
  rcases Nat.lt_or_ge l.height level.height with hlt | hge
  · exact hstops l (by omega) t ht hmem
  · obtain rfl : l = level := Precedence.height_injective (by omega)
    exact (accept_eq_none_iff l.eof_notMem_operators).mp hop t ht hmem

/-- What a reading without a fault says about tokens and tree. A chain goes on from an operand of
its level, which is what `ls` stands for. -/
def Task.Derived : Task → Cursor → Expr → Cursor → Prop
  | operand level, p, e, q => ∃ ts, p.rest = ts ++ q.rest ∧ Derives level ts e ∧ q.StopsAt level
  | chain level left, p, e, q =>
    level.joins = true → p.StopsAt level.tighter → ∀ ls, Derives level ls left →
      ∃ ts, p.rest = ts ++ q.rest ∧ Derives level (ls ++ ts) e ∧ q.StopsAt level

/-- Of two readings in a row that together add no diagnostics, neither does. -/
theorem Reads.diagnostics_eq {task task' : Task} {p q r : Cursor} {e e' : Expr}
    (h : Reads task p e q) (h' : Reads task' q e' r) (hdiag : r.diagnostics = p.diagnostics) :
    q.diagnostics = p.diagnostics ∧ r.diagnostics = q.diagnostics := by
  have heq : q.diagnostics = p.diagnostics :=
    (h.prefix_diagnostics.eq_of_length_le (hdiag ▸ h'.prefix_diagnostics.length_le)).symm
  exact ⟨heq, hdiag.trans heq.symm⟩

/-- **What is read without a fault is derived**, and no operator that could go on is left. -/
theorem Reads.derives {task : Task} {p q : Cursor} {e : Expr} (h : Reads task p e q)
    (hdiag : q.diagnostics = p.diagnostics) : task.Derived p e q := by
  -- diagnostics are only added, so no part of a reading without a fault has a fault either
  induction h with
  | layer hjoins hleft hchain ihleft ihchain =>
    obtain ⟨hd, hd'⟩ := hleft.diagnostics_eq hchain hdiag
    obtain ⟨ts, hts, hderives, hstops⟩ := ihleft hd
    obtain ⟨operators, hlayer⟩ := Precedence.exists_layer hjoins
    obtain ⟨us, hus, hderives', hstops'⟩ :=
      ihchain hd' hjoins hstops ts (.next hlayer hderives)
    exact ⟨ts ++ us, by rw [hts, hus, List.append_assoc], hderives', hstops'⟩
  | stop hop =>
    intro hjoins hstops ls hleft
    refine ⟨[], rfl, ?_, hstops.of_tighter hjoins hop⟩
    rwa [List.append_nil]
  | @join level p q r s left right e op hop hright hchain ihright ihchain =>
    intro hjoins hstops ls hleft
    obtain ⟨hrest, hkind, hdiag'⟩ := rest_of_accept level.eof_notMem_operators hop
    obtain ⟨hd, hd'⟩ := hright.diagnostics_eq hchain (hdiag.trans hdiag'.symm)
    -- the operand so far, the operator and the next operand are the left operand of what follows
    obtain ⟨ts, hts, hderives, hstops⟩ := ihright hd
    obtain ⟨operators, hlayer⟩ := Precedence.exists_layer hjoins
    obtain ⟨us, hus, hderives', hstops'⟩ := ihchain hd' hjoins hstops (ls ++ op :: ts)
      (.binary hlayer hleft ((hlayer.mem_iff _).mpr hkind) hderives)
    exact ⟨op :: ts ++ us, by rw [hrest, hts, hus]; simp, by simpa using hderives', hstops'⟩
  | sign hop hoperand ih =>
    obtain ⟨hrest, hkind, hdiag'⟩ := rest_of_accept eof_notMem_signs hop
    obtain ⟨ts, hts, hderives, hstops⟩ := ih (hdiag.trans hdiag'.symm)
    exact ⟨_ :: ts, by rw [hrest, hts, List.cons_append],
      .unary (by simpa [signs] using hkind) hderives, hstops⟩
  | unsigned hop hprimary ih =>
    obtain ⟨ts, hts, hderives, hstops⟩ := ih hdiag
    exact ⟨ts, hts, .primary hderives, stopsAt_unary _⟩
  | @closed p q r s paren close e hparen hinner hclose ih =>
    obtain ⟨hrest, hkind, hdiag₁⟩ := rest_of_accept eof_notMem_leftParen hparen
    obtain ⟨hrest', hkind', hdiag₂⟩ := rest_of_accept eof_notMem_rightParen hclose
    obtain ⟨ts, hts, hderives, -⟩ := ih (hdiag₂.symm.trans (hdiag.trans hdiag₁.symm))
    exact ⟨paren :: ts ++ [close], by rw [hrest, hts, hrest']; simp,
      .grouping (by simpa using hkind) hderives (by simpa using hkind'), stopsAt_primary _⟩
  | unclosed hparen hinner hclose ih =>
    -- the missing parenthesis has been reported
    obtain ⟨-, -, hdiag'⟩ := rest_of_accept eof_notMem_leftParen hparen
    have hlength := hinner.prefix_diagnostics.length_le
    have := congrArg List.length (hdiag.trans hdiag'.symm)
    simp only [diagnostics_fail, List.length_append, List.length_singleton] at this
    omega
  | literal ht he =>
    exact ⟨[_], rest_eq_cons_advance ht he.kind_ne_eof, .literal he, stopsAt_primary _⟩
  | malformed ht hkind hvalue => simp at hdiag
  | absent hkind => simp at hdiag

/-! ## What is derived is read without a fault -/

/-- An operand of the level begins with `e`, which ends at `q`: where the level joins operands,
what it joins to `e` is the whole operand, and elsewhere `e` is. -/
def Begins (level : Precedence) (p : Cursor) (e : Expr) (q : Cursor) : Prop :=
  if level.joins then
    ∀ e' r, Reads (.chain level e) q e' r → Reads (.operand level) p e' r
  else Reads (.operand level) p e q

/-- The beginning of an operand is all of it if no operator of the level follows. -/
theorem Begins.reads {level : Precedence} {p q : Cursor} {e : Expr} (h : Begins level p e q)
    (hfollow : ∀ t ∈ q.rest.head?, t.kind ∉ level.operators) : Reads (.operand level) p e q := by
  unfold Begins at h
  split at h
  · exact h e q (.stop ((accept_eq_none_iff level.eof_notMem_operators).mpr hfollow))
  · exact h

end Cursor

theorem Derives.exists_primaryStart {ts : List Token} {e : Expr} (h : Derives .primary ts e) :
    ∃ t us, ts = t :: us ∧ t.kind ∈ primaryStart := by
  cases h with
  | next hlayer => cases hlayer
  | binary hlayer => cases hlayer
  | literal h => exact ⟨_, [], rfl, h.kind_mem.1⟩
  | grouping hparen _ _ => exact ⟨_, _, rfl, by simp [hparen, primaryStart]⟩

open Cursor in
/-- **What is derived is read without a fault**, up to operators of the level: those of tighter
levels must not follow, or the tokens would not have been all of the operand. -/
theorem Derives.begins {level : Precedence} {ts : List Token} {e : Expr} (h : Derives level ts e)
    (p : Cursor) (rest : List Token) (hrest : p.rest = ts ++ rest)
    (hfollow : ∀ l : Precedence, l.height < level.height → ∀ t ∈ rest.head?, t.kind ∉ l.operators) :
    ∃ q, Begins level p e q ∧ q.rest = rest ∧ q.diagnostics = p.diagnostics := by
  -- the rules for operators are recursive on the left while the parser goes to the right, so the
  -- statement is about how an operand begins and leaves open what is joined to it
  induction h generalizing p rest with
  | @next level next operators ts e hlayer _ ih =>
    have hheight := hlayer.height_eq
    obtain ⟨q, hbegins, rfl, hdiag⟩ := ih p rest hrest fun l hl => hfollow l (by omega)
    have hreads := hbegins.reads (hfollow next (by omega))
    rw [hlayer.next_eq] at hreads
    refine ⟨q, ?_, rfl, hdiag⟩
    rw [Begins, if_pos hlayer.joins]
    exact fun e' r hchain => .layer hlayer.joins hreads hchain
  | @binary level next operators ls rs op left right hlayer _ hop _ ihleft ihright =>
    have hheight := hlayer.height_eq
    have hmem := (hlayer.mem_iff op.kind).mp hop
    -- the operator belongs to no tighter level, so the left operand ends before it
    obtain ⟨q, hbegins, hq, hdiag⟩ := ihleft p (op :: rs ++ rest) (by simp [hrest]) (by
      rintro l hl t ht hmem'
      obtain rfl : op = t := by simpa using ht
      exact absurd (Precedence.eq_of_mem_operators hmem' hmem) (by rintro rfl; omega))
    obtain ⟨haccept, hadvance⟩ := accept_of_rest level.operators level.eof_notMem_operators hq hmem
    obtain ⟨r, hbegins', rfl, hdiag'⟩ :=
      ihright q.advance rest hadvance fun l hl => hfollow l (by omega)
    have hreads := hbegins'.reads (hfollow next (by omega))
    rw [hlayer.next_eq] at hreads
    refine ⟨r, ?_, rfl, by rw [hdiag', diagnostics_advance, hdiag]⟩
    rw [Begins, if_pos hlayer.joins] at hbegins ⊢
    exact fun e' s hchain => hbegins e' s (.join haccept hreads hchain)
  | @unary ts op e hop _ ih =>
    obtain ⟨haccept, hadvance⟩ :=
      accept_of_rest signs eof_notMem_signs hrest (by simpa [signs] using hop)
    obtain ⟨q, hbegins, hq, hdiag⟩ := ih p.advance rest hadvance hfollow
    refine ⟨q, .sign haccept hbegins, hq, ?_⟩
    rw [hdiag, diagnostics_advance]
  | @primary ts e hprimary ih =>
    obtain ⟨t, us, rfl, hstart⟩ := hprimary.exists_primaryStart
    obtain ⟨q, hbegins, hq, hdiag⟩ := ih p rest hrest fun l hl => hfollow l (Nat.lt_succ_of_lt hl)
    refine ⟨q, .unsigned ?_ hbegins, hq, hdiag⟩
    -- a primary does not begin with a sign
    rw [accept_eq_none_iff eof_notMem_signs]
    intro u hu
    obtain rfl : t = u := by simpa [peek, hrest] using hu
    simp only [primaryStart, List.mem_cons, List.not_mem_nil, or_false] at hstart
    rcases hstart with h | h | h | h | h | h <;> simp [h, signs]
  | @literal t e he =>
    have ht : p.peek = some t := by simp [peek, hrest]
    have hcons := rest_eq_cons_advance ht he.kind_ne_eof
    refine ⟨p.advance, .literal ht he, ?_, diagnostics_advance p⟩
    simpa [hrest] using hcons.symm
  | @grouping ts paren close e hparen _ hclose ih =>
    obtain ⟨haccept, hadvance⟩ := accept_of_rest [.leftParen] eof_notMem_leftParen
      (by simpa using hrest) (by simp [hparen])
    -- the closing parenthesis is no operator, so the inner expression ends before it
    have hfollow' : ∀ l : Precedence, ∀ t ∈ (close :: rest).head?, t.kind ∉ l.operators := by
      intro l t ht hmem
      obtain rfl : close = t := by simpa using ht
      simp [Precedence.mem_operators_iff, hclose, Precedence.ofOperator?] at hmem
    obtain ⟨q, hbegins, hq, hdiag⟩ :=
      ih p.advance (close :: rest) (by simpa using hadvance) fun l _ => hfollow' l
    have hreads := hbegins.reads (by rw [hq]; exact hfollow' .equality)
    obtain ⟨haccept', hadvance'⟩ := accept_of_rest [.rightParen] eof_notMem_rightParen hq
      (by simp [hclose])
    refine ⟨q.advance, .closed haccept hreads haccept', hadvance', ?_⟩
    rw [diagnostics_advance, hdiag, diagnostics_advance]

/-- What a derivation is made of. -/
theorem Derives.mem_cases {level : Precedence} {ts : List Token} {e : Expr}
    (h : Derives level ts e) : ∀ t ∈ ts, t.kind ∈ binaryOperators ∨ t.kind ∈ signs ∨
      (∃ e', Literal t e') ∨ t.kind = .leftParen ∨ t.kind = .rightParen := by
  induction h with
  | next _ _ ih => exact ih
  | binary hlayer _ hop _ ihleft ihright =>
    simp only [List.mem_append, List.mem_cons]
    rintro t (ht | rfl | ht)
    · exact ihleft t ht
    · exact .inl (Precedence.mem_binaryOperators_of_mem ((hlayer.mem_iff _).mp hop))
    · exact ihright t ht
  | unary hop _ ih =>
    simp only [List.mem_cons]
    rintro t (rfl | ht)
    · exact .inr (.inl (by simpa [signs] using hop))
    · exact ih t ht
  | primary _ ih => exact ih
  | literal he =>
    simp only [List.mem_singleton]
    rintro t rfl
    exact .inr (.inr (.inl ⟨_, he⟩))
  | grouping hparen _ hclose ih =>
    simp only [List.cons_append, List.mem_cons, List.mem_append, List.not_mem_nil, or_false]
    rintro t (rfl | ht | rfl)
    · exact .inr (.inr (.inr (.inl hparen)))
    · exact ih t ht
    · exact .inr (.inr (.inr (.inr hclose)))

theorem Derives.kind_ne_eof {level : Precedence} {ts : List Token} {e : Expr}
    (h : Derives level ts e) : ∀ t ∈ ts, t.kind ≠ .eof := by
  intro t ht
  rcases h.mem_cases t ht with h | h | ⟨e', h⟩ | h | h
  · exact Cursor.kind_ne_eof_of_mem eof_notMem_binaryOperators h
  · exact Cursor.kind_ne_eof_of_mem eof_notMem_signs h
  · exact h.kind_ne_eof
  · simp [h]
  · simp [h]

/-- A number is derived only from the decimal writing of one. -/
theorem Derives.isSome_ofChars? {level : Precedence} {ts : List Token} {e : Expr}
    (h : Derives level ts e) :
    ∀ t ∈ ts, t.kind = .number → (Binary64.ofChars? t.lexeme.toList).isSome = true := by
  intro t ht hkind
  rcases h.mem_cases t ht with h | h | ⟨e', h⟩ | h | h
  · simp [hkind, binaryOperators] at h
  · simp [hkind, signs] at h
  · cases h <;> simp_all
  · simp [hkind] at h
  · simp [hkind] at h

theorem Derives.isMissing_eq_false {level : Precedence} {ts : List Token} {e : Expr}
    (h : Derives level ts e) : e.isMissing = false := by
  induction h with
  | next _ _ ih => exact ih
  | binary => rfl
  | unary => rfl
  | primary _ ih => exact ih
  | literal he => cases he <;> rfl
  | grouping => rfl

/-! ## Whole lists of tokens -/

namespace Parse

/-- What there is to read: the tokens before the first mark of the end, without comments. -/
def tokensAhead (tokens : List Token) : List Token :=
  (tokens.filter fun t => !t.isComment).takeWhile fun t => !t.isEof

/-- What there is to read begins with an expression, and what is left alone behind it does not
begin with an operator that could go on. -/
structure Split (tokens front : List Token) (e : Expr) (back : List Token) : Prop where
  append_eq : front ++ back = tokensAhead tokens
  derives : Derives .equality front e
  decimal : ∀ t ∈ front, t.kind = .number → (Binary64.ofChars? t.lexeme.toList).isSome = true
  follow : ∀ t ∈ back.head?, t.kind ∉ binaryOperators

theorem ofTokens_of_getLast? {tokens : List Token}
    (hend : tokens.getLast?.any Token.isEof = true) :
    ofTokens tokens =
      ⟨if (Cursor.ofTokens tokens).expression.expr.isMissing then
          .error (.noExpression (((Cursor.ofTokens tokens).peek.map Token.offset).getD 0))
        else .ok (Cursor.ofTokens tokens).expression.expr,
        (Cursor.ofTokens tokens).expression.after.diagnostics⟩ := by
  rw [ofTokens, if_pos hend]

/-- What is ahead behind a derived front. -/
theorem tokensAhead_eq_append {tokens front rest : List Token} {level : Precedence} {e : Expr}
    (h : Derives level front e) (hrest : (Cursor.ofTokens tokens).rest = front ++ rest) :
    tokensAhead tokens = front ++ rest.takeWhile fun t => !t.isEof := by
  have hfront : ∀ t ∈ front, (!t.isEof) = true := by
    simpa [Token.isEof] using h.kind_ne_eof
  rw [← List.takeWhile_append_of_pos hfront, ← hrest]
  rfl

/-- A reading without a fault splits the tokens. -/
theorem exists_split {tokens : List Token}
    (hdiag : (Cursor.ofTokens tokens).expression.after.diagnostics = []) :
    ∃ front back, Split tokens front (Cursor.ofTokens tokens).expression.expr back := by
  obtain ⟨front, hrest, hderives, hstops⟩ :=
    (Cursor.reads_expression (Cursor.ofTokens tokens)).derives hdiag
  refine ⟨front, _, (tokensAhead_eq_append hderives hrest).symm, hderives,
    hderives.isSome_ofChars?, fun t ht hmem => ?_⟩
  rw [List.head?_takeWhile, Option.mem_filter_iff] at ht
  obtain ⟨level, hlevel⟩ := Option.isSome_iff_exists.mp (Precedence.mem_binaryOperators_iff.mp hmem)
  exact hstops level level.height_le t ht.1 (Precedence.mem_operators_iff.mpr hlevel)

/-- A split says what is read, and where the reading ends. -/
theorem Split.expression_eq {tokens front back : List Token} {e : Expr}
    (h : Split tokens front e back) :
    (Cursor.ofTokens tokens).expression.expr = e ∧
      (Cursor.ofTokens tokens).expression.after.diagnostics = [] ∧
      tokensAhead tokens = front ++
        (Cursor.ofTokens tokens).expression.after.rest.takeWhile fun t => !t.isEof := by
  -- all tokens behind the expression, those from the first mark of the end on included
  let rest := back ++ (Cursor.ofTokens tokens).rest.dropWhile fun t => !t.isEof
  have hrest : (Cursor.ofTokens tokens).rest = front ++ rest := by
    rw [← List.append_assoc, h.append_eq]
    exact List.takeWhile_append_dropWhile.symm
  have hfollow : ∀ (l : Precedence), ∀ t ∈ rest.head?, t.kind ∉ l.operators := by
    intro l t ht hmem
    rw [List.head?_append, Option.mem_def, Option.or_eq_some_iff] at ht
    rcases ht with ht | ⟨-, ht⟩
    · exact h.follow t ht (Precedence.mem_binaryOperators_of_mem hmem)
    · -- behind what is ahead stands the mark of the end
      have heof := List.head?_dropWhile_not (p := fun t : Token => !t.isEof)
        (l := (Cursor.ofTokens tokens).rest)
      rw [ht] at heof
      refine Cursor.kind_ne_eof_of_mem l.eof_notMem_operators hmem ?_
      simpa [Token.isEof] using heof
  obtain ⟨q, hbegins, hq, hdiag⟩ :=
    h.derives.begins (Cursor.ofTokens tokens) rest hrest fun l _ => hfollow l
  obtain ⟨he, rfl⟩ := (hbegins.reads (by rw [hq]; exact hfollow .equality)).eq_result
  exact ⟨he, hdiag, tokensAhead_eq_append h.derives (by rw [hrest, ← hq]; rfl)⟩

/-- There is one way at most to split the tokens. -/
theorem Split.unique {tokens front front' back back' : List Token} {e e' : Expr}
    (h : Split tokens front e back) (h' : Split tokens front' e' back') :
    front = front' ∧ e = e' ∧ back = back' := by
  obtain ⟨he, -, hahead⟩ := h.expression_eq
  obtain ⟨he', -, hahead'⟩ := h'.expression_eq
  obtain rfl : front = front' := List.append_cancel_right (hahead.symm.trans hahead')
  exact ⟨rfl, he.symm.trans he', List.append_cancel_left (h.append_eq.trans h'.append_eq.symm)⟩

/-- **Parsing succeeds without a fault exactly on what the grammar derives**: what there is to read
begins with an expression of the grammar that no operator follows, and the result is its tree. There
is one such beginning at most, and one tree for it. -/
theorem ofTokens_eq_ok_iff_split (tokens : List Token)
    (hend : tokens.getLast?.any Token.isEof = true) :
    (∀ e, (ofTokens tokens).result = .ok e ∧ (ofTokens tokens).diagnostics = [] ↔
        ∃ front back, Split tokens front e back) ∧
      ∀ front e back front' e' back', Split tokens front e back → Split tokens front' e' back' →
        front = front' ∧ e = e' ∧ back = back' := by
  refine ⟨fun e => ?_, fun _ _ _ _ _ _ h h' => h.unique h'⟩
  rw [ofTokens_of_getLast? hend]
  constructor
  · rintro ⟨hresult, hdiag⟩
    obtain ⟨front, back, h⟩ := exists_split hdiag
    have hmissing := h.derives.isMissing_eq_false
    simp only [hmissing, Bool.false_eq_true, if_false, Except.ok.injEq] at hresult
    exact ⟨front, back, hresult ▸ h⟩
  · rintro ⟨front, back, h⟩
    obtain ⟨rfl, hdiag, -⟩ := h.expression_eq
    simp [h.derives.isMissing_eq_false, hdiag]

/-- `1 - 2 * 3` is read in front of `4`, past a comment, and what stands behind the first mark of
the end is not looked at. -/
theorem ofTokens_eq_ok_of_difference :
    let one : Token := ⟨.number, "1", 0⟩
    let minus : Token := ⟨.minus, "-", 2⟩
    let two : Token := ⟨.number, "2", 4⟩
    let star : Token := ⟨.star, "*", 9⟩
    let three : Token := ⟨.number, "3", 11⟩
    let four : Token := ⟨.number, "4", 13⟩
    let eof : Token := ⟨.eof, "", 14⟩
    let tokens := [one, minus, two, ⟨.comment, "//", 6⟩, star, three, four, eof, star, eof]
    tokens.getLast?.any Token.isEof = true ∧
      (ofTokens tokens).result = .ok (.binary minus (.number one ⟨0x3FF0000000000000⟩)
        (.binary star (.number two ⟨0x4000000000000000⟩) (.number three ⟨0x4008000000000000⟩))) ∧
      (ofTokens tokens).diagnostics = [] := by
  intro one minus two star three four eof tokens
  have hend : tokens.getLast?.any Token.isEof = true := rfl
  have hone : Derives .multiplication [one] (.number one ⟨0x3FF0000000000000⟩) :=
    .next .multiplication (.primary (.literal (.number rfl (by decide +kernel))))
  have htwo : Derives .multiplication [two] (.number two ⟨0x4000000000000000⟩) :=
    .next .multiplication (.primary (.literal (.number rfl (by decide +kernel))))
  have hthree : Derives .unary [three] (.number three ⟨0x4008000000000000⟩) :=
    .primary (.literal (.number rfl (by decide +kernel)))
  have hproduct : Derives .multiplication [two, star, three] _ :=
    .binary .multiplication htwo (by simp [star]) hthree
  have hdifference : Derives .addition [one, minus, two, star, three] _ :=
    .binary .addition (.next .addition hone) (by simp [minus]) hproduct
  have hwhole := Derives.next .equality (.next .comparison hdifference)
  exact ⟨hend, ((ofTokens_eq_ok_iff_split tokens hend).1 _).mpr
    ⟨_, [four], rfl, hwhole, hwhole.isSome_ofChars?, by decide⟩⟩

end Parse

end ExprReader
