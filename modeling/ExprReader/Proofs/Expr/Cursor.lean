import ExprReader.Proofs.Expr.Precedence

/-!
# Moves of a cursor

What the operations of a cursor do to the tokens ahead, to the token taken last and to the
diagnostics, and which cursors a parser can come to. Nothing that follows unfolds an operation of
a cursor again.

## Main definitions

* `Cursor.Reachable tokens p`: a parser of `tokens` can come to `p`

## Main results

* `accept_eq_some_iff`, `accept_eq_none_iff`: when a token is accepted
* `suffix_skipToBoundary`, `suffix_synchronize`: skipping only drops tokens at the front
-/

namespace ExprReader

theorem Token.isEof_eq_false_iff {t : Token} : t.isEof = false ↔ t.kind ≠ .eof := by
  simp [Token.isEof]

/-- Tokens that end with the mark of the end, which is no comment. -/
theorem Token.exists_mark {tokens : List Token} (h : tokens.getLast?.any Token.isEof = true) :
    ∃ front mark, tokens = front ++ [mark] ∧ mark.kind = .eof ∧ mark.isComment = false := by
  obtain ⟨mark, hmark, heof⟩ := (Option.any_eq_true _ _).mp h
  obtain ⟨front, rfl⟩ := List.getLast?_eq_some_iff.mp hmark
  have hkind : mark.kind = .eof := beq_iff_eq.mp heof
  exact ⟨front, mark, rfl, hkind, by rw [isComment, hkind]; rfl⟩

namespace Cursor

variable {p q : Cursor} {t : Token} {kinds : List Token.Kind}

/-! ## One token -/

@[simp] theorem diagnostics_advance (p : Cursor) : p.advance.diagnostics = p.diagnostics := by
  unfold advance
  split <;> rfl

@[simp] theorem brink_advance (p : Cursor) : p.advance.brink = p.brink := by
  unfold advance
  split <;> rfl

@[simp] theorem diagnostics_report (p : Cursor) (fault : Fault) (span : Span) :
    (p.report fault span).diagnostics = p.diagnostics ++ [.error fault span] := rfl

@[simp] theorem diagnostics_fail (p : Cursor) (fault : Fault) :
    (p.fail fault).diagnostics = p.diagnostics ++ [.error fault p.here] := rfl

theorem mem_rest_of_peek (ht : p.peek = some t) : t ∈ p.rest := List.mem_of_mem_head? ht

theorem previous_advance (ht : p.peek = some t) : p.advance.previous = some t := by
  unfold advance
  obtain ⟨rest, hrest⟩ := List.head?_eq_some_iff.mp ht
  rw [hrest]

/-- Taking the current token takes it off the tokens ahead. -/
theorem rest_eq_cons_advance (ht : p.peek = some t) (heof : t.kind ≠ .eof) :
    p.rest = t :: p.advance.rest := by
  obtain ⟨rest, hrest⟩ := List.head?_eq_some_iff.mp ht
  simp [advance, hrest, Token.isEof_eq_false_iff.mpr heof]

/-- At the end of the tokens nothing is taken. -/
theorem rest_advance_of_atEnd (h : p.atEnd = true) : p.advance.rest = p.rest := by
  unfold advance
  cases hrest : p.rest with
  | nil => exact hrest
  | cons t rest =>
    have heof : t.isEof = true := by simpa [atEnd, peek, hrest] using h
    simp [heof]

theorem suffix_advance (p : Cursor) : p.advance.rest <:+ p.rest := by
  by_cases h : p.atEnd = true
  · exact ⟨[], by rw [List.nil_append, rest_advance_of_atEnd h]⟩
  · simp only [atEnd, Bool.not_eq_true, Option.all_eq_false] at h
    obtain ⟨t, ht, heof⟩ := h
    rw [rest_eq_cons_advance ht (Token.isEof_eq_false_iff.mp heof)]
    exact List.suffix_cons t _

/-- A token is accepted if it is the current one and of one of the kinds. -/
theorem accept_eq_some_iff (h : Token.Kind.eof ∉ kinds) :
    p.accept kinds = some (t, q) ↔ p.peek = some t ∧ t.kind ∈ kinds ∧ p.advance = q := by
  cases hp : p.peek with
  | none => simp [accept, hp]
  | some u =>
    have hne : u.kind ∈ kinds → u.isEof = false := fun hu =>
      Token.isEof_eq_false_iff.mpr fun he => h (he ▸ hu)
    by_cases hu : u.kind ∈ kinds
    · simp only [accept, hp, hu, hne hu, Bool.not_false, and_self, if_true, Option.some.injEq,
        Prod.mk.injEq]
      exact ⟨fun ⟨he, hq⟩ => ⟨he, he ▸ hu, hq⟩, fun ⟨he, _, hq⟩ => ⟨he, hq⟩⟩
    · simp only [accept, hp, hu, false_and, if_false, reduceCtorEq, Option.some.injEq, false_iff]
      rintro ⟨rfl, ht, -⟩
      exact hu ht

/-- No token is accepted if the current one, if there is one, is of another kind. -/
theorem accept_eq_none_iff (h : Token.Kind.eof ∉ kinds) :
    p.accept kinds = none ↔ ∀ t ∈ p.peek, t.kind ∉ kinds := by
  constructor
  · intro hnone t ht hkind
    have := (accept_eq_some_iff h).mpr ⟨ht, hkind, rfl⟩
    rw [hnone] at this
    cases this
  · intro hkinds
    cases haccept : p.accept kinds with
    | none => rfl
    | some result =>
      obtain ⟨ht, hkind, -⟩ := (accept_eq_some_iff (q := result.2) h).mp haccept
      exact absurd hkind (hkinds _ ht)

theorem kind_ne_eof_of_mem (h : Token.Kind.eof ∉ kinds) (ht : t.kind ∈ kinds) : t.kind ≠ .eof :=
  fun he => h (he ▸ ht)

/-- What accepting a token leaves. -/
theorem rest_of_accept (heof : Token.Kind.eof ∉ kinds) (h : p.accept kinds = some (t, q)) :
    p.rest = t :: q.rest ∧ t.kind ∈ kinds ∧ q.diagnostics = p.diagnostics := by
  obtain ⟨ht, hkind, rfl⟩ := (accept_eq_some_iff heof).mp h
  exact ⟨rest_eq_cons_advance ht (kind_ne_eof_of_mem heof hkind), hkind, diagnostics_advance p⟩

theorem accept_of_rest (kinds : List Token.Kind) {ts : List Token} (heof : Token.Kind.eof ∉ kinds)
    (hrest : p.rest = t :: ts) (hkind : t.kind ∈ kinds) :
    p.accept kinds = some (t, p.advance) ∧ p.advance.rest = ts := by
  have ht : p.peek = some t := by rw [peek, hrest, List.head?_cons]
  have hcons := rest_eq_cons_advance ht (kind_ne_eof_of_mem heof hkind)
  rw [hrest, List.cons.injEq] at hcons
  exact ⟨(accept_eq_some_iff heof).mpr ⟨ht, hkind, rfl⟩, hcons.2.symm⟩

/-! ## Many tokens -/

/-- What holds before the skipping and survives each step of it holds behind it. -/
theorem skipToBoundary_induction {P : Cursor → Prop}
    (hadvance : ∀ p, p.atEnd = false → P p → P p.advance) (h : P p) : P p.skipToBoundary := by
  fun_induction skipToBoundary p with
  | case1 p hstop => exact h
  | case2 p hstop ih =>
    simp only [Bool.or_eq_true, not_or, Bool.not_eq_true] at hstop
    exact ih (hadvance p hstop.1 h)

theorem suffix_skipToBoundary (p : Cursor) : p.skipToBoundary.rest <:+ p.rest :=
  skipToBoundary_induction (P := fun q => q.rest <:+ p.rest)
    (fun q _ hq => (suffix_advance q).trans hq) (List.suffix_refl _)

/-- Skipping only drops tokens at the front. -/
theorem suffix_synchronize (p : Cursor) : p.synchronize.rest <:+ p.rest :=
  (suffix_skipToBoundary _).trans (suffix_advance p)

/-! ## Where a parser can come to -/

/-- The cursors that a parser of some tokens can come to, by reading expressions and skipping
statements in any order. -/
inductive Reachable (tokens : List Token) : Cursor → Prop
  | start : Reachable tokens (ofTokens tokens)
  | expression {p : Cursor} : Reachable tokens p → Reachable tokens p.expression.after
  | synchronize {p : Cursor} : Reachable tokens p → Reachable tokens p.synchronize

end Cursor

end ExprReader
