import ExprReader.Proofs.Expr.Reads

/-!
# Where faults are reported

A parser reports a fault at the span of a token, or behind it when the end of the text is reached.
So what holds of the spans of all tokens, and with a span of the empty span at its end, holds of the
span of every fault.

## Main definitions

* `Cursor.Within P p`: all spans that the cursor knows have the property

## Main results

* `Reads.within`: reading keeps to such spans
* `Parse.span_of_mem_diagnostics`: so do the faults of a parse
-/

namespace ExprReader

namespace Cursor

/-- All spans that the cursor knows have the property. -/
structure Within (P : Span → Prop) (p : Cursor) : Prop where
  rest : ∀ t ∈ p.rest, P t.span
  previous : ∀ t ∈ p.previous, P t.span
  brink : P p.brink
  diagnostics : ∀ d ∈ p.diagnostics, P d.span

section Within

variable {P : Span → Prop} {p : Cursor}

theorem Within.span_of_peek (h : p.Within P) {t : Token} (ht : p.peek = some t) : P t.span :=
  h.rest t (mem_rest_of_peek ht)

/-- A fault at the current token is reported at such a span. -/
theorem Within.here (h : p.Within P) (hpoint : ∀ s, P s → P (.point s.stop)) : P p.here := by
  -- at the mark of the end, behind the last token; else at the current one; without one, at `brink`
  unfold Cursor.here
  split
  · rename_i t last ht hlast
    by_cases heof : t.isEof = true
    · rw [if_pos heof]
      exact hpoint _ (h.previous last hlast)
    · rw [if_neg heof]
      exact h.span_of_peek ht
  · rename_i t ht _
    exact h.span_of_peek ht
  · exact h.brink

theorem Within.advance (h : p.Within P) {t : Token} (ht : p.peek = some t) :
    p.advance.Within P where
  rest u hu := h.rest u ((suffix_advance p).subset hu)
  previous u hu := by
    rw [previous_advance ht] at hu
    obtain rfl := Option.some.inj hu
    exact h.span_of_peek ht
  brink := by rw [brink_advance]; exact h.brink
  diagnostics := by rw [diagnostics_advance]; exact h.diagnostics

theorem Within.report (h : p.Within P) (fault : Fault) {span : Span} (hspan : P span) :
    (p.report fault span).Within P where
  rest := h.rest
  previous := h.previous
  brink := h.brink
  diagnostics d hd := by
    rw [diagnostics_report] at hd
    rcases List.mem_append.mp hd with hd | hd
    · exact h.diagnostics d hd
    · obtain rfl := List.mem_singleton.mp hd
      exact hspan

/-- **Reading keeps to the spans of the tokens**, and to the ends of these spans. -/
theorem Reads.within {task : Task} {q : Cursor} {e : Expr} (h : Reads task p e q)
    (hpoint : ∀ s, P s → P (.point s.stop)) (hp : p.Within P) : q.Within P := by
  refine h.invariant (P := Cursor.Within P) ?_ ?_ ?_ hp
  · intro p t ht _ hp
    exact hp.advance ht
  · intro p fault hp
    exact hp.report fault (hp.here hpoint)
  · intro p fault t ht _ hp
    exact (hp.advance ht).report fault (hp.span_of_peek ht)

end Within

end Cursor

/-- **A fault of a parse is reported at a token, or at the end of one.** -/
theorem Parse.span_of_mem_diagnostics {P : Span → Prop} {tokens : List Token}
    (hpoint : ∀ s, P s → P (.point s.stop)) (htokens : ∀ t ∈ tokens, P t.span) :
    ∀ d ∈ (ofTokens tokens).diagnostics, P d.span := by
  unfold ofTokens
  split
  · rename_i hlast
    -- there is a last token, so the span for the lack of all tokens is not that of an empty list
    obtain ⟨last, hlast, -⟩ := (Option.any_eq_true _ _).mp hlast
    have hstart : (Cursor.ofTokens tokens).Within P :=
      { rest := fun t ht => htokens t (List.mem_filter.mp ht).1
        previous := by simp [Cursor.ofTokens]
        brink := by
          rw [Cursor.ofTokens, hlast]
          exact htokens last (List.mem_of_getLast? hlast)
        diagnostics := by simp [Cursor.ofTokens] }
    exact ((Cursor.reads_expression _).within hpoint hstart).diagnostics
  · intro d hd
    cases hd

end ExprReader
