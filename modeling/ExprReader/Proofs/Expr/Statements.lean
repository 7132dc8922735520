import Mathlib.Order.Bounds.Basic
import ExprReader.Proofs.Expr.Recovery
import ExprReader.Proofs.Expr.Runs

/-!
# Statements that are skipped

Skipping after a fault takes the current token and goes on to the first place behind it where a
statement may begin: in front of a word that begins one, behind a semicolon, or at the end. Comments
neither stop it nor hide a semicolon. Each skip takes a token unless the end has been reached, so a
parser that skips as often as there are tokens comes to the end, whatever it reads in between.

## Main definitions

* `Token.before tokens pos`: the nearest token in front of an index that is no comment
* `Cursor.BoundaryAt tokens pos`: a statement may begin, or the text ends, at an index
* `Cursor.Skips tokens pos p i`: on the way from an index to another no boundary has been passed

## Main results

* `Skips.exists_skipToBoundary`: the skipping stops at a boundary, or behind the last token
* `atEnd_run_of_le_count`: enough skips come to the end
* `Reachable.synchronize_first_boundary`: where a skip comes to
-/

namespace ExprReader

/-- The token that stands nearest in front of an index, comments left out. -/
def Token.before (tokens : List Token) (pos : Nat) : Option Token :=
  ((tokens.take pos).filter fun t => !t.isComment).getLast?

namespace Cursor

/-- At the index stands a token that is no comment, and it marks the end, or it begins a statement,
or the nearest token in front of it is a semicolon. -/
def BoundaryAt (tokens : List Token) (pos : Nat) : Prop :=
  ∃ t, tokens[pos]? = some t ∧ t.kind ≠ .comment ∧
    (t.kind = .eof ∨ t.kind ∈ statementStart ∨ ∃ u ∈ Token.before tokens pos, u.kind = .semicolon)

/-- A cursor that has come from an index to a later one: between the two lies no boundary, and the
token taken last is the nearest one in front of the cursor. -/
structure Skips (tokens : List Token) (pos : Nat) (p : Cursor) (i : Nat) : Prop where
  stands : StandsBefore tokens p i
  lt : pos < i
  previous_eq : p.previous = Token.before tokens i
  not_boundaryAt : ∀ j, pos < j → j < i → ¬BoundaryAt tokens j

variable {p q : Cursor} {t : Token} {tokens : List Token} {pos i j : Nat} {calls : List Call}

/-! ## Comments on the way -/

theorem le_skipComments (tokens : List Token) (pos : Nat) : pos ≤ skipComments tokens pos := by
  fun_induction skipComments tokens pos with
  | case1 pos t ht hcomment ih => exact Nat.le_of_succ_le ih
  | case2 => exact Nat.le_refl _
  | case3 => exact Nat.le_refl _

/-- Only comments are stepped over. -/
theorem kind_eq_comment_of_lt_skipComments (hle : pos ≤ j) (hlt : j < skipComments tokens pos)
    (ht : tokens[j]? = some t) : t.kind = .comment := by
  fun_induction skipComments tokens pos with
  | case1 pos u hu hcomment ih =>
    rcases Nat.eq_or_lt_of_le hle with rfl | hgt
    · rw [hu] at ht
      obtain rfl := Option.some.inj ht
      exact beq_iff_eq.mp hcomment
    · exact ih hgt hlt
  | case2 => exact absurd hlt (Nat.not_lt.mpr hle)
  | case3 => exact absurd hlt (Nat.not_lt.mpr hle)

/-- Behind a token that is no comment, and behind the comments that follow it, it is the nearest. -/
theorem before_skipComments (ht : tokens[pos]? = some t) (hkind : t.kind ≠ .comment) :
    Token.before tokens (skipComments tokens (pos + 1)) = some t := by
  have hkept : t.isComment = false := by simpa [Token.isComment] using hkind
  rw [Token.before, filter_take_skipComments, List.take_add_one, ht, Option.toList_some,
    List.filter_append, List.filter_cons_of_pos (by simp [hkept]), List.filter_nil,
    List.getLast?_concat]

/-! ## The way to the next boundary -/

/-- The first token is taken whatever it is. -/
theorem StandsBefore.skips (h : StandsBefore tokens p pos) (ht : p.peek = some t)
    (heof : t.kind ≠ .eof) : Skips tokens pos p.advance (skipComments tokens (pos + 1)) where
  stands := h.advance ht heof
  lt := le_skipComments tokens (pos + 1)
  previous_eq := by
    rw [previous_advance ht, before_skipComments (h.peek_eq ▸ ht) (h.kind_ne_comment t ht)]
  not_boundaryAt j hgt hlt := by
    rintro ⟨u, hu, hkind, -⟩
    exact hkind (kind_eq_comment_of_lt_skipComments hgt hlt hu)

/-- Behind a place that is no boundary the way goes on. -/
theorem Skips.advance (h : Skips tokens pos p i) (hnot : ¬BoundaryAt tokens i)
    (ht : p.peek = some t) (heof : t.kind ≠ .eof) :
    Skips tokens pos p.advance (skipComments tokens (i + 1)) := by
  have hnext := h.stands.skips ht heof
  refine ⟨hnext.stands, Nat.lt_trans h.lt hnext.lt, hnext.previous_eq, fun j hgt hlt => ?_⟩
  rcases Nat.lt_trichotomy j i with hbefore | rfl | hbehind
  · exact h.not_boundaryAt j hgt hbefore
  · exact hnot
  · exact hnext.not_boundaryAt j hbehind hlt

/-- The skipping stops just where there is a boundary, and behind the last token. -/
theorem Skips.stops_iff (h : Skips tokens pos p i) :
    (p.atEnd || p.atBoundary) = true ↔ BoundaryAt tokens i ∨ i = tokens.length := by
  cases ht : p.peek with
  | none =>
    have hlength : i = tokens.length :=
      Nat.le_antisymm h.stands.le_length (List.getElem?_eq_none_iff.mp (h.stands.peek_eq ▸ ht))
    simp [atEnd, ht, hlength]
  | some t =>
    have hcurrent : tokens[i]? = some t := h.stands.peek_eq ▸ ht
    have hlt : i ≠ tokens.length := Nat.ne_of_lt (List.getElem?_eq_some_iff.mp hcurrent).1
    have hkind := h.stands.kind_ne_comment t ht
    simp only [atEnd, atBoundary, ht, h.previous_eq, Option.all_some, Option.any_some,
      Bool.or_eq_true, Option.any_eq_true, beq_iff_eq, List.contains_iff_mem, Token.isEof, hlt,
      or_false, BoundaryAt, hcurrent, Option.some.injEq, exists_eq_left', hkind, ne_eq,
      not_false_eq_true, true_and, Option.mem_def]
    exact or_congr_right or_comm

/-- **The skipping comes to a boundary**, or behind the last token. -/
theorem Skips.exists_skipToBoundary (h : Skips tokens pos p i) :
    ∃ i', Skips tokens pos p.skipToBoundary i' ∧ (BoundaryAt tokens i' ∨ i' = tokens.length) := by
  fun_induction skipToBoundary p generalizing i with
  | case1 p hstop => exact ⟨i, h, h.stops_iff.mp hstop⟩
  | case2 p hgo ih =>
    have hnot : ¬(BoundaryAt tokens i ∨ i = tokens.length) := mt h.stops_iff.mpr hgo
    rw [not_or] at hnot
    simp only [Bool.or_eq_true, not_or, Bool.not_eq_true] at hgo
    obtain ⟨hend, -⟩ := hgo
    rw [atEnd, Option.all_eq_false] at hend
    obtain ⟨t, ht, heof⟩ := hend
    exact ih (h.advance hnot.1 ht (Token.isEof_eq_false_iff.mp heof))

/-- Nothing is reported on the way. -/
theorem diagnostics_synchronize (p : Cursor) : p.synchronize.diagnostics = p.diagnostics := by
  refine skipToBoundary_induction (P := fun q => q.diagnostics = p.diagnostics) ?_
    (diagnostics_advance p)
  intro q _ hq
  rw [diagnostics_advance, hq]

/-! ## Progress -/

theorem atEnd_run (h : p.atEnd = true) (calls : List Call) : (p.run calls).atEnd = true := by
  obtain ⟨taken, hmoves, -⟩ := exists_moves_run p calls
  rw [atEnd, hmoves.peek_eq_of_atEnd h]
  exact h

/-- A skip takes a token. -/
theorem length_synchronize_lt (h : p.atEnd = false) :
    p.synchronize.rest.length < p.rest.length := by
  rw [atEnd, Option.all_eq_false] at h
  obtain ⟨t, ht, heof⟩ := h
  exact Nat.lt_of_le_of_lt (suffix_skipToBoundary p.advance).length_le (advance_shorter ht heof)

/-- **Enough skips come to the end**, whatever is read between them. -/
theorem atEnd_run_of_le_count (h : p.rest.length ≤ calls.count .synchronize) :
    (p.run calls).atEnd = true := by
  induction calls generalizing p with
  | nil =>
    have hrest : p.rest = [] := List.length_eq_zero_iff.mp (Nat.le_zero.mp h)
    simp [run, atEnd, peek, hrest]
  | cons call calls ih =>
    by_cases hend : p.atEnd = true
    · exact atEnd_run hend (call :: calls)
    cases call with
    | expression =>
      apply ih
      rw [List.count_cons_of_ne (by decide)] at h
      exact Nat.le_trans p.expression.le h
    | synchronize =>
      apply ih
      rw [List.count_cons_self] at h
      have hlt := length_synchronize_lt (Bool.eq_false_iff.mpr hend)
      exact Nat.le_of_lt_succ (Nat.lt_of_lt_of_le hlt h)

/-! ## Where a skip comes to -/

/-- Where a cursor stands is a matter of the tokens ahead alone. -/
theorem StandsBefore.of_rest_eq (h : StandsBefore tokens p pos) (hrest : q.rest = p.rest) :
    StandsBefore tokens q pos where
  le_length := h.le_length
  peek_eq := by
    rw [← h.peek_eq, peek, hrest]
    rfl
  rest_eq := hrest.trans h.rest_eq

/-- At the end a skip takes nothing. -/
theorem rest_synchronize_of_atEnd (h : p.atEnd = true) : p.synchronize.rest = p.rest := by
  have hrest := rest_advance_of_atEnd h
  have hend : p.advance.atEnd = true := by
    rw [atEnd, peek, hrest]
    exact h
  rw [synchronize, skipToBoundary_of_atEnd hend, hrest]

/-- **A skip comes to the first boundary.** Wherever a parser comes to before the end, skipping
moves it to the first boundary behind the current token, or behind the last token if there is none,
and the token taken last is then the nearest one in front of this place that is no comment. At the
end it stays in its place. Nothing is reported, and skips as many as the tokens ahead, with any
reading between them, come to the end. -/
theorem Reachable.synchronize_first_boundary (h : Reachable tokens p) :
    let q := p.synchronize
    ∃ pos pos', StandsBefore tokens p pos ∧ StandsBefore tokens q pos' ∧
      (p.atEnd = false →
        IsLeast {i | pos < i ∧ (BoundaryAt tokens i ∨ i = tokens.length)} pos' ∧
          q.previous = Token.before tokens pos') ∧
      (p.atEnd = true → pos' = pos) ∧
      q.diagnostics = p.diagnostics ∧
      ∀ calls : List Call, p.rest.length ≤ calls.count .synchronize →
        (p.run calls).atEnd = true := by
  intro q
  obtain ⟨taken, htaken⟩ := h.suffix
  obtain ⟨pos, hpos, -⟩ := exists_standsBefore htaken.symm
  have hreport := diagnostics_synchronize p
  have hprogress : ∀ calls : List Call, p.rest.length ≤ calls.count .synchronize →
      (p.run calls).atEnd = true := fun _ => atEnd_run_of_le_count
  by_cases hend : p.atEnd = true
  · have hstays := hpos.of_rest_eq (rest_synchronize_of_atEnd hend)
    exact ⟨pos, pos, hpos, hstays, by simp [hend], fun _ => rfl, hreport, hprogress⟩
  · have hopen := Bool.eq_false_iff.mpr hend
    rw [atEnd, Option.all_eq_false] at hopen
    obtain ⟨t, ht, heof⟩ := hopen
    obtain ⟨pos', hskips, hstop⟩ :=
      (hpos.skips ht (Token.isEof_eq_false_iff.mp heof)).exists_skipToBoundary
    refine ⟨pos, pos', hpos, hskips.stands, fun _ => ⟨⟨⟨hskips.lt, hstop⟩, ?_⟩,
      hskips.previous_eq⟩, fun h => absurd h hend, hreport, hprogress⟩
    -- an earlier place would be a boundary that has been passed
    rintro i ⟨hgt, hboundary | rfl⟩
    · exact Nat.le_of_not_lt fun hlt => hskips.not_boundaryAt i hgt hlt hboundary
    · exact hskips.stands.le_length

/-- The word that is current at first stops nothing, and the comments behind the semicolon are left
out; no mark of the end comes behind the tokens. -/
theorem synchronize_first_boundary_of_comments :
    let one : Token := ⟨.number, "1", 21⟩
    let semicolon : Token := ⟨.semicolon, ";", 10⟩
    let tokens := [⟨.comment, "// a", 0⟩, ⟨.kwPrint, "print", 5⟩, semicolon,
      ⟨.comment, "// b", 11⟩, ⟨.comment, "// ;", 16⟩, one, ⟨.plus, "+", 23⟩]
    let p := ofTokens tokens
    let q := p.synchronize
    Reachable tokens p ∧ p.atEnd = false ∧ q.peek = some one ∧ q.previous = some semicolon ∧
      q.synchronize.peek = none ∧
      ∃ pos pos', StandsBefore tokens p pos ∧ StandsBefore tokens q pos' ∧
        (p.atEnd = false →
          IsLeast {i | pos < i ∧ (BoundaryAt tokens i ∨ i = tokens.length)} pos' ∧
            q.previous = Token.before tokens pos') ∧
        (p.atEnd = true → pos' = pos) ∧
        q.diagnostics = p.diagnostics ∧
        ∀ calls : List Call, p.rest.length ≤ calls.count .synchronize →
          (p.run calls).atEnd = true := by
  intro one semicolon tokens p q
  have hreachable : Reachable tokens p := .start
  exact ⟨hreachable, by decide +kernel, by decide +kernel, by decide +kernel, by decide +kernel,
    hreachable.synchronize_first_boundary⟩

end Cursor

end ExprReader
