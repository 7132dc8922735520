import ExprReader.Proofs.Expr.Grammar
import ExprReader.Proofs.Expr.Runs
import ExprReader.Proofs.Expr.Simulation

/-!
# One token of lookahead

A parser looks at the current token and at no other that is ahead, with faults and without. So the
tokens behind the one at which an expression stops cannot matter, whatever they are: another list
with the same tokens up to there has the same parse and stops there as well.

## Main definitions

* `Cursor.SharesFront current tail tail' p p'`: the same is ahead of both cursors up to a token

## Main results

* `Cursor.simulation_sharesFront`: cursors that share their front do so until that token is passed
* `Cursor.exists_standsBefore_expression`: where an expression stops
* `Parse.ofTokens_local`: the tokens behind that place do not matter
-/

namespace ExprReader

namespace Cursor

/-- The same is ahead of both cursors up to the token `current`, and the same lies behind them. -/
structure SharesFront (current : Token) (tail tail' : List Token) (p p' : Cursor) : Prop where
  rest : ∃ front, p.rest = front ++ current :: tail ∧ p'.rest = front ++ current :: tail'
  previous_eq : p.previous = p'.previous
  diagnostics_eq : p.diagnostics = p'.diagnostics

variable {current t : Token} {tail tail' tokens : List Token} {p p' : Cursor}

theorem SharesFront.exists_peek (h : SharesFront current tail tail' p p') :
    ∃ t, p.peek = some t ∧ p'.peek = some t := by
  obtain ⟨front, hrest, hrest'⟩ := h.rest
  rw [peek, peek, hrest, hrest']
  cases front with
  | nil => exact ⟨current, rfl, rfl⟩
  | cons t front => exact ⟨t, rfl, rfl⟩

/-- Faults are reported at the same place. -/
theorem SharesFront.here_eq (h : SharesFront current tail tail' p p') : p.here = p'.here := by
  obtain ⟨t, ht, ht'⟩ := h.exists_peek
  rw [here, here, ht, ht', h.previous_eq]
  cases p'.previous <;> rfl

theorem SharesFront.report (h : SharesFront current tail tail' p p') (fault : Fault) (span : Span) :
    SharesFront current tail tail' (p.report fault span) (p'.report fault span) where
  rest := h.rest
  previous_eq := h.previous_eq
  diagnostics_eq := by rw [diagnostics_report, diagnostics_report, h.diagnostics_eq]

/-- While the token `current` is still ahead, both cursors take the same token. -/
theorem SharesFront.advance (h : SharesFront current tail tail' p p') (ht : p.peek = some t)
    (heof : t.kind ≠ .eof) (hlast : current :: tail <:+ p.advance.rest) :
    SharesFront current tail tail' p.advance p'.advance := by
  obtain ⟨u, hu, hu'⟩ := h.exists_peek
  obtain rfl : t = u := Option.some.inj (ht.symm.trans hu)
  have hcons := rest_eq_cons_advance ht heof
  have hcons' := rest_eq_cons_advance hu' heof
  obtain ⟨front, hrest, hrest'⟩ := h.rest
  refine ⟨?_, by rw [previous_advance ht, previous_advance hu'],
    by rw [diagnostics_advance, diagnostics_advance, h.diagnostics_eq]⟩
  cases front with
  | nil =>
    -- the token taken would be `current` itself
    have htail : tail = p.advance.rest := (List.cons.inj (hrest.symm.trans hcons)).2
    have hlength := hlast.length_le
    rw [← htail, List.length_cons] at hlength
    exact absurd hlength (Nat.not_succ_le_self _)
  | cons t front =>
    exact ⟨front, (List.cons.inj (hcons.symm.trans hrest)).2,
      (List.cons.inj (hcons'.symm.trans hrest')).2⟩

/-- **Cursors that share their front do so until it is passed.** -/
theorem simulation_sharesFront (current : Token) (tail tail' : List Token) :
    Simulation id (current :: tail) (SharesFront current tail tail') where
  kind_eq _ := rfl
  lexeme_eq _ := rfl
  peek_eq h _ := by
    obtain ⟨t, ht, ht'⟩ := h.exists_peek
    rw [ht, ht']
  advance h := h.advance
  fail h _ fault := by
    rw [fail, fail, h.here_eq]
    exact h.report fault _
  report {_ _ t t'} h ht fault := by
    obtain rfl : t = t' := ht
    exact h.report fault _

/-- **An expression that stops before `current` is read alike**, whatever lies behind. -/
theorem SharesFront.expression (h : SharesFront current tail tail' p p')
    (hstop : p.expression.after.rest = current :: tail) :
    p'.expression.expr = p.expression.expr ∧ p'.expression.after.rest = current :: tail' ∧
      p'.expression.after.diagnostics = p.expression.after.diagnostics := by
  obtain ⟨htree, hafter⟩ := (simulation_sharesFront current tail tail').expression h
    (hstop ▸ List.suffix_refl _)
  rw [Expr.mapTokens_id, Expr.mapTokens_id] at htree
  -- all of the front has been taken
  obtain ⟨front, hrest, hrest'⟩ := hafter.rest
  obtain rfl : front = [] := List.append_left_eq_self.mp (hrest.symm.trans hstop)
  exact ⟨htree.symm, hrest', hafter.diagnostics_eq.symm⟩

/-- **An expression stops before a token**, at the latest before the mark of the end. -/
theorem exists_standsBefore_expression (hend : tokens.getLast?.any Token.isEof = true) :
    ∃ pos current, StandsBefore tokens (ofTokens tokens).expression.after pos ∧
      tokens[pos]? = some current ∧ current.isComment = false := by
  obtain ⟨taken, hfollows⟩ := exists_follows_expression (ofTokens tokens)
  obtain ⟨pos, hpos, -⟩ := exists_standsBefore hfollows.rest_eq
  -- the mark of the end is not among the tokens taken, so there is something left
  obtain ⟨front, mark, htokens, heof, hcomment⟩ := Token.exists_mark hend
  have hmem : mark ∈ (ofTokens tokens).rest :=
    List.mem_filter.mpr ⟨by simp [htokens], by simp [hcomment]⟩
  rw [hfollows.rest_eq, List.mem_append] at hmem
  have hleft : mark ∈ (ofTokens tokens).expression.after.rest :=
    hmem.resolve_left fun h => hfollows.kind_ne_eof mark h heof
  obtain ⟨current, back, hback⟩ := List.exists_cons_of_ne_nil (List.ne_nil_of_mem hleft)
  have hpeek : (ofTokens tokens).expression.after.peek = some current := by
    rw [peek, hback, List.head?_cons]
  refine ⟨pos, current, hpos, hpos.peek_eq ▸ hpeek, ?_⟩
  simpa [Token.isComment] using hpos.kind_ne_comment current hpeek

/-- A cursor stands before an index that is not that of a comment if the token there is current. -/
theorem standsBefore_iff {pos : Nat} (hcurrent : tokens[pos]? = some current)
    (hkept : current.isComment = false) : StandsBefore tokens p pos ↔
      p.rest = current :: (tokens.drop (pos + 1)).filter fun t => !t.isComment := by
  obtain ⟨hlt, rfl⟩ := List.getElem?_eq_some_iff.mp hcurrent
  have hbehind : ((tokens.drop pos).filter fun t => !t.isComment) =
      tokens[pos] :: (tokens.drop (pos + 1)).filter fun t => !t.isComment := by
    rw [List.drop_eq_getElem_cons hlt, List.filter_cons_of_pos (by simp [hkept])]
  rw [← hbehind]
  refine ⟨StandsBefore.rest_eq, fun hrest => ⟨Nat.le_of_lt hlt, ?_, hrest⟩⟩
  rw [peek, hrest, hbehind, List.head?_cons, hcurrent]

/-- The tokens around an index that is not that of a comment. -/
theorem filter_eq_of_getElem? {pos : Nat} (hcurrent : tokens[pos]? = some current)
    (hkept : current.isComment = false) :
    (tokens.filter fun t => !t.isComment) =
      ((tokens.take pos).filter fun t => !t.isComment) ++
        current :: (tokens.drop (pos + 1)).filter fun t => !t.isComment := by
  obtain ⟨hlt, rfl⟩ := List.getElem?_eq_some_iff.mp hcurrent
  conv_lhs => rw [← List.take_append_drop pos tokens, List.drop_eq_getElem_cons hlt]
  rw [List.filter_append, List.filter_cons_of_pos (by simp [hkept])]

/-- Lists with the same tokens up to an index give cursors that share their front. -/
theorem sharesFront_ofTokens {pos : Nat} {tokens' : List Token}
    (hcurrent : tokens[pos]? = some current) (hcurrent' : tokens'[pos]? = some current)
    (hkept : current.isComment = false) (hfront : tokens'.take pos = tokens.take pos) :
    SharesFront current ((tokens.drop (pos + 1)).filter fun t => !t.isComment)
      ((tokens'.drop (pos + 1)).filter fun t => !t.isComment) (ofTokens tokens)
      (ofTokens tokens') where
  rest := ⟨_, filter_eq_of_getElem? hcurrent hkept,
    hfront ▸ filter_eq_of_getElem? hcurrent' hkept⟩
  previous_eq := rfl
  diagnostics_eq := rfl

end Cursor

namespace Parse

open Cursor

/-- **Tokens behind the expression do not matter.** In a list that ends with the mark of the end,
the expression stops before a token. Every other such list with the same tokens up to and including
that one has the same parse, and there the expression stops before the same token. -/
theorem ofTokens_local (tokens : List Token) (hend : tokens.getLast?.any Token.isEof = true) :
    let stop := (Cursor.ofTokens tokens).expression.after
    ∃ pos, StandsBefore tokens stop pos ∧ pos < tokens.length ∧
      ∀ tokens', tokens'.getLast?.any Token.isEof = true →
        tokens'.take (pos + 1) = tokens.take (pos + 1) →
        let stop' := (Cursor.ofTokens tokens').expression.after
        ofTokens tokens' = ofTokens tokens ∧ StandsBefore tokens' stop' pos ∧
          stop'.peek = stop.peek := by
  intro stop
  obtain ⟨pos, current, hpos, hcurrent, hkept⟩ := exists_standsBefore_expression hend
  refine ⟨pos, hpos, (List.getElem?_eq_some_iff.mp hcurrent).1, ?_⟩
  intro tokens' hend' htake stop'
  have hcurrent' : tokens'[pos]? = some current := by
    have hlook := congrArg (fun ts => ts[pos]?) htake
    simpa [List.getElem?_take, hcurrent] using hlook
  have hfront : tokens'.take pos = tokens.take pos := by
    have hshorter := congrArg (List.take pos) htake
    simpa [List.take_take] using hshorter
  have hstart := sharesFront_ofTokens hcurrent hcurrent' hkept hfront
  obtain ⟨htree, hstop', hdiag⟩ := hstart.expression ((standsBefore_iff hcurrent hkept).mp hpos)
  have hpos' : StandsBefore tokens' stop' pos := (standsBefore_iff hcurrent' hkept).mpr hstop'
  obtain ⟨t, ht, ht'⟩ := hstart.exists_peek
  refine ⟨?_, hpos', ?_⟩
  · rw [ofTokens_of_getLast? hend, ofTokens_of_getLast? hend', htree, hdiag, ht, ht']
  · rw [hpos'.peek_eq, hpos.peek_eq, hcurrent, hcurrent']

/-- In `(1 // a` and `2` on the next line, the expression stops before `2`; anything may follow. -/
theorem ofTokens_local_of_trailing :
    let front : List Token := [⟨.leftParen, "(", 0⟩, ⟨.number, "1", 1⟩, ⟨.comment, "// a", 3⟩,
      ⟨.number, "2", 8⟩]
    let tokens := front ++ [⟨.rightParen, ")", 9⟩, ⟨.eof, "", 10⟩]
    let tokens' := front ++ [⟨.star, "*", 10⟩, ⟨.eof, "", 11⟩, ⟨.semicolon, ";", 11⟩,
      ⟨.eof, "", 12⟩]
    let stop := (Cursor.ofTokens tokens).expression.after
    let stop' := (Cursor.ofTokens tokens').expression.after
    tokens.getLast?.any Token.isEof = true ∧ tokens'.getLast?.any Token.isEof = true ∧
      tokens'.take 4 = tokens.take 4 ∧ StandsBefore tokens stop 3 ∧
      (ofTokens tokens).diagnostics = [.error .missingParen ⟨8, 9⟩] ∧
      ofTokens tokens' = ofTokens tokens ∧ StandsBefore tokens' stop' 3 ∧
      stop'.peek = stop.peek := by
  intro front tokens tokens' stop stop'
  have hend : tokens.getLast?.any Token.isEof = true := rfl
  have hend' : tokens'.getLast?.any Token.isEof = true := rfl
  have hpos : StandsBefore tokens stop 3 := ⟨by decide, by decide +kernel, by decide +kernel⟩
  obtain ⟨pos, hpos', -, hlocal⟩ := ofTokens_local tokens hend
  obtain rfl : pos = 3 := hpos'.unique hpos
  exact ⟨hend, hend', rfl, hpos, by decide +kernel, hlocal tokens' hend' rfl⟩

end Parse

end ExprReader
