import Mathlib.Data.List.Basic
import ExprReader.Proofs.Expr.Reads

/-!
# Runs of a parser

A parser can be told to read an expression or to skip a statement, again and again. Whatever the
tokens and whatever the calls, its cursor goes forwards and stays before the first mark of the end;
the token taken last is the one that stands nearest before the cursor. There is one exception:
skipping at the mark itself makes the mark the token taken last, although it stays current.

## Main definitions

* `Cursor.Call`, `Cursor.run calls`: what a parser is told to do, and where that leads
* `Cursor.SkipsAtMark p calls`: a statement is skipped while the mark of the end is current
* `Cursor.StandsBefore tokens p pos`: the current token is that of an index
* `Cursor.skipComments tokens pos`: the index behind the comments that stand at an index
* `Cursor.Moves p q taken`, `Cursor.Follows p q taken`: from one cursor to another, tokens are taken

## Main results

* `Call.exists_follows`: a call takes tokens unless it skips at the mark
* `exists_moves_run`: so does a run, but for the token taken last
* `StandsBefore.unique`: the index of a cursor is its only one
* `standsBefore_ofTokens`, `StandsBefore.advance`: an index that steps over comments
* `run_goes_forwards`: where a cursor comes to, and how it goes on from there
-/

namespace ExprReader

namespace Cursor

/-- What a parser can be told to do. -/
inductive Call
  | expression
  | synchronize
  deriving DecidableEq, Repr

/-- The cursor behind a call. -/
def Call.run : Call → Cursor → Cursor
  | expression, p => p.expression.after
  | synchronize, p => p.synchronize

/-- The cursor behind some calls, made one after the other. -/
def run (p : Cursor) (calls : List Call) : Cursor := calls.foldl (fun q call => call.run q) p

/-- The mark of the end is the current token. -/
def AtMark (p : Cursor) : Prop := ∃ t ∈ p.peek, t.kind = .eof

/-- One of the calls skips a statement while the mark of the end is the current token. -/
def SkipsAtMark (p : Cursor) (calls : List Call) : Prop :=
  ∃ before after, calls = before ++ .synchronize :: after ∧ (p.run before).AtMark

/-- The current token is that of an index, or there is none left at the end of the tokens; the
tokens ahead are those from the index on that are no comments. -/
structure StandsBefore (tokens : List Token) (p : Cursor) (pos : Nat) : Prop where
  le_length : pos ≤ tokens.length
  peek_eq : p.peek = tokens[pos]?
  rest_eq : p.rest = (tokens.drop pos).filter fun t => !t.isComment

/-- The index behind the comments that stand at an index. -/
def skipComments (tokens : List Token) (pos : Nat) : Nat :=
  match _ : tokens[pos]? with
  | some t => if t.isComment then skipComments tokens (pos + 1) else pos
  | none => pos
termination_by tokens.length - pos
decreasing_by
  have hlt := (List.getElem?_eq_some_iff.mp ‹_›).1
  omega

/-- From one cursor to another some tokens are taken, none of them a mark of the end, and
diagnostics are only added. -/
structure Moves (p q : Cursor) (taken : List Token) : Prop where
  rest_eq : p.rest = taken ++ q.rest
  kind_ne_eof : ∀ t ∈ taken, t.kind ≠ .eof
  prefix_diagnostics : p.diagnostics <+: q.diagnostics

/-- So it is, and the token taken last is the last of these. -/
structure Follows (p q : Cursor) (taken : List Token) : Prop extends Moves p q taken where
  previous_eq : q.previous = taken.getLast?.or p.previous

variable {p q r : Cursor} {t : Token} {tokens taken more : List Token} {pos pos' : Nat}
  {calls : List Call}

/-! ## Tokens taken -/

theorem Moves.refl (p : Cursor) : Moves p p [] := ⟨rfl, List.forall_mem_nil _, List.prefix_refl _⟩

theorem Moves.trans (h : Moves p q taken) (h' : Moves q r more) : Moves p r (taken ++ more) where
  rest_eq := by rw [h.rest_eq, h'.rest_eq, List.append_assoc]
  kind_ne_eof := List.forall_mem_append.mpr ⟨h.kind_ne_eof, h'.kind_ne_eof⟩
  prefix_diagnostics := h.prefix_diagnostics.trans h'.prefix_diagnostics

theorem Follows.refl (p : Cursor) : Follows p p [] := ⟨Moves.refl p, rfl⟩

theorem Follows.trans (h : Follows p q taken) (h' : Follows q r more) :
    Follows p r (taken ++ more) where
  toMoves := h.toMoves.trans h'.toMoves
  previous_eq := by
    rw [h'.previous_eq, h.previous_eq, List.getLast?_append, Option.or_assoc]

theorem Follows.report (h : Follows p q taken) (fault : Fault) (span : Span) :
    Follows p (q.report fault span) taken where
  rest_eq := h.rest_eq
  kind_ne_eof := h.kind_ne_eof
  prefix_diagnostics := h.prefix_diagnostics.trans (List.prefix_append _ _)
  previous_eq := h.previous_eq

theorem follows_advance (ht : p.peek = some t) (heof : t.kind ≠ .eof) :
    Follows p p.advance [t] where
  rest_eq := rest_eq_cons_advance ht heof
  kind_ne_eof := List.forall_mem_singleton.mpr heof
  prefix_diagnostics := ⟨[], by rw [List.append_nil, diagnostics_advance]⟩
  previous_eq := previous_advance ht

/-- At the end of the tokens nothing can be taken. -/
theorem Moves.eq_nil_of_atEnd (h : Moves p q taken) (hend : p.atEnd = true) : taken = [] := by
  cases taken with
  | nil => rfl
  | cons t taken =>
    have hpeek : p.peek = some t := by rw [peek, h.rest_eq, List.cons_append, List.head?_cons]
    have heof : t.isEof = true := by simpa [atEnd, hpeek] using hend
    exact absurd (beq_iff_eq.mp heof) (h.kind_ne_eof t List.mem_cons_self)

theorem Moves.peek_eq_of_atEnd (h : Moves p q taken) (hend : p.atEnd = true) :
    q.peek = p.peek := by
  have hrest := h.rest_eq
  rw [h.eq_nil_of_atEnd hend, List.nil_append] at hrest
  rw [peek, peek, hrest]

theorem AtMark.atEnd (h : p.AtMark) : p.atEnd = true := by
  obtain ⟨t, ht, heof⟩ := h
  have hpeek : p.peek = some t := ht
  simp [Cursor.atEnd, hpeek, Token.isEof, heof]

/-- The mark of the end stays current. -/
theorem AtMark.of_moves (h : p.AtMark) (hmoves : Moves p q taken) : q.AtMark := by
  have hpeek := hmoves.peek_eq_of_atEnd h.atEnd
  obtain ⟨t, ht, heof⟩ := h
  exact ⟨t, hpeek.trans ht, heof⟩

/-! ## One call -/

theorem exists_follows_expression (p : Cursor) : ∃ taken, Follows p p.expression.after taken := by
  refine (reads_expression p).invariant (P := fun r => ∃ taken, Follows p r taken) ?_ ?_ ?_
    ⟨[], Follows.refl p⟩
  · rintro r t ht heof ⟨taken, h⟩
    exact ⟨_, h.trans (follows_advance ht heof)⟩
  · rintro r fault ⟨taken, h⟩
    exact ⟨taken, h.report fault r.here⟩
  · rintro r fault t ht heof ⟨taken, h⟩
    exact ⟨_, (h.trans (follows_advance ht heof)).report fault t.span⟩

theorem exists_follows_skipToBoundary (p : Cursor) :
    ∃ taken, Follows p p.skipToBoundary taken := by
  refine skipToBoundary_induction (P := fun r => ∃ taken, Follows p r taken) ?_ ⟨[], Follows.refl p⟩
  rintro r hend ⟨taken, h⟩
  rw [atEnd, Option.all_eq_false] at hend
  obtain ⟨t, ht, heof⟩ := hend
  exact ⟨_, h.trans (follows_advance ht (Token.isEof_eq_false_iff.mp heof))⟩

/-- At the end of the tokens there is nothing to skip. -/
theorem skipToBoundary_of_atEnd (h : p.atEnd = true) : p.skipToBoundary = p := by
  rw [skipToBoundary, h, Bool.true_or, if_pos rfl]

/-- Away from the mark of the end, skipping takes tokens like reading does. -/
theorem exists_follows_synchronize (h : ¬p.AtMark) : ∃ taken, Follows p p.synchronize taken := by
  cases ht : p.peek with
  | none =>
    have hrest : p.rest = [] := List.head?_eq_none_iff.mp ht
    have hadvance : p.advance = p := by
      unfold advance
      rw [hrest]
    rw [synchronize, hadvance]
    exact exists_follows_skipToBoundary p
  | some t =>
    have heof : t.kind ≠ .eof := fun heof => h ⟨t, ht, heof⟩
    obtain ⟨taken, hskip⟩ := exists_follows_skipToBoundary p.advance
    exact ⟨_, (follows_advance ht heof).trans hskip⟩

/-- At the mark of the end, skipping takes the mark and leaves it current. -/
theorem AtMark.synchronize (h : p.AtMark) :
    Moves p p.synchronize [] ∧ p.synchronize.previous = p.peek := by
  have hrest := rest_advance_of_atEnd h.atEnd
  have hend : p.advance.atEnd = true := by
    rw [Cursor.atEnd, Cursor.peek, hrest]
    exact h.atEnd
  obtain ⟨t, ht, -⟩ := h
  rw [Cursor.synchronize, skipToBoundary_of_atEnd hend, previous_advance ht]
  have hdiag : p.diagnostics <+: p.advance.diagnostics :=
    ⟨[], by rw [List.append_nil, diagnostics_advance]⟩
  exact ⟨⟨hrest.symm, List.forall_mem_nil _, hdiag⟩, ht.symm⟩

/-- **A call takes tokens** and goes on behind them, unless it skips at the mark of the end. -/
theorem Call.exists_follows {call : Call} (h : ¬(call = .synchronize ∧ p.AtMark)) :
    ∃ taken, Follows p (call.run p) taken := by
  cases call with
  | expression => exact exists_follows_expression p
  | synchronize => exact exists_follows_synchronize fun hp => h ⟨rfl, hp⟩

/-! ## Many calls -/

theorem skipsAtMark_cons {call : Call} : p.SkipsAtMark (call :: calls) ↔
    call = .synchronize ∧ p.AtMark ∨ (call.run p).SkipsAtMark calls := by
  constructor
  · rintro ⟨before, after, heq, hmark⟩
    rcases List.cons_eq_append_iff.mp heq with ⟨rfl, heq⟩ | ⟨before, rfl, rfl⟩
    · obtain ⟨rfl, -⟩ := List.cons.inj heq
      exact .inl ⟨rfl, hmark⟩
    · exact .inr ⟨before, after, rfl, hmark⟩
  · rintro (⟨rfl, hmark⟩ | ⟨before, after, rfl, hmark⟩)
    · exact ⟨[], calls, rfl, hmark⟩
    · exact ⟨call :: before, after, rfl, hmark⟩

/-- **A run takes tokens**, and the token taken last is the last of them, or the mark of the end if
a statement is skipped there. -/
theorem exists_moves_run (p : Cursor) (calls : List Call) :
    ∃ taken, Moves p (p.run calls) taken ∧
      (¬p.SkipsAtMark calls → (p.run calls).previous = taken.getLast?.or p.previous) ∧
      (p.SkipsAtMark calls → (p.run calls).AtMark ∧
        (p.run calls).previous = (p.run calls).peek) := by
  induction calls generalizing p with
  | nil =>
    refine ⟨[], Moves.refl p, fun _ => rfl, ?_⟩
    rintro ⟨before, after, heq, -⟩
    cases before <;> cases heq
  | cons call calls ih =>
    obtain ⟨more, hmore, hprevious, hmark⟩ := ih (call.run p)
    rw [skipsAtMark_cons]
    by_cases hskip : call = .synchronize ∧ p.AtMark
    · -- nothing can be taken any more, so the mark stays current and the token taken last
      obtain ⟨rfl, hp⟩ := hskip
      obtain ⟨hmoves, hlast⟩ := hp.synchronize
      have hall := hmoves.trans hmore
      obtain rfl := hmore.eq_nil_of_atEnd (hp.of_moves hmoves).atEnd
      refine ⟨[], hall, fun hnone => absurd (.inl ⟨rfl, hp⟩) hnone, fun _ => ⟨hp.of_moves hall, ?_⟩⟩
      by_cases hagain : p.synchronize.SkipsAtMark calls
      · exact (hmark hagain).2
      · calc
          (p.synchronize.run calls).previous = p.synchronize.previous := hprevious hagain
          _ = p.peek := hlast
          _ = (p.synchronize.run calls).peek := (hall.peek_eq_of_atEnd hp.atEnd).symm
    · obtain ⟨taken, h⟩ := Call.exists_follows hskip
      refine ⟨taken ++ more, h.toMoves.trans hmore, ?_, ?_⟩
      · intro hnone
        rw [not_or] at hnone
        calc
          ((call.run p).run calls).previous = more.getLast?.or (call.run p).previous :=
            hprevious hnone.2
          _ = (taken ++ more).getLast?.or p.previous := by
            rw [h.previous_eq, List.getLast?_append, Option.or_assoc]
      · exact fun hsome => hmark (hsome.resolve_left hskip)

/-! ## Where a cursor stands -/

/-- A cursor with fewer tokens ahead does not stand in front of one with more. -/
theorem StandsBefore.le (hp : StandsBefore tokens p pos) (hq : StandsBefore tokens q pos')
    (h : q.rest <:+ p.rest) : pos ≤ pos' := by
  by_contra hlt
  rw [Nat.not_le] at hlt
  have hlength : pos' < tokens.length := Nat.lt_of_lt_of_le hlt hp.le_length
  have hdrop := List.drop_eq_getElem_cons hlength
  -- the current token of `q` is no comment, so `q` would have more tokens ahead than `p`
  have hcurrent : tokens[pos'] ∈ q.rest := by
    apply mem_rest_of_peek
    rw [hq.peek_eq, List.getElem?_eq_getElem hlength]
  have hrest := hq.rest_eq
  rw [hrest] at hcurrent
  have hkept : (!tokens[pos'].isComment) = true := (List.mem_filter.mp hcurrent).2
  rw [hdrop, List.filter_cons, if_pos hkept] at hrest
  have hbehind := ((List.drop_sublist_drop_left tokens hlt).filter fun t => !t.isComment).length_le
  rw [← hp.rest_eq] at hbehind
  have hahead := h.length_le
  rw [hrest, List.length_cons] at hahead
  exact absurd (Nat.le_trans hahead hbehind) (Nat.not_succ_le_self _)

/-- A cursor stands before one token only. -/
theorem StandsBefore.unique (h : StandsBefore tokens p pos) (h' : StandsBefore tokens p pos') :
    pos = pos' :=
  Nat.le_antisymm (h.le h' (List.suffix_refl _)) (h'.le h (List.suffix_refl _))

theorem StandsBefore.kind_ne_comment (h : StandsBefore tokens p pos) :
    ∀ t ∈ p.peek, t.kind ≠ .comment := by
  intro t ht hkind
  have hmem := mem_rest_of_peek ht
  rw [h.rest_eq, List.mem_filter] at hmem
  simp [Token.isComment, hkind] at hmem

/-- Comments that are stepped over are not among the tokens in front of the index. -/
theorem filter_take_skipComments (tokens : List Token) (pos : Nat) :
    ((tokens.take (skipComments tokens pos)).filter fun t => !t.isComment) =
      (tokens.take pos).filter fun t => !t.isComment := by
  fun_induction skipComments tokens pos with
  | case1 pos t ht hcomment ih =>
    rw [ih, List.take_add_one, ht, Option.toList_some, List.filter_append,
      List.filter_cons_of_neg (by simp [hcomment]), List.filter_nil, List.append_nil]
  | case2 => rfl
  | case3 => rfl

/-- A cursor that has what is ahead of an index stands behind the comments there. -/
theorem standsBefore_skipComments (hle : pos ≤ tokens.length)
    (hrest : p.rest = (tokens.drop pos).filter fun t => !t.isComment) :
    StandsBefore tokens p (skipComments tokens pos) := by
  fun_induction skipComments tokens pos with
  | case1 pos t ht hcomment ih =>
    obtain ⟨hlt, rfl⟩ := List.getElem?_eq_some_iff.mp ht
    refine ih hlt ?_
    rw [hrest, List.drop_eq_getElem_cons hlt, List.filter_cons_of_neg (by simp [hcomment])]
  | case2 pos t ht hcomment =>
    refine ⟨hle, ?_, hrest⟩
    obtain ⟨hlt, rfl⟩ := List.getElem?_eq_some_iff.mp ht
    rw [peek, hrest, List.drop_eq_getElem_cons hlt, List.filter_cons_of_pos (by simp [hcomment]),
      List.head?_cons, ht]
  | case3 pos hnone =>
    refine ⟨hle, ?_, hrest⟩
    rw [peek, hrest, List.drop_eq_nil_of_le (List.getElem?_eq_none_iff.mp hnone), hnone]
    rfl

/-- A parser starts behind the comments at the front. -/
theorem standsBefore_ofTokens (tokens : List Token) :
    StandsBefore tokens (ofTokens tokens) (skipComments tokens 0) :=
  standsBefore_skipComments (Nat.zero_le _) rfl

/-- **Taking a token steps over the comments behind it.** -/
theorem StandsBefore.advance (h : StandsBefore tokens p pos) (ht : p.peek = some t)
    (heof : t.kind ≠ .eof) : StandsBefore tokens p.advance (skipComments tokens (pos + 1)) := by
  have hcurrent : tokens[pos]? = some t := h.peek_eq ▸ ht
  obtain ⟨hlt, rfl⟩ := List.getElem?_eq_some_iff.mp hcurrent
  refine standsBefore_skipComments hlt ?_
  have hrest := h.rest_eq
  have hkept : tokens[pos].isComment = false := by
    simpa [Token.isComment] using h.kind_ne_comment _ ht
  rw [rest_eq_cons_advance ht heof, List.drop_eq_getElem_cons hlt,
    List.filter_cons_of_pos (by simp [hkept])] at hrest
  exact (List.cons.inj hrest).2

/-- Where some tokens have been taken off the front, the cursor stands behind them. -/
theorem exists_standsBefore (h : (tokens.filter fun t => !t.isComment) = taken ++ p.rest) :
    ∃ pos, StandsBefore tokens p pos ∧
      ((tokens.take pos).filter fun t => !t.isComment) = taken := by
  obtain ⟨front, back, rfl, rfl, hback⟩ := List.filter_eq_append_iff.mp h
  refine ⟨skipComments (front ++ back) front.length, standsBefore_skipComments ?_ ?_, ?_⟩
  · exact (List.prefix_append _ _).length_le
  · rw [List.drop_left, hback]
  · rw [filter_take_skipComments, List.take_left]

/-- If no mark of the end is among the tokens taken, then none stands in front of the cursor. -/
theorem le_of_kind_eq_eof (hpos : ((tokens.take pos).filter fun t => !t.isComment) = taken)
    (htaken : ∀ t ∈ taken, t.kind ≠ .eof) {i : Nat} (ht : tokens[i]? = some t)
    (heof : t.kind = .eof) : pos ≤ i := by
  by_contra hlt
  rw [Nat.not_le] at hlt
  refine htaken t ?_ heof
  rw [← hpos, List.mem_filter]
  refine ⟨List.mem_iff_getElem?.mpr ⟨i, ?_⟩, by simp [Token.isComment, heof]⟩
  rw [List.getElem?_take, if_pos hlt, ht]

/-- The mark of the end that is current is the first one. -/
theorem StandsBefore.peek_eq_find? (h : StandsBefore tokens p pos) (hmark : p.AtMark)
    (hle : ∀ i t, tokens[i]? = some t → t.kind = .eof → pos ≤ i) :
    p.peek = tokens.find? Token.isEof := by
  obtain ⟨t, ht, heof⟩ := hmark
  have hpeek : tokens[pos]? = some t := h.peek_eq ▸ ht
  obtain ⟨hlt, hget⟩ := List.getElem?_eq_some_iff.mp hpeek
  rw [h.peek_eq, hpeek, eq_comm, List.find?_eq_some_iff_getElem]
  refine ⟨beq_iff_eq.mpr heof, pos, hlt, hget, ?_⟩
  intro j hj
  have hjlt := Nat.lt_trans hj hlt
  rw [Bool.not_eq_true', Token.isEof_eq_false_iff]
  exact fun he => absurd (hle j _ (List.getElem?_eq_getElem hjlt) he) (Nat.not_le.mpr hj)

/-- **A run goes forwards**, in whatever order its calls come. Its cursor has one place, before a
token that is no comment, never in front of a place where it stood and never behind a mark of the
end; once at the end, it stays there. Diagnostics are only added. The token taken last is the
nearest one in front of the cursor that is no comment, if there is one; but if a statement was ever
skipped at the mark of the end, it is the first mark. -/
theorem run_goes_forwards (tokens : List Token) (calls more : List Call) :
    let p := (ofTokens tokens).run calls
    let q := p.run more
    (∃! pos, StandsBefore tokens q pos) ∧ (∀ t ∈ q.peek, t.kind ≠ .comment) ∧
      (p.atEnd = true → q.atEnd = true ∧ q.peek = p.peek) ∧
      p.diagnostics <+: q.diagnostics ∧
      ∀ pos pos', StandsBefore tokens p pos → StandsBefore tokens q pos' →
        pos ≤ pos' ∧ (∀ i t, tokens[i]? = some t → t.kind = .eof → pos' ≤ i) ∧
        (¬(ofTokens tokens).SkipsAtMark (calls ++ more) →
          q.previous = ((tokens.take pos').filter fun t => !t.isComment).getLast?) ∧
        ((ofTokens tokens).SkipsAtMark (calls ++ more) →
          q.previous = tokens.find? Token.isEof) := by
  intro p q
  obtain ⟨later, hlater, -, -⟩ := exists_moves_run p more
  obtain ⟨taken, hmoves, hprevious, hmark⟩ := exists_moves_run (ofTokens tokens) (calls ++ more)
  have hq : (ofTokens tokens).run (calls ++ more) = q := List.foldl_append
  rw [hq] at hmoves hprevious hmark
  obtain ⟨place, hplace, hbehind⟩ := exists_standsBefore hmoves.rest_eq
  have hle : ∀ i t, tokens[i]? = some t → t.kind = .eof → place ≤ i := fun i t =>
    le_of_kind_eq_eof hbehind hmoves.kind_ne_eof
  refine ⟨⟨place, hplace, fun _ h => h.unique hplace⟩, hplace.kind_ne_comment, ?_,
    hlater.prefix_diagnostics, ?_⟩
  · intro hend
    have hpeek := hlater.peek_eq_of_atEnd hend
    refine ⟨?_, hpeek⟩
    rw [atEnd, hpeek]
    exact hend
  · intro pos pos' hp hq'
    obtain rfl := hq'.unique hplace
    refine ⟨hp.le hplace ⟨later, hlater.rest_eq.symm⟩, hle, ?_, ?_⟩
    · intro hnone
      rw [hprevious hnone, hbehind]
      exact Option.or_none
    · intro hsome
      obtain ⟨hatMark, hlast⟩ := hmark hsome
      rw [hlast, hplace.peek_eq_find? hatMark hle]

/-- A mark of the end in the middle is not passed, although skipping there takes it. -/
theorem run_goes_forwards_of_markInside :
    let one : Token := ⟨.number, "1", 5⟩
    let mark : Token := ⟨.eof, "", 6⟩
    let tokens := [⟨.comment, "// a", 0⟩, one, mark, ⟨.semicolon, ";", 6⟩, ⟨.eof, "", 7⟩]
    let p := (ofTokens tokens).run [.expression]
    let q := p.run [.synchronize, .expression]
    p.previous = some one ∧ (ofTokens tokens).SkipsAtMark [.expression, .synchronize, .expression] ∧
      StandsBefore tokens p 2 ∧ StandsBefore tokens q 2 ∧ q.previous = some mark := by
  intro one mark tokens p q
  have hp : StandsBefore tokens p 2 := ⟨by decide, by decide +kernel, by decide +kernel⟩
  have hq : StandsBefore tokens q 2 := ⟨by decide, by decide +kernel, by decide +kernel⟩
  have hmark : p.AtMark := ⟨mark, by decide +kernel, rfl⟩
  have hskips : (ofTokens tokens).SkipsAtMark [.expression, .synchronize, .expression] :=
    ⟨[.expression], [.expression], rfl, hmark⟩
  obtain ⟨-, -, -, -, hplaces⟩ :=
    run_goes_forwards tokens [.expression] [.synchronize, .expression]
  obtain ⟨-, -, -, hprevious⟩ := hplaces 2 2 hp hq
  exact ⟨by decide +kernel, hskips, hp, hq, hprevious hskips⟩

end Cursor

end ExprReader
