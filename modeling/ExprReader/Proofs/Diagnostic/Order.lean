import ExprReader.Proofs.Session.Answer
import ExprReader.Proofs.Token.Tiling

/-!
# Diagnostics in the order of the text

Scanning goes through a text from its beginning to its end, and so do the faults that it reports. A
parser goes through the tokens in the same way: wherever it reports a fault, whether at the current
token or, at the end of the text, behind the token taken last, this is not in front of anything that
it has reported before.

## Main definitions

* `Token.InOrder tokens`: each token begins behind the end of those before it
* `Cursor.InOrder p`: the tokens of a cursor are in order, and so are its reports

## Main results

* `Reads.inOrder`: every reading keeps the order
* `Scan.inOrder_tokens`: the tokens of a text are in order
* `Reading.diagnostics_in_order`: so are the diagnostics of a text
-/

namespace ExprReader

/-- Each token begins where those before it have ended. -/
def Token.InOrder (tokens : List Token) : Prop := tokens.Pairwise fun t u => t.span.Before u.span

/-- Each diagnostic begins no earlier than those before it. -/
def Diagnostic.InOrder (ds : List Diagnostic) : Prop :=
  ds.Pairwise fun d d' => d.span.start ≤ d'.span.start

theorem Token.start_le_stop (t : Token) : t.span.start ≤ t.span.stop := Nat.le_add_right _ _

namespace Cursor

/-- The token taken last and the tokens ahead are in order, and so are the reports, none of which
lies behind the place where a fault would be reported now. -/
structure InOrder (p : Cursor) : Prop where
  tokens : Token.InOrder (p.previous.toList ++ p.rest)
  brink : ∀ t ∈ p.previous.toList ++ p.rest, t.span.start ≤ p.brink.start
  reports : Diagnostic.InOrder p.diagnostics
  start_le_here : ∀ d ∈ p.diagnostics, d.span.start ≤ p.here.start

section InOrder

variable {p q : Cursor} {t : Token} {tokens : List Token}

/-- Before the end a fault is reported at the current token. -/
theorem here_of_peek (ht : p.peek = some t) (heof : t.kind ≠ .eof) : p.here = t.span := by
  have hend : t.isEof = false := Token.isEof_eq_false_iff.mpr heof
  rw [here, ht]
  cases p.previous with
  | none => rfl
  | some last => simp [hend]

/-- Behind a token that has been taken, a fault is not reported in front of it. -/
theorem InOrder.start_le_here_advance (h : p.InOrder) (ht : p.peek = some t)
    (heof : t.kind ≠ .eof) : t.span.start ≤ p.advance.here.start := by
  have hrest := rest_eq_cons_advance ht heof
  have hmem : t ∈ p.previous.toList ++ p.rest :=
    List.mem_append_right _ (mem_rest_of_peek ht)
  cases hu : p.advance.peek with
  | none =>
    rw [here, hu, brink_advance]
    exact h.brink t hmem
  | some u =>
    by_cases hend : u.kind = .eof
    · -- at the end of the text it is reported behind the token
      have hhere : p.advance.here = .point t.span.stop := by
        simp [here, hu, previous_advance ht, Token.isEof, hend]
      rw [hhere]
      exact t.start_le_stop
    · rw [here_of_peek hu hend]
      have horder := (List.pairwise_append.mp h.tokens).2.1
      rw [hrest, List.pairwise_cons] at horder
      exact Nat.le_trans t.start_le_stop (horder.1 u (mem_rest_of_peek hu))

theorem InOrder.advance (h : p.InOrder) (ht : p.peek = some t) (heof : t.kind ≠ .eof) :
    p.advance.InOrder := by
  have hrest := rest_eq_cons_advance ht heof
  have hsame : p.advance.previous.toList ++ p.advance.rest = p.rest := by
    rw [previous_advance ht, hrest]
    rfl
  constructor
  case tokens =>
    rw [hsame]
    exact (List.pairwise_append.mp h.tokens).2.1
  case brink =>
    rw [hsame, brink_advance]
    exact fun u hu => h.brink u (List.mem_append_right _ hu)
  case reports =>
    rw [diagnostics_advance]
    exact h.reports
  case start_le_here =>
    intro d hd
    rw [diagnostics_advance] at hd
    have hbefore := h.start_le_here d hd
    rw [here_of_peek ht heof] at hbefore
    exact Nat.le_trans hbefore (h.start_le_here_advance ht heof)

/-- A fault can be reported wherever nothing has been reported behind the place, and the cursor is
not in front of it. -/
theorem InOrder.report (h : p.InOrder) (fault : Fault) {span : Span}
    (hspan : ∀ d ∈ p.diagnostics, d.span.start ≤ span.start)
    (hhere : span.start ≤ p.here.start) : (p.report fault span).InOrder where
  tokens := h.tokens
  brink := h.brink
  reports := by
    rw [diagnostics_report]
    apply List.pairwise_append.mpr
    refine ⟨h.reports, List.pairwise_singleton _ _, fun d hd d' hd' => ?_⟩
    obtain rfl := List.mem_singleton.mp hd'
    exact hspan d hd
  start_le_here d hd := by
    rw [diagnostics_report] at hd
    rcases List.mem_append.mp hd with hd | hd
    · exact h.start_le_here d hd
    · obtain rfl := List.mem_singleton.mp hd
      exact hhere

/-- **Every reading keeps the order.** -/
theorem Reads.inOrder {task : Task} {e : Expr} (h : Reads task p e q) (hp : p.InOrder) :
    q.InOrder := by
  refine h.invariant (P := Cursor.InOrder) ?_ ?_ ?_ hp
  · intro p t ht heof hp
    exact hp.advance ht heof
  · intro p fault hp
    exact hp.report fault hp.start_le_here (Nat.le_refl _)
  · intro p fault t ht heof hp
    -- the number that is reported has been taken, and nothing lies between
    refine (hp.advance ht heof).report fault ?_ (hp.start_le_here_advance ht heof)
    rw [diagnostics_advance, ← here_of_peek ht heof]
    exact hp.start_le_here

/-- The last of some tokens in order begins behind all of them. -/
theorem start_le_of_getLast? (h : Token.InOrder tokens) {last : Token}
    (hlast : tokens.getLast? = some last) : ∀ t ∈ tokens, t.span.start ≤ last.span.start := by
  obtain ⟨front, rfl⟩ := List.getLast?_eq_some_iff.mp hlast
  intro t ht
  rcases List.mem_append.mp ht with ht | ht
  · have hbefore := (List.pairwise_append.mp h).2.2 t ht last List.mem_cons_self
    exact Nat.le_trans t.start_le_stop hbefore
  · obtain rfl := List.mem_singleton.mp ht
    exact Nat.le_refl _

theorem inOrder_ofTokens (h : Token.InOrder tokens) : (ofTokens tokens).InOrder where
  tokens := h.sublist List.filter_sublist
  brink t ht := by
    have hmem : t ∈ tokens := (List.mem_filter.mp ht).1
    obtain ⟨last, hlast⟩ : ∃ last, tokens.getLast? = some last :=
      ⟨_, List.getLast?_eq_some_getLast (List.ne_nil_of_mem hmem)⟩
    rw [ofTokens, hlast]
    exact start_le_of_getLast? h hlast t hmem
  reports := .nil
  start_le_here := nofun

end InOrder

end Cursor

/-- What is reported of tokens in order is in order. -/
theorem Parse.inOrder_diagnostics {tokens : List Token} (h : Token.InOrder tokens) :
    Diagnostic.InOrder (ofTokens tokens).diagnostics := by
  unfold ofTokens
  split
  · exact ((Cursor.reads_expression _).inOrder (Cursor.inOrder_ofTokens h)).reports
  · exact .nil

/-! ## The tokens of a text -/

/-- The spelling of a token lies within the bytes that it takes. -/
theorem Token.region_covers_span (t : Token) :
    t.region.start ≤ t.span.start ∧ t.span.stop ≤ t.region.stop := by
  unfold region
  split
  · exact ⟨Nat.sub_le _ _, Nat.le_succ _⟩
  · exact ⟨Nat.le_refl _, Nat.le_refl _⟩

/-- **The tokens of a text are in order.** -/
theorem Scan.inOrder_tokens (text : String) : Token.InOrder (ofText text).tokens := by
  have htiles := tiles_ofText text
  obtain ⟨front, htokens, hfront⟩ := htiles.ends
  have hregions : regions (ofText text).tokens = front.map Token.region := by
    have hkept : front.filter (fun t => !t.isEof) = front := by
      apply List.filter_eq_self.mpr
      intro t ht
      simp [Token.isEof, hfront t ht]
    rw [htokens, regions, List.filter_append, hkept]
    simp [Token.isEof]
  have htiling := htiles.tiling
  rw [hregions] at htiling
  rw [htokens]
  apply List.pairwise_append.mpr
  refine ⟨?_, List.pairwise_singleton _ _, fun t ht mark hmark => ?_⟩
  · refine (List.pairwise_map.mp htiling.ordered_left).imp fun {t u} h => ?_
    exact Nat.le_trans t.region_covers_span.2 (Nat.le_trans h u.region_covers_span.1)
  · obtain rfl := List.mem_singleton.mp hmark
    have hwithin := htiling.within t.region (List.mem_append_left _ (List.mem_map_of_mem ht))
    exact Nat.le_trans t.region_covers_span.2 hwithin.2.2

/-! ## The diagnostics of a text -/

/-- **Diagnostics come in the order of the text.** Those of the scan come first, and then those of
the parse, unless the scan has found faults and left nothing to read. The spans of the former are
not empty, and each ends in front of the next; those of the latter begin one behind the other or at
the same place. All of them lie within the text and on whole characters. -/
theorem Reading.diagnostics_in_order (text : String) :
    let scan : Scan := .ofText text
    let parse := Parse.ofTokens scan.tokens
    let diagnostics := (ofText text).diagnostics
    (diagnostics = scan.diagnostics ++ parse.diagnostics ∨
        diagnostics = scan.diagnostics ∧ scan.diagnostics ≠ [] ∧
          ∀ t ∈ scan.tokens, t.kind = .comment ∨ t.kind = .eof) ∧
      (∀ d ∈ scan.diagnostics, d.span.start < d.span.stop) ∧
      scan.diagnostics.Pairwise (fun d d' => d.span.stop ≤ d'.span.start) ∧
      parse.diagnostics.Pairwise (fun d d' => d.span.start ≤ d'.span.start) ∧
      ∀ d ∈ diagnostics, d.span.start ≤ d.span.stop ∧ d.span.stop ≤ text.utf8ByteSize ∧
        Text.IsBoundary d.span.start text.toList ∧ Text.IsBoundary d.span.stop text.toList := by
  intro scan parse diagnostics
  have htiling := (Scan.tiles_ofText text).tiling
  refine ⟨?_, ?_, List.pairwise_map.mp htiling.ordered_right,
    Parse.inOrder_diagnostics (Scan.inOrder_tokens text), ?_⟩
  · by_cases hskip : (Diagnostic.anyFault scan.diagnostics &&
        scan.tokens.all fun t => t.isComment || t.isEof) = true
    · right
      have hreading : ofText text = ⟨scan.tokens, .error .noEnd, scan.diagnostics⟩ := if_pos hskip
      obtain ⟨hfault, hnothing⟩ := Bool.and_eq_true_iff.mp hskip
      refine ⟨congrArg Reading.diagnostics hreading, ?_, fun t ht => ?_⟩
      · intro hnil
        rw [hnil] at hfault
        cases hfault
      · simpa [Token.isComment, Token.isEof] using List.all_eq_true.mp hnothing t ht
    · left
      exact congrArg Reading.diagnostics (if_neg hskip)
  · intro d hd
    have hspan := List.mem_append_right (Scan.regions scan.tokens)
      (List.mem_map_of_mem (f := Diagnostic.span) hd)
    exact (htiling.within d.span hspan).2.1
  · intro d hd
    obtain ⟨hle, hstart, hstop⟩ := fits_of_mem_diagnostics hd
    rw [Text.utf8ByteSize_eq]
    exact ⟨hle, hstop.le, hstart, hstop⟩

/-- Two stray characters, an operator without its left operand, and at the end an operand and two
parentheses that are missing behind the last token. -/
theorem Reading.diagnostics_in_order_of_faults :
    let text := "(é * \"a\" $ + ( "
    let scan := Scan.ofText text
    let parse := Parse.ofTokens scan.tokens
    let diagnostics := (ofText text).diagnostics
    diagnostics.map Diagnostic.span = [⟨1, 3⟩, ⟨10, 11⟩, ⟨4, 5⟩, ⟨15, 15⟩, ⟨15, 15⟩, ⟨15, 15⟩] ∧
      (diagnostics = scan.diagnostics ++ parse.diagnostics ∨
        diagnostics = scan.diagnostics ∧ scan.diagnostics ≠ [] ∧
          ∀ t ∈ scan.tokens, t.kind = .comment ∨ t.kind = .eof) ∧
      (∀ d ∈ scan.diagnostics, d.span.start < d.span.stop) ∧
      scan.diagnostics.Pairwise (fun d d' => d.span.stop ≤ d'.span.start) ∧
      parse.diagnostics.Pairwise (fun d d' => d.span.start ≤ d'.span.start) ∧
      ∀ d ∈ diagnostics, d.span.start ≤ d.span.stop ∧ d.span.stop ≤ text.utf8ByteSize ∧
        Text.IsBoundary d.span.start text.toList ∧ Text.IsBoundary d.span.stop text.toList := by
  intro text scan parse diagnostics
  exact ⟨by decide +kernel, diagnostics_in_order text⟩

end ExprReader
