import Mathlib.Data.List.Basic
import ExprReader.Proofs.Expr.Runs
import ExprReader.Proofs.Session.Verdict
import ExprReader.Proofs.Token.Tiling

/-!
# Faults at the end of a text

A parser can be followed step by step: it takes tokens, and on the way it reports faults, each at
the cursor that it has come to. What it finds missing when only the mark of the end is left, it
reports behind the spelling of the last token. That is the end of this token, unless the token is a
string: then its closing quote is still to come.

## Main definitions

* `Cursor.Logs start log p`: a parser goes from one cursor to another and makes the reports of a log
* `Diagnostic.Missing d`: something is reported to be missing

## Main results

* `Cursor.Reads.exists_logs`: every reading leaves a log
* `Cursor.Logs.follows_of_mem`: to each report of a log the tokens before it have been taken
* `Cursor.Follows.here_of_atMark`: at the mark of the end all of the tokens have been taken
* `Reading.span_of_missing_atMark`: where faults at the end of a text are reported
-/

namespace ExprReader

/-- The diagnostic reports that an operand or a closing parenthesis is missing. -/
def Diagnostic.Missing (d : Diagnostic) : Prop :=
  d.fault? = some .missingOperand ∨ d.fault? = some .missingParen

namespace Cursor

/-- **What a parser does step by step**, with a log of its reports. Each report is entered with the
cursor at which it is made: what is missing, at the current token; a number token that is no number,
when it has been taken. -/
inductive Logs (start : Cursor) : List (Cursor × Diagnostic) → Cursor → Prop
  | start : Logs start [] start
  | take {log : List (Cursor × Diagnostic)} {p : Cursor} {t : Token} (h : Logs start log p)
      (ht : p.peek = some t) (heof : t.kind ≠ .eof) : Logs start log p.advance
  | lack {log : List (Cursor × Diagnostic)} {p : Cursor} {fault : Fault} (h : Logs start log p)
      (hfault : fault = .missingOperand ∨ fault = .missingParen) :
      Logs start (log ++ [(p, .error fault p.here)]) (p.fail fault)
  | malformed {log : List (Cursor × Diagnostic)} {p : Cursor} {t : Token} (h : Logs start log p)
      (ht : p.peek = some t) (hkind : t.kind = .number) :
      Logs start (log ++ [(p.advance, .error (.malformedNumber t.lexeme) t.span)])
        (p.advance.report (.malformedNumber t.lexeme) t.span)

variable {start p q : Cursor} {log : List (Cursor × Diagnostic)} {d : Diagnostic} {last : Token}
  {taken : List Token}

/-! ## Logs -/

/-- **Every reading leaves a log.** -/
theorem Reads.exists_logs {task : Task} {e : Expr} (h : Reads task p e q) :
    ∃ log, p.Logs log q := by
  refine h.invariant_faults (P := fun r => ∃ log, p.Logs log r) ?_ ?_ ?_ ⟨[], .start⟩
  · rintro r t ht heof ⟨log, hlog⟩
    exact ⟨log, hlog.take ht heof⟩
  · rintro r fault hfault ⟨log, hlog⟩
    exact ⟨_, hlog.lack hfault⟩
  · rintro r t ht hkind - ⟨log, hlog⟩
    exact ⟨_, hlog.malformed ht hkind⟩

/-- The reports of a log are what is added to the diagnostics. -/
theorem Logs.diagnostics_eq (h : Logs start log p) :
    p.diagnostics = start.diagnostics ++ log.map Prod.snd := by
  induction h with
  | start => exact (List.append_nil _).symm
  | take _ _ _ ih => rw [diagnostics_advance, ih]
  | lack _ _ ih =>
    rw [diagnostics_fail, ih, List.map_append, List.append_assoc]
    rfl
  | malformed _ _ _ ih =>
    rw [diagnostics_report, diagnostics_advance, ih, List.map_append, List.append_assoc]
    rfl

theorem Logs.exists_follows (h : Logs start log p) : ∃ taken, Follows start p taken := by
  induction h with
  | start => exact ⟨[], Follows.refl start⟩
  | take _ ht heof ih =>
    obtain ⟨taken, h⟩ := ih
    exact ⟨_, h.trans (follows_advance ht heof)⟩
  | lack _ _ ih =>
    obtain ⟨taken, h⟩ := ih
    exact ⟨taken, h.report _ _⟩
  | malformed _ ht hkind ih =>
    obtain ⟨taken, h⟩ := ih
    exact ⟨_, (h.trans (follows_advance ht (by simp [hkind]))).report _ _⟩

/-- **At each report the tokens before it have been taken**, and what is missing is reported where
the cursor says. -/
theorem Logs.follows_of_mem (h : Logs start log p) (hmem : (q, d) ∈ log) :
    (∃ taken, Follows start q taken) ∧ (d.Missing → d.span = q.here) := by
  induction h with
  | start => cases hmem
  | take _ _ _ ih => exact ih hmem
  | lack hlog hfault ih =>
    rcases List.mem_append.mp hmem with hmem | hmem
    · exact ih hmem
    · obtain ⟨rfl, rfl⟩ := Prod.mk.inj (List.mem_singleton.mp hmem)
      exact ⟨hlog.exists_follows, fun _ => rfl⟩
  | malformed hlog ht hkind ih =>
    rcases List.mem_append.mp hmem with hmem | hmem
    · exact ih hmem
    · obtain ⟨rfl, rfl⟩ := Prod.mk.inj (List.mem_singleton.mp hmem)
      obtain ⟨taken, h⟩ := hlog.exists_follows
      refine ⟨⟨_, h.trans (follows_advance ht (by simp [hkind]))⟩, fun hmissing => ?_⟩
      rcases hmissing with hmissing | hmissing <;> cases hmissing

/-! ## The mark of the end -/

/-- Where the mark of the end is current, the tokens before the first mark have been taken. -/
theorem Moves.takeWhile_eq_of_atMark (h : Moves start q taken) (hq : q.AtMark) :
    (start.rest.takeWhile fun t => !t.isEof) = taken := by
  obtain ⟨t, ht, heof⟩ := hq
  obtain ⟨rest, hrest⟩ := List.head?_eq_some_iff.mp ht
  have htaken : ∀ u ∈ taken, (!u.isEof) = true := fun u hu => by
    rw [Token.isEof_eq_false_iff.mpr (h.kind_ne_eof u hu), Bool.not_false]
  have hmark : ¬(!t.isEof) = true := by simp [Token.isEof, heof]
  rw [h.rest_eq, hrest, List.takeWhile_append_of_pos htaken,
    List.takeWhile_cons_of_neg (p := fun u : Token => !u.isEof) hmark, List.append_nil]

/-- **At the mark of the end a fault is reported behind the spelling of the last token.** -/
theorem Follows.here_of_atMark (h : Follows start q taken)
    (hlast : (start.rest.takeWhile fun t => !t.isEof).getLast? = some last) (hq : q.AtMark) :
    q.here = .point last.span.stop := by
  have hprevious : q.previous = some last := by
    rw [h.previous_eq, ← h.takeWhile_eq_of_atMark hq, hlast, Option.some_or]
  obtain ⟨t, ht, heof⟩ := hq
  have hpeek : q.peek = some t := ht
  simp [here, hpeek, hprevious, Token.isEof, heof]

end Cursor

/-- Behind the spelling of a string stands its closing quote, and there the token ends. -/
theorem Scan.Tiles.closingQuote {s : Scan} {text : List Char} {t : Token} (h : s.Tiles text)
    (ht : t ∈ s.tokens) (hkind : t.kind = .string) :
    Text.StandsAt t.span.stop ['"'] text ∧ t.region.stop = t.span.stop + 1 := by
  obtain ⟨hoffset, hstands⟩ := h.quoted t ht hkind
  have hquote : ('"' : Char).utf8Size = 1 := rfl
  have hstop : t.span.stop = t.region.start + Text.byteLength ('"' :: t.lexeme.toList) := by
    rw [Token.stop_span, Text.byteLength_cons, hquote, ← Nat.add_assoc, ← hoffset]
    rfl
  refine ⟨hstop ▸ hstands.back, ?_⟩
  rw [Token.region, if_pos hkind]

namespace Reading

variable {text : String} {last : Token}

/-- **What is missing at the end of a text is reported behind the spelling of the last token** that
is there to read, however deep in the expression it is missing. This is where the token ends in the
text, unless it is a string: then it is in front of the closing quote. -/
theorem span_of_missing_atMark
    (hlast : (Parse.tokensAhead (ofText text).tokens).getLast? = some last) :
    let start := Cursor.ofTokens (ofText text).tokens
    let stop := start.expression.after
    (ofText text).diagnostics = (Scan.ofText text).diagnostics ++ stop.diagnostics ∧
    (∃ log, start.Logs log stop) ∧
    ∀ log, start.Logs log stop → stop.diagnostics = log.map Prod.snd ∧
      ∀ q d, (q, d) ∈ log → q.AtMark → d.Missing →
        d.span = .point last.span.stop ∧
        (last.kind ≠ .string → d.span = .point last.region.stop) ∧
        (last.kind = .string → Text.StandsAt d.span.stop ['"'] text.toList ∧
          last.region.stop = d.span.stop + 1) := by
  intro start stop
  have hahead := List.mem_of_getLast? hlast
  have heof : last.isEof = false := by simpa using List.mem_takeWhile_imp hahead
  obtain ⟨hmem, hcomment⟩ := List.mem_filter.mp ((List.takeWhile_sublist _).subset hahead)
  rw [Bool.not_eq_true'] at hcomment
  refine ⟨(ofText_of_mem_tokens hmem hcomment heof).2,
    (Cursor.reads_expression start).exists_logs, fun log hlog => ⟨hlog.diagnostics_eq, ?_⟩⟩
  intro q d hentry hmark hmissing
  obtain ⟨⟨taken, hfollows⟩, hspan⟩ := hlog.follows_of_mem hentry
  have hplace : d.span = .point last.span.stop :=
    (hspan hmissing).trans (hfollows.here_of_atMark hlast hmark)
  refine ⟨hplace, fun hkind => ?_, fun hkind => ?_⟩
  · rw [hplace, Token.region, if_neg hkind]
  · rw [tokens_ofText] at hmem
    rw [hplace]
    exact (Scan.tiles_ofText text).closingQuote hmem hkind

/-- In `(1 + // "` an operand is missing and a parenthesis; the comment is not to be read. -/
theorem span_of_missing_atMark_of_comment :
    let last : Token := ⟨.plus, "+", 3⟩
    let reading := ofText "(1 + // \""
    let start := Cursor.ofTokens reading.tokens
    let stop := start.expression.after
    (Parse.tokensAhead reading.tokens).getLast? = some last ∧
    stop.diagnostics = [.error .missingOperand ⟨4, 4⟩, .error .missingParen ⟨4, 4⟩] ∧
    reading.diagnostics = (Scan.ofText "(1 + // \"").diagnostics ++ stop.diagnostics ∧
    (∃ log, start.Logs log stop) ∧
    ∀ log, start.Logs log stop → stop.diagnostics = log.map Prod.snd ∧
      ∀ q d, (q, d) ∈ log → q.AtMark → d.Missing →
        d.span = .point last.span.stop ∧
        (last.kind ≠ .string → d.span = .point last.region.stop) ∧
        (last.kind = .string → Text.StandsAt d.span.stop ['"'] "(1 + // \"".toList ∧
          last.region.stop = d.span.stop + 1) := by
  intro last reading start stop
  have hlast : (Parse.tokensAhead reading.tokens).getLast? = some last := by decide +kernel
  exact ⟨hlast, by decide +kernel, span_of_missing_atMark hlast⟩

/-- Behind `("a"` a parenthesis is missing, and that is reported in front of the closing quote. -/
theorem span_of_missing_before_quote :
    let last : Token := ⟨.string, "a", 2⟩
    let reading := ofText "(\"a\""
    let start := Cursor.ofTokens reading.tokens
    let q := start.advance.advance
    let d := Diagnostic.error .missingParen ⟨3, 3⟩
    (Parse.tokensAhead reading.tokens).getLast? = some last ∧
      start.Logs [(q, d)] start.expression.after ∧ q.AtMark ∧ d.Missing ∧
      d ∈ reading.diagnostics ∧ d.span ≠ .point last.region.stop := by
  intro last reading start q d
  have hq : start.Logs [] q := by
    have hparen : start.peek = some ⟨.leftParen, "(", 0⟩ := by decide +kernel
    have hstring : start.advance.peek = some last := by decide +kernel
    exact (Cursor.Logs.start.take hparen nofun).take hstring nofun
  have hlog : start.Logs [(q, d)] start.expression.after := by
    have hstop : start.expression.after = q.fail .missingParen := by decide +kernel
    have hhere : q.here = ⟨3, 3⟩ := by decide +kernel
    have hlack := hq.lack (.inr rfl : Fault.missingParen = .missingOperand ∨ _)
    rwa [List.nil_append, hhere, ← hstop] at hlack
  have hmark : q.AtMark := ⟨⟨.eof, "", 4⟩, by decide +kernel, rfl⟩
  exact ⟨by decide +kernel, hlog, hmark, .inr rfl, by decide +kernel, by decide⟩

end Reading

end ExprReader
