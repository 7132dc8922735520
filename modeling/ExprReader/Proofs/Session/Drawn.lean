import ExprReader.Proofs.Diagnostic.Underline
import ExprReader.Proofs.Expr.Faultless
import ExprReader.Proofs.Session.Listing
import ExprReader.Proofs.Token.WrittenOut

/-!
# What is drawn of a text

No diagnostic of a text and no note on its tokens has a line feed in its message, and all of them
have spans that fit the text. So on a console without color, what is told about the text is six
lines for each of them, with the carets where they should be.

## Main definitions

* `Diagnostic.Drawable text d`: the span of a diagnostic fits the text, and its message is one line
* `Diagnostic.joined lines`: lines as they are written, each with its line feed

## Main results

* `Token.Belongs.isDigit_or_point`: numbers are made of digits and points
* `Reading.drawable_of_mem`: every diagnostic of a text and every note on its tokens is drawable
* `Session.answer_draws`: what is drawn of a diagnostic, and of all that is told about a text
-/

namespace ExprReader

/-! ## Messages of one line -/

namespace Token

/-- Numbers are made of digits and points. -/
theorem Belongs.isDigit_or_point {spelling : List Char} (h : Belongs .number spelling) :
    ∀ c ∈ spelling, c.isDigit = true ∨ c = '.' := by
  obtain ⟨_, _, hmantissa, -⟩ := h.exists_mantissa
  exact hmantissa.isDigit_or_point

end Token

/-- The spelling of a number token has no line feed. -/
theorem Scan.feed_notMem_number {text : String} {t : Token} (ht : t ∈ (ofText text).tokens)
    (hkind : t.kind = .number) : '\n' ∉ t.lexeme.toList := by
  intro hfeed
  rcases (belongs_number_of_mem ht hkind).isDigit_or_point '\n' hfeed with hdigit | hpoint
  · cases hdigit
  · cases hpoint

namespace Diagnostic

/-- The span of the diagnostic fits the text, and its message is one line. -/
structure Drawable (text : String) (d : Diagnostic) : Prop where
  fits : d.span.Fits text.toList
  feed_notMem : '\n' ∉ d.message.toList

/-- Lines as they are written, each with its line feed. -/
def joined (lines : List (List Char)) : List Char := lines.flatMap (· ++ ['\n'])

/-- A fault that is no malformed number has a message of one line. -/
theorem feed_notMem_message {d : Diagnostic} {cause : Fault} (hbody : d.body = .fault cause)
    (h : ∀ lexeme, cause = .malformedNumber lexeme → '\n' ∉ lexeme.toList) :
    '\n' ∉ d.message.toList := by
  rw [message, hbody]
  exact Fault.feed_notMem_message h

end Diagnostic

namespace Reading

variable {text : String} {d : Diagnostic}

/-- **The message of every diagnostic of a text is one line.** -/
theorem feed_notMem_of_mem_diagnostics (h : d ∈ (ofText text).diagnostics) :
    '\n' ∉ d.message.toList := by
  rcases mem_diagnostics_ofText h with hscan | hparse
  · rcases (Scan.tiles_ofText text).faults d hscan with hopen | ⟨c, hstray, -⟩
    · exact Diagnostic.feed_notMem_message hopen nofun
    · exact Diagnostic.feed_notMem_message hstray nofun
  · rcases Parse.names_of_mem_diagnostics d hparse with hoperand | hparen | ⟨t, ht, hkind, hbody⟩
    · exact Diagnostic.feed_notMem_message hoperand nofun
    · exact Diagnostic.feed_notMem_message hparen nofun
    · refine Diagnostic.feed_notMem_message hbody fun lexeme hlexeme => ?_
      obtain rfl := Fault.malformedNumber.inj hlexeme
      exact Scan.feed_notMem_number ht hkind

/-- **Every diagnostic of a text and every note on its tokens is drawable.** -/
theorem drawable_of_mem
    (h : d ∈ (ofText text).diagnostics ++ Session.notes (ofText text).tokens) :
    d.Drawable text := by
  rcases List.mem_append.mp h with h | h
  · exact ⟨fits_of_mem_diagnostics h, feed_notMem_of_mem_diagnostics h⟩
  · obtain ⟨t, ht, rfl⟩ := List.mem_map.mp h
    rw [tokens_ofText] at ht
    exact ⟨Scan.fits_span_of_mem_tokens ht, (Token.notMem_name t.kind).2⟩

end Reading

/-! ## What is drawn -/

namespace Diagnostic

variable {name text : String} {ds : List Diagnostic}

/-- Diagnostics in a row are drawn one below the other. -/
theorem exists_drawn_of_forall (hname : '\n' ∉ name.toList) (h : ∀ d ∈ ds, d.Drawable text) :
    ∃ blocks, List.Forall₂ (fun d lines => d.Drawn (Source.ofText name text) lines) ds blocks ∧
      ds.flatMap (shown (Source.ofText name text) false) = Text.encode (blocks.flatMap joined) := by
  induction ds with
  | nil => exact ⟨[], .nil, rfl⟩
  | cons d ds ih =>
    rw [List.forall_mem_cons] at h
    obtain ⟨hd, hrest⟩ := h
    obtain ⟨a, ha, hdrawn⟩ := exists_drawn hname hd.feed_notMem hd.fits
    obtain ⟨blocks, hblocks, hbytes⟩ := ih hrest
    refine ⟨a.lines :: blocks, .cons hdrawn hblocks, ?_⟩
    rw [List.flatMap_cons, List.flatMap_cons, hbytes, Text.encode_append, shown, ha]
    simp only [a.render_false, joined]

end Diagnostic

namespace Session

variable {name : String} {s : Source} {c : Console}

/-- **The carets stand under what is meant.** On a console without color and without limits, every
diagnostic with a message of one line and a span that fits is written as six lines, with the line
on which it begins and carets under those characters of it that the span holds. All diagnostics of a
text and all notes on its tokens are of this kind, so what is told about the text is six lines for
each of them, in order. -/
theorem answer_draws (h : s.Reachable name) (hname : '\n' ∉ name.toList) (hc : c.Unlimited)
    (hplain : c.colored = false) :
    let reading := Reading.ofText s.text
    (∀ d : Diagnostic, d.Drawable s.text → ∃ c' lines, d.write s c = .ok () c' ∧
      c'.trace = c.trace ++ Console.tag .err (Text.encode (Diagnostic.joined lines)) ∧
      d.Drawn s lines) ∧
    (∀ d ∈ reading.diagnostics ++ notes reading.tokens, d.Drawable s.text) ∧
    ∀ options, ∃ c' blocks, answer options s c = .ok reading.hasFault c' ∧
      List.Forall₂ (fun d lines => d.Drawn s lines)
        ((if options.listTokens then notes reading.tokens else []) ++ reading.diagnostics) blocks ∧
      c'.written .err = c.written .err ++ Text.encode (blocks.flatMap Diagnostic.joined) := by
  obtain ⟨text, rfl⟩ : ∃ text, s = Source.ofText name text := ⟨_, h.eq_ofText⟩
  rw [Source.text_ofText]
  intro reading
  have hdrawable : ∀ d ∈ reading.diagnostics ++ notes reading.tokens, d.Drawable text :=
    fun d => Reading.drawable_of_mem
  refine ⟨fun d hd => ?_, hdrawable, fun options => ?_⟩
  · obtain ⟨a, ha, hdrawn⟩ := Diagnostic.exists_drawn hname hd.feed_notMem hd.fits
    obtain ⟨c', hrun, hgrows⟩ := a.emits_write.writes c hc
    refine ⟨c', a.lines, ?_, ?_, hdrawn⟩
    · rw [Diagnostic.write_of_ok ha, hrun]
    · rw [hgrows.trace, hplain, Diagnostic.joined, ← a.render_false]
  · rw [List.forall_mem_append] at hdrawable
    obtain ⟨hdiagnostics, hnotes⟩ := hdrawable
    have htold : ∀ d ∈ (if options.listTokens then notes reading.tokens else []) ++
        reading.diagnostics, d.Drawable text := by
      rw [List.forall_mem_append]
      refine ⟨?_, hdiagnostics⟩
      split
      · exact hnotes
      · nofun
    obtain ⟨blocks, hblocks, hbytes⟩ := Diagnostic.exists_drawn_of_forall hname htold
    obtain ⟨c', hrun, htakes⟩ := (emits_answer options name text c).exists_takes hc
    refine ⟨c', blocks, hrun, hblocks, ?_⟩
    rw [htakes.written, forStream_err_output, ← hbytes, told, hplain, List.flatMap_append]
    cases options.listTokens <;> rfl

/-- A note that begins behind a character of two bytes and goes on over the end of its line. -/
theorem answer_draws_of_manyLines :
    let s := Source.ofText "repl" "é + \"a\r\nb\""
    let note := Diagnostic.info "here" ⟨3, 10⟩
    let c : Console := {}
    let reading := Reading.ofText s.text
    s.Reachable "repl" ∧ '\n' ∉ "repl".toList ∧ c.Unlimited ∧ c.colored = false ∧
    note.Drawable s.text ∧
    (c.after (note.write s)).written .err = Text.encode
      "info: here\n --> repl:1:4\n  |\n1 | é + \"a\n  |   ^^^^ here\n\n".toList ∧
    (∀ d : Diagnostic, d.Drawable s.text → ∃ c' lines, d.write s c = .ok () c' ∧
      c'.trace = c.trace ++ Console.tag .err (Text.encode (Diagnostic.joined lines)) ∧
      d.Drawn s lines) ∧
    (∀ d ∈ reading.diagnostics ++ notes reading.tokens, d.Drawable s.text) ∧
    ∀ options, ∃ c' blocks, answer options s c = .ok reading.hasFault c' ∧
      List.Forall₂ (fun d lines => d.Drawn s lines)
        ((if options.listTokens then notes reading.tokens else []) ++ reading.diagnostics) blocks ∧
      c'.written .err = c.written .err ++ Text.encode (blocks.flatMap Diagnostic.joined) := by
  intro s note c reading
  have hreachable : s.Reachable "repl" := .load _
  have hname : '\n' ∉ "repl".toList := by decide
  have hnote : note.Drawable s.text := by
    constructor
    case fits =>
      apply Span.fits_iff_isSome_slice?.mpr
      decide +kernel
    case feed_notMem => decide
  have hwritten : (c.after (note.write s)).written .err = Text.encode
      "info: here\n --> repl:1:4\n  |\n1 | é + \"a\n  |   ^^^^ here\n\n".toList := by
    decide +kernel
  exact ⟨hreachable, hname, ⟨rfl, rfl⟩, rfl, hnote, hwritten,
    answer_draws hreachable hname ⟨rfl, rfl⟩ rfl⟩

end Session

end ExprReader
