import ExprReader.Diagnostic.Display
import ExprReader.Proofs.Source.Lines

/-!
# What can be shown

A diagnostic whose span begins and ends between characters of a text can be shown in the source of
the text, wherever the span lies: over many lines, behind the last character, or on what is left out
of the shown line.

## Main definitions

* `Diagnostic.Shows source d`: the diagnostic has an annotation, on a line that does not begin
  behind it

## Main results

* `shows_of_fits`: a diagnostic with a span that fits can be shown
-/

namespace ExprReader

/-- A line can be cut at boundaries. -/
theorem Extract.exists_cut? {line : List Char} {start stop : Nat}
    (hstart : Text.IsBoundary start line) (hstop : Text.IsBoundary stop line)
    (hle : start ≤ stop) : ∃ e, cut? line start stop = some e := by
  obtain ⟨part, ⟨front, back, hline, hfront⟩, hlength⟩ := hstart.exists_standsAt hstop hle
  exact ⟨⟨front, part, back⟩, extract_cut?_eq_some_iff.mpr ⟨hline, hfront, hfront ▸ hlength⟩⟩

/-- Clipped to the shown line, a span that fits begins and ends between characters of it. -/
theorem Span.Fits.clip {s : Span} {cs shown : List Char} {lineStart : Nat} (h : s.Fits cs)
    (hshown : Text.StandsAt lineStart shown cs) (hle : lineStart ≤ s.start) :
    (s.clip lineStart (Text.byteLength shown)).Fits shown := by
  -- the stop is clipped like the start, and then moved up to it if it lies before
  have hstart := hshown.isBoundary_min h.start hle
  have hstop := hshown.isBoundary_min h.stop (Nat.le_trans hle h.le)
  rw [Nat.min_comm] at hstop
  exact ⟨Nat.le_max_left _ _, hstart, hstart.max hstop⟩

/-- Once the line of a diagnostic is found, all depends on whether it can be cut there. -/
theorem Annotation.ofDiagnostic_of_line {source : Source} {d : Diagnostic} {index : Nat}
    {line : Line} (hindex : source.lineIndex d.span.start = .ok index)
    (hline : source.line index = .ok line) :
    ofDiagnostic source d =
      let span := d.span.clip line.start (Text.byteLength line.shown)
      match Extract.cut? line.shown span.start span.stop with
      | some extract => .ok ⟨d.severity, source.name, index + 1, extract, d.message⟩
      | none => .error .outsideLine := by
  rw [ofDiagnostic, hindex]
  simp only [Except.mapError, bind, Except.bind, hline]
  rfl

/-- A line that can be cut where the span is clipped to it is the line of the annotation. -/
theorem Annotation.ofDiagnostic_of_cut {source : Source} {d : Diagnostic} {index : Nat}
    {line : Line} {e : Extract} (hindex : source.lineIndex d.span.start = .ok index)
    (hline : source.line index = .ok line)
    (hcut : Extract.cut? line.shown (d.span.clip line.start (Text.byteLength line.shown)).start
      (d.span.clip line.start (Text.byteLength line.shown)).stop = some e) :
    ofDiagnostic source d = .ok ⟨d.severity, source.name, index + 1, e, d.message⟩ := by
  rw [ofDiagnostic_of_line hindex hline]
  simp only [hcut]

namespace Diagnostic

/-- The diagnostic can be shown: its line is found, does not begin behind it, and falls into three
parts of which one is highlighted. -/
def Shows (source : Source) (d : Diagnostic) : Prop :=
  ∃ index line annotation, source.lineIndex d.span.start = .ok index ∧
    source.line index = .ok line ∧ line.start ≤ d.span.start ∧
    Annotation.ofDiagnostic source d = .ok annotation ∧
    annotation.extract.before ++ annotation.extract.highlight ++ annotation.extract.after =
      line.shown

/-- **A diagnostic with a span that fits can be shown.** -/
theorem shows_of_fits {d : Diagnostic} {text : String} (h : d.span.Fits text.toList)
    (name : String) : d.Shows (Source.ofText name text) := by
  obtain ⟨index, line, hindex, hline, hmem, hle⟩ := Source.exists_line name text h.start.le
  -- the span may reach beyond the line, so it is its clipped form that is cut out
  obtain ⟨hclip, hstart, hstop⟩ := h.clip (Line.standsAt_shown hmem) hle
  obtain ⟨extract, hextract⟩ := Extract.exists_cut? hstart hstop hclip
  exact ⟨index, line, _, hindex, hline, hle, Annotation.ofDiagnostic_of_cut hindex hline hextract,
    (Extract.extract_cut?_eq_some_iff.mp hextract).1⟩

end Diagnostic

end ExprReader
