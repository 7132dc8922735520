import Mathlib.Data.List.TakeDrop
import ExprReader.Proofs.Diagnostic.Block
import ExprReader.Proofs.Diagnostic.Shown
import ExprReader.Proofs.Source.Lookup

/-!
# What is underlined

Under the line of a diagnostic stand carets. Spans count bytes, and the columns of a line are
characters: with one blank for each character before the span and one caret for each character in
it, the carets stand just under the characters of the line that the span holds.

## Main definitions

* `Span.Marks span cs lineStart shown i`: the span holds a character of a shown line
* `Diagnostic.Drawn d s lines`: the lines are those of the diagnostic, with carets as they should be

## Main results

* `Text.byteLength_take_le_iff`: fewer bytes at the front are fewer characters
* `Extract.places`: the span holds the characters of the highlight, and no others of the line
* `Diagnostic.exists_drawn`: a diagnostic with a span that fits is drawn
-/

namespace ExprReader

/-! ## Bytes and characters -/

namespace Text

variable {cs front back : List Char} {i j : Nat}

/-- Fewer bytes at the front of a text are fewer characters. -/
theorem byteLength_take_le_iff (hj : j ≤ cs.length) :
    byteLength (cs.take j) ≤ byteLength (cs.take i) ↔ j ≤ i := by
  constructor
  · intro hle
    by_contra hlt
    -- then there are characters between the two places, and they have bytes
    obtain ⟨n, rfl⟩ := Nat.exists_eq_add_of_lt (Nat.lt_of_not_le hlt)
    have hne : (cs.drop i).take (n + 1) ≠ [] := by
      rw [List.ne_nil_iff_length_pos, List.length_take, List.length_drop]
      omega
    have hpos := byteLength_pos hne
    rw [Nat.add_assoc, List.take_add, byteLength_append] at hle
    omega
  · intro hle
    obtain ⟨n, rfl⟩ := Nat.exists_eq_add_of_le hle
    rw [List.take_add, byteLength_append]
    exact Nat.le_add_right _ _

/-- The front of a text ends at or before a place if it has no more bytes than stand before the
place. -/
theorem byteLength_front_le_iff :
    byteLength front ≤ byteLength ((front ++ back).take i) ↔ front.length ≤ i := by
  have hle : front.length ≤ (front ++ back).length := by
    rw [List.length_append]
    exact Nat.le_add_right _ _
  have htake := byteLength_take_le_iff (i := i) hle
  rwa [List.take_left] at htake

/-- A place lies within the front of a text if the bytes up to and with the character there are no
more than those of the front. -/
theorem byteLength_take_succ_le_iff (hi : i < (front ++ back).length) :
    byteLength ((front ++ back).take (i + 1)) ≤ byteLength front ↔ i < front.length := by
  have htake := byteLength_take_le_iff (i := front.length) (Nat.succ_le_of_lt hi)
  rwa [List.take_left] at htake

/-- The characters of a part stand one behind the other. -/
theorem StandsAt.getElem {n : Nat} {part : List Char} (h : StandsAt n part cs)
    (hi : i < part.length) : StandsAt (n + byteLength (part.take i)) [part[i]] cs := by
  obtain ⟨before, after, rfl, rfl⟩ := h
  refine ⟨before ++ part.take i, part.drop (i + 1) ++ after, ?_, byteLength_append ..⟩
  have hpart : part.take i ++ part[i] :: part.drop (i + 1) = part := by
    rw [← List.drop_eq_getElem_cons hi, List.take_append_drop]
  conv_rhs => rw [← hpart]
  simp only [List.append_assoc, List.cons_append, List.nil_append]

end Text

/-! ## The characters of a span -/

/-- The span holds the character at a place of a shown line: this character stands in the text
between the ends of the span. -/
def Span.Marks (span : Span) (cs : List Char) (lineStart : Nat) (shown : List Char) (i : Nat) :
    Prop :=
  ∃ c offset, shown[i]? = some c ∧ offset = lineStart + Text.byteLength (shown.take i) ∧
    Text.StandsAt offset [c] cs ∧ span.start ≤ offset ∧ offset + c.utf8Size ≤ span.stop

/-- Of the characters of a shown line, the span holds those that begin and end within it. -/
theorem Span.marks_iff {span : Span} {cs shown : List Char} {lineStart i : Nat}
    (hshown : Text.StandsAt lineStart shown cs) (hi : i < shown.length) :
    span.Marks cs lineStart shown i ↔
      span.start ≤ lineStart + Text.byteLength (shown.take i) ∧
        lineStart + Text.byteLength (shown.take (i + 1)) ≤ span.stop := by
  have hbytes : Text.byteLength (shown.take (i + 1)) =
      Text.byteLength (shown.take i) + (shown[i]).utf8Size := by
    rw [← List.take_append_getElem hi, Text.byteLength_append, Text.byteLength_cons,
      Text.byteLength_nil, Nat.add_zero]
  rw [hbytes, ← Nat.add_assoc]
  constructor
  · rintro ⟨c, offset, hc, rfl, -, hstart, hstop⟩
    obtain ⟨hlt, rfl⟩ := List.getElem?_eq_some_iff.mp hc
    exact ⟨hstart, hstop⟩
  · rintro ⟨hstart, hstop⟩
    exact ⟨_, _, List.getElem?_eq_getElem hi, rfl, hshown.getElem hi, hstart, hstop⟩

/-- A line that is cut where a span is clipped to it has the characters before the span before the
highlight, and those that the span holds in the highlight. -/
theorem Extract.places {span : Span} {cs : List Char} {lineStart i : Nat} {e : Extract}
    {shown : List Char} (hparts : e.before ++ e.highlight ++ e.after = shown)
    (hstart : Text.byteLength e.before = (span.clip lineStart (Text.byteLength shown)).start)
    (hstop : Text.byteLength e.before + Text.byteLength e.highlight =
      (span.clip lineStart (Text.byteLength shown)).stop)
    (hle : lineStart ≤ span.start) (hshown : Text.StandsAt lineStart shown cs)
    (hi : i < shown.length) :
    (i < e.before.length ↔ lineStart + Text.byteLength (shown.take i) < span.start) ∧
      (span.Marks cs lineStart shown i ↔
        e.before.length ≤ i ∧ i < e.before.length + e.highlight.length) := by
  have hfirst : Text.byteLength e.before ≤ Text.byteLength (shown.take i) ↔
      e.before.length ≤ i := by
    rw [← hparts, List.append_assoc]
    exact Text.byteLength_front_le_iff
  have hlast : Text.byteLength (shown.take (i + 1)) ≤
        Text.byteLength e.before + Text.byteLength e.highlight ↔
      i < e.before.length + e.highlight.length := by
    rw [← Text.byteLength_append, ← List.length_append]
    subst hparts
    exact Text.byteLength_take_succ_le_iff hi
  have hlt : Text.byteLength (shown.take i) < Text.byteLength (shown.take (i + 1)) := by
    rw [← Nat.not_le, Text.byteLength_take_le_iff hi]
    exact Nat.not_succ_le_self i
  have hwhole : Text.byteLength (shown.take (i + 1)) ≤ Text.byteLength shown := by
    conv_rhs => rw [← List.take_append_drop (i + 1) shown, Text.byteLength_append]
    exact Nat.le_add_right _ _
  rw [Span.marks_iff hshown hi, ← hfirst, ← hlast, ← Nat.not_le, ← hfirst, hstop, hstart]
  -- clipping to the line moves no end over a character of it
  simp only [Span.clip]
  constructor <;> omega

/-! ## The carets -/

namespace Diagnostic

variable {name text : String} {s : Source} {d : Diagnostic}

/-- The lines are those of a diagnostic that is drawn without color. The fourth shows the line on
which the diagnostic begins, behind its number. In the fifth a run of carets stands under it: the
margins of both lines have the same width, and there is a blank for each character of the line
before the span. If the span holds characters of the line, the carets stand under these and under no
others; if it holds none, there is one caret. -/
structure DrawnAt (d : Diagnostic) (s : Source) (lines : List (List Char)) (index lineStart : Nat)
    (shown : List Char) (indent carets : Nat) : Prop where
  length : lines.length = 6
  feed_notMem : ∀ line ∈ lines, '\n' ∉ line
  last : lines[5]? = some []
  index_eq : index = ((Text.encode s.text.toList).take d.span.start).count Reader.lineFeed
  begins : s.lineOffsets[index]? = some lineStart
  shownLine : s.shownLine index = .ok (String.ofList shown)
  line : lines[3]? = some (Nat.toDigits 10 (index + 1) ++ " | ".toList ++ shown)
  under : lines[4]? = some (List.replicate (Nat.toDigits 10 (index + 1)).length ' ' ++
    " | ".toList ++ List.replicate indent ' ' ++ List.replicate carets '^' ++
    ' ' :: d.message.toList)
  indent_le : indent ≤ shown.length
  before : ∀ i < shown.length,
    i < indent ↔ lineStart + Text.byteLength (shown.take i) < d.span.start
  marked : (∃ i, d.span.Marks s.text.toList lineStart shown i) →
    ∀ i, d.span.Marks s.text.toList lineStart shown i ↔ indent ≤ i ∧ i < indent + carets
  unmarked : (∀ i, ¬d.span.Marks s.text.toList lineStart shown i) → carets = 1

/-- The lines are those of a diagnostic that is drawn without color. -/
def Drawn (d : Diagnostic) (s : Source) (lines : List (List Char)) : Prop :=
  ∃ index lineStart shown indent carets, d.DrawnAt s lines index lineStart shown indent carets

/-- **A diagnostic with a span that fits is drawn**, if there is no line feed in its message and in
the name of the source. -/
theorem exists_drawn (hname : '\n' ∉ name.toList) (hmessage : '\n' ∉ d.message.toList)
    (hfits : d.span.Fits text.toList) :
    ∃ a, Annotation.ofDiagnostic (Source.ofText name text) d = .ok a ∧
      d.Drawn (Source.ofText name text) a.lines := by
  have hsize : d.span.start ≤ (Source.ofText name text).size := by
    rw [Source.size_ofText]
    exact hfits.start.le
  obtain ⟨index, line, hindex, hline, hmem, hle⟩ := Source.exists_line name text hfits.start.le
  have hget := Source.getElem?_of_line hline
  obtain ⟨-, -, -, -, -, hfeed⟩ := Source.shownAs_ofText hget
  have hstands := Line.standsAt_shown hmem
  obtain ⟨hclip, hstart, hstop⟩ := hfits.clip hstands hle
  obtain ⟨e, he⟩ := Extract.exists_cut? hstart hstop hclip
  obtain ⟨hparts, hbefore, hhighlight⟩ := Extract.extract_cut?_eq_some_iff.mp he
  have hplaces := fun (i : Nat) => e.places (i := i) hparts hbefore hhighlight hle hstands
  have hlength : e.before.length + e.highlight.length ≤ line.shown.length := by
    rw [← hparts, List.length_append, List.length_append]
    exact Nat.le_add_right _ _
  have hlt : ∀ {i}, d.span.Marks text.toList line.start line.shown i → i < line.shown.length := by
    rintro i ⟨c, -, hc, -⟩
    exact (List.getElem?_eq_some_iff.mp hc).1
  refine ⟨_, Annotation.ofDiagnostic_of_cut hindex hline he, index, line.start, line.shown,
    e.before.length, max 1 e.highlight.length, ?_⟩
  constructor
  case length => rfl
  case feed_notMem => exact Annotation.feed_notMem_of_mem_lines hname hmessage (hparts ▸ hfeed)
  case last => rfl
  case index_eq =>
    rw [(Source.indexed_ofText name text).lineIndex_eq_count hsize] at hindex
    exact (Except.ok.inj hindex).symm
  case begins => rw [Source.lineOffsets, List.getElem?_map, hget, Option.map_some]
  case shownLine => exact Source.shownLine_eq_of_getElem? hget
  case line =>
    rw [← hparts]
    rfl
  case under => exact Annotation.getElem?_lines_under _
  case indent_le => exact Nat.le_trans (Nat.le_add_right _ _) hlength
  case before => exact fun i hi => (hplaces i hi).1
  case marked =>
    rintro ⟨j, hj⟩ i
    have hj := (hplaces j (hlt hj)).2.mp hj
    have hcarets : max 1 e.highlight.length = e.highlight.length := Nat.max_eq_right (by omega)
    rw [hcarets]
    constructor
    · intro hi
      exact (hplaces i (hlt hi)).2.mp hi
    · intro hi
      exact (hplaces i (by omega)).2.mpr hi
  case unmarked =>
    intro hnone
    by_contra hne
    -- a highlight of characters has a first one
    have hfirst := hplaces e.before.length (by omega)
    exact hnone _ (hfirst.2.mpr (by omega))

end Diagnostic

end ExprReader
