import Mathlib.Data.List.SplitBy
import Mathlib.Data.List.TakeWhile
import ExprReader.Source.Basic

/-!
# Lines of input

Input is cut behind each of its line feeds. A reader that does not break gives these lines one after
the other, and a source that is filled with a line is the source loaded from that line, whatever it
held before.

## Main definitions

* `Reader.lines bytes`: the lines of some input, each with its line feed
* `Reader.CutAtFeeds bytes lines`: the input is cut behind its line feeds and nowhere else

## Main results

* `cutAtFeeds_lines`: the lines are the input cut at its line feeds
* `exists_takeLine`: a reader gives the first line and goes on to the others
* `Source.refill_of_takeLine`: what a source is filled with is all that it holds
* `Source.refill_induction`: what is shown of input line by line, as sources are filled
-/

namespace ExprReader

namespace Reader

/-- The lines of some input: bytes belong to the same line unless the first is a line feed. -/
def lines (bytes : List UInt8) : List (List UInt8) := bytes.splitBy fun b _ => b != lineFeed

/-- The input is cut behind each of its line feeds: no line is empty, a line feed can only be the
last byte of a line, and it is that of every line but perhaps the last one. -/
structure CutAtFeeds (bytes : List UInt8) (lines : List (List UInt8)) : Prop where
  flatten : lines.flatten = bytes
  nil_notMem : [] ∉ lines
  feed_last : ∀ line ∈ lines, lineFeed ∉ line.dropLast
  feed_end : ∀ line ∈ lines.dropLast, line.getLast? = some lineFeed

section Lines

variable {front rest : List UInt8}

/-- A line goes on behind every byte but a line feed. -/
theorem isChain_iff_notMem_dropLast {line : List UInt8} :
    (line.IsChain fun b _ => (b != lineFeed) = true) ↔ lineFeed ∉ line.dropLast := by
  induction line with
  | nil => simp
  | cons b line ih =>
    cases line with
    | nil => simp
    | cons b' line =>
      rw [List.isChain_cons_cons, ih, List.dropLast_cons_of_ne_nil (List.cons_ne_nil _ _),
        List.mem_cons, not_or, bne_iff_ne, ne_comm]

/-- In a chain of lines every one but the last has a successor. -/
theorem feed_end_of_isChain {lines : List (List UInt8)}
    (h : lines.IsChain fun line next => ∃ hline, ∃ _ : next ≠ [],
      (line.getLast hline != lineFeed) = false) :
    ∀ line ∈ lines.dropLast, line.getLast? = some lineFeed := by
  induction lines with
  | nil => simp
  | cons line lines ih =>
    cases lines with
    | nil => simp
    | cons next lines =>
      rw [List.isChain_cons_cons] at h
      obtain ⟨⟨hline, hnext, hfeed⟩, hchain⟩ := h
      rw [List.dropLast_cons_of_ne_nil (List.cons_ne_nil _ _), List.forall_mem_cons]
      refine ⟨?_, ih hchain⟩
      rw [List.getLast?_eq_some_getLast hline]
      simpa using hfeed

/-- **The lines are the input cut at its line feeds.** -/
theorem cutAtFeeds_lines (bytes : List UInt8) : CutAtFeeds bytes (lines bytes) where
  flatten := List.flatten_splitBy _ _
  nil_notMem := List.nil_notMem_splitBy _ _
  feed_last _ hline := isChain_iff_notMem_dropLast.mp (List.isChain_of_mem_splitBy hline)
  feed_end :=
    feed_end_of_isChain (List.isChain_getLast_head_splitBy (fun b _ => b != lineFeed) bytes)

theorem lines_append_feed (h : lineFeed ∉ front) (rest : List UInt8) :
    lines (front ++ lineFeed :: rest) = (front ++ [lineFeed]) :: lines rest := by
  have hline : (front ++ [lineFeed]).splitBy (fun b _ => b != lineFeed) = [front ++ [lineFeed]] :=
    List.splitBy_of_isChain (by simp) (isChain_iff_notMem_dropLast.mpr (by simpa using h))
  rw [List.append_cons, lines, List.splitBy_append (by simp), hline]
  rfl

theorem lines_of_notMem (h : lineFeed ∉ front) (hne : front ≠ []) : lines front = [front] :=
  List.splitBy_of_isChain hne
    (isChain_iff_notMem_dropLast.mpr fun hmem => h (List.dropLast_subset _ hmem))

theorem forall_ne_feed (h : lineFeed ∉ front) : ∀ b ∈ front, (b != lineFeed) = true := by
  intro b hb
  exact bne_iff_ne.mpr fun heq => h (heq ▸ hb)

/-- A line that is ended by its line feed is read even if the input breaks behind it. -/
theorem takeLine_append_feed (h : lineFeed ∉ front) (rest : List UInt8) (failure : Option String) :
    takeLine ⟨front ++ lineFeed :: rest, failure⟩ =
      (.ok (front ++ [lineFeed]), ⟨rest, failure⟩) := by
  have hfront := forall_ne_feed h
  simp [takeLine, List.takeWhile_append_of_pos hfront, List.dropWhile_append_of_pos hfront]

theorem takeLine_of_notMem (h : lineFeed ∉ front) :
    takeLine (ofBytes front) = (.ok front, ofBytes []) := by
  have hfront := forall_ne_feed h
  have htake : front.takeWhile (· != lineFeed) = front := List.takeWhile_eq_self_iff.mpr hfront
  have hdrop : front.dropWhile (· != lineFeed) = [] := List.dropWhile_eq_nil_iff.mpr hfront
  simp [takeLine, ofBytes, htake, hdrop]

/-- Where no line feed comes any more, a reader that breaks gives no line. -/
theorem takeLine_breaking (h : lineFeed ∉ front) (reason : String) :
    takeLine ⟨front, some reason⟩ = (.error reason, ⟨[], some reason⟩) := by
  have hdrop : front.dropWhile (· != lineFeed) = [] :=
    List.dropWhile_eq_nil_iff.mpr (forall_ne_feed h)
  simp [takeLine, hdrop]

/-- **A reader gives the first line and goes on to the others.** -/
theorem exists_takeLine {bytes : List UInt8} (hne : bytes ≠ []) :
    ∃ line rest, line ≠ [] ∧ (ofBytes bytes).takeLine = (.ok line, ofBytes rest) ∧
      lines bytes = line :: lines rest := by
  by_cases hmem : lineFeed ∈ bytes
  · obtain ⟨front, rest, rfl, hfront⟩ := List.eq_append_cons_of_mem hmem
    exact ⟨front ++ [lineFeed], rest, by simp, takeLine_append_feed hfront rest none,
      lines_append_feed hfront rest⟩
  · exact ⟨bytes, [], hne, takeLine_of_notMem hmem, lines_of_notMem hmem hne⟩

end Lines

end Reader

/-- **A source that is filled with a line holds nothing else.** -/
theorem Source.refill_of_takeLine {s : Source} {input after : Reader} {line : List UInt8}
    (h : input.takeLine = (.ok line, after)) :
    s.refill input =
      (.ok line.length, ofText s.name (String.ofList (Text.decode line)), after) := by
  rw [refill, h]
  rfl

/-- A source is filled with the next line, whatever comes behind it. -/
theorem Source.refill_congr (s : Source) {input other : Reader}
    (h : input.takeLine.1 = other.takeLine.1) :
    (s.refill input).1 = (s.refill other).1 ∧ (s.refill input).2.1 = (s.refill other).2.1 := by
  unfold refill
  generalize input.takeLine = taken at h ⊢
  generalize other.takeLine = taken' at h ⊢
  obtain ⟨line, rest⟩ := taken
  obtain ⟨line', rest'⟩ := taken'
  obtain rfl : line = line' := h
  cases line <;> exact ⟨rfl, rfl⟩

/-- **Input is used up line by line**: what holds of no input, and of input with a first line if it
holds of what is left when a source has been filled with that line, holds of all input. -/
@[elab_as_elim]
theorem Source.refill_induction {P : List UInt8 → Prop} (nil : P [])
    (line : ∀ bytes line rest n, Reader.lines bytes = line :: Reader.lines rest →
      (∀ s : Source, s.refill (.ofBytes bytes) =
        (.ok (n + 1), ofText s.name (String.ofList (Text.decode line)), .ofBytes rest)) →
      P rest → P bytes) (bytes : List UInt8) : P bytes := by
  induction hn : bytes.length using Nat.strong_induction_on generalizing bytes with
  | h n ih =>
    subst hn
    by_cases hne : bytes = []
    · exact hne ▸ nil
    · obtain ⟨first, rest, hfirst, htake, hlines⟩ := Reader.exists_takeLine hne
      obtain ⟨n, hlength⟩ := Nat.exists_eq_add_one.mpr (List.length_pos_iff.mpr hfirst)
      refine line bytes first rest n hlines (fun s => ?_) (ih rest.length ?_ rest rfl)
      · rw [← hlength]
        exact refill_of_takeLine htake
      · exact Reader.takeLine_shorter htake hfirst

end ExprReader
