import Mathlib.Data.List.Basic
import Mathlib.Data.List.TakeWhile
import ExprReader.Proofs.Text.Boundary
import ExprReader.Source.Basic

/-!
# Where lines stand

The lines of a loaded source stand in its text at the offsets at which they say they begin, and
every byte offset up to the end of the text belongs to a line that does not begin behind it.

## Main results

* `standsAt_of_mem_ofText`: a line stands in the text where it begins
* `Line.standsAt_shown`: so does what is shown of it
* `Line.isChain_place`: a line begins one byte behind the end of the line before it
* `Source.exists_line`: looking up the line of an offset up to the end of the text never fails
-/

namespace ExprReader

namespace Line

/-- What is shown of a line is its front. -/
theorem exists_shown_append (line : Line) : ∃ back, line.shown ++ back = line.chars := by
  unfold shown
  split
  · rename_i hlast
    exact ⟨['\r'], List.dropLast_append_getLast? '\r' hlast⟩
  · exact ⟨[], List.append_nil _⟩

/-- Lines with a line feed between each two of them stand where they are placed. -/
theorem exists_standsAt_of_mem_place {line : Line} {start : Nat} {parts : List (List Char)}
    (h : line ∈ place start parts) :
    ∃ offset, Text.StandsAt offset line.chars (['\n'].intercalate parts) ∧
      line.start = start + offset := by
  induction parts generalizing start with
  | nil => cases h
  | cons chars rest ih =>
    rcases List.mem_cons.mp h with rfl | h
    · refine ⟨0, ?_, rfl⟩
      by_cases hrest : rest = []
      · exact ⟨[], [], by simp [hrest], rfl⟩
      · rw [List.intercalate_cons_of_ne_nil hrest, List.append_assoc]
        exact ⟨[], _, rfl, rfl⟩
    · -- a line further on stands behind the first line and its line feed
      obtain ⟨offset, hstands, hstart⟩ := ih h
      have hrest : rest ≠ [] := by
        rintro rfl
        cases h
      rw [List.intercalate_cons_of_ne_nil hrest]
      refine ⟨_, hstands.append_left (chars ++ ['\n']), ?_⟩
      have hfeed : ('\n' : Char).utf8Size = 1 := rfl
      simp only [Text.byteLength_append, Text.byteLength_cons, Text.byteLength_nil, hfeed]
      omega

/-- **A line stands in the text where it begins.** -/
theorem standsAt_of_mem_ofText {line : Line} {text : String} (h : line ∈ ofText text) :
    Text.StandsAt line.start line.chars text.toList := by
  obtain ⟨offset, hstands, hstart⟩ := exists_standsAt_of_mem_place h
  rw [List.intercalate_splitOn] at hstands
  rwa [hstart, Nat.zero_add]

/-- So does what is shown of it. -/
theorem standsAt_shown {line : Line} {text : String} (h : line ∈ ofText text) :
    Text.StandsAt line.start line.shown text.toList := by
  obtain ⟨back, hback⟩ := line.exists_shown_append
  have hstands := standsAt_of_mem_ofText h
  rw [← hback] at hstands
  exact hstands.front

/-- The first line of a text begins with it. -/
theorem exists_ofText_eq_cons (text : String) :
    ∃ chars rest, ofText text = ⟨0, chars⟩ :: rest := by
  obtain ⟨chars, parts, hparts⟩ :=
    List.exists_cons_of_ne_nil (List.splitOn_ne_nil '\n' text.toList)
  exact ⟨chars, _, by rw [ofText, hparts, place]⟩

/-- A line begins behind the line feed at the end of the line before it. -/
theorem isChain_place (start : Nat) (parts : List (List Char)) :
    (place start parts).IsChain fun line next =>
      line.start + Text.byteLength line.chars + 1 = next.start := by
  induction parts generalizing start with
  | nil => exact .nil
  | cons chars rest ih =>
    cases rest with
    | nil => exact .singleton _
    | cons chars' rest => exact .cons_cons rfl (ih _)

end Line

/-- The last entry of those at the front of a list that pass a test passes it. -/
theorem exists_getElem?_takeWhile {α : Type} {p : α → Bool} {x : α} (hx : p x = true)
    (rest : List α) :
    ∃ y, (x :: rest)[((x :: rest).takeWhile p).length - 1]? = some y ∧ p y = true := by
  have hlt : ((x :: rest).takeWhile p).length - 1 < ((x :: rest).takeWhile p).length := by
    rw [List.takeWhile_cons_of_pos hx, List.length_cons]
    omega
  have hmem := List.getElem_mem hlt
  have htake := (List.takeWhile_prefix p (l := x :: rest)).getElem hlt
  refine ⟨_, ?_, List.mem_takeWhile_imp hmem⟩
  rw [htake, List.getElem?_eq_getElem]

namespace Source

@[simp] theorem size_ofText (name text : String) :
    (ofText name text).size = Text.byteLength text.toList :=
  Text.utf8ByteSize_eq text

/-- **Looking up a line never fails**: every byte offset up to the end of the text belongs to a
line of it that does not begin behind the offset. -/
theorem exists_line (name text : String) {offset : Nat}
    (hoffset : offset ≤ Text.byteLength text.toList) :
    ∃ index line, (ofText name text).lineIndex offset = .ok index ∧
      (ofText name text).line index = .ok line ∧ line ∈ Line.ofText text ∧
      line.start ≤ offset := by
  -- the first line begins at zero, so at least one line does not begin behind the offset
  obtain ⟨chars, rest, hlines⟩ := Line.exists_ofText_eq_cons text
  obtain ⟨line, hline, hle⟩ := exists_getElem?_takeWhile
    (p := fun line : Line => decide (line.start ≤ offset)) (x := ⟨0, chars⟩) (by simp) rest
  rw [← hlines] at hline
  have hindex : (ofText name text).lineIndex offset = .ok
      (((Line.ofText text).takeWhile fun line => decide (line.start ≤ offset)).length - 1) := by
    rw [lineIndex, size_ofText, if_neg (Nat.not_lt.mpr hoffset), lines_ofText]
  refine ⟨_, line, hindex, ?_, List.mem_of_getElem? hline, of_decide_eq_true hle⟩
  rw [Source.line, lines_ofText, hline]

end Source

end ExprReader
