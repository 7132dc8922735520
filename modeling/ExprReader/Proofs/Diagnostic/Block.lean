import ExprReader.Diagnostic.Annotation

/-!
# Annotations line by line

Without color an annotation is a block of six lines, each ended by a line feed: the message, the
place, an empty margin, the line of the source, what stands under it, and an empty line. If the
name, the message and the line of the source keep to one line, so does each of the six.

## Main definitions

* `Annotation.lines a`: the lines of an annotation
* `Annotation.Reports a number column shown`: the annotation tells of a line and of a place on it

## Main results

* `Fault.feed_notMem_message`: the message of a fault keeps to one line
* `Annotation.render_false`: without color an annotation is its lines
* `Annotation.feed_notMem_of_mem_lines`: none of its lines has a line feed in it
-/

namespace ExprReader

/-! ## No line feeds in messages -/

namespace Text

/-- A number is written without a line feed, whatever the base. -/
theorem feed_notMem_toDigits {b : Nat} (hb : 1 < b) (n : Nat) : '\n' ∉ Nat.toDigits b n := by
  have hdigit : ∀ m : Nat, '\n' ≠ m.digitChar := fun m => (Nat.digitChar_ne '\n' rfl).symm
  induction n using Nat.strongRecOn with
  | ind n ih =>
    rw [Nat.toDigits_eq_if hb]
    split
    · exact mt List.mem_singleton.mp (hdigit n)
    · rename_i hge
      have hless : n / b < n := Nat.div_lt_self (by omega) hb
      rw [List.mem_append, List.mem_singleton, not_or]
      exact ⟨ih _ hless, hdigit _⟩

/-- A character is shown without a line feed, even if it is one. -/
theorem feed_notMem_visible (c : Char) : '\n' ∉ visible c := by
  have hnumber := feed_notMem_toDigits (b := 16) (by decide) c.toNat
  unfold visible
  split
  case h_7 c _ _ hfeed _ _ _ =>
    split
    · simp [byNumber, hnumber]
    · exact mt List.mem_singleton.mp (Ne.symm hfeed)
  all_goals decide

theorem feed_notMem_quoted (c : Char) : '\n' ∉ (quoted c).toList := by
  rw [quoted, String.toList_ofList]
  simp [feed_notMem_visible]

end Text

/-- **The message of a fault has no line feed**, unless it names a number that has one. -/
theorem Fault.feed_notMem_message {cause : Fault}
    (h : ∀ lexeme, cause = .malformedNumber lexeme → '\n' ∉ lexeme.toList) :
    '\n' ∉ cause.message.toList := by
  have hbetween : ∀ {front middle back : String}, '\n' ∉ front.toList → '\n' ∉ middle.toList →
      '\n' ∉ back.toList → '\n' ∉ (front ++ middle ++ back).toList := by
    intro front middle back hfront hmiddle hback
    simp [hfront, hmiddle, hback]
  cases cause with
  | strayCharacter found =>
    show '\n' ∉ ("Unexpected character " ++ Text.quoted found ++ ".").toList
    exact hbetween (by decide) (Text.feed_notMem_quoted found) (by decide)
  | malformedNumber lexeme =>
    show '\n' ∉ ("Invalid number literal '" ++ lexeme ++ "'.").toList
    exact hbetween (by decide) (h lexeme rfl) (by decide)
  | openString => decide
  | missingOperand => decide
  | missingParen => decide

namespace Annotation

variable {a : Annotation}

/-- The lines of an annotation, without the line feeds that end them. -/
def lines (a : Annotation) : List (List Char) :=
  let e := a.extract
  [a.severity.name.toList ++ ": ".toList ++ a.message.toList,
    a.pad ++ "--> ".toList ++ a.name.toList ++ ':' :: a.numeral ++ ':' :: Nat.toDigits 10 a.column,
    a.pad ++ " |".toList,
    a.numeral ++ " | ".toList ++ (e.before ++ e.highlight ++ e.after),
    a.pad ++ " | ".toList ++ e.before.map (fun _ => ' ') ++ a.carets ++ ' ' :: a.message.toList,
    []]

/-- The annotation tells of a line by its number, and of a place on it by its column, and it shows
the line from its beginning to its end. -/
structure Reports (a : Annotation) (number column : Nat) (shown : List Char) : Prop where
  number_eq : a.number = number
  column_eq : a.column = column
  extract : a.extract.before ++ a.extract.highlight ++ a.extract.after = shown
  place : a.lines[1]? = some (a.pad ++ "--> ".toList ++ a.name.toList ++
    ':' :: Nat.toDigits 10 number ++ ':' :: Nat.toDigits 10 column)
  line : a.lines[3]? = some (Nat.toDigits 10 number ++ " | ".toList ++ shown)

/-- **Without color an annotation is its lines**, one after the other. -/
theorem render_false (a : Annotation) : a.render false = a.lines.flatMap (· ++ ['\n']) := by
  simp [render, pieces, lines, Piece.chars, Piece.uncolored, accent, gutter]

theorem reports {shown : List Char}
    (h : a.extract.before ++ a.extract.highlight ++ a.extract.after = shown) :
    a.Reports a.number a.column shown :=
  ⟨rfl, rfl, h, rfl, congrArg (fun line => some (a.numeral ++ " | ".toList ++ line)) h⟩

/-- Under the line stand a margin of the same width, a blank for each character before the
highlight, and then the carets. -/
theorem getElem?_lines_under (a : Annotation) : a.lines[4]? = some
    (List.replicate (Nat.toDigits 10 a.number).length ' ' ++ " | ".toList ++
      List.replicate a.extract.before.length ' ' ++
      List.replicate (max 1 a.extract.highlight.length) '^' ++ ' ' :: a.message.toList) := by
  simp [lines, pad, carets, numeral, List.map_const']

/-! ## No line feeds within the lines -/

theorem feed_notMem_pad (a : Annotation) : '\n' ∉ a.pad := by
  intro h
  obtain ⟨-, -, h⟩ := List.mem_map.mp h
  cases h

/-- **None of the lines has a line feed in it**, if there is none in the name, in the message and in
the line of the source. -/
theorem feed_notMem_of_mem_lines (hname : '\n' ∉ a.name.toList) (hmessage : '\n' ∉ a.message.toList)
    (hline : '\n' ∉ a.extract.before ++ a.extract.highlight ++ a.extract.after) :
    ∀ line ∈ a.lines, '\n' ∉ line := by
  have hseverity : '\n' ∉ a.severity.name.toList := by cases a.severity <;> decide
  have hnumeral : '\n' ∉ a.numeral := Text.feed_notMem_toDigits (by decide) a.number
  have hcolumn : '\n' ∉ Nat.toDigits 10 a.column := Text.feed_notMem_toDigits (by decide) a.column
  have hpad := feed_notMem_pad a
  simp only [List.mem_append, not_or] at hline
  obtain ⟨⟨hbefore, hhighlight⟩, hafter⟩ := hline
  -- what stands under the line is blanks and carets up to the message
  simp [lines, carets, hname, hmessage, hseverity, hnumeral, hcolumn, hpad, hbefore, hhighlight,
    hafter]

end Annotation

end ExprReader
