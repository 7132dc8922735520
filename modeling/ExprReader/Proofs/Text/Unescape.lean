import ExprReader.Text.Escape

/-!
# Escapes read back

A text with its escapes can be read up to the quote that ends it, whatever comes behind: a quote of
the text itself stands behind a backslash that escapes it. There is no line feed in it, so the text
stays on one line.

## Main definitions

* `escaped? mark`: the character whose escape ends with `mark`
* `opensEscape cs`: a text ends with a backslash that is not escaped itself
* `readQuoted cs`: a text with its escapes up to the quote behind it, and what is left

## Main results

* `feed_notMem_escape`, `opensEscape_of_quote`: line feeds and quotes in a text with its escapes
* `readQuoted_escape`: what is escaped is read back
* `length_readQuoted`: reading leaves less
-/

namespace ExprReader.Text

/-- The character whose escape ends with a mark; none if no escape does. -/
def escaped? (mark : Char) : Option Char :=
  match mark with
  | 'a' => some '\x07'
  | 'b' => some '\x08'
  | 't' => some '\t'
  | 'n' => some '\n'
  | 'v' => some '\x0b'
  | 'f' => some '\x0c'
  | 'r' => some '\r'
  | '\\' => some '\\'
  | '"' => some '"'
  | _ => none

/-- The text ends with a backslash that escapes what comes next. A backslash that is escaped itself
escapes nothing. -/
def opensEscape (cs : List Char) : Bool := cs.foldl (fun opens c => !opens && c == '\\') false

/-- Reads a text with its escapes up to the quote that ends it. -/
def readQuoted : List Char → Option (List Char × List Char)
  | [] => none
  | '"' :: rest => some ([], rest)
  | '\\' :: mark :: rest => do
    let c ← escaped? mark
    let (cs, left) ← readQuoted rest
    return (c :: cs, left)
  | c :: rest => do
    let (cs, left) ← readQuoted rest
    return (c :: cs, left)

variable {c mark : Char} {cs front back left : List Char}

/-! ## One character -/

/-- Each mark is that of one character. -/
theorem escaped?_of_escapeMark? (h : escapeMark? c = some mark) : escaped? mark = some c := by
  revert h
  fun_cases escapeMark? c
  all_goals rintro ⟨⟩
  all_goals rfl

/-- No character is marked by a line feed. -/
theorem mark_ne_feed (h : escapeMark? c = some mark) : mark ≠ '\n' := by
  rintro rfl
  cases escaped?_of_escapeMark? h

theorem escape_cons_of_some (h : escapeMark? c = some mark) (cs : List Char) :
    escape (c :: cs) = '\\' :: mark :: escape cs := by
  rw [escape_cons, escapeChar, h]
  rfl

theorem escape_cons_of_none (h : escapeMark? c = none) (cs : List Char) :
    escape (c :: cs) = c :: escape cs := by
  rw [escape_cons, escapeChar, h]
  rfl

/-- What stands for itself is neither a quote nor a backslash nor a line feed. -/
theorem ne_of_escapeMark?_eq_none (h : escapeMark? c = none) : c ≠ '"' ∧ c ≠ '\\' ∧ c ≠ '\n' := by
  refine ⟨?_, ?_, ?_⟩ <;> rintro rfl <;> cases h

/-! ## Line feeds and quotes -/

/-- **There is no line feed** in a text with its escapes. -/
theorem feed_notMem_escape (cs : List Char) : '\n' ∉ escape cs := by
  induction cs with
  | nil => exact List.not_mem_nil
  | cons c cs ih =>
    cases hmark : escapeMark? c with
    | none =>
      rw [escape_cons_of_none hmark, List.mem_cons, not_or]
      exact ⟨(ne_of_escapeMark?_eq_none hmark).2.2.symm, ih⟩
    | some mark =>
      rw [escape_cons_of_some hmark, List.mem_cons, List.mem_cons, not_or, not_or]
      exact ⟨by decide, (mark_ne_feed hmark).symm, ih⟩

/-- An escape is over behind its mark. -/
theorem opensEscape_mark_cons (mark : Char) (cs : List Char) :
    opensEscape ('\\' :: mark :: cs) = opensEscape cs := rfl

theorem opensEscape_cons (h : c ≠ '\\') (cs : List Char) :
    opensEscape (c :: cs) = opensEscape cs := by
  have hc : (c == '\\') = false := beq_false_of_ne h
  rw [opensEscape, List.foldl_cons, hc]
  rfl

/-- **Before each quote stands a backslash that escapes it** in a text with its escapes. -/
theorem opensEscape_of_quote (h : escape cs = front ++ '"' :: back) : opensEscape front = true := by
  induction cs generalizing front with
  | nil => simp at h
  | cons c cs ih =>
    cases hmark : escapeMark? c with
    | none =>
      obtain ⟨hquote, hbackslash, -⟩ := ne_of_escapeMark?_eq_none hmark
      rw [escape_cons_of_none hmark] at h
      rcases List.cons_eq_append_iff.mp h with ⟨rfl, heq⟩ | ⟨front, rfl, heq⟩
      · exact absurd (List.cons.inj heq).1.symm hquote
      · rw [opensEscape_cons hbackslash]
        exact ih heq
    | some mark =>
      rw [escape_cons_of_some hmark] at h
      rcases List.cons_eq_append_iff.mp h with ⟨rfl, heq⟩ | ⟨behind, rfl, hbehind⟩
      · cases (List.cons.inj heq).1
      rcases List.cons_eq_append_iff.mp hbehind with ⟨rfl, -⟩ | ⟨front, rfl, heq⟩
      · -- the quote is the mark of the escape
        rfl
      · rw [opensEscape_mark_cons]
        exact ih heq

/-! ## Reading back -/

theorem readQuoted_mark_cons (h : escaped? mark = some c) (rest : List Char) :
    readQuoted ('\\' :: mark :: rest) =
      (readQuoted rest).map fun (cs, left) => (c :: cs, left) := by
  rw [readQuoted, h]
  cases readQuoted rest <;> rfl

theorem readQuoted_cons (hquote : c ≠ '"') (hbackslash : c ≠ '\\') (rest : List Char) :
    readQuoted (c :: rest) = (readQuoted rest).map fun (cs, left) => (c :: cs, left) := by
  rw [readQuoted]
  · cases readQuoted rest <;> rfl
  · exact hquote
  · intro mark rest hc
    exact absurd hc hbackslash

/-- **What is escaped is read back** up to the quote behind it. -/
theorem readQuoted_escape (cs rest : List Char) :
    readQuoted (escape cs ++ '"' :: rest) = some (cs, rest) := by
  induction cs with
  | nil => rfl
  | cons c cs ih =>
    cases hmark : escapeMark? c with
    | none =>
      obtain ⟨hquote, hbackslash, -⟩ := ne_of_escapeMark?_eq_none hmark
      rw [escape_cons_of_none hmark, List.cons_append, readQuoted_cons hquote hbackslash, ih]
      rfl
    | some mark =>
      rw [escape_cons_of_some hmark, List.cons_append, List.cons_append,
        readQuoted_mark_cons (escaped?_of_escapeMark? hmark), ih]
      rfl

/-- Reading leaves less. -/
theorem length_readQuoted {text : List Char} (h : readQuoted text = some (cs, left)) :
    left.length < text.length := by
  fun_induction readQuoted text generalizing cs left with
  | case1 => cases h
  | case2 rest =>
    obtain ⟨-, rfl⟩ := Prod.mk.inj (Option.some.inj h)
    exact Nat.lt_succ_self _
  | case3 mark rest ih =>
    simp only [Option.bind_eq_bind, Option.bind_eq_some_iff, Prod.exists] at h
    obtain ⟨c, -, cs', left', hrest, heq⟩ := h
    obtain ⟨-, rfl⟩ := Prod.mk.inj (Option.some.inj heq)
    have := ih hrest
    simp only [List.length_cons]
    omega
  | case4 c rest _ _ ih =>
    simp only [Option.bind_eq_bind, Option.bind_eq_some_iff, Prod.exists] at h
    obtain ⟨cs', left', hrest, heq⟩ := h
    obtain ⟨-, rfl⟩ := Prod.mk.inj (Option.some.inj heq)
    exact Nat.lt_succ_of_lt (ih hrest)

end ExprReader.Text
