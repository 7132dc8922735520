import Mathlib.Data.List.Basic
import ExprReader.Proofs.Source.Lookup

/-!
# What ends a line

The shown lines of a source are its text without what ends them: a line feed, or a carriage return
and a line feed. The last line has no end of its own, but a carriage return that stands at the very
end of the text is not shown either, so that the shown lines do not tell whether there is one.

## Main definitions

* `Text.Ends shown last text`: the text is the shown lines with what ends them
* `Text.lone cs`: the carriage return at the end of a text, if there is one
* `Source.Assembled s last`: the text of a source is its shown lines with what ends them

## Main results

* `Line.ends_place_iff`: what stands behind the last line is the carriage return at the end
* `Source.Reachable.assembled_iff`: what the shown lines of a source lack
-/

namespace ExprReader

namespace Text

/-- The text is the shown lines one after the other, behind each of them but the last a line feed or
a carriage return and a line feed, and behind the last one `last`. -/
inductive Ends : List (List Char) → List Char → List Char → Prop
  | last (shown last : List Char) : Ends [shown] last (shown ++ last)
  | line {lines : List (List Char)} {shown ending last text : List Char}
      (hending : ending = ['\n'] ∨ ending = ['\r', '\n']) (h : Ends lines last text) :
      Ends (shown :: lines) last (shown ++ (ending ++ text))

/-- The carriage return at the end of a text, if there is one. -/
def lone (cs : List Char) : List Char := if cs.getLast? = some '\r' then ['\r'] else []

variable {lines : List (List Char)} {shown last text cs : List Char}

theorem Ends.ne_nil (h : Ends lines last text) : lines ≠ [] := by
  cases h <;> exact List.cons_ne_nil _ _

/-- By itself a line is what is shown of it, and what stands behind. -/
theorem ends_singleton_iff : Ends [shown] last text ↔ shown ++ last = text := by
  constructor
  · intro h
    cases h with
    | last => rfl
    | line _ h => exact absurd rfl h.ne_nil
  · rintro rfl
    exact .last shown last

theorem lone_cases (cs : List Char) : lone cs = [] ∨ lone cs = ['\r'] := by
  unfold lone
  split
  · exact .inr rfl
  · exact .inl rfl

/-- In front of a line feed a carriage return is not at the end. -/
theorem lone_append_feed (cs text : List Char) : lone (cs ++ '\n' :: text) = lone text := by
  have hlast : (cs ++ '\n' :: text).getLast? = some '\r' ↔ text.getLast? = some '\r' := by
    rw [List.getLast?_append_cons, List.getLast?_cons]
    cases text.getLast? <;> simp
  simp only [lone, hlast]

theorem Ends.exists_of_cons (h : Ends (shown :: lines) last cs) (hne : lines ≠ []) :
    ∃ ending text, (ending = ['\n'] ∨ ending = ['\r', '\n']) ∧ Ends lines last text ∧
      cs = shown ++ (ending ++ text) := by
  cases h with
  | last => exact absurd rfl hne
  | line hending h => exact ⟨_, _, hending, h, rfl⟩

/-- A line in front of others is what is shown of it, its carriage return if it has one, and the
line feed. -/
theorem ends_cons_iff (hne : lines ≠ []) :
    Ends (shown :: lines) last (shown ++ (lone cs ++ '\n' :: text)) ↔ Ends lines last text := by
  constructor
  · intro h
    obtain ⟨ending, text', hending, h, hwhole⟩ := h.exists_of_cons hne
    have hbehind := List.append_cancel_left hwhole
    -- both sides begin with a line feed, or both with a carriage return
    rcases lone_cases cs with hlone | hlone
    · rw [hlone, List.nil_append] at hbehind
      rcases hending with rfl | rfl
      · rwa [(List.cons.inj hbehind).2]
      · exact absurd (List.cons.inj hbehind).1 (by decide)
    · rw [hlone] at hbehind
      rcases hending with rfl | rfl
      · exact absurd (List.cons.inj hbehind).1 (by decide)
      · rwa [(List.cons.inj (List.cons.inj hbehind).2).2]
  · intro h
    rcases lone_cases cs with hlone | hlone
    · have hline : Ends (shown :: lines) last (shown ++ (['\n'] ++ text)) :=
        .line (.inl rfl) h
      rwa [hlone]
    · have hline : Ends (shown :: lines) last (shown ++ (['\r', '\n'] ++ text)) :=
        .line (.inr rfl) h
      rwa [hlone]

end Text

namespace Line

/-- What is not shown of a line is the carriage return at its end. -/
theorem shown_append_lone (line : Line) : line.shown ++ Text.lone line.chars = line.chars := by
  unfold shown Text.lone
  split
  · rename_i hlast
    exact List.dropLast_append_getLast? '\r' hlast
  · exact List.append_nil _

/-- **Behind the last line stands the carriage return at the end of the text**, and nothing if there
is none. -/
theorem ends_place_iff (start : Nat) (last : List Char) {parts : List (List Char)}
    (hparts : parts ≠ []) :
    Text.Ends ((place start parts).map shown) last (['\n'].intercalate parts) ↔
      last = Text.lone (['\n'].intercalate parts) := by
  induction parts generalizing start with
  | nil => exact absurd rfl hparts
  | cons chars parts ih =>
    have hchars := shown_append_lone ⟨start, chars⟩
    rw [place, List.map_cons]
    by_cases hrest : parts = []
    · subst hrest
      rw [place, List.map_nil, Text.ends_singleton_iff, List.intercalate_singleton]
      constructor
      · intro h
        exact List.append_cancel_left (h.trans hchars.symm)
      · rintro rfl
        exact hchars
    · obtain ⟨chars', parts', rfl⟩ := List.exists_cons_of_ne_nil hrest
      have hwhole : ['\n'].intercalate (chars :: chars' :: parts') =
          shown ⟨start, chars⟩ ++
            (Text.lone chars ++ '\n' :: ['\n'].intercalate (chars' :: parts')) := by
        rw [List.intercalate_cons_of_ne_nil hrest, ← List.append_assoc, hchars, List.append_assoc]
        rfl
      have hlines : ∀ next, (place next (chars' :: parts')).map shown ≠ [] :=
        fun _ => List.cons_ne_nil _ _
      rw [hwhole, Text.ends_cons_iff (hlines _), ih _ hrest, ← List.append_assoc,
        Text.lone_append_feed]

end Line

namespace Source

/-- The text of a source is its shown lines, behind each of them but the last a line feed or a
carriage return and a line feed, and behind the last one `last`. -/
def Assembled (s : Source) (last : List Char) : Prop :=
  ∃ shown : List (List Char),
    (∀ i, (s.shownLine i).toOption = (shown[i]?).map String.ofList) ∧
      Text.Ends shown last s.text.toList

variable {name : String} {s : Source}

/-- The lines of a source as they are shown, all of them. -/
theorem toOption_shownLine (s : Source) (i : Nat) :
    (s.shownLine i).toOption = ((s.lines.map Line.shown)[i]?).map String.ofList := by
  rw [List.getElem?_map, Option.map_map]
  cases hline : s.lines[i]? with
  | some line =>
    rw [shownLine_eq_of_getElem? hline]
    rfl
  | none =>
    rw [shownLine_eq_of_le (List.getElem?_eq_none_iff.mp hline)]
    rfl

theorem assembled_iff_ends {last : List Char} :
    s.Assembled last ↔ Text.Ends (s.lines.map Line.shown) last s.text.toList := by
  constructor
  · rintro ⟨shown, hshown, hends⟩
    obtain rfl : shown = s.lines.map Line.shown := by
      refine List.ext_getElem? fun i => ?_
      have hinjective : Function.Injective String.ofList := fun _ _ => String.ofList_injective
      exact Option.map_injective hinjective ((hshown i).symm.trans (s.toOption_shownLine i))
    exact hends
  · exact fun hends => ⟨_, s.toOption_shownLine, hends⟩

theorem assembled_ofText_iff {text : String} {last : List Char} :
    (ofText name text).Assembled last ↔ last = Text.lone text.toList := by
  have hplace := Line.ends_place_iff 0 last (List.splitOn_ne_nil '\n' text.toList)
  rw [List.intercalate_splitOn] at hplace
  exact assembled_iff_ends.trans hplace

/-- **The shown lines lack what ends them, and a carriage return at the very end of the text.** The
text of a source is its shown lines with a line feed, or a carriage return and a line feed, behind
each of them but the last; and behind the last one stands a carriage return exactly if the text ends
with one. So the shown lines are the text without the ends of its lines, and lack nothing else,
exactly if it does not. -/
theorem Reachable.assembled_iff (h : Reachable name s) :
    (∀ last, s.Assembled last ↔ last = Text.lone s.text.toList) ∧
      (s.Assembled [] ↔ s.text.toList.getLast? ≠ some '\r') := by
  obtain ⟨text, rfl⟩ : ∃ text, s = ofText name text := ⟨_, h.eq_ofText⟩
  refine ⟨fun last => assembled_ofText_iff, ?_⟩
  rw [assembled_ofText_iff, text_ofText, Text.lone]
  split
  · rename_i hlast
    simp [hlast]
  · rename_i hlast
    simp [hlast]

/-- Empty lines, a line that ends with two carriage returns, and a carriage return at the end. -/
theorem assembled_iff_of_carriageReturns :
    let s := ofText "repl" "\n\r\né\r\r\nb\r"
    Reachable "repl" s ∧ s.Assembled ['\r'] ∧
      (∀ last, s.Assembled last ↔ last = Text.lone s.text.toList) ∧
      (s.Assembled [] ↔ s.text.toList.getLast? ≠ some '\r') := by
  intro s
  have hreachable : Reachable "repl" s := .load _
  have hiff := hreachable.assembled_iff
  exact ⟨hreachable, (hiff.1 _).mpr (by decide +kernel), hiff⟩

/-- Of a carriage return at the end of a text the shown lines do not tell, although it is no part of
an end of a line. -/
theorem not_assembled_of_loneReturn :
    let s := ofText "t" "a\r"
    Reachable "t" s ∧ s.shownLine 0 = .ok "a" ∧ ¬s.Assembled [] := by
  intro s
  refine ⟨.load _, by decide +kernel, fun h => ?_⟩
  rw [assembled_ofText_iff] at h
  cases h

end Source

end ExprReader
