import ExprReader.Proofs.Source.Index

/-!
# Looking up lines

A byte offset belongs to the line that is told by the line feeds before it, and that is the only
line that begins at or before the offset while the next one does not. What is shown of a line is the
text from where the line begins up to the next line feed, or to the end where none follows, without
a carriage return at its end.

## Main definitions

* `Source.Holds s index offset`: the line of an index holds an offset
* `Source.Finds s offset index`: the index is that of the line of an offset
* `Source.Stretch s index start stop chars`: the line of an index as the text has it
* `Source.ShownAs s index shown`: the line of an index without what ends it

## Main results

* `length_takeWhile_eq_succ_iff`: how far increasing numbers stay at or below a bound
* `Line.exists_remainsAt_of_mem_place`: a line goes up to the next line feed
* `Source.Indexed.lineIndex_eq_count`: the line of an offset is told by the line feeds before it
* `Source.Reachable.lookup`: looking up offsets and lines agrees with the text
-/

namespace ExprReader

/-! ## Increasing numbers up to a bound -/

section Increasing

variable {starts : List Nat} {n i : Nat}

/-- Increasing numbers stay at or below a bound up to the only place where this holds of the number
there and not of the next one. -/
theorem length_takeWhile_eq_succ_iff (h : starts.Pairwise (· < ·)) :
    (starts.takeWhile fun m => decide (m ≤ n)).length = i + 1 ↔
      ∃ m, starts[i]? = some m ∧ m ≤ n ∧ ∀ next, starts[i + 1]? = some next → n < next := by
  induction starts generalizing i with
  | nil => simp
  | cons m starts ih =>
    rw [List.pairwise_cons] at h
    obtain ⟨hlt, hrest⟩ := h
    by_cases hm : m ≤ n
    · rw [List.takeWhile_cons, if_pos (decide_eq_true hm), List.length_cons, Nat.succ_inj]
      cases i with
      | zero =>
        cases starts with
        | nil => simp [hm]
        | cons next starts => simp [hm, List.takeWhile_cons]
      | succ i => rw [ih hrest, List.getElem?_cons_succ, List.getElem?_cons_succ]
    · -- none of the others is at or below the bound either
      have hnone : ∀ x ∈ m :: starts, ¬x ≤ n := by
        rw [List.forall_mem_cons]
        exact ⟨hm, fun x hx hle => hm (Nat.le_trans (Nat.le_of_lt (hlt x hx)) hle)⟩
      rw [List.takeWhile_cons, if_neg (by simpa using hm)]
      constructor
      · nofun
      · rintro ⟨x, hx, hle, -⟩
        exact absurd hle (hnone x (List.mem_of_getElem? hx))

/-- The places of a value before a bound are those in the front up to the bound. -/
theorem takeWhile_idxsOf {α : Type} [BEq α] (x : α) (xs : List α) (n : Nat) :
    (xs.idxsOf x).takeWhile (fun i => decide (i < n)) = (xs.take n).idxsOf x := by
  have hfront : ∀ i ∈ (xs.take n).idxsOf x, decide (i < n) = true := by
    intro i hi
    have hlt := List.lt_add_of_mem_idxsOf i hi
    rw [List.length_take] at hlt
    exact decide_eq_true (by omega)
  rcases Nat.le_total xs.length n with hle | hle
  · rw [List.take_of_length_le hle] at hfront ⊢
    exact List.takeWhile_eq_self_iff.mpr hfront
  · have hback : ((xs.drop n).idxsOf x n).takeWhile (fun i => decide (i < n)) = [] := by
      rw [List.takeWhile_eq_nil_iff]
      intro hne
      have hge := List.ge_of_mem_idxsOf _ (List.get_mem ((xs.drop n).idxsOf x n) ⟨0, hne⟩)
      rw [decide_eq_true_iff]
      exact Nat.not_lt.mpr hge
    have hsplit : xs.idxsOf x = (xs.take n).idxsOf x ++ (xs.drop n).idxsOf x n := by
      conv_lhs => rw [← List.take_append_drop n xs]
      rw [List.idxsOf_append, List.length_take, Nat.min_eq_left hle, Nat.zero_add]
    rw [hsplit, List.takeWhile_append_of_pos hfront, hback, List.append_nil]

end Increasing

/-! ## Where a line ends -/

namespace Line

variable {line next : Line} {start index : Nat} {cs : List Char} {text : String}

/-- **A line goes up to the next line feed**, or to the end of the text where none follows. -/
theorem exists_remainsAt_of_mem_place (h : line ∈ place start (cs.splitOn '\n')) :
    ∃ offset rest, line.start = start + offset ∧ Text.RemainsAt offset rest cs ∧
      line.chars = rest.takeWhile (· != '\n') := by
  induction hn : cs.length using Nat.strong_induction_on generalizing cs start with
  | h n ih =>
    subst hn
    have hne : ∀ {front : List Char}, '\n' ∉ front → ∀ c ∈ front, (c != '\n') = true := by
      intro front hfront c hc
      exact bne_iff_ne.mpr fun heq => hfront (heq ▸ hc)
    by_cases hfeed : '\n' ∈ cs
    · obtain ⟨front, back, rfl, hfront⟩ := List.eq_append_cons_of_mem hfeed
      rw [List.splitOn_append_cons_self_of_not_mem hfront, place, List.mem_cons] at h
      rcases h with rfl | h
      · refine ⟨0, _, rfl, Text.remainsAt_zero _, ?_⟩
        simp [List.takeWhile_append_of_pos (hne hfront)]
      · -- the line is one of those behind the first line feed
        have hlength : back.length < (front ++ '\n' :: back).length := by
          rw [List.length_append, List.length_cons]
          omega
        obtain ⟨offset, rest, hstart, ⟨skipped, rfl, rfl⟩, hchars⟩ := ih _ hlength h rfl
        have hbytes : Text.byteLength (front ++ '\n' :: skipped) =
            Text.byteLength front + 1 + Text.byteLength skipped := by
          rw [Text.byteLength_append, Text.byteLength_cons, Nat.add_assoc]
          rfl
        exact ⟨_, rest, by omega, ⟨front ++ '\n' :: skipped, by simp, rfl⟩, hchars⟩
    · rw [List.splitOn_eq_singleton hfeed, place, place, List.mem_singleton] at h
      subst h
      exact ⟨0, cs, rfl, Text.remainsAt_zero cs, (List.takeWhile_eq_self_iff.mpr (hne hfeed)).symm⟩

/-- The last line ends with the text. -/
theorem stop_of_getLast?_place {parts : List (List Char)}
    (h : (place start parts).getLast? = some line) :
    line.start + Text.byteLength line.chars =
      start + Text.byteLength (['\n'].intercalate parts) := by
  induction parts generalizing start with
  | nil => cases h
  | cons chars parts ih =>
    by_cases hparts : parts = []
    · subst hparts
      obtain rfl : ⟨start, chars⟩ = line := Option.some.inj h
      simp
    · obtain ⟨chars', parts', rfl⟩ := List.exists_cons_of_ne_nil hparts
      rw [place, place, List.getLast?_cons_cons] at h
      rw [ih h, List.intercalate_cons_of_ne_nil hparts]
      have hfeed : ('\n' : Char).utf8Size = 1 := rfl
      simp only [Text.byteLength_append, Text.byteLength_cons, Text.byteLength_nil, hfeed]
      omega

/-- A line ends one byte before the next one begins. -/
theorem stop_of_getElem?_place {parts : List (List Char)}
    (h : (place start parts)[index]? = some line)
    (hnext : (place start parts)[index + 1]? = some next) :
    line.start + Text.byteLength line.chars + 1 = next.start := by
  obtain ⟨hlt, rfl⟩ := List.getElem?_eq_some_iff.mp hnext
  obtain ⟨-, rfl⟩ := List.getElem?_eq_some_iff.mp h
  exact List.isChain_iff_getElem.mp (isChain_place start parts) index hlt

/-- What is shown of a line is all of it but a carriage return at its end. -/
theorem chars_cases (line : Line) :
    line.chars = line.shown ++ ['\r'] ∨
      line.chars = line.shown ∧ line.shown.getLast? ≠ some '\r' := by
  unfold shown
  split
  · rename_i hlast
    exact .inl (List.dropLast_append_getLast? '\r' hlast).symm
  · rename_i hlast
    exact .inr ⟨rfl, hlast⟩

end Line

namespace Source

variable {name : String} {s : Source} {offset index : Nat}

/-- The line of an index holds an offset: it begins at or before the offset, and the next line, if
there is one, begins behind it. -/
def Holds (s : Source) (index offset : Nat) : Prop :=
  ∃ start, s.lineOffsets[index]? = some start ∧ start ≤ offset ∧
    ∀ next, s.lineOffsets[index + 1]? = some next → offset < next

/-- The index is that of the line of an offset. It is the number of line feeds before the offset,
and the only line that holds the offset has it. Where a line begins at the offset, it is this one;
otherwise the offset would come into its place among those at which lines begin right behind this
one. -/
structure Finds (s : Source) (offset index : Nat) : Prop where
  eq_count : index = ((Text.encode s.text.toList).take offset).count Reader.lineFeed
  holds_iff : ∀ i, s.Holds i offset ↔ i = index
  hit : ∀ i, s.lineOffsets[i]? = some offset → i = index
  between : offset ∉ s.lineOffsets → ∀ i start, s.lineOffsets[i]? = some start →
    (start < offset ↔ i < index + 1)

/-- The line of an index as the text has it. It is the slice from where the line begins to one byte
before the next line begins, or to the end of the text, and it goes up to the next line feed if one
follows. -/
structure Stretch (s : Source) (index start stop : Nat) (chars : List Char) : Prop where
  begins : s.lineOffsets[index]? = some start
  before_next : ∀ next, s.lineOffsets[index + 1]? = some next → stop + 1 = next
  at_end : s.lineOffsets[index + 1]? = none → stop = s.size
  slice : Text.slice? start stop s.text.toList = some chars
  up_to_feed : ∃ rest, Text.RemainsAt start rest s.text.toList ∧
    chars = rest.takeWhile (· != '\n')

/-- The line of an index without what ends it: a carriage return at its end is left out, and there
is no line feed in it. -/
def ShownAs (s : Source) (index : Nat) (shown : List Char) : Prop :=
  ∃ start stop chars, s.Stretch index start stop chars ∧
    (chars = shown ++ ['\r'] ∨ chars = shown ∧ shown.getLast? ≠ some '\r') ∧ '\n' ∉ shown

/-! ## The line of an offset -/

/-- The lines that begin at or before an offset are one more than the line feeds before it. -/
theorem Indexed.length_takeWhile (h : Indexed name s) (offset : Nat) :
    (s.lineOffsets.takeWhile fun start => decide (start ≤ offset)).length =
      ((Text.encode s.text.toList).take offset).count Reader.lineFeed + 1 := by
  have hsucc : ((fun start => decide (start ≤ offset)) ∘ fun i => i + 1) =
      fun i => decide (i < offset) := rfl
  rw [h.lineOffsets_eq, List.takeWhile_cons, if_pos (decide_eq_true (Nat.zero_le _)),
    List.length_cons, List.takeWhile_map, List.length_map, hsucc, takeWhile_idxsOf,
    List.length_idxsOf]

/-- Looking up an offset counts the lines that begin at or before it. -/
theorem lineIndex_eq (s : Source) (hoffset : offset ≤ s.size) : s.lineIndex offset =
    .ok ((s.lineOffsets.takeWhile fun start => decide (start ≤ offset)).length - 1) := by
  have hmap : (s.lineOffsets.takeWhile fun start => decide (start ≤ offset)) =
      (s.lines.takeWhile fun line => decide (line.start ≤ offset)).map Line.start :=
    List.takeWhile_map
  rw [hmap, List.length_map, lineIndex, if_neg (Nat.not_lt.mpr hoffset)]

/-- **The line of an offset is told by the line feeds before it.** -/
theorem Indexed.lineIndex_eq_count (h : Indexed name s) (hoffset : offset ≤ s.size) :
    s.lineIndex offset =
      .ok (((Text.encode s.text.toList).take offset).count Reader.lineFeed) := by
  rw [s.lineIndex_eq hoffset, h.length_takeWhile, Nat.add_sub_cancel]

theorem Indexed.le_of_getElem? (h : Indexed name s) {i j start next : Nat}
    (hi : s.lineOffsets[i]? = some start) (hj : s.lineOffsets[j]? = some next) (hle : i ≤ j) :
    start ≤ next ∧ (i < j → start < next) := by
  obtain ⟨hilength, rfl⟩ := List.getElem?_eq_some_iff.mp hi
  obtain ⟨hjlength, rfl⟩ := List.getElem?_eq_some_iff.mp hj
  have hlt := List.pairwise_iff_getElem.mp h.increasing i j hilength hjlength
  rcases Nat.eq_or_lt_of_le hle with rfl | hij
  · exact ⟨Nat.le_refl _, hlt⟩
  · exact ⟨Nat.le_of_lt (hlt hij), hlt⟩

/-- **The line feeds before an offset tell its line.** -/
theorem Indexed.finds (h : Indexed name s) (offset : Nat) :
    s.Finds offset (((Text.encode s.text.toList).take offset).count Reader.lineFeed) := by
  have hlength := h.length_takeWhile offset
  generalize hindex : ((Text.encode s.text.toList).take offset).count Reader.lineFeed = index at *
  have hholds : ∀ i, s.Holds i offset ↔ i = index := by
    intro i
    rw [Holds, ← length_takeWhile_eq_succ_iff h.increasing, hlength, Nat.succ_inj, eq_comm]
  obtain ⟨start', hstart', hle, hnext⟩ := (hholds index).mpr rfl
  refine ⟨hindex.symm, hholds, fun i hi => ?_, fun hne i start hi => ?_⟩
  · -- the line that begins at the offset holds it
    refine (hholds i).mp ⟨offset, hi, Nat.le_refl _, fun next hnext => ?_⟩
    exact (h.le_of_getElem? hi hnext (Nat.le_succ i)).2 (Nat.lt_succ_self i)
  · have hne : start ≠ offset := fun heq => hne (heq ▸ List.mem_of_getElem? hi)
    constructor
    · intro hlt
      by_contra hgt
      -- then the next line begins behind the offset, and this one not before it
      obtain ⟨hilength, -⟩ := List.getElem?_eq_some_iff.mp hi
      have hnext' := List.getElem?_eq_getElem (l := s.lineOffsets) (i := index + 1) (by omega)
      have hbehind := hnext _ hnext'
      have hbefore := (h.le_of_getElem? hnext' hi (by omega)).1
      omega
    · intro hlt
      have hbefore := (h.le_of_getElem? hi hstart' (by omega)).1
      omega

/-! ## The text of a line -/

/-- A source has one line more than its text has line feeds. -/
theorem Indexed.length_lines (h : Indexed name s) :
    s.lines.length = (Text.encode s.text.toList).count Reader.lineFeed + 1 := by
  have hlength := congrArg List.length h.lineOffsets_eq
  rwa [lineOffsets, List.length_map, List.length_cons, List.length_map, List.length_idxsOf]
    at hlength

theorem stretch_ofText {text : String} {line : Line}
    (h : (ofText name text).lines[index]? = some line) :
    (ofText name text).Stretch index line.start (line.start + Text.byteLength line.chars)
      line.chars := by
  have hmem : line ∈ Line.ofText text := List.mem_of_getElem? h
  obtain ⟨offset, rest, hstart, hrest, hchars⟩ := Line.exists_remainsAt_of_mem_place hmem
  rw [Nat.zero_add] at hstart
  constructor
  case begins => rw [lineOffsets, List.getElem?_map, h, Option.map_some]
  case before_next =>
    intro next hnext
    rw [lineOffsets, List.getElem?_map, Option.map_eq_some_iff] at hnext
    obtain ⟨line', hline', rfl⟩ := hnext
    exact Line.stop_of_getElem?_place h hline'
  case at_end =>
    intro hnone
    have hlast : (Line.ofText text).getLast? = some line := by
      rw [lineOffsets, List.getElem?_map, Option.map_eq_none_iff, List.getElem?_eq_none_iff]
        at hnone
      obtain ⟨hlt, -⟩ := List.getElem?_eq_some_iff.mp h
      have hlength : (ofText name text).lines.length - 1 = index := by omega
      rw [← lines_ofText name, List.getLast?_eq_getElem?, hlength, h]
    rw [size_ofText, Line.stop_of_getLast?_place hlast, List.intercalate_splitOn, Nat.zero_add]
  case slice => exact Text.slice?_eq_some_iff.mpr ⟨Line.standsAt_of_mem_ofText hmem, rfl⟩
  case up_to_feed => exact ⟨rest, hstart ▸ hrest, hchars⟩

theorem shownAs_ofText {text : String} {line : Line}
    (h : (ofText name text).lines[index]? = some line) :
    (ofText name text).ShownAs index line.shown := by
  have hstretch := stretch_ofText h
  refine ⟨_, _, _, hstretch, line.chars_cases, fun hfeed => ?_⟩
  obtain ⟨back, hback⟩ := line.exists_shown_append
  obtain ⟨rest, -, hchars⟩ := hstretch.up_to_feed
  have hmem : '\n' ∈ rest.takeWhile (· != '\n') := by
    rw [← hchars, ← hback]
    exact List.mem_append_left back hfeed
  simpa using List.mem_takeWhile_imp hmem

theorem getElem?_of_line {line : Line} (h : s.line index = .ok line) :
    s.lines[index]? = some line := by
  unfold Source.line at h
  split at h
  · rename_i line' hget
    exact Except.ok.inj h ▸ hget
  · cases h

theorem shownLine_eq_of_getElem? {line : Line} (h : s.lines[index]? = some line) :
    s.shownLine index = .ok (String.ofList line.shown) := by
  rw [shownLine, Source.line, h]
  rfl

theorem shownLine_eq_of_le (h : s.lines.length ≤ index) :
    s.shownLine index = .error (.noLine index s.lines.length) := by
  rw [shownLine, Source.line, List.getElem?_eq_none h]
  rfl

/-- **Looking up offsets and lines agrees with the text.** An offset has a line exactly if it does
not lie behind the end of the text, and an index has one exactly if it is not greater than the
number of line feeds. The line of an offset is told by the line feeds before it, and the shown text
of a line is the stretch up to the next line feed, without a carriage return at its end. -/
theorem Reachable.lookup (h : Reachable name s) (offset index : Nat) :
    let feeds := (Text.encode s.text.toList).count Reader.lineFeed
    (s.lineIndex offset = .error (.noOffset offset s.size) ↔ s.size < offset) ∧
      (offset ≤ s.size → ∃ found, s.lineIndex offset = .ok found ∧ s.Finds offset found) ∧
      (s.shownLine index = .error (.noLine index (feeds + 1)) ↔ feeds + 1 ≤ index) ∧
      (index < feeds + 1 → ∃ shown, s.shownLine index = .ok shown ∧
        s.ShownAs index shown.toList) := by
  obtain ⟨text, rfl⟩ : ∃ text, s = ofText name text := ⟨_, h.eq_ofText⟩
  intro feeds
  have hindexed := indexed_ofText name text
  have hlength : (ofText name text).lines.length = feeds + 1 := hindexed.length_lines
  have hfound : offset ≤ (ofText name text).size → (ofText name text).lineIndex offset =
      .ok (((Text.encode text.toList).take offset).count Reader.lineFeed) :=
    hindexed.lineIndex_eq_count
  have hshown : index < feeds + 1 → ∃ shown, (ofText name text).shownLine index = .ok shown ∧
      (ofText name text).ShownAs index shown.toList := by
    intro hlt
    have hline := List.getElem?_eq_getElem (hlength ▸ hlt)
    refine ⟨_, shownLine_eq_of_getElem? hline, ?_⟩
    rw [String.toList_ofList]
    exact shownAs_ofText hline
  refine ⟨⟨fun herror => ?_, fun hlt => ?_⟩, fun hle => ?_, ⟨fun herror => ?_, fun hle => ?_⟩,
    hshown⟩
  · by_contra hle
    rw [hfound (Nat.le_of_not_lt hle)] at herror
    cases herror
  · rw [lineIndex, if_pos hlt]
  · exact ⟨_, hfound hle, hindexed.finds offset⟩
  · by_contra hlt
    obtain ⟨shown, hok, -⟩ := hshown (Nat.lt_of_not_le hlt)
    rw [hok] at herror
    cases herror
  · rw [shownLine_eq_of_le (hlength ▸ hle), hlength]

/-- The offset of a line feed, and a line that ends with two carriage returns. -/
theorem lookup_of_carriageReturns :
    let s := ofText "repl" "\r\né\r\r\nb\n"
    let feeds := (Text.encode s.text.toList).count Reader.lineFeed
    Reachable "repl" s ∧ s.lineOffsets = [0, 2, 7, 9] ∧ s.lineIndex 6 = .ok 1 ∧
      s.shownLine 1 = .ok "é\r" ∧
      (s.lineIndex 6 = .error (.noOffset 6 s.size) ↔ s.size < 6) ∧
      (6 ≤ s.size → ∃ found, s.lineIndex 6 = .ok found ∧ s.Finds 6 found) ∧
      (s.shownLine 1 = .error (.noLine 1 (feeds + 1)) ↔ feeds + 1 ≤ 1) ∧
      (1 < feeds + 1 → ∃ shown, s.shownLine 1 = .ok shown ∧ s.ShownAs 1 shown.toList) := by
  intro s feeds
  have hreachable : Reachable "repl" s := .load _
  have hoffsets : s.lineOffsets = [0, 2, 7, 9] := by decide +kernel
  have hindex : s.lineIndex 6 = .ok 1 := by decide +kernel
  have hshown : s.shownLine 1 = .ok "é\r" := by decide +kernel
  exact ⟨hreachable, hoffsets, hindex, hshown, hreachable.lookup 6 1⟩

end Source

end ExprReader
