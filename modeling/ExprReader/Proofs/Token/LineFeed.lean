import ExprReader.Proofs.Token.Tiling

/-!
# Scanning from line to line

A line feed that stands in no string keeps what stands before it apart from what stands behind it:
no class of tokens but that of strings has a spelling with a line feed in it, and no match looks
further. So two texts with a line feed between them fall into what each of them falls into by
itself, as long as the first one leaves no string open.

## Main results

* `Belongs.before_feed`: a match before a line feed ends there, or it is a string around it
* `Tokenizes.append_feed`: what a text falls into with a line feed and another text behind it
* `Tokenizes.shift`: a text falls into the same at any other offset
* `ofText_append_feed`: the scan of two texts with a line feed between them
-/

namespace ExprReader

namespace Token

variable {offset : Nat} {text spelling rest after more : List Char} {kind : Kind}
  {tokens next : List Token} {diagnostics found : List Diagnostic}

/-! ## Matches at a line feed -/

/-- Only strings have line feeds in them, and no string has a quote within it. -/
theorem Belongs.string_of_feed (h : Belongs kind spelling) (hfeed : '\n' ∈ spelling) :
    ∃ run, spelling = '"' :: run ++ ['"'] ∧ '"' ∉ run := by
  have hmarks : ∀ e ∈ marks, '\n' ∉ e.1.toList := by decide +kernel
  -- the letters, digits and underscores that a word or number is made of are no line feeds
  have hdigits : ∀ {ds : List Char}, (∀ d ∈ ds, d.isDigit = true) → '\n' ∉ ds := fun hds hmem =>
    Bool.false_ne_true (hds '\n' hmem)
  have hword : ∀ {c : Char} {run : List Char}, (c.isAlpha = true ∨ c = '_') →
      (∀ d ∈ run, d.isAlphanum = true ∨ d = '_') → '\n' ∉ c :: run := by
    rintro c run hc hrun hmem
    rcases List.mem_cons.mp hmem with rfl | hmem
    · exact absurd hc (by decide)
    · exact absurd (hrun '\n' hmem) (by decide)
  cases h with
  | mark hmem => exact absurd hfeed (hmarks _ hmem)
  | @comment run hrun =>
    have hmem : '\n' ∈ run := by simpa using hfeed
    exact absurd rfl (hrun _ hmem)
  | @string run hrun => exact ⟨run, rfl, fun hmem => hrun _ hmem rfl⟩
  | whole _ hall => exact absurd hfeed (hdigits hall)
  | @decimal digits decimals _ hall _ hall' =>
    have hmem : '\n' ∈ digits ∨ '\n' ∈ decimals := by simpa using hfeed
    exact absurd hmem (not_or.mpr ⟨hdigits hall, hdigits hall'⟩)
  | reserved hc hrun _ => exact absurd hfeed (hword hc hrun)
  | identifier hc hrun _ => exact absurd hfeed (hword hc hrun)

/-- **A match before a line feed ends there**, or it is a string around the line feed. -/
theorem Belongs.before_feed (h : Belongs kind spelling)
    (heq : spelling ++ rest = text ++ '\n' :: more) :
    (∃ after, spelling ++ after = text) ∨
      ∃ run tail, '"' ∉ run ∧ '"' :: run = text ++ '\n' :: tail := by
  rcases List.append_eq_append_iff.mp heq with ⟨between, hshort, -⟩ | ⟨beyond, hlong, hmore⟩
  · exact .inl ⟨between, hshort.symm⟩
  · cases beyond with
    | nil => exact .inl ⟨[], by simpa using hlong⟩
    | cons c beyond =>
      right
      obtain ⟨rfl, -⟩ := List.cons.inj hmore
      obtain ⟨run, hrun, hquote⟩ := h.string_of_feed (by simp [hlong])
      -- the last character of the string is its quote, so the line feed is not the last one
      have hlast := congrArg List.getLast? (hrun.symm.trans hlong)
      have hbeyond : beyond ≠ [] := by
        rintro rfl
        rw [List.getLast?_concat, List.getLast?_concat] at hlast
        exact absurd hlast (by decide)
      have hfront := congrArg List.dropLast (hrun.symm.trans hlong)
      rw [List.dropLast_concat, List.dropLast_append_of_ne_nil (List.cons_ne_nil _ _),
        List.dropLast_cons_of_ne_nil hbeyond] at hfront
      exact ⟨run, _, hquote, hfront⟩

/-- What begins with a quote and has a match is a string. -/
theorem Longest.mem_of_quote (h : Longest ('"' :: rest) kind spelling after) : '"' ∈ rest := by
  obtain ⟨hkind, hchars, hafter⟩ := longest_iff.mp h
  have happend := Item.quotedString_chars rest
  rw [Item.first_quote] at hkind
  unfold Item.quotedString at hkind happend
  split at hkind
  · rename_i content quote tail hcut
    simp only [hcut, Item.chars, List.cons_append, List.cons.injEq, true_and] at happend
    simp [← happend]
  · simp [Item.kind?] at hkind

/-- **The longest match is the same** where a line feed comes behind the text. -/
theorem Longest.append_feed (h : Longest text kind spelling after) (more : List Char) :
    Longest (text ++ '\n' :: more) kind spelling (after ++ '\n' :: more) where
  belongs := h.belongs
  append := by rw [← List.append_assoc, h.append]
  longest kind' spelling' rest' hbelongs heq := by
    rcases hbelongs.before_feed heq with ⟨after', hshort⟩ | ⟨run, tail, hquote, hlong⟩
    · exact h.longest kind' spelling' after' hbelongs hshort
    · -- the text begins with a quote, so the match is a string that has ended before
      obtain ⟨c, text, rfl⟩ := List.exists_cons_of_ne_nil h.ne_nil
      obtain ⟨rfl, rfl⟩ := List.cons.inj hlong
      exact absurd (List.mem_append_left _ h.mem_of_quote) hquote

/-- Nothing but a string can match for the sake of what comes behind a line feed. -/
theorem NoMatch.append_feed {c : Char} (h : NoMatch (c :: text)) (hquote : c ≠ '"')
    (more : List Char) : NoMatch (c :: text ++ '\n' :: more) := by
  intro kind spelling rest hbelongs heq
  rcases hbelongs.before_feed heq with ⟨after, hshort⟩ | ⟨run, tail, -, hlong⟩
  · exact h kind spelling after hbelongs hshort
  · exact hquote (List.cons.inj hlong).1.symm

/-! ## What two texts fall into -/

/-- **What a text falls into goes on behind a line feed**, if no string is open there: the mark of
its end gives way to what the text behind the line feed falls into. -/
theorem Tokenizes.append_feed (h : Tokenizes offset text tokens diagnostics)
    (hopen : ∀ d ∈ diagnostics, d.body ≠ .fault .openString)
    (hnext : Tokenizes (offset + Text.byteLength text + 1) more next found) :
    Tokenizes offset (text ++ '\n' :: more) (tokens.filter (fun t => !t.isEof) ++ next)
      (diagnostics ++ found) := by
  have hhead : ∀ {text : List Char}, text ≠ [] → (∀ c ∈ text.head?, c ∉ blanks) →
      ∀ c ∈ (text ++ '\n' :: more).head?, c ∉ blanks := by
    intro text hne hblank
    rwa [List.head?_append, Option.or_of_isSome (List.isSome_head?.mpr hne)]
  have htoken : ∀ {t : Token} {tokens : List Token}, t.kind ≠ .eof →
      (t :: tokens).filter (fun t => !t.isEof) = t :: tokens.filter (fun t => !t.isEof) := by
    intro t tokens hkind
    simp [isEof, hkind]
  induction h with
  | done => exact .blank (by simp [blanks]) hnext
  | @blank offset c rest _ _ hblank _ ih =>
    have hsize := utf8Size_of_mem_blanks hblank
    refine .blank hblank (ih hopen ?_)
    rwa [Text.byteLength_cons, hsize, ← Nat.add_assoc] at hnext
  | @plain offset text spelling rest kind _ _ hblank hkind hlongest _ ih =>
    rw [htoken hlongest.belongs.kind_ne_eof]
    refine .plain (hhead hlongest.ne_nil hblank) hkind (hlongest.append_feed more) (ih hopen ?_)
    rwa [← hlongest.append, Text.byteLength_append, ← Nat.add_assoc] at hnext
  | @string offset text content rest _ _ hblank hlongest _ ih =>
    rw [htoken (show Kind.string ≠ .eof by decide)]
    refine .string (hhead hlongest.ne_nil hblank) (hlongest.append_feed more) (ih hopen ?_)
    rwa [← hlongest.append, Text.byteLength_append, ← Nat.add_assoc] at hnext
  | unterminated _ => exact absurd rfl (hopen _ (List.mem_singleton.mpr rfl))
  | @stray offset c rest _ _ hblank hquote hnone _ ih =>
    rw [List.forall_mem_cons] at hopen
    refine .stray hblank hquote (hnone.append_feed hquote more) (ih hopen.2 ?_)
    rwa [Text.byteLength_cons, ← Nat.add_assoc] at hnext

/-- A text falls into the same at any other offset. -/
theorem Tokenizes.shift (h : Tokenizes offset text tokens diagnostics) (n : Nat) :
    Tokenizes (offset + n) text (tokens.map (Token.shift n))
      (diagnostics.map (Diagnostic.shift n)) := by
  induction h with
  | done => exact .done
  | blank hblank _ ih => exact .blank hblank (by rwa [Nat.add_right_comm])
  | plain hblank hkind hlongest _ ih =>
    exact .plain hblank hkind hlongest (by rwa [Nat.add_right_comm])
  | @string offset text content rest _ _ hblank hlongest _ ih =>
    have hnext := Tokenizes.string hblank hlongest (by rwa [Nat.add_right_comm])
    rwa [Nat.add_right_comm] at hnext
  | @unterminated offset rest hnone =>
    have hnext := @Tokenizes.unterminated (offset + n) rest hnone
    rwa [Nat.add_right_comm] at hnext
  | @stray offset c rest _ _ hblank hquote hnone _ ih =>
    have hnext := Tokenizes.stray hblank hquote hnone (by rwa [Nat.add_right_comm])
    rwa [Nat.add_right_comm] at hnext

end Token

namespace Scan

/-- The tokens of a scan without the mark of the end. -/
def content (s : Scan) : List Token := s.tokens.filter fun t => !t.isEof

/-- **A line feed outside strings keeps texts apart**: if the first text leaves no string open, then
its tokens, without the mark of its end, and its faults come first, and those of the second text
come behind them, as far on as the second text begins. -/
theorem ofText_append_feed (front back : String)
    (hopen : ∀ d ∈ (ofText front).diagnostics, d.body ≠ .fault .openString) :
    let begin := front.utf8ByteSize + 1
    (ofText (front ++ "\n" ++ back)).tokens =
        (ofText front).content ++ (ofText back).tokens.map (Token.shift begin) ∧
      (ofText (front ++ "\n" ++ back)).diagnostics =
        (ofText front).diagnostics ++ (ofText back).diagnostics.map (Diagnostic.shift begin) := by
  intro begin
  have hfront := Token.tokenizes_place 0 front.toList
  have hback := (Token.tokenizes_place 0 back.toList).shift begin
  have hbegin : 0 + begin = 0 + Text.byteLength front.toList + 1 := by
    rw [← Text.utf8ByteSize_eq, Nat.zero_add, Nat.zero_add]
  rw [hbegin] at hback
  have hplace := (hfront.append_feed hopen hback).eq_place
  have htext : (front ++ "\n" ++ back).toList = front.toList ++ '\n' :: back.toList := by simp
  rw [ofText, htext, hplace]
  exact ⟨rfl, rfl⟩

/-- A quote in a comment opens nothing, and a point at the end of a line is no part of a number,
whatever the next line begins with. -/
theorem ofText_append_feed_of_point :
    let front := "é // \"\n1."
    let back := "5 \"a\" @\""
    let begin := front.utf8ByteSize + 1
    (∀ d ∈ (ofText front).diagnostics, d.body ≠ .fault .openString) ∧
      (ofText (front ++ "\n" ++ back)).tokens =
        (ofText front).content ++ (ofText back).tokens.map (Token.shift begin) ∧
      (ofText (front ++ "\n" ++ back)).diagnostics =
        (ofText front).diagnostics ++ (ofText back).diagnostics.map (Diagnostic.shift begin) := by
  intro front back begin
  have hopen : ∀ d ∈ (ofText front).diagnostics, d.body ≠ .fault .openString := by decide +kernel
  exact ⟨hopen, ofText_append_feed front back hopen⟩

end Scan

end ExprReader
