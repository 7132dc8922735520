import ExprReader.Proofs.Token.Classes
import ExprReader.Token.Scan

/-!
# Longest match

A text falls into tokens by the longest match: at each place a blank is skipped, and otherwise the
longest beginning of what lies ahead that belongs to a class of tokens is taken. Where no class
matches, a quote is a string without an end, which ends the scan, and any other character begins
nothing. The scan of a text, which decides by the first one or two characters, is the one outcome of
this.

## Main definitions

* `Token.Longest text kind spelling rest`: the longest match at the front of a text
* `Token.Tokenizes offset text tokens diagnostics`: what a text from an offset on falls into

## Main results

* `longest_iff`: the longest match is the first item
* `ofText_eq_iff_tokenizes`: the scan of a text is what the text falls into
-/

namespace ExprReader

namespace Token

/-- The beginning of a text that belongs to a class and is not shorter than any other that does,
and what lies behind it. -/
structure Longest (text : List Char) (kind : Kind) (spelling rest : List Char) : Prop where
  belongs : Belongs kind spelling
  append : spelling ++ rest = text
  longest : ∀ kind' spelling' rest', Belongs kind' spelling' → spelling' ++ rest' = text →
    spelling'.length ≤ spelling.length

/-- No beginning of the text belongs to a class. -/
def NoMatch (text : List Char) : Prop :=
  ∀ kind spelling rest, Belongs kind spelling → spelling ++ rest ≠ text

/-- The characters between tokens. -/
def blanks : List Char := [' ', '\t', '\r', '\n']

/-- What a text that stands at a byte offset falls into by the longest match: tokens, of which the
last marks the end, and diagnostics. The token of a string leaves out its quotes. -/
inductive Tokenizes : Nat → List Char → List Token → List Diagnostic → Prop
  | done {offset : Nat} : Tokenizes offset [] [⟨.eof, "", offset⟩] []
  | blank {offset : Nat} {c : Char} {rest : List Char} {tokens : List Token}
      {diagnostics : List Diagnostic} (hblank : c ∈ blanks)
      (h : Tokenizes (offset + 1) rest tokens diagnostics) :
      Tokenizes offset (c :: rest) tokens diagnostics
  | plain {offset : Nat} {text spelling rest : List Char} {kind : Kind} {tokens : List Token}
      {diagnostics : List Diagnostic} (hblank : ∀ c ∈ text.head?, c ∉ blanks)
      (hkind : kind ≠ .string) (hlongest : Longest text kind spelling rest)
      (h : Tokenizes (offset + Text.byteLength spelling) rest tokens diagnostics) :
      Tokenizes offset text (⟨kind, String.ofList spelling, offset⟩ :: tokens) diagnostics
  | string {offset : Nat} {text content rest : List Char} {tokens : List Token}
      {diagnostics : List Diagnostic} (hblank : ∀ c ∈ text.head?, c ∉ blanks)
      (hlongest : Longest text .string ('"' :: content ++ ['"']) rest)
      (h : Tokenizes (offset + Text.byteLength ('"' :: content ++ ['"'])) rest tokens diagnostics) :
      Tokenizes offset text (⟨.string, String.ofList content, offset + 1⟩ :: tokens) diagnostics
  | unterminated {offset : Nat} {rest : List Char} (hnone : NoMatch ('"' :: rest)) :
      Tokenizes offset ('"' :: rest) [⟨.eof, "", offset + Text.byteLength ('"' :: rest)⟩]
        [.error .openString ⟨offset, offset + Text.byteLength ('"' :: rest)⟩]
  | stray {offset : Nat} {c : Char} {rest : List Char} {tokens : List Token}
      {diagnostics : List Diagnostic} (hblank : c ∉ blanks) (hquote : c ≠ '"')
      (hnone : NoMatch (c :: rest))
      (h : Tokenizes (offset + c.utf8Size) rest tokens diagnostics) :
      Tokenizes offset (c :: rest) tokens
        (.error (.strayCharacter c) ⟨offset, offset + c.utf8Size⟩ :: diagnostics)

theorem isBlank_iff {c : Char} : Item.isBlank c = true ↔ c ∈ blanks := by
  simp [Item.isBlank, blanks, or_assoc]

theorem utf8Size_of_mem_blanks {c : Char} (hc : c ∈ blanks) : c.utf8Size = 1 := by
  simp only [blanks, List.mem_cons, List.not_mem_nil, or_false] at hc
  rcases hc with rfl | rfl | rfl | rfl <;> rfl

/-! ## The first item is the longest match -/

section First

variable {c : Char} {text spelling content rest after : List Char} {kind : Kind}

/-- **The longest match is the first item.** -/
theorem longest_iff : Longest (c :: rest) kind spelling after ↔
    (Item.first c rest).1.kind? = some kind ∧ (Item.first c rest).1.chars = spelling ∧
      (Item.first c rest).2 = after := by
  have happend := Item.first_chars c rest
  constructor
  · rintro ⟨hbelongs, hsplit, hlongest⟩
    -- each of the two is a match, so neither is shorter than the other
    obtain ⟨kind', hkind, hle, hsame⟩ := hbelongs.covers hsplit
    have hge := hlongest _ _ _ (Item.belongs_first hkind) happend
    have hlength : (Item.first c rest).1.chars.length = spelling.length := by omega
    obtain ⟨hchars, hafter⟩ := List.append_inj (happend.trans hsplit.symm) hlength
    exact ⟨hsame hlength ▸ hkind, hchars, hafter⟩
  · rintro ⟨hkind, rfl, rfl⟩
    refine ⟨Item.belongs_first hkind, happend, fun kind' spelling' rest' hbelongs heq => ?_⟩
    obtain ⟨-, -, hle, -⟩ := hbelongs.covers heq
    exact hle

theorem noMatch_iff : NoMatch (c :: rest) ↔ (Item.first c rest).1.kind? = none := by
  constructor
  · intro hnone
    cases hkind : (Item.first c rest).1.kind? with
    | none => rfl
    | some kind => exact absurd (Item.first_chars c rest) (hnone _ _ _ (Item.belongs_first hkind))
  · intro hkind kind spelling after hbelongs heq
    obtain ⟨kind', hsome, -⟩ := hbelongs.covers heq
    rw [hkind] at hsome
    cases hsome

theorem Belongs.ne_nil (h : Belongs kind spelling) : spelling ≠ [] := by
  rintro rfl
  -- before a blank, the empty spelling would be a match at a place where there is none
  obtain ⟨kind', hkind, -⟩ := h.covers (show [] ++ [' '] = ' ' :: [] from rfl)
  simp [Item.first_of_isBlank, Item.isBlank, Item.kind?] at hkind

theorem Longest.ne_nil (h : Longest text kind spelling after) : text ≠ [] := by
  intro hnil
  exact h.belongs.ne_nil (List.append_eq_nil_iff.mp (h.append.trans hnil)).1

/-- Only strings are in the class of strings. -/
theorem Belongs.exists_content (h : Belongs .string spelling) :
    ∃ content, spelling = '"' :: content ++ ['"'] := by
  have hmarks : ∀ e ∈ marks, e.2 ≠ .string := by decide
  have hreserved : ∀ e ∈ Kind.reserved, e.2 ≠ .string := by decide
  cases h with
  | mark hmem => exact absurd rfl (hmarks _ hmem)
  | @string run _ => exact ⟨run, rfl⟩
  | reserved _ _ hmem => exact absurd rfl (hreserved _ hmem)

/-- A longest match that is no string is an item by its kind and spelling. -/
theorem Longest.first_plain (h : Longest (c :: rest) kind spelling after) (hkind : kind ≠ .string) :
    Item.first c rest = (.plain kind spelling, after) := by
  obtain ⟨hsome, hchars, hafter⟩ := longest_iff.mp h
  refine Prod.ext ?_ hafter
  cases hitem : (Item.first c rest).1 <;> simp_all [Item.kind?, Item.chars]

/-- A longest match that is a string is an item by what stands between its quotes. -/
theorem Longest.first_string (h : Longest (c :: rest) .string ('"' :: content ++ ['"']) after) :
    Item.first c rest = (.string content, after) := by
  obtain ⟨hsome, hchars, hafter⟩ := longest_iff.mp h
  obtain ⟨rfl, -⟩ := List.cons.inj h.append
  refine Prod.ext ?_ hafter
  rw [Item.first_quote] at hsome hchars ⊢
  unfold Item.quotedString at hsome hchars ⊢
  split at hsome <;> simp_all [Item.kind?, Item.chars]

/-- The three ways in which a text begins with no token. -/
theorem first_of_noMatch (hnone : NoMatch (c :: rest)) :
    (c ∈ blanks ∧ Item.first c rest = (.blank c, rest)) ∨
    (c = '"' ∧ Item.first c rest = (.unterminated rest, [])) ∨
    (c ∉ blanks ∧ c ≠ '"' ∧ Item.first c rest = (.unexpected c, rest)) := by
  have hkind := noMatch_iff.mp hnone
  by_cases hblank : c ∈ blanks
  · exact .inl ⟨hblank, Item.first_of_isBlank (isBlank_iff.mpr hblank) rest⟩
  right
  by_cases hquote : c = '"'
  · subst hquote
    refine .inl ⟨rfl, ?_⟩
    have hchars := Item.quotedString_chars rest
    rw [Item.first_quote] at hkind ⊢
    unfold Item.quotedString at hkind hchars ⊢
    split at hkind <;> simp_all [Item.kind?, Item.chars]
  · refine .inr ⟨hblank, hquote, ?_⟩
    have hblank' : Item.isBlank c = false := Bool.eq_false_iff.mpr (mt isBlank_iff.mp hblank)
    unfold Item.first at hkind ⊢
    simp only [hblank', hquote, if_false, Bool.false_eq_true] at hkind ⊢
    split_ifs at hkind ⊢ with hcomment hdigit hword
    · simp [Item.kind?] at hkind
    · simp [Item.number, Item.kind?] at hkind
    · simp [Item.word, Item.kind?] at hkind
    · rcases Item.operator_cases c rest with ⟨-, heq⟩ | ⟨_, _, -, -, heq⟩ | ⟨_, -, heq, -⟩
      · exact heq
      · simp [heq, Item.kind?] at hkind
      · simp [heq, Item.kind?] at hkind

end First

/-! ## The scan is what the text falls into -/

section Place

variable (offset : Nat) (rest : List Item)

theorem place_blank {c : Char} (hblank : c ∈ blanks) :
    Scan.place offset (.blank c :: rest) = Scan.place (offset + 1) rest := by
  simp [Scan.place, Item.token?, Item.diagnostic?, Item.size, Item.chars,
    utf8Size_of_mem_blanks hblank]

theorem place_plain (kind : Kind) (spelling : List Char) :
    Scan.place offset (.plain kind spelling :: rest) =
      let after := Scan.place (offset + Text.byteLength spelling) rest
      ⟨⟨kind, String.ofList spelling, offset⟩ :: after.tokens, after.diagnostics⟩ := rfl

theorem place_string (content : List Char) :
    Scan.place offset (.string content :: rest) =
      let after := Scan.place (offset + Text.byteLength ('"' :: content ++ ['"'])) rest
      ⟨⟨.string, String.ofList content, offset + 1⟩ :: after.tokens, after.diagnostics⟩ := rfl

theorem place_unterminated (content : List Char) :
    Scan.place offset [.unterminated content] =
      let next := offset + Text.byteLength ('"' :: content)
      ⟨[⟨.eof, "", next⟩], [.error .openString ⟨offset, next⟩]⟩ := rfl

theorem place_unexpected (c : Char) :
    Scan.place offset (.unexpected c :: rest) =
      let after := Scan.place (offset + c.utf8Size) rest
      ⟨after.tokens,
        .error (.strayCharacter c) ⟨offset, offset + c.utf8Size⟩ :: after.diagnostics⟩ := rfl

end Place

/-- A text falls into what its items give. -/
theorem tokenizes_place (offset : Nat) (text : List Char) :
    Tokenizes offset text (Scan.place offset (items text)).tokens
      (Scan.place offset (items text)).diagnostics := by
  fun_induction items text generalizing offset with
  | case1 => exact .done
  | case2 c rest ih =>
    -- either no class matches, or the item is the longest match
    cases hkind : (Item.first c rest).1.kind? with
    | none =>
      have hnone := noMatch_iff.mpr hkind
      rcases first_of_noMatch hnone with ⟨hblank, heq⟩ | ⟨rfl, heq⟩ | ⟨hblank, hquote, heq⟩
      · rw [heq] at ih ⊢
        rw [place_blank offset _ hblank]
        exact .blank hblank (ih _)
      · rw [heq, items_nil, place_unterminated]
        exact .unterminated hnone
      · rw [heq] at ih ⊢
        rw [place_unexpected]
        exact .stray hblank hquote hnone (ih _)
    | some kind =>
      have hlongest := longest_iff.mpr ⟨hkind, rfl, rfl⟩
      have hblank : ∀ d ∈ (c :: rest).head?, d ∉ blanks := by
        intro d hd hmem
        obtain rfl : c = d := by simpa using hd
        simp [Item.first_of_isBlank (isBlank_iff.mpr hmem), Item.kind?] at hkind
      by_cases hstring : kind = .string
      · subst hstring
        obtain ⟨content, hcontent⟩ := hlongest.belongs.exists_content
        rw [hcontent] at hlongest
        rw [hlongest.first_string] at ih hlongest ⊢
        exact .string hblank hlongest (ih _)
      · rw [hlongest.first_plain hstring] at ih hlongest ⊢
        exact .plain hblank hstring hlongest (ih _)

/-- A text falls into nothing else. -/
theorem Tokenizes.eq_place {offset : Nat} {text : List Char} {tokens : List Token}
    {diagnostics : List Diagnostic} (h : Tokenizes offset text tokens diagnostics) :
    Scan.place offset (items text) = ⟨tokens, diagnostics⟩ := by
  induction h with
  | done => rw [items_nil]; rfl
  | @blank offset c rest _ _ hblank _ ih =>
    rw [items_cons, Item.first_of_isBlank (isBlank_iff.mpr hblank), place_blank _ _ hblank, ih]
  | @plain offset text spelling rest kind _ _ _ hkind hlongest _ ih =>
    obtain ⟨c, tail, rfl⟩ := List.exists_cons_of_ne_nil (hlongest.ne_nil)
    rw [items_cons, hlongest.first_plain hkind, place_plain, ih]
  | @string offset text content rest _ _ _ hlongest _ ih =>
    obtain ⟨c, tail, rfl⟩ := List.exists_cons_of_ne_nil (hlongest.ne_nil)
    rw [items_cons, hlongest.first_string, place_string, ih]
  | @unterminated offset rest hnone =>
    rcases first_of_noMatch hnone with ⟨hblank, -⟩ | ⟨-, heq⟩ | ⟨-, hquote, -⟩
    · simp [blanks] at hblank
    · -- nothing is left behind the open string
      rw [items_cons, heq, items_nil, place_unterminated]
    · exact absurd rfl hquote
  | @stray offset c rest _ _ hblank hquote hnone _ ih =>
    rcases first_of_noMatch hnone with ⟨hblank', -⟩ | ⟨hquote', -⟩ | ⟨-, -, heq⟩
    · exact absurd hblank' hblank
    · exact absurd hquote' hquote
    · rw [items_cons, heq, place_unexpected, ih]

/-- **The scan of a text is what the text falls into by the longest match**, and the only one. -/
theorem ofText_eq_iff_tokenizes (text : String) (tokens : List Token)
    (diagnostics : List Diagnostic) :
    Scan.ofText text = ⟨tokens, diagnostics⟩ ↔ Tokenizes 0 text.toList tokens diagnostics := by
  constructor
  · intro h
    have hplace := tokenizes_place 0 text.toList
    rw [← Scan.ofText, h] at hplace
    exact hplace
  · exact Tokenizes.eq_place

end Token

end ExprReader
