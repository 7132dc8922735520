import ExprReader.Proofs.Token.LineFeed

/-!
# Tokens written out again

The tokens of a scan can be written out, one on a line, each by its spelling and a string in its
quotes. Every token is known again from its spelling alone, whatever stood around it before, so the
text that is written has no faults and the same tokens, and written out again it is the same text.

## Main definitions

* `Token.written t`: a token as it stands in a text
* `Token.onLines tokens`: tokens, one on a line
* `Token.relocated tokens`: the tokens with the offsets at which they are written so
* `Scan.normalForm s`: the tokens of a scan written out

## Main results

* `Tokenizes.belongs_written`: what a token is written as belongs to its class
* `tokenizes_onLines`: tokens that are written out are found where they are written
* `ofText_normalForm`: scanning a text that is written out gives the tokens back
-/

namespace ExprReader

namespace Token

/-- What stands on either side of the spelling: a quote if the token is a string. -/
def quotes (t : Token) : List Char := if t.kind = .string then ['"'] else []

/-- A token as it stands in a text. -/
def written (t : Token) : List Char := t.quotes ++ t.lexeme.toList ++ t.quotes

/-- Tokens one after the other, with a line feed between each two of them. -/
def onLines (tokens : List Token) : List Char := ['\n'].intercalate (tokens.map written)

/-- The byte offset at which the line of a token begins: behind the lines of those before it. -/
def lineStart (tokens : List Token) (index : Nat) : Nat :=
  Text.byteLength ((tokens.take index).flatMap fun t => t.written ++ ['\n'])

/-- The tokens with the offsets at which their spellings are written. -/
def relocated (tokens : List Token) : List Token :=
  tokens.mapIdx fun index t =>
    { t with offset := lineStart tokens index + Text.byteLength t.quotes }

variable {offset : Nat} {c : Char} {text spelling : List Char} {kind : Kind} {t : Token}
  {tokens : List Token} {diagnostics : List Diagnostic}

theorem written_of_ne_string (hkind : t.kind ≠ .string) : t.written = t.lexeme.toList := by
  simp [written, quotes, hkind]

theorem written_of_string (hkind : t.kind = .string) :
    t.written = '"' :: t.lexeme.toList ++ ['"'] := by
  simp [written, quotes, hkind]

@[simp] theorem relocated_nil : relocated [] = [] := rfl

/-- Behind the line of a token the others are written as they are by themselves. -/
theorem relocated_cons (t : Token) (rest : List Token) :
    relocated (t :: rest) = { t with offset := Text.byteLength t.quotes } ::
      (relocated rest).map (Token.shift (Text.byteLength t.written + 1)) := by
  have hfeed : '\n'.utf8Size = 1 := rfl
  rw [relocated, List.mapIdx_cons]
  congr 1
  · simp [lineStart]
  · ext1 index
    cases hu : rest[index]? with
    | none => simp [relocated, hu]
    | some u =>
      simp [relocated, hu, Token.shift, lineStart, hfeed]
      omega

/-- Where a token is written does not change how. -/
theorem onLines_relocated (tokens : List Token) : onLines (relocated tokens) = onLines tokens := by
  have hwritten : (relocated tokens).map written = tokens.map written := by
    ext1 index
    cases htoken : tokens[index]? <;> simp [relocated, htoken, written, quotes]
  rw [onLines, hwritten, onLines]

theorem kind_ne_eof_of_mem_relocated (h : ∀ t ∈ tokens, t.kind ≠ .eof) :
    ∀ t ∈ relocated tokens, t.kind ≠ .eof := by
  intro t ht
  obtain ⟨index, hindex, rfl⟩ := List.mem_mapIdx.mp ht
  exact h tokens[index] (List.getElem_mem hindex)

/-! ## A token by itself -/

/-- No spelling begins with a blank. -/
theorem Belongs.notMem_blanks (h : Belongs kind (c :: text)) : c ∉ blanks := by
  intro hblank
  obtain ⟨kind', hkind, -⟩ := h.covers (List.append_nil (c :: text))
  rw [Item.first_of_isBlank (isBlank_iff.mpr hblank)] at hkind
  cases hkind

/-- **A spelling by itself is its own longest match.** -/
theorem Belongs.longest (h : Belongs kind spelling) : Longest spelling kind spelling [] where
  belongs := h
  append := List.append_nil spelling
  longest kind' spelling' rest' _ heq := by
    rw [← heq, List.length_append]
    exact Nat.le_add_right _ _

/-- What a token is written as belongs to its class. -/
theorem Tokenizes.belongs_written (h : Tokenizes offset text tokens diagnostics) :
    ∀ t ∈ tokens, t.kind ≠ .eof → Belongs t.kind t.written := by
  have heof : ∀ {offset : Nat}, ∀ t ∈ [(⟨.eof, "", offset⟩ : Token)], t.kind ≠ .eof →
      Belongs t.kind t.written := by
    intro offset t ht hkind
    obtain rfl := List.mem_singleton.mp ht
    exact absurd rfl hkind
  induction h with
  | done => exact heof
  | blank _ _ ih => exact ih
  | @plain offset text spelling rest kind _ _ _ hkind hlongest _ ih =>
    rw [List.forall_mem_cons]
    refine ⟨fun _ => ?_, ih⟩
    rw [written_of_ne_string hkind, String.toList_ofList]
    exact hlongest.belongs
  | string _ hlongest _ ih =>
    rw [List.forall_mem_cons]
    refine ⟨fun _ => ?_, ih⟩
    rw [written_of_string rfl, String.toList_ofList]
    exact hlongest.belongs
  | unterminated _ => exact heof
  | stray _ _ _ _ ih => exact ih

/-- **A token is known again from what it is written as**, with nothing around it. -/
theorem tokenizes_written (h : Belongs t.kind t.written) :
    Tokenizes 0 t.written
      [{ t with offset := Text.byteLength t.quotes },
        ⟨.eof, "", Text.byteLength t.written⟩] [] := by
  have hblank : ∀ c ∈ t.written.head?, c ∉ blanks := by
    intro c hc
    obtain ⟨rest, hrest⟩ := List.head?_eq_some_iff.mp hc
    exact Belongs.notMem_blanks (hrest ▸ h)
  have hend : Tokenizes (0 + Text.byteLength t.written) []
      [⟨.eof, "", Text.byteLength t.written⟩] [] := by
    rw [Nat.zero_add]
    exact .done
  by_cases hkind : t.kind = .string
  · -- the spelling stands behind a quote
    have hquotes : t.quotes = ['"'] := if_pos hkind
    have hlongest := h.longest
    rw [hkind, written_of_string hkind] at hlongest
    rw [written_of_string hkind] at hend hblank ⊢
    have hstring := Tokenizes.string hblank hlongest hend
    rw [String.ofList_toList, ← hkind] at hstring
    rwa [hquotes]
  · have hquotes : t.quotes = [] := if_neg hkind
    have hplain := Tokenizes.plain hblank hkind h.longest hend
    rw [written_of_ne_string hkind, String.ofList_toList] at hplain
    rwa [hquotes, written_of_ne_string hkind]

/-! ## Tokens on lines -/

/-- **Tokens that are written out are found where they are written.** -/
theorem tokenizes_onLines (h : ∀ t ∈ tokens, Belongs t.kind t.written) :
    Tokenizes 0 (onLines tokens)
      (relocated tokens ++ [⟨.eof, "", Text.byteLength (onLines tokens)⟩]) [] := by
  induction tokens with
  | nil => exact .done
  | cons t rest ih =>
    rw [List.forall_mem_cons] at h
    have hfirst := tokenizes_written h.1
    by_cases hrest : rest = []
    · subst hrest
      simpa [relocated_cons, onLines] using hfirst
    · have hlines : onLines (t :: rest) = t.written ++ '\n' :: onLines rest := by
        rw [onLines, List.map_cons, List.intercalate_cons_of_ne_nil (by simpa using hrest)]
        simp [onLines]
      -- the other tokens are found behind the line feed, as far on as they stand there
      have hnext := (ih h.2).shift (Text.byteLength t.written + 1)
      have hall := hfirst.append_feed nofun (by rwa [← Nat.add_assoc] at hnext)
      rw [relocated_cons, hlines]
      have hkind := h.1.kind_ne_eof
      have hlength : Text.byteLength (t.written ++ '\n' :: onLines rest) =
          Text.byteLength (onLines rest) + (Text.byteLength t.written + 1) := by
        have hfeed : '\n'.utf8Size = 1 := rfl
        rw [Text.byteLength_append, Text.byteLength_cons, hfeed]
        omega
      simpa [isEof, hkind, Token.shift, hlength] using hall

end Token

namespace Scan

/-- The tokens of a scan written out, one on a line; the mark of the end is not written. -/
def normalForm (s : Scan) : String := String.ofList (Token.onLines s.content)

theorem belongs_written_of_mem (text : String) :
    ∀ t ∈ (ofText text).content, Token.Belongs t.kind t.written := by
  intro t ht
  obtain ⟨hmem, heof⟩ := List.mem_filter.mp ht
  refine (Token.tokenizes_place 0 text.toList).belongs_written t hmem ?_
  simpa [Token.isEof] using heof

/-- The spelling of a number token belongs to the class of the numbers. -/
theorem belongs_number_of_mem {text : String} {t : Token} (ht : t ∈ (ofText text).tokens)
    (hkind : t.kind = .number) : Token.Belongs .number t.lexeme.toList := by
  have hcontent : t ∈ (ofText text).content :=
    List.mem_filter.mpr ⟨ht, by simp [Token.isEof, hkind]⟩
  have hbelongs := belongs_written_of_mem text t hcontent
  rwa [Token.written_of_ne_string (by simp [hkind]), hkind] at hbelongs

/-- **Writing tokens out and scanning them again is the identity**: the tokens of the text that is
written are those of the scan, each where its spelling is written, and the mark of the end; there
are no faults. Written out again they are the same text, and each of them is known again by
itself. -/
theorem ofText_normalForm (text : String) :
    (ofText (ofText text).normalForm).tokens =
        Token.relocated (ofText text).content ++
          [⟨.eof, "", (ofText text).normalForm.utf8ByteSize⟩] ∧
      (ofText (ofText text).normalForm).diagnostics = [] ∧
      (ofText (ofText text).normalForm).normalForm = (ofText text).normalForm ∧
      ∀ t ∈ (ofText text).content, ofText (String.ofList t.written) =
        ⟨[{ t with offset := Text.byteLength t.quotes },
          ⟨.eof, "", Text.byteLength t.written⟩], []⟩ := by
  have hbelongs := belongs_written_of_mem text
  have hplace := (Token.tokenizes_onLines hbelongs).eq_place
  have hnormal : (ofText text).normalForm.toList = Token.onLines (ofText text).content :=
    String.toList_ofList
  have hscan : ofText (ofText text).normalForm =
      ⟨Token.relocated (ofText text).content ++
        [⟨.eof, "", (ofText text).normalForm.utf8ByteSize⟩], []⟩ := by
    rw [ofText, hnormal, hplace, Text.utf8ByteSize_eq, hnormal]
  refine ⟨?_, ?_, ?_, ?_⟩
  · rw [hscan]
  · rw [hscan]
  · have heof := Token.kind_ne_eof_of_mem_relocated fun t ht => (hbelongs t ht).kind_ne_eof
    have hcontent : (ofText (ofText text).normalForm).content =
        Token.relocated (ofText text).content := by
      rw [hscan, content, List.filter_append, List.filter_eq_self.mpr]
      · simp [Token.isEof]
      · intro t ht
        simpa [Token.isEof] using heof t ht
    rw [normalForm, hcontent, Token.onLines_relocated]
    rfl
  · intro t ht
    have hwritten := (Token.tokenizes_written (hbelongs t ht)).eq_place
    rw [ofText, String.toList_ofList, hwritten]

/-- Tokens that touch each other, and a string with a line feed, stand on lines of their own. -/
theorem ofText_normalForm_of_touching :
    let scan := ofText "1.5.2<==\"a\nb\"é x//y"
    scan.normalForm = "1.5\n.\n2\n<=\n=\n\"a\nb\"\nx\n//y" ∧
      (ofText scan.normalForm).tokens =
        Token.relocated scan.content ++ [⟨.eof, "", scan.normalForm.utf8ByteSize⟩] ∧
      (ofText scan.normalForm).diagnostics = [] ∧
      (ofText scan.normalForm).normalForm = scan.normalForm ∧
      ∀ t ∈ scan.content, ofText (String.ofList t.written) =
        ⟨[{ t with offset := Text.byteLength t.quotes },
          ⟨.eof, "", Text.byteLength t.written⟩], []⟩ := by
  intro scan
  exact ⟨by decide +kernel, ofText_normalForm _⟩

end Scan

end ExprReader
