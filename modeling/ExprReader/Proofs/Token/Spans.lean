import ExprReader.Proofs.Text.Boundary
import ExprReader.Token.Scan

/-!
# Where tokens stand

Every token of a scan stands in the text where it says it does, and every fault that scanning
reports covers whole characters.

## Main results

* `slice?_span_of_mem_tokens`: the bytes that a token takes are its spelling
* `fits_of_mem_diagnostics`: the span of a fault begins and ends between characters
-/

namespace ExprReader

theorem Token.stop_span (t : Token) :
    t.span.stop = t.span.start + Text.byteLength t.lexeme.toList := by
  rw [Token.span, Text.utf8ByteSize_eq]

namespace Scan

variable {before : List Char} {items : List Item}

/-- A token of an item stands in the item, which stands behind the text before it. -/
theorem standsAt_of_mem_token? {item : Item} {t : Token} (before after : List Char)
    (h : t ∈ item.token? (Text.byteLength before)) :
    Text.StandsAt t.offset t.lexeme.toList (before ++ (item.chars ++ after)) := by
  cases item with
  | plain kind spelling =>
    obtain rfl : ⟨kind, String.ofList spelling, _⟩ = t := by simpa [Item.token?] using h
    exact ⟨before, after, by simp [Item.chars], rfl⟩
  | string content =>
    -- the quote before it is one byte, and no part of the spelling
    obtain rfl : ⟨.string, String.ofList content, _⟩ = t := by simpa [Item.token?] using h
    refine ⟨before ++ ['"'], '"' :: after, by simp [Item.chars], ?_⟩
    rw [Text.byteLength_append]
    rfl
  | blank _ => cases h
  | unterminated _ => cases h
  | unexpected _ => cases h

/-- A fault of an item covers the item. -/
theorem span_of_mem_diagnostic? {item : Item} {d : Diagnostic} {offset : Nat}
    (h : d ∈ item.diagnostic? offset) : d.span = ⟨offset, offset + item.size⟩ := by
  cases item <;> simp [Item.diagnostic?] at h <;> rw [← h] <;> rfl

/-- The tokens of items stand behind the text before the items. -/
theorem standsAt_of_mem_place (before : List Char) (items : List Item) :
    ∀ t ∈ (place (Text.byteLength before) items).tokens,
      Text.StandsAt t.offset t.lexeme.toList (before ++ items.flatMap Item.chars) := by
  -- the text before the items grows by the item that has been passed
  induction items generalizing before with
  | nil =>
    intro t ht
    obtain rfl := List.mem_singleton.mp ht
    exact ⟨before, [], by simp, rfl⟩
  | cons item rest ih =>
    intro t ht
    have hnext := ih (before ++ item.chars)
    rw [Text.byteLength_append, List.append_assoc] at hnext
    rcases List.mem_append.mp ht with ht | ht
    · exact standsAt_of_mem_token? before _ (Option.mem_toList.mp ht)
    · exact hnext t ht

/-- The faults of items cover parts of the text behind the text before the items. -/
theorem fits_of_mem_place (before : List Char) (items : List Item) :
    ∀ d ∈ (place (Text.byteLength before) items).diagnostics,
      d.span.Fits (before ++ items.flatMap Item.chars) := by
  induction items generalizing before with
  | nil =>
    intro d hd
    cases hd
  | cons item rest ih =>
    intro d hd
    have hnext := ih (before ++ item.chars)
    rw [Text.byteLength_append, List.append_assoc] at hnext
    rcases List.mem_append.mp hd with hd | hd
    · have hstands : Text.StandsAt (Text.byteLength before) item.chars
          (before ++ (item :: rest).flatMap Item.chars) :=
        ⟨before, rest.flatMap Item.chars, by simp, rfl⟩
      rw [span_of_mem_diagnostic? (Option.mem_toList.mp hd)]
      exact ⟨Nat.le_add_right _ _, hstands.isBoundary_start, hstands.isBoundary_stop⟩
    · exact hnext d hd

/-- **The bytes that a token takes are its spelling.** -/
theorem slice?_span_of_mem_tokens {text : String} {t : Token} (h : t ∈ (ofText text).tokens) :
    Text.slice? t.span.start t.span.stop text.toList = some t.lexeme.toList := by
  have hstands := standsAt_of_mem_place [] (ExprReader.items text.toList) t h
  rw [items_chars, List.nil_append] at hstands
  exact Text.slice?_eq_some_iff.mpr ⟨hstands, t.stop_span.symm⟩

/-- **A fault that scanning reports covers whole characters.** -/
theorem fits_of_mem_diagnostics {text : String} {d : Diagnostic}
    (h : d ∈ (ofText text).diagnostics) : d.span.Fits text.toList := by
  have hfits := fits_of_mem_place [] (ExprReader.items text.toList) d h
  rwa [items_chars, List.nil_append] at hfits

theorem fits_span_of_mem_tokens {text : String} {t : Token} (h : t ∈ (ofText text).tokens) :
    t.span.Fits text.toList := by
  rw [Span.fits_iff_isSome_slice?, slice?_span_of_mem_tokens h, Option.isSome_some]

end Scan

end ExprReader
