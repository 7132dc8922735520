import ExprReader.Token.Item

/-!
# The tokens of a text

A text is scanned into tokens and diagnostics: its items are taken one by one, each at the byte
offset at which it begins. Blanks leave nothing, tokens and faults leave one entry each, and at
the end stands the token that marks the end of the text.

## Main definitions

* `Scan`: tokens, and the faults found on the way
* `Scan.place`: the scan of items that begin at an offset
* `Scan.ofText`: the scan of a text

## Main results

* `place_append`: items are scanned the same whatever follows them
-/

namespace ExprReader

/-- The token of an item that begins at an offset. -/
def Item.token? (offset : Nat) : Item → Option Token
  | plain kind spelling => some ⟨kind, String.ofList spelling, offset⟩
  | string content => some ⟨.string, String.ofList content, offset + 1⟩
  | _ => none

/-- The fault of an item that begins at an offset. -/
def Item.diagnostic? (offset : Nat) (item : Item) : Option Diagnostic :=
  match item with
  | unterminated _ => some (.error .openString ⟨offset, offset + item.size⟩)
  | unexpected c => some (.error (.strayCharacter c) ⟨offset, offset + item.size⟩)
  | _ => none

/-- The tokens of a text, and the faults found on the way. -/
structure Scan where
  tokens : List Token
  diagnostics : List Diagnostic
  deriving DecidableEq, Repr

namespace Scan

/-- The scan of items that follow each other from an offset on. -/
def place (offset : Nat) : List Item → Scan
  | [] => ⟨[⟨.eof, "", offset⟩], []⟩
  | item :: rest =>
    let after := place (offset + item.size) rest
    ⟨(item.token? offset).toList ++ after.tokens,
      (item.diagnostic? offset).toList ++ after.diagnostics⟩

/-- The scan of a text. -/
def ofText (text : String) : Scan := place 0 (items text.toList)

theorem place_tokens_ne_nil (offset : Nat) (items : List Item) :
    (place offset items).tokens ≠ [] := by
  induction items generalizing offset with
  | nil => simp [place]
  | cons item rest ih => simp [place, ih]

/-- Items are scanned the same whatever follows them, but for the mark at the end. -/
theorem place_append (offset : Nat) (front back : List Item) :
    place offset (front ++ back) =
      let next := offset + Text.byteLength (front.flatMap Item.chars)
      ⟨(place offset front).tokens.dropLast ++ (place next back).tokens,
        (place offset front).diagnostics ++ (place next back).diagnostics⟩ := by
  induction front generalizing offset with
  | nil => simp [place]
  | cons item rest ih =>
    have hne := place_tokens_ne_nil (offset + Text.byteLength item.chars) rest
    simp [place, ih, Item.size, Nat.add_assoc, List.dropLast_append_of_ne_nil hne]

end Scan

end ExprReader
