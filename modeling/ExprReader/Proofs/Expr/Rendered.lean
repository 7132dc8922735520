import ExprReader.Proofs.Expr.Layout
import ExprReader.Proofs.Expr.Recovery
import ExprReader.Proofs.Session.Verdict
import ExprReader.Proofs.Token.WrittenOut

/-!
# Trees read back

A tree that was read from a text can be read back from what is rendered of it, but for the places
of its tokens, as long as it has no string. The words of a rendered tree are spellings of tokens,
so each of them is scanned by itself and is the token again; and the blanks tell the trees apart,
since there is one before each operand, even before one that is missing and leaves nothing.

## Main definitions

* `Expr.Legible e`: the tree has no string, and its tokens are spelled as their kinds demand
* `Expr.unrender text`: reads a rendered tree from the front of a text
* `Expr.ofRendered? text`: the tree that a text renders

## Main results

* `Spells.legible`: what is read from tokens of a text is legible
* `Legible.readBack`: a legible tree is read back whatever stands behind it
* `Reading.render_eq_iff`: trees of texts are told apart by what is rendered of them
-/

namespace ExprReader

/-! ## Words of a rendered tree -/

namespace Expr

/-- The expression is a string itself. -/
def isString : Expr → Bool
  | string _ _ => true
  | _ => false

/-- A character that can stand in a word of a rendered tree. -/
def inWord (c : Char) : Bool := c != ' ' && c != '(' && c != ')'

/-- A text cut behind the word at its front, which may be empty. -/
def cutWord (text : List Char) : List Char × List Char := Item.cutWhile inWord text

/-- The token that a word spells. -/
def tokenOf? (word : List Char) : Option Token :=
  (Scan.ofText (String.ofList word)).tokens.head?

/-- The literal that a word spells; the empty word stands for a missing operand. -/
def literalOf (word : List Char) : Expr :=
  (Cursor.ofTokens (Scan.ofText (String.ofList word)).tokens).literal.expr

/-- The tree of a word and its operands: no operator is a name, so the word in front of a tree in
parentheses is known from them. -/
def built? (head : Token) : List Expr → Option Expr
  | [operand] => some (if head.kind = .identifier then grouping operand else unary head operand)
  | [left, right] => some (binary head left right)
  | _ => none

/-- What was read from the front of a text, and the text behind it. -/
structure Unrendered (α : Type) (text : List Char) where
  value : α
  after : List Char
  le : after.length ≤ text.length

theorem length_cutWord (text : List Char) : (cutWord text).2.length ≤ text.length := by
  have hlength := congrArg List.length (Item.cutWhile_append inWord text)
  rw [List.length_append] at hlength
  rw [cutWord]
  omega

mutual

/-- Reads a rendered tree from the front of a text: a word, or a word and its operands between
parentheses. -/
def unrender (text : List Char) : Option (Unrendered Expr text) :=
  match text with
  | '(' :: rest =>
    have hcut := length_cutWord rest
    match hword : cutWord rest with
    | (word, inner) =>
      have hinner : inner.length ≤ rest.length := by rwa [hword] at hcut
      (tokenOf? word).bind fun head =>
        (unrenderOperands inner).bind fun ⟨operands, after, hafter⟩ =>
          (built? head operands).map fun e =>
            ⟨e, after, Nat.le_succ_of_le (Nat.le_trans hafter hinner)⟩
  | text => some ⟨literalOf (cutWord text).1, (cutWord text).2, length_cutWord text⟩
termination_by text.length
decreasing_by exact Nat.lt_succ_of_le hinner

/-- Reads operands, each with a blank before it, up to the closing parenthesis. -/
def unrenderOperands (text : List Char) : Option (Unrendered (List Expr) text) :=
  match text with
  | ')' :: after => some ⟨[], after, Nat.le_succ _⟩
  | ' ' :: rest =>
    (unrender rest).bind fun ⟨operand, left, hleft⟩ =>
      (unrenderOperands left).bind fun ⟨operands, after, hafter⟩ =>
        some ⟨operand :: operands, after, Nat.le_succ_of_le (Nat.le_trans hafter hleft)⟩
  | _ => none
termination_by text.length
decreasing_by
  · exact Nat.lt_succ_self _
  · exact Nat.lt_succ_of_le hleft

end

/-- The tree that a text renders, if it renders one. -/
def ofRendered? (text : String) : Option Expr :=
  (unrender text.toList).bind fun read => if read.after = [] then some read.value else none

/-- The value is read from the front of the text, and the rest is behind it. -/
def ReadBack {α : Type} (read : (text : List Char) → Option (Unrendered α text))
    (text : List Char) (value : α) (rest : List Char) : Prop :=
  ∃ hle, read text = some ⟨value, rest, hle⟩

theorem ReadBack.ofRendered?_eq {text : String} {e : Expr}
    (h : ReadBack unrender text.toList e []) : ofRendered? text = some e := by
  obtain ⟨hle, hread⟩ := h
  rw [ofRendered?, hread, Option.bind_some, if_pos rfl]

section ReadBack

variable {text word inner left rest : List Char} {head : Token} {e : Expr} {operands : List Expr}

theorem cutWord_append (hword : ∀ c ∈ word, inWord c = true)
    (hrest : ∀ c ∈ rest.head?, inWord c = false) : cutWord (word ++ rest) = (word, rest) := by
  have hstop : rest.takeWhile inWord = [] ∧ rest.dropWhile inWord = rest := by
    cases rest with
    | nil => exact ⟨rfl, rfl⟩
    | cons c rest =>
      have hc : ¬inWord c = true := Bool.eq_false_iff.mp (hrest c rfl)
      exact ⟨List.takeWhile_cons_of_neg hc, List.dropWhile_cons_of_neg hc⟩
  rw [cutWord, Item.cutWhile, List.takeWhile_append_of_pos hword,
    List.dropWhile_append_of_pos hword, hstop.1, hstop.2, List.append_nil]

/-- A word without a parenthesis before it is a literal. -/
theorem readBack_literal (hword : ∀ c ∈ word, inWord c = true)
    (hrest : ∀ c ∈ rest.head?, c = ' ' ∨ c = ')') :
    ReadBack unrender (word ++ rest) (literalOf word) rest := by
  have hcut : cutWord (word ++ rest) = (word, rest) := by
    refine cutWord_append hword fun c hc => ?_
    rcases hrest c hc with rfl | rfl <;> decide
  -- the first character is one of the word, or ends it
  have hopen : ∀ text, word ++ rest = '(' :: text → False := by
    intro text htext
    cases word with
    | nil =>
      rcases hrest '(' (by rw [← List.nil_append rest, htext]; rfl) with h | h <;> cases h
    | cons c word =>
      obtain ⟨rfl, -⟩ := List.cons.inj htext
      exact absurd (hword '(' List.mem_cons_self) (by decide)
  have hle := length_cutWord (word ++ rest)
  rw [hcut] at hle
  refine ⟨hle, ?_⟩
  rw [unrender]
  · simp only [hcut]
  · exact hopen

/-- A word and its operands between parentheses. -/
theorem readBack_built (hword : ∀ c ∈ word, inWord c = true) (hhead : tokenOf? word = some head)
    (hoperands : ReadBack unrenderOperands (' ' :: inner) operands rest)
    (hbuilt : built? head operands = some e) :
    ReadBack unrender ('(' :: (word ++ ' ' :: inner)) e rest := by
  have hcut : cutWord (word ++ ' ' :: inner) = (word, ' ' :: inner) :=
    cutWord_append hword (by rintro _ ⟨⟩; rfl)
  obtain ⟨hle, hoperands⟩ := hoperands
  have hlength : rest.length ≤ ('(' :: (word ++ ' ' :: inner)).length := by
    simp only [List.length_cons, List.length_append] at hle ⊢
    omega
  refine ⟨hlength, ?_⟩
  rw [unrender]
  split
  rename_i heq
  rw [hcut] at heq
  cases heq
  simp only [hhead, hoperands, hbuilt, Option.bind_some, Option.map_some]

theorem readBack_close (rest : List Char) : ReadBack unrenderOperands (')' :: rest) [] rest := by
  refine ⟨Nat.le_succ _, ?_⟩
  rw [unrenderOperands]

/-- One operand more before those that are read behind it. -/
theorem readBack_operand (hoperand : ReadBack unrender text e left)
    (hoperands : ReadBack unrenderOperands left operands rest) :
    ReadBack unrenderOperands (' ' :: text) (e :: operands) rest := by
  obtain ⟨hle, hoperand⟩ := hoperand
  obtain ⟨hle', hoperands⟩ := hoperands
  refine ⟨Nat.le_succ_of_le (Nat.le_trans hle' hle), ?_⟩
  rw [unrenderOperands, hoperand, Option.bind_some]
  dsimp only
  rw [hoperands, Option.bind_some]

end ReadBack

end Expr

/-! ## Words and tokens -/

namespace Token

variable {kind : Kind} {spelling : List Char} {t : Token}

/-- The kinds of tokens that leave no word of their own in a legible tree. -/
def Kind.hidden : List Kind := [.string, .comment, .leftParen, .rightParen, .identifier, .eof]

/-- A token that can be a word of a legible tree, spelled as its kind demands. -/
structure IsWord (t : Token) : Prop where
  belongs : Belongs t.kind t.lexeme.toList
  kind_notMem : t.kind ∉ Kind.hidden

/-- A test that neither a blank nor a parenthesis passes is passed by characters of words only. -/
theorem inWord_of {p : Char → Bool} (hp : [' ', '(', ')'].any p = false) {c : Char}
    (hc : p c = true) : Expr.inWord c = true := by
  have hne := Item.ne_of_any_eq_false hp hc
  simp [Expr.inWord, hne]

/-- What can be a word has neither blanks nor parentheses in it. -/
theorem Belongs.inWord (h : Belongs kind spelling) (hkind : kind ∉ Kind.hidden) :
    ∀ c ∈ spelling, Expr.inWord c = true := by
  have hmarks : ∀ e ∈ marks, e.2 ∉ Kind.hidden → e.1.toList.all Expr.inWord = true := by
    decide +kernel
  have hdigits : ∀ {ds : List Char}, (∀ d ∈ ds, d.isDigit = true) →
      ∀ d ∈ ds, Expr.inWord d = true := fun hds d hd => inWord_of rfl (hds d hd)
  have hword : ∀ d : Char, d.isAlphanum = true ∨ d = '_' → Expr.inWord d = true := by
    intro d hd
    exact inWord_of (p := Item.continuesWord) rfl (by simpa [Item.continuesWord] using hd)
  cases h with
  | mark hmem => exact List.all_eq_true.mp (hmarks _ hmem hkind)
  | comment | string | identifier => exact absurd (by decide) hkind
  | whole _ hall => exact hdigits hall
  | decimal _ hall _ hall' =>
    rw [List.forall_mem_append, List.forall_mem_cons]
    exact ⟨hdigits hall, rfl, hdigits hall'⟩
  | reserved hc hrun _ =>
    rw [List.forall_mem_cons]
    refine ⟨hword _ (hc.imp_left fun halpha => ?_), fun d hd => hword d (hrun d hd)⟩
    rw [Char.isAlphanum, halpha, Bool.true_or]

/-- A reserved word is the only spelling of its kind. -/
theorem Belongs.eq_of_mem_reserved {word : String} (h : Belongs kind spelling)
    (hmem : (word, kind) ∈ Kind.reserved) : String.ofList spelling = word := by
  have hmarks : ∀ e ∈ Kind.reserved, ∀ e' ∈ marks, e'.2 ≠ e.2 := by decide
  have hothers : ∀ e ∈ Kind.reserved, e.2 ∉ [.comment, .string, .number, .identifier] := by decide
  have hreserved : ∀ e ∈ Kind.reserved, ∀ e' ∈ Kind.reserved, e'.2 = e.2 → e'.1 = e.1 := by decide
  have hother := hothers _ hmem
  cases h with
  | mark hmem' => exact (hmarks _ hmem _ hmem' rfl).elim
  | reserved _ _ hmem' => exact hreserved _ hmem _ hmem' rfl
  | comment | string | whole | decimal | identifier => simp at hother

theorem IsWord.inWord (h : t.IsWord) : ∀ c ∈ t.lexeme.toList, Expr.inWord c = true :=
  h.belongs.inWord h.kind_notMem

theorem IsWord.kind_ne (h : t.IsWord) (hmem : kind ∈ Kind.hidden) : t.kind ≠ kind :=
  fun heq => h.kind_notMem (heq ▸ hmem)

/-- **A word is scanned as its token.** -/
theorem IsWord.ofText_lexeme (h : t.IsWord) : Scan.ofText t.lexeme =
    ⟨[t.unplaced, ⟨.eof, "", Text.byteLength t.lexeme.toList⟩], []⟩ := by
  have hkind : t.kind ≠ .string := h.kind_ne (by decide)
  have hquotes : t.quotes = [] := if_neg hkind
  have hwritten := written_of_ne_string hkind
  have hplace := (tokenizes_written (hwritten ▸ h.belongs)).eq_place
  rw [hquotes, hwritten] at hplace
  rw [Scan.ofText, hplace]
  rfl

theorem IsWord.tokenOf?_eq (h : t.IsWord) :
    Expr.tokenOf? t.lexeme.toList = some t.unplaced := by
  rw [Expr.tokenOf?, String.ofList_toList, h.ofText_lexeme]
  rfl

theorem IsWord.built?_eq (h : t.IsWord) (operand : Expr) :
    Expr.built? t.unplaced [operand] = some (.unary t.unplaced operand) :=
  congrArg some (if_neg (h.kind_ne (by decide)))

end Token

namespace Literal

variable {t : Token} {e : Expr}

/-- A literal is rendered by the spelling of its token. -/
theorem render_eq (he : Literal t e) (ht : t.IsWord) : e.render = t.lexeme := by
  have hword : ∀ word kind, (word, kind) ∈ Token.Kind.reserved → t.kind = kind →
      word = t.lexeme := by
    rintro word _ hmem rfl
    rw [← ht.belongs.eq_of_mem_reserved hmem, String.ofList_toList]
  cases he with
  | nil hkind => exact hword "nil" _ (by decide) hkind
  | no hkind => exact hword "false" _ (by decide) hkind
  | yes hkind => exact hword "true" _ (by decide) hkind
  | string | number => rfl

theorem unplaced (he : Literal t e) : Literal t.unplaced (e.mapTokens Token.unplaced) := by
  cases he with
  | nil hkind => exact .nil hkind
  | no hkind => exact .no hkind
  | yes hkind => exact .yes hkind
  | string hkind => exact .string hkind
  | number hkind hvalue => exact .number hkind hvalue

theorem kind_notMem_hidden (he : Literal t e) (hstring : e.isString = false) :
    t.kind ∉ Token.Kind.hidden := by
  cases he with
  | nil hkind | no hkind | yes hkind | number hkind => simp [hkind, Token.Kind.hidden]
  | string => cases hstring

/-- **A literal is read from the spelling of its token.** -/
theorem literalOf_eq (he : Literal t e) (ht : t.IsWord) :
    Expr.literalOf t.lexeme.toList = e.mapTokens Token.unplaced := by
  have hcomment : t.unplaced.isComment = false := beq_eq_false_iff_ne.mpr (ht.kind_ne (by decide))
  have hpeek : (Cursor.ofTokens
      [t.unplaced, ⟨.eof, "", Text.byteLength t.lexeme.toList⟩]).peek = some t.unplaced := by
    simp [Cursor.ofTokens, Cursor.peek, hcomment]
  rw [Expr.literalOf, String.ofList_toList, ht.ofText_lexeme]
  exact (Cursor.literal_of_literal hpeek he.unplaced).1

end Literal

/-! ## Trees -/

namespace Expr

/-- Where nothing is spelled an operand is missing. -/
theorem literalOf_nil : literalOf [] = missing := by
  have htokens : (Scan.ofText (String.ofList [])).tokens = [⟨.eof, "", 0⟩] := by decide +kernel
  rw [literalOf, htokens]
  rfl

theorem mem_nodes_self (e : Expr) : e ∈ e.nodes := by
  cases e <;> exact List.mem_cons_self

/-- The tree has no string, and each of its tokens is spelled as its kind demands. -/
inductive Legible : Expr → Prop
  | missing : Legible missing
  | literal {t : Token} {e : Expr} (he : Literal t e) (ht : t.IsWord) : Legible e
  | unary {op : Token} {operand : Expr} (hop : op.IsWord) (hoperand : Legible operand) :
      Legible (unary op operand)
  | binary {op : Token} {left right : Expr} (hop : op.IsWord) (hleft : Legible left)
      (hright : Legible right) : Legible (binary op left right)
  | grouping {inner : Expr} (hinner : Legible inner) : Legible (grouping inner)

/-- **A legible tree is read back** but for the places of its tokens, whatever stands behind it. -/
theorem Legible.readBack {e : Expr} (h : e.Legible) {rest : List Char}
    (hrest : ∀ c ∈ rest.head?, c = ' ' ∨ c = ')') :
    ReadBack unrender (e.render.toList ++ rest) (e.mapTokens Token.unplaced) rest := by
  -- behind an operand stands a blank or a parenthesis, so its last word ends there
  have hblank : ∀ more : List Char, ∀ c ∈ (' ' :: more).head?, c = ' ' ∨ c = ')' := by
    rintro more _ ⟨⟩
    exact .inl rfl
  have hclose : ∀ more : List Char, ∀ c ∈ (')' :: more).head?, c = ' ' ∨ c = ')' := by
    rintro more _ ⟨⟩
    exact .inr rfl
  induction h generalizing rest with
  | missing =>
    have hread : ReadBack unrender ([] ++ rest) (literalOf []) rest :=
      readBack_literal (List.forall_mem_nil _) hrest
    rwa [literalOf_nil] at hread
  | literal he ht =>
    rw [he.render_eq ht, ← he.literalOf_eq ht]
    exact readBack_literal ht.inWord hrest
  | unary hop _ ih =>
    have hoperand := readBack_operand (ih (hclose rest)) (readBack_close rest)
    have hunary := readBack_built hop.inWord hop.tokenOf?_eq hoperand (hop.built?_eq _)
    simpa [render, mapTokens] using hunary
  | binary hop _ _ ihleft ihright =>
    have hright := readBack_operand (ihright (hclose rest)) (readBack_close rest)
    have hleft := readBack_operand (ihleft (hblank _)) hright
    have hbinary := readBack_built hop.inWord hop.tokenOf?_eq hleft rfl
    simpa [render, mapTokens] using hbinary
  | grouping _ ih =>
    -- no operator is spelled like this: it is scanned as a name
    have hhead : tokenOf? "group".toList = some ⟨.identifier, "group", 0⟩ := by decide +kernel
    have hinner := readBack_operand (ih (hclose rest)) (readBack_close rest)
    have hword : "group".toList.all inWord = true := rfl
    have hgrouping := readBack_built (List.all_eq_true.mp hword) hhead hinner rfl
    simpa [render, mapTokens] using hgrouping

end Expr

/-! ## Trees of texts -/

theorem Token.isWord_of_notMem {t : Token} (h : t.kind ≠ .eof → Belongs t.kind t.written)
    (hkind : t.kind ∉ Kind.hidden) : t.IsWord := by
  have hne : ∀ kind ∈ Kind.hidden, t.kind ≠ kind := fun kind hmem heq => hkind (heq ▸ hmem)
  refine ⟨?_, hkind⟩
  rw [← written_of_ne_string (hne .string (by decide))]
  exact h (hne .eof (by decide))

/-- **What is read from tokens of a text is legible** if there is no string in it. -/
theorem Spells.legible {e : Expr} {ts : List Token} (h : Spells e ts)
    (hbelongs : ∀ t ∈ ts, t.kind ≠ .eof → Token.Belongs t.kind t.written)
    (hstring : ∀ n ∈ e.nodes, n.isString = false) : e.Legible := by
  have hsigns : ∀ kind ∈ signs, kind ∉ Token.Kind.hidden := by decide
  have hoperators : ∀ kind ∈ binaryOperators, kind ∉ Token.Kind.hidden := by decide
  -- a parenthesis leaves no token in the tree, whether it is closed or not
  induction h with
  | absent | malformed => exact .missing
  | @literal t e he =>
    refine .literal he (Token.isWord_of_notMem (hbelongs t List.mem_cons_self) ?_)
    exact he.kind_notMem_hidden (hstring e e.mem_nodes_self)
  | @unary op e ts hop _ ih =>
    rw [List.forall_mem_cons] at hbelongs
    rw [Expr.nodes, List.forall_mem_cons] at hstring
    exact .unary (Token.isWord_of_notMem hbelongs.1 (hsigns _ hop)) (ih hbelongs.2 hstring.2)
  | @binary op left right ls rs hop _ _ ihleft ihright =>
    rw [List.forall_mem_append, List.forall_mem_cons] at hbelongs
    rw [Expr.nodes, List.forall_mem_cons, List.forall_mem_append] at hstring
    obtain ⟨hls, hword, hrs⟩ := hbelongs
    exact .binary (Token.isWord_of_notMem hword (hoperators _ hop)) (ihleft hls hstring.2.1)
      (ihright hrs hstring.2.2)
  | closed _ _ _ ih =>
    rw [List.cons_append, List.forall_mem_cons, List.forall_mem_append] at hbelongs
    rw [Expr.nodes, List.forall_mem_cons] at hstring
    exact .grouping (ih hbelongs.2.1 hstring.2)
  | unclosed _ _ ih =>
    rw [List.forall_mem_cons] at hbelongs
    rw [Expr.nodes, List.forall_mem_cons] at hstring
    exact .grouping (ih hbelongs.2 hstring.2)

namespace Reading

variable {text text' : String} {e e' : Expr}

theorem legible_of_eq_ok (h : (ofText text).result = .ok e)
    (hstring : ∀ n ∈ e.nodes, n.isString = false) : e.Legible := by
  obtain rfl := eq_expression_of_eq_ok h
  obtain ⟨taken, -, hspells, htaken⟩ := Cursor.exists_spells_expression (ofText text).tokens
  refine hspells.legible (fun t ht heof => ?_) hstring
  have hmem := htaken t ht
  rw [tokens_ofText] at hmem
  refine Scan.belongs_written_of_mem text t (List.mem_filter.mpr ⟨hmem, ?_⟩)
  simpa [Token.isEof] using heof

/-- The tree of a text can be read back from what is rendered of it. -/
theorem ofRendered?_render (h : (ofText text).result = .ok e)
    (hstring : ∀ n ∈ e.nodes, n.isString = false) :
    Expr.ofRendered? e.render = some (e.mapTokens Token.unplaced) := by
  have hread : Expr.ReadBack Expr.unrender (e.render.toList ++ [])
      (e.mapTokens Token.unplaced) [] := (legible_of_eq_ok h hstring).readBack nofun
  rw [List.append_nil] at hread
  exact hread.ofRendered?_eq

/-- **Trees of texts are told apart by what is rendered of them**, as long as they have no strings:
a reader gives each tree back but for the places of its tokens, and two trees are rendered alike
exactly if they are the same but for these places. -/
theorem render_eq_iff (h : (ofText text).result = .ok e) (h' : (ofText text').result = .ok e')
    (hstring : ∀ n ∈ e.nodes, n.isString = false)
    (hstring' : ∀ n ∈ e'.nodes, n.isString = false) :
    Expr.ofRendered? e.render = some (e.mapTokens Token.unplaced) ∧
      Expr.ofRendered? e'.render = some (e'.mapTokens Token.unplaced) ∧
      (e.render = e'.render ↔ e.mapTokens Token.unplaced = e'.mapTokens Token.unplaced) := by
  have hread := ofRendered?_render h hstring
  have hread' := ofRendered?_render h' hstring'
  refine ⟨hread, hread', fun hrender => ?_, fun htree => ?_⟩
  · rw [hrender, hread'] at hread
    exact (Option.some.inj hread).symm
  · have hrender := congrArg Expr.render htree
    rwa [Expr.render_mapTokens Token.lexeme_unplaced,
      Expr.render_mapTokens Token.lexeme_unplaced] at hrender

/-- A sum without its right operand and a product without its own, with a comment and without. -/
theorem render_eq_iff_of_faults :
    let text := "-(1 * ) + // a"
    let text' := "-(1*)+"
    ∃ e e', (ofText text).result = .ok e ∧ (ofText text').result = .ok e' ∧
      (∀ n ∈ e.nodes, n.isString = false) ∧ (∀ n ∈ e'.nodes, n.isString = false) ∧
      e.render = "(+ (- (group (* 1 ))) )" ∧ e'.render = e.render ∧
      Expr.ofRendered? e.render = some (e.mapTokens Token.unplaced) ∧
      Expr.ofRendered? e'.render = some (e'.mapTokens Token.unplaced) ∧
      (e.render = e'.render ↔ e.mapTokens Token.unplaced = e'.mapTokens Token.unplaced) := by
  intro text text'
  have hresult : ∀ text : String, (ofText text).result.toOption.any (fun e =>
      e.nodes.all (fun n => !n.isString) && e.render == "(+ (- (group (* 1 ))) )") = true →
      ∃ e, (ofText text).result = .ok e ∧ (∀ n ∈ e.nodes, n.isString = false) ∧
        e.render = "(+ (- (group (* 1 ))) )" := by
    intro text h
    cases hresult : (ofText text).result with
    | error failure => simp [hresult, Except.toOption] at h
    | ok e => exact ⟨e, rfl, by simpa [hresult, Except.toOption] using h⟩
  obtain ⟨e, h, hstring, hrender⟩ := hresult text (by decide +kernel)
  obtain ⟨e', h', hstring', hrender'⟩ := hresult text' (by decide +kernel)
  exact ⟨e, e', h, h', hstring, hstring', hrender, hrender'.trans hrender.symm,
    render_eq_iff h h' hstring hstring'⟩

end Reading

end ExprReader
