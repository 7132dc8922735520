import Mathlib.Data.List.TakeWhile
import ExprReader.Proofs.Number.Grammar
import ExprReader.Token.Item

/-!
# Classes of tokens

Which texts are spellings of which kinds of token, said without a look at how a text is scanned:

* the marks are brackets, separators and operators
* a comment is two slashes and any run without a line feed
* a string is any run without a quote, between quotes
* a number is digits, optionally followed by a point and at least one digit
* a word begins with a letter or an underscore and goes on with letters, digits and underscores;
  it has the kind of a reserved word exactly when all of it is reserved

The first item of a text is compared with the classes: if it is a token then it belongs to the class
of its kind, and no beginning of the text that belongs to a class is longer.

## Main definitions

* `Token.Belongs kind spelling`: the spelling is in the class of the kind
* `Item.Covers item kind spelling`: the item is a token that leaves no room for a longer match

## Main results

* `belongs_first`: a first item that is a token belongs to its class
* `Belongs.covers`: it is at least as long as any beginning of the text that belongs to a class
-/

namespace ExprReader

/-! ## The classes -/

/-- The marks and their kinds. -/
def Token.marks : List (String × Token.Kind) :=
  [("(", .leftParen), (")", .rightParen), ("\x7b", .leftBrace), ("\x7d", .rightBrace),
    (",", .comma), (".", .dot), ("-", .minus), ("+", .plus), (";", .semicolon),
    ("/", .slash), ("*", .star), ("!", .bang), ("!=", .bangEqual), ("=", .equal),
    ("==", .equalEqual), (">", .greater), (">=", .greaterEqual), ("<", .less), ("<=", .lessEqual)]

/-- The spelling is in the class of the kind; that of a string has its quotes. -/
inductive Token.Belongs : Token.Kind → List Char → Prop
  | mark {mark : String} {kind : Token.Kind} (h : (mark, kind) ∈ Token.marks) :
      Belongs kind mark.toList
  | comment {run : List Char} (h : ∀ c ∈ run, c ≠ '\n') : Belongs .comment ('/' :: '/' :: run)
  | string {run : List Char} (h : ∀ c ∈ run, c ≠ '"') : Belongs .string ('"' :: run ++ ['"'])
  | whole {digits : List Char} (hne : digits ≠ []) (h : ∀ c ∈ digits, c.isDigit = true) :
      Belongs .number digits
  | decimal {digits decimals : List Char} (hne : digits ≠ [])
      (h : ∀ c ∈ digits, c.isDigit = true) (hne' : decimals ≠ [])
      (h' : ∀ c ∈ decimals, c.isDigit = true) : Belongs .number (digits ++ '.' :: decimals)
  | reserved {c : Char} {run : List Char} {kind : Token.Kind} (hc : c.isAlpha = true ∨ c = '_')
      (h : ∀ d ∈ run, d.isAlphanum = true ∨ d = '_')
      (hword : (String.ofList (c :: run), kind) ∈ Token.Kind.reserved) : Belongs kind (c :: run)
  | identifier {c : Char} {run : List Char} (hc : c.isAlpha = true ∨ c = '_')
      (h : ∀ d ∈ run, d.isAlphanum = true ∨ d = '_')
      (hword : ∀ kind, (String.ofList (c :: run), kind) ∉ Token.Kind.reserved) :
      Belongs .identifier (c :: run)

/-- **What is in the class of the numbers is digits without a sign**, at least one of them before
the point. -/
theorem Token.Belongs.exists_mantissa {spelling : List Char} (h : Belongs .number spelling) :
    ∃ whole fraction, Decimal.Mantissa spelling whole fraction ∧ whole ≠ [] := by
  have hmarks : ∀ e ∈ marks, e.2 ≠ .number := by decide
  have hreserved : ∀ e ∈ Kind.reserved, e.2 ≠ .number := by decide
  cases h with
  | mark hmem => exact absurd rfl (hmarks _ hmem)
  | reserved _ _ hmem => exact absurd rfl (hreserved _ hmem)
  | whole hne hdigits => exact ⟨_, _, .whole hdigits, hne⟩
  | decimal hne hdigits _ hdecimals => exact ⟨_, _, .point hdigits hdecimals, hne⟩

theorem mem_of_lookup {α β : Type} [BEq α] [LawfulBEq α] {table : List (α × β)} {key : α}
    {value : β} (h : table.lookup key = some value) : (key, value) ∈ table := by
  obtain ⟨front, back, heq, -⟩ := List.lookup_eq_some_iff.mp h
  rw [heq]
  exact List.mem_append_right front List.mem_cons_self

/-- A word has the kind of a reserved word exactly when it is that word. -/
theorem Token.Kind.ofWord?_eq_some_iff {word : String} {kind : Token.Kind} :
    Token.Kind.ofWord? word = some kind ↔ (word, kind) ∈ Token.Kind.reserved := by
  have hall : ∀ e ∈ reserved, ofWord? e.1 = some e.2 := by decide +kernel
  exact ⟨mem_of_lookup, hall (word, kind)⟩

namespace Item

/-! ## Which branch is taken -/

section Branches

variable {c : Char} {rest : List Char}

theorem first_of_isBlank (hc : isBlank c = true) (rest : List Char) :
    first c rest = (blank c, rest) := by
  simp [first, hc]

theorem first_comment (rest : List Char) :
    first '/' ('/' :: rest) =
      (plain .comment ('/' :: '/' :: rest.takeWhile (· != '\n')), rest.dropWhile (· != '\n')) := by
  simp [first, isBlank, cutWhile]

theorem first_quote (rest : List Char) : first '"' rest = quotedString rest := by
  simp [first, isBlank]

/-- What passes a test is none of some characters that do not. -/
theorem ne_of_any_eq_false {p : Char → Bool} {ds : List Char} (hp : ds.any p = false)
    (hc : p c = true) : ∀ d ∈ ds, c ≠ d := by
  rintro d hd rfl
  exact List.any_eq_false.mp hp c hd hc

/-- A test that is passed by no character with a branch of its own picks none of these branches. -/
theorem not_special {p : Char → Bool} (hp : [' ', '\t', '\r', '\n', '/', '"'].any p = false)
    (hc : p c = true) : isBlank c = false ∧ c ≠ '/' ∧ c ≠ '"' := by
  have hne := ne_of_any_eq_false hp hc
  refine ⟨?_, hne _ (by simp), hne _ (by simp)⟩
  simp [isBlank, hne]

theorem first_of_isDigit (hc : c.isDigit = true) (rest : List Char) :
    first c rest = number c rest := by
  obtain ⟨hblank, hslash, hquote⟩ := not_special (p := Char.isDigit) rfl hc
  simp [first, hblank, hslash, hquote, hc]

theorem isDigit_eq_false_of_beginsWord (hc : beginsWord c = true) : c.isDigit = false := by
  rw [Bool.eq_false_iff]
  intro h
  simp only [beginsWord, Bool.or_eq_true, beq_iff_eq] at hc
  rcases hc with hc | rfl
  · -- digits stand before all letters
    have hdigit : ('0'.val ≤ c.val && c.val ≤ '9'.val) = true := h
    have hletter : (decide ('A'.val ≤ c.val ∧ c.val ≤ 'Z'.val) ||
        ('a'.val ≤ c.val && c.val ≤ 'z'.val)) = true := hc
    simp only [Bool.and_eq_true, Bool.or_eq_true, decide_eq_true_eq,
      UInt32.le_iff_toNat_le] at hdigit hletter
    simp at hdigit hletter
    omega
  · cases h

theorem first_of_beginsWord (hc : beginsWord c = true) (rest : List Char) :
    first c rest = word c rest := by
  obtain ⟨hblank, hslash, hquote⟩ := not_special (p := beginsWord) rfl hc
  simp [first, hblank, hslash, hquote, isDigit_eq_false_of_beginsWord hc, hc]

/-- A mark is taken by itself or with an equals sign, unless it begins a comment. -/
theorem first_of_mem_singles {kind : Token.Kind} (hc : (c, kind) ∈ Token.Kind.singles)
    (hcomment : ¬(c = '/' ∧ rest.head? = some '/')) : first c rest = operator c rest := by
  have hall : ∀ e ∈ Token.Kind.singles, isBlank e.1 = false ∧ e.1 ≠ '"' ∧
      e.1.isDigit = false ∧ beginsWord e.1 = false := by decide
  obtain ⟨hblank, hquote, hdigit, hword⟩ := hall _ hc
  simp only [first, hblank, hcomment, hquote, hdigit, hword, if_false, Bool.false_eq_true]

end Branches

/-! ## A token at the front belongs to its class -/

/-- The kind of an item that is a token. -/
def kind? : Item → Option Token.Kind
  | plain kind _ => some kind
  | string _ => some .string
  | _ => none

section Belongs

variable {c : Char} {rest : List Char} {kind : Token.Kind}

theorem isDigit_of_mem_takeWhile {d : Char} {cs : List Char}
    (hd : d ∈ cs.takeWhile Char.isDigit) : d.isDigit = true :=
  List.mem_takeWhile_imp hd

theorem fraction_of_point (rest : List Char) (hne : rest.takeWhile Char.isDigit ≠ []) :
    (fraction ('.' :: rest)).1 = '.' :: rest.takeWhile Char.isDigit := by
  have hempty : (cutWhile Char.isDigit rest).1.isEmpty = false := by simpa [cutWhile] using hne
  simp only [fraction, hempty]
  rfl

/-- What is taken off behind a whole number is nothing, or a point and at least one digit. -/
theorem fraction_cases (cs : List Char) :
    (fraction cs).1 = [] ∨ ∃ decimals, decimals ≠ [] ∧ (∀ d ∈ decimals, d.isDigit = true) ∧
      (fraction cs).1 = '.' :: decimals := by
  -- a point without a digit behind it stays where it is
  by_cases hpoint : ∃ rest, cs = '.' :: rest ∧ rest.takeWhile Char.isDigit ≠ []
  · obtain ⟨rest, rfl, hne⟩ := hpoint
    exact .inr ⟨_, hne, fun d => isDigit_of_mem_takeWhile, fraction_of_point rest hne⟩
  · left
    unfold fraction
    split
    · rename_i rest
      have hempty : (cutWhile Char.isDigit rest).1.isEmpty = true := by
        simpa [cutWhile] using hpoint
      simp only [hempty, if_true]
    · rfl

theorem belongs_number (hc : c.isDigit = true) (rest : List Char) :
    Token.Belongs .number (number c rest).1.chars := by
  have hdigits : ∀ d ∈ c :: rest.takeWhile Char.isDigit, d.isDigit = true := by
    intro d hd
    rcases List.mem_cons.mp hd with rfl | hd
    · exact hc
    · exact isDigit_of_mem_takeWhile hd
  simp only [number, cutWhile, chars]
  rcases fraction_cases (rest.dropWhile Char.isDigit) with hnone | ⟨decimals, hne, hall, hsome⟩
  · rw [hnone, List.append_nil]
    apply Token.Belongs.whole (List.cons_ne_nil _ _)
    exact hdigits
  · rw [hsome]
    apply Token.Belongs.decimal (List.cons_ne_nil _ _) hdigits hne
    exact hall

theorem belongs_word (hc : beginsWord c = true) (hkind : (word c rest).1.kind? = some kind) :
    Token.Belongs kind (word c rest).1.chars := by
  have hc' : c.isAlpha = true ∨ c = '_' := by simpa [beginsWord] using hc
  have hrun : ∀ d ∈ rest.takeWhile continuesWord, d.isAlphanum = true ∨ d = '_' := by
    intro d hd
    simpa [continuesWord] using List.mem_takeWhile_imp hd
  simp only [word, cutWhile, kind?, Option.some.injEq, chars] at hkind ⊢
  cases hword : Token.Kind.ofWord? (String.ofList (c :: rest.takeWhile continuesWord)) with
  | some reserved =>
    obtain rfl : reserved = kind := by rwa [hword, Option.getD_some] at hkind
    exact .reserved hc' hrun (Token.Kind.ofWord?_eq_some_iff.mp hword)
  | none =>
    obtain rfl : .identifier = kind := by rwa [hword, Option.getD_none] at hkind
    refine .identifier hc' hrun fun kind hmem => ?_
    rw [Token.Kind.ofWord?_eq_some_iff.mpr hmem] at hword
    cases hword

theorem belongs_quotedString (hkind : (quotedString rest).1.kind? = some kind) :
    Token.Belongs kind (quotedString rest).1.chars := by
  unfold quotedString at hkind ⊢
  split
  · rename_i content quote after heq
    simp only [cutWhile, Prod.mk.injEq] at heq
    obtain rfl : .string = kind := by simpa [heq, cutWhile, kind?] using hkind
    refine .string fun d hd => ?_
    rw [← heq.1] at hd
    have hpass := @List.mem_takeWhile_imp _ (· != '"') _ _ hd
    exact bne_iff_ne.mp hpass
  · rename_i content heq
    simp [heq, kind?] at hkind

/-- The three ways in which an operator is taken: not at all, with an equals sign, or by itself. -/
theorem operator_cases (c : Char) (rest : List Char) :
    (Token.Kind.singles.lookup c = none ∧ operator c rest = (unexpected c, rest)) ∨
    (∃ kind after, Token.Kind.withEquals.lookup c = some kind ∧ rest = '=' :: after ∧
      operator c rest = (plain kind [c, '='], after)) ∨
    (∃ kind, Token.Kind.singles.lookup c = some kind ∧ operator c rest = (plain kind [c], rest) ∧
      (Token.Kind.withEquals.lookup c = none ∨ rest.head? ≠ some '=')) := by
  cases hsingle : Token.Kind.singles.lookup c with
  | none => exact .inl ⟨rfl, by simp [operator, hsingle]⟩
  | some kind =>
    right
    cases hequal : Token.Kind.withEquals.lookup c with
    | none => exact .inr ⟨kind, rfl, by simp [operator, hsingle, hequal], .inl rfl⟩
    | some longer =>
      by_cases hhead : rest.head? = some '='
      · obtain ⟨after, rfl⟩ := List.head?_eq_some_iff.mp hhead
        exact .inl ⟨longer, after, rfl, rfl, by simp [operator, hsingle, hequal]⟩
      · refine .inr ⟨kind, rfl, ?_, .inr hhead⟩
        cases rest with
        | nil => simp [operator, hsingle, hequal]
        | cons d after =>
          have hd : d ≠ '=' := by simpa using hhead
          simp [operator, hsingle, hequal, hd]

theorem belongs_operator (hkind : (operator c rest).1.kind? = some kind) :
    Token.Belongs kind (operator c rest).1.chars := by
  have hsingles : ∀ e ∈ Token.Kind.singles, (String.ofList [e.1], e.2) ∈ Token.marks := by
    decide +kernel
  have hequals : ∀ e ∈ Token.Kind.withEquals, (String.ofList [e.1, '='], e.2) ∈ Token.marks := by
    decide +kernel
  rcases operator_cases c rest with ⟨-, heq⟩ | ⟨longer, _, hmem, -, heq⟩ | ⟨single, hmem, heq, -⟩
  · simp [heq, kind?] at hkind
  · obtain rfl : longer = kind := by simpa [heq, kind?] using hkind
    have hmark := Token.Belongs.mark (hequals _ (mem_of_lookup hmem))
    simpa [heq, chars] using hmark
  · obtain rfl : single = kind := by simpa [heq, kind?] using hkind
    have hmark := Token.Belongs.mark (hsingles _ (mem_of_lookup hmem))
    simpa [heq, chars] using hmark

/-- **A token at the front belongs to its class.** -/
theorem belongs_first (hkind : (first c rest).1.kind? = some kind) :
    Token.Belongs kind (first c rest).1.chars := by
  -- the cases stand in the order in which the branches are tried
  by_cases hblank : isBlank c = true
  · simp [first_of_isBlank hblank, kind?] at hkind
  by_cases hcomment : c = '/' ∧ rest.head? = some '/'
  · obtain ⟨rfl, hhead⟩ := hcomment
    obtain ⟨run, rfl⟩ := List.head?_eq_some_iff.mp hhead
    obtain rfl : .comment = kind := by simpa [first_comment, kind?] using hkind
    rw [first_comment]
    refine .comment fun d hd => ?_
    have hpass := @List.mem_takeWhile_imp _ (· != '\n') _ _ hd
    exact bne_iff_ne.mp hpass
  by_cases hquote : c = '"'
  · subst hquote
    rw [first_quote] at hkind ⊢
    exact belongs_quotedString hkind
  by_cases hdigit : c.isDigit = true
  · rw [first_of_isDigit hdigit] at hkind ⊢
    obtain rfl : .number = kind := by simpa [number, kind?] using hkind
    exact belongs_number hdigit rest
  by_cases hword : beginsWord c = true
  · rw [first_of_beginsWord hword] at hkind ⊢
    exact belongs_word hword hkind
  · have heq : first c rest = operator c rest := by
      simp [first, hblank, hcomment, hquote, hdigit, hword]
    rw [heq] at hkind ⊢
    exact belongs_operator hkind

end Belongs

/-! ## No beginning of the text in a class is longer -/

/-- The item is a token at least as long as the spelling, and of the same kind if it is no
longer. -/
def Covers (item : Item) (kind : Token.Kind) (spelling : List Char) : Prop :=
  ∃ kind', item.kind? = some kind' ∧ spelling.length ≤ item.chars.length ∧
    (item.chars.length = spelling.length → kind' = kind)

section Covers

variable {c : Char} {run after : List Char}

theorem number_covers (hrun : ∀ d ∈ run, d.isDigit = true) (c : Char) (after : List Char) :
    (number c (run ++ after)).1.Covers .number (c :: run) := by
  refine ⟨.number, rfl, ?_, fun _ => rfl⟩
  simp [number, cutWhile, chars, List.takeWhile_append_of_pos hrun]

theorem number_covers_decimal {decimals : List Char} (hrun : ∀ d ∈ run, d.isDigit = true)
    (hne : decimals ≠ []) (hdecimals : ∀ d ∈ decimals, d.isDigit = true) (c : Char)
    (after : List Char) :
    (number c (run ++ '.' :: (decimals ++ after))).1.Covers .number
      (c :: run ++ '.' :: decimals) := by
  refine ⟨.number, rfl, ?_, fun _ => rfl⟩
  -- the whole part stops at the point, and the digits behind it are taken with it
  have hpoint : ¬('.' : Char).isDigit = true := Bool.false_ne_true
  have hne' : (decimals ++ after).takeWhile Char.isDigit ≠ [] := by
    simp [List.takeWhile_append_of_pos hdecimals, hne]
  simp only [number, cutWhile, chars, List.takeWhile_append_of_pos hrun,
    List.dropWhile_append_of_pos hrun, List.takeWhile_cons_of_neg hpoint,
    List.dropWhile_cons_of_neg hpoint, fraction_of_point _ hne',
    List.takeWhile_append_of_pos hdecimals, List.length_append, List.length_cons, List.length_nil]
  omega

/-- A word that is no longer than the run is the run, so it has the same kind. -/
theorem word_covers (hrun : ∀ d ∈ run, d.isAlphanum = true ∨ d = '_') (c : Char)
    (after : List Char) :
    (word c (run ++ after)).1.Covers
      ((Token.Kind.ofWord? (String.ofList (c :: run))).getD .identifier) (c :: run) := by
  have hrun' : ∀ d ∈ run, continuesWord d = true := by simpa [continuesWord] using hrun
  simp only [word, cutWhile, List.takeWhile_append_of_pos hrun']
  refine ⟨_, rfl, by simp [chars], fun hlength => ?_⟩
  -- whether a word is reserved depends on all of it, so the kinds agree only where nothing is added
  obtain hnil : after.takeWhile continuesWord = [] := by simpa [chars] using hlength
  rw [hnil, List.append_nil]

theorem quotedString_covers (hrun : ∀ d ∈ run, d ≠ '"') (after : List Char) :
    (quotedString (run ++ '"' :: after)).1.Covers .string ('"' :: run ++ ['"']) := by
  have hrun' : ∀ d ∈ run, (d != '"') = true := by simpa using hrun
  have hcut : cutWhile (· != '"') (run ++ '"' :: after) = (run, '"' :: after) := by
    rw [cutWhile, List.takeWhile_append_of_pos hrun', List.dropWhile_append_of_pos hrun']
    simp
  rw [quotedString, hcut]
  exact ⟨.string, rfl, Nat.le_refl _, fun _ => rfl⟩

theorem first_covers_comment (hrun : ∀ d ∈ run, d ≠ '\n') (after : List Char) :
    (first '/' ('/' :: (run ++ after))).1.Covers .comment ('/' :: '/' :: run) := by
  have hrun' : ∀ d ∈ run, (d != '\n') = true := by simpa using hrun
  rw [first_comment, List.takeWhile_append_of_pos hrun']
  exact ⟨.comment, rfl, by simp [chars], fun _ => rfl⟩

/-- A mark of one character is taken, unless a longer one or a comment begins with it. -/
theorem first_covers_single {kind : Token.Kind}
    (hlookup : Token.Kind.singles.lookup c = some kind) (rest : List Char) :
    (first c rest).1.Covers kind [c] := by
  by_cases hcomment : c = '/' ∧ rest.head? = some '/'
  · obtain ⟨rfl, hhead⟩ := hcomment
    obtain ⟨after, rfl⟩ := List.head?_eq_some_iff.mp hhead
    rw [first_comment]
    exact ⟨.comment, rfl, by simp [chars], by simp [chars]⟩
  rw [first_of_mem_singles (mem_of_lookup hlookup) hcomment]
  rcases operator_cases c rest with ⟨hnone, -⟩ | ⟨longer, after, -, -, heq⟩ | ⟨single, hmem, heq, -⟩
  · rw [hlookup] at hnone
    cases hnone
  · rw [heq]
    exact ⟨longer, rfl, by simp [chars], by simp [chars]⟩
  · rw [heq]
    exact ⟨single, rfl, by simp [chars], fun _ => Option.some.inj (hmem.symm.trans hlookup)⟩

/-- A mark that ends with an equals sign is taken whole. -/
theorem first_covers_withEquals {kind : Token.Kind}
    (hlookup : Token.Kind.withEquals.lookup c = some kind) (after : List Char) :
    (first c ('=' :: after)).1.Covers kind [c, '='] := by
  have hsingles : ∀ e ∈ Token.Kind.withEquals, (Token.Kind.singles.lookup e.1).isSome = true := by
    decide
  -- the first character is a mark by itself, so the branch of the marks is taken
  obtain ⟨single, hsingle⟩ := Option.isSome_iff_exists.mp (hsingles _ (mem_of_lookup hlookup))
  rw [first_of_mem_singles (mem_of_lookup hsingle) (by simp)]
  rcases operator_cases c ('=' :: after) with ⟨hnone, -⟩ | ⟨longer, _, hmem, -, heq⟩ |
    ⟨-, -, -, hnone | hhead⟩
  · rw [hsingle] at hnone
    cases hnone
  · rw [heq]
    exact ⟨longer, rfl, by simp [chars], fun _ => Option.some.inj (hmem.symm.trans hlookup)⟩
  · rw [hlookup] at hnone
    cases hnone
  · exact absurd rfl hhead

/-- The marks are those of one character, and those with an equals sign. -/
theorem lookup_of_mem_marks {mark : String} {kind : Token.Kind} (h : (mark, kind) ∈ Token.marks) :
    ∃ c, (mark.toList = [c] ∧ Token.Kind.singles.lookup c = some kind) ∨
      (mark.toList = [c, '='] ∧ Token.Kind.withEquals.lookup c = some kind) := by
  have hall : ∀ e ∈ Token.marks,
      (e.1.toList.tail = [] ∧
        e.1.toList.head?.bind (Token.Kind.singles.lookup ·) = some e.2) ∨
      (e.1.toList.tail = ['='] ∧
        e.1.toList.head?.bind (Token.Kind.withEquals.lookup ·) = some e.2) := by
    decide +kernel
  have hmark := hall _ h
  cases hchars : mark.toList with
  | nil => simp [hchars] at hmark
  | cons c tail =>
    rw [hchars] at hmark
    rcases hmark with ⟨rfl, hkind⟩ | ⟨rfl, hkind⟩
    · exact ⟨c, .inl ⟨rfl, hkind⟩⟩
    · exact ⟨c, .inr ⟨rfl, hkind⟩⟩

end Covers

end Item

/-- **No beginning of a text that belongs to a class is longer than the first item**, and one that
is as long is of the same kind. -/
theorem Token.Belongs.covers {kind : Token.Kind} {spelling : List Char}
    (h : Token.Belongs kind spelling) {c : Char} {rest after : List Char}
    (heq : spelling ++ after = c :: rest) : (Item.first c rest).1.Covers kind spelling := by
  -- reserved words and identifiers differ in the kind alone
  have hword : ∀ {run : List Char} {kind : Token.Kind}, (c.isAlpha = true ∨ c = '_') →
      (∀ d ∈ run, d.isAlphanum = true ∨ d = '_') → run ++ after = rest →
      (Token.Kind.ofWord? (String.ofList (c :: run))).getD .identifier = kind →
      (Item.first c rest).1.Covers kind (c :: run) := by
    rintro run _ hc hrun rfl rfl
    rw [Item.first_of_beginsWord (by simpa [Item.beginsWord] using hc)]
    exact Item.word_covers hrun c after
  cases h with
  | @mark mark _ hmem =>
    obtain ⟨d, ⟨hchars, hlookup⟩ | ⟨hchars, hlookup⟩⟩ := Item.lookup_of_mem_marks hmem
    · rw [hchars] at heq ⊢
      obtain ⟨rfl, -⟩ := List.cons.inj heq
      exact Item.first_covers_single hlookup rest
    · rw [hchars] at heq ⊢
      obtain ⟨rfl, rfl⟩ := List.cons.inj heq
      exact Item.first_covers_withEquals hlookup after
  | @comment run hrun =>
    obtain ⟨rfl, rfl⟩ := List.cons.inj heq
    exact Item.first_covers_comment hrun after
  | @string run hrun =>
    rw [List.cons_append, List.cons_append, List.append_assoc] at heq
    obtain ⟨rfl, rfl⟩ := List.cons.inj heq
    rw [Item.first_quote]
    exact Item.quotedString_covers hrun after
  | @whole digits hne hdigits =>
    obtain ⟨d, run, rfl⟩ := List.exists_cons_of_ne_nil hne
    obtain ⟨rfl, rfl⟩ := List.cons.inj heq
    rw [List.forall_mem_cons] at hdigits
    rw [Item.first_of_isDigit hdigits.1]
    exact Item.number_covers hdigits.2 _ after
  | @decimal digits decimals hne hdigits hne' hdecimals =>
    obtain ⟨d, run, rfl⟩ := List.exists_cons_of_ne_nil hne
    rw [List.append_assoc] at heq
    obtain ⟨rfl, rfl⟩ := List.cons.inj heq
    rw [List.forall_mem_cons] at hdigits
    rw [Item.first_of_isDigit hdigits.1]
    exact Item.number_covers_decimal hdigits.2 hne' hdecimals _ after
  | @reserved d run _ hc hrun hmem =>
    obtain ⟨rfl, hrest⟩ := List.cons.inj heq
    exact hword hc hrun hrest (by rw [Token.Kind.ofWord?_eq_some_iff.mpr hmem, Option.getD_some])
  | @identifier d run hc hrun hnot =>
    obtain ⟨rfl, hrest⟩ := List.cons.inj heq
    refine hword hc hrun hrest ?_
    cases hkind : Token.Kind.ofWord? (String.ofList (d :: run)) with
    | none => rfl
    | some kind => exact absurd (Token.Kind.ofWord?_eq_some_iff.mp hkind) (hnot kind)

end ExprReader
