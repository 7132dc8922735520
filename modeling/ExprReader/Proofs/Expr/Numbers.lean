import Mathlib.Data.List.Basic
import ExprReader.Proofs.Expr.Recovery
import ExprReader.Proofs.Number.Grammar
import ExprReader.Proofs.Session.Verdict
import ExprReader.Proofs.Token.WrittenOut

/-!
# The numbers of a text

Whatever a scan takes for a number is a number in decimal writing, so it has a value, which is a
quantity and not negative. A parser that is given such tokens never meets a malformed number, and
each of them that it takes has a node of its own in the tree.

## Main definitions

* `Token.HasValue t value`: the value is what the spelling of the token is read as
* `Token.number? t`: a number token with its value
* `Expr.numbers e`: the numbers of a tree, from left to right

## Main results

* `Scan.exists_hasValue`: every number token of a scan has a value
* `Spells.numbers_eq`: the numbers of a tree are those among the tokens that it spells
* `Parse.malformedNumber_notMem_faults`: where all number tokens are numbers, none is malformed
* `Reading.numbers_of_text`: the number tokens of a text, and what a parser makes of them
-/

namespace ExprReader

namespace Token

/-- The spelling of the token is read as the value, which is a quantity and not negative. -/
structure HasValue (t : Token) (value : Binary64) : Prop where
  read : Binary64.ofChars? t.lexeme.toList = some value
  isNaN_eq : value.isNaN = false
  isNegative_eq : value.isNegative = false

/-- A number token with its value, if its spelling is a number. -/
def number? (t : Token) : Option (Token × Binary64) :=
  if t.kind = .number then (Binary64.ofChars? t.lexeme.toList).map fun value => (t, value)
  else none

variable {t u : Token} {value : Binary64} {ts : List Token}

@[simp] theorem number?_of_ne (h : t.kind ≠ .number) : t.number? = none := if_neg h

theorem number?_of_kind (h : t.kind = .number) :
    t.number? = (Binary64.ofChars? t.lexeme.toList).map fun value => (t, value) := if_pos h

/-- What is found for a token is the token itself. -/
theorem number?_eq_some_iff : u.number? = some (t, value) ↔
    u = t ∧ t.kind = .number ∧ Binary64.ofChars? t.lexeme.toList = some value := by
  by_cases hkind : u.kind = .number
  · rw [number?_of_kind hkind, Option.map_eq_some_iff]
    constructor
    · rintro ⟨_, hvalue, heq⟩
      obtain ⟨rfl, rfl⟩ := Prod.mk.inj heq
      exact ⟨rfl, hkind, hvalue⟩
    · rintro ⟨rfl, -, hvalue⟩
      exact ⟨value, hvalue, rfl⟩
  · rw [number?_of_ne hkind]
    refine iff_of_false nofun ?_
    rintro ⟨rfl, hkind', -⟩
    exact hkind hkind'

/-- Where all number tokens have values, none of them is lost. -/
theorem map_fst_filterMap_number?
    (h : ∀ t ∈ ts, t.kind = .number → ∃ value, t.HasValue value) :
    (ts.filterMap number?).map Prod.fst = ts.filter fun t => t.kind == .number := by
  rw [List.map_filterMap, ← List.filterMap_eq_filter]
  refine List.filterMap_congr fun t ht => ?_
  by_cases hkind : t.kind = .number
  · obtain ⟨value, hvalue⟩ := h t ht hkind
    simp [number?_of_kind hkind, hvalue.read, hkind]
  · simp [hkind, Option.guard]

/-- Digits without a sign have a value. -/
theorem Belongs.exists_hasValue (h : Belongs .number t.lexeme.toList) :
    ∃ value, t.HasValue value := by
  obtain ⟨whole, fraction, hmantissa, hne⟩ := h.exists_mantissa
  obtain ⟨hquantity, hsign⟩ := Binary64.ofDecimal_finite false
    (Decimal.natOfDigits (whole ++ fraction)) (-fraction.length)
  refine ⟨_, ?_, hquantity, hsign⟩
  rw [Binary64.ofChars?, Decimal.ofChars?_of_mantissa hmantissa hne, Option.map_some]

/-- What has a value is written as a number. -/
theorem HasValue.written (h : t.HasValue value) : Decimal.Written t.lexeme.toList := by
  rw [← Decimal.isSome_ofChars?_iff]
  obtain ⟨decimal, hdecimal, -⟩ := Option.map_eq_some_iff.mp h.read
  rw [hdecimal, Option.isSome_some]

end Token

/-- **Every number token of a scan has a value.** -/
theorem Scan.exists_hasValue {text : String} {t : Token} (ht : t ∈ (ofText text).tokens)
    (hkind : t.kind = .number) : ∃ value, t.HasValue value :=
  (belongs_number_of_mem ht hkind).exists_hasValue

/-! ## The numbers of a tree -/

/-- The numbers of the tree from left to right, each token with its value. -/
def Expr.numbers (e : Expr) : List (Token × Binary64) :=
  e.nodes.filterMap fun
    | number t value => some (t, value)
    | _ => none

namespace Expr

variable (op : Token) (e left right : Expr)

theorem numbers_of_isMissing {e : Expr} (h : e.isMissing = true) : e.numbers = [] := by
  cases e with
  | missing => rfl
  | _ => cases h

@[simp] theorem numbers_unary : (unary op e).numbers = e.numbers := by
  rw [numbers, nodes, List.filterMap_cons_none rfl, numbers]

@[simp] theorem numbers_binary :
    (binary op left right).numbers = left.numbers ++ right.numbers := by
  rw [numbers, nodes, List.filterMap_cons_none rfl, List.filterMap_append, numbers, numbers]

@[simp] theorem numbers_grouping : (grouping e).numbers = e.numbers := by
  rw [numbers, nodes, List.filterMap_cons_none rfl, numbers]

end Expr

theorem Literal.numbers_eq {t : Token} {e : Expr} (h : Literal t e) :
    e.numbers = [t].filterMap Token.number? := by
  cases h with
  | number hkind hvalue => simp [Token.number?_of_kind hkind, hvalue, Expr.numbers, Expr.nodes]
  | nil hkind => simp [hkind, Expr.numbers, Expr.nodes]
  | no hkind => simp [hkind, Expr.numbers, Expr.nodes]
  | yes hkind => simp [hkind, Expr.numbers, Expr.nodes]
  | string hkind => simp [hkind, Expr.numbers, Expr.nodes]

theorem ne_number_of_mem_operators {k : Token.Kind} (h : k ∈ signs ∨ k ∈ binaryOperators) :
    k ≠ .number := by
  rintro rfl
  simp [signs, binaryOperators] at h

/-- **The numbers of a tree are those among the tokens that it spells**, in the same order. -/
theorem Spells.numbers_eq {e : Expr} {ts : List Token} (h : Spells e ts) :
    e.numbers = ts.filterMap Token.number? := by
  induction h with
  | absent => rfl
  | @malformed t hkind hvalue =>
    have hnone : t.number? = none := by rw [Token.number?_of_kind hkind, hvalue, Option.map_none]
    rw [List.filterMap_cons_none hnone]
    rfl
  | literal he => exact he.numbers_eq
  | unary hop _ ih =>
    have hnone := Token.number?_of_ne (ne_number_of_mem_operators (.inl hop))
    rw [Expr.numbers_unary, ih, List.filterMap_cons_none hnone]
  | binary hop _ _ ihleft ihright =>
    have hnone := Token.number?_of_ne (ne_number_of_mem_operators (.inr hop))
    rw [Expr.numbers_binary, ihleft, ihright, List.filterMap_append,
      List.filterMap_cons_none hnone]
  | closed hparen _ hclose ih => simp [hparen, hclose, ih]
  | unclosed hparen _ ih => simp [hparen, ih]

/-! ## No malformed number -/

/-- **Where all number tokens are numbers, none is malformed.** -/
theorem Parse.malformedNumber_notMem_faults {tokens : List Token}
    (h : ∀ t ∈ tokens, t.kind = .number → ∃ value, t.HasValue value) (lexeme : String) :
    .malformedNumber lexeme ∉ Diagnostic.faults (ofTokens tokens).diagnostics := by
  unfold ofTokens
  split
  · have hnone : .malformedNumber lexeme ∉ Diagnostic.faults (Cursor.ofTokens tokens).diagnostics :=
      List.not_mem_nil
    -- the tokens ahead stay among those of the list, so each of them has a value
    refine ((Cursor.reads_expression _).invariant_faults
      (P := fun p => p.rest ⊆ tokens ∧ .malformedNumber lexeme ∉ Diagnostic.faults p.diagnostics)
      ?_ ?_ ?_ ⟨List.filter_sublist.subset, hnone⟩).2
    · rintro p t _ _ ⟨hrest, hp⟩
      rw [Cursor.diagnostics_advance]
      exact ⟨List.Subset.trans (Cursor.suffix_advance p).subset hrest, hp⟩
    · rintro p fault hfault ⟨hrest, hp⟩
      refine ⟨hrest, ?_⟩
      rw [Cursor.diagnostics_fail, Diagnostic.faults_append, List.mem_append, not_or]
      refine ⟨hp, ?_⟩
      rcases hfault with rfl | rfl <;> simp
    · rintro p t ht hkind hvalue ⟨hrest, -⟩
      obtain ⟨value, hread⟩ := h t (hrest (Cursor.mem_rest_of_peek ht)) hkind
      rw [hread.read] at hvalue
      cases hvalue
  · exact List.not_mem_nil

namespace Reading

variable {text : String}

/-- No malformed number is reported of a text. -/
theorem malformedNumber_notMem_faults (lexeme : String) :
    .malformedNumber lexeme ∉ Diagnostic.faults (ofText text).diagnostics := by
  intro hmem
  obtain ⟨d, hd, hcause⟩ := List.mem_filterMap.mp hmem
  rcases mem_diagnostics_ofText hd with hscan | hparse
  · rcases (Scan.tiles_ofText text).faults d hscan with hbody | ⟨c, hbody, -⟩
    · rw [Diagnostic.fault?, hbody] at hcause
      cases hcause
    · rw [Diagnostic.fault?, hbody] at hcause
      cases hcause
  · exact Parse.malformedNumber_notMem_faults (fun t ht hkind => Scan.exists_hasValue ht hkind)
      lexeme (List.mem_filterMap.mpr ⟨d, hparse, hcause⟩)

/-- **What is scanned as a number is a number.** Every number token of a text is a number in decimal
writing and has a value, which is a quantity and not negative, so no malformed number is reported of
any text. The tree of a text is the one that is read from its tokens, and it is there if a number is
among those that are taken for it. Its numbers are just the number tokens taken, in order, each with
its value. -/
theorem numbers_of_text (text : String) :
    (∀ t ∈ (ofText text).tokens, t.kind = .number →
      Decimal.Written t.lexeme.toList ∧ ∃ value, t.HasValue value) ∧
    (∀ lexeme, .malformedNumber lexeme ∉ Diagnostic.faults (ofText text).diagnostics) ∧
    let start := Cursor.ofTokens (ofText text).tokens
    let tree := start.expression.expr
    (∀ e, (ofText text).result = .ok e → e = tree) ∧
    ∃ taken, start.rest = taken ++ start.expression.after.rest ∧
      ((∃ t ∈ taken, t.kind = .number) → (ofText text).result = .ok tree) ∧
      tree.numbers.map Prod.fst = taken.filter (fun t => t.kind == .number) ∧
      ∀ t value, (t, value) ∈ tree.numbers → t.HasValue value := by
  have hvalues : ∀ t ∈ (ofText text).tokens, t.kind = .number → ∃ value, t.HasValue value := by
    intro t ht hkind
    rw [tokens_ofText] at ht
    exact Scan.exists_hasValue ht hkind
  refine ⟨fun t ht hkind => ?_, malformedNumber_notMem_faults, ?_⟩
  · obtain ⟨value, hvalue⟩ := hvalues t ht hkind
    exact ⟨hvalue.written, value, hvalue⟩
  intro start tree
  obtain ⟨taken, hrest, hspells, htaken⟩ :=
    Cursor.exists_spells_expression (ofText text).tokens
  have hnumbers : tree.numbers = taken.filterMap Token.number? := hspells.numbers_eq
  have hfirst : tree.numbers.map Prod.fst = taken.filter fun t => t.kind == .number := by
    rw [hnumbers]
    exact Token.map_fst_filterMap_number? fun t ht => hvalues t (htaken t ht)
  refine ⟨fun e => eq_expression_of_eq_ok, taken, hrest, ?_, hfirst, ?_⟩
  · rintro ⟨t, ht, hkind⟩
    have hparsed := (ofText_of_mem_tokens (htaken t ht) (by simp [Token.isComment, hkind])
      (by simp [Token.isEof, hkind])).1
    refine hparsed (Bool.eq_false_iff.mpr fun hmissing => ?_)
    -- a tree that is only a missing operand would have no numbers
    have hmem : t ∈ tree.numbers.map Prod.fst := by
      rw [hfirst, List.mem_filter]
      exact ⟨ht, beq_iff_eq.mpr hkind⟩
    rw [Expr.numbers_of_isMissing hmissing] at hmem
    cases hmem
  · intro t value hmem
    rw [hnumbers] at hmem
    obtain ⟨u, hu, hnumber⟩ := List.mem_filterMap.mp hmem
    obtain ⟨rfl, hkind, hread⟩ := Token.number?_eq_some_iff.mp hnumber
    obtain ⟨value', hvalue⟩ := hvalues u (htaken u hu) hkind
    obtain rfl := Option.some.inj (hvalue.read.symm.trans hread)
    exact hvalue

/-- In `-(1.50 + 007 * 2.x` the point behind the last number is a token of its own. -/
theorem numbers_of_text_of_point :
    let reading := ofText "-(1.50 + 007 * 2.x"
    let start := Cursor.ofTokens reading.tokens
    let tree := start.expression.expr
    tree.numbers.map (fun number => (number.1.lexeme, number.2.bits)) =
      [("1.50", 0x3FF8000000000000), ("007", 0x401C000000000000), ("2", 0x4000000000000000)] ∧
    (∀ t ∈ reading.tokens, t.kind = .number →
      Decimal.Written t.lexeme.toList ∧ ∃ value, t.HasValue value) ∧
    (∀ lexeme, .malformedNumber lexeme ∉ Diagnostic.faults reading.diagnostics) ∧
    (∀ e, reading.result = .ok e → e = tree) ∧
    ∃ taken, start.rest = taken ++ start.expression.after.rest ∧
      ((∃ t ∈ taken, t.kind = .number) → reading.result = .ok tree) ∧
      tree.numbers.map Prod.fst = taken.filter (fun t => t.kind == .number) ∧
      ∀ t value, (t, value) ∈ tree.numbers → t.HasValue value := by
  intro reading start tree
  exact ⟨by decide +kernel, numbers_of_text _⟩

end Reading

end ExprReader
