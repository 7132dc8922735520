import Mathlib.Data.List.Forall2
import ExprReader.Proofs.Expr.Grammar
import ExprReader.Proofs.Expr.Simulation

/-!
# Comments and layout

A parser sees neither the comments among its tokens nor how far the others stand apart. Where tokens
stand shows only in the places that it reports, so lists that differ in comments and places give the
same tree and the same faults, and if the places are the same too, they give the same parse.

## Main definitions

* `Token.Alike t u`: the tokens differ in their places at most
* `Token.unplaced t`: the token without its place
* `Cursor.Alike p q`: what is ahead, and what has been reported, differ in places at most

## Main results

* `Cursor.simulation_alike`: cursors that are alike stay so
* `Cursor.ofTokens_eq_of_filter_eq`: comments leave nothing in a cursor
* `Parse.ofTokens_alike`: parses of lists that differ in comments and places
-/

namespace ExprReader

namespace Token

/-- The tokens differ in their places at most. -/
structure Alike (t u : Token) : Prop where
  kind_eq : t.kind = u.kind
  lexeme_eq : t.lexeme = u.lexeme

/-- The token without its place. -/
def unplaced (t : Token) : Token := { t with offset := 0 }

variable {t u : Token} {ts us : List Token}

theorem kind_unplaced (t : Token) : t.unplaced.kind = t.kind := rfl

theorem lexeme_unplaced (t : Token) : t.unplaced.lexeme = t.lexeme := rfl

theorem Alike.unplaced_eq (h : t.Alike u) : t.unplaced = u.unplaced := by
  rw [unplaced, unplaced, h.kind_eq, h.lexeme_eq]

theorem map_unplaced_eq (h : List.Forall₂ Alike ts us) : ts.map unplaced = us.map unplaced := by
  induction h with
  | nil => rfl
  | cons h _ ih => rw [List.map_cons, List.map_cons, h.unplaced_eq, ih]

/-- Tokens that are alike and stand at the same places are the same. -/
theorem eq_of_map_offset_eq (h : List.Forall₂ Alike ts us)
    (hoffset : ts.map offset = us.map offset) : ts = us := by
  induction h with
  | nil => rfl
  | @cons t u ts us h _ ih =>
    rw [List.map_cons, List.map_cons, List.cons.injEq] at hoffset
    have htoken : t = u := calc
      t = ⟨t.kind, t.lexeme, t.offset⟩ := rfl
      _ = ⟨u.kind, u.lexeme, u.offset⟩ := by rw [h.kind_eq, h.lexeme_eq, hoffset.1]
      _ = u := rfl
    rw [htoken, ih hoffset.2]

end Token

namespace Cursor

/-- What is ahead, and what has been reported, differ in places at most. -/
structure Alike (p p' : Cursor) : Prop where
  rest_eq : p.rest.map Token.unplaced = p'.rest.map Token.unplaced
  diagnostics_eq : p.diagnostics.map Diagnostic.body = p'.diagnostics.map Diagnostic.body

theorem Alike.peek_eq {p p' : Cursor} (h : p.Alike p') :
    p.peek.map Token.unplaced = p'.peek.map Token.unplaced := by
  rw [peek, peek, ← List.head?_map, ← List.head?_map, h.rest_eq]

/-- **Cursors that are alike stay so.** -/
theorem simulation_alike : Simulation Token.unplaced [] Alike where
  kind_eq := Token.kind_unplaced
  lexeme_eq := Token.lexeme_unplaced
  peek_eq h _ := h.peek_eq
  advance {p p' t} h ht heof _ := by
    have hpeek := h.peek_eq
    rw [ht, Option.map_some, eq_comm, Option.map_eq_some_iff] at hpeek
    obtain ⟨t', ht', heq⟩ := hpeek
    have hkind : t'.kind = t.kind := by
      rw [← Token.kind_unplaced t', heq, Token.kind_unplaced]
    have hrest := h.rest_eq
    rw [rest_eq_cons_advance ht heof, rest_eq_cons_advance ht' (hkind ▸ heof), List.map_cons,
      List.map_cons, List.cons.injEq] at hrest
    exact ⟨hrest.2, by rw [diagnostics_advance, diagnostics_advance, h.diagnostics_eq]⟩
  fail h _ fault := ⟨h.rest_eq, by
    rw [diagnostics_fail, diagnostics_fail, List.map_append, List.map_append, h.diagnostics_eq]
    rfl⟩
  report h _ fault := ⟨h.rest_eq, by
    rw [diagnostics_report, diagnostics_report, List.map_append, List.map_append, h.diagnostics_eq]
    rfl⟩

/-- **Comments leave nothing in a cursor**, at least if they do not come last. -/
theorem ofTokens_eq_of_filter_eq {tokens tokens' : List Token}
    (hend : tokens.getLast?.any Token.isEof = true)
    (hend' : tokens'.getLast?.any Token.isEof = true)
    (h : (tokens.filter fun t => !t.isComment) = tokens'.filter fun t => !t.isComment) :
    ofTokens tokens = ofTokens tokens' := by
  -- the mark of the end is no comment, so it is the last of the other tokens as well
  have hlast : ∀ {ts : List Token}, ts.getLast?.any Token.isEof = true →
      ts.getLast? = (ts.filter fun t => !t.isComment).getLast? := by
    intro ts hts
    obtain ⟨front, mark, rfl, -, hcomment⟩ := Token.exists_mark hts
    simp [hcomment]
  rw [ofTokens, ofTokens, hlast hend, hlast hend', h]

end Cursor

namespace Parse

/-- **Comments and layout do not matter.** If two lists end with the mark of the end and their
tokens that are no comments are alike, then either both have a tree, and the trees are the same but
for the places of their tokens, or both have none because no token at the front belongs to an
expression; and the same is reported, but for the places. If the tokens stand at the same places as
well, the parses are equal in everything. -/
theorem ofTokens_alike (tokens tokens' : List Token)
    (hend : tokens.getLast?.any Token.isEof = true)
    (hend' : tokens'.getLast?.any Token.isEof = true)
    (halike : List.Forall₂ Token.Alike (tokens.filter fun t => !t.isComment)
      (tokens'.filter fun t => !t.isComment)) :
    let parse := ofTokens tokens
    let parse' := ofTokens tokens'
    ((∃ e e', parse.result = .ok e ∧ parse'.result = .ok e' ∧
          e.mapTokens Token.unplaced = e'.mapTokens Token.unplaced ∧ e.render = e'.render) ∨
        ∃ offset offset', parse.result = .error (.noExpression offset) ∧
          parse'.result = .error (.noExpression offset')) ∧
      parse.diagnostics.map Diagnostic.body = parse'.diagnostics.map Diagnostic.body ∧
      ((tokens.filter fun t => !t.isComment).map Token.offset =
        (tokens'.filter fun t => !t.isComment).map Token.offset → parse = parse') := by
  intro parse parse'
  have hparse : parse = _ := ofTokens_of_getLast? hend
  have hparse' : parse' = _ := ofTokens_of_getLast? hend'
  have hstart : (Cursor.ofTokens tokens).Alike (Cursor.ofTokens tokens') :=
    ⟨Token.map_unplaced_eq halike, rfl⟩
  obtain ⟨htree, hafter⟩ := Cursor.simulation_alike.expression hstart (List.nil_suffix)
  have hmissing := congrArg Expr.isMissing htree
  rw [Expr.isMissing_mapTokens, Expr.isMissing_mapTokens] at hmissing
  refine ⟨?_, ?_, ?_⟩
  · rw [hparse, hparse']
    by_cases hnone : (Cursor.ofTokens tokens).expression.expr.isMissing = true
    · right
      refine ⟨_, _, if_pos hnone, if_pos (hmissing ▸ hnone)⟩
    · left
      refine ⟨_, _, if_neg hnone, if_neg (hmissing ▸ hnone), htree, ?_⟩
      have hrender := congrArg Expr.render htree
      rwa [Expr.render_mapTokens Token.lexeme_unplaced,
        Expr.render_mapTokens Token.lexeme_unplaced] at hrender
  · rw [hparse, hparse']
    exact hafter.diagnostics_eq
  · intro hoffset
    have hcursor := Cursor.ofTokens_eq_of_filter_eq hend hend'
      (Token.eq_of_map_offset_eq halike hoffset)
    rw [hparse, hparse', hcursor]

/-- `(1 +` with comments before, between and behind its tokens, and without. -/
theorem ofTokens_alike_of_comments :
    let tokens : List Token := [⟨.comment, "// a", 0⟩, ⟨.leftParen, "(", 5⟩, ⟨.comment, "// b", 7⟩,
      ⟨.comment, "//", 12⟩, ⟨.number, "1", 15⟩, ⟨.plus, "+", 17⟩, ⟨.comment, "// c", 19⟩,
      ⟨.eof, "", 23⟩]
    let tokens' : List Token := [⟨.leftParen, "(", 0⟩, ⟨.number, "1", 1⟩, ⟨.plus, "+", 2⟩,
      ⟨.eof, "", 3⟩]
    let parse := ofTokens tokens
    let parse' := ofTokens tokens'
    tokens.getLast?.any Token.isEof = true ∧ tokens'.getLast?.any Token.isEof = true ∧
      List.Forall₂ Token.Alike (tokens.filter fun t => !t.isComment)
        (tokens'.filter fun t => !t.isComment) ∧
      parse.diagnostics = [.error .missingOperand (.point 18), .error .missingParen (.point 18)] ∧
      ((∃ e e', parse.result = .ok e ∧ parse'.result = .ok e' ∧
            e.mapTokens Token.unplaced = e'.mapTokens Token.unplaced ∧ e.render = e'.render) ∨
          ∃ offset offset', parse.result = .error (.noExpression offset) ∧
            parse'.result = .error (.noExpression offset')) ∧
        parse.diagnostics.map Diagnostic.body = parse'.diagnostics.map Diagnostic.body ∧
        ((tokens.filter fun t => !t.isComment).map Token.offset =
          (tokens'.filter fun t => !t.isComment).map Token.offset → parse = parse') := by
  intro tokens tokens' parse parse'
  have hend : tokens.getLast?.any Token.isEof = true := rfl
  have hend' : tokens'.getLast?.any Token.isEof = true := rfl
  have halike : List.Forall₂ Token.Alike (tokens.filter fun t => !t.isComment)
      (tokens'.filter fun t => !t.isComment) :=
    .cons ⟨rfl, rfl⟩ (.cons ⟨rfl, rfl⟩ (.cons ⟨rfl, rfl⟩ (.cons ⟨rfl, rfl⟩ .nil)))
  exact ⟨hend, hend', halike, by decide +kernel, ofTokens_alike tokens tokens' hend hend' halike⟩

end Parse

end ExprReader
