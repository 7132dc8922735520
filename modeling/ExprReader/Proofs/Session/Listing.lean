import ExprReader.Proofs.Session.Answer
import ExprReader.Proofs.Source.Index
import ExprReader.Proofs.Text.Decode
import ExprReader.Proofs.Text.Unescape
import ExprReader.Proofs.Token.Tiling

/-!
# Listings

A listing of tokens is put in front of what is answered without it, and changes nothing else. It
has one line for each token, and the line tells the kind of the token and its spelling. Since the
mark of the end comes last, and no other token is one, a reader of the results knows where the
listing ends, whatever the tree behind it looks like.

## Main definitions

* `Token.entry t`: what a listing tells of a token
* `Token.readLine cs`: the entry of the first line, and what is left
* `Token.readListing cs`: the entries up to that of the mark of the end, and what is left
* `Session.readResults bytes`: the same for results as they are written

## Main results

* `Token.readLine_display`: the line of a token is read back
* `Token.readListing_lines`: so are the lines of tokens that end with the mark of the end
* `Session.lines_listing`: a listing has one line for each token
* `Session.answer_listing`: what an answer with a listing writes, and how it is read back
-/

namespace ExprReader

namespace Token

/-- What a listing tells of a token. -/
def entry (t : Token) : Kind × String := (t.kind, t.lexeme)

/-- Reads the line of a token: the name of a kind in brackets, and a spelling with its escapes
between quotes. -/
def readLine : List Char → Option ((Kind × String) × List Char)
  | '[' :: cs =>
    match cs.dropWhile (· != ']') with
    | ']' :: ' ' :: '"' :: body =>
      match Kind.ofName? (String.ofList (cs.takeWhile (· != ']'))), Text.readQuoted body with
      | some kind, some (lexeme, '\n' :: rest) => some ((kind, String.ofList lexeme), rest)
      | _, _ => none
    | _ => none
  | _ => none

variable {t : Token} {e : Kind × String} {cs rest : List Char}

/-! ## One line -/

/-- Reading a line leaves less. -/
theorem length_readLine (h : readLine cs = some (e, rest)) : rest.length < cs.length := by
  revert h
  fun_cases readLine cs with
  | case1 cs body hbody kind lexeme left hquoted hkind =>
    intro h
    obtain ⟨-, rfl⟩ := Prod.mk.inj (Option.some.inj h)
    have hdrop := (List.dropWhile_suffix (· != ']') (l := cs)).length_le
    have hread := Text.length_readQuoted hquoted
    rw [hbody] at hdrop
    simp only [List.length_cons] at hdrop hread ⊢
    omega
  | case2 => nofun
  | case3 => nofun
  | case4 => nofun

/-- The name of a kind has no bracket and no line feed. -/
theorem notMem_name (k : Kind) : ']' ∉ k.name.toList ∧ '\n' ∉ k.name.toList := by
  cases k <;> decide

theorem toList_display (t : Token) :
    t.display.toList = '[' :: (t.kind.name.toList ++
      ']' :: ' ' :: '"' :: (Text.escape t.lexeme.toList ++ ['"'])) := by
  simp [display]

/-- **The line of a token is read back.** -/
theorem readLine_display (t : Token) (rest : List Char) :
    readLine (t.display.toList ++ '\n' :: rest) = some (t.entry, rest) := by
  have hname : ∀ c ∈ t.kind.name.toList, (c != ']') = true := by
    intro c hc
    exact bne_iff_ne.mpr fun h => (notMem_name t.kind).1 (h ▸ hc)
  rw [toList_display, List.cons_append, List.append_assoc, readLine]
  simp [List.dropWhile_append_of_pos hname, List.takeWhile_append_of_pos hname, Kind.ofName?_name,
    Text.readQuoted_escape, entry]

/-- There is no line feed in the line of a token. -/
theorem feed_notMem_display (t : Token) : '\n' ∉ t.display.toList := by
  rw [toList_display]
  simp [(notMem_name t.kind).2, Text.feed_notMem_escape]

/-! ## Many lines -/

/-- Reads lines up to that of the mark of the end. -/
def readListing (cs : List Char) : Option (List (Kind × String) × List Char) :=
  match _ : readLine cs with
  | none => none
  | some (e, rest) =>
    if e.1 = .eof then some ([e], rest)
    else (readListing rest).map fun (entries, left) => (e :: entries, left)
termination_by cs.length
decreasing_by exact length_readLine ‹_›

theorem readListing_of_readLine (h : readLine cs = some (e, rest)) :
    readListing cs = if e.1 = .eof then some ([e], rest)
      else (readListing rest).map fun (entries, left) => (e :: entries, left) := by
  rw [readListing]
  split
  · simp_all
  · rename_i heq
    obtain ⟨rfl, rfl⟩ := Prod.mk.inj (Option.some.inj (heq.symm.trans h))
    rfl

/-- **The lines of tokens are read back** if the last token marks the end and no other does,
whatever comes behind. -/
theorem readListing_lines {front : List Token} {mark : Token} (hfront : ∀ t ∈ front, t.kind ≠ .eof)
    (hmark : mark.kind = .eof) (rest : List Char) :
    readListing (((front ++ [mark]).flatMap fun t => t.display.toList ++ ['\n']) ++ rest) =
      some ((front ++ [mark]).map entry, rest) := by
  induction front with
  | nil =>
    have hline := readLine_display mark rest
    have hmark : mark.entry.1 = .eof := hmark
    simp only [List.nil_append, List.flatMap_singleton, List.append_assoc, List.singleton_append]
    rw [readListing_of_readLine hline, if_pos hmark]
    rfl
  | cons t front ih =>
    rw [List.forall_mem_cons] at hfront
    have ht : t.entry.1 ≠ .eof := hfront.1
    rw [List.cons_append, List.flatMap_cons, List.append_assoc, List.append_assoc,
      List.singleton_append, readListing_of_readLine (readLine_display t _), if_neg ht,
      ih hfront.2]
    rfl

end Token

namespace Session

/-- Reads the listing off the front of some results. -/
def readResults (bytes : List UInt8) : Option (List (Token.Kind × String) × List UInt8) :=
  (Token.readListing (Text.decode bytes)).map fun (entries, rest) => (entries, Text.encode rest)

/-- The line of a token as it is written. -/
def line (t : Token) : List UInt8 := Text.encode (t.display ++ "\n").toList

/-- **A listing has one line for each token.** -/
theorem lines_listing (tokens : List Token) :
    Reader.lines (tokens.flatMap line) = tokens.map line := by
  induction tokens with
  | nil => rfl
  | cons t tokens ih =>
    have hline : line t = Text.encode t.display.toList ++ [Reader.lineFeed] := by
      rw [line, String.toList_append, Text.encode_append]
      rfl
    have hfeed : Reader.lineFeed ∉ Text.encode t.display.toList :=
      fun h => t.feed_notMem_display (Text.feed_mem_encode_iff.mp h)
    rw [List.flatMap_cons, List.map_cons, hline, List.append_assoc, List.singleton_append,
      Reader.lines_append_feed hfeed, ih]

/-- A listing is the lines of the tokens as one text. -/
theorem encode_listing (tokens : List Token) :
    tokens.flatMap line = Text.encode (tokens.flatMap fun t => t.display.toList ++ ['\n']) := by
  rw [Text.encode, List.flatMap_assoc]
  exact List.flatMap_congr fun t _ => by rw [line, String.toList_append]; rfl

/-- The line with the tree is text. -/
theorem exists_treeLine (text : String) : ∃ cs, treeLine text = Text.encode cs := by
  unfold treeLine
  split
  · exact ⟨_, rfl⟩
  · exact ⟨[], rfl⟩

/-- **A listing is read back** off the front of the results. -/
theorem readResults_listing (text : String) :
    readResults ((Reading.ofText text).tokens.flatMap line ++ treeLine text) =
      some ((Reading.ofText text).tokens.map Token.entry, treeLine text) := by
  obtain ⟨front, htokens, hfront⟩ := (Scan.tiles_ofText text).ends
  obtain ⟨tree, htree⟩ := exists_treeLine text
  rw [Reading.tokens_ofText, htokens, htree, encode_listing, ← Text.encode_append, readResults,
    Text.decode_encode, Token.readListing_lines hfront rfl]
  rfl

/-- **A listing is put in front** of what is answered without it. -/
theorem answer_listing (name text : String) {c : Console} (hc : c.Unlimited) :
    let source := Source.ofText name text
    let tokens := (Reading.ofText text).tokens
    ∃ b plain full listing info out err,
      answer ⟨false⟩ source c = .ok b plain ∧ answer ⟨true⟩ source c = .ok b full ∧
      plain.written .out = c.written .out ++ out ∧ plain.written .err = c.written .err ++ err ∧
      full.written .out = c.written .out ++ (listing ++ out) ∧
      full.written .err = c.written .err ++ (info ++ err) ∧
      info = (notes tokens).flatMap (Diagnostic.shown source c.colored) ∧
      Reader.lines listing = tokens.map line ∧
      (∀ t ∈ tokens, '\n' ∉ Text.escape t.lexeme.toList ∧
        ∀ front back, Text.escape t.lexeme.toList = front ++ '"' :: back →
          Text.opensEscape front = true) ∧
      readResults (listing ++ out) = some (tokens.map Token.entry, out) := by
  intro source tokens
  obtain ⟨plain, hplain, hplainTakes⟩ := (emits_answer ⟨false⟩ name text c).exists_takes hc
  obtain ⟨full, hfull, hfullTakes⟩ := (emits_answer ⟨true⟩ name text c).exists_takes hc
  refine ⟨_, plain, full, tokens.flatMap line,
    (notes tokens).flatMap (Diagnostic.shown source c.colored), treeLine text,
    told ⟨false⟩ source c.colored, hplain, hfull, ?_, ?_, ?_, ?_, rfl, lines_listing tokens,
    fun t _ => ⟨Text.feed_notMem_escape _, fun _ _ => Text.opensEscape_of_quote⟩,
    readResults_listing text⟩
  · rw [hplainTakes.written, forStream_out_output]
    rfl
  · rw [hplainTakes.written, forStream_err_output]
  · rw [hfullTakes.written, forStream_out_output]
    rfl
  · rw [hfullTakes.written, forStream_err_output]
    rfl

/-- A string with a name of the mark of the end, a line feed, a backslash and a tab, and a comment
with a quote behind a backslash. -/
theorem answer_listing_of_escapes :
    let text := "\"[EOF]\n\\\t\" + 1 // \\\""
    let source := Source.ofText "repl" text
    let tokens := (Reading.ofText text).tokens
    ({} : Console).Unlimited ∧
      tokens.map Token.entry = [(.string, "[EOF]\n\\\t"), (.plus, "+"), (.number, "1"),
        (.comment, "// \\\""), (.eof, "")] ∧
      ∃ b plain full listing info out err,
        answer ⟨false⟩ source {} = .ok b plain ∧ answer ⟨true⟩ source {} = .ok b full ∧
        plain.written .out = [] ++ out ∧ plain.written .err = [] ++ err ∧
        full.written .out = [] ++ (listing ++ out) ∧
        full.written .err = [] ++ (info ++ err) ∧
        info = (notes tokens).flatMap (Diagnostic.shown source false) ∧
        Reader.lines listing = tokens.map line ∧
        (∀ t ∈ tokens, '\n' ∉ Text.escape t.lexeme.toList ∧
          ∀ front back, Text.escape t.lexeme.toList = front ++ '"' :: back →
            Text.opensEscape front = true) ∧
        readResults (listing ++ out) = some (tokens.map Token.entry, out) :=
  ⟨⟨rfl, rfl⟩, by decide +kernel, answer_listing "repl" _ ⟨rfl, rfl⟩⟩

end Session

end ExprReader
