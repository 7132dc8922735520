import ExprReader.Proofs.Diagnostic.Outcome
import ExprReader.Proofs.Expr.Spans
import ExprReader.Proofs.Token.Spans
import ExprReader.Session

/-!
# What a session answers

Whatever a text holds, a session can answer it: all diagnostics of the text and all notes on its
tokens have spans that fit the text, so each of them can be shown, and on a console without limits
the answer is written in full.

## Main definitions

* `Diagnostic.shown source colored d`: the bytes of a diagnostic
* `Failure.ofStream stream reason`: why a session ends when a stream takes no more
* `Session.output options source colored`: all that an answer offers to the streams

## Main results

* `Reading.fits_of_mem_diagnostics`: the span of every diagnostic of a text fits the text
* `Diagnostic.shown_ne_nil`: a diagnostic that can be shown leaves something to be seen
* `emits_answer`: what an answer offers to the streams
* `answer_total`: every text is answered in full, and all that this takes from the text is there
-/

namespace ExprReader

/-! ## Diagnostics -/

namespace Diagnostic

/-- The bytes of a diagnostic; none if it cannot be shown. -/
def shown (source : Source) (colored : Bool) (d : Diagnostic) : List UInt8 :=
  match Annotation.ofDiagnostic source d with
  | .ok annotation => Text.encode <| annotation.render colored
  | .error _ => []

/-- A diagnostic that can be shown leaves something to be seen. -/
theorem shown_ne_nil {source : Source} {d : Diagnostic} (h : d.Shows source) (colored : Bool) :
    d.shown source colored ≠ [] := by
  obtain ⟨_, _, annotation, -, -, -, hannotation, -⟩ := h
  -- whatever the style is, there is the line feed at the end
  have hfeed : Piece.text ['\n'] ∈ annotation.pieces := by
    unfold Annotation.pieces
    simp
  have hmem : '\n' ∈ annotation.render colored := by
    refine List.mem_flatMap.mpr ⟨_, hfeed, ?_⟩
    cases colored <;> exact List.mem_singleton_self _
  simp only [shown, hannotation]
  rw [ne_eq, ← List.length_eq_zero_iff, Text.length_encode]
  exact Nat.ne_of_gt (Text.byteLength_pos (List.ne_nil_of_mem hmem))

theorem emits_write {source : Source} {d : Diagnostic} (h : d.Shows source) :
    Console.Emits (fun _ => .broken) (d.write source) () fun colored =>
      Console.tag .err (d.shown source colored) := by
  obtain ⟨_, _, annotation, -, -, -, hannotation, -⟩ := h
  rw [write_of_ok hannotation]
  simp only [shown, hannotation]
  exact annotation.emits_write

theorem emits_writeAll {source : Source} {ds : List Diagnostic} (h : ∀ d ∈ ds, d.Shows source) :
    Console.Emits (fun _ => .broken) (writeAll source ds) () fun colored =>
      Console.tag .err (ds.flatMap (shown source colored)) := by
  induction ds with
  | nil => exact Console.emits_pure _ ()
  | cons d rest ih =>
    rw [List.forall_mem_cons] at h
    simp only [List.flatMap_cons, Console.tag_append]
    exact (emits_write h.1).bind (ih h.2)

end Diagnostic

/-! ## Readings -/

namespace Reading

theorem tokens_ofText (text : String) : (ofText text).tokens = (Scan.ofText text).tokens := by
  unfold ofText
  dsimp only
  split <;> rfl

/-- The diagnostics of a text are those of its scan, and of the parse of its tokens if there is
one. -/
theorem mem_diagnostics_ofText {text : String} {d : Diagnostic}
    (h : d ∈ (ofText text).diagnostics) :
    d ∈ (Scan.ofText text).diagnostics ∨
      d ∈ (Parse.ofTokens (Scan.ofText text).tokens).diagnostics := by
  unfold ofText at h
  dsimp only at h
  split at h
  · exact .inl h
  · exact List.mem_append.mp h

/-- **The span of every diagnostic of a text fits the text.** -/
theorem fits_of_mem_diagnostics {text : String} {d : Diagnostic}
    (h : d ∈ (ofText text).diagnostics) : d.span.Fits text.toList := by
  rcases mem_diagnostics_ofText h with h | h
  · exact Scan.fits_of_mem_diagnostics h
  · exact Parse.span_of_mem_diagnostics (P := fun s => s.Fits text.toList)
      (fun _ hs => hs.point_stop) (fun _ ht => Scan.fits_span_of_mem_tokens ht) d h

/-- The span of every token of a text has the spelling of the token for its slice. -/
theorem slice?_span_of_mem_tokens {text : String} {t : Token} (h : t ∈ (ofText text).tokens) :
    Text.slice? t.span.start t.span.stop text.toList = some t.lexeme.toList :=
  Scan.slice?_span_of_mem_tokens (tokens_ofText text ▸ h)

end Reading

/-! ## Answers -/

/-- Why a session ends when a stream takes no more. -/
def Failure.ofStream : Stream → String → Failure
  | .out, reason => .writeOutput reason
  | .err, reason => .display (.broken reason)

namespace Session

/-- A line of results for each token, and then a note on each. -/
def listing (source : Source) (tokens : List Token) (colored : Bool) : List (Stream × UInt8) :=
  Console.tag .out (tokens.flatMap fun t => Text.encode (t.display ++ "\n").toList) ++
    Console.tag .err ((notes tokens).flatMap (Diagnostic.shown source colored))

/-- All that an answer offers to the streams. -/
def output (options : Options) (source : Source) (colored : Bool) : List (Stream × UInt8) :=
  let reading := Reading.ofText source.text
  (if options.listTokens then listing source reading.tokens colored else []) ++
    (Console.tag .err (reading.diagnostics.flatMap (Diagnostic.shown source colored)) ++
      match reading.result with
      | .ok expr => Console.tag .out (Text.encode (expr.render ++ "\n").toList)
      | .error _ => [])

/-- The results that stand before the tree: the listing of the tokens, if it is asked for. -/
def listed (options : Options) (text : String) : List UInt8 :=
  if options.listTokens then
    (Reading.ofText text).tokens.flatMap fun t => Text.encode (t.display ++ "\n").toList
  else []

/-- All that is told about a source: the notes on its tokens, if the listing is asked for, and the
diagnostics. -/
def told (options : Options) (source : Source) (colored : Bool) : List UInt8 :=
  let reading := Reading.ofText source.text
  (if options.listTokens then
      (notes reading.tokens).flatMap (Diagnostic.shown source colored) else []) ++
    reading.diagnostics.flatMap (Diagnostic.shown source colored)

/-- The line with the tree of a text, if the text has one. -/
def treeLine (text : String) : List UInt8 :=
  match (Reading.ofText text).result with
  | .ok expr => Text.encode (expr.render ++ "\n").toList
  | .error _ => []

/-- **An answer has three parts**: the listing, all that is told, and the tree. -/
theorem output_eq (options : Options) (source : Source) (colored : Bool) :
    output options source colored =
      Console.tag .out (listed options source.text) ++
        (Console.tag .err (told options source colored) ++
          Console.tag .out (treeLine source.text)) := by
  have htree : (match (Reading.ofText source.text).result with
      | .ok expr => Console.tag .out (Text.encode (expr.render ++ "\n").toList)
      | .error _ => []) = Console.tag .out (treeLine source.text) := by
    unfold treeLine
    split <;> rfl
  simp only [output, listed, told, listing, htree]
  cases options.listTokens <;> simp [Console.tag]

/-- On the stream of diagnostics stands all that is told. -/
theorem forStream_err_output (options : Options) (source : Source) (colored : Bool) :
    Console.forStream .err (output options source colored) = told options source colored := by
  rw [output_eq]
  simp [Console.forStream_tag_of_ne]

/-- On the stream of results stand the listing and the tree. -/
theorem forStream_out_output (options : Options) (source : Source) (colored : Bool) :
    Console.forStream .out (output options source colored) =
      listed options source.text ++ treeLine source.text := by
  rw [output_eq]
  simp [Console.forStream_tag_of_ne]

theorem emits_print (text : String) :
    Console.Emits Failure.ofStream (print text) () fun _ =>
      Console.tag .out (Text.encode text.toList) := by
  refine ((Console.emits_write .out _).adaptExcept _).congr fun _ p hp => ?_
  rw [Console.fst_of_mem_tag hp]
  rfl

theorem emits_explain {source : Source} {ds : List Diagnostic} (h : ∀ d ∈ ds, d.Shows source) :
    Console.Emits Failure.ofStream (explain source ds) () fun colored =>
      Console.tag .err (ds.flatMap (Diagnostic.shown source colored)) := by
  refine ((Diagnostic.emits_writeAll h).adaptExcept _).congr fun _ p hp => ?_
  rw [Console.fst_of_mem_tag hp]
  rfl

theorem emits_printTokens (tokens : List Token) :
    Console.Emits Failure.ofStream (printTokens tokens) () fun _ =>
      Console.tag .out (tokens.flatMap fun t => Text.encode (t.display ++ "\n").toList) := by
  induction tokens with
  | nil => exact Console.emits_pure _ ()
  | cons t rest ih =>
    simp only [List.flatMap_cons, Console.tag_append]
    exact (emits_print _).bind ih

theorem emits_listTokens {source : Source} {tokens : List Token}
    (h : ∀ d ∈ notes tokens, d.Shows source) :
    Console.Emits Failure.ofStream (listTokens source tokens) () (listing source tokens) :=
  (emits_printTokens tokens).bind (emits_explain h)

/-- Every diagnostic of a text and every note on its tokens can be shown. -/
theorem shows_of_mem (name : String) {text : String} {d : Diagnostic}
    (h : d ∈ (Reading.ofText text).diagnostics ++ notes (Reading.ofText text).tokens) :
    d.Shows (Source.ofText name text) := by
  refine Diagnostic.shows_of_fits ?_ name
  rcases List.mem_append.mp h with h | h
  · exact Reading.fits_of_mem_diagnostics h
  · obtain ⟨t, ht, rfl⟩ := List.mem_map.mp h
    rw [Reading.tokens_ofText] at ht
    exact Scan.fits_span_of_mem_tokens ht

/-- **What an answer offers to the streams**, and whether it tells of a fault. -/
theorem emits_answer (options : Options) (name text : String) :
    Console.Emits Failure.ofStream (answer options (Source.ofText name text))
      (Reading.ofText text).hasFault (output options (Source.ofText name text)) := by
  have hshows : ∀ d ∈ (Reading.ofText text).diagnostics ++ notes (Reading.ofText text).tokens,
      d.Shows (Source.ofText name text) := fun d => shows_of_mem name
  rw [List.forall_mem_append] at hshows
  obtain ⟨hdiagnostics, hnotes⟩ := hshows
  have hexplain := emits_explain hdiagnostics
  have hlist := emits_listTokens hnotes
  -- what comes behind the listing, with a tree or without
  have hrest : Console.Emits Failure.ofStream (do
        explain (Source.ofText name text) (Reading.ofText text).diagnostics
        match (Reading.ofText text).result with
        | .ok expr => print (expr.render ++ "\n")
        | .error _ => pure ()
        return (Reading.ofText text).hasFault) (Reading.ofText text).hasFault
      fun colored => Console.tag .err ((Reading.ofText text).diagnostics.flatMap
          (Diagnostic.shown (Source.ofText name text) colored)) ++
        match (Reading.ofText text).result with
        | .ok expr => Console.tag .out (Text.encode (expr.render ++ "\n").toList)
        | .error _ => [] := by
    cases (Reading.ofText text).result with
    | ok expr =>
      have hprint := (emits_print (expr.render ++ "\n")).followedBy
        (Console.emits_pure _ (Reading.ofText text).hasFault)
      simp only [List.append_nil] at hprint
      exact hexplain.followedBy hprint
    | error reason => exact hexplain.followedBy (Console.emits_pure _ _)
  unfold answer output
  cases options.listTokens with
  | true => exact hlist.followedBy hrest
  | false => exact hrest

/-- **What an answer writes** where there are no limits. -/
theorem writes_answer (options : Options) (name text : String) :
    Console.Writes (answer options (Source.ofText name text)) (Reading.ofText text).hasFault
      (output options (Source.ofText name text)) :=
  (emits_answer options name text).writes

/-- **Every text is answered.** On a console without limits an answer succeeds and writes all that
it has to say, each diagnostic and, with a listing, each note on a token included. All of them can
be shown on a line that does not begin behind them, and none is shown as nothing. Every stretch of
the text that is taken on the way, for a token, for a fault or for a line, lies within the text and
on whole characters. The lines cover the text: the first begins with it, and each other one a line
feed behind the end of the one before. -/
theorem answer_total (options : Options) (name text : String) {c : Console} (hc : c.Unlimited) :
    let source := Source.ofText name text
    let reading := Reading.ofText text
    (∃ c', answer options source c = .ok reading.hasFault c' ∧
        c'.trace = c.trace ++ output options source c.colored) ∧
      (∀ d ∈ reading.diagnostics ++ notes reading.tokens,
        d.Shows source ∧ d.shown source c.colored ≠ []) ∧
      (∀ t ∈ reading.tokens,
        Text.slice? t.span.start t.span.stop text.toList = some t.lexeme.toList) ∧
      (∀ d ∈ reading.diagnostics, (Text.slice? d.span.start d.span.stop text.toList).isSome) ∧
      (∀ line ∈ source.lines,
        Text.slice? line.start (line.start + Text.byteLength line.chars) text.toList =
          some line.chars) ∧
      source.lineOffsets.head? = some 0 ∧
      source.lines.IsChain fun line next =>
        line.start + Text.byteLength line.chars + 1 = next.start := by
  intro source reading
  refine ⟨?_, fun d hd => ?_, fun t => Reading.slice?_span_of_mem_tokens, ?_, ?_, ?_,
    Line.isChain_place 0 _⟩
  · obtain ⟨c', hrun, hgrows⟩ := writes_answer options name text c hc
    exact ⟨c', hrun, hgrows.trace⟩
  · have hshows := shows_of_mem name hd
    exact ⟨hshows, Diagnostic.shown_ne_nil hshows c.colored⟩
  · intro d hd
    exact Span.fits_iff_isSome_slice?.mp (Reading.fits_of_mem_diagnostics hd)
  · intro line hline
    exact Text.slice?_eq_some_iff.mpr ⟨Line.standsAt_of_mem_ofText hline, rfl⟩
  · obtain ⟨chars, rest, hlines⟩ := Line.exists_ofText_eq_cons text
    rw [Source.lineOffsets, Source.lines_ofText, hlines]
    rfl

/-- A stray character of two bytes, a carriage return, and a string that goes on over a line feed
and never ends. -/
theorem answer_total_of_openString :
    let text := "(é +\r\n\"x\r\ny"
    let source := Source.ofText "repl" text
    let reading := Reading.ofText text
    let c : Console := { colored := true }
    c.Unlimited ∧
      reading.diagnostics.map Diagnostic.span = [⟨1, 3⟩, ⟨7, 12⟩, ⟨5, 5⟩, ⟨5, 5⟩] ∧
      (∃ c', answer ⟨true⟩ source c = .ok reading.hasFault c' ∧
        c'.trace = c.trace ++ output ⟨true⟩ source c.colored) ∧
      (∀ d ∈ reading.diagnostics ++ notes reading.tokens,
        d.Shows source ∧ d.shown source c.colored ≠ []) ∧
      (∀ t ∈ reading.tokens,
        Text.slice? t.span.start t.span.stop text.toList = some t.lexeme.toList) ∧
      (∀ d ∈ reading.diagnostics, (Text.slice? d.span.start d.span.stop text.toList).isSome) ∧
      (∀ line ∈ source.lines,
        Text.slice? line.start (line.start + Text.byteLength line.chars) text.toList =
          some line.chars) ∧
      source.lineOffsets.head? = some 0 ∧
      source.lines.IsChain fun line next =>
        line.start + Text.byteLength line.chars + 1 = next.start :=
  ⟨⟨rfl, rfl⟩, by decide +kernel, answer_total ⟨true⟩ "repl" _ ⟨rfl, rfl⟩⟩

end Session

end ExprReader
