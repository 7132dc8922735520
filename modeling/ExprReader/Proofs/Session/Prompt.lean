import ExprReader.Proofs.Session.Answer
import ExprReader.Proofs.Source.Input

/-!
# What is answered at a prompt

A session at a prompt goes round by round, and a round looks at no more than the next line, so that
lines can be asked for one at a time. The session keeps nothing from one line of its input to the
next: it is the sequence of the answers to its lines, each from a source that has just been loaded.
So what it writes is put together from what the answers to the single lines write, each on a console
of its own.

## Main definitions

* `Session.answerLines options name lines`: the answers to lines, one after the other
* `Session.conversation options name colored lines`: all that they offer to the streams
* `Session.answered options colored line`: the console after the answer to one line alone

## Main results

* `map_source_answerNext_congr`: a round looks at no more than the next line
* `converseFrom_ofBytes`: a session at a prompt answers the lines of its input
* `offered_answerLines`: what these answers offer to the streams
* `converse_answers_lines`: what a session at a prompt writes, line by line
-/

namespace ExprReader

namespace Session

/-! ## One round -/

section Round

variable {options : Options} {source after : Source} {input rest : Reader} {n : Nat}
  {reason : String}

/-- A round with a line to answer. -/
theorem answerNext_of_refill (h : source.refill input = (.ok (n + 1), after, rest)) :
    answerNext options source input = (do
      answerLine options after
      return some ⟨after, rest, Source.refill_shorter h⟩) := by
  unfold answerNext
  split
  · simp_all
  · simp_all
  · rename_i heq
    rw [h] at heq
    cases heq
    rfl

/-- A round at the end of the input. -/
theorem answerNext_of_refill_zero (h : source.refill input = (.ok 0, after, rest)) :
    answerNext options source input = (do print "\n"; return none) := by
  unfold answerNext
  split
  · simp_all
  · rfl
  · simp_all

/-- A round for which the input breaks. -/
theorem answerNext_of_refill_error (h : source.refill input = (.error reason, after, rest)) :
    answerNext options source input = throw (.readInput reason) := by
  unfold answerNext
  split
  · rename_i heq
    rw [h] at heq
    cases heq
    rfl
  · simp_all
  · simp_all

/-- **A round looks at no more than the next line**: on inputs that begin with the same line, the
same is done and the same source is left, however the inputs go on. -/
theorem map_source_answerNext_congr (options : Options) (source : Source) {other : Reader}
    (h : input.takeLine.1 = other.takeLine.1) :
    Option.map Next.source <$> answerNext options source input =
      Option.map Next.source <$> answerNext options source other := by
  obtain ⟨hresult, hafter⟩ := source.refill_congr h
  rcases hinput : source.refill input with ⟨result, after, rest⟩
  rcases hother : source.refill other with ⟨result', after', rest'⟩
  rw [hinput, hother] at hresult hafter
  obtain rfl : result = result' := hresult
  obtain rfl : after = after' := hafter
  rcases result with reason | _ | n
  · rw [answerNext_of_refill_error hinput, answerNext_of_refill_error hother]
    rfl
  · rw [answerNext_of_refill_zero hinput, answerNext_of_refill_zero hother]
    simp only [map_bind, map_pure, Option.map_none]
  · rw [answerNext_of_refill hinput, answerNext_of_refill hother]
    simp only [map_bind, map_pure, Option.map_some]

/-- A session with a line to answer goes on behind it. -/
theorem converseFrom_of_refill (h : source.refill input = (.ok (n + 1), after, rest)) :
    converseFrom options source input = (do
      invite
      answerLine options after
      converseFrom options after rest) := by
  rw [converseFrom, answerNext_of_refill h]
  simp only [bind_assoc, pure_bind]

/-- A session at the end of its input ends the line of the prompt. -/
theorem converseFrom_of_refill_zero (h : source.refill input = (.ok 0, after, rest)) :
    converseFrom options source input = (do invite; print "\n") := by
  rw [converseFrom, answerNext_of_refill_zero h]
  simp only [bind_assoc, pure_bind, bind_pure_unit]

end Round

/-! ## Lines instead of input -/

/-- The answers to lines, each behind an invitation, and an invitation that no line follows. -/
def answerLines (options : Options) (name : String) : List (List UInt8) → Action Unit
  | [] => do
    invite
    print "\n"
  | line :: rest => do
    invite
    answerLine options (Source.ofText name (String.ofList (Text.decode line)))
    answerLines options name rest

/-- **A session at a prompt answers the lines of its input**, whatever its source holds. -/
theorem converseFrom_ofBytes (options : Options) (source : Source) (bytes : List UInt8) :
    converseFrom options source (.ofBytes bytes) =
      answerLines options source.name (Reader.lines bytes) := by
  induction bytes using Source.refill_induction generalizing source with
  | nil => exact converseFrom_of_refill_zero rfl
  | line bytes line rest n hlines hrefill ih =>
    rw [converseFrom_of_refill (hrefill source), ih, hlines]
    rfl

/-! ## What the answers offer -/

/-- All that the answer to a line offers to the streams; a blank line needs none. -/
def lineOutput (options : Options) (name : String) (colored : Bool) (line : List UInt8) :
    List (Stream × UInt8) :=
  let text := String.ofList (Text.decode line)
  if isBlankLine text then [] else output options (Source.ofText name text) colored

/-- All that the answers to lines offer to the streams, and the last invitation. -/
def conversation (options : Options) (name : String) (colored : Bool) (lines : List (List UInt8)) :
    List (Stream × UInt8) :=
  lines.flatMap (fun line => Console.tag .out (Text.encode invitation.toList) ++
      lineOutput options name colored line) ++
    Console.tag .out (Text.encode (invitation ++ "\n").toList)

theorem emits_answerLine (options : Options) (name : String) (line : List UInt8) :
    Console.Emits Failure.ofStream
      (answerLine options (Source.ofText name (String.ofList (Text.decode line)))) ()
      fun colored => lineOutput options name colored line := by
  generalize htext : String.ofList (Text.decode line) = text
  simp only [lineOutput, htext]
  by_cases hblank : isBlankLine text = true
  · have hline : answerLine options (Source.ofText name text) = pure () := if_pos hblank
    rw [hline]
    simp only [if_pos hblank]
    exact Console.emits_pure _ ()
  · have hline : answerLine options (Source.ofText name text) =
        discard (answer options (Source.ofText name text)) := if_neg hblank
    have hanswer := (emits_answer options name text).followedBy (Console.emits_pure _ ())
    simp only [List.append_nil] at hanswer
    rw [hline]
    simp only [if_neg hblank]
    exact hanswer

theorem flush_of_eq_none {c : Console} (h : c.flushFailure = none) : flush c = .ok () c := by
  simp only [flush, EStateM.adaptExcept, Console.flush, h]

/-- An invitation is offered as it is, where flushing works. -/
theorem offered_invite {c : Console} (hflush : c.flushFailure = none) :
    Console.Offered Failure.ofStream c (Console.tag .out (Text.encode invitation.toList)) ()
      (invite c) := by
  rw [← List.append_nil (Console.tag _ _)]
  refine (emits_print invitation c).bind fun c' h => ?_
  rw [flush_of_eq_none (h.flushFailure.trans hflush)]
  exact .whole (.refl c')

/-- **What the answers to lines offer to the streams**, where flushing works. -/
theorem offered_answerLines (options : Options) (name : String) (lines : List (List UInt8))
    {c : Console} (hflush : c.flushFailure = none) :
    Console.Offered Failure.ofStream c (conversation options name c.colored lines) ()
      (answerLines options name lines c) := by
  induction lines generalizing c with
  | nil =>
    rw [conversation, String.toList_append, Text.encode_append, Console.tag_append]
    exact (offered_invite hflush).bind fun c' _ => emits_print "\n" c'
  | cons line rest ih =>
    rw [conversation, List.flatMap_cons, List.append_assoc, List.append_assoc]
    refine (offered_invite hflush).bind fun c₁ h₁ => ?_
    rw [← h₁.colored]
    refine (emits_answerLine options name line c₁).bind fun c₂ h₂ => ?_
    rw [← h₂.colored]
    exact ih (h₂.flushFailure.trans (h₁.flushFailure.trans hflush))

/-! ## One line after the other -/

/-- The console after the answer to one line alone, on a console without limits; a blank line leaves
it empty. -/
def answered (options : Options) (colored : Bool) (line : List UInt8) : Console :=
  let text := String.ofList (Text.decode line)
  if isBlankLine text then { colored }
  else Console.after { colored } (answer options (Source.ofText promptName text))

theorem written_answered (options : Options) (colored : Bool) (line : List UInt8)
    (stream : Stream) : (answered options colored line).written stream =
      Console.forStream stream (lineOutput options promptName colored line) := by
  simp only [answered, lineOutput]
  split
  · rfl
  · obtain ⟨c', hrun, htakes⟩ := (emits_answer options promptName
      (String.ofList (Text.decode line)) { colored }).exists_takes ⟨rfl, rfl⟩
    rw [Console.after, hrun]
    exact htakes.written stream

/-- **A session at a prompt is a map over the lines of its input**: the lines are the input cut at
its line feeds, and on a console without limits each stream gets, line by line, just what it gets
when the line is answered alone. On the stream of results an invitation stands before each answer,
and one more with a line feed at the end. -/
theorem converse_answers_lines (options : Options) (bytes : List UInt8) {c : Console}
    (hc : c.Unlimited) (hflush : c.flushFailure = none) :
    let lines := Reader.lines bytes
    Reader.CutAtFeeds bytes lines ∧
      ∃ c', converse options (.ofBytes bytes) c = .ok () c' ∧
        c'.written .out = c.written .out ++
          (lines.flatMap (fun line => Text.encode invitation.toList ++
            (answered options c.colored line).written .out) ++
          Text.encode (invitation ++ "\n").toList) ∧
        c'.written .err = c.written .err ++
          lines.flatMap fun line => (answered options c.colored line).written .err := by
  intro lines
  refine ⟨Reader.cutAtFeeds_lines bytes, ?_⟩
  obtain ⟨c', hrun, htakes⟩ :=
    (offered_answerLines options promptName lines hflush).exists_takes hc
  refine ⟨c', ?_, ?_, ?_⟩
  · rw [converse, converseFrom_ofBytes]
    exact hrun
  · rw [htakes.written, conversation]
    simp only [Console.forStream_append, Console.forStream_flatMap, Console.forStream_tag_self,
      written_answered]
  · rw [htakes.written, conversation]
    simp only [Console.forStream_append, Console.forStream_flatMap, written_answered,
      Console.forStream_tag_of_ne (show Stream.out ≠ Stream.err by decide), List.nil_append,
      List.append_nil]

/-- A line with a fault, a blank one, one that is no text, and one without a line feed. -/
theorem converse_answers_lines_of_faults :
    let bytes : List UInt8 := [0x28, 0x31, 0x0a, 0x0d, 0x0a, 0xff, 0x0a, 0x32]
    let c : Console := { colored := true }
    let lines := Reader.lines bytes
    c.Unlimited ∧ c.flushFailure = none ∧
      lines = [[0x28, 0x31, 0x0a], [0x0d, 0x0a], [0xff, 0x0a], [0x32]] ∧
      Reader.CutAtFeeds bytes lines ∧
      ∃ c', converse ⟨true⟩ (.ofBytes bytes) c = .ok () c' ∧
        c'.written .out = c.written .out ++
          (lines.flatMap (fun line => Text.encode invitation.toList ++
            (answered ⟨true⟩ c.colored line).written .out) ++
          Text.encode (invitation ++ "\n").toList) ∧
        c'.written .err = c.written .err ++
          lines.flatMap fun line => (answered ⟨true⟩ c.colored line).written .err :=
  ⟨⟨rfl, rfl⟩, rfl, by decide, converse_answers_lines ⟨true⟩ _ ⟨rfl, rfl⟩ rfl⟩

end Session

end ExprReader
