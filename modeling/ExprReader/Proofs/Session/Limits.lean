import ExprReader.Proofs.Console.Limits
import ExprReader.Proofs.Session.Prompt

/-!
# Sessions on streams that break

When a stream breaks, a session is cut at one point: what has been written is a beginning of what
would be written without limits, and it ends where the first byte has no room. Since the tree of a
source comes behind all that is told about the source, no tree is printed once something could not
be told.

## Main definitions

* `Session.CutAtLimits a c`: the limits of a console cut what an action writes

## Main results

* `conversation_of_err`: what stands on the stream of results before a byte of a diagnostic
* `limits_cut_output`: limits cut answers and sessions at a prompt
-/

namespace ExprReader

namespace Session

/-- On a console with limits, the action writes the longest beginning with room of what it writes
where there are none. It has the same result if that is all of it, and otherwise fails as the
stream does that has no room for the next byte. It succeeds exactly if there is room for all. -/
def CutAtLimits {α : Type} (a : Action α) (c : Console) : Prop :=
  ∃ r whole bytes, a c.unlimited = .ok r whole ∧ whole.trace = c.trace ++ bytes ∧
    (∃ front, c.LongestRoom bytes front ∧ (c.after a).trace = c.trace ++ front ∧
      (front = bytes → a c = .ok r (c.after a)) ∧
      ∀ stream b back, bytes = front ++ (stream, b) :: back → ∃ l, c.limit stream = some l ∧
        a c = .error (Failure.ofStream stream l.reason) (c.after a)) ∧
    ((∃ r' c', a c = .ok r' c') ↔ c.HasRoom bytes)

/-- An action is cut if it offers the same bytes whether there are limits or not. -/
theorem cutAtLimits_of_offered {α : Type} {a : Action α} {c : Console}
    {bytes : List (Stream × UInt8)} {r : α}
    (h : Console.Offered Failure.ofStream c bytes r (a c))
    (h' : Console.Offered Failure.ofStream c.unlimited bytes r (a c.unlimited)) :
    CutAtLimits a c := by
  obtain ⟨whole, hrun, htakes⟩ := h'.exists_takes c.unlimited_unlimited
  exact ⟨r, whole, bytes, hrun, htakes.trace, h.longestRoom, h.isOk_iff_hasRoom⟩

/-! ## No tree once something could not be told -/

section Err

variable {front back xs ys : List (Stream × UInt8)} {p : Stream × UInt8} {b : UInt8}

/-- An entry of two lists in a row belongs to the first one or to the second. -/
theorem append_eq_append_cons (h : xs ++ ys = front ++ p :: back) :
    (∃ more, xs = front ++ p :: more) ∨
      ∃ front', front = xs ++ front' ∧ ys = front' ++ p :: back := by
  rcases List.append_eq_append_iff.mp h with ⟨more, rfl, hys⟩ | ⟨more, rfl, hback⟩
  · exact .inr ⟨more, rfl, hys⟩
  · cases more with
    | nil => exact .inr ⟨[], by simp, by simpa using hback.symm⟩
    | cons q more =>
      obtain ⟨rfl, -⟩ := List.cons.inj hback
      exact .inl ⟨more, rfl⟩

theorem tag_out_ne (bytes : List UInt8) :
    Console.tag .out bytes ≠ front ++ (.err, b) :: back := by
  intro h
  have hfst := Console.fst_of_mem_tag (h ▸ List.mem_append_right front List.mem_cons_self)
  cases hfst

/-- Before a byte of a diagnostic stands no result of an answer but the listing. -/
theorem output_of_err {options : Options} {source : Source} {colored : Bool}
    (h : output options source colored = front ++ (.err, b) :: back) :
    Console.forStream .out front = listed options source.text := by
  rw [output_eq] at h
  -- the byte is neither in the listing nor in the tree, so it is among what is told
  rcases append_eq_append_cons h with ⟨_, hlisted⟩ | ⟨front', rfl, hrest⟩
  · exact absurd hlisted (tag_out_ne _)
  rcases append_eq_append_cons hrest with ⟨more, htold⟩ | ⟨_, -, htree⟩
  · have herr : ∀ p ∈ front', p.1 ≠ .out := by
      intro p hp
      rw [Console.fst_of_mem_tag (htold ▸ List.mem_append_left _ hp)]
      decide
    rw [Console.forStream_append, Console.forStream_tag_self, Console.forStream_of_forall_ne herr,
      List.append_nil]
  · exact absurd htree (tag_out_ne _)

/-- **What stands on the stream of results before a byte of a diagnostic**: complete answers to the
lines before, and for the line that the diagnostic is about the listing alone. -/
theorem conversation_of_err {options : Options} {name : String} {colored : Bool}
    {lines : List (List UInt8)}
    (h : conversation options name colored lines = front ++ (.err, b) :: back) :
    ∃ done line rest, lines = done ++ line :: rest ∧ Console.forStream .out front =
      done.flatMap (fun l => Text.encode invitation.toList ++
        Console.forStream .out (lineOutput options name colored l)) ++
      (Text.encode invitation.toList ++
        listed options (String.ofList (Text.decode line))) := by
  induction lines generalizing front with
  | nil => exact absurd h (tag_out_ne _)
  | cons line rest ih =>
    rw [conversation, List.flatMap_cons, List.append_assoc, List.append_assoc] at h
    rcases append_eq_append_cons h with ⟨_, hinvite⟩ | ⟨front', rfl, hrest⟩
    · exact absurd hinvite (tag_out_ne _)
    rcases append_eq_append_cons hrest with ⟨more, hline⟩ | ⟨front'', rfl, hlater⟩
    · refine ⟨[], line, rest, rfl, ?_⟩
      unfold lineOutput at hline
      dsimp only at hline
      split at hline
      · -- to a blank line nothing is told
        simp at hline
      · rw [Console.forStream_append, Console.forStream_tag_self, output_of_err hline]
        rfl
    · obtain ⟨done, line', rest', rfl, hout⟩ := ih hlater
      refine ⟨line :: done, line', rest', rfl, ?_⟩
      rw [Console.forStream_append, Console.forStream_append, Console.forStream_tag_self, hout,
        List.flatMap_cons]
      simp only [List.append_assoc]

/-- Only a stream of diagnostics fails as one. -/
theorem stream_of_ofStream {stream : Stream} {reason : String} {cause : DisplayError}
    (h : Failure.display cause = Failure.ofStream stream reason) : stream = .err := by
  cases stream with
  | out => cases h
  | err => rfl

end Err

/-- **Limits cut the output at one point.** Whatever the limits of both streams are, an answer to a
text and a session at a prompt write the longest beginning with room of what they write without
limits, and the next byte decides how they fail. Where a diagnostic could not be written, no tree
follows: on the stream of results stand the listing, and at a prompt before it the complete answers
to the lines before. -/
theorem limits_cut_output (options : Options) (name text : String) (bytes : List UInt8)
    {c : Console} (hflush : c.flushFailure = none) :
    CutAtLimits (answer options (Source.ofText name text)) c ∧
    CutAtLimits (converse options (.ofBytes bytes)) c ∧
    (∀ cause c', answer options (Source.ofText name text) c = .error (.display cause) c' →
      c'.written .out = c.written .out ++ listed options text) ∧
    ∀ cause c', converse options (.ofBytes bytes) c = .error (.display cause) c' →
      ∃ done line rest, Reader.lines bytes = done ++ line :: rest ∧
        c'.written .out = c.written .out ++
          (done.flatMap (fun l => Text.encode invitation.toList ++
            (answered options c.colored l).written .out) ++
          (Text.encode invitation.toList ++
            listed options (String.ofList (Text.decode line)))) := by
  have hanswer := emits_answer options name text
  have hconverse := fun (c : Console) (hflush : c.flushFailure = none) =>
    offered_answerLines options promptName (Reader.lines bytes) hflush
  have heq : converse options (.ofBytes bytes) =
      answerLines options promptName (Reader.lines bytes) := converseFrom_ofBytes ..
  rw [heq]
  refine ⟨cutAtLimits_of_offered (hanswer c) (hanswer c.unlimited),
    cutAtLimits_of_offered (hconverse c hflush) (hconverse c.unlimited hflush), ?_, ?_⟩
  · intro cause c' hrun
    have hoffered := hanswer c
    rw [hrun] at hoffered
    obtain ⟨front, stream, b, back, reason, hsplit, htakes, hcause⟩ := hoffered.exists_of_error
    obtain rfl := stream_of_ofStream hcause
    rw [htakes.written, output_of_err hsplit]
    rfl
  · intro cause c' hrun
    have hoffered := hconverse c hflush
    rw [hrun] at hoffered
    obtain ⟨front, stream, b, back, reason, hsplit, htakes, hcause⟩ := hoffered.exists_of_error
    obtain rfl := stream_of_ofStream hcause
    obtain ⟨done, line, rest, hlines, hout⟩ := conversation_of_err hsplit
    refine ⟨done, line, rest, hlines, ?_⟩
    rw [htakes.written, hout]
    simp only [written_answered]

/-- Room for the invitation and for the first bytes of what is told about a line. -/
theorem limits_cut_output_of_fullStreams :
    let c : Console := { outLimit := some ⟨6, "full"⟩, errLimit := some ⟨3, "full"⟩ }
    let source := Source.ofText promptName "(1"
    let bytes : List UInt8 := [0x28, 0x31]
    c.flushFailure = none ∧
      (c.after (converse ⟨false⟩ (.ofBytes bytes))).trace =
        Console.tag .out (Text.encode invitation.toList) ++
          Console.tag .err (Text.encode "err".toList) ∧
      CutAtLimits (answer ⟨false⟩ source) c ∧
      CutAtLimits (converse ⟨false⟩ (.ofBytes bytes)) c ∧
      (∀ cause c', answer ⟨false⟩ source c = .error (.display cause) c' →
        c'.written .out = c.written .out ++ listed ⟨false⟩ "(1") ∧
      ∀ cause c', converse ⟨false⟩ (.ofBytes bytes) c = .error (.display cause) c' →
        ∃ done line rest, Reader.lines bytes = done ++ line :: rest ∧
          c'.written .out = c.written .out ++
            (done.flatMap (fun l => Text.encode invitation.toList ++
              (answered ⟨false⟩ c.colored l).written .out) ++
            (Text.encode invitation.toList ++
              listed ⟨false⟩ (String.ofList (Text.decode line)))) :=
  ⟨rfl, by decide +kernel, limits_cut_output ⟨false⟩ promptName "(1" [0x28, 0x31] rfl⟩

end Session

end ExprReader
