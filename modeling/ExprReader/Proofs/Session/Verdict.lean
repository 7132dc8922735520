import ExprReader.CommandLine
import ExprReader.Proofs.Expr.Faultless
import ExprReader.Proofs.Session.Answer
import ExprReader.Proofs.Token.Tiling

/-!
# Verdicts

Whether an answer tells of a fault can be seen in three ways that never disagree: by its result, by
whether anything was written for diagnostics, and by the diagnostics of the text. Where there is no
fault, the text has a whole tree. So a program that answers a file either succeeds in silence or
fails with an explanation.

## Main definitions

* `Reading.Whole reading`: the text has a tree that lacks nothing

## Main results

* `Reading.hasFault_iff`: a text has a fault exactly if it has a diagnostic
* `finish_session_of_path`: how the answer to a file ends
* `answer_verdict`: the verdict of an answer, and of a program that gives it
-/

namespace ExprReader

/-! ## Readings -/

namespace Reading

/-- There is a tree without a missing operand, and it is that of the tokens that were taken for it,
among which every parenthesis has its partner. -/
def Whole (reading : Reading) : Prop :=
  let start := Cursor.ofTokens reading.tokens
  ∃ e taken, reading.result = .ok e ∧ (∀ n ∈ e.nodes, n.isMissing = false) ∧
    start.rest = taken ++ start.expression.after.rest ∧ Derives .equality taken e ∧
    Token.Paired taken

variable {text : String}

theorem isSome_fault?_of_mem_diagnostics :
    ∀ d ∈ (ofText text).diagnostics, d.fault?.isSome = true := by
  intro d hd
  rcases mem_diagnostics_ofText hd with hd | hd
  · rcases (Scan.tiles_ofText text).faults d hd with hopen | ⟨c, hstray, -⟩
    · rw [Diagnostic.fault?, hopen]
      rfl
    · rw [Diagnostic.fault?, hstray]
      rfl
  · exact Parse.isSome_fault?_of_mem_diagnostics d hd

/-- A text has a fault among its diagnostics exactly if it has a diagnostic. -/
theorem anyFault_iff :
    Diagnostic.anyFault (ofText text).diagnostics = true ↔ (ofText text).diagnostics ≠ [] := by
  rw [Diagnostic.anyFault, List.any_eq_true]
  constructor
  · rintro ⟨d, hd, -⟩
    exact List.ne_nil_of_mem hd
  · intro hne
    obtain ⟨d, hd⟩ := List.exists_mem_of_ne_nil _ hne
    exact ⟨d, hd, isSome_fault?_of_mem_diagnostics d hd⟩

/-- The last token of a scan marks the end. -/
theorem isEof_getLast?_tokens : (Scan.ofText text).tokens.getLast?.any Token.isEof = true := by
  obtain ⟨front, htokens, -⟩ := (Scan.tiles_ofText text).ends
  rw [htokens, List.getLast?_append_cons]
  rfl

/-- Where there is a token to read, the parser is asked: its tree is the result, unless there is
nothing in it, and what it reports comes last. -/
theorem ofText_of_mem_tokens {t : Token} (ht : t ∈ (ofText text).tokens)
    (hcomment : t.isComment = false) (heof : t.isEof = false) :
    let read := (Cursor.ofTokens (ofText text).tokens).expression
    (read.expr.isMissing = false → (ofText text).result = .ok read.expr) ∧
      (ofText text).diagnostics = (Scan.ofText text).diagnostics ++ read.after.diagnostics := by
  rw [tokens_ofText] at ht ⊢
  have hall : (Scan.ofText text).tokens.all (fun t => t.isComment || t.isEof) = false :=
    List.all_eq_false.mpr ⟨t, ht, by simp [hcomment, heof]⟩
  simp only [ofText, hall, Bool.and_false, Bool.false_eq_true, if_false,
    Parse.ofTokens_of_getLast? isEof_getLast?_tokens]
  exact ⟨fun hmissing => by rw [hmissing]; rfl, trivial⟩

/-- The tree of a text is the one that is read from its tokens. -/
theorem eq_expression_of_eq_ok {e : Expr} (h : (ofText text).result = .ok e) :
    e = (Cursor.ofTokens (ofText text).tokens).expression.expr := by
  rw [tokens_ofText]
  unfold ofText at h
  dsimp only at h
  split at h
  · cases h
  · rw [Parse.ofTokens_of_getLast? isEof_getLast?_tokens] at h
    dsimp only at h
    split at h
    · cases h
    · exact (Except.ok.inj h).symm

/-- **A text without a diagnostic has a whole tree.** -/
theorem whole_of_diagnostics_eq_nil (h : (ofText text).diagnostics = []) :
    (ofText text).Whole := by
  unfold Whole
  unfold ofText at h ⊢
  dsimp only at h ⊢
  split at h
  · -- the parser is not asked only where scanning has reported a fault
    simp_all [Diagnostic.anyFault]
  · rename_i hasked
    rw [if_neg hasked]
    obtain ⟨e, taken, hresult, hrest, hderives⟩ := Parse.exists_taken_of_diagnostics_eq_nil
      isEof_getLast?_tokens (List.append_eq_nil_iff.mp h).2
    exact ⟨e, taken, hresult, hderives.isMissing_of_mem_nodes, hrest, hderives, hderives.paired⟩

/-- **A text has a fault exactly if it has a diagnostic**: where there is no tree, it is said
why. -/
theorem hasFault_iff : (ofText text).hasFault = true ↔ (ofText text).diagnostics ≠ [] := by
  rw [hasFault, Bool.or_eq_true, anyFault_iff, or_iff_left_iff_imp]
  intro hfailed hnone
  obtain ⟨e, -, hresult, -⟩ := whole_of_diagnostics_eq_nil hnone
  rw [hresult] at hfailed
  cases hfailed

end Reading

/-! ## What can be seen -/

namespace Session

/-- Without a listing, something is told about a text exactly if it has a fault. -/
theorem told_ne_nil_iff {name text : String} {colored : Bool} :
    told ⟨false⟩ (Source.ofText name text) colored ≠ [] ↔
      (Reading.ofText text).hasFault = true := by
  have htold : told ⟨false⟩ (Source.ofText name text) colored =
      (Reading.ofText text).diagnostics.flatMap
        (Diagnostic.shown (Source.ofText name text) colored) := rfl
  rw [htold, Reading.hasFault_iff, not_iff_not, List.flatMap_eq_nil_iff]
  constructor
  · intro hnone
    by_contra hne
    obtain ⟨d, hd⟩ := List.exists_mem_of_ne_nil _ hne
    have hshows := shows_of_mem name (List.mem_append_left _ hd)
    exact Diagnostic.shown_ne_nil hshows colored (hnone d hd)
  · intro hnone d hd
    rw [hnone] at hd
    cases hd

/-- What an answer without a listing writes, on each of the streams. -/
theorem exists_answer (name text : String) {c : Console} (hc : c.Unlimited) :
    ∃ c', answer ⟨false⟩ (Source.ofText name text) c = .ok (Reading.ofText text).hasFault c' ∧
      c'.written .err = c.written .err ++ told ⟨false⟩ (Source.ofText name text) c.colored ∧
      c'.written .out = c.written .out ++ treeLine text ∧
      c'.flushFailure = c.flushFailure := by
  obtain ⟨c', hrun, htakes⟩ := (emits_answer ⟨false⟩ name text c).exists_takes hc
  refine ⟨c', hrun, ?_, ?_, htakes.flushFailure⟩
  · rw [htakes.written, forStream_err_output]
  · rw [htakes.written, forStream_out_output]
    rfl

end Session

namespace CommandLine

/-- A session that succeeds ends with its status, if the results arrive. -/
theorem finish_of_ok {a : Session.Action ExitStatus} {c c' : Console} {status : ExitStatus}
    (h : a c = .ok status c') (hflush : c'.flushFailure = none) :
    finish a c = ⟨status, c'⟩ := by
  have hrun : Session.flush c' = .ok () c' := by
    simp only [Session.flush, EStateM.adaptExcept, Console.flush, hflush]
  simp only [finish, Bind.bind, EStateM.bind, h, hrun, pure, EStateM.pure]

/-- How the answer to a file that can be read ends. -/
theorem finish_session_of_path {s : Settings} {path : String} {bytes : List UInt8}
    {read : String → Except FileError (List UInt8)} (hpath : s.path = some path)
    (hlist : s.listTokens = none) (hread : read path = .ok bytes) (input : Reader) (shows : Bool) :
    let text := String.ofList (Text.decode bytes)
    let outcome := finish (session s input read) (s.console shows)
    outcome.status = (if (Reading.ofText text).hasFault then .fault else .success) ∧
      outcome.console.written .err =
        Session.told ⟨false⟩ (Source.ofText path text) (s.console shows).colored := by
  intro text outcome
  obtain ⟨c', hrun, herr, -, hflush⟩ :=
    Session.exists_answer path text (c := s.console shows) ⟨rfl, rfl⟩
  have hsession : session s input read (s.console shows) =
      .ok (if (Reading.ofText text).hasFault then .fault else .success) c' := by
    have hoptions : s.options = ⟨false⟩ := by rw [Settings.options, hlist]; rfl
    simp only [session, hpath, hread, hoptions, Session.answerFile, Bind.bind, EStateM.bind]
    rw [hrun]
    rfl
  have houtcome : outcome = ⟨_, c'⟩ := finish_of_ok hsession hflush
  rw [houtcome]
  exact ⟨rfl, herr⟩

end CommandLine

namespace Session

/-- **Failure is never silent, and success is.** On a console without limits and without a listing,
the result of an answer, what is written for diagnostics and the diagnostics of the text all say the
same about whether there is a fault; where there is no tree, there is one. The tree is all that is
written as a result, and it is whole if there is no fault. So a program that is asked to answer a
file that can be read ends with success and no diagnostics, or with the status of a fault and
some. -/
theorem answer_verdict (name text : String) {c : Console} (hc : c.Unlimited) :
    (let reading := Reading.ofText text
      ∃ b c' told shown, answer ⟨false⟩ (Source.ofText name text) c = .ok b c' ∧
        c'.written .err = c.written .err ++ told ∧ c'.written .out = c.written .out ++ shown ∧
        (b = true ↔ told ≠ []) ∧ (b = true ↔ Diagnostic.anyFault reading.diagnostics = true) ∧
        (∀ e, reading.result = .ok e → shown = Text.encode (e.render ++ "\n").toList) ∧
        (∀ reason, reading.result = .error reason → shown = [] ∧ b = true) ∧
        (b = false → reading.Whole)) ∧
    ∀ arguments shows input read s path bytes,
      CommandLine.request arguments = .ok (.run s) → s.path = some path → s.listTokens = none →
      read path = .ok bytes →
      let outcome := CommandLine.run arguments shows input read
      (outcome.status.code = 0 ∧ outcome.console.written .err = []) ∨
        (outcome.status.code = 65 ∧ outcome.console.written .err ≠ []) := by
  constructor
  · intro reading
    obtain ⟨c', hrun, herr, hout, -⟩ := exists_answer name text hc
    refine ⟨_, c', _, _, hrun, herr, hout, told_ne_nil_iff.symm, ?_, ?_, ?_, ?_⟩
    · rw [Reading.hasFault_iff, Reading.anyFault_iff]
    · intro e he
      rw [treeLine, he]
    · intro reason hreason
      refine ⟨by rw [treeLine, hreason], ?_⟩
      rw [Reading.hasFault, hreason]
      exact Bool.or_true _
    · intro hnone
      apply Reading.whole_of_diagnostics_eq_nil
      rwa [Bool.eq_false_iff, ne_eq, Reading.hasFault_iff, not_not] at hnone
  · intro arguments shows input read s path bytes hrequest hpath hlist hread outcome
    obtain ⟨hstatus, herr⟩ := CommandLine.finish_session_of_path hpath hlist hread input shows
    have houtcome : outcome =
        CommandLine.finish (CommandLine.session s input read) (s.console shows) := by
      simp only [outcome, CommandLine.run, hrequest]
    rw [houtcome, hstatus, herr]
    by_cases hfault : (Reading.ofText (String.ofList (Text.decode bytes))).hasFault = true
    · rw [if_pos hfault]
      exact .inr ⟨rfl, told_ne_nil_iff.mpr hfault⟩
    · rw [if_neg hfault]
      exact .inl ⟨rfl, by_contra fun hne => hfault (told_ne_nil_iff.mp hne)⟩

/-- A text that has only a character that begins no token, so that the parser is not asked. -/
theorem answer_verdict_of_strayCharacter :
    let c : Console := { colored := true }
    let reading := Reading.ofText "@"
    let read : String → Except FileError (List UInt8) := fun _ => .ok [0x40]
    let outcome := CommandLine.run ["a.lox"] true (.ofBytes []) read
    c.Unlimited ∧ CommandLine.request ["a.lox"] = .ok (.run { path := some "a.lox" }) ∧
      (∃ b c' told shown, answer ⟨false⟩ (Source.ofText "a.lox" "@") c = .ok b c' ∧
        c'.written .err = c.written .err ++ told ∧ c'.written .out = c.written .out ++ shown ∧
        (b = true ↔ told ≠ []) ∧ (b = true ↔ Diagnostic.anyFault reading.diagnostics = true) ∧
        (∀ e, reading.result = .ok e → shown = Text.encode (e.render ++ "\n").toList) ∧
        (∀ reason, reading.result = .error reason → shown = [] ∧ b = true) ∧
        (b = false → reading.Whole)) ∧
      outcome.status.code = 65 ∧
      ((outcome.status.code = 0 ∧ outcome.console.written .err = []) ∨
        (outcome.status.code = 65 ∧ outcome.console.written .err ≠ [])) := by
  intro c reading read outcome
  have hc : c.Unlimited := ⟨rfl, rfl⟩
  have hrequest : CommandLine.request ["a.lox"] = .ok (.run { path := some "a.lox" }) := by
    decide +kernel
  obtain ⟨hanswer, hprogram⟩ := answer_verdict "a.lox" "@" hc
  exact ⟨hc, hrequest, hanswer, by decide +kernel,
    hprogram ["a.lox"] true (.ofBytes []) read _ "a.lox" [0x40] hrequest rfl rfl rfl⟩

end Session

end ExprReader
