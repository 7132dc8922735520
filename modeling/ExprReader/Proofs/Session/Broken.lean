import Mathlib.Data.List.Basic
import ExprReader.Proofs.Session.Prompt
import ExprReader.Proofs.Source.Index

/-!
# Sessions whose input breaks

Input that breaks loses no more than the line in which it breaks. All lines before are answered as
if the input ended behind them, and then the session fails: where it would end the line of the
prompt, it gives the reason instead.

## Main definitions

* `Reader.Whole bytes`: some bytes are lines that are all ended by a line feed
* `Reader.LongestWhole bytes front`: the longest front of this kind
* `Session.rounds options name last lines`: the answers to lines, and what follows on them

## Main results

* `Reader.exists_longestWhole`: such a front ends behind the last line feed
* `converseFrom_breaking`: a session whose input breaks answers the whole lines of the input
* `exists_rounds_eq`: what follows on the answers does not bear on them
* `converse_breaking`: a session whose input breaks, compared with one whose input ends
-/

namespace ExprReader

/-! ## Whole lines -/

namespace Reader

/-- The bytes are lines that are all ended by a line feed. -/
def Whole (bytes : List UInt8) : Prop := bytes = [] ∨ bytes.getLast? = some lineFeed

/-- The front is the longest of some bytes that is made of whole lines. -/
structure LongestWhole (bytes front : List UInt8) : Prop where
  isPrefix : front <+: bytes
  whole : Whole front
  longest : ∀ other, other <+: bytes → Whole other → other <+: front

variable {bytes front tail : List UInt8}

/-- Bytes are whole lines and what has been begun of one more. -/
theorem exists_whole_append (bytes : List UInt8) :
    ∃ front tail, bytes = front ++ tail ∧ Whole front ∧ lineFeed ∉ tail := by
  induction bytes using List.reverseRecOn with
  | nil => exact ⟨[], [], rfl, .inl rfl, List.not_mem_nil⟩
  | append_singleton bytes b ih =>
    by_cases hb : b = lineFeed
    · subst hb
      exact ⟨bytes ++ [lineFeed], [], (List.append_nil _).symm, .inr List.getLast?_concat,
        List.not_mem_nil⟩
    · obtain ⟨front, tail, rfl, hfront, htail⟩ := ih
      refine ⟨front, tail ++ [b], List.append_assoc .., hfront, ?_⟩
      rw [List.mem_append, List.mem_singleton, not_or]
      exact ⟨htail, Ne.symm hb⟩

/-- The whole lines are the longest front of this kind if no line feed comes behind them. -/
theorem longestWhole_append (hfront : Whole front) (htail : lineFeed ∉ tail) :
    LongestWhole (front ++ tail) front where
  isPrefix := List.prefix_append front tail
  whole := hfront
  longest other hother hwhole := by
    rcases List.prefix_or_prefix_of_prefix hother (List.prefix_append front tail) with
      hshort | ⟨more, rfl⟩
    · exact hshort
    · -- the last byte of a longer front would be a line feed of the tail
      have hmore : more = [] := by
        by_contra hne
        have hbegins : more <+: tail := (List.prefix_append_right_inj front).mp hother
        have hlast : (front ++ more).getLast? = some lineFeed :=
          hwhole.resolve_left fun h => hne (List.append_eq_nil_iff.mp h).2
        rw [List.getLast?_append_of_ne_nil _ hne] at hlast
        exact htail (hbegins.subset (List.mem_of_getLast? hlast))
      exact ⟨[], by rw [hmore, List.append_nil, List.append_nil]⟩

/-- The front ends behind the last line feed, so the lines of it are whole. -/
theorem exists_longestWhole (bytes : List UInt8) :
    ∃ front tail, bytes = front ++ tail ∧ LongestWhole bytes front ∧ lineFeed ∉ tail := by
  obtain ⟨front, tail, rfl, hfront, htail⟩ := exists_whole_append bytes
  exact ⟨front, tail, rfl, longestWhole_append hfront htail, htail⟩

/-- Whole lines that are not none are one whole line and others. -/
theorem Whole.exists_line (h : Whole front) (hne : front ≠ []) :
    ∃ line rest, front = line ++ lineFeed :: rest ∧ lineFeed ∉ line ∧ Whole rest := by
  have hlast := h.resolve_left hne
  obtain ⟨line, rest, rfl, hline⟩ := List.eq_append_cons_of_mem (List.mem_of_getLast? hlast)
  refine ⟨line, rest, rfl, hline, ?_⟩
  by_cases hrest : rest = []
  · exact .inl hrest
  · rw [List.getLast?_append_of_ne_nil _ (List.cons_ne_nil _ _),
      List.getLast?_cons_of_ne_nil hrest] at hlast
    exact .inr hlast

end Reader

namespace Session

/-! ## Rounds -/

/-- The answers to lines, each behind an invitation, and what follows on one more invitation. -/
def rounds (options : Options) (name : String) (last : Action Unit) :
    List (List UInt8) → Action Unit
  | [] => do
    invite
    last
  | line :: rest => do
    invite
    answerLine options (Source.ofText name (String.ofList (Text.decode line)))
    rounds options name last rest

/-- Where the input ends, the line of the prompt is ended. -/
theorem answerLines_eq_rounds (options : Options) (name : String) (lines : List (List UInt8)) :
    answerLines options name lines = rounds options name (print "\n") lines := by
  induction lines with
  | nil => rfl
  | cons line rest ih => rw [answerLines, rounds, ih]

/-- A session for which the input breaks fails. -/
theorem converseFrom_of_refill_error {options : Options} {source after : Source}
    {input rest : Reader} {reason : String}
    (h : source.refill input = (.error reason, after, rest)) :
    converseFrom options source input = (do invite; throw (.readInput reason)) := by
  rw [converseFrom, answerNext_of_refill_error h]
  rfl

/-- **A session whose input breaks answers the whole lines of the input**, and then it fails. -/
theorem converseFrom_breaking (options : Options) (source : Source) {front tail : List UInt8}
    (hfront : Reader.Whole front) (htail : Reader.lineFeed ∉ tail) (reason : String) :
    converseFrom options source ⟨front ++ tail, some reason⟩ =
      rounds options source.name (throw (.readInput reason)) (Reader.lines front) := by
  induction hn : front.length using Nat.strong_induction_on generalizing source front with
  | h n ih =>
    subst hn
    by_cases hne : front = []
    · subst hne
      exact converseFrom_of_refill_error
        (Source.refill_of_error (Reader.takeLine_breaking htail reason))
    · obtain ⟨line, rest, rfl, hline, hrest⟩ := hfront.exists_line hne
      have htake := Reader.takeLine_append_feed hline (rest ++ tail) (some reason)
      have hrefill := Source.refill_of_takeLine (s := source) htake
      rw [List.length_append, List.length_singleton] at hrefill
      have hshorter : rest.length < (line ++ Reader.lineFeed :: rest).length := by
        rw [List.length_append, List.length_cons]
        omega
      have hinner := ih rest.length hshorter (Source.ofText source.name
        (String.ofList (Text.decode (line ++ [Reader.lineFeed])))) hrest rfl
      rw [List.append_assoc, List.cons_append, converseFrom_of_refill hrefill, hinner,
        Reader.lines_append_feed hline]
      rfl

section Rounds

variable {c : Console}

/-- Behind an invitation that has arrived, every action goes on from the same console. -/
theorem exists_invite_eq (hc : c.Unlimited) (hflush : c.flushFailure = none) :
    ∃ c₁ : Console, c₁.Unlimited ∧ c₁.flushFailure = none ∧
      ∀ b : Action Unit, (do invite; b) c = b c₁ := by
  obtain ⟨c₁, hinvite, htakes⟩ := (offered_invite hflush).exists_takes hc
  refine ⟨c₁, (htakes.grows hc).unlimited, htakes.flushFailure.trans hflush, fun b => ?_⟩
  simp only [Bind.bind, EStateM.bind, hinvite]

/-- **What follows on the answers does not bear on them**: on a console without limits all rounds
leave the same console, on which the last action goes on. -/
theorem exists_rounds_eq (options : Options) (name : String) (lines : List (List UInt8))
    (hc : c.Unlimited) (hflush : c.flushFailure = none) :
    ∃ c₁ : Console, c₁.Unlimited ∧ ∀ last, rounds options name last lines c = last c₁ := by
  induction lines generalizing c with
  | nil =>
    obtain ⟨c₁, hc₁, -, hinvite⟩ := exists_invite_eq hc hflush
    exact ⟨c₁, hc₁, fun last => hinvite last⟩
  | cons line rest ih =>
    obtain ⟨c₁, hc₁, hflush₁, hinvite⟩ := exists_invite_eq hc hflush
    obtain ⟨c₂, hanswer, hgrows⟩ := (emits_answerLine options name line).writes c₁ hc₁
    obtain ⟨c₃, hc₃, hrest⟩ := ih hgrows.unlimited (hgrows.flushFailure.trans hflush₁)
    refine ⟨c₃, hc₃, fun last => ?_⟩
    rw [rounds, hinvite, ← hrest last]
    simp only [Bind.bind, EStateM.bind, hanswer]

/-- **Input that breaks loses only the line in which it breaks.** Let the input break after some
number of bytes, and let the front be the longest of these bytes that is made of whole lines. Then
the session fails with the reason. It writes just what a session writes whose input ends behind the
front, but for the line feed with which that one ends the line of the prompt. -/
theorem converse_breaking (options : Options) (n : Nat) (reason : String) (bytes : List UInt8)
    (hc : c.Unlimited) (hflush : c.flushFailure = none) :
    ∃ front, Reader.LongestWhole (bytes.take n) front ∧ ∃ broken ended,
      converse options (.breakingAfter n reason bytes) c = .error (.readInput reason) broken ∧
      converse options (.ofBytes front) c = .ok () ended ∧
      ended.written .err = broken.written .err ∧
      ended.written .out = broken.written .out ++ [Reader.lineFeed] := by
  obtain ⟨front, tail, hsplit, hlongest, htail⟩ := Reader.exists_longestWhole (bytes.take n)
  obtain ⟨broken, hbroken, hrounds⟩ :=
    exists_rounds_eq options promptName (Reader.lines front) hc hflush
  -- where the one session fails, the other one writes a line feed
  obtain ⟨ended, hended, htakes⟩ := (emits_print "\n" broken).exists_takes hbroken
  refine ⟨front, hlongest, broken, ended, ?_, ?_, ?_, ?_⟩
  · rw [converse, Reader.breakingAfter, hsplit,
      converseFrom_breaking options _ hlongest.whole htail]
    exact hrounds (throw (.readInput reason))
  · rw [converse, converseFrom_ofBytes, answerLines_eq_rounds]
    exact (hrounds (print "\n")).trans hended
  · rw [htakes.written, Console.forStream_tag_of_ne (by decide), List.append_nil]
  · rw [htakes.written, Console.forStream_tag_self]
    rfl

/-- The input breaks in its second line, within a character of two bytes. -/
theorem converse_breaking_of_secondLine :
    let bytes : List UInt8 := [0x31, 0x20, 0x2b, 0x0a, 0x28, 0xc3, 0xa9, 0x0a]
    let c : Console := {}
    c.Unlimited ∧ c.flushFailure = none ∧
      Reader.LongestWhole (bytes.take 6) [0x31, 0x20, 0x2b, 0x0a] ∧
      ∃ front, Reader.LongestWhole (bytes.take 6) front ∧ ∃ broken ended,
        converse ⟨true⟩ (.breakingAfter 6 "input broke" bytes) c =
          .error (.readInput "input broke") broken ∧
        converse ⟨true⟩ (.ofBytes front) c = .ok () ended ∧
        ended.written .err = broken.written .err ∧
        ended.written .out = broken.written .out ++ [Reader.lineFeed] := by
  intro bytes c
  have hlongest : Reader.LongestWhole (bytes.take 6) [0x31, 0x20, 0x2b, 0x0a] := by
    have hsplit : bytes.take 6 = [0x31, 0x20, 0x2b, 0x0a] ++ [0x28, 0xc3] := rfl
    rw [hsplit]
    exact Reader.longestWhole_append (.inr rfl) (by decide)
  exact ⟨⟨rfl, rfl⟩, rfl, hlongest, converse_breaking ⟨true⟩ 6 "input broke" bytes ⟨rfl, rfl⟩ rfl⟩

end Rounds

end Session

end ExprReader
