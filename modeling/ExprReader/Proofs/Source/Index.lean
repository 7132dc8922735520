import Mathlib.Data.List.Basic
import ExprReader.Proofs.Source.Input
import ExprReader.Proofs.Source.Lines
import ExprReader.Proofs.Text.Decode

/-!
# Where the lines of a source begin

A source that is loaded, emptied and filled again, in any order and from any input, begins a line at
its beginning and behind each line feed of its text, and nowhere else. Filling it takes one line of
the input, whose decoded text has a line feed at its end or none at all; if the input breaks, the
source is left empty.

## Main definitions

* `Reader.NextLine input line rest`: the next line of some input, and what comes behind it
* `Source.Reachable name s`: the source comes about by loading, emptying and filling
* `Source.Indexed name s`: its lines are those of its text
* `Source.Refilled name input`: what filling a source leaves

## Main results

* `Line.map_start_place`: lines begin behind the line feeds of a text
* `Text.feed_mem_encode_decode_iff`: decoding neither loses nor makes up a line feed
* `Reader.takeLine_cases`: a reader gives the next line unless it breaks
* `Source.refilled`: what filling a source leaves, whatever it held before
* `Source.Reachable.indexed`: every source that comes about is indexed
-/

namespace ExprReader

/-! ## Line feeds among the bytes of a text -/

namespace Text

variable {c : Char} {cs : List Char} {bytes : List UInt8}

/-- No other character has the byte of a line feed among its bytes. -/
theorem feed_notMem_utf8EncodeChar (hc : c ≠ '\n') :
    Reader.lineFeed ∉ String.utf8EncodeChar c := by
  have hnat : c.val.toNat ≠ 10 := fun h => hc (Char.toNat_inj.mp h)
  unfold String.utf8EncodeChar
  dsimp only
  -- a byte of a longer character is at least 128
  split_ifs
  all_goals
    simp only [Reader.lineFeed, List.mem_cons, List.not_mem_nil, ← UInt8.toNat_inj,
      UInt8.toNat_ofNat', UInt8.reduceToNat, Nat.reducePow, or_false]
    omega

theorem idxsOf_encode_cons (c : Char) (cs : List Char) (start : Nat) :
    (encode (c :: cs)).idxsOf Reader.lineFeed start =
      if c = '\n' then start :: (encode cs).idxsOf Reader.lineFeed (start + 1)
      else (encode cs).idxsOf Reader.lineFeed (start + c.utf8Size) := by
  have hcons : encode (c :: cs) = String.utf8EncodeChar c ++ encode cs := List.flatMap_cons
  rw [hcons, List.idxsOf_append, String.length_utf8EncodeChar]
  split_ifs with hc
  · subst hc
    rfl
  · have hnone : (String.utf8EncodeChar c).idxsOf Reader.lineFeed start = [] := by
      rw [List.idxsOf_eq_nil_iff]
      intro b hb
      exact beq_false_of_ne fun h => feed_notMem_utf8EncodeChar hc (h ▸ hb)
    rw [hnone, List.nil_append]

theorem feed_mem_encode_iff : Reader.lineFeed ∈ encode cs ↔ '\n' ∈ cs := by
  rw [encode, List.mem_flatMap]
  constructor
  · rintro ⟨c, hc, hfeed⟩
    by_contra hne
    exact feed_notMem_utf8EncodeChar (fun h => hne (h ▸ hc)) hfeed
  · intro hmem
    exact ⟨'\n', hmem, List.mem_singleton.mpr rfl⟩

theorem newline_mem_decode_iff : '\n' ∈ decode bytes ↔ Reader.lineFeed ∈ bytes := by
  have hfilter : '\n' ∈ (decode bytes).filter (fun c => c.toNat < 0x80) ↔
      '\n' ∈ (bytes.filter (fun b => b.toNat < 0x80)).map fun b => Char.ofNat b.toNat := by
    rw [filter_decode]
  rw [List.mem_filter, List.mem_map] at hfilter
  constructor
  · intro hmem
    obtain ⟨b, hb, hchar⟩ := hfilter.mp ⟨hmem, rfl⟩
    obtain ⟨hb, hlt⟩ := List.mem_filter.mp hb
    have hvalid : b.toNat.isValidChar := .inl (Nat.lt_trans b.toNat_lt (by decide))
    have hnat : b.toNat = 10 := by
      rw [← toNat_ofNat_of_isValidChar hvalid, hchar]
      rfl
    obtain rfl : b = Reader.lineFeed := UInt8.toNat_inj.mp hnat
    exact hb
  · intro hmem
    exact (hfilter.mpr ⟨Reader.lineFeed, List.mem_filter.mpr ⟨hmem, rfl⟩, rfl⟩).1

/-- **Decoding neither loses nor makes up a line feed.** -/
theorem feed_mem_encode_decode_iff :
    Reader.lineFeed ∈ encode (decode bytes) ↔ Reader.lineFeed ∈ bytes := by
  rw [feed_mem_encode_iff, newline_mem_decode_iff]

theorem encode_decode_append_feed (bytes : List UInt8) :
    encode (decode (bytes ++ [Reader.lineFeed])) = encode (decode bytes) ++ [Reader.lineFeed] := by
  have hfeed : Reader.lineFeed.toNat < 0x80 := by decide
  have hhead : ∀ b ∈ [Reader.lineFeed].head?, b.toNat < 0x80 := by
    rintro b ⟨⟩
    exact hfeed
  rw [decode_append bytes hhead, decode_cons_ascii (UInt8.lt_iff_toNat_lt.mpr hfeed), encode_append,
    decode_nil]
  rfl

/-- If a line feed can only be the last of some bytes, then also of their text. -/
theorem feed_notMem_dropLast_encode_decode (h : Reader.lineFeed ∉ bytes.dropLast) :
    Reader.lineFeed ∉ (encode (decode bytes)).dropLast := by
  rcases List.eq_nil_or_concat bytes with rfl | ⟨front, last, rfl⟩
  · rw [decode_nil]
    exact List.not_mem_nil
  · rw [List.concat_eq_append] at h ⊢
    rw [List.dropLast_concat] at h
    by_cases hlast : last = Reader.lineFeed
    · rw [hlast, encode_decode_append_feed, List.dropLast_concat, feed_mem_encode_decode_iff]
      exact h
    · intro hmem
      have hfeed := feed_mem_encode_decode_iff.mp (List.dropLast_subset _ hmem)
      rcases List.mem_append.mp hfeed with hfront | hfeed
      · exact h hfront
      · exact hlast (List.mem_singleton.mp hfeed).symm

end Text

/-! ## The next line of some input -/

namespace Reader

variable {input rest : Reader} {line : List UInt8}

/-- The line is the next one of the input, and the rest comes behind it: the line ends behind its
only line feed, or it is all that is left where the input ends. -/
structure NextLine (input : Reader) (line : List UInt8) (rest : Reader) : Prop where
  append_eq : line ++ rest.bytes = input.bytes
  feed_notMem : lineFeed ∉ line.dropLast
  ends : line.getLast? = some lineFeed ∨ rest.bytes = [] ∧ input.failure = none

/-- The next line is empty only where the input ends. -/
theorem NextLine.ended (h : NextLine input line rest) (hline : line = []) :
    input.bytes = [] ∧ input.failure = none := by
  subst hline
  rcases h.ends with hfeed | ⟨hrest, hfailure⟩
  · cases hfeed
  · exact ⟨by rw [← h.append_eq, hrest, List.nil_append], hfailure⟩

/-- A reader gives the next line, unless the input breaks before a line feed comes. -/
theorem takeLine_cases (input : Reader) :
    (∃ reason, input.failure = some reason ∧ lineFeed ∉ input.bytes ∧
      input.takeLine = (.error reason, ⟨[], input.failure⟩)) ∨
    ∃ line rest, input.takeLine = (.ok line, rest) ∧ NextLine input line rest := by
  obtain ⟨bytes, failure⟩ := input
  by_cases hfeed : lineFeed ∈ bytes
  · obtain ⟨front, rest, rfl, hfront⟩ := List.eq_append_cons_of_mem hfeed
    refine .inr ⟨_, _, takeLine_append_feed hfront rest failure, ?_, ?_, .inl ?_⟩
    · exact List.append_assoc ..
    · rwa [List.dropLast_concat]
    · exact List.getLast?_concat
  · cases failure with
    | some reason => exact .inl ⟨reason, rfl, hfeed, takeLine_breaking hfeed reason⟩
    | none =>
      refine .inr ⟨_, _, takeLine_of_notMem hfeed, List.append_nil bytes, ?_, .inr ⟨rfl, rfl⟩⟩
      exact fun hmem => hfeed (List.dropLast_subset _ hmem)

end Reader

/-! ## The lines of a source -/

/-- **Lines begin behind the line feeds of a text**, and the first at its beginning. -/
theorem Line.map_start_place (start : Nat) (cs : List Char) :
    (place start (cs.splitOn '\n')).map Line.start =
      start :: ((Text.encode cs).idxsOf Reader.lineFeed start).map (· + 1) := by
  induction cs generalizing start with
  | nil => rfl
  | cons c cs ih =>
    rw [List.splitOn_cons_eq_if_modifyHead, Text.idxsOf_encode_cons]
    by_cases hc : c = '\n'
    · rw [if_pos (beq_iff_eq.mpr hc), if_pos hc, place, List.map_cons, List.map_cons, ih]
      rfl
    · obtain ⟨chars, rest, hparts⟩ := List.exists_cons_of_ne_nil (List.splitOn_ne_nil '\n' cs)
      -- the character shifts the lines behind the first one
      have hrest := ih (start + c.utf8Size)
      rw [hparts, place, List.map_cons, List.cons.injEq] at hrest
      rw [if_neg (by simpa using hc), if_neg hc, hparts, List.modifyHead_cons, place, List.map_cons,
        ← hrest.2, Text.byteLength_cons, ← Nat.add_assoc]

namespace Source

variable {name : String} {s : Source}

/-- A source of a name that is loaded or empty at first, and then emptied and filled any number of
times, each time from any input. -/
inductive Reachable (name : String) : Source → Prop
  | load (text : String) : Reachable name (ofText name text)
  | empty : Reachable name (empty name)
  | clear {s : Source} : Reachable name s → Reachable name s.clear
  | refill {s : Source} (input : Reader) : Reachable name s → Reachable name (s.refill input).2.1

/-- The source is its text loaded under the name. Its lines begin at zero and behind each line feed,
one after the other and between characters of the text. -/
structure Indexed (name : String) (s : Source) : Prop where
  eq_ofText : s = ofText name s.text
  lineOffsets_eq : s.lineOffsets =
    0 :: ((Text.encode s.text.toList).idxsOf Reader.lineFeed).map (· + 1)
  increasing : s.lineOffsets.Pairwise (· < ·)
  le_size : ∀ offset ∈ s.lineOffsets, offset ≤ s.size
  isBoundary : ∀ offset ∈ s.lineOffsets, Text.IsBoundary offset s.text.toList

/-- What filling a source of a name from some input leaves. If the input breaks before a line feed
comes, the source is empty. Otherwise its text is the next line of the input, decoded, with no line
feed but at its end; the answer is the number of bytes of that line, zero only where the input
ends. -/
def Refilled (name : String) (input : Reader) : Except String Nat × Source × Reader → Prop
  | (.error reason, after, _) =>
    input.failure = some reason ∧ Reader.lineFeed ∉ input.bytes ∧
      after = empty name ∧ after.lineOffsets = [0]
  | (.ok count, after, rest) =>
    ∃ line, input.NextLine line rest ∧ line.length = count ∧
      after = ofText name (String.ofList (Text.decode line)) ∧
      Reader.lineFeed ∉ (Text.encode after.text.toList).dropLast ∧
      (count = 0 → input.bytes = [] ∧ input.failure = none)

@[simp] theorem text_ofText (name text : String) : (ofText name text).text = text := rfl

theorem indexed_ofText (name text : String) : Indexed name (ofText name text) := by
  have hlines : ∀ offset ∈ (ofText name text).lineOffsets, Text.IsBoundary offset text.toList := by
    intro offset hoffset
    obtain ⟨line, hline, rfl⟩ := List.mem_map.mp hoffset
    exact (Line.standsAt_of_mem_ofText hline).isBoundary_start
  have heq : (ofText name text).lineOffsets =
      0 :: ((Text.encode text.toList).idxsOf Reader.lineFeed).map (· + 1) :=
    Line.map_start_place 0 text.toList
  refine ⟨rfl, heq, ?_, ?_, hlines⟩
  · rw [heq, List.pairwise_cons, List.forall_mem_map]
    refine ⟨fun _ _ => Nat.succ_pos _, ?_⟩
    exact List.pairwise_idxsOf.map _ fun _ _ hlt => Nat.succ_lt_succ hlt
  · intro offset hoffset
    rw [size_ofText]
    exact (hlines offset hoffset).le

theorem clear_eq_empty (s : Source) : s.clear = empty s.name := rfl

theorem refill_of_error {input rest : Reader} {reason : String}
    (h : input.takeLine = (.error reason, rest)) :
    s.refill input = (.error reason, empty s.name, rest) := by
  rw [refill, h, clear_eq_empty]

/-- **What filling a source leaves**, whatever it held before. -/
theorem refilled (s : Source) (input : Reader) : Refilled s.name input (s.refill input) := by
  rcases input.takeLine_cases with ⟨reason, hfailure, hfeed, hread⟩ | ⟨line, rest, hread, hline⟩
  · rw [refill_of_error hread]
    exact ⟨hfailure, hfeed, rfl, rfl⟩
  · rw [refill_of_takeLine hread]
    refine ⟨line, hline, rfl, rfl, ?_, ?_⟩
    · rw [text_ofText, String.toList_ofList]
      exact Text.feed_notMem_dropLast_encode_decode hline.feed_notMem
    · intro hlength
      exact hline.ended (List.length_eq_zero_iff.mp hlength)

theorem Refilled.eq_ofText {input rest : Reader} {answer : Except String Nat} {after : Source}
    (h : Refilled name input (answer, after, rest)) : after = ofText name after.text := by
  cases answer with
  | error reason =>
    obtain ⟨-, -, rfl, -⟩ := h
    rfl
  | ok count =>
    obtain ⟨line, -, -, rfl, -⟩ := h
    rfl

/-- Whatever happens to a source, it is its text loaded under its first name. -/
theorem Reachable.eq_ofText (h : Reachable name s) : s = ofText name s.text := by
  induction h with
  | load text => rfl
  | empty => rfl
  | @clear s hs ih =>
    rw [clear_eq_empty, ih]
    rfl
  | @refill s input hs ih =>
    have hrefilled := s.refilled input
    rw [ih] at hrefilled ⊢
    exact hrefilled.eq_ofText

/-- **Every source that comes about is indexed**, and filling it takes one line of the input. -/
theorem Reachable.indexed (h : Reachable name s) :
    Indexed name s ∧ ∀ input, Refilled name input (s.refill input) := by
  rw [h.eq_ofText]
  exact ⟨indexed_ofText name s.text, (ofText name s.text).refilled⟩

/-- The input breaks in the middle of a line, and the next one has a byte that is no character. -/
theorem indexed_of_brokenLine :
    let broken := ((ofText "repl" "é\n\n").refill ⟨[49, 32], some "input broke"⟩).2.1
    let s := (broken.refill (.ofBytes [0xFF, 49, 10, 50])).2.1
    Reachable "repl" s ∧ s.text = "\ufffd1\n" ∧ s.lineOffsets = [0, 5] ∧ Indexed "repl" s ∧
      ∀ input, Refilled "repl" input (s.refill input) := by
  intro broken s
  have hreachable : Reachable "repl" s := .refill _ (.refill _ (.load "é\n\n"))
  have htext : s.text = "\ufffd1\n" := by decide +kernel
  have hoffsets : s.lineOffsets = [0, 5] := by decide +kernel
  exact ⟨hreachable, htext, hoffsets, hreachable.indexed⟩

end Source

end ExprReader
