import ExprReader.Proofs.Session.Prompt
import ExprReader.Proofs.Text.Lossy

/-!
# Decoding line by line

Whether bytes are decoded at once, as those of a file are, or one line after the other, as a prompt
does, makes no difference to the text. Bytes can be cut beside any byte below 128: nothing that
begins a character goes on behind such a byte, and nothing that begins before it can take it in.

## Main definitions

* `Source.lineTexts s input`: the texts that a source holds when it is refilled until the end

## Main results

* `Text.checked_append`: parts that are cut beside a byte below 128 are decoded one by one
* `Source.lineTexts_ofBytes`: a source holds the lines of its input, each of them decoded
* `Source.join_lineTexts`: texts that are held line by line are the text of the whole
-/

namespace ExprReader

namespace Text

variable {bytes front back : List UInt8}

theorem toList_checked (bytes : List UInt8) : (checked bytes).toList = decode bytes := by
  rw [checked_eq_ofList_decode, String.toList_ofList]

theorem checked_eq_iff {text : String} : checked bytes = text ↔ decode bytes = text.toList := by
  rw [← String.toList_inj, toList_checked]

/-! ## Cuts beside a byte below 128 -/

theorem decode_cons_of_lt {b : UInt8} (hb : b.toNat < 0x80) (rest : List UInt8) :
    decode (b :: rest) = Char.ofNat b.toNat :: decode rest :=
  decode_cons_ascii (UInt8.lt_iff_toNat_lt.mpr hb) rest

/-- A byte below 128 is a character of its own, whatever stands around it. -/
theorem decode_append_cons (front : List UInt8) {b : UInt8} (hb : b.toNat < 0x80)
    (back : List UInt8) :
    decode (front ++ b :: back) = decode front ++ Char.ofNat b.toNat :: decode back := by
  have hhead : ∀ a ∈ (b :: back).head?, a.toNat < 0x80 := by
    rintro _ ⟨⟩
    exact hb
  rw [decode_append front hhead, decode_cons_of_lt hb]

/-- Parts are decoded one by one where the first one ends with a byte below 128. -/
theorem decode_append_of_getLast (hfront : ∀ b ∈ front.getLast?, b.toNat < 0x80)
    (back : List UInt8) : decode (front ++ back) = decode front ++ decode back := by
  rcases List.eq_nil_or_concat front with rfl | ⟨front, b, rfl⟩
  · rw [decode_nil, List.nil_append, List.nil_append]
  · rw [List.concat_eq_append, List.getLast?_concat] at hfront
    have hb : b.toNat < 0x80 := hfront b rfl
    have hcut := decode_append_cons front hb []
    rw [decode_nil] at hcut
    rw [List.concat_eq_append, hcut, List.append_assoc, List.singleton_append,
      decode_append_cons front hb, List.append_assoc, List.singleton_append]

/-- **Parts that are cut beside a byte below 128 are decoded one by one.** -/
theorem checked_append
    (h : (∀ b ∈ front.getLast?, b.toNat < 0x80) ∨ ∀ b ∈ back.head?, b.toNat < 0x80) :
    checked (front ++ back) = checked front ++ checked back := by
  rw [checked_eq_iff, String.toList_append, toList_checked, toList_checked]
  rcases h with hfront | hback
  · exact decode_append_of_getLast hfront back
  · exact decode_append front hback

/-- What is read around a byte below 128 does not depend on what is behind the byte or before
it. -/
theorem checked_append_cons (front : List UInt8) {b : UInt8} (hb : b.toNat < 0x80)
    (back : List UInt8) : checked (front ++ b :: back) =
      checked front ++ String.singleton (Char.ofNat b.toNat) ++ checked back := by
  rw [checked_eq_iff, String.toList_append, String.toList_append, toList_checked, toList_checked,
    String.toList_singleton, List.append_assoc, List.singleton_append, decode_append_cons front hb]

/-! ## Bytes of a text -/

theorem fromUTF8?_encode (text : String) :
    String.fromUTF8? (encode text.toList).toByteArray = some text := by
  have hbytes : (encode text.toList).toByteArray = text.toByteArray :=
    String.toByteArray_ofList.symm.trans (congrArg _ String.ofList_toList)
  rw [hbytes, String.fromUTF8?, dif_pos text.isValidUTF8]
  rfl

theorem ofList_decode_encode (text : String) :
    String.ofList (decode (encode text.toList)) = text := by
  rw [decode_encode, String.ofList_toList]

end Text

namespace Reader

/-- Decoded lines make up what is decoded of the whole. -/
theorem CutAtFeeds.join_checked {bytes : List UInt8} {lines : List (List UInt8)}
    (h : CutAtFeeds bytes lines) : String.join (lines.map Text.checked) = Text.checked bytes := by
  obtain ⟨rfl, -, -, hends⟩ := h
  induction lines with
  | nil => exact (Text.checked_eq_iff.mpr Text.decode_nil).symm
  | cons line rest ih =>
    cases rest with
    | nil => simp
    | cons next rest =>
      -- a line that is not the last one ends with its line feed, so behind it can be cut
      rw [List.dropLast_cons_of_ne_nil (List.cons_ne_nil _ _), List.forall_mem_cons] at hends
      have hcut : ∀ b ∈ line.getLast?, b.toNat < 0x80 := by
        rw [hends.1]
        rintro _ ⟨⟩
        decide
      rw [List.map_cons, String.join_cons, ih hends.2]
      exact (Text.checked_append (.inl hcut)).symm

end Reader

namespace Source

/-- The texts that a source holds, one after the other, when it is refilled until the input ends or
breaks. -/
def lineTexts (s : Source) (input : Reader) : List String :=
  match _ : s.refill input with
  | (.ok (_ + 1), after, rest) => after.text :: after.lineTexts rest
  | _ => []
termination_by input.bytes.length
decreasing_by exact refill_shorter ‹_›

theorem lineTexts_of_refill {s after : Source} {input rest : Reader} {n : Nat}
    (h : s.refill input = (.ok (n + 1), after, rest)) :
    s.lineTexts input = after.text :: after.lineTexts rest := by
  rw [lineTexts]
  split
  · rename_i heq
    rw [h] at heq
    cases heq
    rfl
  · rename_i hnot
    exact absurd h (hnot _ _ _)

/-- **A source holds the lines of its input, each of them decoded**, whatever it held before. -/
theorem lineTexts_ofBytes (s : Source) (bytes : List UInt8) :
    s.lineTexts (.ofBytes bytes) = (Reader.lines bytes).map Text.checked := by
  induction bytes using Source.refill_induction generalizing s with
  | nil =>
    rw [lineTexts]
    rfl
  | line bytes line rest n hlines hrefill ih =>
    rw [lineTexts_of_refill (hrefill s), ih, hlines, List.map_cons, Text.checked_eq_ofList_decode]
    rfl

/-- **Texts that are held line by line are the text of the whole.** -/
theorem join_lineTexts (s : Source) (bytes : List UInt8) :
    String.join (s.lineTexts (.ofBytes bytes)) = Text.checked bytes := by
  rw [lineTexts_ofBytes, (Reader.cutAtFeeds_lines bytes).join_checked]

end Source

namespace Session

theorem answerFile_ok (options : Options) (path : String) (bytes : List UInt8) :
    answerFile options path (.ok bytes) =
      answer options (Source.ofText path (Text.checked bytes)) := by
  rw [Text.checked_eq_ofList_decode]
  rfl

/-- **Decoding line by line agrees with decoding the whole.** Parts of bytes that are cut beside a
byte below 128 are decoded one by one. So the texts that a source holds while it is refilled, which
are the decoded lines that a session answers at a prompt, are together the text that is answered
where the same bytes are those of a file. No byte below 128 is dropped, added or taken into a
replacement, and the bytes of a text are that text, whether they are checked or decoded. What is
decoded is the one text with a replacement for each maximal invalid part. -/
theorem lineTexts_agree (options : Options) (path : String) (s : Source) (bytes : List UInt8) :
    (∀ front back : List UInt8,
      (∀ b ∈ front.getLast?, b.toNat < 0x80) ∨ (∀ b ∈ back.head?, b.toNat < 0x80) →
      Text.checked (front ++ back) = Text.checked front ++ Text.checked back) ∧
    (∃ lines, Reader.CutAtFeeds bytes lines ∧
      s.lineTexts (.ofBytes bytes) = lines.map Text.checked ∧
      converseFrom options s (.ofBytes bytes) = answerLines options s.name lines) ∧
    (∀ lines, Reader.CutAtFeeds bytes lines →
      String.join (lines.map Text.checked) = Text.checked bytes) ∧
    answerFile options path (.ok bytes) =
      answer options (Source.ofText path (String.join (s.lineTexts (.ofBytes bytes)))) ∧
    (Text.checked bytes).toList.filter (fun c => c.toNat < 0x80) =
      (bytes.filter fun b => b.toNat < 0x80).map (fun b => Char.ofNat b.toNat) ∧
    (∀ front b back, bytes = front ++ b :: back → b.toNat < 0x80 → Text.checked bytes =
      Text.checked front ++ String.singleton (Char.ofNat b.toNat) ++ Text.checked back) ∧
    (∀ text : String, Text.checked (Text.encode text.toList) = text ∧
      String.fromUTF8? (Text.encode text.toList).toByteArray = some text ∧
      String.ofList (Text.decode (Text.encode text.toList)) = text) ∧
    (∀ text : String, Text.checked bytes = text ↔ Text.Lossy bytes text.toList) := by
  have hdecoded (text : String) := Text.ofList_decode_encode text
  refine ⟨fun front back => Text.checked_append, ?_, fun lines h => h.join_checked, ?_, ?_, ?_,
    fun text => ⟨?_, Text.fromUTF8?_encode text, hdecoded text⟩, fun text => ?_⟩
  · exact ⟨Reader.lines bytes, Reader.cutAtFeeds_lines bytes, s.lineTexts_ofBytes bytes,
      converseFrom_ofBytes options s bytes⟩
  · rw [s.join_lineTexts, answerFile_ok]
  · rw [Text.toList_checked, Text.filter_decode]
  · rintro front b back rfl hb
    exact Text.checked_append_cons front hb back
  · rw [Text.checked_eq_ofList_decode, hdecoded]
  · rw [Text.checked_eq_iff, Text.decode_eq_iff_lossy]

/-- A character that breaks off before a line feed, bytes of a number that is no character, and a
character at the end of the input. -/
theorem lineTexts_agree_of_brokenOff :
    let front : List UInt8 := [0x61, 0xe2, 0x82, 0x0a]
    let back : List UInt8 := [0xed, 0xa0, 0x80, 0x0a, 0xc3, 0xa9]
    let lines := [front, [0xed, 0xa0, 0x80, 0x0a], [0xc3, 0xa9]]
    let s := Source.empty promptName
    (∀ b ∈ front.getLast?, b.toNat < 0x80) ∧
      Text.checked (front ++ back) = Text.checked front ++ Text.checked back ∧
      Reader.CutAtFeeds (front ++ back) lines ∧
      String.join (lines.map Text.checked) = Text.checked (front ++ back) ∧
      answerFile ⟨true⟩ "text" (.ok (front ++ back)) = answer ⟨true⟩
        (Source.ofText "text" (String.join (s.lineTexts (.ofBytes (front ++ back))))) ∧
      Text.checked (front ++ back) =
        Text.checked [0x61, 0xe2, 0x82] ++ String.singleton '\n' ++ Text.checked back ∧
      Text.checked (front ++ back) = "a\uFFFD\n\uFFFD\uFFFD\uFFFD\né" := by
  intro front back lines s
  have hfront : ∀ b ∈ front.getLast?, b.toNat < 0x80 := by
    rintro _ ⟨⟩
    decide
  have hlines : Reader.CutAtFeeds (front ++ back) lines :=
    ⟨rfl, by decide, by decide, by decide⟩
  have hdecode : Text.decode (front ++ back) =
      "a\uFFFD\n\uFFFD\uFFFD\uFFFD\né".toList := by decide +kernel
  obtain ⟨happend, -, hjoin, hfile, -, hcut, -⟩ :=
    lineTexts_agree ⟨true⟩ "text" s (front ++ back)
  exact ⟨hfront, happend front back (.inl hfront), hlines, hjoin lines hlines, hfile,
    hcut [0x61, 0xe2, 0x82] 0x0a back rfl (by decide), Text.checked_eq_iff.mpr hdecode⟩

end Session

end ExprReader
