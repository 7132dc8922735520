import ExprReader.Proofs.Text.Decode

/-!
# What is replaced in decoded text

Where bytes are not those of a text, the longest part that begins some character is replaced, and a
byte that begins none is replaced alone. This says it without a look at how bytes are read, and no
other text can be made of the bytes in this way. Bytes that are those of a text need not be decoded
at all: they are the text.

## Main definitions

* `BeginsChar part`: the bytes are a beginning of those of some character
* `MaximalInvalid part rest`: the part to be replaced at the front of bytes
* `Lossy bytes cs`: bytes as characters, with a replacement for each such part
* `checked bytes`: the text of bytes, which are decoded only if they are not those of a text

## Main results

* `Encodes.utf8EncodeChar_eq`: bytes that encode the number of a character are its bytes
* `decode_eq_iff_lossy`: what is decoded is the one text with such replacements
* `checked_eq_ofList_decode`: bytes of a text decode to what they are
-/

namespace ExprReader.Text

/-- The bytes are a beginning of the bytes of some character. -/
def BeginsChar (part : List UInt8) : Prop := ∃ c, part <+: String.utf8EncodeChar c

/-- No character stands at the front of `part ++ rest`, and the part is the longest beginning of a
character there, or a single byte where no character begins so. -/
structure MaximalInvalid (part rest : List UInt8) : Prop where
  ne_nil : part ≠ []
  invalid : ∀ c, ¬String.utf8EncodeChar c <+: part ++ rest
  begins : part.length = 1 ∨ BeginsChar part
  longest : ∀ other, other <+: part ++ rest → BeginsChar other → other.length ≤ part.length

/-- Bytes as characters: each character by its bytes, and a replacement for each part that is
none. -/
inductive Lossy : List UInt8 → List Char → Prop
  | nil : Lossy [] []
  | char (c : Char) {rest : List UInt8} {cs : List Char} (h : Lossy rest cs) :
      Lossy (String.utf8EncodeChar c ++ rest) (c :: cs)
  | invalid {part rest : List UInt8} {cs : List Char} (hpart : MaximalInvalid part rest)
      (h : Lossy rest cs) : Lossy (part ++ rest) (replacement :: cs)

/-- The text of some bytes: it is taken as it is if they are UTF-8, and decoded with replacements
otherwise. -/
def checked (bytes : List UInt8) : String :=
  (String.fromUTF8? bytes.toByteArray).getD (String.ofList (decode bytes))

variable {b : UInt8} {bytes part rest tail left more : List UInt8}
  {ranges : List (UInt8 × UInt8)} {cs : List Char}

/-! ## Beginnings of characters -/

/-- **Bytes that encode the number of a character are its bytes.** -/
theorem Encodes.utf8EncodeChar_eq {c : Char} (h : Encodes b tail c.val.toNat) :
    String.utf8EncodeChar c = b :: tail := by
  obtain ⟨ranges, hranges, htail, hnumber⟩ := h
  have hbyte : ∀ (x : UInt8) {m : Nat}, m = x.toNat → UInt8.ofNat m = x := by
    rintro x m rfl
    exact UInt8.ofNat_toNat
  simp only [String.utf8EncodeChar]
  generalize c.val.toNat = n at hnumber ⊢
  -- the form has as many bytes as the first byte asks for, and the number is large enough for it
  cases leads_of_tailRanges? hranges with
  | one hlt =>
    cases htail
    have hn : b.toNat = n := hnumber
    rw [if_pos (by omega), hbyte b (by omega)]
  | two =>
    obtain _ | ⟨ht, _ | _⟩ := htail
    rename_i t
    simp only [FitsRange, UInt8.le_iff_toNat_le, UInt8.reduceToNat] at ht
    rw [codePoint_two] at hnumber
    rw [if_neg (by omega), if_pos (by omega), hbyte b (by omega), hbyte t (by omega)]
  | three =>
    obtain _ | ⟨ht, _ | ⟨hu, _ | _⟩⟩ := htail
    rename_i t u
    simp only [FitsRange, UInt8.le_iff_toNat_le, UInt8.reduceToNat] at ht hu
    rw [codePoint_three] at hnumber
    rw [if_neg (by omega), if_neg (by omega), if_pos (by omega), hbyte b (by omega),
      hbyte t (by omega), hbyte u (by omega)]
  | four =>
    obtain _ | ⟨ht, _ | ⟨hu, _ | ⟨hv, _ | _⟩⟩⟩ := htail
    rename_i t u v
    simp only [FitsRange, UInt8.le_iff_toNat_le, UInt8.reduceToNat] at ht hu hv
    rw [codePoint_four] at hnumber
    rw [if_neg (by omega), if_neg (by omega), if_neg (by omega), hbyte b (by omega),
      hbyte t (by omega), hbyte u (by omega), hbyte v (by omega)]

theorem Leads.isValidChar_codePoint (h : Leads b ranges)
    (htail : List.Forall₂ FitsRange ranges tail) : (codePoint b tail).isValidChar := by
  by_cases hb : 0x80 ≤ b.toNat
  · exact (h.codePoint_bounds hb htail).2
  · rw [Nat.not_le] at hb
    cases h with
    | one =>
      cases htail
      exact .inl (Nat.lt_trans hb (by decide))
    | two | three | four => omega

/-- What begins a character is a first byte with bytes that lie in the first of its ranges. -/
theorem beginsChar_cons_iff : BeginsChar (b :: tail) ↔
    ∃ ranges more, tailRanges? b = some ranges ∧ List.Forall₂ FitsRange ranges (tail ++ more) := by
  constructor
  · rintro ⟨c, more, hc⟩
    obtain ⟨b', tail', hencode, ranges, hranges, htail, -⟩ := exists_encodes c
    rw [← hc, List.cons_append, List.cons.injEq] at hencode
    obtain ⟨rfl, rfl⟩ := hencode
    exact ⟨ranges, more, hranges, htail⟩
  · rintro ⟨ranges, more, hranges, htail⟩
    have hvalid := (leads_of_tailRanges? hranges).isValidChar_codePoint htail
    refine ⟨Char.ofNat (codePoint b (tail ++ more)), more, ?_⟩
    exact (Encodes.utf8EncodeChar_eq
      ⟨ranges, hranges, htail, (toNat_ofNat_of_isValidChar hvalid).symm⟩).symm

/-- No range is empty. -/
theorem fst_le_snd_of_tailRanges? (h : tailRanges? b = some ranges) :
    ∀ range ∈ ranges, range.1 ≤ range.2 := by
  revert h
  fun_cases tailRanges? b
  all_goals rintro ⟨⟩
  all_goals simp [UInt8.le_iff_toNat_le]

/-- The bytes that are read behind a first byte can be continued until all ranges are met. -/
theorem exists_forall₂_takeTail (hranges : ∀ range ∈ ranges, range.1 ≤ range.2)
    (bytes : List UInt8) :
    ∃ more, List.Forall₂ FitsRange ranges ((takeTail ranges bytes).1 ++ more) := by
  have hfirst : ∀ {ranges : List (UInt8 × UInt8)}, (∀ range ∈ ranges, range.1 ≤ range.2) →
      List.Forall₂ FitsRange ranges (ranges.map Prod.fst) := by
    intro ranges h
    rw [List.forall₂_map_right_iff, List.forall₂_same]
    exact fun range hrange => ⟨UInt8.le_refl _, h range hrange⟩
  fun_induction takeTail ranges bytes with
  | case1 => exact ⟨[], .nil⟩
  | case2 => exact ⟨_, hfirst hranges⟩
  | case3 first last ranges b bytes h tail complete left heq ih =>
    rw [List.forall_mem_cons] at hranges
    obtain ⟨more, hmore⟩ := ih hranges.2
    rw [heq] at hmore
    exact ⟨more, .cons h hmore⟩
  | case4 => exact ⟨_, hfirst hranges⟩

/-- No more bytes than are read could be those behind a first byte. -/
theorem prefix_takeTail (h : List.Forall₂ FitsRange ranges (tail ++ more))
    (hbytes : tail <+: bytes) : tail <+: (takeTail ranges bytes).1 := by
  induction ranges generalizing tail bytes with
  | nil =>
    obtain ⟨rfl, -⟩ := List.append_eq_nil_iff.mp (List.forall₂_nil_left_iff.mp h)
    exact List.nil_prefix
  | cons range ranges ih =>
    cases tail with
    | nil => exact List.nil_prefix
    | cons t tail =>
      obtain ⟨rest, rfl⟩ := hbytes
      obtain ⟨hfits, htail⟩ := List.forall₂_cons.mp h
      have hfits : range.1 ≤ t ∧ t ≤ range.2 := hfits
      have hread := ih htail (List.prefix_append tail rest)
      rw [List.cons_append, takeTail, if_pos hfits]
      exact List.cons_prefix_cons.mpr ⟨rfl, hread⟩

/-! ## The front of some bytes -/

/-- Where a first byte can begin no character, it is replaced alone. -/
theorem maximalInvalid_of_none (h : tailRanges? b = none) (rest : List UInt8) :
    MaximalInvalid [b] rest := by
  have hnot : ∀ {tail}, ¬BeginsChar (b :: tail) := by
    intro tail hbegins
    obtain ⟨ranges, -, hranges, -⟩ := beginsChar_cons_iff.mp hbegins
    rw [h] at hranges
    cases hranges
  refine ⟨List.cons_ne_nil _ _, fun c hc => ?_, .inl rfl, fun other hother hbegins => ?_⟩
  · obtain ⟨b', tail, hencode, -⟩ := exists_encodes c
    rw [hencode] at hc
    obtain ⟨rfl, -⟩ := List.cons_prefix_cons.mp hc
    exact hnot ⟨c, [], by rw [List.append_nil, hencode]⟩
  · cases other with
    | nil => exact Nat.zero_le _
    | cons b' tail =>
      obtain ⟨rfl, -⟩ := List.cons_prefix_cons.mp hother
      exact absurd hbegins hnot

/-- Where the bytes behind a first byte break off, what has been read is replaced. -/
theorem maximalInvalid_of_incomplete (hranges : tailRanges? b = some ranges)
    (hread : takeTail ranges rest = (tail, false, left)) : MaximalInvalid (b :: tail) left := by
  have hrest : tail ++ left = rest := by
    have happend := takeTail_append ranges rest
    rwa [hread] at happend
  -- what begins a character here has its ranges, so it is not longer than what is read
  have hfront : ∀ {tail' more}, b :: tail' <+: b :: tail ++ left →
      List.Forall₂ FitsRange ranges (tail' ++ more) → tail' <+: tail := by
    intro tail' more hstart htail'
    rw [List.cons_append, hrest] at hstart
    have hle := prefix_takeTail htail' (List.cons_prefix_cons.mp hstart).2
    rwa [hread] at hle
  refine ⟨List.cons_ne_nil _ _, fun c hc => ?_, .inr ?_, fun other hother hbegins => ?_⟩
  · obtain ⟨b', tail', hencode, ranges', hranges', htail', -⟩ := exists_encodes c
    rw [hencode, List.cons_append] at hc
    obtain ⟨rfl, hstart⟩ := List.cons_prefix_cons.mp hc
    obtain rfl := Option.some.inj (hranges.symm.trans hranges')
    obtain ⟨more, hmore⟩ := hstart
    have hcomplete := takeTail_of_forall₂ htail' more
    rw [hmore, hrest, hread] at hcomplete
    cases hcomplete
  · obtain ⟨more, hmore⟩ :=
      exists_forall₂_takeTail (fst_le_snd_of_tailRanges? hranges) rest
    rw [hread] at hmore
    exact beginsChar_cons_iff.mpr ⟨ranges, more, hranges, hmore⟩
  · cases other with
    | nil => exact Nat.zero_le _
    | cons b' tail' =>
      obtain ⟨rfl, -⟩ := List.cons_prefix_cons.mp hother
      obtain ⟨ranges', more, hranges', htail'⟩ := beginsChar_cons_iff.mp hbegins
      obtain rfl := Option.some.inj (hranges.symm.trans hranges')
      exact Nat.succ_le_succ (hfront hother htail').length_le

/-- **What is read first** is a character at the front of the bytes, or the replacement of the part
there that is none. -/
theorem decodeFirst_spec (b : UInt8) (rest : List UInt8) :
    (∃ c left, decodeFirst b rest = (c, left) ∧ b :: rest = String.utf8EncodeChar c ++ left) ∨
      ∃ part left, decodeFirst b rest = (replacement, left) ∧ b :: rest = part ++ left ∧
        MaximalInvalid part left := by
  cases hranges : tailRanges? b with
  | none =>
    refine .inr ⟨[b], rest, ?_, rfl, maximalInvalid_of_none hranges rest⟩
    rw [decodeFirst, hranges]
  | some ranges =>
    have hrest := takeTail_append ranges rest
    rcases hread : takeTail ranges rest with ⟨tail, complete, left⟩
    rw [hread] at hrest
    cases complete with
    | false =>
      refine .inr ⟨b :: tail, left, ?_, congrArg (b :: ·) hrest.symm,
        maximalInvalid_of_incomplete hranges hread⟩
      rw [decodeFirst, hranges]
      simp only [hread]
    | true =>
      have htail := forall₂_takeTail hread
      have hvalid := (leads_of_tailRanges? hranges).isValidChar_codePoint htail
      refine .inl ⟨Char.ofNat (codePoint b tail), left, ?_, ?_⟩
      · rw [decodeFirst, hranges]
        simp only [hread]
      · rw [Encodes.utf8EncodeChar_eq
          ⟨ranges, hranges, htail, (toNat_ofNat_of_isValidChar hvalid).symm⟩, ← hrest]
        rfl

/-! ## All bytes -/

theorem lossy_decode (bytes : List UInt8) : Lossy bytes (decode bytes) := by
  fun_induction decode bytes with
  | case1 => exact .nil
  | case2 b rest ih =>
    rcases decodeFirst_spec b rest with
      ⟨c, left, hfirst, hbytes⟩ | ⟨part, left, hfirst, hbytes, hpart⟩
    · rw [hfirst] at ih ⊢
      rw [hbytes]
      exact .char c ih
    · rw [hfirst] at ih ⊢
      rw [hbytes]
      exact .invalid hpart ih

/-- No part that is replaced is longer than another one at the same place. -/
theorem MaximalInvalid.length_le {part' rest' : List UInt8} (h : MaximalInvalid part rest)
    (h' : MaximalInvalid part' rest') (heq : part ++ rest = part' ++ rest') :
    part.length ≤ part'.length := by
  rcases h.begins with hone | hbegins
  · rw [hone]
    exact List.length_pos_iff.mpr h'.ne_nil
  · exact h'.longest part (heq ▸ List.prefix_append part rest) hbegins

theorem MaximalInvalid.decodeFirst_eq (h : MaximalInvalid part rest)
    (hpart : part ++ rest = b :: tail) : decodeFirst b tail = (replacement, rest) := by
  rcases decodeFirst_spec b tail with ⟨c, left, -, hbytes⟩ | ⟨part', left, hfirst, hbytes, hpart'⟩
  · exact absurd ⟨left, (hpart.trans hbytes).symm⟩ (h.invalid c)
  · have heq := hpart.trans hbytes
    have hlength := Nat.le_antisymm (h.length_le hpart' heq) (hpart'.length_le h heq.symm)
    obtain ⟨-, rfl⟩ := List.append_inj heq hlength
    exact hfirst

theorem Lossy.decode_eq (h : Lossy bytes cs) : decode bytes = cs := by
  induction h with
  | nil => exact decode_nil
  | @char c rest _ _ ih =>
    have hchar : encode [c] = String.utf8EncodeChar c := List.flatMap_singleton _ _
    rw [← hchar, decode_encode_append, ih, List.singleton_append]
  | @invalid part rest cs hpart _ ih =>
    obtain ⟨b, tail, rfl⟩ := List.exists_cons_of_ne_nil hpart.ne_nil
    rw [List.cons_append, decode_cons, hpart.decodeFirst_eq (List.cons_append ..), ih]

/-- **What is decoded is the one text with a replacement for each maximal part that is no
character.** -/
theorem decode_eq_iff_lossy : decode bytes = cs ↔ Lossy bytes cs :=
  ⟨fun h => h ▸ lossy_decode bytes, Lossy.decode_eq⟩

/-- **Bytes of a text decode to what they are**, so it does not matter whether they are decoded. -/
theorem checked_eq_ofList_decode (bytes : List UInt8) :
    checked bytes = String.ofList (decode bytes) := by
  unfold checked String.fromUTF8?
  split
  · rename_i hvalid
    obtain ⟨cs, hcs⟩ := hvalid
    have hbytes : bytes = encode cs := List.toByteArray_inj.mp hcs
    have hdecode : decode bytes = cs := by rw [hbytes, decode_encode]
    rw [Option.getD_some, ← String.toByteArray_inj, String.toByteArray_ofList, hdecode]
    exact hcs
  · rfl

end ExprReader.Text
