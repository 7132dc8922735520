import Mathlib.Data.List.Forall2
import Mathlib.Tactic.SplitIfs
import ExprReader.Text.Bytes
import ExprReader.Text.Lossy

/-!
# Decoded text

A byte below 128 is a character by itself and belongs to no other one, however broken the bytes
around it are. So bytes can be decoded part by part where a part begins with such a byte, and the
characters below 128 of a decoded text are just these bytes. Where the bytes are those of a text,
it is this text that is decoded from them.

## Main definitions

* `FitsRange range b`: a byte lies in a range
* `Leads b ranges`: a byte is the first one of a character
* `Encodes b tail n`: a first byte and those behind it are the form of a number

## Main results

* `decodeFirst_cases`: what a character of a decoded text takes
* `decode_append`: parts are decoded one by one
* `filter_decode`: no character below 128 is lost or made up
* `decode_encode`: a text is decoded from its bytes
-/

namespace ExprReader.Text

/-- The byte lies in the range. -/
def FitsRange (range : UInt8 × UInt8) (b : UInt8) : Prop := range.1 ≤ b ∧ b ≤ range.2

/-- The byte can be the first one of a character whose other bytes lie in the ranges. There is no
second range that begins below 128, and none that admits an overlong form, a surrogate or a number
beyond the last code point. -/
inductive Leads (b : UInt8) : List (UInt8 × UInt8) → Prop
  | one (hlt : b.toNat < 0x80) : Leads b []
  | two (hge : 0xC2 ≤ b.toNat) (hlt : b.toNat < 0xE0) : Leads b [(0x80, 0xBF)]
  | three {low high : UInt8} (hge : 0xE0 ≤ b.toNat) (hlt : b.toNat < 0xF0)
      (hlow : 0x80 ≤ low.toNat) (hhigh : high.toNat ≤ 0xBF)
      (hoverlong : b.toNat = 0xE0 → 0xA0 ≤ low.toNat)
      (hsurrogate : b.toNat = 0xED → high.toNat ≤ 0x9F) : Leads b [(low, high), (0x80, 0xBF)]
  | four {low high : UInt8} (hge : 0xF0 ≤ b.toNat) (hle : b.toNat ≤ 0xF4)
      (hlow : 0x80 ≤ low.toNat) (hhigh : high.toNat ≤ 0xBF)
      (hoverlong : b.toNat = 0xF0 → 0x90 ≤ low.toNat)
      (hbeyond : b.toNat = 0xF4 → high.toNat ≤ 0x8F) :
      Leads b [(low, high), (0x80, 0xBF), (0x80, 0xBF)]

variable {b : UInt8} {bytes rest tail left : List UInt8} {ranges : List (UInt8 × UInt8)}

/-! ## The bytes behind a first byte -/

theorem leads_of_tailRanges? (h : tailRanges? b = some ranges) : Leads b ranges := by
  revert h
  fun_cases tailRanges? b
  all_goals rintro ⟨⟩
  all_goals simp only [UInt8.lt_iff_toNat_lt, ← UInt8.toNat_inj, UInt8.reduceToNat] at *
  · exact .one (by omega)
  · exact .two (by omega) (by omega)
  -- only at the ends of a stretch of first bytes is the second byte kept from some values
  · exact .three (by omega) (by omega) (by decide) (by decide) (fun _ => by decide) (by omega)
  · exact .three (by omega) (by omega) (by decide) (by decide) (by omega) (fun _ => by decide)
  · exact .three (by omega) (by omega) (by decide) (by decide) (by omega) (by omega)
  · exact .four (by omega) (by omega) (by decide) (by decide) (fun _ => by decide) (by omega)
  · exact .four (by omega) (by omega) (by decide) (by decide) (by omega) (by omega)
  · exact .four (by omega) (by omega) (by decide) (by decide) (by omega) (fun _ => by decide)

/-- No range begins below 128. -/
theorem Leads.le_fst (h : Leads b ranges) : ∀ range ∈ ranges, 0x80 ≤ range.1.toNat := by
  cases h with
  | one => exact List.forall_mem_nil _
  | two => simp
  | three _ _ hlow => simpa using hlow
  | four _ _ hlow => simpa using hlow

/-- The bytes read and the bytes left are all the bytes. -/
theorem takeTail_append (ranges : List (UInt8 × UInt8)) (bytes : List UInt8) :
    (takeTail ranges bytes).1 ++ (takeTail ranges bytes).2.2 = bytes := by
  fun_induction takeTail ranges bytes with
  | case1 => rfl
  | case2 => rfl
  | case3 first last ranges b bytes h tail complete left heq ih =>
    rw [heq] at ih
    exact congrArg (b :: ·) ih
  | case4 => rfl

/-- No byte below 128 is read behind a first byte. -/
theorem le_of_mem_takeTail (hranges : ∀ range ∈ ranges, 0x80 ≤ range.1.toNat) :
    ∀ t ∈ (takeTail ranges bytes).1, 0x80 ≤ t.toNat := by
  fun_induction takeTail ranges bytes with
  | case1 => exact List.forall_mem_nil _
  | case2 => exact List.forall_mem_nil _
  | case3 first last ranges b bytes h tail complete left heq ih =>
    rw [heq] at ih
    rw [List.forall_mem_cons] at hranges
    rw [List.forall_mem_cons]
    exact ⟨Nat.le_trans hranges.1 (UInt8.le_iff_toNat_le.mp h.1), ih hranges.2⟩
  | case4 => exact List.forall_mem_nil _

/-- If all ranges were met, then each byte that was read lies in its own. -/
theorem forall₂_takeTail (h : takeTail ranges bytes = (tail, true, left)) :
    List.Forall₂ FitsRange ranges tail := by
  induction ranges generalizing bytes tail left with
  | nil =>
    rw [takeTail] at h
    obtain ⟨rfl, -⟩ := Prod.mk.inj h
    exact .nil
  | cons range ranges ih =>
    cases bytes with
    | nil => simp [takeTail] at h
    | cons b bytes =>
      rw [takeTail] at h
      split_ifs at h with hfits
      · rcases hread : takeTail ranges bytes with ⟨tail', complete, left'⟩
        simp only [hread, Prod.mk.injEq] at h
        obtain ⟨rfl, rfl, -⟩ := h
        exact .cons hfits (ih hread)
      · cases (Prod.mk.inj (Prod.mk.inj h).2).1

/-- Bytes behind a first byte are read the same if a byte below 128 comes behind them. -/
theorem takeTail_append_ascii (hranges : ∀ range ∈ ranges, 0x80 ≤ range.1.toNat)
    (bytes : List UInt8) (hrest : ∀ a ∈ rest.head?, a.toNat < 0x80) :
    takeTail ranges (bytes ++ rest) = ((takeTail ranges bytes).1, (takeTail ranges bytes).2.1,
      (takeTail ranges bytes).2.2 ++ rest) := by
  fun_induction takeTail ranges bytes with
  | case1 => rw [takeTail]
  | case2 range ranges =>
    -- the byte below 128 fits no range, so it ends the reading like the end of the bytes
    cases rest with
    | nil => rfl
    | cons a rest =>
      have ha := hrest a rfl
      have hrange := hranges range List.mem_cons_self
      have hfits : ¬(range.1 ≤ a ∧ a ≤ range.2) := by
        rw [UInt8.le_iff_toNat_le]
        omega
      rw [List.nil_append, takeTail, if_neg hfits]
  | case3 first last ranges b bytes h tail complete left heq ih =>
    rw [List.forall_mem_cons] at hranges
    rw [List.cons_append, takeTail, if_pos h, ih hranges.2, heq]
  | case4 first last ranges b bytes h =>
    rw [List.cons_append, takeTail, if_neg h]

/-! ## One character -/

theorem toNat_ofNat_of_isValidChar {n : Nat} (h : n.isValidChar) : (Char.ofNat n).toNat = n := by
  rw [Char.ofNat, dif_pos h]
  rfl

theorem codePoint_two (b t : UInt8) : codePoint b [t] = b.toNat % 32 * 64 + t.toNat % 64 := rfl

theorem codePoint_three (b t u : UInt8) :
    codePoint b [t, u] = (b.toNat % 16 * 64 + t.toNat % 64) * 64 + u.toNat % 64 := rfl

theorem codePoint_four (b t u v : UInt8) : codePoint b [t, u, v] =
    ((b.toNat % 8 * 64 + t.toNat % 64) * 64 + u.toNat % 64) * 64 + v.toNat % 64 := rfl

/-- The number that a first byte and the bytes behind it spell is that of a character, and not below
128 if the first byte is not. -/
theorem Leads.codePoint_bounds (h : Leads b ranges) (hb : 0x80 ≤ b.toNat)
    (htail : List.Forall₂ FitsRange ranges tail) :
    0x80 ≤ codePoint b tail ∧ (codePoint b tail).isValidChar := by
  cases h with
  | one hlt => omega
  | two =>
    obtain _ | ⟨ht, _ | _⟩ := htail
    simp only [FitsRange, UInt8.le_iff_toNat_le, UInt8.reduceToNat] at ht
    rw [codePoint_two, Nat.isValidChar]
    omega
  | three =>
    obtain _ | ⟨ht, _ | ⟨hu, _ | _⟩⟩ := htail
    simp only [FitsRange, UInt8.le_iff_toNat_le, UInt8.reduceToNat] at ht hu
    rw [codePoint_three, Nat.isValidChar]
    omega
  | four =>
    obtain _ | ⟨ht, _ | ⟨hu, _ | ⟨hv, _ | _⟩⟩⟩ := htail
    simp only [FitsRange, UInt8.le_iff_toNat_le, UInt8.reduceToNat] at ht hu hv
    rw [codePoint_four, Nat.isValidChar]
    omega

/-- **What a character of a decoded text takes**: a byte below 128, which is the character of its
number, or other bytes, none of them below 128, for a character that is not below 128 either. -/
theorem decodeFirst_cases (b : UInt8) (rest : List UInt8) :
    (b.toNat < 0x80 ∧ decodeFirst b rest = (Char.ofNat b.toNat, rest)) ∨
    ∃ c tail left, 0x80 ≤ b.toNat ∧ decodeFirst b rest = (c, left) ∧ rest = tail ++ left ∧
      0x80 ≤ c.toNat ∧ ∀ t ∈ tail, 0x80 ≤ t.toNat := by
  by_cases hb : b.toNat < 0x80
  · have hlt : b < 0x80 := UInt8.lt_iff_toNat_lt.mpr hb
    refine .inl ⟨hb, ?_⟩
    simp [decodeFirst, tailRanges?, hlt, takeTail, codePoint]
  refine .inr ?_
  rw [Nat.not_lt] at hb
  cases hranges : tailRanges? b with
  | none =>
    refine ⟨replacement, [], rest, hb, ?_, rfl, by decide, List.forall_mem_nil _⟩
    rw [decodeFirst, hranges]
  | some ranges =>
    have hrest := takeTail_append ranges rest
    have htail : ∀ t ∈ (takeTail ranges rest).1, 0x80 ≤ t.toNat :=
      le_of_mem_takeTail ((leads_of_tailRanges? hranges).le_fst)
    rcases hread : takeTail ranges rest with ⟨tail, complete, left⟩
    rw [hread] at hrest htail
    cases complete with
    | false =>
      refine ⟨replacement, tail, left, hb, ?_, hrest.symm, by decide, htail⟩
      rw [decodeFirst, hranges]
      simp only [hread]
    | true =>
      obtain ⟨hge, hvalid⟩ := (leads_of_tailRanges? hranges).codePoint_bounds hb
        (forall₂_takeTail hread)
      refine ⟨Char.ofNat (codePoint b tail), tail, left, hb, ?_, hrest.symm, ?_, htail⟩
      · rw [decodeFirst, hranges]
        simp only [hread]
      · rwa [toNat_ofNat_of_isValidChar hvalid]

theorem decodeFirst_append (b : UInt8) (bytes : List UInt8)
    (hrest : ∀ a ∈ rest.head?, a.toNat < 0x80) :
    decodeFirst b (bytes ++ rest) =
      ((decodeFirst b bytes).1, (decodeFirst b bytes).2 ++ rest) := by
  unfold decodeFirst
  cases hranges : tailRanges? b with
  | none => rfl
  | some ranges =>
    simp only [takeTail_append_ascii ((leads_of_tailRanges? hranges).le_fst) bytes hrest]
    rcases takeTail ranges bytes with ⟨tail, _ | _, left⟩ <;> rfl

/-! ## Whole texts -/

theorem decode_cons (b : UInt8) (rest : List UInt8) :
    decode (b :: rest) = (decodeFirst b rest).1 :: decode (decodeFirst b rest).2 := by
  rw [decode]

/-- **Parts are decoded one by one** where the second one begins with a byte below 128. -/
theorem decode_append (bytes : List UInt8) (hrest : ∀ a ∈ rest.head?, a.toNat < 0x80) :
    decode (bytes ++ rest) = decode bytes ++ decode rest := by
  fun_induction decode bytes with
  | case1 => rfl
  | case2 b bytes ih =>
    rw [List.cons_append, decode_cons, decodeFirst_append b bytes hrest, ih, List.cons_append]

/-- **No character below 128 is lost or made up**: those of a decoded text are the bytes below 128,
in order. -/
theorem filter_decode (bytes : List UInt8) :
    (decode bytes).filter (fun c => c.toNat < 0x80) =
      (bytes.filter (fun b => b.toNat < 0x80)).map fun b => Char.ofNat b.toNat := by
  fun_induction decode bytes with
  | case1 => rfl
  | case2 b rest ih =>
    rcases decodeFirst_cases b rest with ⟨hb, hfirst⟩ | ⟨c, tail, left, hb, hfirst, rfl, hc, htail⟩
    · rw [hfirst] at ih ⊢
      have hchar : (Char.ofNat b.toNat).toNat < 0x80 := by
        rwa [toNat_ofNat_of_isValidChar (.inl (Nat.lt_trans hb (by decide)))]
      rw [List.filter_cons_of_pos (by simpa using hchar),
        List.filter_cons_of_pos (by simpa using hb), ih, List.map_cons]
    · rw [hfirst] at ih ⊢
      have hskip : tail.filter (fun b => b.toNat < 0x80) = [] := by
        rw [List.filter_eq_nil_iff]
        intro t ht
        simpa using htail t ht
      rw [List.filter_cons_of_neg (by simpa using hc), List.filter_cons_of_neg (by simpa using hb),
        List.filter_append, hskip, List.nil_append, ih]

/-! ## Encoded text -/

section Encoded

variable {t u v : UInt8} {n : Nat}

/-- If each byte lies in its range, then all of them are read. -/
theorem takeTail_of_forall₂ (h : List.Forall₂ FitsRange ranges tail) (rest : List UInt8) :
    takeTail ranges (tail ++ rest) = (tail, true, rest) := by
  induction h with
  | nil => rw [List.nil_append, takeTail]
  | @cons range b ranges tail hfits _ ih =>
    have hfits : range.1 ≤ b ∧ b ≤ range.2 := hfits
    rw [List.cons_append, takeTail, if_pos hfits, ih]

theorem tailRanges?_of_one (hlt : b.toNat < 0x80) : tailRanges? b = some [] :=
  if_pos (UInt8.lt_iff_toNat_lt.mpr hlt)

theorem tailRanges?_of_two (hge : 0xC2 ≤ b.toNat) (hlt : b.toNat < 0xE0) :
    tailRanges? b = some [(0x80, 0xBF)] := by
  simp only [tailRanges?, UInt8.lt_iff_toNat_lt, UInt8.reduceToNat]
  rw [if_neg (by omega), if_neg (by omega), if_pos hlt]

theorem tailRanges?_of_three (hge : 0xE0 ≤ b.toNat) (hlt : b.toNat < 0xF0) (hlow : 0x80 ≤ t.toNat)
    (hhigh : t.toNat ≤ 0xBF) (hoverlong : b.toNat = 0xE0 → 0xA0 ≤ t.toNat)
    (hsurrogate : b.toNat = 0xED → t.toNat ≤ 0x9F) :
    ∃ range, tailRanges? b = some [range, (0x80, 0xBF)] ∧ FitsRange range t := by
  simp only [tailRanges?, FitsRange, UInt8.lt_iff_toNat_lt, UInt8.le_iff_toNat_le,
    ← UInt8.toNat_inj, UInt8.reduceToNat]
  rw [if_neg (by omega), if_neg (by omega), if_neg (by omega)]
  split_ifs with hfirst hlast
  · exact ⟨_, rfl, hoverlong hfirst, hhigh⟩
  · exact ⟨_, rfl, hlow, hsurrogate hlast⟩
  · exact ⟨_, rfl, hlow, hhigh⟩

theorem tailRanges?_of_four (hge : 0xF0 ≤ b.toNat) (hle : b.toNat ≤ 0xF4) (hlow : 0x80 ≤ t.toNat)
    (hhigh : t.toNat ≤ 0xBF) (hoverlong : b.toNat = 0xF0 → 0x90 ≤ t.toNat)
    (hbeyond : b.toNat = 0xF4 → t.toNat ≤ 0x8F) :
    ∃ range, tailRanges? b = some [range, (0x80, 0xBF), (0x80, 0xBF)] ∧ FitsRange range t := by
  simp only [tailRanges?, FitsRange, UInt8.lt_iff_toNat_lt, UInt8.le_iff_toNat_le,
    ← UInt8.toNat_inj, UInt8.reduceToNat]
  rw [if_neg (by omega), if_neg (by omega), if_neg (by omega), if_neg (by omega),
    if_neg (by omega), if_neg (by omega)]
  split_ifs with hfirst hmiddle hlast
  · exact ⟨_, rfl, hoverlong hfirst, hhigh⟩
  · exact ⟨_, rfl, hlow, hhigh⟩
  · exact ⟨_, rfl, hlow, hbeyond hlast⟩
  · omega

theorem fitsRange_tail (hlow : 0x80 ≤ t.toNat) (hhigh : t.toNat ≤ 0xBF) :
    FitsRange (0x80, 0xBF) t :=
  ⟨UInt8.le_iff_toNat_le.mpr hlow, UInt8.le_iff_toNat_le.mpr hhigh⟩

/-- The first byte admits the others, and all of them encode a number. -/
def Encodes (b : UInt8) (tail : List UInt8) (n : Nat) : Prop :=
  ∃ ranges, tailRanges? b = some ranges ∧ List.Forall₂ FitsRange ranges tail ∧ codePoint b tail = n

theorem encodes_one (hlt : n < 0x80) (hb : b.toNat = n) : Encodes b [] n :=
  ⟨[], tailRanges?_of_one (by omega), .nil, hb⟩

theorem encodes_two (hge : 0x80 ≤ n) (hlt : n < 0x800) (hb : b.toNat = n / 64 + 192)
    (ht : t.toNat = n % 64 + 128) : Encodes b [t] n :=
  ⟨_, tailRanges?_of_two (by omega) (by omega), .cons (fitsRange_tail (by omega) (by omega)) .nil,
    by rw [codePoint_two]; omega⟩

theorem encodes_three (hge : 0x800 ≤ n) (hlt : n < 0x10000) (hvalid : n.isValidChar)
    (hb : b.toNat = n / 4096 + 224) (ht : t.toNat = n / 64 % 64 + 128)
    (hu : u.toNat = n % 64 + 128) : Encodes b [t, u] n := by
  rw [Nat.isValidChar] at hvalid
  -- the first byte is at one of its ends where the form is overlong or the number a surrogate
  obtain ⟨range, hranges, hfits⟩ := tailRanges?_of_three (b := b) (t := t) (by omega) (by omega)
    (by omega) (by omega) (by omega) (by omega)
  exact ⟨_, hranges, .cons hfits (.cons (fitsRange_tail (by omega) (by omega)) .nil),
    by rw [codePoint_three]; omega⟩

theorem encodes_four (hge : 0x10000 ≤ n) (hlt : n < 0x110000) (hb : b.toNat = n / 262144 + 240)
    (ht : t.toNat = n / 4096 % 64 + 128) (hu : u.toNat = n / 64 % 64 + 128)
    (hv : v.toNat = n % 64 + 128) : Encodes b [t, u, v] n := by
  obtain ⟨range, hranges, hfits⟩ := tailRanges?_of_four (b := b) (t := t) (by omega) (by omega)
    (by omega) (by omega) (by omega) (by omega)
  exact ⟨_, hranges, .cons hfits (.cons (fitsRange_tail (by omega) (by omega))
    (.cons (fitsRange_tail (by omega) (by omega)) .nil)), by rw [codePoint_four]; omega⟩

/-- The bytes of a character encode its number. -/
theorem exists_encodes (c : Char) :
    ∃ b tail, String.utf8EncodeChar c = b :: tail ∧ Encodes b tail c.val.toNat := by
  have hvalid : c.val.toNat.isValidChar := c.valid
  have hlt : c.val.toNat < 0x110000 := by
    rw [Nat.isValidChar] at hvalid
    omega
  have hbyte : ∀ {m k : Nat}, m = k → k < 256 → (UInt8.ofNat m).toNat = k := by
    rintro m _ rfl h
    rw [UInt8.toNat_ofNat', Nat.mod_eq_of_lt h]
  simp only [String.utf8EncodeChar]
  split_ifs with hone htwo hthree
  · exact ⟨_, _, rfl, encodes_one (by omega) (hbyte rfl (by omega))⟩
  · exact ⟨_, _, rfl, encodes_two (by omega) (by omega) (hbyte (by omega) (by omega))
      (hbyte rfl (by omega))⟩
  · exact ⟨_, _, rfl, encodes_three (by omega) (by omega) hvalid (hbyte (by omega) (by omega))
      (hbyte rfl (by omega)) (hbyte rfl (by omega))⟩
  · exact ⟨_, _, rfl, encodes_four (by omega) hlt (hbyte (by omega) (by omega))
      (hbyte rfl (by omega)) (hbyte rfl (by omega)) (hbyte rfl (by omega))⟩

/-- A character is read back from its bytes, whatever comes behind them. -/
theorem exists_decodeFirst (c : Char) (rest : List UInt8) :
    ∃ b tail, String.utf8EncodeChar c = b :: tail ∧ decodeFirst b (tail ++ rest) = (c, rest) := by
  obtain ⟨b, tail, hencode, ranges, hranges, htail, hnumber⟩ := exists_encodes c
  have hchar : Char.ofNat (codePoint b tail) = c := by
    rw [hnumber]
    exact Char.ofNat_toNat c
  refine ⟨b, tail, hencode, ?_⟩
  rw [decodeFirst, hranges]
  simp only [takeTail_of_forall₂ htail, hchar]

theorem decode_encode_append (cs : List Char) (rest : List UInt8) :
    decode (encode cs ++ rest) = cs ++ decode rest := by
  induction cs with
  | nil => rfl
  | cons c cs ih =>
    obtain ⟨b, tail, hencode, hfirst⟩ := exists_decodeFirst c (encode cs ++ rest)
    have hcons : encode (c :: cs) = String.utf8EncodeChar c ++ encode cs := List.flatMap_cons
    rw [hcons, hencode, List.append_assoc, List.cons_append, decode_cons, hfirst, ih,
      List.cons_append]

/-- **A text is decoded from its bytes.** -/
theorem decode_encode (cs : List Char) : decode (encode cs) = cs := by
  have h := decode_encode_append cs []
  rwa [List.append_nil, decode_nil, List.append_nil] at h

end Encoded

end ExprReader.Text
