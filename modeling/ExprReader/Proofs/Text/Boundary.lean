import ExprReader.Text.Bytes
import ExprReader.Text.Span

/-!
# Boundaries between characters

A byte offset is good for cutting a text if it is a boundary: some characters at the front of the
text take just so many bytes. This module says which offsets are boundaries of a text made up of
parts, and that slices are what lies between two boundaries.

## Main definitions

* `IsBoundary n cs`: the text can be cut after `n` bytes
* `StandsAt offset part cs`: the part stands in the text at an offset
* `RemainsAt offset rest cs`: the text from an offset on
* `Span.Fits s cs`: the span begins and ends between characters of the text

## Main results

* `slice?_eq_some_iff`: a slice is the part that stands between its ends
* `fits_iff_isSome_slice?`: exactly the spans that fit have a slice
* `StandsAt.isBoundary_min`: a boundary of the text, seen from a part, is one of the part
-/

namespace ExprReader

namespace Text

/-- Some characters at the front of the text take `n` bytes. -/
def IsBoundary (n : Nat) (cs : List Char) : Prop :=
  ∃ front back, front ++ back = cs ∧ byteLength front = n

/-- The part stands in the text at a byte offset. -/
def StandsAt (offset : Nat) (part cs : List Char) : Prop :=
  ∃ front back, front ++ part ++ back = cs ∧ byteLength front = offset

/-- The text from a byte offset on. -/
def RemainsAt (offset : Nat) (rest cs : List Char) : Prop :=
  ∃ front, front ++ rest = cs ∧ byteLength front = offset

section Boundaries

variable {m n : Nat} {cs ds part : List Char}

/-- A text can be cut exactly at its boundaries. -/
theorem isBoundary_iff_isSome_cut? : IsBoundary n cs ↔ (cut? n cs).isSome = true := by
  simp only [IsBoundary, Option.isSome_iff_exists, Prod.exists, cut?_eq_some_iff]

theorem isBoundary_byteLength (cs : List Char) : IsBoundary (byteLength cs) cs :=
  ⟨cs, [], List.append_nil cs, rfl⟩

theorem IsBoundary.le (h : IsBoundary n cs) : n ≤ byteLength cs := by
  obtain ⟨front, back, rfl, rfl⟩ := h
  simp

theorem IsBoundary.max (hm : IsBoundary m cs) (hn : IsBoundary n cs) : IsBoundary (max m n) cs := by
  rcases Nat.le_total m n with hle | hle
  · rwa [Nat.max_eq_right hle]
  · rwa [Nat.max_eq_left hle]

/-- A boundary beyond the front of a text is one of what lies behind the front. -/
theorem IsBoundary.sub_front (h : IsBoundary n (cs ++ ds)) (hle : byteLength cs ≤ n) :
    IsBoundary (n - byteLength cs) ds := by
  obtain ⟨front, back, heq, rfl⟩ := h
  rcases List.append_eq_append_iff.mp heq with ⟨more, rfl, rfl⟩ | ⟨more, rfl, rfl⟩
  · -- the boundary does not lie before the end of the front, so it is that end
    exact ⟨[], ds, rfl, by simp⟩
  · exact ⟨more, back, rfl, by simp⟩

/-- A boundary clipped to the front of a text is one of the front. -/
theorem IsBoundary.min_front (h : IsBoundary n (cs ++ ds)) :
    IsBoundary (min n (byteLength cs)) cs := by
  rcases Nat.le_total n (byteLength cs) with hle | hle
  · rw [Nat.min_eq_left hle]
    obtain ⟨front, back, heq, rfl⟩ := h
    rcases List.append_eq_append_iff.mp heq with ⟨more, rfl, rfl⟩ | ⟨more, rfl, rfl⟩
    · exact ⟨front, more, rfl, rfl⟩
    · -- what goes beyond the front has no bytes
      simp only [byteLength_append] at hle ⊢
      exact ⟨cs, [], by simp, by omega⟩
  · rw [Nat.min_eq_right hle]
    exact isBoundary_byteLength cs

theorem StandsAt.isBoundary_start (h : StandsAt n part cs) : IsBoundary n cs := by
  obtain ⟨front, back, rfl, rfl⟩ := h
  exact ⟨front, part ++ back, by simp, rfl⟩

theorem StandsAt.isBoundary_stop (h : StandsAt n part cs) :
    IsBoundary (n + byteLength part) cs := by
  obtain ⟨front, back, rfl, rfl⟩ := h
  exact ⟨front ++ part, back, rfl, by simp⟩

theorem StandsAt.append_left (h : StandsAt n part cs) (ds : List Char) :
    StandsAt (byteLength ds + n) part (ds ++ cs) := by
  obtain ⟨front, back, rfl, rfl⟩ := h
  exact ⟨ds ++ front, back, by simp, by simp⟩

/-- The front of a part stands where the part does. -/
theorem StandsAt.front {more : List Char} (h : StandsAt n (part ++ more) cs) :
    StandsAt n part cs := by
  obtain ⟨front, back, rfl, rfl⟩ := h
  exact ⟨front, more ++ back, by simp, rfl⟩

/-- The back of a part stands behind its front. -/
theorem StandsAt.back {more : List Char} (h : StandsAt n (part ++ more) cs) :
    StandsAt (n + byteLength part) more cs := by
  obtain ⟨front, back, rfl, rfl⟩ := h
  exact ⟨front ++ part, back, by simp, byteLength_append ..⟩

/-- The bytes of a part are bytes of the text. -/
theorem StandsAt.getElem?_encode (h : StandsAt n part cs) {i : Nat} (hle : n ≤ i)
    (hlt : i < n + byteLength part) : (encode cs)[i]? = (encode part)[i - n]? := by
  obtain ⟨front, back, rfl, rfl⟩ := h
  rw [encode_append, encode_append, List.getElem?_append_left, List.getElem?_append_right,
    length_encode]
  · rwa [length_encode]
  · rwa [List.length_append, length_encode, length_encode]

theorem remainsAt_zero (cs : List Char) : RemainsAt 0 cs cs := ⟨[], rfl, rfl⟩

theorem RemainsAt.standsAt {rest : List Char} (h : RemainsAt n (part ++ rest) cs) :
    StandsAt n part cs := by
  obtain ⟨front, rfl, rfl⟩ := h
  exact ⟨front, rest, List.append_assoc .., rfl⟩

theorem RemainsAt.behind {rest : List Char} (h : RemainsAt n (part ++ rest) cs) :
    RemainsAt (n + byteLength part) rest cs := by
  obtain ⟨front, rfl, rfl⟩ := h
  exact ⟨front ++ part, List.append_assoc .., byteLength_append ..⟩

theorem RemainsAt.head {c : Char} {rest : List Char} (h : RemainsAt n (c :: rest) cs) :
    StandsAt n [c] cs := by
  rw [← List.singleton_append] at h
  exact h.standsAt

theorem RemainsAt.tail {c : Char} {rest : List Char} (h : RemainsAt n (c :: rest) cs) :
    RemainsAt (n + c.utf8Size) rest cs := by
  rw [← List.singleton_append] at h
  exact h.behind

theorem RemainsAt.byteLength_eq {rest : List Char} (h : RemainsAt n rest cs) :
    byteLength cs = n + byteLength rest := by
  obtain ⟨front, rfl, rfl⟩ := h
  exact byteLength_append ..

theorem byteLength_pos (h : cs ≠ []) : 0 < byteLength cs := by
  obtain ⟨c, rest, rfl⟩ := List.exists_cons_of_ne_nil h
  exact Nat.add_pos_left c.utf8Size_pos _

/-- Between two boundaries stands a part. -/
theorem IsBoundary.exists_standsAt (hm : IsBoundary m cs) (hn : IsBoundary n cs) (hle : m ≤ n) :
    ∃ part, StandsAt m part cs ∧ m + byteLength part = n := by
  obtain ⟨front, back, rfl, rfl⟩ := hm
  obtain ⟨part, rest, rfl, hpart⟩ := hn.sub_front hle
  exact ⟨part, ⟨front, rest, by simp, rfl⟩, by omega⟩

/-- **A boundary of a text, seen from a part that stands in it and clipped to the part, is a
boundary of the part.** -/
theorem StandsAt.isBoundary_min (h : StandsAt m part cs) (hn : IsBoundary n cs) (hle : m ≤ n) :
    IsBoundary (min (n - m) (byteLength part)) part := by
  obtain ⟨front, back, rfl, rfl⟩ := h
  rw [List.append_assoc] at hn
  exact (hn.sub_front hle).min_front

/-! ## Slices -/

/-- A slice is the part that stands between its ends. -/
theorem slice?_eq_some_iff :
    slice? m n cs = some part ↔ StandsAt m part cs ∧ m + byteLength part = n := by
  unfold slice?
  split
  · rename_i hle
    simp only [Option.bind_eq_bind, Option.bind_eq_some_iff, cut?_eq_some_iff, Prod.exists,
      Option.pure_def, Option.some.injEq]
    constructor
    · rintro ⟨front, rest, ⟨rfl, rfl⟩, _, back, ⟨rfl, hpart⟩, rfl⟩
      exact ⟨⟨front, back, by simp, rfl⟩, by omega⟩
    · rintro ⟨⟨front, back, rfl, rfl⟩, hstop⟩
      exact ⟨front, part ++ back, ⟨by simp, rfl⟩, part, back, ⟨rfl, by omega⟩, rfl⟩
  · simp only [reduceCtorEq, false_iff]
    rintro ⟨-, hstop⟩
    omega

end Boundaries

end Text

namespace Span

/-- The span begins and ends between characters of the text, and does not end before it begins. -/
structure Fits (s : Span) (cs : List Char) : Prop where
  le : s.start ≤ s.stop
  start : Text.IsBoundary s.start cs
  stop : Text.IsBoundary s.stop cs

/-- Exactly the spans that fit have a slice. -/
theorem fits_iff_isSome_slice? {s : Span} {cs : List Char} :
    s.Fits cs ↔ (Text.slice? s.start s.stop cs).isSome = true := by
  simp only [Option.isSome_iff_exists, Text.slice?_eq_some_iff]
  constructor
  · rintro ⟨hle, hstart, hstop⟩
    exact hstart.exists_standsAt hstop hle
  · rintro ⟨part, hpart, hlength⟩
    exact ⟨by omega, hpart.isBoundary_start, hlength ▸ hpart.isBoundary_stop⟩

/-- The empty span at the end of one that fits. -/
theorem Fits.point_stop {s : Span} {cs : List Char} (h : s.Fits cs) : (point s.stop).Fits cs :=
  ⟨Nat.le_refl _, h.stop, h.stop⟩

end Span

end ExprReader
