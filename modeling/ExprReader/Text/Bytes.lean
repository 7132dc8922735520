/-!
# Text measured in bytes

Offsets and spans count the bytes of the UTF-8 encoding of a text. A text is a list of characters
here, and a byte offset is good for cutting it exactly when a character ends there.

## Main definitions

* `encode cs`: the bytes of a text
* `byteLength cs`: how many they are
* `cut? n cs`: the text in two parts, of which the first has `n` bytes
* `slice? start stop cs`: the part between two byte offsets

## Main results

* `length_encode`: a text has as many bytes as its characters take one by one
* `cut?_eq_some_iff`: a text can be cut into exactly the pairs of parts that make it up
-/

namespace ExprReader.Text

/-- The UTF-8 bytes of a text. -/
def encode (cs : List Char) : List UInt8 := cs.flatMap String.utf8EncodeChar

/-- The number of bytes of a text. -/
def byteLength : List Char → Nat
  | [] => 0
  | c :: cs => c.utf8Size + byteLength cs

@[simp] theorem byteLength_nil : byteLength [] = 0 := rfl

@[simp] theorem byteLength_cons (c : Char) (cs : List Char) :
    byteLength (c :: cs) = c.utf8Size + byteLength cs := rfl

@[simp] theorem byteLength_append (cs ds : List Char) :
    byteLength (cs ++ ds) = byteLength cs + byteLength ds := by
  induction cs with
  | nil => simp
  | cons c rest ih => rw [List.cons_append, byteLength_cons, byteLength_cons, ih, Nat.add_assoc]

@[simp] theorem encode_append (cs ds : List Char) : encode (cs ++ ds) = encode cs ++ encode ds :=
  List.flatMap_append

theorem length_encode (cs : List Char) : (encode cs).length = byteLength cs := by
  induction cs with
  | nil => rfl
  | cons c rest ih =>
    simp only [encode, List.flatMap_cons, List.length_append, String.length_utf8EncodeChar,
      byteLength_cons] at ih ⊢
    omega

/-- The size that a string reports is the byte length of its characters. -/
theorem utf8ByteSize_eq (s : String) : s.utf8ByteSize = byteLength s.toList := by
  rw [← length_encode, ← String.size_toByteArray, ← String.ofList_toList (s := s),
    String.toByteArray_ofList]
  simp [encode, List.utf8Encode]

/-- The text cut after `n` bytes, if a character ends there. -/
def cut? : Nat → List Char → Option (List Char × List Char)
  | 0, cs => some ([], cs)
  | _ + 1, [] => none
  | n + 1, c :: cs =>
    if n + 1 < c.utf8Size then none
    else (cut? (n + 1 - c.utf8Size) cs).map fun (front, back) => (c :: front, back)

/-- **A cut loses nothing and counts right**, and wherever a part ends there is a cut. -/
theorem cut?_eq_some_iff {n : Nat} {cs front back : List Char} :
    cut? n cs = some (front, back) ↔ front ++ back = cs ∧ byteLength front = n := by
  induction cs generalizing n front back with
  | nil =>
    cases n with
    | zero =>
      simp only [cut?, Option.some.injEq, Prod.mk.injEq, List.append_eq_nil_iff]
      exact ⟨fun ⟨hf, hb⟩ => by simp [← hf, ← hb], fun ⟨⟨hf, hb⟩, _⟩ => ⟨hf.symm, hb.symm⟩⟩
    | succ n =>
      simp only [cut?, reduceCtorEq, List.append_eq_nil_iff, false_iff]
      rintro ⟨⟨rfl, rfl⟩, h⟩
      simp at h
  | cons c rest ih =>
    have hc : 0 < c.utf8Size := c.utf8Size_pos
    cases n with
    | zero =>
      simp only [cut?, Option.some.injEq, Prod.mk.injEq]
      constructor
      · rintro ⟨rfl, rfl⟩
        simp
      · rintro ⟨h, hn⟩
        cases front with
        | nil => simpa using h.symm
        | cons d front => simp only [byteLength_cons] at hn; have := d.utf8Size_pos; omega
    | succ n =>
      simp only [cut?]
      split
      · -- the offset lies within the first character
        rename_i hlt
        simp only [reduceCtorEq, false_iff]
        rintro ⟨h, hn⟩
        cases front with
        | nil => simp at hn
        | cons d front =>
          simp only [List.cons_append, List.cons.injEq] at h
          obtain ⟨rfl, -⟩ := h
          simp only [byteLength_cons] at hn
          omega
      · rename_i hle
        simp only [Option.map_eq_some_iff, Prod.exists, Prod.mk.injEq]
        constructor
        · rintro ⟨front', back', h, rfl, rfl⟩
          obtain ⟨rfl, hn⟩ := ih.1 h
          exact ⟨rfl, by simp only [byteLength_cons]; omega⟩
        · rintro ⟨h, hn⟩
          cases front with
          | nil => simp at hn
          | cons d front =>
            simp only [List.cons_append, List.cons.injEq] at h
            obtain ⟨rfl, h⟩ := h
            simp only [byteLength_cons] at hn
            exact ⟨front, back, ih.2 ⟨h, by omega⟩, rfl, rfl⟩

/-- The part of a text between two byte offsets, if both stand between characters and the first
is not the later one. -/
def slice? (start stop : Nat) (cs : List Char) : Option (List Char) :=
  if start ≤ stop then do
    let (_, back) ← cut? start cs
    let (front, _) ← cut? (stop - start) back
    return front
  else none

end ExprReader.Text
