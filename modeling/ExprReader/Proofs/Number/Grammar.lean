import Mathlib.Data.List.TakeWhile
import ExprReader.Number.Binary64

/-!
# The grammar of numbers

What is read as a number is given by a grammar: an optional sign, and then one of three words in any
letter case, or digits with at most one point among them and an optional exponent. All that the
grammar describes is read, and nothing else. Digits without a sign are a quantity that is not
negative, and so is the number that lies nearest to it.

## Main definitions

* `Decimal.Sign`, `Decimal.Mantissa`, `Decimal.Exponent`: the parts of a number
* `Decimal.Written cs`: the text is a number in decimal writing

## Main results

* `Decimal.isSome_ofChars?_iff`: exactly the numbers in decimal writing are read
* `Decimal.ofChars?_of_mantissa`: what digits without a sign denote
* `Binary64.ofDecimal_finite`: the number nearest to a quantity is a quantity of the same sign
-/

namespace ExprReader

namespace Decimal

/-! ## Decimal writing -/

/-- The characters are digits. -/
def Digits (cs : List Char) : Prop := ∀ c ∈ cs, c.isDigit = true

/-- A sign, or none. -/
inductive Sign : List Char → Prop
  | none : Sign []
  | plus : Sign ['+']
  | minus : Sign ['-']

/-- Digits without a point, or with one between those before it and those behind it. -/
inductive Mantissa : List Char → List Char → List Char → Prop
  | whole {whole : List Char} (h : Digits whole) : Mantissa whole whole []
  | point {whole fraction : List Char} (h : Digits whole) (h' : Digits fraction) :
      Mantissa (whole ++ '.' :: fraction) whole fraction

/-- The letter `e` in either case, a sign or none, and at least one digit; or nothing. -/
inductive Exponent : List Char → Prop
  | none : Exponent []
  | some {c : Char} {sign digits : List Char} (hc : c = 'e' ∨ c = 'E') (hsign : Sign sign)
      (hne : digits ≠ []) (h : Digits digits) : Exponent (c :: (sign ++ digits))

/-- The words that stand for a number, in lower case. -/
def words : List String := ["inf", "infinity", "nan"]

/-- **A number in decimal writing.** -/
inductive Written : List Char → Prop
  | word {sign letters : List Char} (hsign : Sign sign)
      (hword : String.ofList (letters.map Char.toLower) ∈ words) :
      Written (sign ++ letters)
  | number {sign mantissa whole fraction exponent : List Char} (hsign : Sign sign)
      (hmantissa : Mantissa mantissa whole fraction) (hne : whole ++ fraction ≠ [])
      (hexponent : Exponent exponent) : Written (sign ++ (mantissa ++ exponent))

variable {c : Char} {cs tail whole fraction mantissa sign : List Char} {negative : Bool}

/-! ## Signs and exponents -/

/-- What is taken off a text as its sign is one. -/
theorem exists_takeSign_eq (cs : List Char) : ∃ sign negative body,
    Sign sign ∧ takeSign cs = (negative, body) ∧ sign ++ body = cs := by
  unfold takeSign
  split
  · exact ⟨['-'], _, _, .minus, rfl, rfl⟩
  · exact ⟨['+'], _, _, .plus, rfl, rfl⟩
  · exact ⟨[], _, _, .none, rfl, rfl⟩

/-- A text that does not begin with a sign has none. -/
theorem takeSign_of_ne (h : ∀ c ∈ cs.head?, c ≠ '-' ∧ c ≠ '+') : takeSign cs = (false, cs) := by
  unfold takeSign
  split
  · exact absurd rfl (h '-' rfl).1
  · exact absurd rfl (h '+' rfl).2
  · rfl

/-- A sign is taken off what does not begin with another one. -/
theorem exists_takeSign_append (hsign : Sign sign) (h : ∀ c ∈ cs.head?, c ≠ '-' ∧ c ≠ '+') :
    ∃ negative, takeSign (sign ++ cs) = (negative, cs) := by
  cases hsign with
  | none => exact ⟨false, takeSign_of_ne h⟩
  | plus => exact ⟨false, rfl⟩
  | minus => exact ⟨true, rfl⟩

theorem ne_sign_of_isDigit (hc : c.isDigit = true) : c ≠ '-' ∧ c ≠ '+' := by
  constructor
  all_goals
    rintro rfl
    cases hc

theorem Digits.ne_sign (h : Digits cs) : ∀ c ∈ cs.head?, c ≠ '-' ∧ c ≠ '+' :=
  fun c hc => ne_sign_of_isDigit (h c (List.mem_of_mem_head? hc))

theorem isSome_exponent?_iff : (exponent? cs).isSome = true ↔ Exponent cs := by
  constructor
  · intro h
    cases cs with
    | nil => exact .none
    | cons c rest =>
      obtain ⟨sign, negative, digits, hsign, htake, rfl⟩ := exists_takeSign_eq rest
      simp only [exponent?, htake] at h
      split at h
      · rename_i hdigits
        simp only [Bool.and_eq_true, Bool.or_eq_true, decide_eq_true_eq, Bool.not_eq_true',
          List.isEmpty_eq_false_iff, List.all_eq_true] at hdigits
        obtain ⟨⟨hc, hne⟩, hall⟩ := hdigits
        exact .some hc hsign hne hall
      · cases h
  · intro h
    cases h with
    | none => rfl
    | @some c sign digits hc hsign hne hdigits =>
      obtain ⟨negative, htake⟩ := exists_takeSign_append hsign hdigits.ne_sign
      have hall : digits.all Char.isDigit = true := List.all_eq_true.mpr hdigits
      simp [exponent?, htake, hc, hne, hall]

/-! ## Numbers in digits -/

/-- What is denoted by the digits before a point and those behind it, if there is one at all, and
the text of an exponent. -/
def ofParts? (negative : Bool) (whole fraction exponent : List Char) : Option Decimal :=
  if whole ++ fraction = [] then none
  else (exponent? exponent).map fun exponent =>
    .finite negative (natOfDigits (whole ++ fraction)) (exponent - fraction.length)

theorem isSome_ofParts?_iff : (ofParts? negative whole fraction cs).isSome = true ↔
    whole ++ fraction ≠ [] ∧ Exponent cs := by
  unfold ofParts?
  split_ifs with hnone
  · simp [hnone]
  · rw [Option.isSome_map, isSome_exponent?_iff]
    exact (and_iff_right hnone).symm

theorem Digits.takeWhile_append (h : Digits whole) (hrest : ∀ c ∈ cs.head?, c.isDigit = false) :
    (whole ++ cs).takeWhile Char.isDigit = whole ∧ (whole ++ cs).dropWhile Char.isDigit = cs := by
  have hstop : cs.takeWhile Char.isDigit = [] ∧ cs.dropWhile Char.isDigit = cs := by
    cases cs with
    | nil => exact ⟨rfl, rfl⟩
    | cons c cs =>
      have hc : ¬c.isDigit = true := Bool.eq_false_iff.mp (hrest c rfl)
      exact ⟨List.takeWhile_cons_of_neg hc, List.dropWhile_cons_of_neg hc⟩
  rw [List.takeWhile_append_of_pos h, List.dropWhile_append_of_pos h, hstop.1, hstop.2,
    List.append_nil]
  exact ⟨rfl, rfl⟩

/-- Behind the first digits stands a point, and the digits after it are the fraction. -/
theorem unsigned?_of_point (h : cs.dropWhile Char.isDigit = '.' :: tail) :
    unsigned? negative cs = ofParts? negative (cs.takeWhile Char.isDigit)
      (tail.takeWhile Char.isDigit) (tail.dropWhile Char.isDigit) := by
  rw [unsigned?, ofParts?]
  simp only [h, Bool.and_eq_true, List.isEmpty_iff, List.append_eq_nil_iff]
  split_ifs
  · rfl
  · cases exponent? (tail.dropWhile Char.isDigit) <;> rfl

/-- No point stands behind the first digits. -/
theorem unsigned?_of_ne_point (h : (cs.dropWhile Char.isDigit).head? ≠ some '.') :
    unsigned? negative cs = ofParts? negative (cs.takeWhile Char.isDigit) []
      (cs.dropWhile Char.isDigit) := by
  rw [unsigned?, ofParts?]
  generalize cs.dropWhile Char.isDigit = after at h
  split
  rename_i hparts
  split at hparts
  · exact absurd rfl h
  · cases hparts
    simp only [Bool.and_eq_true, List.isEmpty_iff, List.append_eq_nil_iff]
    split_ifs
    · rfl
    · cases exponent? after <;> rfl

/-- **Digits are read as far as they go**, a point among them once. -/
theorem unsigned?_append (negative : Bool) (h : Mantissa mantissa whole fraction)
    (hrest : ∀ c ∈ cs.head?, c.isDigit = false ∧ (c = '.' → '.' ∈ mantissa)) :
    unsigned? negative (mantissa ++ cs) = ofParts? negative whole fraction cs := by
  have hdigit : ∀ c ∈ cs.head?, c.isDigit = false := fun c hc => (hrest c hc).1
  cases h with
  | whole hwhole =>
    obtain ⟨htake, hdrop⟩ := hwhole.takeWhile_append hdigit
    rw [unsigned?_of_ne_point, htake, hdrop]
    rw [hdrop]
    exact fun hc => absurd (hwhole '.' ((hrest '.' hc).2 rfl)) (by decide)
  | point hwhole hfraction =>
    have hpoint : ∀ c ∈ ('.' :: (fraction ++ cs)).head?, c.isDigit = false := by simp
    obtain ⟨htake, hdrop⟩ := hwhole.takeWhile_append hpoint
    obtain ⟨htake', hdrop'⟩ := hfraction.takeWhile_append hdigit
    rw [List.append_assoc, List.cons_append, unsigned?_of_point hdrop, htake, htake', hdrop']

/-- Digits at the front of a text, as far as they go. -/
theorem exists_mantissa_append (cs : List Char) : ∃ mantissa whole fraction rest,
    Mantissa mantissa whole fraction ∧ mantissa ++ rest = cs ∧
      ∀ c ∈ rest.head?, c.isDigit = false ∧ (c = '.' → '.' ∈ mantissa) := by
  have hdigits : ∀ ds : List Char, Digits (ds.takeWhile Char.isDigit) :=
    fun _ _ hd => List.mem_takeWhile_imp hd
  have hstop : ∀ (ds : List Char), ∀ c ∈ (ds.dropWhile Char.isDigit).head?, c.isDigit = false := by
    intro ds c hc
    have hnot := List.head?_dropWhile_not (p := Char.isDigit) (l := ds)
    rw [hc] at hnot
    simpa using hnot
  have hcs := cs.takeWhile_append_dropWhile (p := Char.isDigit)
  by_cases hpoint : (cs.dropWhile Char.isDigit).head? = some '.'
  · obtain ⟨tail, htail⟩ := List.head?_eq_some_iff.mp hpoint
    have happend := tail.takeWhile_append_dropWhile (p := Char.isDigit)
    refine ⟨_, _, _, _, .point (hdigits cs) (hdigits tail), ?_, fun c hc => ⟨hstop tail c hc, ?_⟩⟩
    · rw [List.append_assoc, List.cons_append, happend, ← htail, hcs]
    · exact fun _ => List.mem_append_right _ List.mem_cons_self
  · refine ⟨_, _, _, _, .whole (hdigits cs), hcs, fun c hc => ⟨hstop cs c hc, ?_⟩⟩
    rintro rfl
    exact absurd hc hpoint

theorem Exponent.ne_point (h : Exponent cs) : ∀ c ∈ cs.head?, c.isDigit = false ∧ c ≠ '.' := by
  cases h with
  | none => nofun
  | some hc =>
    rintro _ ⟨⟩
    rcases hc with rfl | rfl <;> decide

/-- A number in digits is digits and an exponent. -/
theorem isSome_unsigned?_iff : (unsigned? negative cs).isSome = true ↔
    ∃ mantissa whole fraction exponent, Mantissa mantissa whole fraction ∧
      whole ++ fraction ≠ [] ∧ Exponent exponent ∧ mantissa ++ exponent = cs := by
  constructor
  · intro h
    obtain ⟨mantissa, whole, fraction, rest, hmantissa, rfl, hrest⟩ := exists_mantissa_append cs
    rw [unsigned?_append negative hmantissa hrest, isSome_ofParts?_iff] at h
    exact ⟨mantissa, whole, fraction, rest, hmantissa, h.1, h.2, rfl⟩
  · rintro ⟨mantissa, whole, fraction, exponent, hmantissa, hne, hexponent, rfl⟩
    rw [unsigned?_append negative hmantissa, isSome_ofParts?_iff]
    · exact ⟨hne, hexponent⟩
    · intro c hc
      obtain ⟨hdigit, hpoint⟩ := hexponent.ne_point c hc
      exact ⟨hdigit, fun heq => absurd heq hpoint⟩

/-! ## Numbers -/

/-- A word for a number begins with one of two letters. -/
theorem toLower_of_mem_words (h : String.ofList ((c :: cs).map Char.toLower) ∈ words) :
    c.toLower = 'i' ∨ c.toLower = 'n' := by
  have hletters : ∀ word ∈ words,
      word.toList.head? = some 'i' ∨ word.toList.head? = some 'n' := by decide
  have hfirst := hletters _ h
  rwa [String.toList_ofList, List.map_cons, List.head?_cons, Option.some_inj, Option.some_inj]
    at hfirst

/-- Where no word for a number follows the sign, digits have to. -/
theorem ofChars?_of_notMem_words (h : takeSign cs = (negative, tail))
    (h' : String.ofList (tail.map Char.toLower) ∉ words) :
    ofChars? cs = unsigned? negative tail := by
  simp only [words, List.mem_cons, List.not_mem_nil, or_false, not_or] at h'
  obtain ⟨hinf, hinfinity, hnan⟩ := h'
  simp only [ofChars?, h, hinf, hinfinity, hnan, or_self, if_false]

/-- What is read is a word for a number or a number in digits, once its sign is taken off. -/
theorem isSome_ofChars?_of_takeSign (h : takeSign cs = (negative, tail)) :
    (ofChars? cs).isSome = true ↔
      String.ofList (tail.map Char.toLower) ∈ words ∨
        (unsigned? negative tail).isSome = true := by
  by_cases hword : String.ofList (tail.map Char.toLower) ∈ words
  · refine iff_of_true ?_ (.inl hword)
    simp only [words, List.mem_cons, List.not_mem_nil, or_false] at hword
    rw [ofChars?, h]
    rcases hword with hword | hword | hword <;> simp [hword]
  · rw [ofChars?_of_notMem_words h hword]
    exact (or_iff_right hword).symm

theorem Mantissa.ne_nil (h : Mantissa mantissa whole fraction) (hne : whole ++ fraction ≠ []) :
    mantissa ≠ [] := by
  cases h with
  | whole hwhole => rwa [List.append_nil] at hne
  | point hwhole hfraction => simp

theorem Mantissa.isDigit_or_point (h : Mantissa mantissa whole fraction) :
    ∀ c ∈ mantissa, c.isDigit = true ∨ c = '.' := by
  cases h with
  | whole hwhole => exact fun c hc => .inl (hwhole c hc)
  | point hwhole hfraction =>
    rw [List.forall_mem_append, List.forall_mem_cons]
    exact ⟨fun c hc => .inl (hwhole c hc), .inr rfl, fun c hc => .inl (hfraction c hc)⟩

theorem Mantissa.ne_sign (h : Mantissa mantissa whole fraction) :
    ∀ c ∈ mantissa, c ≠ '-' ∧ c ≠ '+' := by
  intro c hc
  rcases h.isDigit_or_point c hc with hdigit | rfl
  · exact ne_sign_of_isDigit hdigit
  · decide

/-- **Exactly the numbers in decimal writing are read.** -/
theorem isSome_ofChars?_iff : (ofChars? cs).isSome = true ↔ Written cs := by
  constructor
  · intro h
    obtain ⟨sign, negative, body, hsign, htake, rfl⟩ := exists_takeSign_eq cs
    rw [isSome_ofChars?_of_takeSign htake, isSome_unsigned?_iff] at h
    rcases h with hword | ⟨mantissa, whole, fraction, exponent, hmantissa, hne, hexponent, rfl⟩
    · exact .word hsign hword
    · exact .number hsign hmantissa hne hexponent
  · intro h
    -- a word begins with a letter and digits with a digit or a point, so that only the sign is
    -- taken off
    cases h with
    | @word sign letters hsign hword =>
      have hhead : ∀ c ∈ letters.head?, c ≠ '-' ∧ c ≠ '+' := by
        intro c hc
        obtain ⟨rest, rfl⟩ := List.head?_eq_some_iff.mp hc
        have hletter := toLower_of_mem_words hword
        constructor
        all_goals
          rintro rfl
          exact absurd hletter (by decide)
      obtain ⟨negative, htake⟩ := exists_takeSign_append hsign hhead
      rw [isSome_ofChars?_of_takeSign htake]
      exact .inl hword
    | @number sign mantissa whole fraction exponent hsign hmantissa hne hexponent =>
      have hhead : ∀ c ∈ (mantissa ++ exponent).head?, c ≠ '-' ∧ c ≠ '+' := by
        obtain ⟨c, rest, rfl⟩ := List.exists_cons_of_ne_nil (hmantissa.ne_nil hne)
        rintro _ ⟨⟩
        exact hmantissa.ne_sign c List.mem_cons_self
      obtain ⟨negative, htake⟩ := exists_takeSign_append hsign hhead
      rw [isSome_ofChars?_of_takeSign htake, isSome_unsigned?_iff]
      exact .inr ⟨mantissa, whole, fraction, exponent, hmantissa, hne, hexponent, rfl⟩

theorem toLower_of_isDigit (hc : c.isDigit = true) : c.toLower = c := by
  have hdigit : ('0'.val ≤ c.val && c.val ≤ '9'.val) = true := hc
  -- digits stand before all capital letters
  have hcapital : ¬('A'.val ≤ c.val ∧ c.val ≤ 'Z'.val) := by
    simp only [Bool.and_eq_true, decide_eq_true_eq, UInt32.le_iff_toNat_le, Char.reduceVal,
      UInt32.reduceToNat] at hdigit ⊢
    omega
  exact dif_neg hcapital

/-- A digit begins no word. -/
theorem notMem_words_of_isDigit (hc : c.isDigit = true) :
    String.ofList ((c :: cs).map Char.toLower) ∉ words := by
  intro hword
  have hletter := toLower_of_mem_words hword
  rw [toLower_of_isDigit hc] at hletter
  rcases hletter with rfl | rfl <;> cases hc

/-- **Digits without a sign denote a quantity that is not negative**: the digits before and behind
the point in one, as many places further down as stand behind the point. -/
theorem ofChars?_of_mantissa (h : Mantissa mantissa whole fraction) (hne : whole ≠ []) :
    ofChars? mantissa =
      some (.finite false (natOfDigits (whole ++ fraction)) (-fraction.length)) := by
  have hword : String.ofList (mantissa.map Char.toLower) ∉ words := by
    obtain ⟨c, rest, rfl⟩ := List.exists_cons_of_ne_nil hne
    cases h with
    | whole hwhole => exact notMem_words_of_isDigit (hwhole c List.mem_cons_self)
    | point hwhole hfraction => exact notMem_words_of_isDigit (hwhole c List.mem_cons_self)
  have htake : takeSign mantissa = (false, mantissa) :=
    takeSign_of_ne fun c hc => h.ne_sign c (List.mem_of_mem_head? hc)
  have hnil : ∀ c ∈ ([] : List Char).head?, c.isDigit = false ∧ (c = '.' → '.' ∈ mantissa) := nofun
  have hparts : whole ++ fraction ≠ [] := List.append_ne_nil_of_left_ne_nil hne fraction
  have hunsigned := unsigned?_append false h hnil
  rw [List.append_nil, ofParts?, if_neg hparts] at hunsigned
  rw [ofChars?_of_notMem_words htake hword, hunsigned]
  simp [exponent?]

end Decimal

/-! ## The nearest number -/

namespace Binary64

theorem roundDecimal_le (mantissa : Nat) (exponent : Int) :
    roundDecimal mantissa exponent ≤ infinityBits := by
  unfold roundDecimal
  dsimp only
  split_ifs
  · exact Nat.zero_le _
  · exact le_rfl
  · exact Nat.min_le_left ..
  · exact Nat.min_le_left ..

/-- The bits up to those of infinity stand for a quantity, with the sign that it is given. -/
theorem ofMagnitude_of_le (negative : Bool) {magnitude : Nat} (h : magnitude ≤ infinityBits) :
    (ofMagnitude negative magnitude).isNaN = false ∧
      (ofMagnitude negative magnitude).isNegative = negative := by
  rw [infinityBits] at h
  have hbits : (ofMagnitude negative magnitude).bits.toNat =
      if negative then magnitude + 0x8000000000000000 else magnitude := by
    refine UInt64.toNat_ofNat_of_lt' ?_
    rw [UInt64.size]
    split_ifs <;> omega
  cases negative with
  | false =>
    simp only [isNaN, isNegative, magnitudeBits, hbits, infinityBits, decide_eq_false_iff_not,
      Bool.false_eq_true, if_false]
    omega
  | true =>
    simp only [isNaN, isNegative, magnitudeBits, hbits, infinityBits, decide_eq_false_iff_not,
      decide_eq_true_eq, if_true]
    omega

/-- **The number nearest to a quantity is a quantity of the same sign**, also where it is zero or
infinite. -/
theorem ofDecimal_finite (negative : Bool) (mantissa : Nat) (exponent : Int) :
    (ofDecimal (.finite negative mantissa exponent)).isNaN = false ∧
      (ofDecimal (.finite negative mantissa exponent)).isNegative = negative :=
  ofMagnitude_of_le negative (roundDecimal_le mantissa exponent)

end Binary64

end ExprReader
