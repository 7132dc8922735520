import ExprReader.Proofs.Text.Tiling
import ExprReader.Proofs.Token.LongestMatch
import ExprReader.Proofs.Token.Spans

/-!
# A scan tiles its text

Each byte of a text is in just one place of its scan: in one token, a string taken with its quotes,
or under one fault, or it is a blank. So the scan of a text without an open string tells all of the
text, but for which blank stands where there is one.

## Main definitions

* `Token.region`: the bytes that a token takes, a string with its quotes
* `Text.BlankAt text offset`: a blank stands in the text at an offset
* `Scan.Tiles s text`: the tokens and faults of a scan tile a text

## Main results

* `Tokenizes.tiling`: what a text falls into by the longest match tiles the text
* `Tiles.agree`: texts that are tiled by the same scan agree but for their blanks
* `ofText_tiles`: the scan of a text tiles it
-/

namespace ExprReader

/-- The bytes that a token takes; a string has a quote on either side of its spelling. -/
def Token.region (t : Token) : Span :=
  if t.kind = .string then ⟨t.span.start - 1, t.span.stop + 1⟩ else t.span

/-- The blank characters of a text, by their byte offsets. -/
def Text.BlankAt (text : List Char) (offset : Nat) : Prop :=
  ∃ c ∈ Token.blanks, Text.StandsAt offset [c] text

namespace Scan

/-- The regions of tokens in order; the mark at the end has none. -/
def regions (tokens : List Token) : List Span :=
  (tokens.filter fun t => !t.isEof).map Token.region

/-- A character that begins no token stands at the span of its diagnostic. -/
def StandsStray (text : List Char) (d : Diagnostic) : Prop :=
  ∃ c, d.body = .fault (.strayCharacter c) ∧ Text.slice? d.span.start d.span.stop text = some [c]

/-- The tokens and faults of a scan tile a text. -/
structure Tiles (s : Scan) (text : List Char) : Prop where
  /-- The last token and no other marks the end of the text; it is empty and stands there. -/
  ends : ∃ front, s.tokens = front ++ [⟨.eof, "", Text.byteLength text⟩] ∧
    ∀ t ∈ front, t.kind ≠ .eof
  /-- The spelling of a token is what stands in the text at its offset. -/
  spelled : ∀ t ∈ s.tokens, Text.StandsAt t.offset t.lexeme.toList text
  /-- Around the spelling of a string stand its quotes. -/
  quoted : ∀ t ∈ s.tokens, t.kind = .string → t.offset = t.region.start + 1 ∧
    Text.StandsAt t.region.start ('"' :: t.lexeme.toList ++ ['"']) text
  /-- No byte lies in two regions or spans of faults, and what lies in none is blank. -/
  tiling : Span.Tiling (Text.BlankAt text) 0 (Text.byteLength text) (regions s.tokens)
    (s.diagnostics.map Diagnostic.span)
  /-- A fault is an open string, or it covers a character that begins nothing. -/
  faults : ∀ d ∈ s.diagnostics, d.body = .fault .openString ∨ StandsStray text d
  openOnce : (Diagnostic.faults s.diagnostics).count .openString ≤ 1
  /-- An open string takes the text up to its end, and all else stands before it. -/
  openLast : ∀ d ∈ s.diagnostics, d.body = .fault .openString →
    d.span.stop = Text.byteLength text ∧
      ∀ r ∈ regions s.tokens ++ s.diagnostics.map Diagnostic.span, r ≠ d.span → r.Before d.span

end Scan

/-! ## What a text falls into tiles the text -/

namespace Token

section Tokenizes

variable {offset : Nat} {text cs spelling : List Char} {kind : Kind} {tokens : List Token}
  {diagnostics : List Diagnostic}

theorem Belongs.kind_ne_eof (h : Belongs kind spelling) : kind ≠ .eof := by
  have hmarks : ∀ e ∈ marks, e.2 ≠ .eof := by decide
  have hreserved : ∀ e ∈ Kind.reserved, e.2 ≠ .eof := by decide
  cases h with
  | mark hmem => exact hmarks _ hmem
  | reserved _ _ hmem => exact hreserved _ hmem
  | _ => nofun

/-- A match stands at the front of the text. -/
theorem Longest.standsAt {rest : List Char} (h : Longest text kind spelling rest)
    (hcs : Text.RemainsAt offset text cs) : Text.StandsAt offset spelling cs := by
  rw [← h.append] at hcs
  exact hcs.standsAt

theorem Longest.behind {rest : List Char} (h : Longest text kind spelling rest)
    (hcs : Text.RemainsAt offset text cs) :
    Text.RemainsAt (offset + Text.byteLength spelling) rest cs := by
  rw [← h.append] at hcs
  exact hcs.behind

theorem Longest.byteLength_pos {rest : List Char} (h : Longest text kind spelling rest) :
    0 < Text.byteLength spelling :=
  Text.byteLength_pos h.belongs.ne_nil

theorem remainsAt_behind_blank {c : Char} (hblank : c ∈ blanks)
    (hcs : Text.RemainsAt offset (c :: text) cs) : Text.RemainsAt (offset + 1) text cs := by
  rw [← utf8Size_of_mem_blanks hblank]
  exact hcs.tail

theorem regions_eof (offset : Nat) : Scan.regions [⟨.eof, "", offset⟩] = [] := rfl

theorem regions_plain (h : Belongs kind spelling) (hkind : kind ≠ .string) (offset : Nat) :
    Scan.regions (⟨kind, String.ofList spelling, offset⟩ :: tokens) =
      ⟨offset, offset + Text.byteLength spelling⟩ :: Scan.regions tokens := by
  simp [Scan.regions, isEof, h.kind_ne_eof, region, hkind, span, Text.utf8ByteSize_eq]

theorem region_string (content : List Char) (offset : Nat) :
    region ⟨.string, String.ofList content, offset + 1⟩ =
      ⟨offset, offset + Text.byteLength ('"' :: content ++ ['"'])⟩ := by
  have hquote : '"'.utf8Size = 1 := rfl
  simp only [region, span, Text.utf8ByteSize_eq, String.toList_ofList, Text.byteLength_append,
    List.cons_append, Text.byteLength_cons, Text.byteLength_nil, hquote, if_true, Span.mk.injEq]
  omega

theorem regions_string (content : List Char) (offset : Nat) :
    Scan.regions (⟨.string, String.ofList content, offset + 1⟩ :: tokens) =
      ⟨offset, offset + Text.byteLength ('"' :: content ++ ['"'])⟩ :: Scan.regions tokens := by
  rw [← region_string]
  rfl

/-- **What a text falls into tiles the text**, within any text that it ends. -/
theorem Tokenizes.tiling (h : Tokenizes offset text tokens diagnostics)
    (hcs : Text.RemainsAt offset text cs) :
    Span.Tiling (Text.BlankAt cs) offset (Text.byteLength cs) (Scan.regions tokens)
      (diagnostics.map Diagnostic.span) := by
  -- each part that is taken comes in front of what the rest of the text has tiled
  induction h with
  | done =>
    rw [hcs.byteLength_eq]
    exact Span.tiling_nil _ _
  | @blank _ c _ _ _ hblank _ ih =>
    exact (ih (remainsAt_behind_blank hblank hcs)).skip ⟨c, hblank, hcs.head⟩
  | plain _ hkind hlongest _ ih =>
    rw [regions_plain hlongest.belongs hkind]
    exact (ih (hlongest.behind hcs)).left (Nat.lt_add_of_pos_right hlongest.byteLength_pos)
      (hlongest.standsAt hcs).isBoundary_stop.le
  | string _ hlongest _ ih =>
    rw [regions_string]
    exact (ih (hlongest.behind hcs)).left (Nat.lt_add_of_pos_right hlongest.byteLength_pos)
      (hlongest.standsAt hcs).isBoundary_stop.le
  | @unterminated offset rest _ =>
    rw [regions_eof, hcs.byteLength_eq]
    have hpos := Text.byteLength_pos (List.cons_ne_nil '"' rest)
    exact (Span.tiling_nil _ _).right (Nat.lt_add_of_pos_right hpos) (Nat.le_refl _)
  | stray _ _ _ _ ih =>
    exact (ih hcs.tail).right (Nat.lt_add_of_pos_right (Char.utf8Size_pos _))
      hcs.head.isBoundary_stop.le

/-- The last token and no other marks the end. -/
theorem Tokenizes.ends (h : Tokenizes offset text tokens diagnostics)
    (hcs : Text.RemainsAt offset text cs) :
    ∃ front, tokens = front ++ [⟨.eof, "", Text.byteLength cs⟩] ∧ ∀ t ∈ front, t.kind ≠ .eof := by
  induction h with
  | done => exact ⟨[], by rw [hcs.byteLength_eq]; rfl, nofun⟩
  | blank hblank _ ih => exact ih (remainsAt_behind_blank hblank hcs)
  | plain _ _ hlongest _ ih =>
    obtain ⟨front, rfl, hfront⟩ := ih (hlongest.behind hcs)
    exact ⟨_ :: front, rfl, List.forall_mem_cons.mpr ⟨hlongest.belongs.kind_ne_eof, hfront⟩⟩
  | string _ hlongest _ ih =>
    obtain ⟨front, rfl, hfront⟩ := ih (hlongest.behind hcs)
    exact ⟨_ :: front, rfl, List.forall_mem_cons.mpr ⟨nofun, hfront⟩⟩
  | unterminated => exact ⟨[], by rw [hcs.byteLength_eq]; rfl, nofun⟩
  | stray _ _ _ _ ih => exact ih hcs.tail

/-- Around the spelling of a string stand its quotes. -/
theorem Tokenizes.quoted (h : Tokenizes offset text tokens diagnostics)
    (hcs : Text.RemainsAt offset text cs) {t : Token} (ht : t ∈ tokens) (hkind : t.kind = .string) :
    t.offset = t.region.start + 1 ∧
      Text.StandsAt t.region.start ('"' :: t.lexeme.toList ++ ['"']) cs := by
  induction h with
  | done =>
    obtain rfl := List.mem_singleton.mp ht
    cases hkind
  | blank hblank _ ih => exact ih (remainsAt_behind_blank hblank hcs) ht
  | plain _ hkind' hlongest _ ih =>
    rcases List.mem_cons.mp ht with rfl | ht
    · exact absurd hkind hkind'
    · exact ih (hlongest.behind hcs) ht
  | string _ hlongest _ ih =>
    rcases List.mem_cons.mp ht with rfl | ht
    · rw [region_string, String.toList_ofList]
      exact ⟨rfl, hlongest.standsAt hcs⟩
    · exact ih (hlongest.behind hcs) ht
  | unterminated =>
    obtain rfl := List.mem_singleton.mp ht
    cases hkind
  | stray _ _ _ _ ih => exact ih hcs.tail ht

/-- A fault is a string that is open up to the end of the text, or it covers a character that begins
nothing. -/
theorem Tokenizes.faults (h : Tokenizes offset text tokens diagnostics)
    (hcs : Text.RemainsAt offset text cs) {d : Diagnostic} (hd : d ∈ diagnostics) :
    (d.body = .fault .openString ∧ d.span.stop = Text.byteLength cs) ∨ Scan.StandsStray cs d := by
  induction h with
  | done => cases hd
  | blank hblank _ ih => exact ih (remainsAt_behind_blank hblank hcs) hd
  | plain _ _ hlongest _ ih => exact ih (hlongest.behind hcs) hd
  | string _ hlongest _ ih => exact ih (hlongest.behind hcs) hd
  | unterminated =>
    obtain rfl := List.mem_singleton.mp hd
    exact .inl ⟨rfl, hcs.byteLength_eq.symm⟩
  | @stray _ c _ _ _ _ _ _ _ ih =>
    rcases List.mem_cons.mp hd with rfl | hd
    · exact .inr ⟨c, rfl, Text.slice?_eq_some_iff.mpr ⟨hcs.head, rfl⟩⟩
    · exact ih hcs.tail hd

/-- Behind an open string nothing is left in which there could be another one. -/
theorem Tokenizes.count_openString (h : Tokenizes offset text tokens diagnostics) :
    (Diagnostic.faults diagnostics).count .openString ≤ 1 := by
  induction h with
  | done => exact Nat.zero_le 1
  | blank _ _ ih => exact ih
  | plain _ _ _ _ ih => exact ih
  | string _ _ _ ih => exact ih
  | unterminated => exact Nat.le_refl 1
  | stray _ _ _ _ ih => simpa [Diagnostic.faults, Diagnostic.fault?, Diagnostic.error] using ih

end Tokenizes

end Token

/-! ## The scan -/

namespace Scan

section Tiles

variable {s : Scan} {text text' : List Char} {d : Diagnostic}

theorem StandsStray.body_ne (h : StandsStray text d) : d.body ≠ .fault .openString := by
  obtain ⟨c, hbody, -⟩ := h
  rw [hbody]
  nofun

theorem tiles_ofText (text : String) : (ofText text).Tiles text.toList := by
  have htokenizes : Token.Tokenizes 0 text.toList (ofText text).tokens (ofText text).diagnostics :=
    Token.tokenizes_place 0 text.toList
  have hremains := Text.remainsAt_zero text.toList
  have htiling := htokenizes.tiling hremains
  constructor
  case ends => exact htokenizes.ends hremains
  case spelled => exact fun t ht => (Text.slice?_eq_some_iff.mp (slice?_span_of_mem_tokens ht)).1
  case quoted => exact fun t ht => htokenizes.quoted hremains ht
  case tiling => exact htiling
  case faults => exact fun d hd => (htokenizes.faults hremains hd).imp_left And.left
  case openOnce => exact htokenizes.count_openString
  case openLast =>
    intro d hd hopen
    have hstop : d.span.stop = Text.byteLength text.toList := by
      rcases htokenizes.faults hremains hd with ⟨-, hstop⟩ | hstray
      · exact hstop
      · exact absurd hopen hstray.body_ne
    have hspan := List.mem_append_right (regions (ofText text).tokens)
      (List.mem_map_of_mem (f := Diagnostic.span) hd)
    exact ⟨hstop, fun r hr hne => htiling.before_of_stop hr hspan hstop hne⟩

/-- What stands in both of two texts at an offset. -/
theorem getElem?_encode_eq {part : List Char} {n i : Nat} (h : Text.StandsAt n part text)
    (h' : Text.StandsAt n part text') (hle : n ≤ i) (hlt : i < n + Text.byteLength part) :
    (Text.encode text)[i]? = (Text.encode text')[i]? := by
  rw [h.getElem?_encode hle hlt, h'.getElem?_encode hle hlt]

/-- The bytes that a token takes are the same in all texts that its scan tiles. -/
theorem Tiles.getElem?_encode_of_mem_tokens (h : s.Tiles text) (h' : s.Tiles text') {t : Token}
    (ht : t ∈ s.tokens) {i : Nat} (hi : t.region.Covers i) :
    (Text.encode text)[i]? = (Text.encode text')[i]? := by
  by_cases hkind : t.kind = .string
  · obtain ⟨hoffset, hquoted⟩ := h.quoted t ht hkind
    refine getElem?_encode_eq hquoted (h'.quoted t ht hkind).2 hi.1 ?_
    have hquote : '"'.utf8Size = 1 := rfl
    have hlt := hi.2
    simp only [Token.region, hkind, if_true, t.stop_span] at hlt ⊢
    simp only [Text.byteLength_append, List.cons_append, Text.byteLength_cons, Text.byteLength_nil,
      hquote]
    omega
  · rw [Token.region, if_neg hkind] at hi
    exact getElem?_encode_eq (h.spelled t ht) (h'.spelled t ht) hi.1 (t.stop_span ▸ hi.2)

/-- The bytes under a fault are the same in all texts that its scan tiles, unless it is an open
string. -/
theorem Tiles.getElem?_encode_of_mem_diagnostics (h : s.Tiles text) (h' : s.Tiles text')
    (hd : d ∈ s.diagnostics) (hopen : d.body ≠ .fault .openString) {i : Nat}
    (hi : d.span.Covers i) : (Text.encode text)[i]? = (Text.encode text')[i]? := by
  obtain ⟨c, hbody, hslice⟩ := (h.faults d hd).resolve_left hopen
  obtain ⟨c', hbody', hslice'⟩ := (h'.faults d hd).resolve_left hopen
  -- the diagnostic says which character it is
  obtain rfl : c = c' := by simpa [hbody] using hbody'
  rw [Text.slice?_eq_some_iff] at hslice hslice'
  exact getElem?_encode_eq hslice.1 hslice'.1 hi.1 (hslice.2 ▸ hi.2)

/-- **Texts that are tiled by the same scan agree but for their blanks**, if it has no open
string. -/
theorem Tiles.agree (h : s.Tiles text) (h' : s.Tiles text')
    (hopen : ∀ d ∈ s.diagnostics, d.body ≠ .fault .openString) :
    Text.byteLength text = Text.byteLength text' ∧
      ∀ i, (Text.encode text)[i]? = (Text.encode text')[i]? ∨
        Text.BlankAt text i ∧ Text.BlankAt text' i := by
  have hlength : Text.byteLength text = Text.byteLength text' := by
    obtain ⟨front, heq, -⟩ := h.ends
    obtain ⟨front', heq', -⟩ := h'.ends
    have hlast := (List.append_inj' (heq.symm.trans heq') rfl).2
    simpa using hlast
  refine ⟨hlength, fun i => ?_⟩
  by_cases hlt : i < Text.byteLength text
  · by_cases hcovered : ∃ r ∈ regions s.tokens ++ s.diagnostics.map Diagnostic.span, r.Covers i
    · left
      obtain ⟨r, hr, hi⟩ := hcovered
      rcases List.mem_append.mp hr with hr | hr
      · obtain ⟨t, ht, rfl⟩ := List.mem_map.mp hr
        exact h.getElem?_encode_of_mem_tokens h' (List.mem_filter.mp ht).1 hi
      · obtain ⟨d, hd, rfl⟩ := List.mem_map.mp hr
        exact h.getElem?_encode_of_mem_diagnostics h' hd (hopen d hd) hi
    · right
      have hgap : ∀ r ∈ regions s.tokens ++ s.diagnostics.map Diagnostic.span, ¬r.Covers i :=
        fun r hr hi => hcovered ⟨r, hr, hi⟩
      exact ⟨h.tiling.gaps i (Nat.zero_le i) hlt hgap,
        h'.tiling.gaps i (Nat.zero_le i) (hlength ▸ hlt) hgap⟩
  · -- neither text goes on so far
    left
    rw [List.getElem?_eq_none, List.getElem?_eq_none]
    · rw [Text.length_encode]
      omega
    · rw [Text.length_encode]
      omega

/-- **The scan of a text tiles the text**, so that texts with the same scan, if it has no open
string, are of one length and agree but for which blank stands where both have one. -/
theorem ofText_tiles (text text' : String) :
    (ofText text).Tiles text.toList ∧
      ((∀ d ∈ (ofText text).diagnostics, d.body ≠ .fault .openString) →
        (ofText text).tokens = (ofText text').tokens →
        (ofText text).diagnostics = (ofText text').diagnostics →
        Text.byteLength text.toList = Text.byteLength text'.toList ∧
          ∀ i, (Text.encode text.toList)[i]? = (Text.encode text'.toList)[i]? ∨
            Text.BlankAt text.toList i ∧ Text.BlankAt text'.toList i) := by
  refine ⟨tiles_ofText text, fun hopen htokens hdiagnostics => ?_⟩
  have hsame : ofText text' = ofText text := by
    cases hscan : ofText text
    cases hscan' : ofText text'
    simp_all
  exact (tiles_ofText text).agree (hsame ▸ tiles_ofText text') hopen

/-- A string, a character of several bytes and a stray one, with other blanks between them. -/
theorem ofText_tiles_of_blanks :
    let text := "x\t\"é\" \r\n@"
    let text' := "x \"é\"\n\t @"
    (∀ d ∈ (ofText text).diagnostics, d.body ≠ .fault .openString) ∧
      (ofText text).tokens = (ofText text').tokens ∧
      (ofText text).diagnostics = (ofText text').diagnostics ∧
      (ofText text).Tiles text.toList ∧
      Text.byteLength text.toList = Text.byteLength text'.toList ∧
      ∀ i, (Text.encode text.toList)[i]? = (Text.encode text'.toList)[i]? ∨
        Text.BlankAt text.toList i ∧ Text.BlankAt text'.toList i := by
  intro text text'
  have hopen : ∀ d ∈ (ofText text).diagnostics, d.body ≠ .fault .openString := by decide +kernel
  have htokens : (ofText text).tokens = (ofText text').tokens := by decide +kernel
  have hdiagnostics : (ofText text).diagnostics = (ofText text').diagnostics := by decide +kernel
  obtain ⟨htiles, hagree⟩ := ofText_tiles text text'
  exact ⟨hopen, htokens, hdiagnostics, htiles, hagree hopen htokens hdiagnostics⟩

end Tiles

end Scan

end ExprReader
