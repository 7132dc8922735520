import Mathlib.Data.List.Pairwise
import ExprReader.Text.Span

/-!
# Spans that tile a stretch

Two lists of spans tile a stretch of a text if each is in order and no byte lies in two of the
spans. Bytes that lie in none are gaps, of which something is known. A tiling is built from its end:
in front of what is tiled comes a gap, or one more span of either list.

## Main definitions

* `Span.Before`, `Span.Apart`, `Span.Covers`: how spans and bytes lie to each other
* `Span.Tiling gap start stop xs ys`: two lists of spans tile a stretch

## Main results

* `Tiling.skip`, `Tiling.left`, `Tiling.right`: what can come in front of what is tiled
* `Tiling.before_of_stop`: the span that ends the stretch is behind all others
-/

namespace ExprReader

namespace Span

/-- All of the first span lies before the second one. -/
def Before (s t : Span) : Prop := s.stop ≤ t.start

/-- One of the two spans lies before the other one, so they have no byte in common. -/
def Apart (s t : Span) : Prop := s.Before t ∨ t.Before s

/-- The byte at an offset lies in the span. -/
def Covers (s : Span) (i : Nat) : Prop := s.start ≤ i ∧ i < s.stop

/-- Two lists of spans tile the stretch from `start` up to `stop`, but for gaps. -/
structure Tiling (gap : Nat → Prop) (start stop : Nat) (xs ys : List Span) : Prop where
  within : ∀ s ∈ xs ++ ys, start ≤ s.start ∧ s.start < s.stop ∧ s.stop ≤ stop
  apart : (xs ++ ys).Pairwise Apart
  ordered_left : xs.Pairwise Before
  ordered_right : ys.Pairwise Before
  gaps : ∀ i, start ≤ i → i < stop → (∀ s ∈ xs ++ ys, ¬s.Covers i) → gap i

instance : Std.Symm Apart := ⟨fun _ _ => Or.symm⟩

section Tiling

variable {gap : Nat → Prop} {start mid stop : Nat} {xs ys : List Span}

theorem tiling_nil (gap : Nat → Prop) (offset : Nat) : Tiling gap offset offset [] [] where
  within := nofun
  apart := .nil
  ordered_left := .nil
  ordered_right := .nil
  gaps _ hge hlt _ := absurd hge (Nat.not_le_of_lt hlt)

theorem Tiling.symm (h : Tiling gap start stop xs ys) : Tiling gap start stop ys xs where
  within s hs := h.within s (List.mem_append.mpr (List.mem_append.mp hs).symm)
  apart := (List.pairwise_append_comm (symm_of Apart)).mp h.apart
  ordered_left := h.ordered_right
  ordered_right := h.ordered_left
  gaps i hge hlt hnone := h.gaps i hge hlt fun s hs =>
    hnone s (List.mem_append.mpr (List.mem_append.mp hs).symm)

/-- In front of what is tiled comes a gap. -/
theorem Tiling.skip (h : Tiling gap (start + 1) stop xs ys) (hgap : gap start) :
    Tiling gap start stop xs ys where
  within s hs := by
    obtain ⟨hstart, hne, hstop⟩ := h.within s hs
    exact ⟨by omega, hne, hstop⟩
  apart := h.apart
  ordered_left := h.ordered_left
  ordered_right := h.ordered_right
  gaps i hge hlt hnone := by
    rcases Nat.eq_or_lt_of_le hge with rfl | hgt
    · exact hgap
    · exact h.gaps i hgt hlt hnone

/-- In front of what is tiled comes a span of the first list. -/
theorem Tiling.left (h : Tiling gap mid stop xs ys) (hne : start < mid) (hle : mid ≤ stop) :
    Tiling gap start stop (⟨start, mid⟩ :: xs) ys := by
  have hbefore : ∀ s ∈ xs ++ ys, Before ⟨start, mid⟩ s := fun s hs => (h.within s hs).1
  constructor
  case within =>
    rw [List.cons_append, List.forall_mem_cons]
    refine ⟨⟨Nat.le_refl _, hne, hle⟩, fun s hs => ?_⟩
    obtain ⟨hstart, hne', hstop⟩ := h.within s hs
    exact ⟨by omega, hne', hstop⟩
  case apart => exact .cons (fun s hs => .inl (hbefore s hs)) h.apart
  case ordered_left =>
    exact .cons (fun s hs => hbefore s (List.mem_append_left _ hs)) h.ordered_left
  case ordered_right => exact h.ordered_right
  case gaps =>
    intro i hge hlt hnone
    rw [List.cons_append, List.forall_mem_cons] at hnone
    -- a byte that the new span does not cover lies behind it
    have hmid : mid ≤ i := Nat.le_of_not_lt fun hi => hnone.1 ⟨hge, hi⟩
    exact h.gaps i hmid hlt hnone.2

/-- In front of what is tiled comes a span of the second list. -/
theorem Tiling.right (h : Tiling gap mid stop xs ys) (hne : start < mid) (hle : mid ≤ stop) :
    Tiling gap start stop xs (⟨start, mid⟩ :: ys) :=
  (h.symm.left hne hle).symm

/-- **The span that ends the stretch is behind all others.** -/
theorem Tiling.before_of_stop (h : Tiling gap start stop xs ys) {s t : Span} (hs : s ∈ xs ++ ys)
    (ht : t ∈ xs ++ ys) (hstop : t.stop = stop) (hne : s ≠ t) : s.Before t := by
  rcases h.apart.forall hs ht hne with hbefore | hbehind
  · exact hbefore
  · -- nothing within the stretch lies behind its end
    obtain ⟨-, hne', hle⟩ := h.within s hs
    unfold Before at hbehind
    omega

end Tiling

end Span

end ExprReader
