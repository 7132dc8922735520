import ExprReader.Proofs.Console.Writes

/-!
# Where limits cut

Bytes that are offered to a console are cut at one point: what is written is their longest beginning
for which both streams have room. All of it is written and the action succeeds, or the byte behind
it finds its stream full and the action fails with the reason of that stream.

## Main definitions

* `Console.unlimited c`: the console with its limits taken away
* `Console.LongestRoom c bytes front`: the longest beginning of the bytes that has room

## Main results

* `Offered.longestRoom`: what is written of bytes that are offered
* `Offered.isOk_iff_hasRoom`: all is written exactly if there is room for all
-/

namespace ExprReader

namespace Console

/-- The console with its limits taken away. -/
def unlimited (c : Console) : Console := { c with outLimit := none, errLimit := none }

theorem unlimited_unlimited (c : Console) : c.unlimited.Unlimited := ⟨rfl, rfl⟩

/-- The longest beginning of the bytes for which both streams have room. -/
structure LongestRoom (c : Console) (bytes front : List (Stream × UInt8)) : Prop where
  beginning : front <+: bytes
  hasRoom : c.HasRoom front
  longest : ∀ other, other <+: bytes → c.HasRoom other → other <+: front

section Offered

variable {ε α : Type} {failure : Stream → String → ε} {c : Console}
  {bytes front back : List (Stream × UInt8)} {r : α}

theorem LongestRoom.of_hasRoom (h : c.HasRoom bytes) : c.LongestRoom bytes bytes :=
  ⟨List.prefix_rfl, h, fun _ hother _ => hother⟩

/-- There is no room for the byte that finds its stream full. -/
theorem Takes.not_hasRoom {c' : Console} {stream : Stream} {reason : String}
    (h : c.Takes c' front) (hfull : c'.limit stream = some ⟨0, reason⟩) (b : UInt8) :
    ¬c.HasRoom (front ++ [(stream, b)]) := by
  intro hroom
  rw [h.limit, Option.map_eq_some_iff] at hfull
  obtain ⟨l, hl, hless⟩ := hfull
  simp only [Limit.mk.injEq] at hless
  -- the bytes before it take all the room that there is
  have hcount := hroom stream l hl
  have hone : count stream [(stream, b)] = 1 := by simp [count]
  rw [count_append, hone] at hcount
  omega

theorem LongestRoom.of_not_hasRoom {p : Stream × UInt8} (heq : bytes = front ++ p :: back)
    (hroom : c.HasRoom front) (hnot : ¬c.HasRoom (front ++ [p])) : c.LongestRoom bytes front where
  beginning := ⟨p :: back, heq.symm⟩
  hasRoom := hroom
  longest other hother hroom' := by
    have hmore : front ++ [p] <+: bytes := ⟨back, by rw [heq, List.append_assoc]; rfl⟩
    rcases List.prefix_or_prefix_of_prefix hother hmore with h | ⟨more, rfl⟩
    · rcases List.prefix_concat_iff.mp h with rfl | h
      · exact absurd hroom' hnot
      · exact h
    · exact absurd hroom'.of_append hnot

/-- **What is written of bytes that are offered** is their longest beginning with room; the result
tells whether that is all of them, and else which stream was full. -/
theorem Offered.longestRoom {a : Action ε α} (h : Offered failure c bytes r (a c)) :
    ∃ front, c.LongestRoom bytes front ∧ (c.after a).trace = c.trace ++ front ∧
      (front = bytes → a c = .ok r (c.after a)) ∧
      ∀ stream b back, bytes = front ++ (stream, b) :: back →
        ∃ l, c.limit stream = some l ∧ a c = .error (failure stream l.reason) (c.after a) := by
  unfold after
  generalize a c = result at h
  cases h with
  | whole h =>
    refine ⟨bytes, .of_hasRoom h.hasRoom, h.trace, fun _ => rfl, fun stream b back heq => ?_⟩
    -- nothing lies behind all of the bytes
    simp at heq
  | @part c' front back stream b reason heq h hfull =>
    refine ⟨front, .of_not_hasRoom heq h.hasRoom (h.not_hasRoom hfull b), h.trace,
      fun hall => ?_, fun stream' b' back' heq' => ?_⟩
    · simp [hall] at heq
    · rw [heq, List.append_cancel_left_eq, List.cons.injEq, Prod.mk.injEq] at heq'
      obtain ⟨⟨rfl, -⟩, -⟩ := heq'
      rw [h.limit, Option.map_eq_some_iff] at hfull
      obtain ⟨l, hl, hless⟩ := hfull
      simp only [Limit.mk.injEq] at hless
      exact ⟨l, hl, by rw [hless.2]⟩

/-- **All is written exactly if there is room for all.** -/
theorem Offered.isOk_iff_hasRoom {result : EStateM.Result ε Console α}
    (h : Offered failure c bytes r result) :
    (∃ r' c', result = .ok r' c') ↔ c.HasRoom bytes := by
  cases h with
  | whole h => exact ⟨fun _ => h.hasRoom, fun _ => ⟨_, _, rfl⟩⟩
  | @part _ _ back _ b _ heq h hfull =>
    refine ⟨nofun, fun hroom => absurd ?_ (h.not_hasRoom hfull b)⟩
    rw [heq, List.append_cons] at hroom
    exact hroom.of_append

/-- A failure tells which stream was full and what had been written before. -/
theorem Offered.exists_of_error {e : ε} {c' : Console}
    (h : Offered failure c bytes r (.error e c')) :
    ∃ front stream b back reason, bytes = front ++ (stream, b) :: back ∧
      c.Takes c' front ∧ e = failure stream reason := by
  cases h with
  | part heq h hfull => exact ⟨_, _, _, _, _, heq, h, rfl⟩

end Offered

end Console

end ExprReader
