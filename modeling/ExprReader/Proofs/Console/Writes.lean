import ExprReader.Console.Piece

/-!
# What actions write

An action that only writes offers its bytes to the streams one after the other. As long as the
streams have room the bytes are taken; the first byte without room ends the action, with the reason
of its stream. On a console without limits all is taken, and all that changes is what has been
written. What an action writes may depend on whether the console is colored, and on nothing else of
it.

## Main definitions

* `Console.Unlimited c`: both streams take everything
* `Console.Takes c c' bytes`: the second console is the first with some bytes written on it
* `Console.Offered failure c bytes r`: what comes of offering bytes to a console
* `Console.Emits failure a r bytes`: on every console, this comes of an action
* `Console.Writes a r bytes`: an action succeeds on consoles without limits

## Main results

* `Offered.bind`, `Emits.bind`: actions in a row offer their bytes one after the other
* `emits_write`, `Piece.emits_writeAll`: what writing offers
* `Emits.writes`: without limits all that is offered is written
-/

namespace ExprReader

namespace Console

/-- Both streams take everything. -/
structure Unlimited (c : Console) : Prop where
  out : c.outLimit = none
  err : c.errLimit = none

/-- Bytes for one stream. -/
def tag (stream : Stream) (bytes : List UInt8) : List (Stream × UInt8) :=
  bytes.map fun b => (stream, b)

/-- The second console is the first, still without limits, with some bytes written on it. -/
structure Grows (c c' : Console) (bytes : List (Stream × UInt8)) : Prop where
  unlimited : c'.Unlimited
  flushFailure : c'.flushFailure = c.flushFailure
  colored : c'.colored = c.colored
  trace : c'.trace = c.trace ++ bytes

/-- The console that an action leaves, whether it succeeds or not. -/
def after {ε α : Type} (c : Console) (a : Action ε α) : Console :=
  match a c with
  | .ok _ c' => c'
  | .error _ c' => c'

/-- On every console without limits the action succeeds with a result and writes some bytes, which
depend on the color alone. -/
def Writes {ε α : Type} (a : Action ε α) (result : α) (bytes : Bool → List (Stream × UInt8)) :
    Prop :=
  ∀ c : Console, c.Unlimited → ∃ c', a c = .ok result c' ∧ c.Grows c' (bytes c.colored)

@[simp] theorem tag_append (stream : Stream) (bs cs : List UInt8) :
    tag stream (bs ++ cs) = tag stream bs ++ tag stream cs :=
  List.map_append

theorem fst_of_mem_tag {stream : Stream} {bytes : List UInt8} {p : Stream × UInt8}
    (h : p ∈ tag stream bytes) : p.1 = stream := by
  obtain ⟨b, -, rfl⟩ := List.mem_map.mp h
  rfl

/-- The bytes that are for a stream. -/
def forStream (stream : Stream) (bytes : List (Stream × UInt8)) : List UInt8 :=
  bytes.filterMap fun (s, b) => if s = stream then some b else none

@[simp] theorem forStream_append (stream : Stream) (bs cs : List (Stream × UInt8)) :
    forStream stream (bs ++ cs) = forStream stream bs ++ forStream stream cs :=
  List.filterMap_append

@[simp] theorem forStream_tag_self (stream : Stream) (bytes : List UInt8) :
    forStream stream (tag stream bytes) = bytes := by
  induction bytes with
  | nil => rfl
  | cons b rest ih =>
    have hcons : forStream stream (tag stream (b :: rest)) =
        b :: forStream stream (tag stream rest) := List.filterMap_cons_some (if_pos rfl)
    rw [hcons, ih]

theorem forStream_of_forall_ne {stream : Stream} {bytes : List (Stream × UInt8)}
    (h : ∀ p ∈ bytes, p.1 ≠ stream) : forStream stream bytes = [] := by
  rw [forStream, List.filterMap_eq_nil_iff]
  exact fun p hp => if_neg (h p hp)

theorem forStream_tag_of_ne {stream other : Stream} (h : other ≠ stream) (bytes : List UInt8) :
    forStream stream (tag other bytes) = [] :=
  forStream_of_forall_ne fun p hp => by rwa [fst_of_mem_tag hp]

theorem forStream_flatMap {α : Type} (stream : Stream) (xs : List α)
    (f : α → List (Stream × UInt8)) :
    forStream stream (xs.flatMap f) = xs.flatMap fun x => forStream stream (f x) := by
  induction xs with
  | nil => rfl
  | cons x rest ih => rw [List.flatMap_cons, List.flatMap_cons, forStream_append, ih]

/-! ## Room for bytes -/

/-- How many of the bytes are for a stream. -/
def count (stream : Stream) (bytes : List (Stream × UInt8)) : Nat :=
  bytes.countP fun p => p.1 = stream

@[simp] theorem count_append (stream : Stream) (bs cs : List (Stream × UInt8)) :
    count stream (bs ++ cs) = count stream bs + count stream cs :=
  List.countP_append

theorem count_tag (stream other : Stream) (bytes : List UInt8) :
    count stream (tag other bytes) = if other = stream then bytes.length else 0 := by
  split
  · rename_i heq
    rw [count, List.countP_eq_length.mpr]
    · exact List.length_map ..
    · exact fun p hp => decide_eq_true ((fst_of_mem_tag hp).trans heq)
  · rename_i hne
    refine List.countP_eq_zero.mpr fun p hp => ?_
    rw [fst_of_mem_tag hp]
    simpa using hne

/-- Both streams have room for their part of the bytes. -/
def HasRoom (c : Console) (bytes : List (Stream × UInt8)) : Prop :=
  ∀ stream, ∀ l ∈ c.limit stream, count stream bytes ≤ l.room

theorem hasRoom_nil (c : Console) : c.HasRoom [] := fun _ _ _ => Nat.zero_le _

theorem HasRoom.of_append {c : Console} {bs cs : List (Stream × UInt8)}
    (h : c.HasRoom (bs ++ cs)) : c.HasRoom bs := by
  intro stream l hl
  have := h stream l hl
  rw [count_append] at this
  omega

theorem Unlimited.limit {c : Console} (h : c.Unlimited) (stream : Stream) :
    c.limit stream = none := by
  cases stream with
  | out => exact h.out
  | err => exact h.err

/-- The second console is the first with some bytes written on it, for which there was room. -/
structure Takes (c c' : Console) (bytes : List (Stream × UInt8)) : Prop where
  hasRoom : c.HasRoom bytes
  limit : ∀ stream, c'.limit stream =
    (c.limit stream).map fun l => { l with room := l.room - count stream bytes }
  trace : c'.trace = c.trace ++ bytes
  flushFailure : c'.flushFailure = c.flushFailure
  colored : c'.colored = c.colored

theorem Takes.refl (c : Console) : c.Takes c [] where
  hasRoom := c.hasRoom_nil
  limit stream := by
    cases c.limit stream <;> rfl
  trace := (List.append_nil _).symm
  flushFailure := rfl
  colored := rfl

theorem Takes.trans {c c' c'' : Console} {bs cs : List (Stream × UInt8)} (h : c.Takes c' bs)
    (h' : c'.Takes c'' cs) : c.Takes c'' (bs ++ cs) where
  hasRoom := by
    intro stream l hl
    -- what is left after the first bytes is room for the others
    have hfirst := h.hasRoom stream l hl
    have hsecond := h'.hasRoom stream _ (by rw [h.limit, hl]; rfl)
    rw [count_append]
    dsimp only at hsecond
    omega
  limit stream := by
    rw [h'.limit, h.limit, Option.map_map, count_append]
    congr 1
    funext l
    simp only [Function.comp_apply, Nat.sub_sub]
  trace := by rw [h'.trace, h.trace, List.append_assoc]
  flushFailure := h'.flushFailure.trans h.flushFailure
  colored := h'.colored.trans h.colored

/-- A stream takes bytes for which it has room. -/
theorem takes_take {c : Console} {stream : Stream} {bytes : List UInt8}
    (h : ∀ l ∈ c.limit stream, bytes.length ≤ l.room) :
    c.Takes (c.take stream bytes) (tag stream bytes) where
  hasRoom other l hl := by
    rw [count_tag]
    split
    · rename_i heq
      exact h l (heq ▸ hl)
    · exact Nat.zero_le _
  limit other := by
    rw [count_tag]
    cases stream <;> cases other <;> simp [take, Console.limit]
  trace := trace_take c stream bytes
  flushFailure := by cases stream <;> rfl
  colored := by cases stream <;> rfl

theorem Takes.written {c c' : Console} {bytes : List (Stream × UInt8)} (h : c.Takes c' bytes)
    (stream : Stream) : c'.written stream = c.written stream ++ forStream stream bytes := by
  rw [Console.written, h.trace]
  exact forStream_append stream _ _

theorem Takes.grows {c c' : Console} {bytes : List (Stream × UInt8)} (h : c.Takes c' bytes)
    (hc : c.Unlimited) : c.Grows c' bytes where
  unlimited := by
    have hnone : ∀ stream, c'.limit stream = none := by
      intro stream
      rw [h.limit, hc.limit, Option.map_none]
    exact ⟨hnone .out, hnone .err⟩
  flushFailure := h.flushFailure
  colored := h.colored
  trace := h.trace

/-! ## Bytes offered -/

section Offered

variable {ε ε' α β : Type} {failure failure' : Stream → String → ε} {c : Console}
  {bytes bs cs : List (Stream × UInt8)} {r : α} {s : β}

/-- What comes of offering bytes to a console, with a result for the case that all are taken:
either they are, or those before the first one that finds its stream full. -/
inductive Offered (failure : Stream → String → ε) (c : Console) (bytes : List (Stream × UInt8))
    (r : α) : EStateM.Result ε Console α → Prop
  | whole {c' : Console} (h : c.Takes c' bytes) : Offered failure c bytes r (.ok r c')
  | part {c' : Console} {front back : List (Stream × UInt8)} {stream : Stream} {b : UInt8}
      {reason : String} (heq : bytes = front ++ (stream, b) :: back) (h : c.Takes c' front)
      (hfull : c'.limit stream = some ⟨0, reason⟩) :
      Offered failure c bytes r (.error (failure stream reason) c')

/-- Actions in a row offer their bytes one after the other; the second one meets the console that
the first one left. -/
theorem Offered.bind {a : Action ε α} {f : α → Action ε β} (ha : Offered failure c bs r (a c))
    (hf : ∀ c', c.Takes c' bs → Offered failure c' cs s (f r c')) :
    Offered failure c (bs ++ cs) s ((a >>= f) c) := by
  simp only [Bind.bind, EStateM.bind]
  generalize a c = result at ha
  cases ha with
  | @whole c' h =>
    have hnext := hf c' h
    dsimp only
    generalize f r c' = result' at hnext
    cases hnext with
    | whole h' => exact .whole (h.trans h')
    | part heq h' hfull => exact .part (by rw [heq, List.append_assoc]) (h.trans h') hfull
  | part heq h hfull =>
    -- nothing of the second action is offered
    exact .part (by rw [heq, List.append_assoc, List.cons_append]) h hfull

theorem Offered.adaptExcept {a : Action ε α} (ha : Offered failure c bytes r (a c)) (f : ε → ε') :
    Offered (fun stream reason => f (failure stream reason)) c bytes r
      (EStateM.adaptExcept f a c) := by
  simp only [EStateM.adaptExcept]
  generalize a c = result at ha
  cases ha with
  | whole h => exact .whole h
  | part heq h hfull => exact .part heq h hfull

/-- Only the failures of streams for which there are bytes matter. -/
theorem Offered.congr {result : EStateM.Result ε Console α}
    (h : Offered failure c bytes r result)
    (hfailure : ∀ p ∈ bytes, failure p.1 = failure' p.1) : Offered failure' c bytes r result := by
  cases h with
  | whole h => exact .whole h
  | @part c' front back stream b reason heq h hfull =>
    have hstream : failure stream = failure' stream :=
      hfailure (stream, b) (heq ▸ List.mem_append_right front List.mem_cons_self)
    rw [hstream]
    exact .part heq h hfull

/-- Without limits all is taken. -/
theorem Offered.exists_takes {result : EStateM.Result ε Console α}
    (h : Offered failure c bytes r result) (hc : c.Unlimited) :
    ∃ c', result = .ok r c' ∧ c.Takes c' bytes := by
  cases h with
  | whole h => exact ⟨_, rfl, h⟩
  | part heq h hfull =>
    rw [h.limit, hc.limit] at hfull
    cases hfull

end Offered

/-! ## Actions -/

section Emits

variable {ε ε' α β : Type} {failure failure' : Stream → String → ε} {a : Action ε α} {r : α}
  {bs : Bool → List (Stream × UInt8)}

/-- On every console the action offers some bytes, which depend on the color alone. -/
def Emits (failure : Stream → String → ε) (a : Action ε α) (r : α)
    (bytes : Bool → List (Stream × UInt8)) : Prop :=
  ∀ c : Console, Offered failure c (bytes c.colored) r (a c)

theorem emits_pure (failure : Stream → String → ε) (r : α) :
    Emits failure (pure r : Action ε α) r fun _ => [] :=
  fun c => .whole (.refl c)

/-- Actions in a row offer their bytes one after the other. -/
theorem Emits.bind {f : α → Action ε β} {s : β} {cs : Bool → List (Stream × UInt8)}
    (ha : Emits failure a r bs) (hf : Emits failure (f r) s cs) :
    Emits failure (a >>= f) s fun colored => bs colored ++ cs colored := by
  intro c
  refine (ha c).bind fun c' h => ?_
  rw [← h.colored]
  exact hf c'

/-- The same for an action that does not ask for the result of the first. -/
theorem Emits.followedBy {b : Action ε β} {s : β} {cs : Bool → List (Stream × UInt8)}
    (ha : Emits failure a r bs) (hb : Emits failure b s cs) :
    Emits failure (a >>= fun _ => b) s fun colored => bs colored ++ cs colored :=
  ha.bind hb

theorem Emits.adaptExcept (ha : Emits failure a r bs) (f : ε → ε') :
    Emits (fun stream reason => f (failure stream reason)) (EStateM.adaptExcept f a) r bs :=
  fun c => (ha c).adaptExcept f

/-- Only the failures of streams for which there are bytes matter. -/
theorem Emits.congr (ha : Emits failure a r bs)
    (hfailure : ∀ colored, ∀ p ∈ bs colored, failure p.1 = failure' p.1) :
    Emits failure' a r bs :=
  fun c => (ha c).congr (hfailure c.colored)

/-- Without limits all that is offered is written. -/
theorem Emits.writes (ha : Emits failure a r bs) : Writes a r bs := by
  intro c hc
  obtain ⟨c', hrun, htakes⟩ := (ha c).exists_takes hc
  exact ⟨c', hrun, htakes.grows hc⟩

/-- Writing offers the bytes to the stream. -/
theorem emits_write (stream : Stream) (bytes : List UInt8) :
    Emits (fun _ reason => reason) (write stream bytes) () fun _ => tag stream bytes := by
  intro c
  unfold write
  split
  · rename_i hlimit
    exact .whole (takes_take (by simp [hlimit]))
  · rename_i l hlimit
    split
    · rename_i hle
      exact .whole (takes_take (by simpa [hlimit] using hle))
    · rename_i hlt
      -- the bytes before the one without room are just as many as there is room for
      have hlt : l.room < bytes.length := Nat.lt_of_not_le hlt
      have hlength : (bytes.take l.room).length = l.room :=
        List.length_take_of_le (Nat.le_of_lt hlt)
      have htakes : c.Takes (c.take stream (bytes.take l.room)) (tag stream (bytes.take l.room)) :=
        takes_take (by simp [hlimit, hlength])
      have hsplit : bytes = bytes.take l.room ++ bytes[l.room] :: bytes.drop (l.room + 1) := by
        rw [← List.drop_eq_getElem_cons hlt, List.take_append_drop]
      refine .part ((congrArg (tag stream) hsplit).trans (tag_append ..)) htakes ?_
      rw [htakes.limit, hlimit, count_tag, if_pos rfl, hlength, Option.map_some, Nat.sub_self]

end Emits

end Console

namespace Piece

/-- Writing pieces offers their characters, in color or without. -/
theorem emits_writeAll (pieces : List Piece) :
    Console.Emits (fun _ reason => reason) (writeAll pieces) () fun colored =>
      Console.tag .err (Text.encode (pieces.flatMap (chars colored))) := by
  induction pieces with
  | nil => exact Console.emits_pure _ ()
  | cons piece rest ih =>
    -- what the first piece writes depends on the console that it meets
    intro c
    have hpiece := Console.emits_write .err (Text.encode (piece.chars c.colored))
    have hrun := hpiece.followedBy ih c
    simp only [List.flatMap_cons, Text.encode_append, Console.tag_append]
    exact hrun

end Piece

end ExprReader
