import Mathlib.Data.List.Rotate
import QuicGo.Lib.Buffer
import QuicGo.Lib.Run

/-!
# QuicGo — the ring buffer (`internal/utils/ringbuffer/ringbuffer.go`)

`RingBuffer[T]` is a FIFO queue in a slice used as a ring: the elements run from `headPos`
round to `tailPos`, and `full` tells a full ring from an empty one when the two positions
meet. `PushBack` on a full (or never allocated) ring first grows it, copying the elements to
the front of a slice twice as long. It backs the connection's queue of received packets, the
framer's round-robin stream queue and the datagram queue.

The model keeps the slice as a list and the positions as `ℕ` (the code only increments them
and resets them to `0`); `Len` computes in `int` as the code does. Go's zero value of `T` is
`default`. A panic is `none`: popping or peeking an empty buffer, and the slice indexing and
slicing, which the invariant keeps in range.

What it is for is the queue of `Queue.step`. `Refines r q` says that the ring holds the
queue `q`: the ring rotated to `headPos` is `q` followed by zero values, `tailPos` is
`|q|` slots further round, and `full` holds exactly when `q` fills the ring. Every call keeps
it with the same output as the queue's call (`step_rel`), so by lockstep simulation
(`Machine.run_rel`) every run of calls is a run of the queue (`ringBuffer_refines_queue`).
-/

namespace QuicGo

namespace Utils

/-- `ringbuffer.RingBuffer[T]`. -/
structure RingBuffer (T : Type) where
  ring : List T
  headPos : ℕ
  tailPos : ℕ
  full : Bool
  deriving DecidableEq, Repr

namespace RingBuffer

variable {T : Type} [Inhabited T]

/-- The zero `RingBuffer`, before `Init`. -/
def zero : RingBuffer T := ⟨[], 0, 0, false⟩

/-- `Init`: a ring of `size` zero values. -/
def Init (r : RingBuffer T) (size : ℕ) : RingBuffer T :=
  { r with ring := List.replicate size default }

/-- `Len`. -/
def Len (r : RingBuffer T) : ℤ :=
  if r.full then r.ring.length
  else if r.tailPos ≥ r.headPos then (r.tailPos : ℤ) - r.headPos
  else (r.tailPos : ℤ) - r.headPos + r.ring.length

/-- `Empty`. -/
def Empty (r : RingBuffer T) : Bool :=
  !r.full && r.headPos == r.tailPos

/-- `grow`: a ring twice as long (one slot for an empty one), the elements from `headPos` on
copied to its front, then those before `headPos`. -/
def grow (r : RingBuffer T) : Option (RingBuffer T) :=
  let oldRing := r.ring
  let newSize := if oldRing.length * 2 = 0 then 1 else oldRing.length * 2
  -- `oldRing[r.headPos:]` panics past the end
  if r.headPos ≤ oldRing.length then
    let ring := List.replicate newSize default
    -- both copies fit, the new ring being at least as long as the old one
    let headLen := (oldRing.drop r.headPos).length
    let ring := Buffer.write ring 0 (oldRing.drop r.headPos)
    let ring := Buffer.write ring headLen (oldRing.take r.headPos)
    some { ring, headPos := 0, tailPos := oldRing.length, full := false }
  else none

/-- `PushBack`. -/
def PushBack (r : RingBuffer T) (t : T) : Option (RingBuffer T) :=
  (if r.full || r.ring.length = 0 then r.grow else some r).bind fun r =>
    -- `r.ring[r.tailPos] = t` panics out of range
    if r.tailPos < r.ring.length then
      let ring := r.ring.set r.tailPos t
      let tailPos := if r.tailPos + 1 = ring.length then 0 else r.tailPos + 1
      some { r with ring, tailPos, full := if tailPos = r.headPos then true else r.full }
    else none

/-- `PopFront`: the element at `headPos`, whose slot is cleared. -/
def PopFront (r : RingBuffer T) : Option (RingBuffer T × T) :=
  if r.Empty then none
  else
    match r.ring[r.headPos]? with
    | none => none
    | some t =>
      let ring := r.ring.set r.headPos default
      let headPos := if r.headPos + 1 = ring.length then 0 else r.headPos + 1
      some ({ r with full := false, ring, headPos }, t)

/-- `PeekFront`. -/
def PeekFront (r : RingBuffer T) : Option T :=
  if r.Empty then none else r.ring[r.headPos]?

/-- `Clear`: every slot back to the zero value. -/
def Clear (r : RingBuffer T) : RingBuffer T :=
  { ring := r.ring.map fun _ => default, headPos := 0, tailPos := 0, full := false }

/-! ## Calls, and the queue the buffer implements -/

/-- The calls a user of the buffer makes after `Init`. -/
inductive Call (T : Type)
  | PushBack (t : T)
  | PopFront
  | PeekFront
  | Len
  | Empty
  | Clear
  deriving DecidableEq, Repr

/-- What a call returns. -/
inductive Out (T : Type)
  | unit
  | elem (t : T)
  | len (n : ℤ)
  | empty (b : Bool)
  deriving DecidableEq, Repr

/-- The buffer as a machine driven by calls. -/
def step (r : RingBuffer T) : Call T → Option (RingBuffer T × Out T)
  | .PushBack t => (r.PushBack t).map fun r => (r, .unit)
  | .PopFront => r.PopFront.map fun p => (p.1, .elem p.2)
  | .PeekFront => r.PeekFront.map fun t => (r, .elem t)
  | .Len => some (r, .len r.Len)
  | .Empty => some (r, .empty r.Empty)
  | .Clear => some (r.Clear, .unit)

/-- The FIFO queue: the same calls on a list, failing where a queue has no front. -/
def Queue.step (q : List T) : Call T → Option (List T × Out T)
  | .PushBack t => some (q ++ [t], .unit)
  | .PopFront =>
    match q with
    | [] => none
    | a :: q' => some (q', .elem a)
  | .PeekFront => q.head?.map fun a => (q, .elem a)
  | .Len => some (q, .len q.length)
  | .Empty => some (q, .empty q.isEmpty)
  | .Clear => some ([], .unit)

/-! ## The abstraction -/

/-- The ring `r` holds the queue `q`. -/
structure Refines (r : RingBuffer T) (q : List T) : Prop where
  /-- both positions are slots of the ring, or `0` when there is none -/
  bounds : r.ring = [] ∧ r.headPos = 0 ∧ r.tailPos = 0 ∨
    r.headPos < r.ring.length ∧ r.tailPos < r.ring.length
  /-- `full` tells a full ring from an empty one -/
  full_iff : r.full = true ↔ q.length = r.ring.length ∧ 0 < r.ring.length
  /-- the tail is `|q|` slots round from the head -/
  tail : r.headPos + q.length = r.tailPos ∨ r.headPos + q.length = r.tailPos + r.ring.length
  /-- from the head round, the queue and then zero values -/
  layout : r.ring.rotate r.headPos = q ++ List.replicate (r.ring.length - q.length) default

variable {r : RingBuffer T} {q : List T}

theorem Refines.length_le (h : Refines r q) : q.length ≤ r.ring.length := by
  have := congrArg List.length h.layout
  simp only [List.length_rotate, List.length_append, List.length_replicate] at this
  omega

/-- A ring of zero values holds the empty queue, as after `Init` and `Clear`. -/
theorem refines_replicate (n : ℕ) :
    Refines (⟨List.replicate n default, 0, 0, false⟩ : RingBuffer T) [] where
  bounds := by
    cases n
    · exact .inl ⟨rfl, rfl, rfl⟩
    · exact .inr ⟨by simp, by simp⟩
  full_iff := by
    simp only [Bool.false_eq_true, List.length_replicate, List.length_nil, false_iff, not_and]
    omega
  tail := .inl rfl
  layout := by simp

/-- `bounds` in lengths. -/
theorem Refines.bounds_length (h : Refines r q) :
    r.ring.length = 0 ∧ r.headPos = 0 ∧ r.tailPos = 0 ∨
      r.headPos < r.ring.length ∧ r.tailPos < r.ring.length :=
  h.bounds.imp (fun ⟨hr, hh, ht⟩ => ⟨by simp [hr], hh, ht⟩) id

theorem refines_zero : Refines (zero : RingBuffer T) [] := refines_replicate 0

theorem refines_Init (n : ℕ) : Refines ((zero : RingBuffer T).Init n) [] := refines_replicate n

theorem refines_Clear (r : RingBuffer T) : Refines r.Clear [] := by
  have hc : r.Clear = ⟨List.replicate r.ring.length default, 0, 0, false⟩ := by
    simp [RingBuffer.Clear, List.map_const']
  rw [hc]
  exact refines_replicate _

/-- `grow` on a ring whose head is in range: the ring from the head round, then zero values up
to the new size. -/
theorem grow_eq (hh : r.headPos ≤ r.ring.length) :
    r.grow = some ⟨r.ring.rotate r.headPos ++ List.replicate
      ((if r.ring.length * 2 = 0 then 1 else r.ring.length * 2) - r.ring.length) default,
      0, r.ring.length, false⟩ := by
  unfold grow
  rw [if_pos hh, List.rotate_eq_drop_append_take hh]
  dsimp only
  set N := if r.ring.length * 2 = 0 then 1 else r.ring.length * 2 with hN
  have hle : r.ring.length ≤ N := by rw [hN]; split_ifs <;> omega
  -- the first copy fills the front, the second the slots after it
  have h₁ : Buffer.write (List.replicate N (default : T)) 0 (r.ring.drop r.headPos) =
      r.ring.drop r.headPos ++ List.replicate (N - (r.ring.length - r.headPos)) default := by
    simp [Buffer.write]
  have h₂ : N - (r.ring.length - r.headPos) = r.headPos + (N - r.ring.length) := by omega
  have h₃ := Buffer.write_append (r.ring.drop r.headPos) (List.replicate r.headPos default)
    (List.replicate (N - r.ring.length) default) (r.ring.take r.headPos) (by simp; omega)
  rw [List.length_drop] at h₃
  rw [List.length_drop, h₁, h₂, List.replicate_add, ← List.append_assoc, h₃]

/-- A full ring, or one never allocated, grows into a ring with room for one more. -/
theorem Refines.grow (h : Refines r q) (hg : r.full = true ∨ r.ring.length = 0) :
    ∃ r₁, r.grow = some r₁ ∧ Refines r₁ q ∧ r₁.full = false ∧ q.length < r₁.ring.length := by
  have hle := h.length_le
  have hb := h.bounds_length
  -- the queue fills the old ring
  have hq : q.length = r.ring.length := by
    rcases hg with hf | hz
    · exact (h.full_iff.mp hf).1
    · omega
  have hrot : r.ring.rotate r.headPos = q := by
    rw [h.layout, hq, Nat.sub_self, List.replicate_zero, List.append_nil]
  have hgrow := grow_eq (r := r) (by omega)
  generalize hN : (if r.ring.length * 2 = 0 then 1 else r.ring.length * 2) = N at hgrow
  have hlt : r.ring.length < N := by
    rw [← hN]
    split_ifs <;> omega
  have hlen : (r.ring.rotate r.headPos ++ List.replicate (N - r.ring.length) default).length = N := by
    simp only [List.length_append, List.length_rotate, List.length_replicate]
    omega
  refine ⟨_, hgrow, ⟨.inr ⟨?_, ?_⟩, ?_, .inl ?_, ?_⟩, rfl, ?_⟩ <;> dsimp only
  · omega
  · omega
  · rw [hlen]
    simp only [Bool.false_eq_true, false_iff, not_and]
    omega
  · omega
  · rw [List.rotate_zero, hlen, hrot, hq]
  · omega

theorem Refines.PushBack (h : Refines r q) (t : T) :
    ∃ r', r.PushBack t = some r' ∧ Refines r' (q ++ [t]) := by
  -- after the growth the ring has room for one more
  obtain ⟨r₁, hr₁, h₁, hf₁, hlt₁⟩ : ∃ r₁, (if r.full || r.ring.length = 0 then r.grow else some r) =
      some r₁ ∧ Refines r₁ q ∧ r₁.full = false ∧ q.length < r₁.ring.length := by
    split_ifs with hg
    · exact h.grow (by simpa using hg)
    · simp only [Bool.or_eq_true, decide_eq_true_eq, not_or] at hg
      have hfull := h.full_iff
      have hle := h.length_le
      simp only [hg.1, Bool.false_eq_true, false_iff, not_and] at hfull
      exact ⟨r, rfl, h, by simpa using hg.1, by omega⟩
  have hb := h₁.bounds_length
  have htail := h₁.tail
  have htl : r₁.tailPos < r₁.ring.length := by omega
  unfold RingBuffer.PushBack
  rw [hr₁, Option.bind_some, if_pos htl]
  refine ⟨_, rfl, .inr ⟨?_, ?_⟩, ?_, ?_, ?_⟩
  · simp only [List.length_set]
    omega
  · simp only [List.length_set]
    split_ifs <;> omega
  · -- the ring becomes full when the tail comes round to the head
    simp only [List.length_set, List.length_append, List.length_singleton, hf₁]
    split_ifs <;> simp <;> omega
  · simp only [List.length_set, List.length_append, List.length_singleton]
    split_ifs <;> omega
  · -- the new element goes to slot `|q|` of the rotation
    have hset : (r₁.ring.set r₁.tailPos t).rotate r₁.headPos =
        (r₁.ring.rotate r₁.headPos).set q.length t :=
      Buffer.rotate_set t htl (by omega) hlt₁ (by omega)
    have hr : r₁.ring.length - q.length = r₁.ring.length - (q ++ [t]).length + 1 := by
      simp only [List.length_append, List.length_singleton]
      omega
    simp only [List.length_set]
    rw [hset, h₁.layout, hr, List.set_append_right _ _ (Nat.le_refl _), Nat.sub_self,
      List.replicate_succ]
    simp

/-- Slot `k` round from the head is the `k`-th element of the queue, or a zero value. -/
theorem Refines.getElem (h : Refines r q) {k : ℕ} (hk : k < r.ring.length) :
    r.ring[(r.headPos + k) % r.ring.length]? =
      some (if hq : k < q.length then q[k] else default) := by
  have hl : k < (r.ring.rotate r.headPos).length := by simpa using hk
  have e := List.getElem_rotate r.ring r.headPos k hl
  rw [Nat.add_comm, List.getElem?_eq_getElem (Nat.mod_lt _ (by omega)), ← e]
  simp only [h.layout, Option.some.injEq]
  split_ifs with hq
  · exact List.getElem_append_left hq
  · rw [List.getElem_append_right (by omega), List.getElem_replicate]

/-! ## Each call against the queue -/

theorem Refines.Len (h : Refines r q) : r.Len = q.length := by
  have hle := h.length_le
  have hfull := h.full_iff
  have htail := h.tail
  have hb := h.bounds_length
  unfold RingBuffer.Len
  -- a full ring holds `len(ring)` elements; otherwise the tail is `|q|` slots on, wrapped or not
  split_ifs with hf hge
  · rw [(hfull.mp hf).1]
  · simp only [hf, Bool.false_eq_true, false_iff, not_and] at hfull
    omega
  · simp only [hf, Bool.false_eq_true, false_iff, not_and] at hfull
    omega

theorem Refines.Empty (h : Refines r q) : r.Empty = true ↔ q = [] := by
  have hle := h.length_le
  have hfull := h.full_iff
  have htail := h.tail
  have hb := h.bounds_length
  rw [← List.length_eq_zero_iff]
  unfold RingBuffer.Empty
  -- the two positions meet on an empty ring and on a full one; `full` tells them apart
  cases hf : r.full
  · simp only [hf, Bool.false_eq_true, false_iff, not_and] at hfull
    simp only [Bool.not_false, Bool.true_and, beq_iff_eq]
    omega
  · simp only [hf, true_iff] at hfull
    simp only [Bool.not_true, Bool.false_and, Bool.false_eq_true, false_iff]
    omega

/-- On a non-empty queue the head slot holds its front. -/
theorem Refines.getElem_head (h : Refines r q) {a : T} {q' : List T} (hq : q = a :: q') :
    r.ring[r.headPos]? = some a := by
  have hpos : 0 < r.ring.length := by
    have := h.length_le
    rw [hq, List.length_cons] at this
    omega
  have := h.getElem hpos
  rw [Nat.add_zero, Nat.mod_eq_of_lt (h.bounds.elim (fun h' => by omega) (·.1))] at this
  simpa [hq] using this

theorem Refines.PeekFront (h : Refines r q) : r.PeekFront = q.head? := by
  unfold RingBuffer.PeekFront
  cases q with
  | nil => rw [if_pos (h.Empty.mpr rfl)]; rfl
  | cons a q' =>
    rw [if_neg (by rw [h.Empty]; simp), h.getElem_head rfl]
    rfl

/-- `PopFront` of a non-empty queue: the front, and the ring of the rest. -/
theorem Refines.PopFront (h : Refines r q) {a : T} {q' : List T} (hq : q = a :: q') :
    ∃ r', r.PopFront = some (r', a) ∧ Refines r' q' := by
  have hne : r.Empty = false := by
    cases he : r.Empty
    · rfl
    · exact absurd ((h.Empty.mp he).symm.trans hq) (by simp)
  have hle := h.length_le
  have hlen : q.length = q'.length + 1 := by simp [hq]
  have hb := h.bounds_length
  have hpos : r.headPos < r.ring.length := by omega
  have htail := h.tail
  refine ⟨_, by rw [RingBuffer.PopFront, if_neg (by simp [hne]), h.getElem_head hq], ?_⟩
  refine ⟨.inr ⟨?_, ?_⟩, ?_, ?_, ?_⟩
  · -- the head moves one slot on
    simp only [List.length_set]
    split_ifs <;> omega
  · simp only [List.length_set]
    omega
  · simp only [List.length_set, Bool.false_eq_true, false_iff, not_and]
    omega
  · simp only [List.length_set]
    split_ifs <;> omega
  · -- the cleared head slot goes round to the end of the rotation
    have hset : (r.ring.set r.headPos default).rotate r.headPos =
        (r.ring.rotate r.headPos).set 0 default :=
      Buffer.rotate_set default hpos hpos (by omega) (.inl (Nat.zero_add _))
    dsimp only
    rw [Buffer.rotate_advance, ← List.rotate_rotate, hset, h.layout, hq]
    have hr : r.ring.length - q'.length = r.ring.length - (a :: q').length + 1 := by
      simp only [List.length_cons]
      omega
    rw [List.length_set, hr, List.replicate_succ']
    simp [List.rotate_cons_succ]

theorem Refines.Empty_eq (h : Refines r q) : r.Empty = q.isEmpty :=
  Bool.eq_iff_iff.mpr (h.Empty.trans List.isEmpty_iff.symm)

theorem Refines.PopFront_none (h : Refines r ([] : List T)) : r.PopFront = none := by
  rw [RingBuffer.PopFront, if_pos (h.Empty.mpr rfl)]

theorem Refines.PopFront_front (h : Refines r q) : r.PopFront.map Prod.snd = q.head? := by
  cases q with
  | nil => rw [h.PopFront_none]; rfl
  | cons a q' =>
    obtain ⟨r', hr', -⟩ := h.PopFront rfl
    rw [hr']
    rfl

/-- **One call.** From a ring that holds `q`, a call panics exactly where the queue's call
fails, and otherwise returns what the queue's returns and leaves a ring that holds the
queue's. -/
theorem step_rel (h : Refines r q) (c : Call T) :
    Option.Rel (fun x y => x.2 = y.2 ∧ Refines x.1 y.1) (step r c) (Queue.step q c) := by
  cases c with
  | PushBack t =>
    obtain ⟨r', hr', h'⟩ := h.PushBack t
    rw [step, Queue.step, hr', Option.map_some]
    exact .some ⟨rfl, h'⟩
  | PopFront =>
    cases q with
    | nil =>
      rw [step, Queue.step, h.PopFront_none, Option.map_none]
      exact .none
    | cons a q' =>
      obtain ⟨r', hr', h'⟩ := h.PopFront rfl
      rw [step, Queue.step, hr', Option.map_some]
      exact .some ⟨rfl, h'⟩
  | PeekFront =>
    rw [step, Queue.step, h.PeekFront]
    cases q with
    | nil => exact .none
    | cons a q' => exact .some ⟨rfl, h⟩
  | Len => exact .some ⟨by rw [h.Len], h⟩
  | Empty => exact .some ⟨by rw [h.Empty_eq], h⟩
  | Clear => exact .some ⟨rfl, refines_Clear r⟩

/-- **The ring buffer is a FIFO queue.** From the zero buffer, or one just `Init`ed, every
run of calls panics exactly where the same calls on a list fail (a pop or a peek of an empty
queue), and otherwise returns the same outputs and ends in a ring that holds the list: `Len`
is its length, `Empty` says whether it is empty, `PeekFront` and `PopFront` give its front,
the positions are slots of the ring (both `0` when there is none), `full` says that the list
fills the ring, and the slots from `headPos` round hold the list, then zero values. -/
theorem ringBuffer_refines_queue (r₀ : RingBuffer T) (h₀ : r₀ = zero ∨ ∃ n, r₀ = zero.Init n)
    (calls : List (Call T)) :
    Option.Rel (fun x y => x.2 = y.2 ∧ Refines x.1 y.1 ∧
        x.1.Len = y.1.length ∧ (x.1.Empty = true ↔ y.1 = []) ∧
        x.1.PeekFront = y.1.head? ∧ x.1.PopFront.map Prod.snd = y.1.head? ∧
        (x.1.ring = [] ∧ x.1.headPos = 0 ∧ x.1.tailPos = 0 ∨
          x.1.headPos < x.1.ring.length ∧ x.1.tailPos < x.1.ring.length) ∧
        (x.1.full = true ↔ y.1.length = x.1.ring.length ∧ 0 < x.1.ring.length) ∧
        ∀ k < x.1.ring.length, x.1.ring[(x.1.headPos + k) % x.1.ring.length]? =
          some (if hk : k < y.1.length then y.1[k] else default))
      (Machine.run step r₀ calls) (Machine.run Queue.step [] calls) := by
  have h₀' : Refines r₀ [] := by
    rcases h₀ with rfl | ⟨n, rfl⟩
    · exact refines_zero
    · exact refines_Init n
  -- lockstep along the run, then what the abstraction gives of the last states
  have hrel := Machine.run_rel Refines (fun _ _ c h => step_rel h c) h₀' calls
  generalize Machine.run step r₀ calls = x at hrel ⊢
  generalize Machine.run Queue.step [] calls = y at hrel ⊢
  cases hrel with
  | none => exact .none
  | some hxy =>
    obtain ⟨hout, hR⟩ := hxy
    exact .some ⟨hout, hR, hR.Len, hR.Empty, hR.PeekFront, hR.PopFront_front, hR.bounds,
      hR.full_iff, fun k hk => hR.getElem hk⟩

-- the first push grows the ring to one slot and the second to two; the pop returns the first
example : (Machine.run step (zero : RingBuffer ℕ) [.PushBack 1, .PushBack 2, .PopFront, .Len]) =
    some (⟨[0, 2], 1, 0, false⟩, [.unit, .unit, .elem 1, .len 1]) := by
  decide

/-- Two pushes and a pop from the zero buffer of numbers. -/
theorem ringBuffer_refines_queue_pushPop :
    ((zero : RingBuffer ℕ) = zero ∨ ∃ n, (zero : RingBuffer ℕ) = zero.Init n) ∧
      Option.Rel (fun x y => x.2 = y.2 ∧ Refines x.1 y.1 ∧
        x.1.Len = y.1.length ∧ (x.1.Empty = true ↔ y.1 = []) ∧
        x.1.PeekFront = y.1.head? ∧ x.1.PopFront.map Prod.snd = y.1.head? ∧
        (x.1.ring = [] ∧ x.1.headPos = 0 ∧ x.1.tailPos = 0 ∨
          x.1.headPos < x.1.ring.length ∧ x.1.tailPos < x.1.ring.length) ∧
        (x.1.full = true ↔ y.1.length = x.1.ring.length ∧ 0 < x.1.ring.length) ∧
        ∀ k < x.1.ring.length, x.1.ring[(x.1.headPos + k) % x.1.ring.length]? =
          some (if hk : k < y.1.length then y.1[k] else default))
      (Machine.run step zero [.PushBack 1, .PushBack 2, .PopFront])
      (Machine.run Queue.step [] [.PushBack 1, .PushBack 2, .PopFront]) :=
  ⟨.inl rfl, ringBuffer_refines_queue _ (.inl rfl) _⟩

end RingBuffer

end Utils

end QuicGo
