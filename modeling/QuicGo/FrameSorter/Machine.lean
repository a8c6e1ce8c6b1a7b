import QuicGo.FrameSorter.Push
import QuicGo.Lib.Run

/-!
# QuicGo — the frame sorter driven by calls

A receive stream drives its frame sorter with two calls, `Push` and `Pop`. This module makes
the sorter a machine in the sense of `QuicGo.Lib.Run`: a step function from a state and a
call to the next state and the call's output, `none` when the code panics. Every whole-run
result about the sorter is then a run induction over `step`.

The bricks:

* `step_eq_some` — the inversion of one step: a `Push` or a `Pop`, with its result;
* `Inv.of_Push`, `Inv.of_step` — the invariant is kept by every call that succeeds (`Push` returns
  `nil`); a frame that reaches past `MaxByteCount` is empty or makes `push` panic;
* `inv_of_reachable` — so it holds in every state reachable that way from `newFrameSorter`,
  and there `Pop` never panics.
-/

namespace QuicGo

namespace FrameSorter

variable {Cb : Type}

/-- A call on a frame sorter: `Push(data, offset, doneCb)` or `Pop()`. -/
inductive Call (Cb : Type)
  | push (data : List UInt8) (offset : ℕ) (doneCb : Option Cb)
  | pop

/-- What a call returns: the error of `Push` with the callbacks the sorter called during it,
or the offset, data and callback that `Pop` hands out. -/
inductive Output (Cb : Type)
  | push (err : Option PushError) (released : List Cb)
  | pop (offset : ℕ) (data : Option (List UInt8)) (doneCb : Option Cb)

/-- One call on the sorter. -/
def step (s : FrameSorter Cb) : Call Cb → Option (FrameSorter Cb × Output Cb)
  | .push data offset doneCb =>
    (s.Push data offset doneCb).map fun r => (r.sorter, .push r.err r.released)
  | .pop => (Pop s).map fun r => (r.sorter, .pop r.offset r.data r.doneCb)

/-- The calls a receive stream makes: every frame ends at or before `MaxByteCount`. -/
def Call.InRange : Call Cb → Prop
  | .push data offset _ => offset + data.length ≤ MaxByteCount
  | .pop => True

instance : DecidablePred (@Call.InRange Cb) := fun c =>
  match c with
  | .push data offset _ => inferInstanceAs (Decidable (offset + data.length ≤ MaxByteCount))
  | .pop => inferInstanceAs (Decidable True)

/-- The outputs of calls that succeed: `Push` returns `nil`. -/
def Output.Ok : Output Cb → Prop
  | .push err _ => err = none
  | .pop .. => True

instance : DecidablePred (@Output.Ok Cb) := fun o =>
  match o with
  | .push err _ => inferInstanceAs (Decidable (err = none))
  | .pop .. => inferInstanceAs (Decidable True)

/-! ## One step -/

/-- What `Push` can do: return what `push` returns, except that a duplicate is no error and
releases the frame's buffer. -/
theorem Push_eq_some {s : FrameSorter Cb} {data : List UInt8} {offset : ℕ}
    {doneCb : Option Cb} {r : PushResult Cb} (h : s.Push data offset doneCb = some r) :
    ∃ r₀, push s data offset doneCb = some r₀ ∧
      r = if r₀.err = some .duplicateStreamData then
        { r₀ with err := none, released := r₀.released ++ doneCb.toList } else r₀ := by
  unfold FrameSorter.Push at h
  obtain ⟨r₀, h₀, h⟩ := Option.bind_eq_some_iff.mp h
  refine ⟨r₀, h₀, ?_⟩
  split at h
  · rename_i hdup
    rw [if_pos hdup]
    exact (Option.some.inj h).symm
  · rename_i hdup
    rw [if_neg hdup]
    exact (Option.some.inj h).symm

/-- `store` reports no duplicate. -/
theorem store_err_ne_duplicate (s : FrameSorter Cb) (q₁ : FrameQueue Cb)
    (gaps : List ByteInterval) (fr : NewFrame) (doneCb : Option Cb) (released : List Cb) :
    (s.store q₁ gaps fr doneCb released).err ≠ some .duplicateStreamData := by
  unfold FrameSorter.store
  dsimp only
  split <;> simp

@[simp] theorem store_sorter_gaps (s : FrameSorter Cb) (q₁ : FrameQueue Cb)
    (gaps : List ByteInterval) (fr : NewFrame) (doneCb : Option Cb) (released : List Cb) :
    (s.store q₁ gaps fr doneCb released).sorter.gaps = gaps := by
  unfold FrameSorter.store
  dsimp only
  split <;> rfl

/-- A `store` without an error inserts the frame. -/
theorem store_sorter_of_err {s : FrameSorter Cb} {q₁ : FrameQueue Cb}
    {gaps : List ByteInterval} {fr : NewFrame} {doneCb : Option Cb} {released : List Cb}
    (h : (s.store q₁ gaps fr doneCb released).err = none) :
    ∃ cb, (s.store q₁ gaps fr doneCb released).sorter =
      { s with queue := q₁.insert fr.start ⟨fr.data, cb⟩, gaps := gaps } := by
  unfold FrameSorter.store at h ⊢
  dsimp only at h ⊢
  by_cases hg : gaps.length > MaxStreamFrameSorterGaps
  · rw [if_pos hg] at h
    cases h
  · rw [if_neg hg]
    exact ⟨_, rfl⟩

/-- A `push` that stores the frame is what `Push` returns. -/
theorem Push_eq_store {s : FrameSorter Cb} {data : List UInt8} {offset : ℕ}
    {doneCb : Option Cb} {q₁ : FrameQueue Cb} {gaps : List ByteInterval} {fr : NewFrame}
    {released : List Cb} (h : push s data offset doneCb = some (s.store q₁ gaps fr doneCb released)) :
    s.Push data offset doneCb = some (s.store q₁ gaps fr doneCb released) := by
  simp only [FrameSorter.Push, h, Option.bind_some, bind, pure,
    if_neg (store_err_ne_duplicate s q₁ gaps fr doneCb released)]

/-- The inversion of one step. -/
theorem step_eq_some {s s' : FrameSorter Cb} {c : Call Cb} {o : Output Cb}
    (h : step s c = some (s', o)) :
    (∃ data offset doneCb r, c = .push data offset doneCb ∧
      s.Push data offset doneCb = some r ∧ s' = r.sorter ∧ o = .push r.err r.released) ∨
    (∃ r, c = .pop ∧ Pop s = some r ∧ s' = r.sorter ∧
      o = .pop r.offset r.data r.doneCb) := by
  cases c with
  | push data offset doneCb =>
    obtain ⟨r, hr, h⟩ := Option.map_eq_some_iff.mp h
    simp only [Prod.mk.injEq] at h
    exact .inl ⟨data, offset, doneCb, r, rfl, hr, h.1.symm, h.2.symm⟩
  | pop =>
    obtain ⟨r, hr, h⟩ := Option.map_eq_some_iff.mp h
    simp only [Prod.mk.injEq] at h
    exact .inr ⟨r, rfl, hr, h.1.symm, h.2.symm⟩

section Inv

variable {s : FrameSorter Cb} (hs : Inv s)
include hs

/-- **What a `Push` that returns `nil` does**: it leaves the sorter as it was, all of the frame
received already, or it stores a slice of the frame with the effect `PushStores`. -/
theorem Inv.Push_cases {data : List UInt8} {offset : ℕ} {doneCb : Option Cb}
    (hmax : offset + data.length ≤ MaxByteCount) {r : PushResult Cb}
    (h : s.Push data offset doneCb = some r) (herr : r.err = none) :
    (r.sorter = s ∧ ∀ p, offset ≤ p → p < offset + data.length → ¬InGap s.gaps p) ∨
      ∃ q₁ gaps fr released cb, PushStores s data offset q₁ gaps fr released ∧
        r.sorter = { s with queue := q₁.insert fr.start ⟨fr.data, cb⟩, gaps := gaps } := by
  obtain ⟨r₀, h₀, rfl⟩ := Push_eq_some h
  rcases hs.push_spec hmax h₀ with ⟨rfl, hdup⟩ | ⟨q₁, gaps, fr, rel, hst, rfl⟩
  · exact .inl ⟨rfl, hdup⟩
  · rw [if_neg (store_err_ne_duplicate s q₁ gaps fr doneCb rel)] at herr ⊢
    obtain ⟨cb, hcb⟩ := store_sorter_of_err herr
    exact .inr ⟨q₁, gaps, fr, rel, cb, hst, hcb⟩

/-- A `Push` that returns `nil` leaves the read position where it was. -/
theorem Inv.Push_readPos {data : List UInt8} {offset : ℕ} {doneCb : Option Cb}
    (hmax : offset + data.length ≤ MaxByteCount) {r : PushResult Cb}
    (h : s.Push data offset doneCb = some r) (herr : r.err = none) :
    r.sorter.readPos = s.readPos := by
  rcases hs.Push_cases hmax h herr with ⟨hr, -⟩ | ⟨q₁, gaps, fr, rel, cb, -, hr⟩ <;> rw [hr]

/-- **`Push` keeps the invariant** when it returns `nil`: a duplicate leaves the sorter as it
was, and a stored frame keeps it by `Inv.insert`. -/
theorem Inv.of_Push {data : List UInt8} {offset : ℕ} {doneCb : Option Cb}
    {r : PushResult Cb} (h : s.Push data offset doneCb = some r) (herr : r.err = none) :
    Inv r.sorter := by
  by_cases hmax : offset + data.length ≤ MaxByteCount
  · rcases hs.Push_cases hmax h herr with ⟨hr, -⟩ | ⟨q₁, gaps, fr, rel, cb, hst, hr⟩
    · rw [hr]
      exact hs
    · rw [hr]
      exact hs.insert hst.stores _ hst.slice.length_data _
  · -- a frame past `MaxByteCount` is empty, a duplicate, or makes `push` panic
    obtain ⟨r₀, h₀, rfl⟩ := Push_eq_some h
    by_cases hlen : data.length = 0
    · simp only [FrameSorter.push, hlen, if_true, pure, Option.some.injEq] at h₀
      subst h₀
      exact hs
    · rw [hs.push_eq_none hlen (by omega)] at h₀
      cases h₀

/-- **One call that succeeds keeps the invariant.** -/
theorem Inv.of_step {c : Call Cb} {s' : FrameSorter Cb} {o : Output Cb} (ho : o.Ok)
    (h : step s c = some (s', o)) : Inv s' := by
  rcases step_eq_some h with ⟨data, offset, doneCb, r, rfl, hr, rfl, rfl⟩ | ⟨r, rfl, hr, rfl, -⟩
  · exact hs.of_Push hr ho
  · exact hs.of_pop hr

end Inv

/-! ## Every reachable state -/

/-- **The representation invariant holds in every reachable state**, and there `Pop` does
not panic: from `newFrameSorter`, by `Pop` calls and by `Push` calls of frames that end at or
before `MaxByteCount` and return `nil`. -/
theorem inv_of_reachable {s : FrameSorter Cb}
    (h : Machine.Reachable step newFrameSorter Call.InRange Output.Ok s) :
    Inv s ∧ (Pop s).isSome := by
  have hs : Inv s := Machine.Reachable.induction Inv inv_newFrameSorter
    (fun _ _ _ _ hs _ ho hstep => hs.of_step ho hstep) h
  exact ⟨hs, hs.pop_isSome⟩

/-- Pushing two bytes at offset `0` and popping them leaves a sorter that holds nothing,
reads at `2`, and has the one gap `[2, MaxByteCount)`. -/
theorem run_push_pop :
    Machine.run step (newFrameSorter : FrameSorter Unit) [.push [7, 8] 0 (some ()), .pop] =
      some (⟨(AList.singleton 0 ⟨[7, 8], some ()⟩).erase 0, 2, [⟨2, MaxByteCount⟩]⟩,
        [.push none [], .pop 0 (some [7, 8]) (some ())]) := by
  have h : replaceLoop 2 (∅ : FrameQueue Unit) 0 false = .done ∅ 0 false false [] :=
    replaceLoop_of_lookup_none rfl
  simp [Machine.run, step, FrameSorter.Push, push, locate, newFrameSorter, findStartGap,
    findEndGap, findEndGapFrom, h, cutFront, cutBack, FrameSorter.store, editGaps, gapEdit,
    Pop, AList.lookup, AList.singleton_entries, MaxByteCount, MaxStreamFrameSorterGaps]

theorem inv_after_push_pop :
    Inv (⟨(AList.singleton 0 ⟨[7, 8], some ()⟩).erase 0, 2, [⟨2, MaxByteCount⟩]⟩ :
      FrameSorter Unit) ∧
    (Pop (⟨(AList.singleton 0 ⟨[7, 8], some ()⟩).erase 0, 2, [⟨2, MaxByteCount⟩]⟩ :
      FrameSorter Unit)).isSome :=
  inv_of_reachable ⟨_, _, run_push_pop, by decide, by decide⟩

end FrameSorter

end QuicGo
