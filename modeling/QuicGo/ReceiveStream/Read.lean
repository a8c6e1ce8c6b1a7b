import QuicGo.ReceiveStream.Cursor

/-!
# QuicGo — `Read` hands out the stream in order

The loop of `readImpl` is a sequence of iterations, each of which takes the next frame if the
current one is used up, then returns, or copies and then returns at the end of the stream or
goes on. `Cursor.readLoop` follows it by induction on the fuel: every piece keeps the cursor
(`Cursor.dequeue`, `Cursor.copy`, `Cursor.eof`), so the bytes copied extend what was read, and
the loop returns `io.EOF` only once all of `S` was read.

`Cursor.readLoop_progress` is the other direction: when every offset of `S` was delivered and
the final offset is known, a `Read` into a buffer of at least one byte returns a byte or
`io.EOF`, and never waits.
-/

namespace QuicGo

namespace ReceiveStream

open FlowControl FrameSorter

variable {Cb : Type} {S : List UInt8} {delivered : ℕ → Prop} {read : List UInt8}
  {s s₁ s₂ s' : ReceiveStream Cb}

/-- The fields the loop of `readImpl` leaves alone. -/
structure LoopKeeps (s s' : ReceiveStream Cb) : Prop where
  finalOffset : s'.finalOffset = s.finalOffset
  completed : s'.completed = s.completed
  cancelledLocally : s'.cancelledLocally = s.cancelledLocally
  cancelledRemotely : s'.cancelledRemotely = s.cancelledRemotely
  highestReceived : s'.flowController.highestReceived = s.flowController.highestReceived
  receivedFinalOffset :
    s'.flowController.receivedFinalOffset = s.flowController.receivedFinalOffset

theorem LoopKeeps.refl (s : ReceiveStream Cb) : LoopKeeps s s :=
  ⟨rfl, rfl, rfl, rfl, rfl, rfl⟩

theorem LoopKeeps.trans (h₁ : LoopKeeps s s₁) (h₂ : LoopKeeps s₁ s₂) : LoopKeeps s s₂ :=
  ⟨h₂.1.trans h₁.1, h₂.2.trans h₁.2, h₂.3.trans h₁.3, h₂.4.trans h₁.4, h₂.5.trans h₁.5,
    h₂.6.trans h₁.6⟩

/-- The copy leaves the fields the loop leaves alone. -/
theorem loopKeeps_copyCurrentFrame (s : ReceiveStream Cb) (room : ℕ) :
    LoopKeeps s (s.copyCurrentFrame room).1 := by
  unfold copyCurrentFrame
  dsimp only
  split <;> exact ⟨rfl, rfl, rfl, rfl, rfl, rfl⟩

/-- The rest of a used-up frame is empty. -/
theorem remainder_eq_nil_of_frameUsedUp (h : s.frameUsedUp = true) : s.remainder = [] := by
  unfold frameUsedUp at h
  unfold remainder
  cases hf : s.currentFrame with
  | none => simp
  | some d =>
    rw [hf] at h
    simpa using h

/-- **The first step of an iteration keeps the cursor**: it takes the next frame if the
current one is used up, and a missing frame then starts at `0`. -/
theorem Cursor.prepare (h : Cursor S delivered read s) (hN : S.length ≤ MaxByteCount)
    (hfin : s.finalOffset = MaxByteCount ∨ s.finalOffset = S.length) {released : List Cb}
    (hp : (if s.frameUsedUp then s.dequeueNextFrame else some (s, [])) = some (s₁, released)) :
    Cursor S delivered read s₁ ∧ LoopKeeps s s₁ ∧ s₁.flowController = s.flowController ∧
      s₁.errorRead = s.errorRead ∧ (s₁.currentFrame = none → s₁.readPosInFrame = 0) := by
  split at hp
  · rename_i hu
    have hc := h.dequeue hN hfin (remainder_eq_nil_of_frameUsedUp hu) hp
    obtain ⟨r, -, -, rfl⟩ := dequeueNextFrame_eq_some s hp
    exact ⟨hc, ⟨rfl, rfl, rfl, rfl, rfl, rfl⟩, rfl, rfl, fun _ => rfl⟩
  · rename_i hu
    cases hp
    refine ⟨h, .refl s, rfl, rfl, fun hf => ?_⟩
    -- a missing frame is used up, so this branch has one
    simp [frameUsedUp, hf] at hu

/-- What the loop of `readImpl` leaves, started from a cursor that has read `read` and then
the bytes already in the buffer. -/
structure LoopPost (S : List UInt8) (delivered : ℕ → Prop) (read : List UInt8)
    (s s' : ReceiveStream Cb) (acc' : ReadAcc Cb) (e : ReadEnd) : Prop where
  cursor : Cursor S delivered (read ++ acc'.data) s'
  bytesRead : s'.flowController.bytesRead = (read ++ acc'.data).length
  keeps : LoopKeeps s s'
  eof : e = .eof → read ++ acc'.data = S ∧ s'.currentFrameIsLast = true ∧
    s'.currentFrame = none ∧ s'.errorRead = true
  errorRead : e ≠ .eof → s'.errorRead = s.errorRead

/-- An iteration that returns before the copy leaves the state of its first step. -/
theorem LoopPost.of_prepare {acc : ReadAcc Cb} {e : ReadEnd}
    (h : Cursor S delivered (read ++ acc.data) s₁)
    (hbr : s₁.flowController.bytesRead = (read ++ acc.data).length) (hk : LoopKeeps s s₁)
    (her : s₁.errorRead = s.errorRead) (he : e ≠ .eof) (rel : List Cb) :
    LoopPost S delivered read s s₁ { acc with released := acc.released ++ rel } e :=
  ⟨h, hbr, hk, fun h' => absurd h' he, fun _ => her⟩

/-- **The loop of `readImpl` keeps the cursor**, counts every byte it copies at the flow
controller, and returns `io.EOF` only when all of `S` was read. By induction on the fuel,
one iteration at a time. -/
theorem Cursor.readLoop (hN : S.length ≤ MaxByteCount) (n : ℕ) :
    ∀ (fuel : ℕ) {s s' : ReceiveStream Cb} {acc acc' : ReadAcc Cb} {e : ReadEnd},
      Cursor S delivered (read ++ acc.data) s →
      s.flowController.bytesRead = (read ++ acc.data).length →
      s.cancelledRemotely = false →
      (s.finalOffset = MaxByteCount ∨ s.finalOffset = S.length) →
      ReceiveStream.readLoop n fuel s acc = some (s', acc', e) →
      LoopPost S delivered read s s' acc' e := by
  intro fuel
  induction fuel with
  | zero =>
    intro s s' acc acc' e _ _ _ _ hl
    simp [ReceiveStream.readLoop] at hl
  | succ fuel ih =>
    intro s s' acc acc' e h hbr hcr hfin hl
    rw [ReceiveStream.readLoop] at hl
    by_cases hlt : acc.data.length < n
    · rw [if_pos hlt] at hl
      cases hp : (if s.frameUsedUp then s.dequeueNextFrame else some (s, [])) with
      | none =>
        rw [hp] at hl
        cases hl
      | some r =>
        obtain ⟨s₁, released⟩ := r
        rw [hp] at hl
        obtain ⟨h₁, hk₁, hfc₁, her₁, -⟩ := h.prepare hN hfin hp
        have hbr₁ : s₁.flowController.bytesRead = (read ++ acc.data).length := by rw [hfc₁, hbr]
        have hcr₁ : s₁.cancelledRemotely = false := hk₁.cancelledRemotely.trans hcr
        dsimp only at hl
        split_ifs at hl with hok hblk hbug hend
        · cases hl
          exact .of_prepare h₁ hbr₁ hk₁ her₁ (by simp) released
        · cases hl
          exact .of_prepare h₁ hbr₁ hk₁ her₁ (by simp) released
        · cases hl
          exact .of_prepare h₁ hbr₁ hk₁ her₁ (by simp) released
        · -- the last frame is used up: the loop returns `io.EOF`
          cases hl
          obtain ⟨h₂, hbr₂⟩ := h₁.copy hbr₁ hcr₁ (n - acc.data.length)
          rw [List.append_assoc] at h₂ hbr₂
          have hk₂ := hk₁.trans (loopKeeps_copyCurrentFrame s₁ (n - acc.data.length))
          simp only [Bool.and_eq_true, decide_eq_true_eq] at hend
          have hrem := remainder_eq_nil_of_frameUsedUp (s := (s₁.copyCurrentFrame
            (n - acc.data.length)).1) (by simp [frameUsedUp, hend.1])
          refine ⟨h₂.eof hrem, hbr₂, ⟨hk₂.1, hk₂.2, hk₂.3, hk₂.4, hk₂.5, hk₂.6⟩,
            fun _ => ⟨h₂.read_eq_of_last hend.2 hrem, hend.2, rfl, rfl⟩, fun h' => absurd rfl h'⟩
        · -- the loop goes on from the state after the copy
          obtain ⟨h₂, hbr₂⟩ := h₁.copy hbr₁ hcr₁ (n - acc.data.length)
          have hk₂ := hk₁.trans (loopKeeps_copyCurrentFrame s₁ (n - acc.data.length))
          rw [List.append_assoc] at h₂ hbr₂
          have hpost := ih h₂ hbr₂ (hk₂.cancelledRemotely.trans hcr) (hk₂.finalOffset ▸ hfin) hl
          refine ⟨hpost.cursor, hpost.bytesRead, hk₂.trans hpost.keeps, hpost.eof,
            fun he => (hpost.errorRead he).trans ?_⟩
          rw [copyCurrentFrame_fst]
          exact her₁
    · rw [if_neg hlt] at hl
      cases hl
      exact ⟨h, hbr, .refl s, fun h' => absurd h' (by simp), fun _ => rfl⟩

/-! ## `readImpl` and `Read` -/

/-- What `readImpl` does: `io.EOF` once the last frame was read, the cancellation error on a
cancelled stream, and the loop otherwise. -/
theorem readImpl_eq_some {n : ℕ} {acc : ReadAcc Cb} {e : ReadEnd}
    (h : s.readImpl n = some (s', acc, e)) :
    (s.currentFrameIsLast = true ∧ s.currentFrame = none ∧ s' = { s with errorRead := true } ∧
      acc = .empty ∧ e = .eof) ∨
    (¬(s.currentFrameIsLast = true ∧ s.currentFrame = none) ∧
      (s.cancelledRemotely = true ∨ s.cancelledLocally = true) ∧
      s' = { s with errorRead := true } ∧ acc = .empty ∧ e = .cancelled s.cancelErr) ∨
    (¬(s.currentFrameIsLast = true ∧ s.currentFrame = none) ∧ s.cancelledRemotely = false ∧
      s.cancelledLocally = false ∧
      ReceiveStream.readLoop n (n + s.frameQueue.queue.keys.length + 1) s .empty =
        some (s', acc, e)) := by
  unfold readImpl at h
  by_cases h₁ : s.currentFrameIsLast = true ∧ s.currentFrame = none
  · rw [if_pos (by simp [h₁])] at h
    cases h
    exact .inl ⟨h₁.1, h₁.2, rfl, rfl, rfl⟩
  · rw [if_neg (by simpa using h₁)] at h
    by_cases h₂ : s.cancelledRemotely = true ∨ s.cancelledLocally = true
    · rw [if_pos (by simpa using h₂)] at h
      cases h
      exact .inr (.inl ⟨h₁, h₂, rfl, rfl, rfl⟩)
    · rw [if_neg (by simpa using h₂)] at h
      simp only [not_or, Bool.not_eq_true] at h₂
      exact .inr (.inr ⟨h₁, h₂.1, h₂.2, h⟩)

/-- What `Read` does: `readImpl`, then the completion check unless it waits. -/
theorem Read_eq_some {n : ℕ} {out : ReadOut Cb} (h : s.Read n = some (s', out)) :
    ∃ s₁ acc, s.readImpl n = some (s₁, acc, out.result) ∧ out.data = acc.data ∧
      ((out.result = .blocked ∧ s' = s₁ ∧ out.completed = false) ∨
        (out.result ≠ .blocked ∧ s' = s₁.isNewlyCompleted.1 ∧
          out.completed = s₁.isNewlyCompleted.2)) := by
  obtain ⟨⟨s₁, acc, e⟩, hi, h⟩ := Option.map_eq_some_iff.mp h
  dsimp only at h
  split at h
  · rename_i hb
    cases h
    exact ⟨_, _, hi, rfl, .inl ⟨hb, rfl, rfl⟩⟩
  · rename_i hb
    cases h
    exact ⟨_, _, hi, rfl, .inr ⟨hb, rfl, rfl⟩⟩

/-! ## A `Read` of a stream that has all its data makes progress -/

/-- **Once every offset of `S` arrived, the next frame is there**: `dequeueNextFrame` hands out
a frame with data, or none, and then the stream is at its end. -/
theorem Cursor.dequeue_delivered (h : Cursor S delivered read s)
    (hcl : s.cancelledLocally = false) (hfin : s.finalOffset = S.length)
    (hall : ∀ p < S.length, delivered p) :
    ∃ s₁ released, s.dequeueNextFrame = some (s₁, released) ∧
      ((∃ d, s₁.currentFrame = some d ∧ s₁.readPosInFrame < d.length) ∨
        (s₁.currentFrame = none ∧ s₁.currentFrameIsLast = true)) := by
  obtain ⟨scalls, souts, v⟩ := h.view
  obtain ⟨r, hr⟩ := Option.isSome_iff_exists.mp v.reassembles.inv.pop_isSome
  refine ⟨_, _, Option.map_eq_some_iff.mpr ⟨r, hr, rfl⟩, ?_⟩
  rcases pop_eq_some hr with ⟨hnone, rfl⟩ | ⟨e, he, rfl⟩
  · -- nothing is queued at the read position, so the sorter read all of `S`
    refine .inr ⟨rfl, decide_eq_true ?_⟩
    have hend : ¬s.frameQueue.readPos < S.length := fun hlt => by
      obtain ⟨e, he, -⟩ := v.reassembles.pop_received
        (v.delivered_pushed hcl _ (hall _ hlt))
      rw [hnone] at he
      cases he
    simp only [Option.getD_none, List.length_nil, Nat.add_zero, hfin]
    omega
  · exact .inl ⟨e.Data, rfl, v.reassembles.inv.queue_disjoint.nonempty _ _ he⟩

/-- The first step of an iteration, on a stream that has all its data: a frame with data left,
or the end of the stream. -/
theorem Cursor.prepare_delivered (h : Cursor S delivered read s)
    (hcl : s.cancelledLocally = false) (hfin : s.finalOffset = S.length)
    (hall : ∀ p < S.length, delivered p) :
    ∃ s₁ released,
      (if s.frameUsedUp then s.dequeueNextFrame else some (s, [])) = some (s₁, released) ∧
      ((∃ d, s₁.currentFrame = some d ∧ s₁.readPosInFrame < d.length) ∨
        (s₁.currentFrame = none ∧ s₁.currentFrameIsLast = true)) := by
  by_cases hu : s.frameUsedUp = true
  · rw [if_pos hu]
    exact h.dequeue_delivered hcl hfin hall
  · rw [if_neg hu]
    refine ⟨s, [], rfl, .inl ?_⟩
    unfold frameUsedUp at hu
    cases hf : s.currentFrame with
    | none => simp [hf] at hu
    | some d =>
      simp only [hf, Option.isNone_some, Option.getD_some, Bool.false_or,
        decide_eq_true_eq, Nat.not_le] at hu
      exact ⟨d, rfl, hu⟩

/-- **The loop of `readImpl` returns a byte or `io.EOF`** on a stream that has all its data
and its final offset, for a buffer of at least one byte, given more fuel than bytes to copy.
By induction on the fuel: each iteration that goes on copies at least one byte. -/
theorem Cursor.readLoop_progress (hN : S.length ≤ MaxByteCount) {n : ℕ} (hn : 0 < n)
    (hall : ∀ p < S.length, delivered p) :
    ∀ (fuel : ℕ) {s : ReceiveStream Cb} {acc : ReadAcc Cb}, n - acc.data.length < fuel →
      Cursor S delivered (read ++ acc.data) s →
      s.flowController.bytesRead = (read ++ acc.data).length →
      s.cancelledRemotely = false → s.cancelledLocally = false → s.finalOffset = S.length →
      ∃ s' acc' e, ReceiveStream.readLoop n fuel s acc = some (s', acc', e) ∧
        (e = .eof ∨ (e = .ok ∧ 0 < acc'.data.length)) := by
  intro fuel
  induction fuel with
  | zero =>
    intro s acc hfuel
    omega
  | succ fuel ih =>
    intro s acc hfuel h hbr hcr hcl hfin
    rw [ReceiveStream.readLoop]
    by_cases hlt : acc.data.length < n
    · rw [if_pos hlt]
      obtain ⟨s₁, released, hp, hnext⟩ := h.prepare_delivered hcl hfin hall
      obtain ⟨h₁, hk₁, hfc₁, -, hpos₁⟩ := h.prepare hN (.inr hfin) hp
      rw [hp]
      dsimp only
      rcases hnext with ⟨d, hd, hrp⟩ | ⟨hnone, hlast⟩
      · -- a frame with data left: the loop copies from it
        rw [if_neg (by simp [hd]), if_neg (by simp [hd]), if_neg (by simp [hd]; omega)]
        split
        · exact ⟨_, _, _, rfl, .inl rfl⟩
        · obtain ⟨h₂, hbr₂⟩ := h₁.copy (by rw [hfc₁, hbr]) (hk₁.cancelledRemotely.trans hcr)
            (n - acc.data.length)
          have hk₂ := hk₁.trans (loopKeeps_copyCurrentFrame s₁ (n - acc.data.length))
          rw [List.append_assoc] at h₂ hbr₂
          -- at least one byte was copied
          have hchunk : 0 < (s₁.copyCurrentFrame (n - acc.data.length)).2.1.length := by
            simp [copyCurrentFrame_chunk, remainder, hd]
            omega
          refine ih (by simp only [List.length_append]; omega) h₂ hbr₂
            (hk₂.cancelledRemotely.trans hcr) (hk₂.cancelledLocally.trans hcl)
            (hk₂.finalOffset.trans hfin)
      · -- the end of the stream: `io.EOF`, unless bytes were copied before
        by_cases hdata : 0 < acc.data.length
        · rw [if_pos (by simp [hnone, hdata])]
          exact ⟨_, _, _, rfl, .inr ⟨rfl, hdata⟩⟩
        · rw [if_neg (by simp [hdata]), if_neg (by simp [hlast]),
            if_neg (by simp [hnone, hpos₁ hnone]), if_pos (by simp [copyCurrentFrame_fst, hnone,
              hlast])]
          exact ⟨_, _, _, rfl, .inl rfl⟩
    · rw [if_neg hlt]
      exact ⟨_, _, _, rfl, .inr ⟨rfl, by omega⟩⟩

end ReceiveStream

end QuicGo