import QuicGo.ReceiveStream.Basic
import QuicGo.FrameSorter.Reassembly

/-!
# QuicGo — the read cursor of a receive stream

What `Read` hands out is what the frame sorter popped, minus the rest of the current frame.
`Cursor S delivered read s` relates the stream `s` to the byte string `S` that the peer sends,
the offsets `delivered` in the STREAM frames it received, and the bytes `read` that `Read`
returned so far:

* the frame sorter reassembles `S` (`FrameSorter.Reassembles`), with a history of pushes that
  holds every delivered offset unless the stream was cancelled locally, and the sorter's
  popped data is `read` followed by the rest of the current frame;
* a current frame marked last reaches the end of `S`;
* the flow controller has counted exactly `read` as read, unless the stream was abandoned, and
  the connection has counted what the stream counted.

Each piece of `readImpl` (`dequeueNextFrame`, the copy, the end of the stream) and each frame
keeps it; the lemmas here say so, one per piece.
-/

namespace QuicGo

namespace ReceiveStream

open FlowControl FrameSorter

variable {Cb : Type}

/-- The frame sorter of `s`, after the calls `scalls` with the outputs `souts`, reassembles
`S`; it holds no offset the flow controller has not seen; it was pushed every delivered offset
unless the stream was cancelled locally; and what it popped is what was read followed by the
rest of the current frame. -/
structure SorterView (S : List UInt8) (delivered : ℕ → Prop) (read : List UInt8)
    (s : ReceiveStream Cb) (scalls : List (FrameSorter.Call Cb))
    (souts : List (FrameSorter.Output Cb)) : Prop where
  reassembles : Reassembles S scalls souts s.frameQueue
  pushed_lt : ∀ p, Pushed scalls p → p < s.flowController.highestReceived
  delivered_pushed : s.cancelledLocally = false → ∀ p, delivered p → Pushed scalls p
  popped_eq : read ++ s.remainder = souts.flatMap FrameSorter.Output.popData

/-- **The read cursor** of `s` hands out `S` from its start. -/
structure Cursor (S : List UInt8) (delivered : ℕ → Prop) (read : List UInt8)
    (s : ReceiveStream Cb) : Prop where
  view : ∃ scalls souts, SorterView S delivered read s scalls souts
  readPos_le : ∀ d, s.currentFrame = some d → s.readPosInFrame ≤ d.length
  last : s.currentFrameIsLast = true → S.length ≤ s.frameQueue.readPos
  credited : s.flowController.bytesRead = read.length ∨
    (s.flowController.bytesRead = s.flowController.highestReceived ∧
      s.flowController.receivedFinalOffset = true)
  bytesRead_le : s.flowController.bytesRead ≤ s.flowController.highestReceived
  conn_bytesRead : s.connection.bytesRead = s.flowController.bytesRead
  conn_highestReceived : s.connection.highestReceived = s.flowController.highestReceived

variable {S : List UInt8} {delivered : ℕ → Prop} {read : List UInt8} {s s' : ReceiveStream Cb}

/-! ## What the cursor says -/

/-- What was read and the rest of the current frame are the start of `S`, as far as the
sorter read. -/
theorem SorterView.read_remainder_eq {scalls : List (FrameSorter.Call Cb)}
    {souts : List (FrameSorter.Output Cb)} (v : SorterView S delivered read s scalls souts) :
    read ++ s.remainder = S.take s.frameQueue.readPos :=
  v.popped_eq.trans v.reassembles.popped_eq

/-- The sorter read no further than the flow controller received. -/
theorem SorterView.readPos_le_highestReceived {scalls : List (FrameSorter.Call Cb)}
    {souts : List (FrameSorter.Output Cb)} (v : SorterView S delivered read s scalls souts) :
    s.frameQueue.readPos ≤ s.flowController.highestReceived := by
  by_contra hlt
  have := v.pushed_lt _ (v.reassembles.read_pushed (s.flowController.highestReceived)
    (by omega))
  omega

/-- What was read and the rest of the current frame fit within what was received. -/
theorem SorterView.length_le {scalls : List (FrameSorter.Call Cb)}
    {souts : List (FrameSorter.Output Cb)} (v : SorterView S delivered read s scalls souts) :
    read.length + s.remainder.length ≤ s.flowController.highestReceived := by
  have h := congrArg List.length v.read_remainder_eq
  rw [List.length_append, List.length_take] at h
  have := v.readPos_le_highestReceived
  omega

/-- **What was read is a prefix of `S`.** -/
theorem Cursor.read_prefix (h : Cursor S delivered read s) : read <+: S := by
  obtain ⟨_, _, v⟩ := h.view
  exact (List.prefix_append read s.remainder).trans
    (v.read_remainder_eq ▸ List.take_prefix _ _)

/-- **At the end of the last frame, all of `S` was read.** -/
theorem Cursor.read_eq_of_last (h : Cursor S delivered read s)
    (hlast : s.currentFrameIsLast = true) (hrem : s.remainder = []) : read = S := by
  obtain ⟨_, _, v⟩ := h.view
  have heq := v.read_remainder_eq
  rw [hrem, List.append_nil, List.take_of_length_le (h.last hlast)] at heq
  exact heq

/-! ## What keeps the cursor -/

/-- A sorter view depends on the sorter, the rest of the current frame, the highest received
offset and the local cancellation only. -/
theorem SorterView.of_eq {scalls : List (FrameSorter.Call Cb)}
    {souts : List (FrameSorter.Output Cb)} (v : SorterView S delivered read s scalls souts)
    (hq : s'.frameQueue = s.frameQueue) (hrem : s'.remainder = s.remainder)
    (hhr : s.flowController.highestReceived ≤ s'.flowController.highestReceived)
    (hcl : s'.cancelledLocally = false → s.cancelledLocally = false) :
    SorterView S delivered read s' scalls souts where
  reassembles := hq ▸ v.reassembles
  pushed_lt p hp := Nat.lt_of_lt_of_le (v.pushed_lt p hp) hhr
  delivered_pushed hc := v.delivered_pushed (hcl hc)
  popped_eq := hrem ▸ v.popped_eq

/-- **A change to fields the reader does not use keeps the cursor**: the flags of the stream,
other than a remote cancellation appearing. -/
theorem Cursor.of_eq (h : Cursor S delivered read s) (hq : s'.frameQueue = s.frameQueue)
    (hf : s'.currentFrame = s.currentFrame) (hp : s'.readPosInFrame = s.readPosInFrame)
    (hl : s'.currentFrameIsLast = s.currentFrameIsLast)
    (hfc : s'.flowController = s.flowController) (hc : s'.connection = s.connection)
    (hcl : s'.cancelledLocally = false → s.cancelledLocally = false) :
    Cursor S delivered read s' := by
  obtain ⟨scalls, souts, v⟩ := h.view
  have hrem : s'.remainder = s.remainder := by simp only [remainder, hf, hp]
  refine ⟨⟨scalls, souts, v.of_eq hq hrem (by rw [hfc]) hcl⟩, fun d hd => ?_, fun hlast => ?_,
    ?_, by rw [hfc]; exact h.bytesRead_le, by rw [hc, hfc]; exact h.conn_bytesRead,
    by rw [hc, hfc]; exact h.conn_highestReceived⟩
  · rw [hp]
    exact h.readPos_le d (hf ▸ hd)
  · rw [hq]
    exact h.last (hl ▸ hlast)
  · rw [hfc]
    exact h.credited

/-- Setting `errorRead` or `completed` keeps the cursor. -/
theorem Cursor.setFlags (h : Cursor S delivered read s) (e c : Bool) :
    Cursor S delivered read { s with errorRead := e, completed := c } :=
  h.of_eq rfl rfl rfl rfl rfl rfl id

/-- `isNewlyCompleted` keeps the cursor. -/
theorem Cursor.isNewlyCompleted (h : Cursor S delivered read s) :
    Cursor S delivered read s.isNewlyCompleted.1 := by
  rw [isNewlyCompleted_fst]
  exact h.setFlags s.errorRead _

/-- **Abandoning a stream whose final offset is known keeps the cursor**: the stream counts
what it received as read, and the connection counts the difference. -/
theorem Cursor.abandon (h : Cursor S delivered read s)
    (hf : s.flowController.receivedFinalOffset = true) :
    Cursor S delivered read s.abandon := by
  obtain ⟨scalls, souts, v⟩ := h.view
  have hbr := h.bytesRead_le
  refine ⟨⟨scalls, souts, v.of_eq rfl rfl (by simp) id⟩, h.readPos_le, h.last,
    .inr ⟨by simp, by simpa using hf⟩, by simp, ?_, by simpa using h.conn_highestReceived⟩
  simp only [abandon_connection, abandon_flowController, h.conn_bytesRead]
  omega

/-- A remote cancellation appearing keeps the cursor, as long as the reader stops. -/
theorem Cursor.setCancelledRemotely (h : Cursor S delivered read s) (b : Bool)
    (e : Option StreamError) :
    Cursor S delivered read { s with cancelledRemotely := b, cancelErr := e } :=
  h.of_eq rfl rfl rfl rfl rfl rfl id

/-- After a local cancellation the cursor owes nothing to the delivered offsets. -/
theorem Cursor.of_cancelledLocally (h : Cursor S delivered read s)
    (hcl : s.cancelledLocally = true) (delivered' : ℕ → Prop) :
    Cursor S delivered' read s := by
  obtain ⟨scalls, souts, v⟩ := h.view
  refine ⟨⟨scalls, souts, ⟨v.reassembles, v.pushed_lt, fun hc => ?_, v.popped_eq⟩⟩,
    h.readPos_le, h.last, h.credited, h.bytesRead_le, h.conn_bytesRead, h.conn_highestReceived⟩
  rw [hcl] at hc
  cases hc

/-- Fewer delivered offsets keep the cursor. -/
theorem Cursor.mono (h : Cursor S delivered read s) {delivered' : ℕ → Prop}
    (hd : ∀ p, delivered' p → delivered p) : Cursor S delivered' read s := by
  obtain ⟨scalls, souts, v⟩ := h.view
  exact ⟨⟨scalls, souts, ⟨v.reassembles, v.pushed_lt,
    fun hc p hp => v.delivered_pushed hc p (hd p hp), v.popped_eq⟩⟩,
    h.readPos_le, h.last, h.credited, h.bytesRead_le, h.conn_bytesRead, h.conn_highestReceived⟩

/-! ## The flow controller and the frame sorter take a frame -/

/-- **An offset the flow controller accepts keeps the cursor**: the highest received offset
only grows, the connection's grows with it, and the counts of bytes read stay. -/
theorem Cursor.updateHighestReceived (h : Cursor S delivered read s) {offset : ℕ}
    {final : Bool} (hok : (s.updateHighestReceived offset final).2 = none) :
    Cursor S delivered read (s.updateHighestReceived offset final).1 := by
  obtain ⟨scalls, souts, v⟩ := h.view
  unfold ReceiveStream.updateHighestReceived at hok ⊢
  dsimp only at hok ⊢
  have hle := StreamFlowController.UpdateHighestReceived_le hok
  refine ⟨⟨scalls, souts, v.of_eq rfl rfl hle.2 id⟩, h.readPos_le, h.last, ?_, ?_, ?_, ?_⟩
  · rcases h.credited with hbr | ⟨hbr, hf⟩
    · exact .inl (by simpa using hbr)
    · -- the final offset was known: the flow controllers stay as they were
      obtain ⟨h₁, -⟩ := StreamFlowController.UpdateHighestReceived_of_final hf
      exact .inr (by rw [h₁]; exact ⟨hbr, hf⟩)
  · have := h.bytesRead_le
    simp only [StreamFlowController.UpdateHighestReceived_bytesRead]
    omega
  · simpa using h.conn_bytesRead
  · rcases StreamFlowController.UpdateHighestReceived_eq_none hok with ⟨h₁, h₂⟩ |
      ⟨-, hlt, -, -, h₁, h₂⟩
    · rw [h₁, h₂]
      exact h.conn_highestReceived
    · rw [h₁, h₂]
      show s.connection.highestReceived + (offset - s.flowController.highestReceived) = offset
      have := h.conn_highestReceived
      omega

/-- **A `Push` of a slice of `S` that returns `nil` keeps the cursor**, and the frame's offsets
count as delivered: the sorter took them. -/
theorem Cursor.push (h : Cursor S delivered read s) (hN : S.length ≤ MaxByteCount)
    {frame : StreamFrame Cb}
    (hS : frame.Offset + frame.Data.length ≤ S.length ∧
      frame.Data = (S.drop frame.Offset).take frame.Data.length)
    (hend : frame.Offset + frame.Data.length ≤ s.flowController.highestReceived)
    {r : PushResult Cb}
    (hr : s.frameQueue.Push frame.Data frame.Offset (some frame.PutBack) = some r)
    (herr : r.err = none) :
    Cursor S (fun p => delivered p ∨ (frame.Offset ≤ p ∧ p < frame.Offset + frame.Data.length))
      read { s with frameQueue := r.sorter } := by
  obtain ⟨scalls, souts, v⟩ := h.view
  have hmax : frame.Offset + frame.Data.length ≤ MaxByteCount := by omega
  have hpushed := fun p => pushed_append scalls (.push frame.Data frame.Offset (some frame.PutBack)) p
  refine ⟨⟨scalls ++ [.push frame.Data frame.Offset (some frame.PutBack)],
    souts ++ [.push r.err r.released], ⟨v.reassembles.push hmax hS hr herr, fun p hp => ?_,
    fun hc p hp => ?_, ?_⟩⟩, h.readPos_le, fun hlast => ?_, h.credited, h.bytesRead_le,
    h.conn_bytesRead, h.conn_highestReceived⟩
  · rcases (hpushed p).mp hp with hp | hp
    · exact v.pushed_lt p hp
    · exact Nat.lt_of_lt_of_le hp.2 hend
  · rcases hp with hp | hp
    · exact (hpushed p).mpr (.inl (v.delivered_pushed hc p hp))
    · exact (hpushed p).mpr (.inr hp)
  · simpa [FrameSorter.Output.popData, remainder] using v.popped_eq
  · show S.length ≤ r.sorter.readPos
    rw [v.reassembles.inv.Push_readPos hmax hr herr]
    exact h.last hlast

/-! ## The pieces of `readImpl` -/

/-- **Reaching the end of the last frame keeps the cursor**: the code drops the current frame
once nothing of it is left. -/
theorem Cursor.eof (h : Cursor S delivered read s) (hrem : s.remainder = []) :
    Cursor S delivered read { s with currentFrame := none, errorRead := true } := by
  obtain ⟨scalls, souts, v⟩ := h.view
  have hrem' : ({ s with currentFrame := none, errorRead := true } : ReceiveStream Cb).remainder =
      s.remainder := by
    rw [hrem]
    simp [remainder]
  exact ⟨⟨scalls, souts, v.of_eq rfl hrem' (Nat.le_refl _) id⟩, fun d hd => (by cases hd), h.last,
    h.credited, h.bytesRead_le, h.conn_bytesRead, h.conn_highestReceived⟩

/-- After `Pop`, the sorter reads from the end of the frame it handed out. -/
theorem pop_readPos {q : FrameSorter Cb} {r : PopResult Cb} (h : q.Pop = some r) :
    r.sorter.readPos = r.offset + (r.data.getD []).length := by
  rcases pop_eq_some h with ⟨-, rfl⟩ | ⟨e, -, rfl⟩
  · rfl
  · rfl

/-- **`dequeueNextFrame` keeps the cursor** when the current frame is used up: the frame it
pops is the next slice of `S`, and it is marked last only if it reaches the end of `S`. -/
theorem Cursor.dequeue (h : Cursor S delivered read s) (hN : S.length ≤ MaxByteCount)
    (hfin : s.finalOffset = MaxByteCount ∨ s.finalOffset = S.length)
    (hrem : s.remainder = []) {released : List Cb}
    (hd : s.dequeueNextFrame = some (s', released)) : Cursor S delivered read s' := by
  obtain ⟨r, hpop, -, rfl⟩ := dequeueNextFrame_eq_some s hd
  obtain ⟨scalls, souts, v⟩ := h.view
  have hre := v.reassembles.pop hpop
  refine ⟨⟨scalls ++ [.pop], souts ++ [.pop r.offset r.data r.doneCb], ⟨hre, fun p hp => ?_,
    fun hc p hp => (pushed_append_pop _ _).mpr (v.delivered_pushed hc p hp), ?_⟩⟩,
    fun d hd => Nat.zero_le _, fun hlast => ?_, h.credited, h.bytesRead_le,
    h.conn_bytesRead, h.conn_highestReceived⟩
  · exact v.pushed_lt p ((pushed_append_pop _ _).mp hp)
  · -- the new current frame is all rest, and it is what `Pop` handed out
    show read ++ (r.data.getD []).drop 0 = _
    rw [List.drop_zero, List.flatMap_append, ← v.popped_eq, hrem]
    simp [FrameSorter.Output.popData]
  · -- a frame marked last reaches the final offset, which is then the end of `S`
    have hle := of_decide_eq_true hlast
    have hread : r.sorter.readPos ≤ S.length := hre.readPos_le
    show S.length ≤ r.sorter.readPos
    rw [pop_readPos hpop] at hread ⊢
    rcases hfin with hmax | hlen <;> omega

/-- What is copied from the front of a list and what is left of it make up the list. -/
theorem take_append_drop_length_take {α : Type} (l : List α) (k : ℕ) :
    l.take k ++ l.drop (l.take k).length = l := by
  rw [List.length_take]
  rcases Nat.le_total k l.length with hk | hk
  · rw [Nat.min_eq_left hk, List.take_append_drop]
  · rw [Nat.min_eq_right hk, List.drop_eq_nil_of_le (Nat.le_refl _), List.take_of_length_le hk,
      List.append_nil]

/-- **The copy keeps the cursor**: what it copies moves from the rest of the frame to what was
read, and both flow controllers count it. -/
theorem Cursor.copy (h : Cursor S delivered read s) (hbr : s.flowController.bytesRead = read.length)
    (hcr : s.cancelledRemotely = false) (room : ℕ) :
    Cursor S delivered (read ++ (s.copyCurrentFrame room).2.1) (s.copyCurrentFrame room).1 ∧
      (s.copyCurrentFrame room).1.flowController.bytesRead =
        (read ++ (s.copyCurrentFrame room).2.1).length := by
  obtain ⟨scalls, souts, v⟩ := h.view
  have hlen := v.length_le
  have hchunk : (s.remainder.take room).length ≤ s.remainder.length := by
    simp only [List.length_take]
    omega
  rw [copyCurrentFrame_fst, copyCurrentFrame_chunk]
  simp only [hcr, Bool.false_eq_true, if_false]
  have hrem : (s.currentFrame.getD []).drop (s.readPosInFrame + (s.remainder.take room).length) =
      s.remainder.drop (s.remainder.take room).length := by
    simp only [remainder, List.drop_drop]
  refine ⟨⟨⟨scalls, souts, ⟨v.reassembles, v.pushed_lt, v.delivered_pushed, ?_⟩⟩,
    fun d hd => ?_, h.last, .inl (by simp [hbr]), ?_, ?_, h.conn_highestReceived⟩,
    by simp [hbr]⟩
  · show (read ++ s.remainder.take room) ++ (s.currentFrame.getD []).drop
      (s.readPosInFrame + (s.remainder.take room).length) = _
    rw [hrem, List.append_assoc, take_append_drop_length_take, v.popped_eq]
  · -- the cursor stays within the frame
    have hd' : s.currentFrame = some d := hd
    have hle := h.readPos_le d hd'
    have : s.remainder.length = d.length - s.readPosInFrame := by
      simp [remainder, hd']
    show s.readPosInFrame + (s.remainder.take room).length ≤ d.length
    omega
  · show s.flowController.bytesRead + (s.remainder.take room).length ≤
      s.flowController.highestReceived
    omega
  · show s.connection.bytesRead + (s.remainder.take room).length =
      s.flowController.bytesRead + (s.remainder.take room).length
    rw [h.conn_bytesRead]

end ReceiveStream

end QuicGo
