import QuicGo.ReceiveStream.Read
import QuicGo.Lib.Run

/-!
# QuicGo — a receive stream hands out exactly what the peer sent

The peer sends a byte string `S` in STREAM frames that carry slices of it, in any order, with
duplicates and overlaps, a frame with the FIN bit ending at the end of `S` (`Call.SliceOf`).
Between the frames the application reads with buffers of any size or cancels reading, and the
peer may reset the stream. `Inv` is what holds after every run whose calls all succeed:

* the read cursor (`Cursor`) over the offsets the frames delivered, so that what `Read`
  returned is the start of `S`, and every `io.EOF` comes after all of `S` (`EofAfter`);
* what the final offset is: the end of `S` or the final size of a RESET_STREAM, and once it is
  known the flow controller has it as its highest received offset;
* what the flow controller counted as read: exactly what `Read` returned, until a reset or the
  completion abandons the stream and counts all it received;
* why the stream completed, and that a stream with a known final offset whose reading ended
  has completed (`Settled`). Only a `Read` that waits leaves this to a later call.

`Core` is `Inv` without the last part, which holds only once a call has checked for
completion. Each call keeps `Inv` (`Inv.of_step`), so every run does (`inv_of_run`). The other
direction is `Inv.reads_reach_eof`: once all of `S` and the FIN bit arrived and nothing
cancelled the stream, `Read`s of any sizes hand out the rest of `S` and then `io.EOF`.
-/

namespace QuicGo

namespace ReceiveStream

open FlowControl

variable {Cb : Type}

/-! ## The peer's frames and what the application saw -/

/-- The offsets a call delivers: those of a STREAM frame. -/
def Call.Covers : Call Cb → ℕ → Prop
  | .handleStreamFrame frame, p => frame.Offset ≤ p ∧ p < frame.Offset + frame.Data.length
  | _, _ => False

/-- The offsets that the calls delivered. -/
def Delivered (calls : List (Call Cb)) (p : ℕ) : Prop :=
  ∃ c ∈ calls, c.Covers p

/-- A STREAM frame carries a slice of `S` at its offset in `S`, and ends at the end of `S` if
it has the FIN bit. Every other call is allowed. -/
def Call.SliceOf (S : List UInt8) : Call Cb → Prop
  | .handleStreamFrame frame => frame.Offset + frame.Data.length ≤ S.length ∧
      frame.Data = (S.drop frame.Offset).take frame.Data.length ∧
      (frame.Fin = true → frame.Offset + frame.Data.length = S.length)
  | _ => True

/-- The call ends the stream early: a RESET_STREAM frame, or `CancelRead`. -/
def Call.Cancels : Call Cb → Prop
  | .handleResetStreamFrame _ => True
  | .cancelRead _ => True
  | _ => False

/-- The call is a STREAM frame with the FIN bit. -/
def Call.IsFin : Call Cb → Prop
  | .handleStreamFrame frame => frame.Fin = true
  | _ => False

instance (p : ℕ) : DecidablePred fun c : Call Cb => c.Covers p := fun c =>
  match c with
  | .handleStreamFrame frame =>
    inferInstanceAs (Decidable (frame.Offset ≤ p ∧ p < frame.Offset + frame.Data.length))
  | .handleResetStreamFrame _ => inferInstanceAs (Decidable False)
  | .read _ => inferInstanceAs (Decidable False)
  | .cancelRead _ => inferInstanceAs (Decidable False)

instance (calls : List (Call Cb)) : DecidablePred (Delivered calls) := fun p =>
  inferInstanceAs (Decidable (∃ c ∈ calls, c.Covers p))

instance (S : List UInt8) : DecidablePred (@Call.SliceOf Cb S) := fun c =>
  match c with
  | .handleStreamFrame frame => inferInstanceAs (Decidable
      (frame.Offset + frame.Data.length ≤ S.length ∧
        frame.Data = (S.drop frame.Offset).take frame.Data.length ∧
        (frame.Fin = true → frame.Offset + frame.Data.length = S.length)))
  | .handleResetStreamFrame _ => inferInstanceAs (Decidable True)
  | .read _ => inferInstanceAs (Decidable True)
  | .cancelRead _ => inferInstanceAs (Decidable True)

instance : DecidablePred (@Call.Cancels Cb) := fun c =>
  match c with
  | .handleStreamFrame _ => inferInstanceAs (Decidable False)
  | .handleResetStreamFrame _ => inferInstanceAs (Decidable True)
  | .read _ => inferInstanceAs (Decidable False)
  | .cancelRead _ => inferInstanceAs (Decidable True)

instance : DecidablePred (@Call.IsFin Cb) := fun c =>
  match c with
  | .handleStreamFrame frame => inferInstanceAs (Decidable (frame.Fin = true))
  | .handleResetStreamFrame _ => inferInstanceAs (Decidable False)
  | .read _ => inferInstanceAs (Decidable False)
  | .cancelRead _ => inferInstanceAs (Decidable False)

instance : DecidablePred (@Output.IsEOF Cb) := fun o =>
  match o with
  | .read out => inferInstanceAs (Decidable (out.result = .eof))
  | .handleStreamFrame .. => inferInstanceAs (Decidable False)
  | .handleResetStreamFrame .. => inferInstanceAs (Decidable False)
  | .cancelRead .. => inferInstanceAs (Decidable False)

/-- Every `io.EOF` comes after all of `S`: what was read before it, and what it returns, make
up `S`. -/
def EofAfter (S : List UInt8) : List UInt8 → List (Output Cb) → Prop
  | _, [] => True
  | read, o :: outs => (o.IsEOF → read ++ o.readData = S) ∧ EofAfter S (read ++ o.readData) outs

/-- The reading has ended: the stream was cancelled, or its last frame was read. -/
def Stopped (s : ReceiveStream Cb) : Prop :=
  s.cancelledLocally = true ∨ s.cancelledRemotely = true ∨
    (s.currentFrameIsLast = true ∧ s.currentFrame = none)

/-- A stream whose final offset is known and that was cancelled locally or whose error was
read has completed. -/
def Settled (s : ReceiveStream Cb) : Prop :=
  s.completed = true ∨ s.finalOffset = MaxByteCount ∨
    (s.cancelledLocally = false ∧ s.errorRead = false)

theorem delivered_append (calls : List (Call Cb)) (c : Call Cb) (p : ℕ) :
    Delivered (calls ++ [c]) p ↔ Delivered calls p ∨ c.Covers p := by
  simp [Delivered, or_and_right, exists_or]

theorem eofAfter_append (S : List UInt8) (o : Output Cb) :
    ∀ (outs : List (Output Cb)) (read : List UInt8), EofAfter S read (outs ++ [o]) ↔
      EofAfter S read outs ∧ (o.IsEOF → read ++ outs.flatMap Output.readData ++ o.readData = S)
  | [], read => by simp [EofAfter]
  | o' :: outs, read => by
    simp only [List.cons_append, EofAfter, eofAfter_append S o outs, List.flatMap_cons,
      List.append_assoc, and_assoc]

/-- Checking for completion settles the stream. -/
theorem settled_isNewlyCompleted (s : ReceiveStream Cb) : Settled s.isNewlyCompleted.1 := by
  rw [isNewlyCompleted_fst]
  unfold Settled
  by_cases hc : s.isNewlyCompleted.2 = true
  · exact .inl (by simp [hc])
  · rw [isNewlyCompleted_snd_eq_true] at hc
    simp only [Bool.or_eq_true, not_and, not_or, Bool.not_eq_true] at hc ⊢
    by_cases hf : s.finalOffset = MaxByteCount
    · exact .inr (.inl hf)
    · cases hcomp : s.completed
      · exact .inr (.inr (hc hcomp hf))
      · exact .inl (.inl rfl)

/-- The check for completion of `handleStreamFrame` and `CancelRead` settles the stream. -/
theorem settled_finish (s : ReceiveStream Cb) :
    Settled (if s.isNewlyCompleted.2 then s.isNewlyCompleted.1.abandon
      else s.isNewlyCompleted.1) := by
  split
  · exact settled_isNewlyCompleted s
  · exact settled_isNewlyCompleted s

/-! ## The invariant -/

/-- What holds of the stream `s` after the calls `calls` with the outputs `outs`, for the byte
string `S`, at any point of a call. -/
structure Core (S : List UInt8) (calls : List (Call Cb)) (outs : List (Output Cb))
    (s : ReceiveStream Cb) : Prop where
  cursor : Cursor S (Delivered calls) (outs.flatMap Output.readData) s
  eofAfter : EofAfter S [] outs
  credited : s.cancelledRemotely = false → s.cancelledLocally = false → s.completed = false →
    s.flowController.bytesRead = (outs.flatMap Output.readData).length
  final_uncancelled : s.cancelledLocally = false → s.cancelledRemotely = false →
    s.finalOffset = MaxByteCount ∨ s.finalOffset = S.length
  fin_final : (∃ c ∈ calls, c.IsFin) → s.cancelledLocally = false →
    s.cancelledRemotely = false → s.finalOffset = S.length
  final_of : s.finalOffset = MaxByteCount ∨ s.finalOffset = S.length ∨
    ∃ frame, Call.handleResetStreamFrame frame ∈ calls ∧ frame.FinalSize = s.finalOffset
  final_known : s.finalOffset ≠ MaxByteCount →
    s.flowController.receivedFinalOffset = true ∧
      s.flowController.highestReceived = s.finalOffset
  completed_known : s.completed = true → s.finalOffset ≠ MaxByteCount ∧
    s.flowController.bytesRead = s.flowController.highestReceived
  abandoned : s.cancelledRemotely = true →
    s.flowController.bytesRead = s.flowController.highestReceived ∧
      s.flowController.receivedFinalOffset = true
  completed_of : s.completed = true → s.cancelledLocally = true ∨ s.errorRead = true
  errorRead_stopped : s.errorRead = true → Stopped s
  cancelled_of : s.cancelledLocally = true ∨ s.cancelledRemotely = true →
    ∃ c ∈ calls, c.Cancels

/-- **The invariant of a receive stream** between two calls. -/
structure Inv (S : List UInt8) (calls : List (Call Cb)) (outs : List (Output Cb))
    (s : ReceiveStream Cb) : Prop extends Core S calls outs s where
  settled : Settled s

variable {S : List UInt8} {calls : List (Call Cb)} {outs : List (Output Cb)}
  {s s₀ s₁ : ReceiveStream Cb}

/-! ## The pieces of the calls -/

section Pieces

/-- **An offset the flow controller accepts keeps the invariant.** A stream whose final
offset is known stays as it is; one whose final offset is not known was neither completed nor
reset. -/
theorem Core.updateHighestReceived (h : Core S calls outs s) {offset : ℕ} {final : Bool}
    (hok : (s.updateHighestReceived offset final).2 = none) :
    Core S calls outs (s.updateHighestReceived offset final).1 := by
  by_cases hf : s.flowController.receivedFinalOffset = true
  · rw [updateHighestReceived_of_final s hf]
    exact h
  have hmax : s.finalOffset = MaxByteCount := by
    by_contra hne
    exact hf (h.final_known hne).1
  have hcomp : s.completed = false := by
    cases hc : s.completed
    · rfl
    · exact absurd hmax (h.completed_known hc).1
  have hcr : s.cancelledRemotely = false := by
    cases hc : s.cancelledRemotely
    · rfl
    · exact absurd (h.abandoned hc).2 hf
  refine ⟨h.cursor.updateHighestReceived hok, h.eofAfter, fun hcr' hcl' hc' => ?_,
    h.final_uncancelled, h.fin_final, h.final_of, fun hne => absurd hmax hne,
    fun hc => absurd hc (by simp [hcomp, updateHighestReceived_eq]),
    fun hc => absurd hc (by simp [hcr, updateHighestReceived_eq]), h.completed_of,
    h.errorRead_stopped, h.cancelled_of⟩
  show (s.flowController.UpdateHighestReceived s.connection offset final).1.bytesRead = _
  rw [StreamFlowController.UpdateHighestReceived_bytesRead]
  exact h.credited hcr' hcl' hc'

/-- **Recording a final offset keeps the invariant**, when the flow controller has it as its
highest received offset and it is the end of `S` or the final size of a RESET_STREAM. -/
theorem Core.setFinalOffset (h : Core S calls outs s) {F : ℕ}
    (hrfo : s.flowController.receivedFinalOffset = true)
    (hhr : s.flowController.highestReceived = F)
    (hF : F = S.length ∨ ∃ frame, Call.handleResetStreamFrame frame ∈ calls ∧ frame.FinalSize = F)
    (hunc : s.cancelledLocally = false → s.cancelledRemotely = false → F = S.length) :
    Core S calls outs { s with finalOffset := F } where
  cursor := h.cursor.of_eq rfl rfl rfl rfl rfl rfl id
  eofAfter := h.eofAfter
  credited := h.credited
  final_uncancelled hcl hcr := .inr (hunc hcl hcr)
  fin_final _ hcl hcr := hunc hcl hcr
  final_of := hF.elim (fun hl => .inr (.inl hl)) (fun hr => .inr (.inr hr))
  final_known _ := ⟨hrfo, hhr⟩
  completed_known hc := by
    obtain ⟨hne, hbr⟩ := h.completed_known hc
    -- the final offset known before is the highest received offset, which is `F`
    refine ⟨?_, hbr⟩
    show F ≠ MaxByteCount
    rw [← hhr, (h.final_known hne).2]
    exact hne
  abandoned := h.abandoned
  completed_of := h.completed_of
  errorRead_stopped := h.errorRead_stopped
  cancelled_of := h.cancelled_of

/-- **A call that keeps the cursor over the offsets it delivers keeps the invariant**, when it
sets the final offset to the end of `S` if it has the FIN bit. -/
theorem Core.addCall (h : Core S calls outs s) {c : Call Cb}
    (hcur : Cursor S (Delivered (calls ++ [c])) (outs.flatMap Output.readData) s)
    (hfin : c.IsFin → s.cancelledLocally = false → s.cancelledRemotely = false →
      s.finalOffset = S.length) :
    Core S (calls ++ [c]) outs s where
  cursor := hcur
  eofAfter := h.eofAfter
  credited := h.credited
  final_uncancelled := h.final_uncancelled
  fin_final hex hcl hcr := by
    obtain ⟨c', hc', hfin'⟩ := hex
    rcases List.mem_append.mp hc' with hc' | hc'
    · exact h.fin_final ⟨c', hc', hfin'⟩ hcl hcr
    · rw [List.mem_singleton.mp hc'] at hfin'
      exact hfin hfin' hcl hcr
  final_of := by
    rcases h.final_of with hm | hl | ⟨frame, hmem, hsz⟩
    · exact .inl hm
    · exact .inr (.inl hl)
    · exact .inr (.inr ⟨frame, List.mem_append_left _ hmem, hsz⟩)
  final_known := h.final_known
  completed_known := h.completed_known
  abandoned := h.abandoned
  completed_of := h.completed_of
  errorRead_stopped := h.errorRead_stopped
  cancelled_of hc := by
    obtain ⟨c', hc', hcan⟩ := h.cancelled_of hc
    exact ⟨c', List.mem_append_left _ hc', hcan⟩

/-- A call that delivers nothing and has no FIN bit keeps the invariant. -/
theorem Core.addCall_quiet (h : Core S calls outs s) {c : Call Cb} (hcov : ∀ p, ¬c.Covers p)
    (hfin : ¬c.IsFin) : Core S (calls ++ [c]) outs s :=
  h.addCall (h.cursor.mono fun p hp => ((delivered_append calls c p).mp hp).resolve_right (hcov p))
    fun hf => absurd hf hfin

/-- A frame dropped after a local cancellation keeps the invariant. -/
theorem Core.skipFrame (h : Core S calls outs s) (hcl : s.cancelledLocally = true)
    (c : Call Cb) : Core S (calls ++ [c]) outs s :=
  h.addCall (h.cursor.of_cancelledLocally hcl _) fun _ hcl' => absurd (hcl.symm.trans hcl') (by simp)

/-- A new frame sorter that keeps the cursor keeps the invariant. -/
theorem Core.setFrameQueue (h : Core S calls outs s) {q : FrameSorter Cb}
    (hcur : Cursor S (Delivered calls) (outs.flatMap Output.readData) { s with frameQueue := q }) :
    Core S calls outs { s with frameQueue := q } :=
  ⟨hcur, h.eofAfter, h.credited, h.final_uncancelled, h.fin_final, h.final_of, h.final_known,
    h.completed_known, h.abandoned, h.completed_of, h.errorRead_stopped, h.cancelled_of⟩

/-- **A STREAM frame the sorter takes keeps the invariant**, and its offsets count as
delivered. -/
theorem Core.push (h : Core S calls outs s) (hN : S.length ≤ MaxByteCount)
    {frame : StreamFrame Cb} (hS : (Call.handleStreamFrame frame : Call Cb).SliceOf S)
    (hend : frame.Offset + frame.Data.length ≤ s.flowController.highestReceived)
    (hfin : frame.Fin = true → s.finalOffset = S.length) {r : PushResult Cb}
    (hr : s.frameQueue.Push frame.Data frame.Offset (some frame.PutBack) = some r)
    (herr : r.err = none) :
    Core S (calls ++ [.handleStreamFrame frame]) outs { s with frameQueue := r.sorter } := by
  have hcur := h.cursor.push hN ⟨hS.1, hS.2.1⟩ hend hr herr
  exact (h.setFrameQueue (hcur.mono fun p hp => .inl hp)).addCall
    (hcur.mono fun p hp => (delivered_append calls _ p).mp hp) fun hf _ _ => hfin hf

/-- The completion of `handleStreamFrame` and `CancelRead`: the stream completes and abandons
the rest of its data. -/
theorem Core.completeAbandon (h : Core S calls outs s) (hc : s.isNewlyCompleted.2 = true) :
    Core S calls outs s.isNewlyCompleted.1.abandon := by
  obtain ⟨hcomp, hne, hwhy⟩ := (isNewlyCompleted_snd_eq_true s).mp hc
  have hfin := h.final_known hne
  rw [isNewlyCompleted_fst, hc, Bool.or_true]
  refine ⟨(h.cursor.setFlags s.errorRead true).abandon hfin.1, h.eofAfter,
    fun _ _ hc' => absurd hc' (by simp), h.final_uncancelled, h.fin_final, h.final_of,
    fun hne' => ?_, fun _ => ⟨hne, by simp⟩, fun _ => ⟨by simp, by simpa using hfin.1⟩,
    fun _ => hwhy, h.errorRead_stopped, h.cancelled_of⟩
  simpa using h.final_known hne'

/-- The check for completion of `handleStreamFrame` and `CancelRead` keeps the invariant. -/
theorem Core.finish (h : Core S calls outs s) :
    Core S calls outs (if s.isNewlyCompleted.2 then s.isNewlyCompleted.1.abandon
      else s.isNewlyCompleted.1) := by
  cases hc : s.isNewlyCompleted.2
  · rw [if_neg (by simp), isNewlyCompleted_of_snd s hc]
    exact h
  · rw [if_pos rfl]
    exact h.completeAbandon hc

/-- **The check for completion of `Read` and `handleResetStreamFrame` keeps the invariant**,
when a stream that completes counted all it received as read: they do not abandon it. -/
theorem Core.isNewlyCompleted (h : Core S calls outs s)
    (hbr : s.isNewlyCompleted.2 = true →
      s.flowController.bytesRead = s.flowController.highestReceived) :
    Core S calls outs s.isNewlyCompleted.1 := by
  cases hc : s.isNewlyCompleted.2
  · rw [isNewlyCompleted_of_snd s hc]
    exact h
  obtain ⟨-, hne, hwhy⟩ := (isNewlyCompleted_snd_eq_true s).mp hc
  rw [isNewlyCompleted_fst, hc, Bool.or_true]
  exact ⟨h.cursor.setFlags s.errorRead true, h.eofAfter, fun _ _ hc' => absurd hc' (by simp),
    h.final_uncancelled, h.fin_final, h.final_of, h.final_known, fun _ => ⟨hne, hbr hc⟩,
    h.abandoned, fun _ => hwhy, h.errorRead_stopped, h.cancelled_of⟩

/-- An output that hands out nothing and is not `io.EOF` keeps the invariant. -/
theorem Core.snocOut (h : Core S calls outs s) {o : Output Cb} (hd : o.readData = [])
    (he : ¬o.IsEOF) : Core S calls (outs ++ [o]) s := by
  have hread : (outs ++ [o]).flatMap Output.readData = outs.flatMap Output.readData := by
    simp [hd]
  refine ⟨hread ▸ h.cursor, (eofAfter_append S o outs []).mpr ⟨h.eofAfter, fun h' => absurd h' he⟩,
    hread ▸ h.credited, h.final_uncancelled, h.fin_final, h.final_of, h.final_known,
    h.completed_known, h.abandoned, h.completed_of, h.errorRead_stopped, h.cancelled_of⟩

/-- **Abandoning a stream cancelled locally keeps the invariant**: it no longer counts its
reads. -/
theorem Core.abandon (h : Core S calls outs s)
    (hrfo : s.flowController.receivedFinalOffset = true) (hcl : s.cancelledLocally = true) :
    Core S calls outs s.abandon :=
  ⟨h.cursor.abandon hrfo, h.eofAfter, fun _ hcl' => absurd (hcl.symm.trans hcl') (by simp),
    h.final_uncancelled, h.fin_final, h.final_of, fun hne => by simpa using h.final_known hne,
    fun hc => ⟨(h.completed_known hc).1, by simp⟩, fun _ => ⟨by simp, by simpa using hrfo⟩,
    h.completed_of, h.errorRead_stopped, h.cancelled_of⟩

/-- **Abandoning a stream on a RESET_STREAM and saving its error keeps the invariant.** -/
theorem Core.abandonRemotely (h : Core S calls outs s)
    (hrfo : s.flowController.receivedFinalOffset = true) (hc : ∃ c ∈ calls, c.Cancels)
    (e : Option StreamError) :
    Core S calls outs { s.abandon with cancelledRemotely := true, cancelErr := e } :=
  ⟨(h.cursor.abandon hrfo).setCancelledRemotely true e, h.eofAfter,
    fun hcr => absurd hcr (by simp), fun _ hcr => absurd hcr (by simp),
    fun _ _ hcr => absurd hcr (by simp), h.final_of, fun hne => by simpa using h.final_known hne,
    fun hc' => ⟨(h.completed_known hc').1, by simp⟩, fun _ => ⟨by simp, by simpa using hrfo⟩,
    h.completed_of, fun _ => .inr (.inl rfl), fun _ => hc⟩

/-- **A local cancellation keeps the invariant.** -/
theorem Core.cancelLocally (h : Core S calls outs s) (hc : ∃ c ∈ calls, c.Cancels) (q : Bool)
    (e : Option StreamError) :
    Core S calls outs { s with cancelledLocally := true, queuedStopSending := q, cancelErr := e } :=
  ⟨h.cursor.of_eq rfl rfl rfl rfl rfl rfl fun hcl => absurd hcl (by simp), h.eofAfter,
    fun _ hcl => absurd hcl (by simp), fun hcl => absurd hcl (by simp),
    fun _ hcl => absurd hcl (by simp), h.final_of, h.final_known, h.completed_known, h.abandoned,
    fun _ => .inl rfl, fun _ => .inl rfl, fun _ => hc⟩

/-- **Setting `errorRead` on a stream that stopped reading keeps the invariant**, with an
output that hands out nothing, and is `io.EOF` only after all of `S`. -/
theorem Core.setErrorRead (h : Core S calls outs s) (hstop : Stopped s) {o : Output Cb}
    (hd : o.readData = []) (heof : o.IsEOF → outs.flatMap Output.readData = S) :
    Core S calls (outs ++ [o]) { s with errorRead := true } := by
  have hread : (outs ++ [o]).flatMap Output.readData = outs.flatMap Output.readData := by
    simp [hd]
  refine ⟨hread ▸ h.cursor.setFlags true s.completed,
    (eofAfter_append S o outs []).mpr ⟨h.eofAfter, fun he => by simpa [hd] using heof he⟩,
    hread ▸ h.credited, h.final_uncancelled, h.fin_final, h.final_of, h.final_known,
    h.completed_known, h.abandoned, fun _ => .inr rfl, fun _ => hstop, h.cancelled_of⟩

/-- A stream that was not cancelled, was not completed and handed out all of `S` counted its
final offset as read. -/
theorem Core.bytesRead_eq_of_read_all (h : Core S calls outs s)
    (hS : outs.flatMap Output.readData = S) (hcr : s.cancelledRemotely = false)
    (hcl : s.cancelledLocally = false) (hcomp : s.completed = false)
    (hne : s.finalOffset ≠ MaxByteCount) :
    s.flowController.bytesRead = s.flowController.highestReceived := by
  have hfo : s.finalOffset = S.length := (h.final_uncancelled hcl hcr).resolve_left hne
  rw [h.credited hcr hcl hcomp, hS, (h.final_known hne).2, hfo]

end Pieces

/-! ## One call -/

section Calls

/-- **`handleStreamFrameImpl` keeps the invariant**, for a slice of `S` that the flow
controller and the frame sorter accept. -/
theorem Core.handleStreamFrameImpl (h : Core S calls outs s) (hN : S.length ≤ MaxByteCount)
    {frame : StreamFrame Cb} (hS : (Call.handleStreamFrame frame : Call Cb).SliceOf S)
    {released : List Cb} (himpl : s.handleStreamFrameImpl frame = some (s₁, none, released)) :
    Core S (calls ++ [.handleStreamFrame frame]) outs s₁ := by
  obtain ⟨s₀, hu, hcases⟩ := handleStreamFrameImpl_eq_some s himpl
  have hok : (s.updateHighestReceived (frame.Offset + frame.Data.length) frame.Fin).2 = none := by
    rw [hu]
  have h₀ : Core S calls outs s₀ := by
    have := h.updateHighestReceived hok
    rwa [hu] at this
  have hend : frame.Offset + frame.Data.length ≤ s₀.flowController.highestReceived := by
    have := updateHighestReceived_highestReceived s hok
    rwa [hu] at this
  -- a FIN frame records its end, the end of `S`, as the final offset
  have h₀' : Core S calls outs { s₀ with
      finalOffset := if frame.Fin then frame.Offset + frame.Data.length else s₀.finalOffset } := by
    cases hfin : frame.Fin
    · exact h₀
    · rw [hfin] at hok hu
      have hfe := updateHighestReceived_final s hok
      rw [hu] at hfe
      exact h₀.setFinalOffset hfe.2 hfe.1 (.inl (hS.2.2 hfin)) fun _ _ => hS.2.2 hfin
  have hfin' : frame.Fin = true → (if frame.Fin then frame.Offset + frame.Data.length
      else s₀.finalOffset) = S.length := fun hf => by
    rw [if_pos hf]
    exact hS.2.2 hf
  rcases hcases with ⟨hcl, -, rfl⟩ | ⟨hcl, r, hr, herr, -, rfl⟩
  · exact h₀'.skipFrame hcl _
  · exact h₀'.push hN hS hend hfin' hr herr

/-- **`handleResetStreamFrameImpl` keeps the invariant** for a final size the flow controller
accepts, and leaves a stream that counted all it received as read. -/
theorem Core.handleResetStreamFrameImpl (h : Core S calls outs s) {frame : ResetStreamFrame}
    (hok : (s.handleResetStreamFrameImpl frame).2 = none) :
    Core S (calls ++ [.handleResetStreamFrame frame]) outs (s.handleResetStreamFrameImpl frame).1 ∧
      (s.handleResetStreamFrameImpl frame).1.flowController.bytesRead =
        (s.handleResetStreamFrameImpl frame).1.flowController.highestReceived := by
  obtain ⟨s₀, hu, heq⟩ := handleResetStreamFrameImpl_eq s hok
  have hok₀ : (s.updateHighestReceived frame.FinalSize true).2 = none := by rw [hu]
  have hfe := updateHighestReceived_final s hok₀
  rw [hu] at hfe
  have h₀ : Core S (calls ++ [.handleResetStreamFrame frame]) outs s₀ := by
    have := h.updateHighestReceived hok₀
    rw [hu] at this
    exact this.addCall_quiet (fun _ => id) id
  have hcan : ∃ c ∈ calls ++ [.handleResetStreamFrame frame], c.Cancels :=
    ⟨_, List.mem_append_right _ (List.mem_singleton_self _), trivial⟩
  have hF : ∃ f, Call.handleResetStreamFrame f ∈ calls ++ [.handleResetStreamFrame frame] ∧
      f.FinalSize = frame.FinalSize :=
    ⟨frame, List.mem_append_right _ (List.mem_singleton_self _), rfl⟩
  rw [heq]
  split_ifs with hcr hcl
  · -- a duplicate RESET_STREAM: the stream was abandoned at the first one
    exact ⟨h₀.setFinalOffset hfe.2 hfe.1 (.inr hF) fun _ hcr' => absurd (hcr.symm.trans hcr')
      (by simp), (h₀.abandoned hcr).1⟩
  · -- after a local cancellation the error is not saved
    exact ⟨(h₀.abandon hfe.2 hcl).setFinalOffset (by simpa using hfe.2) (by simpa using hfe.1)
      (.inr hF) fun hcl' => absurd (hcl.symm.trans hcl') (by simp), by simp⟩
  · exact ⟨(h₀.abandonRemotely hfe.2 hcan _).setFinalOffset (by simpa using hfe.2)
      (by simpa using hfe.1) (.inr hF) fun _ hcr' => absurd hcr' (by simp), by simp⟩

/-- **`cancelReadImpl` keeps the invariant.** -/
theorem Core.cancelReadImpl (h : Core S calls outs s) (errorCode : ℕ) :
    Core S (calls ++ [.cancelRead errorCode]) outs (s.cancelReadImpl errorCode).1 := by
  have h₀ := h.addCall_quiet (c := .cancelRead errorCode) (fun _ => id) id
  have hcan : ∃ c ∈ calls ++ [.cancelRead errorCode], c.Cancels :=
    ⟨_, List.mem_append_right _ (List.mem_singleton_self _), trivial⟩
  unfold ReceiveStream.cancelReadImpl
  dsimp only
  split_ifs
  · exact h₀
  · exact h₀.cancelLocally hcan s.queuedStopSending s.cancelErr
  · exact h₀.cancelLocally hcan true _

/-- **`readImpl` keeps the invariant** and hands out the next bytes of `S`; a stream it leaves
completing counted all it received as read, and one it leaves waiting stays settled. -/
theorem Core.readImpl (h : Core S calls outs s) (hset : Settled s)
    (hN : S.length ≤ MaxByteCount) {n : ℕ} {acc : ReadAcc Cb} {e : ReadEnd}
    (hi : s.readImpl n = some (s₁, acc, e)) {out : ReadOut Cb} (hdata : out.data = acc.data)
    (hres : out.result = e) :
    Core S calls (outs ++ [.read out]) s₁ ∧
      (s₁.isNewlyCompleted.2 = true →
        s₁.flowController.bytesRead = s₁.flowController.highestReceived) ∧
      (e = .blocked → Settled s₁) := by
  rcases readImpl_eq_some hi with ⟨hlast, hnone, rfl, rfl, rfl⟩ |
    ⟨-, hcan, rfl, rfl, rfl⟩ | ⟨hnot, hcr, hcl, hloop⟩
  · -- `io.EOF` at once: all of `S` was read
    have hS : outs.flatMap Output.readData = S :=
      h.cursor.read_eq_of_last hlast (by simp [remainder, hnone])
    have h₁ := h.setErrorRead (.inr (.inr ⟨hlast, hnone⟩))
      (o := .read out) (by simp [Output.readData, hdata]) fun _ => hS
    refine ⟨h₁, fun hc => ?_, fun hb => by cases hb⟩
    obtain ⟨hcomp, hne, -⟩ := (isNewlyCompleted_snd_eq_true _).mp hc
    by_cases hcr : s.cancelledRemotely = true
    · exact (h.abandoned hcr).1
    -- the stream was not cancelled locally, or it would have completed before
    rcases hset with hc' | hm | ⟨hcl, -⟩
    · exact absurd hc' (by simpa using hcomp)
    · exact absurd hm hne
    · exact h₁.bytesRead_eq_of_read_all (by simpa [Output.readData, hdata] using hS)
        (by simpa using hcr) hcl hcomp hne
  · -- the cancellation error
    have h₁ := h.setErrorRead (hcan.elim (fun hcr => .inr (.inl hcr)) .inl) (o := .read out)
      (by simp [Output.readData, hdata]) fun he => absurd (hres.symm.trans he) (by simp)
    refine ⟨h₁, fun hc => ?_, fun hb => by cases hb⟩
    obtain ⟨hcomp, hne, -⟩ := (isNewlyCompleted_snd_eq_true _).mp hc
    rcases hcan with hcr | hcl
    · exact (h.abandoned hcr).1
    · rcases hset with hc' | hm | ⟨hcl', -⟩
      · exact absurd hc' (by simpa using hcomp)
      · exact absurd hm hne
      · exact absurd (hcl.symm.trans hcl') (by simp)
  · -- the loop, on a stream that is neither cancelled nor at its end
    have her : s.errorRead = false := by
      cases her : s.errorRead
      · rfl
      · rcases h.errorRead_stopped her with hcl' | hcr' | hend
        · exact absurd (hcl.symm.trans hcl') (by simp)
        · exact absurd (hcr.symm.trans hcr') (by simp)
        · exact absurd hend hnot
    have hcomp : s.completed = false := by
      cases hc : s.completed
      · rfl
      · rcases h.completed_of hc with hcl' | her'
        · exact absurd (hcl.symm.trans hcl') (by simp)
        · exact absurd (her.symm.trans her') (by simp)
    have hpost := Cursor.readLoop hN n _ (by rw [ReadAcc.empty_data, List.append_nil]; exact h.cursor)
      (by rw [ReadAcc.empty_data, List.append_nil]; exact h.credited hcr hcl hcomp) hcr
      (h.final_uncancelled hcl hcr) hloop
    have hread : (outs ++ [Output.read out]).flatMap Output.readData =
        outs.flatMap Output.readData ++ acc.data := by
      simp [Output.readData, hdata]
    have hk := hpost.keeps
    have h₁ : Core S calls (outs ++ [Output.read out]) s₁ := by
      refine ⟨hread ▸ hpost.cursor, (eofAfter_append S _ outs []).mpr ⟨h.eofAfter, fun he => ?_⟩,
        fun _ _ _ => hread ▸ hpost.bytesRead, fun _ _ => hk.finalOffset ▸ h.final_uncancelled hcl hcr,
        fun hex _ _ => hk.finalOffset ▸ h.fin_final hex hcl hcr, hk.finalOffset ▸ h.final_of,
        fun hne => ?_, fun hc => absurd (hk.completed.symm.trans hc) (by simp [hcomp]),
        fun hcr' => absurd (hk.cancelledRemotely.symm.trans hcr') (by simp [hcr]),
        fun hc => absurd (hk.completed.symm.trans hc) (by simp [hcomp]), fun her₁ => ?_,
        fun hc => absurd hc (by simp [hk.cancelledLocally, hk.cancelledRemotely, hcl, hcr])⟩
      · simpa [Output.readData, hdata] using (hpost.eof (hres ▸ he)).1
      · rw [hk.finalOffset] at hne ⊢
        rw [hk.highestReceived, hk.receivedFinalOffset]
        exact h.final_known hne
      · -- `errorRead` is set only at `io.EOF`, at the end of the last frame
        by_cases he : e = .eof
        · obtain ⟨-, hlast, hnone, -⟩ := hpost.eof he
          exact .inr (.inr ⟨hlast, hnone⟩)
        · exact absurd ((hpost.errorRead he).symm.trans her₁) (by simp [her])
    refine ⟨h₁, fun hc => ?_, fun hb => ?_⟩
    · obtain ⟨hcomp₁, hne, hwhy⟩ := (isNewlyCompleted_snd_eq_true _).mp hc
      have hcl₁ : s₁.cancelledLocally = false := hk.cancelledLocally.trans hcl
      have he : e = .eof := by
        by_contra he
        rcases hwhy with hcl' | her'
        · exact absurd (hcl₁.symm.trans hcl') (by simp)
        · exact absurd ((hpost.errorRead he).symm.trans her') (by simp [her])
      refine h₁.bytesRead_eq_of_read_all ?_ (hk.cancelledRemotely.trans hcr) hcl₁ hcomp₁ hne
      rw [hread]
      exact (hpost.eof he).1
    · -- a `Read` that waits leaves the flags it checks as they were
      subst hb
      exact .inr (.inr ⟨hk.cancelledLocally.trans hcl,
        (hpost.errorRead (by simp)).trans her⟩)

/-- **Every call keeps the invariant**: a slice of `S` or a RESET_STREAM the stream accepts,
a `Read`, or a `CancelRead`. -/
theorem Inv.of_step (h : Inv S calls outs s) (hN : S.length ≤ MaxByteCount) {c : Call Cb}
    {s' : ReceiveStream Cb} {o : Output Cb} (hc : c.SliceOf S) (ho : o.Ok)
    (hstep : step s c = some (s', o)) : Inv S (calls ++ [c]) (outs ++ [o]) s' := by
  cases c with
  | handleStreamFrame frame =>
    obtain ⟨⟨s₂, err, released, completed⟩, hh, hstep⟩ := Option.map_eq_some_iff.mp hstep
    cases hstep
    have herr : err = none := ho
    subst herr
    obtain ⟨s₃, himpl, -, rfl⟩ := handleStreamFrame_eq_some s hh
    exact ⟨(h.toCore.handleStreamFrameImpl hN hc himpl).finish.snocOut rfl id, settled_finish _⟩
  | handleResetStreamFrame frame =>
    cases hstep
    have hok : (s.handleResetStreamFrameImpl frame).2 = none := ho
    obtain ⟨hcore, hbr⟩ := h.toCore.handleResetStreamFrameImpl hok
    exact ⟨(hcore.isNewlyCompleted fun _ => hbr).snocOut rfl id, settled_isNewlyCompleted _⟩
  | read n =>
    obtain ⟨⟨s₂, out⟩, hr, hstep⟩ := Option.map_eq_some_iff.mp hstep
    cases hstep
    obtain ⟨s₃, acc, hi, hdata, hcases⟩ := Read_eq_some hr
    obtain ⟨hcore, hbr, hblk⟩ := h.toCore.readImpl h.settled hN hi hdata rfl
    have hcore' := hcore.addCall_quiet (c := .read n) (fun _ => id) id
    rcases hcases with ⟨hb, rfl, -⟩ | ⟨-, rfl, -⟩
    · exact ⟨hcore', hblk hb⟩
    · exact ⟨hcore'.isNewlyCompleted hbr, settled_isNewlyCompleted _⟩
  | cancelRead errorCode =>
    cases hstep
    exact ⟨(h.toCore.cancelReadImpl errorCode).finish.snocOut rfl id, settled_finish _⟩

end Calls

/-! ## Runs -/

/-- A new stream holds the invariant: nothing was received or read. -/
theorem inv_newReceiveStream (S : List UInt8) (streamID : ℤ) (sid rw sw crw : ℕ) :
    Inv S [] [] (newReceiveStream streamID (NewStreamFlowController sid rw sw)
      (NewConnectionFlowController crw) : ReceiveStream Cb) where
  cursor := ⟨⟨[], [], ⟨FrameSorter.reassembles_newFrameSorter S,
      (fun p hp => by obtain ⟨c, hc, -⟩ := hp; cases hc),
      (fun _ p hp => by obtain ⟨c, hc, -⟩ := hp; cases hc), rfl⟩⟩,
    (fun d hd => by cases hd), (fun hl => by cases hl), .inl rfl, Nat.le_refl _, rfl, rfl⟩
  eofAfter := trivial
  credited _ _ _ := rfl
  final_uncancelled _ _ := .inl rfl
  fin_final hex := by obtain ⟨c, hc, -⟩ := hex; cases hc
  final_of := .inl rfl
  final_known hne := absurd rfl hne
  completed_known hc := by cases hc
  abandoned hcr := by cases hcr
  completed_of hc := by cases hc
  errorRead_stopped her := by cases her
  cancelled_of hc := by rcases hc with hc | hc <;> cases hc
  settled := .inr (.inl rfl)

/-- **Every run of slices of `S`, resets, reads and cancellations that all succeed keeps the
invariant.** -/
theorem inv_of_run (S : List UInt8) (hN : S.length ≤ MaxByteCount) (streamID : ℤ)
    (sid rw sw crw : ℕ)
    (hrun : Machine.run step (newReceiveStream streamID (NewStreamFlowController sid rw sw)
      (NewConnectionFlowController crw)) calls = some (s, outs))
    (hcalls : ∀ c ∈ calls, c.SliceOf S) (hok : ∀ o ∈ outs, o.Ok) : Inv S calls outs s := by
  have := Machine.run_induction_of (Call.SliceOf S) Output.Ok (fun s calls outs => Inv S calls outs s)
    (fun _ _ _ _ _ _ h hc ho hs => h.of_step hN hc ho hs) [] []
    (inv_newReceiveStream S streamID sid rw sw crw) hcalls hok hrun
  simpa using this

/-! ## Reads make progress -/

/-- **A `Read` of a stream that has all its data makes progress**: with a buffer of at least
one byte it returns a byte or `io.EOF`, and never waits. -/
theorem Inv.read_progress (h : Inv S calls outs s) (hN : S.length ≤ MaxByteCount)
    (hnc : ∀ c ∈ calls, ¬c.Cancels) (hall : ∀ p < S.length, Delivered calls p)
    (hfin : ∃ c ∈ calls, c.IsFin) {n : ℕ} (hn : 0 < n) :
    ∃ s' out, step s (.read n) = some (s', .read out) ∧
      (out.result = .eof ∨ 0 < out.data.length) := by
  -- nothing cancelled the stream, so the FIN bit set the final offset to the end of `S`
  have hcl : s.cancelledLocally = false := by
    cases hc : s.cancelledLocally
    · rfl
    · obtain ⟨c, hmem, hcan⟩ := h.cancelled_of (.inl hc)
      exact absurd hcan (hnc c hmem)
  have hcr : s.cancelledRemotely = false := by
    cases hc : s.cancelledRemotely
    · rfl
    · obtain ⟨c, hmem, hcan⟩ := h.cancelled_of (.inr hc)
      exact absurd hcan (hnc c hmem)
  have hfo := h.fin_final hfin hcl hcr
  have himpl : ∃ s₁ acc e, s.readImpl n = some (s₁, acc, e) ∧
      (e = .eof ∨ (e = .ok ∧ 0 < acc.data.length)) := by
    unfold readImpl
    by_cases hend : s.currentFrameIsLast = true ∧ s.currentFrame = none
    · rw [if_pos (by simp [hend])]
      exact ⟨_, _, _, rfl, .inl rfl⟩
    rw [if_neg (by simpa using hend), if_neg (by simp [hcl, hcr])]
    have her : s.errorRead = false := by
      cases her : s.errorRead
      · rfl
      · rcases h.errorRead_stopped her with hcl' | hcr' | hend'
        · exact absurd (hcl.symm.trans hcl') (by simp)
        · exact absurd (hcr.symm.trans hcr') (by simp)
        · exact absurd hend' hend
    have hcomp : s.completed = false := by
      cases hc : s.completed
      · rfl
      · rcases h.completed_of hc with hcl' | her'
        · exact absurd (hcl.symm.trans hcl') (by simp)
        · exact absurd (her.symm.trans her') (by simp)
    exact Cursor.readLoop_progress hN hn hall _
      (by simp only [ReadAcc.empty_data, List.length_nil]; omega)
      (by rw [ReadAcc.empty_data, List.append_nil]; exact h.cursor)
      (by rw [ReadAcc.empty_data, List.append_nil]; exact h.credited hcr hcl hcomp) hcr hcl hfo
  obtain ⟨s₁, acc, e, hi, he⟩ := himpl
  have hb : e ≠ .blocked := by
    rcases he with rfl | ⟨rfl, -⟩ <;> simp
  refine ⟨s₁.isNewlyCompleted.1, ⟨acc.data, e, acc.released, s₁.isNewlyCompleted.2,
    acc.hasStreamWindowUpdate, acc.hasConnWindowUpdate⟩, ?_, ?_⟩
  · simp only [step, Read, hi, Option.map_some, if_neg hb]
  · rcases he with rfl | ⟨rfl, hpos⟩
    · exact .inl rfl
    · exact .inr hpos

/-- After an `io.EOF`, all of `S` was handed out. -/
theorem Inv.readData_eq_of_eof {o : Output Cb} (h : Inv S calls (outs ++ [o]) s)
    (he : o.IsEOF) : (outs ++ [o]).flatMap Output.readData = S := by
  have := ((eofAfter_append S o outs []).mp h.eofAfter).2 he
  simpa using this

/-- **`Read`s of any positive sizes hand out the rest of `S` and then `io.EOF`**, once all of
`S` and the FIN bit arrived and nothing cancelled the stream. By induction on how many bytes of
`S` are left: each `Read` that does not return `io.EOF` hands out a byte. -/
theorem Inv.reads_reach_eof (h : Inv S calls outs s) (hN : S.length ≤ MaxByteCount)
    (hnc : ∀ c ∈ calls, ¬c.Cancels) (hall : ∀ p < S.length, Delivered calls p)
    (hfin : ∃ c ∈ calls, c.IsFin) (sizes : ℕ → ℕ) (hsizes : ∀ i, 0 < sizes i) :
    ∃ k s' outs', Machine.run step s ((List.range k).map fun i => .read (sizes i)) =
        some (s', outs') ∧
      (outs ++ outs').flatMap Output.readData = S ∧ ∃ pre o, outs' = pre ++ [o] ∧ o.IsEOF := by
  induction hm : S.length - (outs.flatMap Output.readData).length using Nat.strong_induction_on
    generalizing calls outs s sizes with
  | _ m ih =>
  obtain ⟨s₁, out, hstep, hprog⟩ := h.read_progress hN hnc hall hfin (hsizes 0)
  have h₁ := h.of_step hN (c := .read (sizes 0)) (o := .read out) trivial trivial hstep
  rcases hprog with he | hpos
  · exact ⟨1, s₁, [.read out], by simp [Machine.run, hstep], h₁.readData_eq_of_eof he, [], _, rfl,
      he⟩
  -- the `Read` handed out a byte, and no more than the rest of `S`
  have hle := h₁.cursor.read_prefix.length_le
  simp only [List.flatMap_append, List.flatMap_singleton, List.length_append,
    Output.readData_read] at hle
  obtain ⟨k, s', outs', hrun, hS, pre, o', hpre, he⟩ :=
    ih (S.length - ((outs ++ [Output.read out]).flatMap Output.readData).length)
      (by simp only [List.flatMap_append, List.flatMap_singleton, List.length_append,
        Output.readData_read]; omega) h₁
    (fun c hc => (List.mem_append.mp hc).elim (hnc c) (by simp_all [Call.Cancels]))
    (fun p hp => (delivered_append _ _ p).mpr (.inl (hall p hp)))
    (hfin.elim fun c hc => ⟨c, List.mem_append_left _ hc.1, hc.2⟩)
    (fun i => sizes (i + 1)) (fun i => hsizes (i + 1)) rfl
  refine ⟨k + 1, s', .read out :: outs', ?_, by simpa using hS, .read out :: pre, o', by rw [hpre]; rfl,
    he⟩
  rw [List.range_succ_eq_map, List.map_cons, List.map_map]
  exact Machine.run_cons_of hstep hrun

/-! ## The receive stream delivers its data -/

/-- **A receive stream hands out exactly the bytes the peer sent, then `io.EOF`, and counts them
at the connection.** Over every run from a new stream of STREAM frames carrying slices of `S`,
RESET_STREAM frames, `Read`s and `CancelRead`s that all succeed: what `Read` returned is the
start of `S`, and every `io.EOF` comes after all of `S`; a completed stream counted its final
offset as read, which is the end of `S` or the final size of a RESET_STREAM; the connection
counted what the stream counted; and once all of `S` and the FIN bit arrived and nothing
cancelled the stream, `Read`s of any positive sizes hand out the rest of `S` and then
`io.EOF`. -/
theorem read_delivers_stream (S : List UInt8) (hN : S.length ≤ MaxByteCount) (streamID : ℤ)
    (sid rw sw crw : ℕ)
    (hrun : Machine.run step (newReceiveStream streamID (NewStreamFlowController sid rw sw)
      (NewConnectionFlowController crw)) calls = some (s, outs))
    (hcalls : ∀ c ∈ calls, c.SliceOf S) (hok : ∀ o ∈ outs, o.Ok) :
    outs.flatMap Output.readData <+: S ∧ EofAfter S [] outs ∧
      (s.completed = true → s.flowController.bytesRead = s.finalOffset ∧
        (s.finalOffset = S.length ∨
          ∃ frame, Call.handleResetStreamFrame frame ∈ calls ∧ frame.FinalSize = s.finalOffset)) ∧
      s.connection.bytesRead = s.flowController.bytesRead ∧
      ((∀ c ∈ calls, ¬c.Cancels) → (∀ p < S.length, Delivered calls p) →
        (∃ c ∈ calls, c.IsFin) → ∀ sizes : ℕ → ℕ, (∀ i, 0 < sizes i) →
          ∃ k s' outs', Machine.run step s ((List.range k).map fun i => .read (sizes i)) =
              some (s', outs') ∧
            (outs ++ outs').flatMap Output.readData = S ∧
            ∃ pre o, outs' = pre ++ [o] ∧ o.IsEOF) := by
  have h := inv_of_run S hN streamID sid rw sw crw hrun hcalls hok
  refine ⟨h.cursor.read_prefix, h.eofAfter, fun hc => ?_, h.cursor.conn_bytesRead,
    fun hnc hall hfin sizes hsizes => h.reads_reach_eof hN hnc hall hfin sizes hsizes⟩
  -- a completed stream knows its final offset, and counted its highest offset as read
  obtain ⟨hne, hbr⟩ := h.completed_known hc
  refine ⟨hbr.trans (h.final_known hne).2, ?_⟩
  rcases h.final_of with hm | hl | hr
  · exact absurd hm hne
  · exact .inl hl
  · exact .inr hr

/-- One frame with all of `[7, 8]` and the FIN bit: the sorter holds it, the final offset is
`2`, and both flow controllers have received two bytes. -/
theorem run_oneFrame :
    Machine.run step (newReceiveStream 0 (NewStreamFlowController 0 100 100)
      (NewConnectionFlowController 100) : ReceiveStream Unit)
      [.handleStreamFrame ⟨0, [7, 8], true, ()⟩] =
      some ({
        streamID := 0, frameQueue := ⟨AList.singleton 0 ⟨[7, 8], some ()⟩, 0, [⟨2, MaxByteCount⟩]⟩,
        finalOffset := 2, currentFrame := none, currentFrameDone := none, readPosInFrame := 0,
        currentFrameIsLast := false, queuedStopSending := false, queuedMaxStreamData := false,
        errorRead := false, completed := false, cancelledRemotely := false,
        cancelledLocally := false, cancelErr := none,
        flowController := ⟨⟨0, 100, 0, 0, 2, 100, 100⟩, 0, true⟩,
        connection := ⟨⟨0, 0, 0, 0, 2, 100, 100⟩⟩ },
        [.handleStreamFrame none [] false]) := by
  have h : FrameSorter.replaceLoop 2 (∅ : FrameQueue Unit) 0 false = .done ∅ 0 false false [] :=
    FrameSorter.replaceLoop_of_lookup_none rfl
  simp [Machine.run, step, handleStreamFrame, handleStreamFrameImpl, updateHighestReceived,
    StreamFlowController.UpdateHighestReceived, ConnectionFlowController.IncrementHighestReceived,
    BaseFlowController.checkFlowControlViolation, newReceiveStream, NewStreamFlowController,
    NewConnectionFlowController, isNewlyCompleted, FrameSorter.Push, FrameSorter.push,
    FrameSorter.locate, newFrameSorter, FrameSorter.findStartGap, FrameSorter.findEndGap,
    FrameSorter.findEndGapFrom, h, FrameSorter.cutFront, FrameSorter.cutBack, FrameSorter.store,
    FrameSorter.editGaps, FrameSorter.gapEdit, MaxByteCount, MaxStreamFrameSorterGaps]

theorem read_delivers_stream_oneFrame :
    ∃ s outs, Machine.run step (newReceiveStream 0 (NewStreamFlowController 0 100 100)
        (NewConnectionFlowController 100) : ReceiveStream Unit)
        [.handleStreamFrame ⟨0, [7, 8], true, ()⟩] = some (s, outs) ∧
      (outs.flatMap Output.readData <+: [7, 8] ∧ EofAfter [7, 8] [] outs ∧
        (s.completed = true → s.flowController.bytesRead = s.finalOffset ∧
          (s.finalOffset = 2 ∨ ∃ frame, Call.handleResetStreamFrame frame ∈
            [Call.handleStreamFrame ⟨0, [7, 8], true, ()⟩] ∧ frame.FinalSize = s.finalOffset)) ∧
        s.connection.bytesRead = s.flowController.bytesRead ∧
        ((∀ c ∈ [Call.handleStreamFrame ⟨0, [7, 8], true, ()⟩], ¬c.Cancels) →
          (∀ p < 2, Delivered [Call.handleStreamFrame ⟨0, [7, 8], true, ()⟩] p) →
          (∃ c ∈ [Call.handleStreamFrame ⟨0, [7, 8], true, ()⟩], c.IsFin) →
          ∀ sizes : ℕ → ℕ, (∀ i, 0 < sizes i) →
            ∃ k s' outs', Machine.run step s ((List.range k).map fun i => .read (sizes i)) =
                some (s', outs') ∧
              (outs ++ outs').flatMap Output.readData = [7, 8] ∧
              ∃ pre o, outs' = pre ++ [o] ∧ o.IsEOF)) :=
  ⟨_, _, run_oneFrame, read_delivers_stream [7, 8] (by decide) 0 0 100 100 100 run_oneFrame
    (by decide) (by decide)⟩

end ReceiveStream

end QuicGo
