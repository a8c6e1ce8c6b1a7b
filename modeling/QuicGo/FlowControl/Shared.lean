import Mathlib.Algebra.BigOperators.Group.Finset.Piecewise
import Mathlib.Data.Fintype.Basic
import Mathlib.Data.Fin.VecNotation
import QuicGo.FlowControl.Basic
import QuicGo.Lib.Run

/-!
# QuicGo — stream flow controllers sharing one connection flow controller

The streams of a connection, indexed by any finite type `ι`, each hold a stream flow controller
that points to the one connection flow controller. The receive side is driven by three calls:
`UpdateHighestReceived` when a STREAM or RESET_STREAM frame arrives, `AddBytesRead` when the
application reads, and `Abandon` when reading stops early. A caller reads only what was
received (`Call.Permitted`), and a run is meant to stop at the first error.

The bricks:

* `sum_update_add` — replacing one stream changes a sum over the streams by exactly what the
  replacement changes;
* `Inv` — the connection counts what the streams count, and every window holds;
  `Inv.of_step` — every permitted call that returns no error keeps it;
* `FinalKept` — a final size, once received, stays; `finalKept_of_run` — along every run,
  errors and all;
* `flowControl_of_reachable` — both, from the flow controllers as they are created.
-/

namespace QuicGo

namespace FlowControl

open StreamFlowController

/-- The stream flow controllers of a connection, indexed by `ι`, and the connection flow
controller they all forward to. -/
structure FlowControllers (ι : Type*) where
  connection : ConnectionFlowController
  streams : ι → StreamFlowController

/-- The flow controllers as they are created, before any frame arrives. -/
def newFlowControllers {ι : Type*} (connWindow : ℕ) (streamID streamWindow sendWindow : ι → ℕ) :
    FlowControllers ι :=
  ⟨NewConnectionFlowController connWindow,
    fun i => NewStreamFlowController (streamID i) (streamWindow i) (sendWindow i)⟩

namespace FlowControllers

variable {ι : Type*}

/-- The calls on the receive side of stream `i`. -/
inductive Call (ι : Type*)
  | updateHighestReceived (i : ι) (offset : ℕ) (final : Bool)
  | addBytesRead (i : ι) (n : ℕ)
  | abandon (i : ι)
  deriving DecidableEq, Repr

/-- What each call returns. -/
inductive Output
  | updateHighestReceived (err : Option TransportError)
  | addBytesRead (hasStreamWindowUpdate hasConnWindowUpdate : Bool)
  | abandon
  deriving DecidableEq, Repr

/-- A call that does not return an error. -/
def Output.NoError : Output → Prop
  | .updateHighestReceived err => err = none
  | _ => True

/-- A caller reads no more bytes than were received on the stream. -/
def Call.Permitted (s : FlowControllers ι) : Call ι → Prop
  | .addBytesRead i n => (s.streams i).bytesRead + n ≤ (s.streams i).highestReceived
  | _ => True

instance (s : FlowControllers ι) : (c : Call ι) → Decidable (Call.Permitted s c)
  | .updateHighestReceived .. => isTrue trivial
  | .addBytesRead i n => inferInstanceAs (Decidable ((s.streams i).bytesRead + n ≤ _))
  | .abandon _ => isTrue trivial

/-- One call on stream `i`: the stream's flow controller is replaced, and the connection's by
what the stream forwarded to it. -/
def step [DecidableEq ι] (s : FlowControllers ι) : Call ι → Option (FlowControllers ι × Output)
  | .updateHighestReceived i offset final =>
    let r := (s.streams i).UpdateHighestReceived s.connection offset final
    some (⟨r.2.1, Function.update s.streams i r.1⟩, .updateHighestReceived r.2.2)
  | .addBytesRead i n =>
    let r := (s.streams i).AddBytesRead s.connection n
    some (⟨r.2.1, Function.update s.streams i r.1⟩, .addBytesRead r.2.2.1 r.2.2.2)
  | .abandon i =>
    let r := (s.streams i).Abandon s.connection
    some (⟨r.2, Function.update s.streams i r.1⟩, .abandon)

/-- Every stream whose final size is known in `s` still has it, unchanged, in `s'`. -/
def FinalKept (s s' : FlowControllers ι) : Prop :=
  ∀ i, (s.streams i).receivedFinalOffset = true →
    (s'.streams i).receivedFinalOffset = true ∧
      (s'.streams i).highestReceived = (s.streams i).highestReceived

theorem FinalKept.trans {s₁ s₂ s₃ : FlowControllers ι} (h₁ : FinalKept s₁ s₂)
    (h₂ : FinalKept s₂ s₃) : FinalKept s₁ s₃ := fun i hi =>
  let ⟨hf, he⟩ := h₁ i hi
  let ⟨hf', he'⟩ := h₂ i hf
  ⟨hf', he'.trans he⟩

/-! ## The invariant -/

section Invariant

variable [Fintype ι]

/-- The connection counts what the streams count, each stream has read no more than it
received, and no controller has received more than its window allows. -/
structure Inv (s : FlowControllers ι) : Prop where
  highestReceived_eq : s.connection.highestReceived = ∑ i, (s.streams i).highestReceived
  bytesRead_eq : s.connection.bytesRead = ∑ i, (s.streams i).bytesRead
  read_le : ∀ i, (s.streams i).bytesRead ≤ (s.streams i).highestReceived
  stream_window : ∀ i, (s.streams i).highestReceived ≤ (s.streams i).receiveWindow
  connection_window : s.connection.highestReceived ≤ s.connection.receiveWindow

theorem inv_newFlowControllers (connWindow : ℕ) (streamID streamWindow sendWindow : ι → ℕ) :
    Inv (newFlowControllers connWindow streamID streamWindow sendWindow) :=
  ⟨by simp [newFlowControllers, NewConnectionFlowController, NewStreamFlowController],
    by simp [newFlowControllers, NewConnectionFlowController, NewStreamFlowController],
    fun _ => Nat.le_refl 0, fun _ => Nat.zero_le _, Nat.zero_le _⟩

variable [DecidableEq ι]

/-- Replacing one stream changes a sum over the streams by exactly what the replacement
changes. -/
theorem sum_update_add {β : Type*} (f : ι → β) (g : β → ℕ) (i : ι) (b : β) :
    ∑ j, g (Function.update f i b j) + g (f i) = ∑ j, g (f j) + g b := by
  have hupd : ∀ j, g (Function.update f i b j) = Function.update (fun j => g (f j)) i (g b) j :=
    fun j => Function.apply_update (fun _ => g) f i b j
  simp only [hupd]
  rw [Finset.sum_update_of_mem (Finset.mem_univ i),
    Finset.sum_eq_add_sum_sdiff_singleton_of_mem (Finset.mem_univ i) (fun j => g (f j))]
  omega

/-- **Replacing one stream keeps the invariant** when the connection changes its two counters
by what the stream changed, and the new stream and connection respect their windows. -/
theorem Inv.update {s : FlowControllers ι} (hi : Inv s) {i : ι} {conn' : ConnectionFlowController}
    {c' : StreamFlowController}
    (hhr : conn'.highestReceived + (s.streams i).highestReceived =
      s.connection.highestReceived + c'.highestReceived)
    (hbr : conn'.bytesRead + (s.streams i).bytesRead = s.connection.bytesRead + c'.bytesRead)
    (hread : c'.bytesRead ≤ c'.highestReceived) (hwin : c'.highestReceived ≤ c'.receiveWindow)
    (hconn : conn'.highestReceived ≤ conn'.receiveWindow) :
    Inv ⟨conn', Function.update s.streams i c'⟩ := by
  have hsum_hr := sum_update_add s.streams (·.highestReceived) i c'
  have hsum_br := sum_update_add s.streams (·.bytesRead) i c'
  have hhr₀ := hi.highestReceived_eq
  have hbr₀ := hi.bytesRead_eq
  refine ⟨by dsimp only at hsum_hr ⊢; omega, by dsimp only at hsum_br ⊢; omega, fun j => ?_,
    fun j => ?_, hconn⟩
  · by_cases hj : j = i
    · subst hj
      simpa using hread
    · simpa [Function.update_of_ne hj] using hi.read_le j
  · by_cases hj : j = i
    · subst hj
      simpa using hwin
    · simpa [Function.update_of_ne hj] using hi.stream_window j

end Invariant

variable [DecidableEq ι]

/-! ## Final sizes -/

variable {s s' : FlowControllers ι} {c : Call ι} {o : Output}

/-- Replacing one stream by one with the same final-size state keeps every final size. -/
theorem finalKept_update {i : ι} {conn' : ConnectionFlowController} {c' : StreamFlowController}
    (h : (s.streams i).receivedFinalOffset = true →
      c'.receivedFinalOffset = true ∧ c'.highestReceived = (s.streams i).highestReceived) :
    FinalKept s ⟨conn', Function.update s.streams i c'⟩ := by
  intro j hj
  by_cases hji : j = i
  · subst hji
    simpa using h hj
  · simpa [Function.update_of_ne hji] using hj

/-- **No call changes a known final size**, whatever it returns. -/
theorem finalKept_of_step (h : step s c = some (s', o)) : FinalKept s s' := by
  cases c with
  | updateHighestReceived i offset final =>
    cases h
    refine finalKept_update fun hf => ?_
    rw [(UpdateHighestReceived_of_final hf).1]
    exact ⟨hf, rfl⟩
  | addBytesRead i n =>
    cases h
    exact finalKept_update fun hf => ⟨hf, rfl⟩
  | abandon i =>
    cases h
    exact finalKept_update fun hf => ⟨by simpa using hf, by simp⟩

theorem finalKept_of_run {calls : List (Call ι)} {outs : List Output}
    (h : Machine.run step s calls = some (s', outs)) : FinalKept s s' := by
  have := Machine.run_induction_of (fun _ => True) (fun _ => True)
    (fun s' _ _ => FinalKept s s') (fun _ _ _ _ _ _ hk _ _ hs => hk.trans (finalKept_of_step hs))
    [] [] (fun _ hi => ⟨hi, rfl⟩) (fun _ _ => trivial) (fun _ _ => trivial) h
  exact this

/-! ## The invariant along a run -/

variable [Fintype ι]

theorem Inv.of_updateHighestReceived (hi : Inv s) {i : ι} {offset : ℕ} {final : Bool}
    (h : ((s.streams i).UpdateHighestReceived s.connection offset final).2.2 = none) :
    Inv ⟨((s.streams i).UpdateHighestReceived s.connection offset final).2.1,
      Function.update s.streams i
        ((s.streams i).UpdateHighestReceived s.connection offset final).1⟩ := by
  have hread := hi.read_le i
  have hwin := hi.stream_window i
  rcases UpdateHighestReceived_eq_none h with ⟨h₁, h₂⟩ | ⟨-, hlt, hwin', hconn, h₁, h₂⟩
  · -- a reordered or repeated frame: only the final-offset flag may change
    rw [h₁, h₂]
    exact hi.update rfl rfl hread hwin hi.connection_window
  · -- a new highest offset: the stream and the connection grow by the same increment
    rw [h₁, h₂]
    refine hi.update ?_ rfl ?_ hwin' hconn
    · show s.connection.highestReceived + (offset - (s.streams i).highestReceived) +
          (s.streams i).highestReceived = s.connection.highestReceived + offset
      omega
    · show (s.streams i).bytesRead ≤ offset
      omega

/-- **Every permitted call that returns no error keeps the invariant.** -/
theorem Inv.of_step (hi : Inv s) (hc : c.Permitted s) (ho : o.NoError)
    (h : step s c = some (s', o)) : Inv s' := by
  cases c with
  | updateHighestReceived i offset final =>
    cases h
    exact hi.of_updateHighestReceived ho
  | addBytesRead i n =>
    cases h
    -- the stream and the connection count the same bytes read
    refine hi.update rfl ?_ hc (hi.stream_window i) hi.connection_window
    show s.connection.bytesRead + n + (s.streams i).bytesRead =
      s.connection.bytesRead + ((s.streams i).bytesRead + n)
    omega
  | abandon i =>
    cases h
    -- the connection is credited the bytes the stream had not read
    have hread := hi.read_le i
    refine hi.update ?_ ?_ (by simp) (by simpa using hi.stream_window i) ?_
    · simp only [Abandon_fst, Abandon_conn]
    · simp only [Abandon_fst, Abandon_conn]
      omega
    · simpa using hi.connection_window

/-- **Flow control over every run.** In every state that permitted calls returning no error
reach from the flow controllers as they are created, the connection's highest received offset
and bytes read are the sums of the streams', every controller is within its receive window,
and from there on no run, whatever its calls return, changes a final size once received. -/
theorem flowControl_of_reachable {connWindow : ℕ} {streamID streamWindow sendWindow : ι → ℕ}
    (h : Machine.Reachable (Machine.guard Call.Permitted step)
      (newFlowControllers connWindow streamID streamWindow sendWindow) (fun _ => True)
      Output.NoError s) :
    s.connection.highestReceived = ∑ i, (s.streams i).highestReceived ∧
      s.connection.bytesRead = ∑ i, (s.streams i).bytesRead ∧
      (∀ i, (s.streams i).highestReceived ≤ (s.streams i).receiveWindow) ∧
      s.connection.highestReceived ≤ s.connection.receiveWindow ∧
      ∀ calls s' outs, Machine.run step s calls = some (s', outs) → FinalKept s s' := by
  have hi : Inv s := by
    refine Machine.Reachable.induction Inv (inv_newFlowControllers _ _ _ _) ?_ h
    intro s c s' o hi _ ho hstep
    obtain ⟨hc, hstep⟩ := Machine.guard_eq_some.mp hstep
    exact hi.of_step hc ho hstep
  exact ⟨hi.highestReceived_eq, hi.bytesRead_eq, hi.stream_window, hi.connection_window,
    fun _ _ _ hrun => finalKept_of_run hrun⟩

/-- Two streams: 10 bytes arrive on stream 0, 4 of them are read and the rest abandoned; then
stream 1 receives its final size 20. -/
def twoStreams : List (Call (Fin 2)) :=
  [.updateHighestReceived 0 10 false, .addBytesRead 0 4, .abandon 0,
    .updateHighestReceived 1 20 true]

/-- Where `twoStreams` ends: the connection has received 30 bytes and read 10. -/
def twoStreamsEnd : FlowControllers (Fin 2) :=
  ⟨⟨⟨0, 0, 0, 10, 30, 100, 100⟩⟩,
    ![⟨⟨0, 0, 0, 10, 10, 50, 50⟩, 0, false⟩, ⟨⟨0, 0, 0, 0, 20, 50, 50⟩, 4, true⟩]⟩

theorem run_twoStreams :
    Machine.run (Machine.guard Call.Permitted step)
      (newFlowControllers 100 ![0, 4] ![50, 50] ![0, 0]) twoStreams =
      some (twoStreamsEnd, [.updateHighestReceived none, .addBytesRead false false, .abandon,
          .updateHighestReceived none]) := by
  simp [twoStreams, twoStreamsEnd, Machine.run, Machine.guard, Call.Permitted, step, newFlowControllers,
    NewConnectionFlowController, NewStreamFlowController, UpdateHighestReceived,
    ConnectionFlowController.IncrementHighestReceived,
    BaseFlowController.checkFlowControlViolation, AddBytesRead, shouldQueueWindowUpdate,
    BaseFlowController.hasWindowUpdate, BaseFlowController.addBytesRead,
    ConnectionFlowController.AddBytesRead, Abandon]
  -- the streams, updated one by one, against the two of them written out
  decide

theorem flowControl_twoStreams :
    twoStreamsEnd.connection.highestReceived = ∑ i, (twoStreamsEnd.streams i).highestReceived ∧
      twoStreamsEnd.connection.bytesRead = ∑ i, (twoStreamsEnd.streams i).bytesRead ∧
      (∀ i, (twoStreamsEnd.streams i).highestReceived ≤ (twoStreamsEnd.streams i).receiveWindow) ∧
      twoStreamsEnd.connection.highestReceived ≤ twoStreamsEnd.connection.receiveWindow ∧
      ∀ calls s' outs, Machine.run step twoStreamsEnd calls = some (s', outs) →
        FinalKept twoStreamsEnd s' :=
  flowControl_of_reachable
    ⟨twoStreams, _, run_twoStreams, fun _ _ => trivial, by simp [Output.NoError]⟩

end FlowControllers

end FlowControl

end QuicGo
