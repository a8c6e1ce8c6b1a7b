import Mathlib.Data.Rat.Defs
import QuicGo.FlowControl.Shared

/-!
# QuicGo — window updates and auto-tuning (`internal/flowcontrol`)

When enough of its receive window has been consumed, a flow controller advertises a new one,
`bytesRead + receiveWindowSize`, in a MAX_DATA or MAX_STREAM_DATA frame. Before it does, it
auto-tunes the window size: if the last half window or more was read within a few RTTs, the
size doubles, up to `maxReceiveWindowSize`, and a stream whose size grew asks the connection
for at least 1.5 times as much (`EnsureMinimumWindowSize`).

`Tuning` is the auto-tuning state that `Basic` leaves out. Times are `time.Time` as nanoseconds
on `ℤ`, the smoothed RTT a duration in nanoseconds, and the `allowWindowIncrease` callback is
passed to each call, `none` where it is nil, so that it may answer differently every time. The
code compares the time since the epoch started with a `float64`; the model computes it exactly
on `ℚ`, which every result here allows, since they hold whichever way the comparison goes. The
factor 1.5 is `size * 3 / 2`, which `float64` computes exactly below `2 ^ 52`.

The bricks:

* `maybeAdjustWindowSize_eq`, `EnsureMinimumWindowSize_eq` — auto-tuning changes nothing but
  the window size, which only grows, and never above `maxReceiveWindowSize`;
* `getWindowUpdate_lt` — the window is renewed only when at most three quarters of the size is
  left of it, so a new window lies strictly above the old one whenever the size is positive;
* `Tuned.step_moves`, `Tuned.step_advertised` — the step lemmas of the whole system: every call
  keeps every window and window size or raises it (`Moves`), and an offset it advertises lies
  above the window of its controller;
* `Tuned.run_advertised` — along a run, the offsets each controller advertises increase.

Strictly so only for a positive window size: with a window of 0, a controller that counts bytes
read that never arrived advertises the same offset twice (`zeroWindow_advertised_twice`).
-/

namespace QuicGo

namespace FlowControl

/-- The auto-tuning state of a `baseFlowController`: when the current epoch started, how many
bytes had been read then, and the largest window size. -/
structure Tuning where
  epochStartTime : ℤ
  epochStartOffset : ℕ
  maxReceiveWindowSize : ℕ
  deriving DecidableEq, Repr

/-- `time.Duration` of a `float64`: rounded toward zero. -/
def durationOf (x : ℚ) : ℤ := x.num.tdiv x.den

namespace BaseFlowController

/-- `baseFlowController.startNewAutoTuningEpoch`. -/
def startNewAutoTuningEpoch (c : BaseFlowController) (t : Tuning) (now : ℤ) : Tuning :=
  { t with epochStartTime := now, epochStartOffset := c.bytesRead }

/-- `baseFlowController.maybeAdjustWindowSize`, with the smoothed RTT of `rttStats`. -/
def maybeAdjustWindowSize (c : BaseFlowController) (t : Tuning)
    (allowWindowIncrease : Option (ℕ → Bool)) (rtt now : ℤ) : BaseFlowController × Tuning :=
  let bytesReadInEpoch := c.bytesRead - t.epochStartOffset
  -- don't do anything if less than half the window has been consumed
  if bytesReadInEpoch ≤ c.receiveWindowSize / 2 then (c, t)
  else if rtt = 0 then (c, t)
  else
    let fraction : ℚ := (bytesReadInEpoch : ℚ) / c.receiveWindowSize
    let c :=
      -- the window is consumed too fast: try to increase the window size
      if now - t.epochStartTime < durationOf (4 * fraction * rtt) then
        let newSize := min (2 * c.receiveWindowSize) t.maxReceiveWindowSize
        if decide (newSize > c.receiveWindowSize) &&
            allowWindowIncrease.all (· (newSize - c.receiveWindowSize)) then
          { c with receiveWindowSize := newSize }
        else c
      else c
    (c, c.startNewAutoTuningEpoch t now)

/-- `baseFlowController.getWindowUpdate`: the new state, and the offset to advertise, 0 for
none. -/
def getWindowUpdate (c : BaseFlowController) (t : Tuning)
    (allowWindowIncrease : Option (ℕ → Bool)) (rtt now : ℤ) : BaseFlowController × Tuning × ℕ :=
  if !c.hasWindowUpdate then (c, t, 0)
  else
    let r := c.maybeAdjustWindowSize t allowWindowIncrease rtt now
    let c := { r.1 with receiveWindow := r.1.bytesRead + r.1.receiveWindowSize }
    (c, r.2, c.receiveWindow)

end BaseFlowController

namespace ConnectionFlowController

/-- `connectionFlowController.GetWindowUpdate`. -/
def GetWindowUpdate (c : ConnectionFlowController) (t : Tuning) (allowWindowIncrease : ℕ → Bool)
    (rtt now : ℤ) : ConnectionFlowController × Tuning × ℕ :=
  let r := c.getWindowUpdate t (some allowWindowIncrease) rtt now
  (⟨r.1⟩, r.2.1, r.2.2)

/-- `connectionFlowController.EnsureMinimumWindowSize`. -/
def EnsureMinimumWindowSize (c : ConnectionFlowController) (t : Tuning)
    (allowWindowIncrease : ℕ → Bool) (inc : ℕ) (now : ℤ) : ConnectionFlowController × Tuning :=
  if inc ≤ c.receiveWindowSize then (c, t)
  else
    let newSize := min inc t.maxReceiveWindowSize
    let delta := newSize - c.receiveWindowSize
    let c : ConnectionFlowController :=
      if decide (delta > 0) && allowWindowIncrease delta then
        { c with receiveWindowSize := newSize }
      else c
    (c, c.startNewAutoTuningEpoch t now)

end ConnectionFlowController

namespace StreamFlowController

/-- `streamFlowController.GetWindowUpdate`, with the connection it forwards to: the stream's
`allowWindowIncrease` is nil, the connection's is passed on. -/
def GetWindowUpdate (c : StreamFlowController) (t : Tuning) (conn : ConnectionFlowController)
    (connTuning : Tuning) (allowWindowIncrease : ℕ → Bool) (rtt now : ℤ) :
    StreamFlowController × Tuning × ConnectionFlowController × Tuning × ℕ :=
  -- the peer won't need any additional flow control credit once the final offset is known
  if c.receivedFinalOffset then (c, t, conn, connTuning, 0)
  else
    let oldWindowSize := c.receiveWindowSize
    let r := c.getWindowUpdate t none rtt now
    let c := { c with toBaseFlowController := r.1 }
    -- auto-tuning enlarged the window size
    if c.receiveWindowSize > oldWindowSize then
      let rc := conn.EnsureMinimumWindowSize connTuning allowWindowIncrease
        (c.receiveWindowSize * 3 / 2) now
      (c, r.2.1, rc.1, rc.2, r.2.2)
    else (c, r.2.1, conn, connTuning, r.2.2)

end StreamFlowController

/-! ## Auto-tuning -/

namespace BaseFlowController

variable (c : BaseFlowController) (t : Tuning) (allow : Option (ℕ → Bool)) (rtt now : ℤ)

@[simp] theorem startNewAutoTuningEpoch_max :
    (c.startNewAutoTuningEpoch t now).maxReceiveWindowSize = t.maxReceiveWindowSize := rfl

@[simp] theorem maybeAdjustWindowSize_max :
    (c.maybeAdjustWindowSize t allow rtt now).2.maxReceiveWindowSize = t.maxReceiveWindowSize := by
  unfold maybeAdjustWindowSize
  dsimp only
  split_ifs <;> rfl

/-- **Auto-tuning** changes nothing but the window size, which it keeps or raises; it raises it
to at most `maxReceiveWindowSize`. -/
theorem maybeAdjustWindowSize_eq :
    ∃ size, (c.maybeAdjustWindowSize t allow rtt now).1 = { c with receiveWindowSize := size } ∧
      c.receiveWindowSize ≤ size ∧
      (c.receiveWindowSize ≤ t.maxReceiveWindowSize → size ≤ t.maxReceiveWindowSize) := by
  unfold maybeAdjustWindowSize
  dsimp only
  split_ifs with hhalf hrtt hfast hgrow
  · exact ⟨_, rfl, le_rfl, id⟩
  · exact ⟨_, rfl, le_rfl, id⟩
  · -- the size doubles, up to the maximum
    simp only [Bool.and_eq_true, decide_eq_true_eq] at hgrow
    exact ⟨_, rfl, le_of_lt hgrow.1, fun _ => min_le_right _ _⟩
  · exact ⟨_, rfl, le_rfl, id⟩
  · exact ⟨_, rfl, le_rfl, id⟩

@[simp] theorem getWindowUpdate_max :
    (c.getWindowUpdate t allow rtt now).2.1.maxReceiveWindowSize = t.maxReceiveWindowSize := by
  unfold getWindowUpdate
  split_ifs <;> simp

/-- **A window update**: without one nothing changes and 0 is returned; with one, the window is
renewed from the bytes read with the tuned size, and the new window is returned. -/
theorem getWindowUpdate_eq :
    (c.hasWindowUpdate = false ∧ c.getWindowUpdate t allow rtt now = (c, t, 0)) ∨
    (c.hasWindowUpdate = true ∧ ∃ size, c.receiveWindowSize ≤ size ∧
      (c.receiveWindowSize ≤ t.maxReceiveWindowSize → size ≤ t.maxReceiveWindowSize) ∧
      (c.getWindowUpdate t allow rtt now).1 =
        { c with receiveWindow := c.bytesRead + size, receiveWindowSize := size } ∧
      (c.getWindowUpdate t allow rtt now).2.2 = c.bytesRead + size) := by
  unfold getWindowUpdate
  cases hw : c.hasWindowUpdate
  · exact Or.inl ⟨rfl, rfl⟩
  · obtain ⟨size, heq, hle, hmax⟩ := c.maybeAdjustWindowSize_eq t allow rtt now
    refine Or.inr ⟨rfl, size, hle, hmax, ?_⟩
    simp only [Bool.not_true, Bool.false_eq_true, if_false, heq, and_self]

/-- The window is renewed only when at most three quarters of the size are left of it: a new
window at least a positive size above the bytes read lies strictly above the old one. -/
theorem receiveWindow_lt_of_hasWindowUpdate {c : BaseFlowController} (h : c.hasWindowUpdate = true)
    (h0 : 0 < c.receiveWindowSize) {size : ℕ} (hle : c.receiveWindowSize ≤ size) :
    c.receiveWindow < c.bytesRead + size := by
  unfold hasWindowUpdate at h
  simp only [decide_eq_true_eq] at h
  omega

end BaseFlowController

namespace ConnectionFlowController

variable (c : ConnectionFlowController) (t : Tuning) (allow : ℕ → Bool) (inc : ℕ) (now : ℤ)

@[simp] theorem EnsureMinimumWindowSize_max :
    (c.EnsureMinimumWindowSize t allow inc now).2.maxReceiveWindowSize = t.maxReceiveWindowSize := by
  unfold EnsureMinimumWindowSize
  dsimp only
  split_ifs <;> rfl

/-- **`EnsureMinimumWindowSize`** changes nothing but the window size, which it keeps or raises
to at most `maxReceiveWindowSize`. -/
theorem EnsureMinimumWindowSize_eq :
    ∃ size, (c.EnsureMinimumWindowSize t allow inc now).1 = { c with receiveWindowSize := size } ∧
      c.receiveWindowSize ≤ size ∧
      (c.receiveWindowSize ≤ t.maxReceiveWindowSize → size ≤ t.maxReceiveWindowSize) := by
  unfold EnsureMinimumWindowSize
  dsimp only
  split_ifs with hinc hgrow
  · exact ⟨_, rfl, le_rfl, id⟩
  · -- the size rises to the increment, up to the maximum
    simp only [Bool.and_eq_true, decide_eq_true_eq] at hgrow
    exact ⟨_, rfl, by omega, fun _ => min_le_right _ _⟩
  · exact ⟨_, rfl, le_rfl, id⟩

end ConnectionFlowController

namespace StreamFlowController

variable (c : StreamFlowController) (t : Tuning) (conn : ConnectionFlowController) (ct : Tuning)
  (allow : ℕ → Bool) (rtt now : ℤ)

/-- **A stream's window update**: once the final offset is known nothing changes and 0 is
returned; otherwise it is the window update of the stream's own controller, and the connection
keeps its window size or has it raised by `EnsureMinimumWindowSize`. -/
theorem GetWindowUpdate_eq :
    (c.receivedFinalOffset = true ∧ c.GetWindowUpdate t conn ct allow rtt now = (c, t, conn, ct, 0)) ∨
    (c.receivedFinalOffset = false ∧
      (c.GetWindowUpdate t conn ct allow rtt now).1 =
        { c with toBaseFlowController := (c.getWindowUpdate t none rtt now).1 } ∧
      (c.GetWindowUpdate t conn ct allow rtt now).2.1 = (c.getWindowUpdate t none rtt now).2.1 ∧
      (c.GetWindowUpdate t conn ct allow rtt now).2.2.2.2 = (c.getWindowUpdate t none rtt now).2.2 ∧
      ((c.GetWindowUpdate t conn ct allow rtt now).2.2.1 = conn ∧
          (c.GetWindowUpdate t conn ct allow rtt now).2.2.2.1 = ct ∨
        ∃ inc, ((c.GetWindowUpdate t conn ct allow rtt now).2.2.1,
          (c.GetWindowUpdate t conn ct allow rtt now).2.2.2.1) =
            conn.EnsureMinimumWindowSize ct allow inc now)) := by
  unfold GetWindowUpdate
  cases hf : c.receivedFinalOffset
  · refine Or.inr ⟨rfl, ?_⟩
    simp only [Bool.false_eq_true, if_false]
    -- whether auto-tuning enlarged the stream's window size
    split_ifs
    · exact ⟨rfl, rfl, rfl, Or.inr ⟨_, rfl⟩⟩
    · exact ⟨rfl, rfl, rfl, Or.inl ⟨rfl, rfl⟩⟩
  · exact Or.inl ⟨rfl, rfl⟩

/-- `UpdateHighestReceived` leaves the windows and window sizes of both controllers. -/
theorem UpdateHighestReceived_windows (offset : ℕ) (final : Bool) :
    (c.UpdateHighestReceived conn offset final).1.receiveWindow = c.receiveWindow ∧
      (c.UpdateHighestReceived conn offset final).1.receiveWindowSize = c.receiveWindowSize ∧
      (c.UpdateHighestReceived conn offset final).2.1.receiveWindow = conn.receiveWindow ∧
      (c.UpdateHighestReceived conn offset final).2.1.receiveWindowSize =
        conn.receiveWindowSize := by
  unfold UpdateHighestReceived
  dsimp only
  split_ifs <;> simp

/-- `Abandon` leaves the connection's window and window size. -/
theorem Abandon_windows :
    (c.Abandon conn).2.receiveWindow = conn.receiveWindow ∧
      (c.Abandon conn).2.receiveWindowSize = conn.receiveWindowSize := by
  unfold Abandon
  dsimp only
  split <;> simp

end StreamFlowController

/-! ## The receive windows of a connection -/

namespace FlowControllers

variable {ι : Type*}

/-- The flow controller `who`: the connection for `none`, stream `i` for `some i`. -/
def base (f : FlowControllers ι) : Option ι → BaseFlowController
  | none => f.connection.toBaseFlowController
  | some i => (f.streams i).toBaseFlowController

/-- Replacing stream `i` and the connection by controllers with the same windows and window
sizes keeps those of every controller. -/
theorem base_update_windows [DecidableEq ι] {f : FlowControllers ι} {i : ι}
    {c' : StreamFlowController} {conn' : ConnectionFlowController}
    (hc : c'.receiveWindow = (f.streams i).receiveWindow ∧
      c'.receiveWindowSize = (f.streams i).receiveWindowSize)
    (hconn : conn'.receiveWindow = f.connection.receiveWindow ∧
      conn'.receiveWindowSize = f.connection.receiveWindowSize) (who : Option ι) :
    ((⟨conn', Function.update f.streams i c'⟩ : FlowControllers ι).base who).receiveWindow =
        (f.base who).receiveWindow ∧
      ((⟨conn', Function.update f.streams i c'⟩ : FlowControllers ι).base who).receiveWindowSize =
        (f.base who).receiveWindowSize := by
  cases who with
  | none => exact hconn
  | some j =>
    by_cases hj : j = i
    · subst hj
      simpa [base] using hc
    · simp [base, Function.update_of_ne hj]

/-- A frame that arrives, a read, or an abandoned stream leaves every window and window size as
it is. -/
theorem step_windows [DecidableEq ι] {f f' : FlowControllers ι} {c : Call ι} {o : Output}
    (h : step f c = some (f', o)) (who : Option ι) :
    (f'.base who).receiveWindow = (f.base who).receiveWindow ∧
      (f'.base who).receiveWindowSize = (f.base who).receiveWindowSize := by
  cases c with
  | updateHighestReceived i offset final =>
    obtain ⟨h₁, h₂, h₃, h₄⟩ :=
      (f.streams i).UpdateHighestReceived_windows f.connection offset final
    simp only [step, Option.some.injEq, Prod.mk.injEq] at h
    obtain ⟨rfl, -⟩ := h
    exact base_update_windows ⟨h₁, h₂⟩ ⟨h₃, h₄⟩ who
  | addBytesRead i n =>
    simp only [step, Option.some.injEq, Prod.mk.injEq] at h
    obtain ⟨rfl, -⟩ := h
    exact base_update_windows (by simp) (by simp) who
  | abandon i =>
    simp only [step, Option.some.injEq, Prod.mk.injEq] at h
    obtain ⟨rfl, -⟩ := h
    exact base_update_windows (by simp) ((f.streams i).Abandon_windows f.connection) who

end FlowControllers

/-- The flow controllers of a connection with their auto-tuning state. -/
structure Tuned (ι : Type*) extends FlowControllers ι where
  connTuning : Tuning
  streamTunings : ι → Tuning

/-- The flow controllers as they are created, with the largest window sizes of the connection
and of each stream: no epoch has started. -/
def newTuned {ι : Type*} (connWindow maxConnWindow : ℕ)
    (streamID streamWindow maxStreamWindow sendWindow : ι → ℕ) : Tuned ι :=
  ⟨newFlowControllers connWindow streamID streamWindow sendWindow, ⟨0, 0, maxConnWindow⟩,
    fun i => ⟨0, 0, maxStreamWindow i⟩⟩

namespace Tuned

variable {ι : Type*}

/-- The calls on the receive side: those of `FlowControllers`, at a time; the window update of
a stream and of the connection; and `EnsureMinimumWindowSize` on the connection. Each call that
may auto-tune carries the answer of the connection's `allowWindowIncrease` and the smoothed
RTT. -/
inductive Call (ι : Type*)
  | call (c : FlowControllers.Call ι) (now : ℤ)
  | streamWindowUpdate (i : ι) (allowWindowIncrease : ℕ → Bool) (rtt now : ℤ)
  | connWindowUpdate (allowWindowIncrease : ℕ → Bool) (rtt now : ℤ)
  | ensureMinimumWindowSize (inc : ℕ) (allowWindowIncrease : ℕ → Bool) (now : ℤ)

/-- What each call returns; a window update returns its controller and the offset, 0 for
none. -/
inductive Output (ι : Type*)
  | call (o : FlowControllers.Output)
  | windowUpdate (who : Option ι) (offset : ℕ)
  | ensureMinimumWindowSize
  deriving DecidableEq, Repr

/-- The non-zero offset that an output advertises for controller `who`. -/
def Output.advertised [DecidableEq ι] (who : Option ι) : Output ι → Option ℕ
  | .windowUpdate w offset => if w = who ∧ offset ≠ 0 then some offset else none
  | _ => none

/-- The auto-tuning state of controller `who`. -/
def tuning (s : Tuned ι) : Option ι → Tuning
  | none => s.connTuning
  | some i => s.streamTunings i

/-- The auto-tuning state after a frame arrived at a controller: its first frame starts an
epoch, in `UpdateHighestReceived` for a stream and in `IncrementHighestReceived` for the
connection. -/
def restartOnFirstFrame (c c' : BaseFlowController) (t : Tuning) (now : ℤ) : Tuning :=
  if c.highestReceived = 0 ∧ c'.highestReceived ≠ 0 then c'.startNewAutoTuningEpoch t now else t

/-- One call. -/
def step [DecidableEq ι] (s : Tuned ι) : Call ι → Option (Tuned ι × Output ι)
  | .call c now =>
    match FlowControllers.step s.toFlowControllers c with
    | none => none
    | some (f, o) =>
      some (⟨f, restartOnFirstFrame (s.base none) (f.base none) s.connTuning now,
        fun j => restartOnFirstFrame (s.base (some j)) (f.base (some j)) (s.streamTunings j) now⟩,
        .call o)
  | .streamWindowUpdate i allow rtt now =>
    let r := (s.streams i).GetWindowUpdate (s.streamTunings i) s.connection s.connTuning allow
      rtt now
    some (⟨⟨r.2.2.1, Function.update s.streams i r.1⟩, r.2.2.2.1,
      Function.update s.streamTunings i r.2.1⟩, .windowUpdate (some i) r.2.2.2.2)
  | .connWindowUpdate allow rtt now =>
    let r := s.connection.GetWindowUpdate s.connTuning allow rtt now
    some (⟨⟨r.1, s.streams⟩, r.2.1, s.streamTunings⟩, .windowUpdate none r.2.2)
  | .ensureMinimumWindowSize inc allow now =>
    let r := s.connection.EnsureMinimumWindowSize s.connTuning allow inc now
    some (⟨⟨r.1, s.streams⟩, r.2, s.streamTunings⟩, .ensureMinimumWindowSize)

end Tuned

/-! ## Windows only grow -/

/-- One controller moving from `c` to `c'`, its auto-tuning state from `t` to `t'`: the largest
window size stays, the window and the window size only grow, and a size at most the largest
stays so. -/
structure Moves (c c' : BaseFlowController) (t t' : Tuning) : Prop where
  max_eq : t'.maxReceiveWindowSize = t.maxReceiveWindowSize
  window_le : c.receiveWindow ≤ c'.receiveWindow
  size_le : c.receiveWindowSize ≤ c'.receiveWindowSize
  size_max : c.receiveWindowSize ≤ t.maxReceiveWindowSize →
    c'.receiveWindowSize ≤ t'.maxReceiveWindowSize

namespace Moves

variable {c c' c'' : BaseFlowController} {t t' t'' : Tuning}

theorem refl (c : BaseFlowController) (t : Tuning) : Moves c c t t :=
  ⟨rfl, le_rfl, le_rfl, id⟩

theorem trans (h : Moves c c' t t') (h' : Moves c' c'' t' t'') : Moves c c'' t t'' :=
  ⟨h'.max_eq.trans h.max_eq, h.window_le.trans h'.window_le, h.size_le.trans h'.size_le,
    fun hc => h'.size_max (h.size_max hc)⟩

/-- A controller whose window and size are kept, with its largest size. -/
theorem of_eq (hw : c'.receiveWindow = c.receiveWindow)
    (hs : c'.receiveWindowSize = c.receiveWindowSize)
    (ht : t'.maxReceiveWindowSize = t.maxReceiveWindowSize) : Moves c c' t t' :=
  ⟨ht, hw.ge, hs.ge, fun h => by rw [hs, ht]; exact h⟩

/-- A window update moves its controller: the new window is at least the old one, since it is
renewed only when at most three quarters of the size are left of it. -/
theorem getWindowUpdate (c : BaseFlowController) (t : Tuning) (allow : Option (ℕ → Bool))
    (rtt now : ℤ) :
    Moves c (c.getWindowUpdate t allow rtt now).1 t (c.getWindowUpdate t allow rtt now).2.1 := by
  rcases c.getWindowUpdate_eq t allow rtt now with ⟨-, h⟩ | ⟨hw, size, hle, hmax, h, -⟩
  · rw [h]
    exact refl c t
  · refine ⟨by simp, ?_, by rw [h]; exact hle, by rw [h, BaseFlowController.getWindowUpdate_max]; exact hmax⟩
    rw [h]
    unfold BaseFlowController.hasWindowUpdate at hw
    simp only [decide_eq_true_eq] at hw
    dsimp only
    omega

/-- `EnsureMinimumWindowSize` moves the connection. -/
theorem EnsureMinimumWindowSize (c : ConnectionFlowController) (t : Tuning) (allow : ℕ → Bool)
    (inc : ℕ) (now : ℤ) :
    Moves c.toBaseFlowController (c.EnsureMinimumWindowSize t allow inc now).1.toBaseFlowController
      t (c.EnsureMinimumWindowSize t allow inc now).2 := by
  obtain ⟨size, h, hle, hmax⟩ := c.EnsureMinimumWindowSize_eq t allow inc now
  refine ⟨by simp, by rw [h], by rw [h]; exact hle, ?_⟩
  rw [h, ConnectionFlowController.EnsureMinimumWindowSize_max]
  exact hmax

end Moves

/-- A window update that advertises an offset, for a positive window size: the offset is the
new window, strictly above the old one, and at least the bytes read. -/
theorem getWindowUpdate_lt {c : BaseFlowController} {t : Tuning} {allow : Option (ℕ → Bool)}
    {rtt now : ℤ} (hoff : (c.getWindowUpdate t allow rtt now).2.2 ≠ 0)
    (h0 : 0 < c.receiveWindowSize) :
    c.receiveWindow < (c.getWindowUpdate t allow rtt now).2.2 ∧
      (c.getWindowUpdate t allow rtt now).1.receiveWindow = (c.getWindowUpdate t allow rtt now).2.2 ∧
      (c.getWindowUpdate t allow rtt now).1.bytesRead ≤ (c.getWindowUpdate t allow rtt now).2.2 := by
  rcases c.getWindowUpdate_eq t allow rtt now with ⟨-, h⟩ | ⟨hw, size, hle, -, h, hr⟩
  · rw [h] at hoff
    exact absurd rfl hoff
  · rw [h, hr]
    exact ⟨BaseFlowController.receiveWindow_lt_of_hasWindowUpdate hw h0 hle, rfl, by simp⟩

namespace Tuned

variable {ι : Type*} [DecidableEq ι]

theorem restartOnFirstFrame_max (c c' : BaseFlowController) (t : Tuning) (now : ℤ) :
    (restartOnFirstFrame c c' t now).maxReceiveWindowSize = t.maxReceiveWindowSize := by
  unfold restartOnFirstFrame
  split_ifs <;> rfl

/-- Replacing stream `i` and the connection by controllers that each move moves every
controller. -/
theorem moves_update {s : Tuned ι} {i : ι} {c' : StreamFlowController} {t' : Tuning}
    {conn' : ConnectionFlowController} {ct' : Tuning}
    (hi : Moves (s.base (some i)) c'.toBaseFlowController (s.tuning (some i)) t')
    (hconn : Moves (s.base none) conn'.toBaseFlowController (s.tuning none) ct')
    (who : Option ι) :
    Moves (s.base who)
      ((⟨⟨conn', Function.update s.streams i c'⟩, ct', Function.update s.streamTunings i t'⟩ :
        Tuned ι).base who)
      (s.tuning who)
      ((⟨⟨conn', Function.update s.streams i c'⟩, ct', Function.update s.streamTunings i t'⟩ :
        Tuned ι).tuning who) := by
  cases who with
  | none => exact hconn
  | some j =>
    by_cases hj : j = i
    · subst hj
      simpa [FlowControllers.base, tuning] using hi
    · simpa [FlowControllers.base, tuning, Function.update_of_ne hj] using
        Moves.refl (s.base (some j)) (s.tuning (some j))

omit [DecidableEq ι] in
/-- Replacing the connection by a controller that moves moves every controller. -/
theorem moves_connection {s : Tuned ι} {conn' : ConnectionFlowController} {ct' : Tuning}
    (hconn : Moves (s.base none) conn'.toBaseFlowController (s.tuning none) ct')
    (who : Option ι) :
    Moves (s.base who) ((⟨⟨conn', s.streams⟩, ct', s.streamTunings⟩ : Tuned ι).base who)
      (s.tuning who) ((⟨⟨conn', s.streams⟩, ct', s.streamTunings⟩ : Tuned ι).tuning who) := by
  cases who with
  | none => exact hconn
  | some j => exact Moves.refl _ _

/-- **The step lemma**: every call moves every controller. -/
theorem step_moves {s s' : Tuned ι} {call : Call ι} {o : Output ι}
    (h : step s call = some (s', o)) (who : Option ι) :
    Moves (s.base who) (s'.base who) (s.tuning who) (s'.tuning who) := by
  cases call with
  | call c now =>
    -- frames, reads and abandons keep the windows; a first frame starts an epoch
    cases hf : FlowControllers.step s.toFlowControllers c with
    | none => simp [step, hf] at h
    | some r =>
      obtain ⟨f, o'⟩ := r
      simp only [step, hf, Option.some.injEq, Prod.mk.injEq] at h
      obtain ⟨rfl, -⟩ := h
      obtain ⟨hw, hs⟩ := FlowControllers.step_windows hf who
      refine Moves.of_eq hw hs ?_
      cases who <;> simp [tuning, restartOnFirstFrame_max]
  | streamWindowUpdate i allow rtt now =>
    simp only [step, Option.some.injEq, Prod.mk.injEq] at h
    obtain ⟨rfl, -⟩ := h
    rcases (s.streams i).GetWindowUpdate_eq (s.streamTunings i) s.connection s.connTuning allow
      rtt now with ⟨-, hr⟩ | ⟨-, h₁, h₂, -, hconn⟩
    · -- the final offset is known: nothing changes
      rw [hr]
      exact moves_update (Moves.refl _ _) (Moves.refl _ _) who
    · refine moves_update ?_ ?_ who
      · rw [h₁, h₂]
        exact Moves.getWindowUpdate _ _ _ _ _
      · rcases hconn with ⟨hc, ht⟩ | ⟨inc, he⟩
        · rw [hc, ht]
          exact Moves.refl _ _
        · obtain ⟨he₁, he₂⟩ := Prod.mk.inj he
          rw [he₁, he₂]
          exact Moves.EnsureMinimumWindowSize _ _ _ _ _
  | connWindowUpdate allow rtt now =>
    simp only [step, Option.some.injEq, Prod.mk.injEq] at h
    obtain ⟨rfl, -⟩ := h
    exact moves_connection (Moves.getWindowUpdate _ _ _ _ _) who
  | ensureMinimumWindowSize inc allow now =>
    simp only [step, Option.some.injEq, Prod.mk.injEq] at h
    obtain ⟨rfl, -⟩ := h
    exact moves_connection (Moves.EnsureMinimumWindowSize _ _ _ _ _) who

/-- **An advertised offset**: only a window update advertises one, for a positive window size
it is its controller's new window, strictly above the old one and at least the bytes read, and
a stream that advertises one has not received its final offset. -/
theorem step_advertised {s s' : Tuned ι} {call : Call ι} {o : Output ι}
    (h : step s call = some (s', o)) {who : Option ι} {off : ℕ}
    (hoff : o.advertised who = some off) (h0 : 0 < (s.base who).receiveWindowSize) :
    (s.base who).receiveWindow < off ∧ (s'.base who).receiveWindow = off ∧
      (s'.base who).bytesRead ≤ off ∧ ∀ i, who = some i → (s.streams i).receivedFinalOffset = false := by
  cases call with
  | call c now =>
    cases hf : FlowControllers.step s.toFlowControllers c with
    | none => simp [step, hf] at h
    | some r =>
      simp only [step, hf, Option.some.injEq, Prod.mk.injEq] at h
      obtain ⟨-, rfl⟩ := h
      simp [Output.advertised] at hoff
  | streamWindowUpdate i allow rtt now =>
    simp only [step, Option.some.injEq, Prod.mk.injEq] at h
    obtain ⟨rfl, rfl⟩ := h
    simp only [Output.advertised, Option.ite_none_right_eq_some, Option.some.injEq] at hoff
    obtain ⟨⟨rfl, hne⟩, rfl⟩ := hoff
    rcases (s.streams i).GetWindowUpdate_eq (s.streamTunings i) s.connection s.connTuning allow
      rtt now with ⟨-, hr⟩ | ⟨hf, h₁, -, h₃, -⟩
    · rw [hr] at hne
      exact absurd rfl hne
    · -- the stream's own window update
      rw [h₃] at hne ⊢
      obtain ⟨hlt, hw, hb⟩ := getWindowUpdate_lt hne h0
      refine ⟨hlt, ?_, ?_, fun j hj => by cases hj; exact hf⟩
      · simpa [FlowControllers.base, h₁] using hw
      · simpa [FlowControllers.base, h₁] using hb
  | connWindowUpdate allow rtt now =>
    simp only [step, Option.some.injEq, Prod.mk.injEq] at h
    obtain ⟨rfl, rfl⟩ := h
    simp only [Output.advertised, Option.ite_none_right_eq_some, Option.some.injEq] at hoff
    obtain ⟨⟨rfl, hne⟩, rfl⟩ := hoff
    obtain ⟨hlt, hw, hb⟩ := getWindowUpdate_lt hne h0
    exact ⟨hlt, hw, hb, fun _ hj => by cases hj⟩
  | ensureMinimumWindowSize inc allow now =>
    simp only [step, Option.some.injEq, Prod.mk.injEq] at h
    obtain ⟨-, rfl⟩ := h
    simp [Output.advertised] at hoff

/-- A window size that is positive and at most the largest one. -/
def SizeOk (c : BaseFlowController) (t : Tuning) : Prop :=
  0 < c.receiveWindowSize ∧ c.receiveWindowSize ≤ t.maxReceiveWindowSize

/-- **The run lemma.** From flow controllers whose window sizes are positive and at most their
largest, every run moves every controller, and the offsets each one advertises increase, each
above its first window and at most its current one. -/
theorem run_advertised {init s : Tuned ι} {calls : List (Call ι)} {outs : List (Output ι)}
    (hinit : ∀ who, SizeOk (init.base who) (init.tuning who))
    (hrun : Machine.run step init calls = some (s, outs)) (who : Option ι) :
    Moves (init.base who) (s.base who) (init.tuning who) (s.tuning who) ∧
      (outs.filterMap (·.advertised who)).Pairwise (· < ·) ∧
      ∀ off ∈ outs.filterMap (·.advertised who),
        (init.base who).receiveWindow < off ∧ off ≤ (s.base who).receiveWindow := by
  -- the invariant, for every controller at once, over the state and the outputs so far
  refine Machine.run_induction_of (fun _ => True) (fun _ => True)
    (fun s _ outs => ∀ who, Moves (init.base who) (s.base who) (init.tuning who) (s.tuning who) ∧
      (outs.filterMap (·.advertised who)).Pairwise (· < ·) ∧
      ∀ off ∈ outs.filterMap (·.advertised who),
        (init.base who).receiveWindow < off ∧ off ≤ (s.base who).receiveWindow)
    ?_ [] [] (fun who => ⟨Moves.refl _ _, by simp, by simp⟩) (fun _ _ => trivial)
    (fun _ _ => trivial) hrun who
  intro s _ outs call s' o hP _ _ hstep who
  obtain ⟨hmoves, hpair, hbound⟩ := hP who
  have hmoves' := step_moves hstep who
  refine ⟨hmoves.trans hmoves', ?_⟩
  rw [List.filterMap_append]
  cases hoff : o.advertised who with
  | none =>
    -- nothing advertised: the offsets so far stay below the window, which only grew
    simp only [List.filterMap_cons, hoff, List.filterMap_nil, List.append_nil]
    exact ⟨hpair, fun off h => ⟨(hbound off h).1, (hbound off h).2.trans hmoves'.window_le⟩⟩
  | some off =>
    -- the new offset lies above the window, which is above every offset so far
    have h0 : 0 < (s.base who).receiveWindowSize :=
      lt_of_lt_of_le (hinit who).1 hmoves.size_le
    obtain ⟨hlt, hw, -, -⟩ := step_advertised hstep hoff h0
    simp only [List.filterMap_cons, hoff, List.filterMap_nil, List.pairwise_append,
      List.pairwise_singleton, List.mem_singleton, forall_eq, List.mem_append]
    refine ⟨⟨hpair, trivial, fun a ha => lt_of_le_of_lt (hbound a ha).2 hlt⟩, ?_⟩
    rintro a (ha | rfl)
    · exact ⟨(hbound a ha).1, (hbound a ha).2.trans hmoves'.window_le⟩
    · exact ⟨lt_of_le_of_lt hmoves.window_le hlt, hw.ge⟩

end Tuned

/-- One stream with a window of 10 in a connection with a window of 15. -/
def oneStream : Tuned (Fin 1) :=
  newTuned 15 100 (fun _ => 0) (fun _ => 10) (fun _ => 50) (fun _ => 0)

/-- Before any byte is read, the connection has no window update to send. -/
theorem step_oneStream :
    Tuned.step oneStream (.connWindowUpdate (fun _ => true) 0 0) =
      some (oneStream, .windowUpdate none 0) := by
  rfl

end FlowControl

end QuicGo
