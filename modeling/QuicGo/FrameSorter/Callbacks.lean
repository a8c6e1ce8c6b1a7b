import Mathlib.Data.List.Perm.Subperm
import QuicGo.FrameSorter.Machine

/-!
# QuicGo — the buffer callbacks of the frame sorter

Every frame handed to `Push` may come with a `doneCb` that returns its buffer to a pool. The
sorter calls it when it no longer needs the data (the frame is a duplicate, is replaced by a
longer one, is swallowed by `deleteConsecutive`, or was cut and copied), keeps it with the
queued frame, or hands it out with the frame from `Pop`. This module accounts for them as
multisets over whole runs, with `Machine.run_conserve`:

* `step_subperm` — one call never duplicates a callback, from any state;
* `Inv.step_perm` — from a state that keeps the invariant, a call that succeeds loses none;
* `doneCbs_subperm_perm` — over every run from `newFrameSorter`, the callbacks called, popped
  and held form a sub-multiset of those handed in, all of them when every `Push` returns
  `nil`;
* `tooManyGaps_drops_doneCb` — a `Push` that returns the "too many gaps" error neither calls
  nor keeps the callback of its frame: the run of 1000 one-byte frames at the odd offsets
  loses the last callback.
-/

namespace QuicGo

namespace FrameSorter

variable {Cb : Type}

/-- The callback a call hands to the sorter. -/
def Call.doneCbs : Call Cb → List Cb
  | .push _ _ doneCb => doneCb.toList
  | .pop => []

/-- The callbacks the sorter called during a call. -/
def Output.calledCbs : Output Cb → List Cb
  | .push _ released => released
  | .pop .. => []

/-- The callback `Pop` hands out with its frame. -/
def Output.poppedCbs : Output Cb → List Cb
  | .push .. => []
  | .pop _ _ doneCb => doneCb.toList

/-! ## Queues and `store` -/

/-- Storing a frame adds its callback and drops the one of a frame stored at the same
offset before. -/
theorem queueCbs_insert (q : FrameQueue Cb) (k : ℕ) (e : FrameSorterEntry Cb) :
    queueCbs (q.insert k e) = e.DoneCb.toList ++ queueCbs (q.erase k) := by
  have herase : (q.erase k).entries = q.entries.kerase k := rfl
  unfold queueCbs
  rw [AList.entries_insert, herase]
  cases hcb : e.DoneCb <;> simp [hcb]

theorem queueCbs_erase_subperm (q : FrameQueue Cb) (k : ℕ) :
    List.Subperm (queueCbs (q.erase k)) (queueCbs q) :=
  ((List.kerase_sublist k q.entries).filterMap _).subperm

/-- `store` calls or keeps the frame's callback, calls the callbacks of the frames deleted
before, and keeps the rest of the queue, unless it overwrites a frame. -/
theorem store_subperm (s : FrameSorter Cb) (q₁ : FrameQueue Cb) (gaps : List ByteInterval)
    (fr : NewFrame) (doneCb : Option Cb) (released : List Cb) :
    List.Subperm ((s.store q₁ gaps fr doneCb released).released ++
      queueCbs (s.store q₁ gaps fr doneCb released).sorter.queue)
      (doneCb.toList ++ released ++ queueCbs q₁) := by
  unfold FrameSorter.store
  dsimp only
  by_cases hc : fr.wasCut = true ∧ fr.data.length < MinStreamFrameBufferSize <;>
    by_cases hg : gaps.length > MaxStreamFrameSorterGaps <;>
    simp only [hc, hg, if_true, if_false, and_self, queueCbs_insert, Option.toList_none,
      List.nil_append]
  · -- copied and too many gaps: the callback was called
    exact (List.perm_append_comm.append_right _).subperm
  · -- copied and stored without its callback
    exact List.Subperm.append (List.perm_append_comm.subperm) (queueCbs_erase_subperm _ _)
  · -- too many gaps: the callback of the frame is dropped
    rw [List.append_assoc]
    exact (List.sublist_append_right _ _).subperm
  · -- stored with its callback
    rw [List.append_assoc]
    exact (List.perm_append_comm_assoc _ _ _).subperm.trans
      ((List.subperm_append_left _).mpr ((List.subperm_append_left _).mpr
        (queueCbs_erase_subperm _ _)))

/-- A `store` that succeeds at an offset where nothing is queued loses no callback. -/
theorem store_perm (s : FrameSorter Cb) {q₁ : FrameQueue Cb} {gaps : List ByteInterval}
    {fr : NewFrame} (doneCb : Option Cb) (released : List Cb) (hk : q₁.lookup fr.start = none)
    (herr : (s.store q₁ gaps fr doneCb released).err = none) :
    List.Perm ((s.store q₁ gaps fr doneCb released).released ++
      queueCbs (s.store q₁ gaps fr doneCb released).sorter.queue)
      (doneCb.toList ++ released ++ queueCbs q₁) := by
  unfold FrameSorter.store at herr ⊢
  dsimp only at herr ⊢
  by_cases hg : gaps.length > MaxStreamFrameSorterGaps
  · rw [if_pos hg] at herr
    cases herr
  rw [if_neg hg]
  by_cases hc : fr.wasCut = true ∧ fr.data.length < MinStreamFrameBufferSize
  · simp only [hc, if_true, and_self]
    refine (((queueCbs_insert_perm _ hk).append_left _).trans ?_)
    simpa using List.perm_append_comm.append_right (queueCbs q₁)
  · simp only [hc, if_false]
    refine (((queueCbs_insert_perm _ hk).append_left _).trans ?_)
    rw [← List.append_assoc]
    exact List.perm_append_comm.append_right _

/-! ## One call -/

/-- `Pop` hands out the callback of the frame it takes from the queue. -/
theorem pop_perm {s : FrameSorter Cb} {r : PopResult Cb} (h : Pop s = some r) :
    List.Perm (r.doneCb.toList ++ queueCbs r.sorter.queue) (queueCbs s.queue) := by
  rcases pop_eq_some h with ⟨-, rfl⟩ | ⟨e, he, rfl⟩
  · simp
  · exact (queueCbs_erase_perm he).symm

/-- **One call duplicates no callback**, from any state: the callbacks it calls or pops,
with those the new state holds, are among the one it is handed and those the old state held. -/
theorem step_subperm {s s' : FrameSorter Cb} {c : Call Cb} {o : Output Cb}
    (h : step s c = some (s', o)) :
    List.Subperm (o.calledCbs ++ o.poppedCbs ++ queueCbs s'.queue)
      (c.doneCbs ++ queueCbs s.queue) := by
  rcases step_eq_some h with ⟨data, offset, doneCb, r, rfl, hr, rfl, rfl⟩ | ⟨r, rfl, hr, rfl, rfl⟩
  · obtain ⟨r₀, h₀, rfl⟩ := Push_eq_some hr
    rcases push_eq_store h₀ with rfl | ⟨q₁, gaps, fr, rel, hperm, rfl⟩
    · -- a duplicate: `Push` calls the frame's callback and the sorter is unchanged
      simpa [duplicate, Output.calledCbs, Output.poppedCbs, Call.doneCbs] using
        List.Subperm.refl (doneCb.toList ++ queueCbs s.queue)
    · rw [if_neg (store_err_ne_duplicate s q₁ gaps fr doneCb rel)]
      simp only [Output.calledCbs, Output.poppedCbs, Call.doneCbs, List.append_nil]
      refine (store_subperm s q₁ gaps fr doneCb rel).trans ?_
      rw [List.append_assoc]
      exact (hperm.append_left _).subperm
  · simpa [Output.calledCbs, Output.poppedCbs, Call.doneCbs] using (pop_perm hr).subperm

/-- **From a state that keeps the invariant, a call that succeeds loses no callback.** The
frame a `push` stores goes where nothing is queued. -/
theorem Inv.step_perm {s s' : FrameSorter Cb} (hs : Inv s) {c : Call Cb} {o : Output Cb}
    (ho : o.Ok) (h : FrameSorter.step s c = some (s', o)) :
    List.Perm (o.calledCbs ++ o.poppedCbs ++ queueCbs s'.queue)
      (c.doneCbs ++ queueCbs s.queue) := by
  rcases step_eq_some h with ⟨data, offset, doneCb, r, rfl, hr, rfl, rfl⟩ | ⟨r, rfl, hr, rfl, rfl⟩
  · obtain ⟨r₀, h₀, rfl⟩ := Push_eq_some hr
    have hdup : r₀ = duplicate s → List.Perm ((if r₀.err = some .duplicateStreamData then
        { r₀ with err := none, released := r₀.released ++ doneCb.toList } else r₀).released ++ [] ++
        queueCbs (if r₀.err = some .duplicateStreamData then
        { r₀ with err := none, released := r₀.released ++ doneCb.toList } else r₀).sorter.queue)
        (doneCb.toList ++ queueCbs s.queue) := by
      rintro rfl
      simp [duplicate]
    by_cases hmax : offset + data.length ≤ MaxByteCount
    · rcases hs.push_spec hmax h₀ with ⟨rfl, -⟩ | ⟨q₁, gaps, fr, rel, hst, rfl⟩
      · exact hdup rfl
      · have hne := store_err_ne_duplicate s q₁ gaps fr doneCb rel
        simp only [Output.Ok, if_neg hne] at ho
        simp only [Output.calledCbs, Output.poppedCbs, Call.doneCbs, List.append_nil, if_neg hne]
        -- the frame goes where the queue holds nothing
        have hk : q₁.lookup fr.start = none := by
          rw [hst.stores.queue_eq, if_pos ⟨le_rfl, hst.stores.lt⟩]
        refine (store_perm s doneCb rel hk ho).trans ?_
        rw [List.append_assoc]
        exact hst.released_perm.append_left _
    · by_cases hlen : data.length = 0
      · simp only [FrameSorter.push, hlen, if_true, pure, Option.some.injEq] at h₀
        exact hdup h₀.symm
      · rw [hs.push_eq_none hlen (by omega)] at h₀
        cases h₀
  · simpa [Output.calledCbs, Output.poppedCbs, Call.doneCbs] using pop_perm hr

/-! ## Every run -/

theorem queueCbs_newFrameSorter : queueCbs (newFrameSorter : FrameSorter Cb).queue = [] := rfl

/-- The callbacks of a run's outputs, split into those called and those popped. -/
theorem outs_cbs_perm (outs : List (Output Cb)) (held : List Cb) :
    List.Perm (outs.flatMap Output.calledCbs ++ outs.flatMap Output.poppedCbs ++ held)
      (outs.flatMap (fun o => o.calledCbs ++ o.poppedCbs) ++ held) :=
  (List.flatMap_append_perm outs _ _).append_right _

/-- Over every run from `newFrameSorter`, no callback is duplicated. -/
theorem run_doneCbs_subperm {calls : List (Call Cb)} {s : FrameSorter Cb}
    {outs : List (Output Cb)} (h : Machine.run step newFrameSorter calls = some (s, outs)) :
    List.Subperm (outs.flatMap Output.calledCbs ++ outs.flatMap Output.poppedCbs ++
      queueCbs s.queue) (calls.flatMap Call.doneCbs) := by
  have hsub := Machine.run_conserve List.Subperm (fun h => h.subperm)
    (fun h₁ h₂ => h₁.trans h₂) (fun l _ _ h => (List.subperm_append_left l).mpr h)
    Call.doneCbs (fun o => o.calledCbs ++ o.poppedCbs) (fun s => queueCbs s.queue)
    (fun _ => True) (fun _ => True) (fun _ _ _ _ _ _ hstep => ⟨trivial, step_subperm hstep⟩)
    trivial (fun _ _ => trivial) h
  rw [queueCbs_newFrameSorter, List.append_nil] at hsub
  exact (outs_cbs_perm outs _).subperm.trans hsub

/-- Over every run from `newFrameSorter` whose `Push` calls all return `nil`, no callback is
duplicated or lost. -/
theorem run_doneCbs_perm {calls : List (Call Cb)} {s : FrameSorter Cb}
    {outs : List (Output Cb)} (h : Machine.run step newFrameSorter calls = some (s, outs))
    (hok : ∀ o ∈ outs, o.Ok) :
    List.Perm (outs.flatMap Output.calledCbs ++ outs.flatMap Output.poppedCbs ++
      queueCbs s.queue) (calls.flatMap Call.doneCbs) := by
  have hperm := Machine.run_conserve List.Perm id (fun h₁ h₂ => h₁.trans h₂)
    (fun l _ _ h => h.append_left l) Call.doneCbs (fun o => o.calledCbs ++ o.poppedCbs)
    (fun s => queueCbs s.queue) Inv Output.Ok
    (fun _ _ _ _ hs ho hstep => ⟨hs.of_step ho hstep, hs.step_perm ho hstep⟩)
    inv_newFrameSorter hok h
  rw [queueCbs_newFrameSorter, List.append_nil] at hperm
  exact (outs_cbs_perm outs _).trans hperm

/-- **No callback is called, popped or held twice, or both**: over every run from
`newFrameSorter`, the callbacks the sorter called, those `Pop` returned and those still held
by queued frames form a sub-multiset of the callbacks handed to `Push`; they form exactly
that multiset when every `Push` of the run returned `nil`. -/
theorem doneCbs_subperm_perm {calls : List (Call Cb)} {s : FrameSorter Cb}
    {outs : List (Output Cb)} (h : Machine.run step newFrameSorter calls = some (s, outs)) :
    List.Subperm (outs.flatMap Output.calledCbs ++ outs.flatMap Output.poppedCbs ++
      queueCbs s.queue) (calls.flatMap Call.doneCbs) ∧
    ((∀ o ∈ outs, o.Ok) → List.Perm (outs.flatMap Output.calledCbs ++
      outs.flatMap Output.poppedCbs ++ queueCbs s.queue) (calls.flatMap Call.doneCbs)) :=
  ⟨run_doneCbs_subperm h, run_doneCbs_perm h⟩

/-- The callback of the two bytes pushed and popped is handed out by `Pop`. -/
theorem doneCbs_after_push_pop :
    List.Subperm ([Output.push none [], .pop 0 (some [7, 8]) (some ())].flatMap
      Output.calledCbs ++ [Output.push none [], .pop 0 (some [7, 8]) (some ())].flatMap
      Output.poppedCbs ++ queueCbs ((AList.singleton 0 ⟨[7, 8], some ()⟩).erase 0))
      ([Call.push [7, 8] 0 (some ()), .pop].flatMap Call.doneCbs) ∧
    ((∀ o ∈ [Output.push none [], .pop 0 (some [7, 8]) (some ())], o.Ok) →
      List.Perm ([Output.push none [], .pop 0 (some [7, 8]) (some ())].flatMap
        Output.calledCbs ++ [Output.push none [], .pop 0 (some [7, 8]) (some ())].flatMap
        Output.poppedCbs ++ queueCbs ((AList.singleton 0 ⟨[7, 8], some ()⟩).erase 0))
        ([Call.push [7, 8] 0 (some ()), .pop].flatMap Call.doneCbs)) :=
  doneCbs_subperm_perm run_push_pop

/-! ## A `Push` that returns an error drops its callback

A frame of 128 bytes is never copied, so its callback is called only if the frame is a
duplicate. Pushing such frames with a byte range left free before each one adds one gap per
frame, until the gap list is too long and `push` returns an error after it edited the queue
and the gaps but before it stored the frame. -/

/-- Frames of 128 bytes at the offsets `256 i + 128`, each with its own callback `i`. -/
def spacedPushes (k : ℕ) : List (Call ℕ) :=
  (List.range k).map fun i => .push (List.replicate 128 0) (256 * i + 128) (some i)

/-- The gaps after the first `k` of them. -/
def spacedGaps (k : ℕ) : List ByteInterval :=
  (List.range k).map (fun i => ⟨256 * i, 256 * i + 128⟩) ++ [⟨256 * k, MaxByteCount⟩]

theorem spacedGaps_length (k : ℕ) : (spacedGaps k).length = k + 1 := by
  simp [spacedGaps]

theorem doneCbs_spacedPushes (k : ℕ) : (spacedPushes k).flatMap Call.doneCbs = List.range k := by
  simp [spacedPushes, Call.doneCbs, List.flatMap_map]

/-- The next frame cuts the last gap in two. -/
theorem spacedGaps_cutOut {k : ℕ} (hk : 256 * k + 256 < MaxByteCount) :
    (spacedGaps k).flatMap (ByteInterval.cutOut (256 * k + 128) (256 * k + 256)) =
      spacedGaps (k + 1) := by
  -- the gaps before the last one end before the frame
  have hpre : ((List.range k).map fun i => (⟨256 * i, 256 * i + 128⟩ : ByteInterval)).flatMap
      (ByteInterval.cutOut (256 * k + 128) (256 * k + 256)) =
      (List.range k).map fun i => ⟨256 * i, 256 * i + 128⟩ := by
    rw [List.flatMap_map, ← List.flatMap_pure_eq_map]
    refine List.flatMap_congr fun i hi => ?_
    have : i < k := List.mem_range.mp hi
    exact ByteInterval.cutOut_of_end_le (by simp) (by omega) (by simp; omega)
  have hlast : ByteInterval.cutOut (256 * k + 128) (256 * k + 256) ⟨256 * k, MaxByteCount⟩ =
      [⟨256 * k, 256 * k + 128⟩, ⟨256 * (k + 1), MaxByteCount⟩] := by
    rw [ByteInterval.cutOut_of_lt_start (by simp) (by simp; omega), if_pos hk]
    simp only [List.cons.injEq, ByteInterval.mk.injEq, and_true, true_and]
    omega
  simp [spacedGaps, List.flatMap_append, hpre, hlast, List.range_succ]

/-- An offset after the last gap's start is in a gap. -/
theorem inGap_spacedGaps {k p : ℕ} (h₁ : 256 * k ≤ p) (h₂ : p < MaxByteCount) :
    InGap (spacedGaps k) p :=
  ⟨⟨256 * k, MaxByteCount⟩, by simp [spacedGaps], h₁, h₂⟩

/-- What the next `Push` does: the frame is stored whole, and the last gap is cut in two. -/
theorem Inv.push_spaced {s : FrameSorter ℕ} (hs : Inv s) {k : ℕ} (hgaps : s.gaps = spacedGaps k)
    (hk : 256 * k + 256 < MaxByteCount) :
    ∃ q₁ fr released, PushStores s (List.replicate 128 0) (256 * k + 128) q₁ (spacedGaps (k + 1))
      fr released ∧ fr.start = 256 * k + 128 ∧ fr.end_ = 256 * k + 256 ∧
      push s (List.replicate 128 0) (256 * k + 128) (some k) =
        some (s.store q₁ (spacedGaps (k + 1)) fr (some k) released) := by
  have hlen : (List.replicate 128 (0 : UInt8)).length = 128 := List.length_replicate
  have hsome : (push s (List.replicate 128 0) (256 * k + 128) (some k)).isSome :=
    hs.push_isSome (by rw [hlen]; omega)
  obtain ⟨r, hr⟩ := Option.isSome_iff_exists.mp hsome
  have hin : ∀ p, 256 * k + 128 ≤ p → p < 256 * k + 256 → InGap s.gaps p := fun p h₁ h₂ =>
    hgaps ▸ inGap_spacedGaps (by omega) (by omega)
  rcases hs.push_spec (by rw [hlen]; omega) hr with ⟨-, hdup⟩ | ⟨q₁, gaps, fr, rel, hst, rfl⟩
  · exact absurd (hin _ le_rfl (by omega)) (hdup _ le_rfl (by rw [hlen]; omega))
  -- the frame holds every offset of it, all in the last gap
  have h₁ := hst.gap_inside _ le_rfl (by rw [hlen]; omega) (hin _ le_rfl (by omega))
  have h₂ := hst.gap_inside (256 * k + 255) (by omega) (by rw [hlen]; omega)
    (hin _ (by omega) (by omega))
  have hfr₁ := hst.slice.le_start
  have hfr₂ := hst.slice.end_le
  rw [hlen] at hfr₂
  have hst' : fr.start = 256 * k + 128 := by omega
  have hen' : fr.end_ = 256 * k + 256 := by omega
  have hg : gaps = spacedGaps (k + 1) := by
    rw [hst.stores.gaps_eq, hgaps, hst', hen', spacedGaps_cutOut hk]
  subst hg
  exact ⟨q₁, fr, rel, hst, hst', hen', hr⟩

theorem spacedPushes_succ (k : ℕ) : spacedPushes (k + 1) =
    spacedPushes k ++ [.push (List.replicate 128 0) (256 * k + 128) (some k)] := by
  simp [spacedPushes, List.range_succ]

/-- The first `k ≤ 999` spaced pushes all return `nil` and leave the gaps `spacedGaps k`. -/
theorem run_spacedPushes {k : ℕ} (hk : k ≤ 999) :
    ∃ s outs, Machine.run step newFrameSorter (spacedPushes k) = some (s, outs) ∧
      s.gaps = spacedGaps k ∧ ∀ o ∈ outs, o.Ok := by
  induction k with
  | zero => exact ⟨newFrameSorter, [], rfl, rfl, by simp⟩
  | succ k ih =>
    obtain ⟨s, outs, hrun, hgaps, hok⟩ := ih (by omega)
    have hs : Inv s := Machine.Reachable.induction Inv inv_newFrameSorter
      (fun _ _ _ _ hs _ ho h => hs.of_step ho h) ⟨_, _, hrun, fun _ _ => trivial, hok⟩
    obtain ⟨q₁, fr, rel, -, -, -, hpush⟩ := hs.push_spaced hgaps (by unfold MaxByteCount; omega)
    -- with at most 1000 gaps the frame is stored
    have herr : (s.store q₁ (spacedGaps (k + 1)) fr (some k) rel).err = none := by
      unfold FrameSorter.store
      dsimp only
      rw [if_neg (by rw [spacedGaps_length]; unfold MaxStreamFrameSorterGaps; omega)]
    let r := s.store q₁ (spacedGaps (k + 1)) fr (some k) rel
    refine ⟨r.sorter, outs ++ [.push r.err r.released], ?_, store_sorter_gaps _ _ _ _ _ _, ?_⟩
    · rw [spacedPushes_succ]
      exact Machine.run_snoc hrun (by simp only [step, Push_eq_store hpush, Option.map_some]; rfl)
    · intro o ho
      rcases List.mem_append.mp ho with ho | ho
      · exact hok o ho
      · rw [List.mem_singleton.mp ho]
        exact herr

/-- **The last of 1000 spaced frames loses its callback**: its `Push` returns "too many
gaps in received data" after cutting the last gap in two, so the callback `999` is neither
called, nor popped, nor held by a queued frame. -/
theorem tooManyGaps_drops_doneCb :
    ∃ s outs, Machine.run step newFrameSorter (spacedPushes 1000) = some (s, outs) ∧
      999 ∈ (spacedPushes 1000).flatMap Call.doneCbs ∧
      999 ∉ outs.flatMap Output.calledCbs ++ outs.flatMap Output.poppedCbs ++
        queueCbs s.queue := by
  obtain ⟨s, outs, hrun, hgaps, hok⟩ := run_spacedPushes (le_refl 999)
  have hs : Inv s := Machine.Reachable.induction Inv inv_newFrameSorter
    (fun _ _ _ _ hs _ ho h => hs.of_step ho h) ⟨_, _, hrun, fun _ _ => trivial, hok⟩
  obtain ⟨q₁, fr, rel, hst, hst', hen', hpush⟩ :=
    hs.push_spaced hgaps (by unfold MaxByteCount; omega)
  -- the frame is 128 bytes long, so it is not copied, and 1001 gaps are too many
  have hcopy : ¬(fr.wasCut = true ∧ fr.data.length < MinStreamFrameBufferSize) := by
    rw [hst.slice.length_data, hst', hen']
    unfold MinStreamFrameBufferSize
    omega
  have hstore : s.store q₁ (spacedGaps 1000) fr (some 999) rel =
      ⟨some .tooManyGaps, { s with queue := q₁, gaps := spacedGaps 1000 }, rel⟩ := by
    unfold FrameSorter.store
    simp only [hcopy, if_false]
    rw [if_pos (by rw [spacedGaps_length]; unfold MaxStreamFrameSorterGaps; omega)]
  refine ⟨{ s with queue := q₁, gaps := spacedGaps 1000 },
    outs ++ [.push (some .tooManyGaps) rel], ?_, ?_, ?_⟩
  · rw [show spacedPushes 1000 = _ from spacedPushes_succ 999]
    exact Machine.run_snoc hrun (by simp only [step, Push_eq_store hpush, hstore, Option.map_some])
  · rw [doneCbs_spacedPushes]
    exact List.mem_range.mpr (by omega)
  · -- before the last push the callbacks were `0, …, 998`, and it only called some of them
    have hperm := run_doneCbs_perm hrun hok
    rw [doneCbs_spacedPushes] at hperm
    have hold : ∀ x ∈ outs.flatMap Output.calledCbs ++ outs.flatMap Output.poppedCbs ++
        queueCbs s.queue, x < 999 := fun x hx => List.mem_range.mp (hperm.subset hx)
    have hrel : ∀ x ∈ rel ++ queueCbs q₁, x ∈ queueCbs s.queue := fun x hx =>
      hst.released_perm.subset hx
    intro hmem
    simp only [List.flatMap_append, List.flatMap_cons, List.flatMap_nil, Output.calledCbs,
      Output.poppedCbs, List.append_nil, List.mem_append] at hmem
    have : 999 < 999 := by
      rcases hmem with ((h | h) | h) | h
      · exact hold 999 (List.mem_append_left _ (List.mem_append_left _ h))
      · exact hold 999 (List.mem_append_right _ (hrel 999 (List.mem_append_left _ h)))
      · exact hold 999 (List.mem_append_left _ (List.mem_append_right _ h))
      · exact hold 999 (List.mem_append_right _ (hrel 999 (List.mem_append_right _ h)))
    exact lt_irrefl _ this

end FrameSorter

end QuicGo
