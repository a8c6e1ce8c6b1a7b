import QuicGo.FrameSorter.Machine

/-!
# QuicGo — the frame sorter reassembles the stream

What the sorter is for: the peer sends a byte string `S` cut into frames, in any order, with
duplicates and overlaps, and `Pop` hands out `S` from its start, in order. The abstract view of
a run is two things: the offsets some `Push` has received (`Pushed`), and the data popped so
far, which is to be the prefix `S[0 : readPos]`.

`Reassembles S calls outs s` relates the sorter `s` after the calls `calls` with the outputs
`outs` to that view: the gaps are exactly the offsets after `readPos` that were not received,
every queued frame is a slice of `S` at its offset, every offset read or queued was received,
and the popped data is `S.take s.readPos`, frame after frame (`PopsContiguous`). Every `Push`
of a slice of `S` that returns `nil` and every `Pop` keep it (`Reassembles.step`); from it
follow the claims of the randomized test of `frame_sorter_test.go`:

* `reassembles_of_run` — along every run, the popped data is contiguous and a prefix of `S`;
* `Reassembles.pop_received` — when the read position was received, `Pop` hands out a frame;
* `Reassembles.pops` — so enough `Pop` calls read past every offset received from `0` on.
-/

namespace QuicGo

namespace FrameSorter

variable {Cb : Type}

/-! ## The abstract view of a run -/

/-- The call pushes a frame that holds offset `p`. -/
def Call.Covers : Call Cb → ℕ → Prop
  | .push data offset _, p => offset ≤ p ∧ p < offset + data.length
  | .pop, _ => False

/-- Some call of the history pushed a frame that holds offset `p`. -/
def Pushed (calls : List (Call Cb)) (p : ℕ) : Prop :=
  ∃ c ∈ calls, c.Covers p

/-- The call pushes a slice of the byte string `S`, at its offset in `S`. -/
def Call.SliceOf (S : List UInt8) : Call Cb → Prop
  | .push data offset _ => offset + data.length ≤ S.length ∧ data = (S.drop offset).take data.length
  | .pop => True

instance (S : List UInt8) : DecidablePred (@Call.SliceOf Cb S) := fun c =>
  match c with
  | .push data offset _ => inferInstanceAs
    (Decidable (offset + data.length ≤ S.length ∧ data = (S.drop offset).take data.length))
  | .pop => inferInstanceAs (Decidable True)

/-- The data a call hands out: that of the frame `Pop` returns. -/
def Output.popData : Output Cb → List UInt8
  | .pop _ data _ => data.getD []
  | .push .. => []

/-- Each `Pop` returns the offset `n` where the data popped before it ends. -/
def PopsContiguous : ℕ → List (Output Cb) → Prop
  | _, [] => True
  | n, .pop offset data _ :: outs => offset = n ∧ PopsContiguous (n + (data.getD []).length) outs
  | n, .push .. :: outs => PopsContiguous n outs

theorem pushed_append (calls : List (Call Cb)) (c : Call Cb) (p : ℕ) :
    Pushed (calls ++ [c]) p ↔ Pushed calls p ∨ c.Covers p := by
  simp [Pushed, or_and_right, exists_or]

theorem pushed_append_pop (calls : List (Call Cb)) (p : ℕ) :
    Pushed (calls ++ [.pop]) p ↔ Pushed calls p := by
  simp [pushed_append, Call.Covers]

theorem pushed_append_pops (calls : List (Call Cb)) (n p : ℕ) :
    Pushed (calls ++ List.replicate n .pop) p ↔ Pushed calls p := by
  simp [Pushed, List.mem_replicate, or_and_right, exists_or, Call.Covers]

/-- Checking one more output: only a `Pop` adds a condition, on its offset. -/
theorem popsContiguous_append (n : ℕ) (outs : List (Output Cb)) (o : Output Cb) :
    PopsContiguous n (outs ++ [o]) ↔ PopsContiguous n outs ∧
      ∀ offset data doneCb, o = .pop offset data doneCb →
        offset = n + (outs.flatMap Output.popData).length := by
  induction outs generalizing n with
  | nil =>
    cases o with
    | push err released => simp [PopsContiguous]
    | pop offset data doneCb => simp [PopsContiguous]
  | cons o' outs ih =>
    cases o' with
    | push err released => simpa [PopsContiguous, Output.popData] using ih n
    | pop offset data doneCb =>
      simp only [List.cons_append, PopsContiguous, ih, List.flatMap_cons, Output.popData,
        List.length_append]
      constructor
      · rintro ⟨h₁, h₂, h₃⟩
        exact ⟨⟨h₁, h₂⟩, fun off d cb ho => by rw [h₃ off d cb ho]; omega⟩
      · rintro ⟨⟨h₁, h₂⟩, h₃⟩
        exact ⟨h₁, h₂, fun off d cb ho => by rw [h₃ off d cb ho]; omega⟩

/-! ## The refinement invariant -/

/-- **The sorter reassembles `S`**: the state `s` reached by the calls `calls` with the
outputs `outs` agrees with the abstract view of the run. -/
structure Reassembles (S : List UInt8) (calls : List (Call Cb)) (outs : List (Output Cb))
    (s : FrameSorter Cb) : Prop where
  inv : Inv s
  inGap_iff : ∀ p, InGap s.gaps p ↔ s.readPos ≤ p ∧ p < MaxByteCount ∧ ¬Pushed calls p
  pushed_lt_max : ∀ p, Pushed calls p → p < MaxByteCount
  read_pushed : ∀ p < s.readPos, Pushed calls p
  entry_slice : ∀ k e, s.queue.lookup k = some e →
    k + e.Data.length ≤ S.length ∧ e.Data = (S.drop k).take e.Data.length
  entry_pushed : ∀ k e, s.queue.lookup k = some e → ∀ p, k ≤ p → p < k + e.Data.length →
    Pushed calls p
  readPos_le : s.readPos ≤ S.length
  popped_eq : outs.flatMap Output.popData = S.take s.readPos
  contiguous : PopsContiguous 0 outs

theorem reassembles_newFrameSorter (S : List UInt8) :
    Reassembles S [] [] (newFrameSorter : FrameSorter Cb) where
  inv := inv_newFrameSorter
  inGap_iff p := by
    simp [InGap, Interval.Covers, newFrameSorter, Pushed]
  pushed_lt_max p h := by simp [Pushed] at h
  read_pushed p h := by simp [newFrameSorter] at h
  entry_slice k e h := by simp [newFrameSorter] at h
  entry_pushed k e h := by simp [newFrameSorter] at h
  readPos_le := Nat.zero_le _
  popped_eq := rfl
  contiguous := trivial

/-- A slice of `S` taken at an offset and cut again is a slice of `S` at the new offset. -/
theorem slice_of_isSlice {S data : List UInt8} {offset : ℕ} {fr : NewFrame}
    (hS : data = (S.drop offset).take data.length) (h : fr.IsSlice data offset) :
    fr.data = (S.drop fr.start).take fr.data.length := by
  have hlen := h.length_data
  have h₁ := h.le_start
  have h₂ := h.start_le_end
  have h₃ := h.end_le
  rw [hlen, h.data_eq, hS, List.drop_take, List.drop_drop, List.take_take,
    Nat.min_eq_left (show fr.end_ - fr.start ≤ data.length - (fr.start - offset) by omega),
    show offset + (fr.start - offset) = fr.start by omega]

section Step

variable {S : List UInt8} {calls : List (Call Cb)} {outs : List (Output Cb)}
  {s : FrameSorter Cb}

/-- A `Push` of a slice of `S` that returns `nil` keeps the refinement: the received offsets
grow by the frame, the gaps lose exactly those offsets of it that they held, and the frame
stored is a slice of `S`. -/
theorem Reassembles.push (h : Reassembles S calls outs s) {data : List UInt8} {offset : ℕ}
    {doneCb : Option Cb} (hmax : offset + data.length ≤ MaxByteCount)
    (hS : offset + data.length ≤ S.length ∧ data = (S.drop offset).take data.length)
    {r : PushResult Cb} (hr : s.Push data offset doneCb = some r) (herr : r.err = none) :
    Reassembles S (calls ++ [.push data offset doneCb]) (outs ++ [.push r.err r.released])
      r.sorter := by
  have hpushed : ∀ p, Pushed (calls ++ [.push data offset doneCb]) p ↔
      Pushed calls p ∨ (offset ≤ p ∧ p < offset + data.length) := fun p => by
    rw [pushed_append]
    rfl
  have hpopped : (outs ++ [Output.push r.err r.released]).flatMap Output.popData =
      outs.flatMap Output.popData := by
    simp [Output.popData]
  have hcont : PopsContiguous 0 (outs ++ [Output.push r.err r.released]) :=
    (popsContiguous_append _ _ _).mpr ⟨h.contiguous, fun _ _ _ ho => by cases ho⟩
  rcases h.inv.Push_cases hmax hr herr with ⟨hsr, hdup⟩ | ⟨q₁, gaps, fr, rel, cb, hst, hsr⟩
  · -- all of the frame was received already: only the view of the received offsets grows
    rw [hsr]
    refine ⟨h.inv, fun p => ?_, fun p hp => ?_, fun p hp => (hpushed p).mpr (.inl
      (h.read_pushed p hp)), h.entry_slice, fun k e hk p h₁ h₂ => (hpushed p).mpr (.inl
      (h.entry_pushed k e hk p h₁ h₂)), h.readPos_le, hpopped ▸ h.popped_eq, hcont⟩
    · rw [h.inGap_iff p, hpushed p]
      constructor
      · rintro ⟨h₁, h₂, h₃⟩
        refine ⟨h₁, h₂, fun h₄ => h₄.elim h₃ fun h₅ => hdup p h₅.1 h₅.2 ?_⟩
        exact (h.inGap_iff p).mpr ⟨h₁, h₂, h₃⟩
      · rintro ⟨h₁, h₂, h₃⟩
        exact ⟨h₁, h₂, fun h₄ => h₃ (.inl h₄)⟩
    · rcases (hpushed p).mp hp with hp | hp
      · exact h.pushed_lt_max p hp
      · omega
  · -- a slice of the frame is stored: the gaps lose what it holds of them
    have hlt := hst.stores.lt
    have hsl := hst.slice
    have hgaps : ∀ p, InGap gaps p ↔ InGap s.gaps p ∧ ¬(offset ≤ p ∧ p < offset + data.length) := by
      intro p
      rw [hst.stores.gaps_eq, inGap_flatMap_cutOut (Nat.le_of_lt hlt)]
      constructor
      · rintro ⟨h₁, h₂⟩
        exact ⟨h₁, fun h₃ => h₂ (hst.gap_inside p h₃.1 h₃.2 h₁)⟩
      · rintro ⟨h₁, h₂⟩
        have := hsl.le_start
        have := hsl.end_le
        exact ⟨h₁, fun h₃ => h₂ ⟨by omega, by omega⟩⟩
    have hlookup : ∀ k e, (q₁.insert fr.start ⟨fr.data, cb⟩).lookup k = some e →
        (k = fr.start ∧ e = ⟨fr.data, cb⟩) ∨ s.queue.lookup k = some e := by
      intro k e hk
      rw [lookup_insert_eq] at hk
      split at hk
      · exact .inl ⟨‹_›, (Option.some.inj hk).symm⟩
      · rw [hst.stores.queue_eq] at hk
        split at hk
        · cases hk
        · exact .inr hk
    have hfr : ∀ p, fr.start ≤ p → p < fr.end_ → offset ≤ p ∧ p < offset + data.length :=
      fun p h₁ h₂ => ⟨by have := hsl.le_start; omega, by have := hsl.end_le; omega⟩
    rw [hsr]
    refine ⟨h.inv.insert hst.stores _ hsl.length_data _, fun p => ?_, fun p hp => ?_,
      fun p hp => (hpushed p).mpr (.inl (h.read_pushed p hp)), fun k e hk => ?_,
      fun k e hk p h₁ h₂ => ?_, h.readPos_le, hpopped ▸ h.popped_eq, hcont⟩
    · show InGap gaps p ↔ s.readPos ≤ p ∧ p < MaxByteCount ∧
        ¬Pushed (calls ++ [.push data offset doneCb]) p
      rw [hgaps p, h.inGap_iff p, hpushed p]
      tauto
    · rcases (hpushed p).mp hp with hp | hp
      · exact h.pushed_lt_max p hp
      · omega
    · rcases hlookup k e hk with ⟨rfl, rfl⟩ | hk
      · refine ⟨?_, slice_of_isSlice hS.2 hsl⟩
        rw [hsl.length_data]
        have := hsl.end_le
        omega
      · exact h.entry_slice k e hk
    · rcases hlookup k e hk with ⟨rfl, rfl⟩ | hk
      · rw [hsl.length_data] at h₂
        exact (hpushed p).mpr (.inr (hfr p h₁ (by omega)))
      · exact (hpushed p).mpr (.inl (h.entry_pushed k e hk p h₁ h₂))

/-- `Pop` keeps the refinement: the frame it hands out is the next slice of `S`. -/
theorem Reassembles.pop (h : Reassembles S calls outs s) {r : PopResult Cb}
    (hr : Pop s = some r) :
    Reassembles S (calls ++ [.pop]) (outs ++ [.pop r.offset r.data r.doneCb]) r.sorter := by
  have hcont : ∀ (offset : ℕ) (data : Option (List UInt8)) (doneCb : Option Cb),
      offset = s.readPos → PopsContiguous 0 (outs ++ [.pop offset data doneCb]) :=
    fun offset data doneCb hoff => (popsContiguous_append _ _ _).mpr ⟨h.contiguous,
      fun _ _ _ ho => by
        cases ho
        rw [h.popped_eq, List.length_take, Nat.min_eq_left h.readPos_le, hoff]
        omega⟩
  rcases pop_eq_some hr with ⟨-, rfl⟩ | ⟨e, he, rfl⟩
  · -- nothing at the read position: the state is unchanged
    refine ⟨h.inv, fun p => by rw [pushed_append_pop]; exact h.inGap_iff p,
      fun p hp => h.pushed_lt_max p ((pushed_append_pop _ _).mp hp),
      fun p hp => (pushed_append_pop _ _).mpr (h.read_pushed p hp), h.entry_slice,
      fun k e hk p h₁ h₂ => (pushed_append_pop _ _).mpr (h.entry_pushed k e hk p h₁ h₂),
      h.readPos_le, ?_, hcont _ _ _ rfl⟩
    simpa [Output.popData] using h.popped_eq
  · -- the frame at the read position is popped, and the read position moves past it
    obtain ⟨hlen, hdata⟩ := h.entry_slice _ _ he
    have hsub : ∀ k e', (s.queue.erase s.readPos).lookup k = some e' → s.queue.lookup k = some e' :=
      fun k e' hk => by
        rw [lookup_erase_eq] at hk
        split at hk
        · cases hk
        · exact hk
    refine ⟨h.inv.of_pop hr, fun p => ?_, fun p hp => h.pushed_lt_max p
      ((pushed_append_pop _ _).mp hp), fun p hp => (pushed_append_pop _ _).mpr ?_,
      fun k e' hk => h.entry_slice k e' (hsub k e' hk), fun k e' hk p h₁ h₂ =>
      (pushed_append_pop _ _).mpr (h.entry_pushed k e' (hsub k e' hk) p h₁ h₂), hlen, ?_,
      hcont _ _ _ rfl⟩
    · -- the popped offsets were received, so they were in no gap
      show InGap s.gaps p ↔ s.readPos + e.Data.length ≤ p ∧ p < MaxByteCount ∧
        ¬Pushed (calls ++ [.pop]) p
      rw [pushed_append_pop, h.inGap_iff p]
      constructor
      · rintro ⟨h₁, h₂, h₃⟩
        refine ⟨?_, h₂, h₃⟩
        by_contra h₄
        exact h₃ (h.entry_pushed _ _ he p h₁ (by omega))
      · rintro ⟨h₁, h₂, h₃⟩
        exact ⟨by omega, h₂, h₃⟩
    · change p < s.readPos + e.Data.length at hp
      rcases Nat.lt_or_ge p s.readPos with h₁ | h₁
      · exact h.read_pushed p h₁
      · exact h.entry_pushed _ _ he p h₁ hp
    · show (outs ++ [Output.pop s.readPos (some e.Data) e.DoneCb]).flatMap Output.popData =
        S.take (s.readPos + e.Data.length)
      rw [List.flatMap_append, h.popped_eq, List.take_add]
      simp [Output.popData, ← hdata]

/-- **One permitted call keeps the refinement.** -/
theorem Reassembles.step (h : Reassembles S calls outs s) {c : Call Cb} {s' : FrameSorter Cb}
    {o : Output Cb} (hc : c.InRange ∧ c.SliceOf S) (ho : o.Ok)
    (hstep : FrameSorter.step s c = some (s', o)) :
    Reassembles S (calls ++ [c]) (outs ++ [o]) s' := by
  rcases step_eq_some hstep with ⟨data, offset, doneCb, r, rfl, hr, rfl, rfl⟩ |
    ⟨r, rfl, hr, rfl, rfl⟩
  · exact h.push hc.1 hc.2 hr ho
  · exact h.pop hr

end Step

/-- **Along every run the sorter reassembles `S`**: from `newFrameSorter`, by calls that push
slices of `S` ending at or before `MaxByteCount`, with every `Push` returning `nil`. -/
theorem reassembles_of_run (S : List UInt8) {calls : List (Call Cb)} {s : FrameSorter Cb}
    {outs : List (Output Cb)} (hrun : Machine.run step newFrameSorter calls = some (s, outs))
    (hcalls : ∀ c ∈ calls, c.InRange ∧ c.SliceOf S) (hok : ∀ o ∈ outs, o.Ok) :
    Reassembles S calls outs s := by
  have := Machine.run_induction_of (fun c => c.InRange ∧ c.SliceOf S) Output.Ok
    (fun s calls outs => Reassembles S calls outs s)
    (fun _ _ _ _ _ _ h hc ho hstep => h.step hc ho hstep) [] []
    (reassembles_newFrameSorter S) hcalls hok hrun
  simpa using this

/-! ## Liveness: the popped data reaches every offset received from `0` on -/

section Pops

variable {S : List UInt8} {calls : List (Call Cb)} {outs : List (Output Cb)}
  {s : FrameSorter Cb}

/-- When the read position was received, a frame is queued there. -/
theorem Reassembles.pop_received (h : Reassembles S calls outs s)
    (hp : Pushed calls s.readPos) :
    ∃ e, s.queue.lookup s.readPos = some e ∧ 0 < e.Data.length := by
  have hmax := h.pushed_lt_max _ hp
  rcases h.inv.cover s.readPos le_rfl hmax with hgap | ⟨k, e, hk, hkp, hpk⟩
  · exact absurd hp ((h.inGap_iff _).mp hgap).2.2
  · have hk' : k = s.readPos := le_antisymm hkp (h.inv.readPos_le_entry k e hk)
    subst hk'
    exact ⟨e, hk, h.inv.queue_disjoint.nonempty _ _ hk⟩

/-- **Enough `Pop` calls read past `L`** when every offset below `L` was received: each of
them hands out the frame queued at the read position. -/
theorem Reassembles.pops (h : Reassembles S calls outs s) {L : ℕ}
    (hL : ∀ p < L, Pushed calls p) :
    ∃ n s' outs', Machine.run FrameSorter.step s (List.replicate n .pop) = some (s', outs') ∧
      Reassembles S (calls ++ List.replicate n .pop) (outs ++ outs') s' ∧ L ≤ s'.readPos := by
  -- induction on how far the read position is from `L`
  induction hm : L - s.readPos using Nat.strong_induction_on generalizing calls outs s with
  | _ m ih =>
  by_cases hle : L ≤ s.readPos
  · exact ⟨0, s, [], rfl, by simpa using h, hle⟩
  obtain ⟨e, he, hpos⟩ := h.pop_received (hL _ (by omega))
  obtain ⟨r, hr⟩ := Option.isSome_iff_exists.mp h.inv.pop_isSome
  have hread : r.sorter.readPos = s.readPos + e.Data.length := by
    rcases pop_eq_some hr with ⟨hnone, -⟩ | ⟨e', he', rfl⟩
    · rw [he] at hnone
      cases hnone
    · rw [he] at he'
      cases he'
      rfl
  have h₁ := h.pop hr
  obtain ⟨n, s', outs', hrun, h', hL'⟩ := ih (L - r.sorter.readPos) (by omega) h₁
    (fun p hp => (pushed_append_pop _ _).mpr (hL p hp)) rfl
  refine ⟨n + 1, s', .pop r.offset r.data r.doneCb :: outs', ?_, ?_, hL'⟩
  · simp [List.replicate_succ, Machine.run, FrameSorter.step, hr, hrun]
  · simpa [List.replicate_succ, List.append_assoc] using h'

/-- When nothing beyond `L` was received and the read position reached `L`, nothing is
queued. -/
theorem Reassembles.hasMoreData_eq_false {S : List UInt8} {calls : List (Call Cb)}
    {outs : List (Output Cb)} {s : FrameSorter Cb} (h : Reassembles S calls outs s)
    {L : ℕ} (hread : L ≤ s.readPos) (hbeyond : ∀ p, Pushed calls p → p < L) :
    HasMoreData s = false := by
  unfold HasMoreData
  rw [decide_eq_false_iff_not, Nat.not_lt, Nat.le_zero, List.length_eq_zero_iff]
  by_contra hne
  obtain ⟨⟨k, e⟩, hx⟩ := List.exists_mem_of_ne_nil _ hne
  have hk : s.queue.lookup k = some e := AList.mem_lookup_iff.mpr hx
  -- a queued frame starts at or after the read position, and its first offset was received
  have h₁ := h.inv.readPos_le_entry k e hk
  have h₂ := hbeyond k (h.entry_pushed k e hk k le_rfl
    (by have := h.inv.queue_disjoint.nonempty k e hk; omega))
  omega

/-- **Frame reassembly is exact.** Along every run from `newFrameSorter` whose calls push
slices of a byte string `S`, in any order, ending at or before `MaxByteCount`, with every
`Push` returning `nil` and `Pop` calls anywhere in between: each `Pop` returns the offset where
the data popped before it ends, and all of it is a prefix of `S`. Once the pushed frames cover
`[0, L)`, enough further `Pop` calls have returned `S[0 : L]` from the start; when nothing
beyond `L` was pushed they have returned exactly `S[0 : L]` and `HasMoreData` is false. -/
theorem reassembly_exact (S : List UInt8) {calls : List (Call Cb)} {s : FrameSorter Cb}
    {outs : List (Output Cb)} (hrun : Machine.run step newFrameSorter calls = some (s, outs))
    (hcalls : ∀ c ∈ calls, c.InRange ∧ c.SliceOf S) (hok : ∀ o ∈ outs, o.Ok) :
    PopsContiguous 0 outs ∧ outs.flatMap Output.popData <+: S ∧
      ∀ L, (∀ p < L, Pushed calls p) →
        ∃ n s' outs', Machine.run step s (List.replicate n .pop) = some (s', outs') ∧
          S.take L <+: (outs ++ outs').flatMap Output.popData ∧
          ((∀ p, Pushed calls p → p < L) →
            (outs ++ outs').flatMap Output.popData = S.take L ∧ HasMoreData s' = false) := by
  have h := reassembles_of_run S hrun hcalls hok
  refine ⟨h.contiguous, h.popped_eq ▸ List.take_prefix _ _, fun L hL => ?_⟩
  obtain ⟨n, s', outs', hrun', h', hL'⟩ := h.pops hL
  refine ⟨n, s', outs', hrun', h'.popped_eq ▸ List.take_prefix_take_left hL', fun hbeyond => ?_⟩
  have hbeyond' : ∀ p, Pushed (calls ++ List.replicate n .pop) p → p < L := fun p hp =>
    hbeyond p ((pushed_append_pops calls n p).mp hp)
  -- nothing beyond `L` was received, so the read position stopped at `L`
  have hread : s'.readPos = L := by
    refine le_antisymm ?_ hL'
    by_contra hlt
    have := hbeyond' _ (h'.read_pushed (s'.readPos - 1) (by omega))
    omega
  exact ⟨hread ▸ h'.popped_eq, h'.hasMoreData_eq_false hL' hbeyond'⟩

end Pops

/-- Pushing `[7, 8]` at `0` and popping: the pop returns the whole string, and one more offset
is never covered. -/
theorem reassembly_exact_push_pop :
    PopsContiguous 0 [Output.push none [], .pop 0 (some [7, 8]) (some ())] ∧
      [Output.push none [], .pop 0 (some [7, 8]) (some ())].flatMap Output.popData <+: [7, 8] ∧
      ∀ L, (∀ p < L, Pushed [Call.push [7, 8] 0 (some ()), .pop] p) →
        ∃ n s' outs', Machine.run step
            (⟨(AList.singleton 0 ⟨[7, 8], some ()⟩).erase 0, 2, [⟨2, MaxByteCount⟩]⟩ :
              FrameSorter Unit) (List.replicate n .pop) = some (s', outs') ∧
          ([7, 8] : List UInt8).take L <+:
            ([Output.push none [], .pop 0 (some [7, 8]) (some ())] ++ outs').flatMap
              Output.popData ∧
          ((∀ p, Pushed [Call.push [7, 8] 0 (some ()), .pop] p → p < L) →
            ([Output.push none [], .pop 0 (some [7, 8]) (some ())] ++ outs').flatMap
              Output.popData = ([7, 8] : List UInt8).take L ∧ HasMoreData s' = false) :=
  reassembly_exact [7, 8] run_push_pop (by decide) (by decide)

end FrameSorter

end QuicGo
