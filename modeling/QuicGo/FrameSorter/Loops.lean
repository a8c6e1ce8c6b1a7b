import QuicGo.FrameSorter.Invariant

/-!
# QuicGo — the loops of `push`

Each loop of `push` gets one specification here, proved by induction on the loop itself:

* the replace loop and `deleteConsecutive` erase a *run* of queued frames that follow each
  other (`ErasedRun`), calling exactly the callbacks of the frames they erase
  (`replaceLoop_done`, `deleteConsecutive_spec`);
* `findStartGap` and `findEndGap` return the gaps the code expects when the gap list is
  ordered (`findStartGap_spec`, `findEndGapFrom_some`, `findEndGapFrom_none`);
* the middle loop swallows exactly the gaps between `startGap` and `endGap`
  (`swallowedGaps_spec`).

The loop specifications hold for every queue whose frames do not overlap; what the invariant
adds (where a run stops) is stated at the end of the module (`Inv.run_stop`,
`Inv.deleteConsecutive_tile`).
-/

namespace QuicGo

namespace FrameSorter

variable {Cb : Type}

/-! ## Erased runs -/

/-- `q'` is `q` without the frames that fill `[pos, pos')` back to back. -/
structure ErasedRun (q q' : FrameQueue Cb) (pos pos' : ℕ) : Prop where
  le : pos ≤ pos'
  lookup_eq : ∀ k, q'.lookup k = if pos ≤ k ∧ k < pos' then none else q.lookup k
  covered : ∀ p, pos ≤ p → p < pos' →
    ∃ k e, q.lookup k = some e ∧ pos ≤ k ∧ k ≤ p ∧ p < k + e.Data.length
  inside : ∀ k e, q.lookup k = some e → pos ≤ k → k < pos' → k + e.Data.length ≤ pos'

theorem ErasedRun.refl (q : FrameQueue Cb) (pos : ℕ) : ErasedRun q q pos pos where
  le := le_rfl
  lookup_eq k := by simp only [show ¬(pos ≤ k ∧ k < pos) by omega, if_false]
  covered _ h h' := absurd h' (by omega)
  inside _ _ _ h h' := absurd h' (by omega)

/-- A run is the frame at its start followed by a run from where that frame ends. -/
theorem ErasedRun.cons {q q' : FrameQueue Cb} {pos pos' : ℕ} {e : FrameSorterEntry Cb}
    (hq : QueueDisjoint q) (hk : q.lookup pos = some e)
    (h : ErasedRun (q.erase pos) q' (pos + e.Data.length) pos') : ErasedRun q q' pos pos' := by
  have hpos := hq.nonempty pos e hk
  have hle := h.le
  refine ⟨by omega, fun k => ?_, fun p hp hp' => ?_, fun k e' hk' hlo hhi => ?_⟩
  · rw [h.lookup_eq k, lookup_erase_eq]
    rcases Nat.lt_or_ge k pos with h₁ | h₁
    · simp [show ¬(pos + e.Data.length ≤ k ∧ k < pos') by omega, show k ≠ pos by omega,
        show ¬(pos ≤ k ∧ k < pos') by omega]
    · rcases Nat.lt_or_ge k (pos + e.Data.length) with h₂ | h₂
      · -- `k` lies in the frame at `pos`, where no other frame starts
        have hnone : (if k = pos then none else q.lookup k) = none := by
          split
          · rfl
          · exact hq.lookup_inside hk (by omega) h₂
        rw [if_neg (show ¬(pos + e.Data.length ≤ k ∧ k < pos') by omega), hnone,
          if_pos (show pos ≤ k ∧ k < pos' by omega)]
      · simp [h₂, show k ≠ pos by omega, show pos ≤ k by omega]
  · rcases Nat.lt_or_ge p (pos + e.Data.length) with h₁ | h₁
    · exact ⟨pos, e, hk, le_rfl, hp, h₁⟩
    · obtain ⟨k, e', hk', hle, hkp, hpk⟩ := h.covered p h₁ hp'
      rw [lookup_erase_eq, if_neg (by omega)] at hk'
      exact ⟨k, e', hk', by omega, hkp, hpk⟩
  · rcases Nat.lt_trichotomy k pos with h₁ | h₁ | h₁
    · omega
    · subst h₁
      rw [hk] at hk'
      cases hk'
      omega
    · rcases Nat.lt_or_ge k (pos + e.Data.length) with h₂ | h₂
      · rw [hq.lookup_inside hk h₁ h₂] at hk'
        cases hk'
      · have hk'' : (q.erase pos).lookup k = some e' := by
          rw [lookup_erase_eq, if_neg (by omega)]
          exact hk'
        exact h.inside k e' hk'' h₂ hhi

/-! ## The replace loop -/

/-- The replace loop finds the frame a duplicate only at its first frame, when that frame
reaches the end of the new one. -/
theorem replaceLoop_duplicate {end_ : ℕ} {q : FrameQueue Cb} {pos : ℕ} {hr : Bool}
    (h : replaceLoop end_ q pos hr = .duplicate) :
    hr = false ∧ ∃ e, q.lookup pos = some e ∧ end_ ≤ pos + e.Data.length := by
  fun_induction replaceLoop end_ q pos hr with
  | case1 => cases h
  | case2 q pos hr e he len hcond hdup ih => exact absurd (ih hdup).1 (by simp)
  | case3 => cases h
  | case4 q pos hr e he len hcond hhr =>
    simp only [Bool.not_eq_true] at hhr
    refine ⟨hhr, e, he, ?_⟩
    simp only [len, gt_iff_lt, not_or] at hcond
    omega
  | case5 => cases h

/-- What the replace loop did when it stopped at `pos'`: it erased the run `[pos, pos')` and
stopped either where no frame starts or, after
replacing at least one frame, at a frame that reaches past the end of the new one. -/
structure ReplaceStop (q q' : FrameQueue Cb) (end_ pos pos' : ℕ) (hr hr' cut : Bool) :
    Prop where
  run : ErasedRun q q' pos pos'
  le_end : pos' ≤ end_
  replaced : hr' = true ↔ hr = true ∨ pos < pos'
  stop_none : cut = false → q.lookup pos' = none
  stop_cut : cut = true → hr' = true ∧ ∃ e, q.lookup pos' = some e ∧ end_ < pos' + e.Data.length

theorem replaceLoop_done {end_ : ℕ} {q : FrameQueue Cb} {pos : ℕ} {hr : Bool}
    (hq : QueueDisjoint q) (hpos : pos ≤ end_) {q' : FrameQueue Cb} {pos' : ℕ}
    {hr' cut : Bool} {released : List Cb}
    (h : replaceLoop end_ q pos hr = .done q' pos' hr' cut released) :
    ReplaceStop q q' end_ pos pos' hr hr' cut := by
  fun_induction replaceLoop end_ q pos hr generalizing q' pos' hr' cut released with
  | case1 q pos hr hnone =>
    cases h
    exact ⟨.refl q pos, hpos, by simp, fun _ => hnone, by simp⟩
  | case2 => cases h
  | case3 q pos hr e he len hcond q₁ p₁ r₁ c₁ rel₁ hrec ih =>
    cases h
    have hlen : 0 < len := hq.nonempty pos e he
    have hle : pos + len ≤ end_ := by
      rcases hcond with hcond | ⟨-, hcond⟩ <;> omega
    have st := ih (hq.erase pos) hle hrec
    have hrun_le := st.run.le
    refine ⟨.cons hq he st.run, st.le_end, ?_, fun hc => ?_, fun hc => ?_⟩
    · -- the recursive call has replaced a frame already
      have hr₁ : r₁ = true := st.replaced.mpr (.inl rfl)
      simp only [hr₁, true_iff]
      right
      omega
    · have hnone := st.stop_none hc
      rwa [lookup_erase_eq, if_neg (by omega)] at hnone
    · obtain ⟨hr₁, e', he', hlt⟩ := st.stop_cut hc
      rw [lookup_erase_eq, if_neg (by omega)] at he'
      exact ⟨hr₁, e', he', hlt⟩
  | case4 => cases h
  | case5 q pos hr e he len hcond hhr =>
    cases h
    have hhr : hr = true := not_not.mp hhr
    have h₁ : ¬(end_ - pos > len) := fun h' => hcond (.inl h')
    have h₂ : end_ - pos ≠ len := fun h' => hcond (.inr ⟨hhr, h'⟩)
    refine ⟨.refl q pos, hpos, by simp [hhr], by simp, fun _ => ⟨rfl, e, he, ?_⟩⟩
    show end_ < pos + len
    omega

/-- The replace loop calls the callbacks of the frames it erases, of any queue. -/
theorem replaceLoop_perm {end_ : ℕ} {q : FrameQueue Cb} {pos : ℕ} {hr : Bool}
    {q' : FrameQueue Cb} {pos' : ℕ} {hr' cut : Bool} {released : List Cb}
    (h : replaceLoop end_ q pos hr = .done q' pos' hr' cut released) :
    List.Perm (released ++ queueCbs q') (queueCbs q) := by
  fun_induction replaceLoop end_ q pos hr generalizing q' pos' hr' cut released with
  | case1 => cases h; simp
  | case2 => cases h
  | case3 q pos hr e he len hcond q₁ p₁ r₁ c₁ rel₁ hrec =>
    rename_i ih
    cases h
    rw [List.append_assoc]
    exact ((ih hrec).append_left _).trans (queueCbs_erase_perm he).symm
  | case4 => cases h
  | case5 => cases h; simp

/-! ## `deleteConsecutive` -/

/-- `deleteConsecutive` calls the callbacks of the frames it erases, of any queue. -/
theorem deleteConsecutive_perm (q : FrameQueue Cb) (pos : ℕ) :
    List.Perm ((deleteConsecutive q pos).2 ++ queueCbs (deleteConsecutive q pos).1)
      (queueCbs q) := by
  fun_induction deleteConsecutive q pos with
  | case1 q pos hnone => simp
  | case2 q pos e he r ih =>
    show List.Perm ((e.DoneCb.toList ++ r.2) ++ queueCbs r.1) (queueCbs q)
    rw [List.append_assoc]
    exact (ih.append_left _).trans (queueCbs_erase_perm he).symm

theorem deleteConsecutiveAll_perm (q : FrameQueue Cb) (ps : List ℕ) :
    List.Perm ((deleteConsecutiveAll q ps).2 ++ queueCbs (deleteConsecutiveAll q ps).1)
      (queueCbs q) := by
  induction ps generalizing q with
  | nil => simp [deleteConsecutiveAll]
  | cons pos ps ih =>
    simp only [deleteConsecutiveAll, List.append_assoc]
    exact ((ih _).append_left _).trans (deleteConsecutive_perm q pos)

/-- `deleteConsecutive` erases the run of frames from `pos` to the first offset where no
frame starts. -/
theorem deleteConsecutive_spec {q : FrameQueue Cb} (hq : QueueDisjoint q) (pos : ℕ) :
    ∃ pos', ErasedRun q (deleteConsecutive q pos).1 pos pos' ∧ q.lookup pos' = none := by
  fun_induction deleteConsecutive q pos with
  | case1 q pos hnone => exact ⟨pos, .refl q pos, hnone⟩
  | case2 q pos e he r ih =>
    obtain ⟨pos', hrun, hnone⟩ := ih (hq.erase pos)
    have hlen := hq.nonempty pos e he
    have := hrun.le
    refine ⟨pos', .cons hq he hrun, ?_⟩
    rwa [lookup_erase_eq, if_neg (by omega)] at hnone

/-! ## Finding the gaps -/

/-- `findStartGap` returns the first gap that does not end before `offset`, and whether
`offset` is in it, when there is one. -/
theorem findStartGap_spec {gaps : List ByteInterval} {offset : ℕ}
    (hne : ∀ g ∈ gaps, g.Start ≤ g.End) (hex : ∃ g ∈ gaps, offset ≤ g.End) :
    ∃ i, ∃ hi : i < gaps.length,
      findStartGap gaps offset = some (i, decide (gaps[i].Start ≤ offset)) ∧
      offset ≤ gaps[i].End ∧ ∀ j (hj : j < gaps.length), j < i → gaps[j].End < offset := by
  induction gaps with
  | nil => simp at hex
  | cons g gs ih =>
    by_cases hin : offset ≥ g.Start ∧ offset ≤ g.End
    · exact ⟨0, by simp, by simp [findStartGap, hin], hin.2, fun j _ hj => absurd hj (by omega)⟩
    · by_cases hlt : offset < g.Start
      · have hg := hne g (by simp)
        refine ⟨0, by simp, ?_, by simp; omega, fun j _ hj => absurd hj (by omega)⟩
        simp [findStartGap, hlt, show ¬g.Start ≤ offset by omega]
      · have hgt : g.End < offset := by omega
        obtain ⟨i, hi, hfind, hle, hbefore⟩ := ih (fun g' hg' => hne g' (by simp [hg']))
          (by
            obtain ⟨g', hg', hle'⟩ := hex
            rcases List.mem_cons.mp hg' with rfl | hg'
            · omega
            · exact ⟨g', hg', hle'⟩)
        refine ⟨i + 1, by simp; omega, ?_, by simpa using hle, fun j hj hji => ?_⟩
        · simp [findStartGap, hin, hlt, hfind]
        · rcases j with _ | j
          · simpa using hgt
          · simpa using hbefore j (by simp at hj; omega) (by omega)

/-- When `findEndGapFrom` returns, it stopped at the gap `l[j]`: every gap before it ends at
or before `offset`, and `offset` is in `l[j]` or before it. -/
theorem findEndGapFrom_some {l : List ByteInterval} {i offset : ℕ} {r : Option ℕ} {b : Bool}
    (h : findEndGapFrom l i offset = some (r, b)) :
    ∃ j, ∃ hj : j < l.length,
      (∀ j' (hj' : j' < l.length), j' < j → l[j'].Start ≤ offset ∧ l[j'].End ≤ offset) ∧
      ((b = true ∧ r = some (i + j) ∧ l[j].Start ≤ offset ∧ offset < l[j].End) ∨
        (b = false ∧ r = (match i + j with | 0 => none | k + 1 => some k) ∧
          offset < l[j].Start)) := by
  induction l generalizing i with
  | nil => simp [findEndGapFrom] at h
  | cons g gs ih =>
    simp only [findEndGapFrom] at h
    split at h
    · rename_i hin
      simp only [Option.some.injEq, Prod.mk.injEq] at h
      obtain ⟨rfl, rfl⟩ := h
      exact ⟨0, by simp, fun _ _ hj => absurd hj (by omega), .inl ⟨rfl, rfl, hin.1, hin.2⟩⟩
    · split at h
      · rename_i hin hlt
        simp only [Option.some.injEq, Prod.mk.injEq] at h
        obtain ⟨rfl, rfl⟩ := h
        exact ⟨0, by simp, fun _ _ hj => absurd hj (by omega), .inr ⟨rfl, rfl, hlt⟩⟩
      · rename_i hin hlt
        obtain ⟨j, hj, hbefore, hstop⟩ := ih h
        refine ⟨j + 1, by simp; omega, fun j' hj' hjj => ?_, ?_⟩
        · rcases j' with _ | j'
          · simp only [List.getElem_cons_zero]
            omega
          · simpa using hbefore j' (by simp at hj'; omega) (by omega)
        · simpa [show i + 1 + j = i + (j + 1) by omega] using hstop

/-- `findEndGapFrom` runs past the last gap only when every gap ends at or before `offset`. -/
theorem findEndGapFrom_none {l : List ByteInterval} {i offset : ℕ}
    (h : findEndGapFrom l i offset = none) :
    ∀ j (hj : j < l.length), l[j].Start ≤ offset ∧ l[j].End ≤ offset := by
  induction l generalizing i with
  | nil => simp
  | cons g gs ih =>
    simp only [findEndGapFrom] at h
    split at h
    · cases h
    · split at h
      · cases h
      · rename_i hin hlt
        intro j hj
        rcases j with _ | j
        · simp only [List.getElem_cons_zero]
          omega
        · simpa using ih h j (by simp at hj; omega)

/-- `findEndGapFrom` runs past the last gap when every gap ends at or before `offset`. -/
theorem findEndGapFrom_eq_none {l : List ByteInterval} {i offset : ℕ}
    (h : ∀ g ∈ l, g.Start < g.End ∧ g.End ≤ offset) : findEndGapFrom l i offset = none := by
  induction l generalizing i with
  | nil => rfl
  | cons g gs ih =>
    have hg := h g (by simp)
    simp only [findEndGapFrom]
    rw [if_neg (by omega), if_neg (by omega)]
    exact ih fun g' hg' => h g' (by simp [hg'])

/-! ## The middle loop -/

/-- The middle loop, started after `startGap` with the start of an `endGap` further on in an
ordered list, swallows exactly the gaps strictly between them. -/
theorem swallowedGaps_spec {l : List ByteInterval} {n : ℕ} (hn : n < l.length)
    (hbefore : ∀ j (hj : j < l.length), j < n → l[j].End < l[n].Start)
    (hstop : l[n].Start ≤ l[n].End) :
    swallowedGaps l l[n].Start = some (l.take n) := by
  induction l generalizing n with
  | nil => simp at hn
  | cons g gs ih =>
    rcases n with _ | n
    · simp [swallowedGaps, show ¬g.End < g.Start by simpa using hstop]
    · have hn' : n < gs.length := by simpa using hn
      have hg : g.End < gs[n].Start := by
        have := hbefore 0 (by simp) (by omega)
        simpa only [List.getElem_cons_zero, List.getElem_cons_succ] using this
      have hrest := ih hn' (fun j hj hjn => by
        have := hbefore (j + 1) (by simpa using hj) (by omega)
        simpa only [List.getElem_cons_succ] using this) (by simpa using hstop)
      simp [swallowedGaps, hg, hrest]

/-! ## Where the loops stop, under the invariant -/

section Inv

variable {s : FrameSorter Cb} (hs : Inv s)
include hs

/-- A run of frames, in a queue that agrees with the sorter's on `[x, y]`, does not pass the
offset `y` when `y` is in a gap. -/
theorem Inv.run_le_of_inGap {q q' : FrameQueue Cb} {x y pos' : ℕ}
    (hagree : ∀ k, x ≤ k → k ≤ y → q.lookup k = s.queue.lookup k) (hy : InGap s.gaps y)
    (hxy : x ≤ y) (hrun : ErasedRun q q' x pos') : pos' ≤ y := by
  by_contra hlt
  obtain ⟨k, e, hk, hxk, hky, hyk⟩ := hrun.covered y hxy (by omega)
  rw [hagree k hxk hky] at hk
  exact hs.entry_not_gap k e y hk hky hyk hy

/-- Such a run that stops where no frame starts stops at its start or at `y`, when no offset
between them is in a gap: frames follow each other up to the next gap. -/
theorem Inv.run_stop {q q' : FrameQueue Cb} {x y pos' : ℕ}
    (hagree : ∀ k, x ≤ k → k ≤ y → q.lookup k = s.queue.lookup k) (hy : InGap s.gaps y)
    (hxy : x ≤ y) (hbetween : ∀ p, x ≤ p → p < y → ¬InGap s.gaps p)
    (hrun : ErasedRun q q' x pos') (hnone : q.lookup pos' = none) : pos' = x ∨ pos' = y := by
  have hle := hs.run_le_of_inGap hagree hy hxy hrun
  have hx := hrun.le
  rcases Nat.lt_or_ge x pos' with hlt | hge
  · right
    by_contra hne
    -- the last frame of the run ends at `pos'`, and in the sorter another frame starts there
    obtain ⟨k, e, hk, hxk, hkp, hpk⟩ := hrun.covered (pos' - 1) (by omega) (by omega)
    have hend : k + e.Data.length = pos' := by
      have := hrun.inside k e hk hxk (by omega)
      omega
    rw [hagree k hxk (by omega)] at hk
    have hmax := hs.lt_max_of_inGap hy
    obtain ⟨e', he'⟩ := hs.lookup_entry_end hk (by omega)
      (by rw [hend]; exact hbetween pos' (by omega) (by omega))
    rw [hend, ← hagree pos' (by omega) hle, hnone] at he'
    cases he'
  · left
    omega

/-- **`deleteConsecutive` erases one tile.** From the end of a gap that is not the last, on a
queue that agrees with the sorter's up to the next gap, it erases exactly the frames between
the two gaps. -/
theorem Inv.deleteConsecutive_tile {q : FrameQueue Cb} (hq : QueueDisjoint q) {i : ℕ}
    (hi₀ : i < s.gaps.length) (hi : i + 1 < s.gaps.length)
    (hagree : ∀ k, s.gaps[i].End ≤ k → k ≤ s.gaps[i + 1].Start → q.lookup k = s.queue.lookup k)
    (k : ℕ) : (deleteConsecutive q s.gaps[i].End).1.lookup k =
      if s.gaps[i].End ≤ k ∧ k < s.gaps[i + 1].Start then none else q.lookup k := by
  obtain ⟨pos', hrun, hnone⟩ := deleteConsecutive_spec hq s.gaps[i].End
  have hlt : s.gaps[i].End < s.gaps[i + 1].Start := hs.gaps_ordered.hi_lt_lo (by omega) hi (by omega)
  have hy : InGap s.gaps s.gaps[i + 1].Start :=
    ⟨_, List.getElem_mem hi, le_rfl, hs.nonempty_of_lt hi⟩
  rcases hs.run_stop hagree hy (Nat.le_of_lt hlt) (fun p h₁ h₂ => hs.not_inGap_between hi h₁ h₂) hrun hnone
    with h | h
  · -- a frame starts where the gap ends, so the run is not empty
    obtain ⟨e, he⟩ := hs.lookup_gap_end (by omega) (hs.end_lt_max hi)
    rw [h, hagree _ le_rfl (Nat.le_of_lt hlt), he] at hnone
    cases hnone
  · rw [← h]
    exact hrun.lookup_eq k

/-- **The middle loop erases the tiles.** `deleteConsecutive` at the ends of the gaps `j` to
`j + n - 1`, on a queue that is the sorter's without the frames in `[lo, S_j)`, leaves the
sorter's queue without the frames in `[lo, S_{j+n})`. -/
theorem Inv.deleteConsecutiveAll_tiles {lo : ℕ} :
    ∀ {q : FrameQueue Cb} {j n : ℕ} (hjn : j + n < s.gaps.length),
      lo ≤ s.gaps[j].End →
      (∀ k, q.lookup k = if lo ≤ k ∧ k < s.gaps[j].Start then none else s.queue.lookup k) →
      ∀ k, (deleteConsecutiveAll q (((s.gaps.drop j).take n).map ByteInterval.End)).1.lookup k =
        if lo ≤ k ∧ k < s.gaps[j + n].Start then none else s.queue.lookup k := by
  intro q j n
  induction n generalizing q j with
  | zero =>
    intro hjn _ hq k
    simpa [deleteConsecutiveAll] using hq k
  | succ n ih =>
    intro hjn hlo hq k
    have hj : j < s.gaps.length := by omega
    have hj1 : j + 1 < s.gaps.length := by omega
    rw [List.drop_eq_getElem_cons hj, List.take_succ_cons, List.map_cons]
    simp only [deleteConsecutiveAll]
    have hS := hs.nonempty_of_lt hj
    have hlt := hs.gaps_ordered.hi_lt_lo hj hj1 (Nat.lt_succ_self j)
    -- the queue agrees with the sorter's from the end of the gap `j` on
    have hagree : ∀ k, s.gaps[j].End ≤ k → k ≤ s.gaps[j + 1].Start →
        q.lookup k = s.queue.lookup k := by
      intro k h₁ _
      rw [hq k, if_neg (by omega)]
    have hdisj : QueueDisjoint q := hs.queue_disjoint.of_lookup fun k e hk => by
      rw [hq k] at hk
      split at hk
      · cases hk
      · exact hk
    have htile := hs.deleteConsecutive_tile hdisj (by omega) (by omega) hagree
    -- after the tile `j` the frames in `[lo, S_{j+1})` are gone: those in the gap `j` never were
    have hq' : ∀ k, (deleteConsecutive q s.gaps[j].End).1.lookup k =
        if lo ≤ k ∧ k < s.gaps[j + 1].Start then none else s.queue.lookup k := by
      intro k
      rw [htile k, hq k]
      by_cases h₁ : s.gaps[j].End ≤ k ∧ k < s.gaps[j + 1].Start
      · rw [if_pos h₁, if_pos (by omega)]
      · rw [if_neg h₁]
        by_cases h₂ : lo ≤ k ∧ k < s.gaps[j].Start
        · rw [if_pos h₂, if_pos (by omega)]
        · rw [if_neg h₂]
          by_cases h₃ : s.gaps[j].Start ≤ k ∧ k < s.gaps[j].End
          · rw [hs.lookup_of_inGap ⟨_, List.getElem_mem hj, h₃⟩]
            split <;> rfl
          · rw [if_neg (by omega)]
    have := ih (q := (deleteConsecutive q s.gaps[j].End).1) (j := j + 1) (by omega)
      (le_trans hlo (hs.end_le_end hj1 (Nat.le_succ j))) hq' k
    simpa only [show j + 1 + n = j + (n + 1) by omega] using this

end Inv

end FrameSorter

end QuicGo
