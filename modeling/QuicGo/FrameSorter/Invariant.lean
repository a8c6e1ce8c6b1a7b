import QuicGo.FrameSorter.Basic
import QuicGo.Lib.Interval

/-!
# QuicGo — the representation invariant of the frame sorter

A frame sorter describes the offsets `[0, MaxByteCount)` three ways: read (below `readPos`),
missing (in a gap) or held (in a queued frame). `Inv` says that these three parts are
disjoint and cover everything, that the gaps are ordered, non-empty and end at
`MaxByteCount`, and that the queued frames are non-empty and do not overlap.

From the cover follow the *tiling* facts that the loops of `push` rely on: right after a gap
ends a queued frame starts (`Inv.lookup_gap_end`), and right after a queued frame ends
another one starts unless a gap does (`Inv.lookup_entry_end`). Between two gaps the queue is
therefore a run of frames that follow each other, which is what the replace loop and
`deleteConsecutive` walk.

The module also gives the accounting of callbacks held by a queue (`queueCbs`), the
multiset the callback claims are about.
-/

namespace QuicGo

namespace FrameSorter

variable {Cb : Type}

/-- `p` is an offset inside one of the gaps. -/
def InGap (gaps : List ByteInterval) (p : ℕ) : Prop :=
  Interval.Covers ByteInterval.Start ByteInterval.End gaps p

/-- `p` is an offset inside one of the queued frames. -/
def InQueue (queue : FrameQueue Cb) (p : ℕ) : Prop :=
  ∃ k e, queue.lookup k = some e ∧ k ≤ p ∧ p < k + e.Data.length

/-- The queued frames are non-empty and do not overlap. -/
structure QueueDisjoint (queue : FrameQueue Cb) : Prop where
  nonempty : ∀ k e, queue.lookup k = some e → 0 < e.Data.length
  disjoint : ∀ k e k' e', queue.lookup k = some e → queue.lookup k' = some e' → k < k' →
    k + e.Data.length ≤ k'

/-- **The representation invariant.** -/
structure Inv (s : FrameSorter Cb) : Prop where
  gaps_ne_nil : s.gaps ≠ []
  gaps_ordered : Interval.Ordered ByteInterval.Start ByteInterval.End s.gaps
  gap_nonempty : ∀ g ∈ s.gaps, g.Start < g.End
  last_gap_end : ∀ g ∈ s.gaps.getLast?, g.End = MaxByteCount
  readPos_le_first_gap : ∀ g ∈ s.gaps.head?, s.readPos ≤ g.Start
  queue_disjoint : QueueDisjoint s.queue
  readPos_le_entry : ∀ k e, s.queue.lookup k = some e → s.readPos ≤ k
  entry_le_max : ∀ k e, s.queue.lookup k = some e → k + e.Data.length ≤ MaxByteCount
  entry_not_gap : ∀ k e p, s.queue.lookup k = some e → k ≤ p → p < k + e.Data.length →
    ¬InGap s.gaps p
  cover : ∀ p, s.readPos ≤ p → p < MaxByteCount → InGap s.gaps p ∨ InQueue s.queue p

/-- The callbacks held by the queued frames. -/
def queueCbs (queue : FrameQueue Cb) : List Cb :=
  queue.entries.filterMap fun e => e.2.DoneCb

/-! ## Queue lookups -/

theorem lookup_erase_eq (q : FrameQueue Cb) (k k' : ℕ) :
    (q.erase k).lookup k' = if k' = k then none else q.lookup k' := by
  split
  · subst k'
    exact AList.lookup_erase k q
  · exact AList.lookup_erase_ne ‹_›

theorem lookup_insert_eq (q : FrameQueue Cb) (k k' : ℕ) (e : FrameSorterEntry Cb) :
    (q.insert k e).lookup k' = if k' = k then some e else q.lookup k' := by
  split
  · subst k'
    exact AList.lookup_insert q
  · exact AList.lookup_insert_ne ‹_›

theorem QueueDisjoint.erase {q : FrameQueue Cb} (h : QueueDisjoint q) (k : ℕ) :
    QueueDisjoint (q.erase k) where
  nonempty k' e he := by
    rw [lookup_erase_eq] at he
    split at he
    · cases he
    · exact h.nonempty k' e he
  disjoint k₁ e₁ k₂ e₂ h₁ h₂ hlt := by
    rw [lookup_erase_eq] at h₁ h₂
    split at h₁
    · cases h₁
    · split at h₂
      · cases h₂
      · exact h.disjoint k₁ e₁ k₂ e₂ h₁ h₂ hlt

/-- A queue whose frames are frames of a queue without overlaps has none either. -/
theorem QueueDisjoint.of_lookup {q q' : FrameQueue Cb} (h : QueueDisjoint q)
    (hsub : ∀ k e, q'.lookup k = some e → q.lookup k = some e) : QueueDisjoint q' where
  nonempty k e he := h.nonempty k e (hsub k e he)
  disjoint k₁ e₁ k₂ e₂ h₁ h₂ hlt := h.disjoint k₁ e₁ k₂ e₂ (hsub k₁ e₁ h₁) (hsub k₂ e₂ h₂) hlt

/-- No frame starts strictly inside a queued frame. -/
theorem QueueDisjoint.lookup_inside {q : FrameQueue Cb} (h : QueueDisjoint q)
    {k k' : ℕ} {e : FrameSorterEntry Cb} (hk : q.lookup k = some e) (hlt : k < k')
    (hlt' : k' < k + e.Data.length) : q.lookup k' = none := by
  cases hk' : q.lookup k' with
  | none => rfl
  | some e' =>
    have := h.disjoint k e k' e' hk hk' hlt
    exact absurd this (by omega)

/-- Erasing a queued frame takes its callback out of the queue's callbacks. -/
theorem queueCbs_erase_perm {q : FrameQueue Cb} {k : ℕ} {e : FrameSorterEntry Cb}
    (hk : q.lookup k = some e) :
    List.Perm (queueCbs q) (e.DoneCb.toList ++ queueCbs (q.erase k)) := by
  have hmem : k ∈ q.entries.keys := AList.mem_keys.mp (AList.lookup_isSome.mp (by simp [hk]))
  obtain ⟨b, l₁, l₂, -, hq, he⟩ := List.exists_of_kerase hmem
  have hb : b = e := by
    have : q.lookup k = some b := by
      rw [AList.lookup, hq]
      exact (List.mem_dlookup_iff (hq ▸ q.nodupKeys)).mpr (by simp)
    rw [hk] at this
    exact (Option.some.inj this).symm
  subst hb
  have herase : (q.erase k).entries = l₁ ++ l₂ := he
  have hperm : List.Perm q.entries (⟨k, b⟩ :: (l₁ ++ l₂)) := by
    rw [hq]
    exact List.perm_middle
  unfold queueCbs
  rw [herase]
  refine (hperm.filterMap _).trans ?_
  cases hcb : b.DoneCb <;> simp [hcb]

/-- Storing a frame at an offset that holds none adds its callback to the queue's
callbacks. -/
theorem queueCbs_insert_perm {q : FrameQueue Cb} {k : ℕ} (e : FrameSorterEntry Cb)
    (hk : q.lookup k = none) :
    List.Perm (queueCbs (q.insert k e)) (e.DoneCb.toList ++ queueCbs q) := by
  have hnot : k ∉ q := AList.lookup_eq_none.mp hk
  unfold queueCbs
  rw [AList.entries_insert_of_notMem hnot]
  cases hcb : e.DoneCb <;> simp [hcb]

/-- An offset that every gap either lies after or ends at or before is in no gap. -/
theorem not_inGap_of_forall {gaps : List ByteInterval} {p : ℕ}
    (h : ∀ j (hj : j < gaps.length), p < gaps[j].Start ∨ gaps[j].End ≤ p) :
    ¬InGap gaps p := by
  intro hp
  obtain ⟨j, hj, hlo, hhi⟩ := Interval.covers_iff_getElem.mp hp
  rcases h j hj with h' | h' <;> omega

/-! ## Consequences of the invariant -/

section Inv

variable {s : FrameSorter Cb} (hs : Inv s)
include hs

theorem Inv.nonempty_of_lt {i : ℕ} (hi : i < s.gaps.length) : s.gaps[i].Start < s.gaps[i].End :=
  hs.gap_nonempty _ (List.getElem_mem hi)

/-- The last gap ends at `MaxByteCount`. -/
theorem Inv.last_end {i : ℕ} (hi : i < s.gaps.length) (hlast : i + 1 = s.gaps.length) :
    s.gaps[i].End = MaxByteCount := by
  apply hs.last_gap_end
  rw [List.getLast?_eq_getElem?, show s.gaps.length - 1 = i by omega, List.getElem?_eq_getElem hi]
  simp

/-- Every gap lies in `[readPos, MaxByteCount)`. -/
theorem Inv.readPos_le_gap {i : ℕ} (hi : i < s.gaps.length) : s.readPos ≤ s.gaps[i].Start := by
  have h0len : 0 < s.gaps.length := by omega
  have h0 : s.readPos ≤ s.gaps[0].Start :=
    hs.readPos_le_first_gap _ (by rw [List.head?_eq_getElem?, List.getElem?_eq_getElem h0len]; rfl)
  rcases Nat.eq_zero_or_pos i with rfl | hpos
  · exact h0
  · have := hs.gaps_ordered.hi_lt_lo h0len hi hpos
    have := hs.nonempty_of_lt h0len
    omega

theorem Inv.gap_end_le_max {i : ℕ} (hi : i < s.gaps.length) : s.gaps[i].End ≤ MaxByteCount := by
  have hn : s.gaps.length - 1 < s.gaps.length := by omega
  have hlast := hs.last_end hn (by omega)
  rcases Nat.lt_or_ge i (s.gaps.length - 1) with h | h
  · have := hs.gaps_ordered.hi_lt_lo hi hn h
    have := hs.nonempty_of_lt hn
    omega
  · have : s.gaps[i] = s.gaps[s.gaps.length - 1] := by
      congr 1
      omega
    rw [this, hlast]

/-- A gap's end is in no gap. -/
theorem Inv.not_inGap_gap_end {i : ℕ} (hi : i < s.gaps.length) : ¬InGap s.gaps s.gaps[i].End := by
  rintro ⟨g, hg, hlo, hhi⟩
  obtain ⟨j, hj, rfl⟩ := List.mem_iff_getElem.mp hg
  rcases Nat.lt_trichotomy i j with h | h | h
  · have := hs.gaps_ordered.hi_lt_lo hi hj h
    omega
  · subst h
    omega
  · have := hs.gaps_ordered.hi_lt_lo hj hi h
    have := hs.nonempty_of_lt hi
    omega

/-- **A frame starts where a gap ends**, unless the gap is the last one. -/
theorem Inv.lookup_gap_end {i : ℕ} (hi : i < s.gaps.length) (hmax : s.gaps[i].End < MaxByteCount) :
    ∃ e, s.queue.lookup s.gaps[i].End = some e := by
  have hread := hs.readPos_le_gap hi
  have hne := hs.nonempty_of_lt hi
  rcases hs.cover s.gaps[i].End (by omega) hmax with hgap | ⟨k, e, hk, hle, hlt⟩
  · exact absurd hgap (hs.not_inGap_gap_end hi)
  · rcases Nat.lt_or_ge k s.gaps[i].End with hk' | hk'
    · -- the frame would cover the last offset of the gap
      have : ¬InGap s.gaps (s.gaps[i].End - 1) :=
        hs.entry_not_gap k e _ hk (by omega) (by omega)
      exact absurd ⟨s.gaps[i], List.getElem_mem hi, by omega, by omega⟩ this
    · exact ⟨e, by rw [show s.gaps[i].End = k by omega]; exact hk⟩

/-- **After a queued frame another one starts**, unless the offset is in a gap or is
`MaxByteCount`. -/
theorem Inv.lookup_entry_end {k : ℕ} {e : FrameSorterEntry Cb}
    (hk : s.queue.lookup k = some e) (hmax : k + e.Data.length < MaxByteCount)
    (hgap : ¬InGap s.gaps (k + e.Data.length)) :
    ∃ e', s.queue.lookup (k + e.Data.length) = some e' := by
  have hread := hs.readPos_le_entry k e hk
  rcases hs.cover (k + e.Data.length) (by omega) hmax with hg | ⟨k', e', hk', hle, hlt⟩
  · exact absurd hg hgap
  · rcases Nat.lt_trichotomy k' (k + e.Data.length) with h | h | h
    · exfalso
      rcases Nat.lt_trichotomy k k' with h₁ | h₁ | h₁
      · have := hs.queue_disjoint.disjoint k e k' e' hk hk' h₁
        omega
      · subst h₁
        rw [hk] at hk'
        cases hk'
        omega
      · have := hs.queue_disjoint.disjoint k' e' k e hk' hk h₁
        omega
    · exact ⟨e', h ▸ hk'⟩
    · omega

/-- Starts and ends of the gaps increase along the list. -/
theorem Inv.start_le_start {i j : ℕ} (hj : j < s.gaps.length) (hij : i ≤ j) :
    s.gaps[i].Start ≤ s.gaps[j].Start := by
  rcases Nat.lt_or_ge i j with h | h
  · have := hs.gaps_ordered.hi_lt_lo (by omega) hj h
    have := hs.nonempty_of_lt (i := i) (by omega)
    omega
  · have : i = j := by omega
    subst this
    exact le_rfl

theorem Inv.end_le_end {i j : ℕ} (hj : j < s.gaps.length) (hij : i ≤ j) :
    s.gaps[i].End ≤ s.gaps[j].End := by
  rcases Nat.lt_or_ge i j with h | h
  · have := hs.gaps_ordered.hi_lt_lo (by omega) hj h
    have := hs.nonempty_of_lt hj
    omega
  · have : i = j := by omega
    subst this
    exact le_rfl

/-- No offset between the end of a gap and the start of the next one is in a gap. -/
theorem Inv.not_inGap_between {i p : ℕ} (hi : i + 1 < s.gaps.length)
    (h₁ : s.gaps[i].End ≤ p) (h₂ : p < s.gaps[i + 1].Start) : ¬InGap s.gaps p := by
  refine not_inGap_of_forall fun j hj => ?_
  rcases Nat.lt_or_ge i j with h | h
  · have := hs.start_le_start hj (show i + 1 ≤ j by omega)
    omega
  · have := hs.end_le_end (by omega) h
    omega

/-- Every offset in a gap is below `MaxByteCount`. -/
theorem Inv.lt_max_of_inGap {p : ℕ} (hp : InGap s.gaps p) : p < MaxByteCount := by
  obtain ⟨j, hj, -, hhi⟩ := Interval.covers_iff_getElem.mp hp
  have := hs.gap_end_le_max hj
  omega

/-- A gap followed by another ends below `MaxByteCount`. -/
theorem Inv.end_lt_max {i : ℕ} (hi : i + 1 < s.gaps.length) : s.gaps[i].End < MaxByteCount := by
  have := hs.gaps_ordered.hi_lt_lo (i := i) (by omega) hi (by omega)
  have := hs.nonempty_of_lt hi
  have := hs.gap_end_le_max hi
  omega

/-- No frame starts at an offset in a gap. -/
theorem Inv.lookup_of_inGap {p : ℕ} (hp : InGap s.gaps p) : s.queue.lookup p = none := by
  cases hk : s.queue.lookup p with
  | none => rfl
  | some e =>
    have := hs.queue_disjoint.nonempty p e hk
    exact absurd hp (hs.entry_not_gap p e p hk le_rfl (by omega))

/-- A frame that starts at or before an offset in a gap ends at or before it. -/
theorem Inv.entry_end_le_of_inGap {k p : ℕ} {e : FrameSorterEntry Cb}
    (hk : s.queue.lookup k = some e) (hkp : k ≤ p) (hp : InGap s.gaps p) :
    k + e.Data.length ≤ p := by
  by_contra h
  exact hs.entry_not_gap k e p hk hkp (by omega) hp

/-- A frame that starts before the last offset of a gap ends at or before it. -/
theorem Inv.entry_end_le_gap_end {a : ℕ} (ha : a < s.gaps.length) {k : ℕ}
    {e : FrameSorterEntry Cb} (hk : s.queue.lookup k = some e) (hka : k < s.gaps[a].End) : k + e.Data.length ≤ s.gaps[a].End := by
  have hne := hs.nonempty_of_lt ha
  rcases Nat.lt_or_ge k s.gaps[a].Start with h | h
  · have := hs.entry_end_le_of_inGap hk (Nat.le_of_lt h) ⟨_, List.getElem_mem ha, le_rfl, hne⟩
    omega
  · exact absurd hk (by rw [hs.lookup_of_inGap ⟨_, List.getElem_mem ha, h, hka⟩]; simp)

/-- An offset in a queued frame is in no gap and at or above `readPos`. -/
theorem Inv.inQueue_not_inGap {p : ℕ} (h : InQueue s.queue p) : ¬InGap s.gaps p := by
  obtain ⟨k, e, hk, hle, hlt⟩ := h
  exact hs.entry_not_gap k e p hk hle hlt

end Inv

/-! ## The initial state and `Pop` -/

theorem inv_newFrameSorter : Inv (newFrameSorter : FrameSorter Cb) where
  gaps_ne_nil := by simp [newFrameSorter]
  gaps_ordered := by simp [newFrameSorter, Interval.Ordered]
  gap_nonempty := by simp [newFrameSorter, MaxByteCount]
  last_gap_end := by simp [newFrameSorter]
  readPos_le_first_gap := by simp [newFrameSorter]
  queue_disjoint := ⟨by simp [newFrameSorter], by simp [newFrameSorter]⟩
  readPos_le_entry := by simp [newFrameSorter]
  entry_le_max := by simp [newFrameSorter]
  entry_not_gap := by simp [newFrameSorter]
  cover p _ hp := .inl ⟨⟨0, MaxByteCount⟩, by simp [newFrameSorter], by simp, hp⟩

/-- What `Pop` can do: return nothing when no frame is queued at the read position, or hand
out that frame and move the read position past it. -/
theorem pop_eq_some {s : FrameSorter Cb} {r : PopResult Cb} (h : Pop s = some r) :
    (s.queue.lookup s.readPos = none ∧ r = ⟨s.readPos, none, none, s⟩) ∨
      ∃ e, s.queue.lookup s.readPos = some e ∧ r = ⟨s.readPos, some e.Data, e.DoneCb,
        { s with queue := s.queue.erase s.readPos, readPos := s.readPos + e.Data.length }⟩ := by
  unfold Pop at h
  split at h
  · exact .inl ⟨‹_›, (Option.some.inj h).symm⟩
  · rename_i e he
    split at h
    · cases h
    · dsimp only at h
      split at h
      · cases h
      · exact .inr ⟨e, he, (Option.some.inj h).symm⟩

section Inv

variable {s : FrameSorter Cb} (hs : Inv s)
include hs

/-- The frame at the read position ends before the first gap starts. -/
theorem Inv.entry_end_le_first_gap {e : FrameSorterEntry Cb}
    (he : s.queue.lookup s.readPos = some e) {g : ByteInterval} (hg : s.gaps.head? = some g) :
    s.readPos + e.Data.length ≤ g.Start := by
  have hne := hs.gap_nonempty g (List.mem_of_mem_head? hg)
  have hpos := hs.queue_disjoint.nonempty _ _ he
  have hread := hs.readPos_le_first_gap g (by simp [hg])
  by_contra hlt
  exact hs.entry_not_gap s.readPos e g.Start he hread (by omega)
    ⟨g, List.mem_of_mem_head? hg, le_rfl, hne⟩

/-- `Pop` on a sorter that satisfies the invariant does not panic: the frame at the read
position ends before the first gap starts. -/
theorem Inv.pop_isSome : (Pop s).isSome := by
  unfold Pop
  split
  · rfl
  · rename_i e he
    obtain ⟨g, hg⟩ : ∃ g, s.gaps.head? = some g := Option.isSome_iff_exists.mp
      (by simpa [List.isSome_head?] using hs.gaps_ne_nil)
    have hend := hs.entry_end_le_first_gap he hg
    have hne := hs.gap_nonempty g (List.mem_of_mem_head? hg)
    simp [hg, show ¬g.End ≤ s.readPos + e.Data.length by omega]

/-- **`Pop` keeps the invariant.** The popped frame leaves the queue and the read position
moves to its end, which is still before the first gap. -/
theorem Inv.of_pop {r : PopResult Cb} (h : Pop s = some r) : Inv r.sorter := by
  rcases pop_eq_some h with ⟨-, rfl⟩ | ⟨e, he, rfl⟩
  · exact hs
  obtain ⟨g, hg⟩ : ∃ g, s.gaps.head? = some g := Option.isSome_iff_exists.mp
    (by simpa [List.isSome_head?] using hs.gaps_ne_nil)
  have hend := hs.entry_end_le_first_gap he hg
  have hsub : ∀ k e', (s.queue.erase s.readPos).lookup k = some e' → s.queue.lookup k = some e' ∧
      k ≠ s.readPos := by
    intro k e' hk
    rw [lookup_erase_eq] at hk
    split at hk
    · cases hk
    · exact ⟨hk, ‹_›⟩
  refine ⟨hs.gaps_ne_nil, hs.gaps_ordered, hs.gap_nonempty, hs.last_gap_end, ?_,
    hs.queue_disjoint.erase _, ?_, fun k e' hk => hs.entry_le_max k e' (hsub k e' hk).1,
    fun k e' p hk => hs.entry_not_gap k e' p (hsub k e' hk).1, ?_⟩
  · -- the new read position is the end of the popped frame
    intro g' hg'
    rw [hg, Option.mem_some_iff] at hg'
    exact hg' ▸ hend
  · -- every other frame starts after the popped one
    intro k e' hk
    obtain ⟨hk, hne⟩ := hsub k e' hk
    have := hs.readPos_le_entry k e' hk
    exact hs.queue_disjoint.disjoint _ _ _ _ he hk (by omega)
  · -- an offset past the popped frame was covered by a gap or by another frame
    intro p h₁ h₂
    change s.readPos + e.Data.length ≤ p at h₁
    rcases hs.cover p (by omega) h₂ with hp | ⟨k, e', hk, hkp, hpk⟩
    · exact .inl hp
    · refine .inr ⟨k, e', ?_, hkp, hpk⟩
      rw [lookup_erase_eq, if_neg]
      · exact hk
      · rintro rfl
        rw [he] at hk
        cases hk
        omega

end Inv

end FrameSorter

end QuicGo
