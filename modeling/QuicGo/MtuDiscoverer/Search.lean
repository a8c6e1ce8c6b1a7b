import Mathlib.Algebra.Order.BigOperators.Group.List
import Mathlib.Data.List.Pairwise
import Mathlib.Data.List.TakeWhile
import Mathlib.Tactic.IntervalCases
import QuicGo.Lib.SortedList
import QuicGo.MtuDiscoverer.Finder

/-!
# QuicGo — the search the MTU finder performs

What `mtuFinder` is for, over unbounded integers and a sorted list. A search holds the size
known to work (`min`), the lost sizes in increasing order (at most `maxLostMTUProbes` of them,
the last being the bound of the search), and whether the last probe was lost. The next probe
halves the interval up to the bound, or up to the smallest lost size after a loss. An
acknowledged probe becomes `min`, and the lost sizes up to it go; a lost probe is inserted after
the sizes not above it, and the smallest `maxLostMTUProbes` sizes stay.

`Search.Valid` holds of every search from `Search.init`. While the search is not done, the probe
lies in `[min, bound)`, and an outcome raises `min` or lowers the bound or neither. Each outcome
lowers `Search.rank`, whose value at the start depends on the width of the interval alone: that
bounds the number of probes. The rank is the lexicographic descent of the width, a weight of the
slots (a slot holding `min` weighs as much as an empty one), and the flag with the number of
slots holding `min`. A probe can equal `min`: after a loss, when the smallest lost size is
`min + 1`.

The last section connects the finder to the search: a finder whose slots hold the lost sizes of
a search computes its probe, and its `OnAcked` and `OnLost` compute the search's outcomes.
-/

namespace QuicGo

namespace MtuDiscoverer

/-- A state of the MTU search. -/
structure Search where
  min : ℤ
  lost : List ℤ
  lastProbeWasLost : Bool
  deriving DecidableEq, Repr

namespace Search

variable (S : Search)

/-- The bound of the search: the largest lost size. -/
def bound : ℤ := S.lost.getLastD S.min

/-- The search is done once the interval is down to `maxMTUDiff + 1` bytes. -/
def done : Prop := S.bound - S.min ≤ maxMTUDiff + 1

instance : Decidable S.done := inferInstanceAs (Decidable (_ ≤ _))

/-- The next probe: half way to the smallest lost size after a loss, to the bound otherwise. -/
def probe : ℤ :=
  if S.lastProbeWasLost then (S.min + S.lost.headD S.min) / 2 else (S.min + S.bound) / 2

/-- The probe is acknowledged: it becomes `min`, and the lost sizes up to it go. -/
def acked : Search :=
  ⟨S.probe, S.lost.dropWhile fun v => decide (v ≤ S.probe), false⟩

/-- The probe is lost: it goes in after the lost sizes not above it, and the smallest
`maxLostMTUProbes` stay. -/
def lostProbe : Search :=
  ⟨S.min, (S.lost.orderedInsert (· < ·) S.probe).take maxLostMTUProbes, true⟩

/-- The search from `start`, with `max` the only lost size. -/
def init (start max : ℤ) : Search := ⟨start, [max], false⟩

/-- What every state of the search satisfies: one to `maxLostMTUProbes` lost sizes, sorted, not
below `min`, and byte counts. -/
structure Valid : Prop where
  ne_nil : S.lost ≠ []
  length_le : S.lost.length ≤ maxLostMTUProbes
  sorted : S.lost.Pairwise (· ≤ ·)
  min_nonneg : 0 ≤ S.min
  min_le : ∀ v ∈ S.lost, S.min ≤ v
  le_max : ∀ v ∈ S.lost, v ≤ MaxByteCount

variable {S}

theorem bound_eq (h : S.lost ≠ []) : S.bound = S.lost.getLast h := by
  rw [bound, List.getLastD_eq_getLast?, List.getLast?_eq_some_getLast h, Option.getD_some]

theorem Valid.bound_mem (hv : S.Valid) : S.bound ∈ S.lost := by
  rw [bound_eq hv.ne_nil]
  exact List.getLast_mem hv.ne_nil

theorem Valid.le_bound (hv : S.Valid) {v : ℤ} (hmem : v ∈ S.lost) : v ≤ S.bound := by
  rw [bound_eq hv.ne_nil]
  exact hv.sorted.rel_getLast hmem

theorem Valid.min_le_bound (hv : S.Valid) : S.min ≤ S.bound := hv.min_le _ hv.bound_mem

theorem Valid.head_mem (hv : S.Valid) : S.lost.headD S.min ∈ S.lost := by
  obtain ⟨v, vs, hl⟩ := List.exists_cons_of_ne_nil hv.ne_nil
  simp [hl]

theorem Valid.min_le_probe (hv : S.Valid) : S.min ≤ S.probe := by
  have h₁ := hv.min_le _ hv.head_mem
  have h₂ := hv.min_le_bound
  unfold probe
  split_ifs <;> omega

/-- While the search is not done, the probe is below the bound. -/
theorem Valid.probe_lt_bound (hv : S.Valid) (hnd : ¬S.done) : S.probe < S.bound := by
  have h₁ := hv.le_bound hv.head_mem
  unfold done maxMTUDiff at hnd
  unfold probe
  split_ifs <;> omega

/-- A probe equals `min` only after a loss, with the smallest lost size at most `min + 1`. -/
theorem probe_eq_min (hnd : ¬S.done) (heq : S.probe = S.min) :
    S.lastProbeWasLost = true ∧ S.lost.headD S.min ≤ S.min + 1 := by
  unfold done maxMTUDiff at hnd
  unfold probe at heq
  split_ifs at heq with hl
  · exact ⟨hl, by omega⟩
  · omega

/-- What is left of the lost sizes after an acknowledgement is above the probe. -/
theorem Valid.lt_of_mem_acked (hv : S.Valid) {v : ℤ} (hmem : v ∈ S.acked.lost) : S.probe < v :=
  hv.sorted.lt_of_mem_dropWhile hmem

theorem Valid.acked_ne_nil (hv : S.Valid) (hnd : ¬S.done) : S.acked.lost ≠ [] := by
  intro hnil
  -- with nothing left, the bound was dropped too, but it is above the probe
  have hb := hv.probe_lt_bound hnd
  have hsplit := List.takeWhile_append_dropWhile (p := fun v => decide (v ≤ S.probe))
    (l := S.lost)
  rw [show S.lost.dropWhile (fun v => decide (v ≤ S.probe)) = [] from hnil,
    List.append_nil] at hsplit
  have hmem := hv.bound_mem
  rw [← hsplit] at hmem
  have := List.mem_takeWhile_imp hmem
  simp only [decide_eq_true_eq] at this
  omega

/-- **An acknowledgement keeps the search valid.** -/
theorem Valid.acked (hv : S.Valid) (hnd : ¬S.done) : S.acked.Valid where
  ne_nil := hv.acked_ne_nil hnd
  length_le := le_trans (List.dropWhile_sublist _).length_le hv.length_le
  sorted := hv.sorted.sublist (List.dropWhile_sublist _)
  min_nonneg := le_trans hv.min_nonneg hv.min_le_probe
  min_le _ hmem := le_of_lt (hv.lt_of_mem_acked hmem)
  le_max _ hmem := hv.le_max _ (List.dropWhile_subset _ hmem)

/-- An acknowledgement leaves the bound. -/
theorem Valid.acked_bound (hv : S.Valid) (hnd : ¬S.done) : S.acked.bound = S.bound := by
  rw [bound_eq (hv.acked_ne_nil hnd), bound_eq hv.ne_nil]
  exact (List.dropWhile_suffix _).getLast (hv.acked_ne_nil hnd)

theorem lostProbe_ne_nil : S.lostProbe.lost ≠ [] := fun h =>
  List.orderedInsert_ne_nil _ _ ((List.take_eq_nil_iff.1 h).resolve_left (by decide))

/-- **A loss keeps the search valid.** -/
theorem Valid.lostProbe (hv : S.Valid) (hnd : ¬S.done) : S.lostProbe.Valid where
  ne_nil := lostProbe_ne_nil
  length_le := List.length_take_le _ _
  sorted := (hv.sorted.orderedInsert_lt _).sublist (List.take_sublist _ _)
  min_nonneg := hv.min_nonneg
  min_le v hmem := by
    rcases (List.mem_orderedInsert _).1 (List.mem_of_mem_take hmem) with rfl | hmem
    · exact hv.min_le_probe
    · exact hv.min_le v hmem
  le_max v hmem := by
    rcases (List.mem_orderedInsert _).1 (List.mem_of_mem_take hmem) with rfl | hmem
    · exact le_trans (le_of_lt (hv.probe_lt_bound hnd)) (hv.le_max _ hv.bound_mem)
    · exact hv.le_max v hmem

/-- A loss does not raise the bound. -/
theorem Valid.lostProbe_bound_le (hv : S.Valid) (hnd : ¬S.done) :
    S.lostProbe.bound ≤ S.bound := by
  have hv' := hv.lostProbe hnd
  rcases (List.mem_orderedInsert _).1 (List.mem_of_mem_take hv'.bound_mem) with heq | hmem
  · rw [heq]
    exact le_of_lt (hv.probe_lt_bound hnd)
  · exact hv.le_bound hmem

theorem Valid.init {start max : ℤ} (h₀ : 0 ≤ start) (hlt : start < max)
    (hmax : max ≤ MaxByteCount) : (Search.init start max).Valid where
  ne_nil := by simp [Search.init]
  length_le := by simp [Search.init, maxLostMTUProbes]
  sorted := by simp [Search.init]
  min_nonneg := h₀
  min_le := by simpa [Search.init] using le_of_lt hlt
  le_max := by simpa [Search.init] using hmax

/-! ## The rank: each outcome lowers it -/

variable (S) in
/-- The width of the search interval. -/
def width : ℤ := S.bound - S.min

variable (S) in
/-- The weight of a slot holding the lost size `v`: twice its distance from `min`, and two; a
slot holding `min` itself weighs as much as an empty one, `2 * width + 1`. -/
def weight (v : ℤ) : ℤ := if v = S.min then 2 * S.width + 1 else 2 * (v - S.min) + 2

variable (S) in
/-- The weight of all `maxLostMTUProbes` slots, the empty ones at `2 * width + 1`. -/
def slotWeight : ℤ :=
  (S.lost.map S.weight).sum + ((maxLostMTUProbes - S.lost.length : ℕ) : ℤ) * (2 * S.width + 1)

variable (S) in
/-- Whether the last probe was lost, worth more than the slots holding `min`, of which more
count less. -/
def flag : ℤ :=
  4 * (if S.lastProbeWasLost then 1 else 0) + ((maxLostMTUProbes - S.lost.count S.min : ℕ) : ℤ)

variable (S) in
/-- The rank of a search whose width is at most `d`: the width, the slot weight and the flag in
lexicographic order. -/
def rank (d : ℤ) : ℤ := (S.width * (6 * d + 7) + S.slotWeight) * 8 + S.flag

/-- `S'` is below `S` in the lexicographic order of width, slot weight and flag. -/
def Below (S' S : Search) : Prop :=
  S'.width < S.width ∨
    S'.width = S.width ∧ (S'.slotWeight < S.slotWeight ∨ S'.slotWeight = S.slotWeight ∧ S'.flag < S.flag)

theorem weight_congr {S' : Search} (hmin : S'.min = S.min) (hw : S'.width = S.width) :
    S'.weight = S.weight := by
  funext v
  simp only [weight, hmin, hw]

theorem Valid.width_nonneg (hv : S.Valid) : 0 ≤ S.width := by
  have := hv.min_le_bound
  unfold width
  omega

theorem Valid.weight_bounds (hv : S.Valid) {v : ℤ} (hmem : v ∈ S.lost) :
    0 < S.weight v ∧ S.weight v ≤ 2 * S.width + 2 := by
  have h₁ := hv.min_le v hmem
  have h₂ := hv.le_bound hmem
  unfold weight width
  split_ifs <;> omega

/-- The slots weigh between nothing and `2 * width + 2` each. -/
theorem Valid.slotWeight_bounds (hv : S.Valid) :
    0 ≤ S.slotWeight ∧ S.slotWeight ≤ 6 * S.width + 6 := by
  have hw := hv.width_nonneg
  have hsum₀ : 0 ≤ (S.lost.map S.weight).sum :=
    List.sum_nonneg (by
      simp only [List.mem_map, forall_exists_index, and_imp, forall_apply_eq_imp_iff₂]
      exact fun v hmem => le_of_lt (hv.weight_bounds hmem).1)
  have hsum : (S.lost.map S.weight).sum ≤ S.lost.length * (2 * S.width + 2) := by
    have := List.sum_le_card_nsmul (S.lost.map S.weight) (2 * S.width + 2) (by
      simp only [List.mem_map, forall_exists_index, and_imp, forall_apply_eq_imp_iff₂]
      exact fun v hmem => (hv.weight_bounds hmem).2)
    simpa using this
  have hlen := hv.length_le
  unfold slotWeight
  unfold maxLostMTUProbes at hlen ⊢
  -- at most three slots: one case for each number of lost sizes
  generalize S.lost.length = n at hlen hsum ⊢
  interval_cases n <;> omega

theorem flag_bounds : 0 ≤ S.flag ∧ S.flag ≤ 7 := by
  unfold flag maxLostMTUProbes
  split_ifs <;> omega

/-- **The rank goes down** from `S` to any valid search below it. -/
theorem rank_lt_of_below {S' : Search} {d : ℤ} (hv : S.Valid) (hv' : S'.Valid)
    (hd : S.width ≤ d) (hb : Below S' S) : S'.rank d < S.rank d := by
  obtain ⟨hs₀, -⟩ := hv.slotWeight_bounds
  obtain ⟨-, hs₁'⟩ := hv'.slotWeight_bounds
  obtain ⟨hf₀, -⟩ := flag_bounds (S := S)
  obtain ⟨-, hf₁'⟩ := flag_bounds (S := S')
  have hw' := hv'.width_nonneg
  unfold rank
  rcases hb with hlt | ⟨heq, hlt | ⟨heq', hlt⟩⟩
  · -- a narrower interval: all the rest of the rank is below one unit of width
    have hK : (S'.width + 1) * (6 * d + 7) ≤ S.width * (6 * d + 7) :=
      Int.mul_le_mul_of_nonneg_right (by omega) (by omega)
    rw [Int.add_mul, Int.one_mul] at hK
    omega
  · rw [heq]
    omega
  · rw [heq, heq']
    omega

/-- The weight of the sizes an acknowledgement of `min` drops: each of them is `min`. -/
theorem Valid.sum_weight_takeWhile (hv : S.Valid) :
    ((S.lost.takeWhile fun v => decide (v ≤ S.min)).map S.weight).sum =
      (S.lost.takeWhile fun v => decide (v ≤ S.min)).length * (2 * S.width + 1) := by
  have hconst : ∀ v ∈ S.lost.takeWhile (fun v => decide (v ≤ S.min)),
      S.weight v = 2 * S.width + 1 := by
    intro v hmem
    have hle := List.mem_takeWhile_imp hmem
    simp only [decide_eq_true_eq] at hle
    have hge := hv.min_le v ((List.takeWhile_sublist _).subset hmem)
    simp [weight, show v = S.min by omega]
  rw [List.map_congr_left hconst, List.map_const', List.sum_replicate, nsmul_eq_mul]

/-- **An acknowledgement lowers the rank.** A probe above `min` narrows the interval; a probe at
`min` (after a loss) empties the slots holding `min`, which weigh as much as empty ones, and
clears the flag. -/
theorem Valid.acked_below (hv : S.Valid) (hnd : ¬S.done) : Below S.acked S := by
  have hb := hv.acked_bound hnd
  rcases Int.lt_or_eq_of_le hv.min_le_probe with hlt | heq
  · left
    show S.acked.bound - S.probe < S.bound - S.min
    omega
  · obtain ⟨hwl, -⟩ := probe_eq_min hnd heq.symm
    have hmin : S.acked.min = S.min := heq.symm
    have hw : S.acked.width = S.width := by
      unfold width
      rw [hb, hmin]
    set T := S.lost.takeWhile fun v => decide (v ≤ S.min)
    set D := S.lost.dropWhile fun v => decide (v ≤ S.min)
    -- the sizes up to `min` are dropped, and the rest keep their slots and weights
    have hsplit : T ++ D = S.lost := List.takeWhile_append_dropWhile
    have hdrop : S.acked.lost = D := by
      show S.lost.dropWhile (fun v => decide (v ≤ S.probe)) = D
      rw [← heq]
    have hsum : (S.lost.map S.weight).sum = (T.map S.weight).sum + (D.map S.weight).sum := by
      rw [← List.sum_append, ← List.map_append, hsplit]
    have hlen : T.length + D.length = S.lost.length := by
      rw [← List.length_append, hsplit]
    have hlenS := hv.length_le
    have hT : (T.map S.weight).sum = T.length * (2 * S.width + 1) := hv.sum_weight_takeWhile
    have hcount : S.acked.lost.count S.acked.min = 0 :=
      List.count_eq_zero.2 fun hmem => Int.lt_irrefl _ (hv.lt_of_mem_acked hmem)
    right
    refine ⟨hw, Or.inr ⟨?_, ?_⟩⟩
    · -- each dropped `min` weighs as much as the empty slot that replaces it
      unfold slotWeight
      rw [weight_congr hmin hw, hw, hdrop, hsum, hT]
      unfold maxLostMTUProbes at hlenS ⊢
      have hk : ((3 - D.length : ℕ) : ℤ) = (T.length : ℤ) + ((3 - S.lost.length : ℕ) : ℤ) := by
        omega
      rw [hk, Int.add_mul]
      omega
    · have hf : S.acked.lastProbeWasLost = false := rfl
      unfold flag maxLostMTUProbes
      rw [hcount, hwl, hf]
      simp only [Bool.false_eq_true, ↓reduceIte]
      omega

/-- **A loss lowers the rank.** The bound may come down. If it stays, the probe takes a slot
lighter than what it displaces: an empty slot (a probe at `min` weighs as much as one, and then
one more slot holds `min`), or, with the slots full, the bound's own slot. -/
theorem Valid.lostProbe_below (hv : S.Valid) (hnd : ¬S.done) : Below S.lostProbe S := by
  have hmin : S.lostProbe.min = S.min := rfl
  rcases Int.lt_or_eq_of_le (hv.lostProbe_bound_le hnd) with hlt | heq
  · left
    show S.lostProbe.bound - S.min < S.bound - S.min
    omega
  · have hw : S.lostProbe.width = S.width := by
      unfold width
      rw [heq, hmin]
    have hps := hv.probe_lt_bound hnd
    have hmp := hv.min_le_probe
    have hwidth : maxMTUDiff + 1 < S.width := by
      unfold done at hnd
      unfold width
      omega
    -- the probe weighs less than the bound, and at most as much as an empty slot
    have hwp : S.weight S.probe ≤ 2 * S.width + 1 := by
      unfold weight width
      split_ifs <;> omega
    have hwb : S.weight S.bound = 2 * S.width + 2 := by
      unfold weight maxMTUDiff at *
      rw [if_neg (by unfold width at hwidth; omega)]
      unfold width
      omega
    have hX : ((S.lost.orderedInsert (· < ·) S.probe).map S.weight).sum = S.weight S.probe + (S.lost.map S.weight).sum :=
      List.sum_map_orderedInsert _ _ _
    have hXlen : (S.lost.orderedInsert (· < ·) S.probe).length = S.lost.length + 1 := List.orderedInsert_length _ _ _
    have hlenS := hv.length_le
    right
    refine ⟨hw, ?_⟩
    rcases Nat.lt_or_ge S.lost.length maxLostMTUProbes with hfree | hfull
    · -- a free slot takes the probe
      have hlost : S.lostProbe.lost = S.lost.orderedInsert (· < ·) S.probe := List.take_of_length_le (by omega)
      have hk : ((maxLostMTUProbes - S.lost.length : ℕ) : ℤ) =
          ((maxLostMTUProbes - (S.lost.orderedInsert (· < ·) S.probe).length : ℕ) : ℤ) + 1 := by
        omega
      by_cases hpm : S.probe = S.min
      · -- a probe at `min`: its slot weighs as an empty one, and one more slot holds `min`
        obtain ⟨hwl, -⟩ := probe_eq_min hnd hpm
        have hcount : (S.lost.orderedInsert (· < ·) S.probe).count S.min = S.lost.count S.min + 1 := by
          rw [List.orderedInsert_count, if_pos hpm]
        have hc := List.count_le_length (a := S.min) (l := S.lost)
        have hwm : S.weight S.probe = 2 * S.width + 1 := by
          simp [weight, hpm]
        right
        constructor
        · unfold slotWeight
          rw [weight_congr hmin hw, hw, hlost, hX, hwm, hk, Int.add_mul, Int.one_mul]
          omega
        · unfold flag
          rw [hmin, hlost, hcount, hwl]
          show _ + _ < _ + _
          simp only [↓reduceIte]
          omega
      · left
        have hwp' : S.weight S.probe ≤ 2 * S.width := by
          unfold weight width
          rw [if_neg hpm]
          omega
        unfold slotWeight
        rw [weight_congr hmin hw, hw, hlost, hX, hk, Int.add_mul, Int.one_mul]
        omega
    · -- full slots: the bound falls off the end
      left
      have hfull' : S.lost.length = maxLostMTUProbes := Nat.le_antisymm hlenS hfull
      have hlost : S.lostProbe.lost = (S.lost.orderedInsert (· < ·) S.probe).dropLast := by
        rw [List.dropLast_eq_take, hXlen, hfull']
        rfl
      have hlast : (S.lost.orderedInsert (· < ·) S.probe).getLast (List.orderedInsert_ne_nil _ _) = S.bound := by
        rw [List.getLast_orderedInsert_lt hv.ne_nil (by rwa [← bound_eq hv.ne_nil]),
          bound_eq hv.ne_nil]
      have hdrop := List.sum_map_dropLast_add S.weight (List.orderedInsert_ne_nil (l := S.lost)
        (· < ·) S.probe)
      rw [hlast, hX] at hdrop
      unfold slotWeight
      rw [weight_congr hmin hw, hw, hlost, List.length_dropLast, hXlen, hfull']
      simp only [Nat.add_sub_cancel, Nat.sub_self, Nat.cast_zero, Int.zero_mul, Int.add_zero]
      omega


end Search

/-! ## The finder computes the search -/

/-- The finder `f` holds the search `S`: its `min`, its flag, and the lost sizes of `S` in the
slots of `lost`. -/
structure Holds (f : MtuFinder) (S : Search) : Prop where
  min_eq : f.min = S.min
  lost_eq : f.lost = slots S.lost
  flag_eq : f.lastProbeWasLost = S.lastProbeWasLost

namespace Holds

variable {f : MtuFinder} {S : Search}

theorem init (hf : f.lastProbeWasLost = false) (start max : ℤ) :
    Holds (f.init start max) (Search.init start max) where
  min_eq := rfl
  lost_eq := by simp [MtuFinder.init, slots, Search.init, maxLostMTUProbes, List.range_succ]
  flag_eq := hf

/-- `max()` is the bound of the search. -/
theorem max (h : Holds f S) (hv : S.Valid) : f.max = some S.bound := by
  rw [MtuFinder.max, h.lost_eq, slots,
    MtuFinder.maxFrom_append_invalid _ (fun v hmem => le_trans hv.min_nonneg (hv.min_le v hmem)),
    List.getLast?_eq_some_getLast hv.ne_nil, Search.bound_eq hv.ne_nil]
  rfl

theorem done (h : Holds f S) (hv : S.Valid) : f.done = some (decide S.done) := by
  rw [MtuFinder.done, h.max hv, h.min_eq]
  rfl

/-- `ShouldSendProbe` asks for a probe once the finder has started, while no probe is in flight
and the search is not done, `mtuProbeDelay` RTTs after the last probe. -/
theorem ShouldSendProbe (h : Holds f S) (hv : S.Valid) (now srtt : ℤ) :
    f.ShouldSendProbe now srtt = some (decide (f.lastProbeTime ≠ 0 ∧
      f.inFlight = InvalidByteCount ∧ ¬S.done ∧ f.lastProbeTime + mtuProbeDelay * srtt ≤ now)) := by
  unfold MtuFinder.ShouldSendProbe
  rw [h.done hv]
  by_cases h₀ : f.lastProbeTime = 0
  · simp [h₀]
  · by_cases h₁ : f.inFlight = InvalidByteCount
    · simp [h₀, h₁]
    · simp [h₀, h₁]

/-- **`GetPing` sends the probe of the search**: the sum of two byte counts does not wrap, and
halving it truncates as `/` does. -/
theorem GetPing (h : Holds f S) (hv : S.Valid) (now : ℤ) :
    f.GetPing now =
      some ({ f with lastProbeTime := now, inFlight := S.probe }, f.generation, S.probe) := by
  have hhalf : ∀ x ∈ S.lost, (Int.bmod (S.min + x) (2 ^ 64)).tdiv 2 = (S.min + x) / 2 := by
    intro x hmem
    have h₁ := hv.min_nonneg
    have h₂ := hv.le_max x hmem
    have h₃ := hv.min_le x hmem
    have h₄ := hv.min_le_bound
    have h₅ := hv.le_max _ hv.bound_mem
    unfold MaxByteCount at h₂ h₅
    rw [Int.bmod_eq_of_le (by norm_num; omega) (by norm_num; omega),
      Int.tdiv_eq_ediv_of_nonneg (by omega)]
  have hhead : f.lost.head? = some (S.lost.headD S.min) := by
    obtain ⟨v, vs, hl⟩ := List.exists_cons_of_ne_nil hv.ne_nil
    rw [h.lost_eq, slots, hl]
    rfl
  unfold MtuFinder.GetPing Search.probe
  rw [h.flag_eq, ← h.min_eq]
  cases S.lastProbeWasLost
  · simp only [Bool.false_eq_true, ↓reduceIte, h.max hv, Option.bind_eq_bind, Option.bind_some,
      h.min_eq, hhalf _ hv.bound_mem]
    rfl
  · simp only [↓reduceIte, hhead, Option.bind_eq_bind, Option.bind_some, h.min_eq,
      hhalf _ hv.head_mem]
    rfl

/-- **`OnAcked` computes the acknowledgement** of the probe in flight. -/
theorem OnAcked (h : Holds f S) (hv : S.Valid) (hnd : ¬S.done) (hfl : f.inFlight = S.probe) :
    f.OnAcked f.generation = some { f with
      inFlight := InvalidByteCount
      min := S.acked.min
      lastProbeWasLost := false
      lost := slots S.acked.lost } := by
  have hp₀ : 0 ≤ S.probe := le_trans hv.min_nonneg hv.min_le_probe
  have hne : f.inFlight ≠ InvalidByteCount := by
    rw [hfl]
    unfold InvalidByteCount
    omega
  unfold MtuFinder.OnAcked
  rw [if_neg (not_not.2 rfl), if_neg hne]
  dsimp only
  rw [hfl, h.lost_eq, MtuFinder.ackedLost_slots hv.length_le hp₀
    ⟨S.bound, hv.bound_mem, hv.probe_lt_bound hnd⟩]
  rfl

/-- **`OnLost` computes the loss** of the probe in flight. -/
theorem OnLost (h : Holds f S) (hv : S.Valid) (hnd : ¬S.done) (hfl : f.inFlight = S.probe) :
    f.OnLost f.generation = some { f with
      lastProbeWasLost := true
      inFlight := InvalidByteCount
      lost := slots S.lostProbe.lost } := by
  have hp₀ : 0 ≤ S.probe := le_trans hv.min_nonneg hv.min_le_probe
  have hne : f.inFlight ≠ InvalidByteCount := by
    rw [hfl]
    unfold InvalidByteCount
    omega
  unfold MtuFinder.OnLost
  rw [if_neg (not_not.2 rfl), if_neg hne]
  rw [hfl, h.lost_eq, MtuFinder.insertLost_slots hv.length_le hp₀
    ⟨S.bound, hv.bound_mem, hv.probe_lt_bound hnd⟩]
  rfl

end Holds

end MtuDiscoverer

end QuicGo
