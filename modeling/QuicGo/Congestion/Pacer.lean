import Mathlib.Tactic.Common
import Mathlib.Tactic.NormNum
import QuicGo.Protocol

/-!
# QuicGo — the pacer (`internal/congestion/pacer.go`)

The pacer is a token bucket. Its budget grows at the bandwidth estimate from the budget left at
the last packet sent, up to a burst size, and each packet sent takes its size out of it.
`TimeUntilSend` says when the budget will hold a datagram again.

The arithmetic is Go's: `uint64` results are taken modulo `2^64` (`% 2 ^ 64`), `int64` results
(`ByteCount`, `time.Duration`) by `Int.bmod _ (2 ^ 64)`, which lands in `[-2^63, 2^63)` as
two's complement does, and `int64` division truncates (`Int.tdiv`). Times are nanoseconds after
Go's zero `time.Time`, which `IsZero` tests; `time.Time.Sub` saturates at the bounds of a
`time.Duration`, and `time.Time.Add` is modelled as a sum.

Below the overflow bounds the pacer computes what its formulas say over unbounded integers
(`maxBurstSize_eq`, `Budget_eq`, `TimeUntilSend_spec`). The bandwidth estimate before the
first RTT sample, `infBandwidth`, is far above them: there the products wrap
(`infBandwidth_pacing_wraps`).

Left out: the cubic sender around the pacer, which only hands it its bandwidth estimate and its
datagram size.
-/

namespace QuicGo

namespace Congestion

/-- `congestion.infBandwidth`: `math.MaxUint64` bits/s, the estimate without an RTT sample. -/
def infBandwidth : ℤ := 2 ^ 64 - 1

/-- `congestion.BytesPerSecond`, in bits/s. -/
def BytesPerSecond : ℤ := 8

/-- `maxBurstSizePackets`. -/
def maxBurstSizePackets : ℤ := 10

/-- `initialMaxDatagramSize`, `protocol.InitialPacketSize`. -/
def initialMaxDatagramSize : ℤ := InitialPacketSize

/-- `congestion.pacer`. The bandwidth estimate `adjustedBandwidth` reads is an argument of each
call instead of a stored function. -/
structure Pacer where
  budgetAtLastSent : ℤ
  maxDatagramSize : ℤ
  /-- nanoseconds after Go's zero time; `0` is the zero time -/
  lastSentTime : ℤ
  deriving DecidableEq, Repr

/-- `time.Time.Sub`: the duration from `u` to `t`, saturated to an `int64`. -/
def timeSub (t u : ℤ) : ℤ := max (min (t - u) (2 ^ 63 - 1)) (-2 ^ 63)

/-- The closure `adjustedBandwidth` of `newPacer`: the estimate in bytes/s, and a quarter more;
in `uint64`. -/
def adjustedBandwidth (bandwidth : ℤ) : ℤ :=
  -- `uint64(getBandwidth() / BytesPerSecond)`
  let bw := bandwidth / BytesPerSecond
  (bw * 5 % 2 ^ 64) / 4

namespace Pacer

/-- `maxBurstSize`. -/
def maxBurstSize (p : Pacer) (bandwidth : ℤ) : ℤ :=
  max
    (Int.tdiv (Int.bmod ((MinPacingDelay + TimerGranularity) * adjustedBandwidth bandwidth % 2 ^ 64)
      (2 ^ 64)) 1000000000)
    (Int.bmod (maxBurstSizePackets * p.maxDatagramSize) (2 ^ 64))

/-- `Budget`. -/
def Budget (p : Pacer) (bandwidth now : ℤ) : ℤ :=
  if p.lastSentTime = 0 then p.maxBurstSize bandwidth
  else
    let budget := Int.bmod (p.budgetAtLastSent + Int.tdiv (Int.bmod
      (Int.bmod (adjustedBandwidth bandwidth) (2 ^ 64) * timeSub now p.lastSentTime) (2 ^ 64))
      1000000000) (2 ^ 64)
    -- protect against overflows
    let budget := if budget < 0 then (MaxByteCount : ℤ) else budget
    min (p.maxBurstSize bandwidth) budget

/-- `SentPacket`. -/
def SentPacket (p : Pacer) (bandwidth sendTime size : ℤ) : Pacer :=
  let budget := p.Budget bandwidth sendTime
  { p with
    budgetAtLastSent := if size ≥ budget then 0 else Int.bmod (budget - size) (2 ^ 64)
    lastSentTime := sendTime }

/-- `TimeUntilSend`: `0`, the zero time, when a packet can be sent at once; `none` where Go
divides by zero. -/
def TimeUntilSend (p : Pacer) (bandwidth : ℤ) : Option ℤ :=
  if p.budgetAtLastSent ≥ p.maxDatagramSize then some 0
  else
    -- `uint64(p.maxDatagramSize-p.budgetAtLastSent)`
    let diff := 1000000000 * ((p.maxDatagramSize - p.budgetAtLastSent) % 2 ^ 64) % 2 ^ 64
    let bw := adjustedBandwidth bandwidth
    if bw = 0 then none
    else
      let d := diff / bw
      -- this is effectively a math.Ceil, but using only integer math
      let d := if diff % bw > 0 then (d + 1) % 2 ^ 64 else d
      some (p.lastSentTime + max MinPacingDelay (Int.bmod d (2 ^ 64)))

/-- `SetMaxDatagramSize`. -/
def SetMaxDatagramSize (p : Pacer) (s : ℤ) : Pacer := { p with maxDatagramSize := s }

end Pacer

/-- `newPacer`: a full burst of budget, and no packet sent. -/
def newPacer (bandwidth : ℤ) : Pacer :=
  let p : Pacer := ⟨0, initialMaxDatagramSize, 0⟩
  { p with budgetAtLastSent := p.maxBurstSize bandwidth }

/-! ## Below the overflow bounds -/

/-- An `int64` conversion of a value in range leaves it. -/
theorem bmod64_of_bounds {x : ℤ} (h₁ : -9223372036854775808 ≤ x) (h₂ : x < 9223372036854775808) :
    Int.bmod x (2 ^ 64) = x :=
  Int.bmod_eq_of_le (by norm_num; omega) (by norm_num; omega)

theorem timeSub_eq {t u : ℤ} (h₁ : u ≤ t) (h₂ : t - u < 9223372036854775808) :
    timeSub t u = t - u := by
  unfold timeSub
  omega

theorem adjustedBandwidth_nonneg (bandwidth : ℤ) : 0 ≤ adjustedBandwidth bandwidth :=
  Int.ediv_nonneg (Int.emod_nonneg _ (by norm_num)) (by norm_num)

theorem adjustedBandwidth_lt (bandwidth : ℤ) : adjustedBandwidth bandwidth < 4611686018427387904 := by
  unfold adjustedBandwidth
  have := Int.emod_lt_of_pos (bandwidth / BytesPerSecond * 5) (by norm_num : (0 : ℤ) < 2 ^ 64)
  norm_num at this ⊢
  omega

/-- The rounded-up quotient `TimeUntilSend` computes: at least `D` when multiplied back, and no
more than `D`. -/
theorem ceil_div_spec {D a : ℤ} (hD : 0 ≤ D) (ha : 0 < a) (hlt : D < 9223372036854775808) :
    ∃ c, (if D % a > 0 then (D / a + 1) % 2 ^ 64 else D / a) = c ∧ D ≤ a * c ∧ 0 ≤ c ∧ c ≤ D := by
  have hdiv := Int.emod_add_mul_ediv D a
  have hr₀ := Int.emod_nonneg D (Int.ne_of_gt ha)
  have hr := Int.emod_lt_of_pos D ha
  have hq : 0 ≤ D / a := Int.ediv_nonneg hD (Int.le_of_lt ha)
  have hqa : D / a ≤ a * (D / a) := by
    have := Int.mul_nonneg (show 0 ≤ a - 1 by omega) hq
    rw [Int.sub_mul, Int.one_mul] at this
    omega
  refine ⟨_, rfl, ?_⟩
  split_ifs with hpos
  · -- a remainder: one more than the quotient, which does not wrap
    rw [Int.emod_eq_of_lt (by omega) (by norm_num; omega), Int.mul_add, Int.mul_one]
    omega
  · omega

/-- Up to `infBandwidth` the estimate in bytes/s and a quarter does not wrap. -/
theorem adjustedBandwidth_eq {bandwidth : ℤ} (h₀ : 0 ≤ bandwidth) (h : bandwidth ≤ infBandwidth) :
    adjustedBandwidth bandwidth = bandwidth / 8 * 5 / 4 := by
  unfold adjustedBandwidth BytesPerSecond
  have hlt : bandwidth / 8 * 5 < 2 ^ 64 := by
    unfold infBandwidth at h
    norm_num at h ⊢
    omega
  dsimp only
  rw [Int.emod_eq_of_lt (by omega) hlt]

theorem adjustedBandwidth_infBandwidth : adjustedBandwidth infBandwidth = 2882303761517117438 := by
  rw [adjustedBandwidth_eq (by decide) (Int.le_refl _)]
  decide

namespace Pacer

variable {p : Pacer} {bandwidth : ℤ}

/-- **The burst size** over unbounded integers, while the pacing window's bytes fit in an
`int64`. -/
theorem maxBurstSize_eq (hb : 2000000 * adjustedBandwidth bandwidth < 9223372036854775808)
    (hm₀ : 0 ≤ p.maxDatagramSize) (hm : 10 * p.maxDatagramSize < 9223372036854775808) :
    p.maxBurstSize bandwidth = max ((MinPacingDelay + TimerGranularity) *
      adjustedBandwidth bandwidth / 1000000000) (maxBurstSizePackets * p.maxDatagramSize) := by
  have ha := adjustedBandwidth_nonneg bandwidth
  unfold maxBurstSize
  simp only [MinPacingDelay, TimerGranularity, maxBurstSizePackets, Int.reduceAdd]
  rw [Int.emod_eq_of_lt (by omega) (by norm_num; omega), bmod64_of_bounds (by omega) hb,
    Int.tdiv_eq_ediv_of_nonneg (by omega), bmod64_of_bounds (by omega) hm]

/-- The burst is at least `maxBurstSizePackets` datagrams. -/
theorem le_maxBurstSize (hm₀ : 0 ≤ p.maxDatagramSize)
    (hm : 10 * p.maxDatagramSize < 9223372036854775808) :
    maxBurstSizePackets * p.maxDatagramSize ≤ p.maxBurstSize bandwidth := by
  unfold maxBurstSize
  rw [bmod64_of_bounds (x := maxBurstSizePackets * p.maxDatagramSize)
    (by unfold maxBurstSizePackets; omega) (by unfold maxBurstSizePackets; omega)]
  exact Int.le_max_right _ _

/-- **The budget** over unbounded integers: the budget left at the last packet, and what the
bandwidth adds since, up to the burst size, while the bytes added fit in an `int64`. -/
theorem Budget_eq {now : ℤ} (hlast : p.lastSentTime ≠ 0) (ht : p.lastSentTime ≤ now)
    (hd : now - p.lastSentTime < 9223372036854775808)
    (hΔ : adjustedBandwidth bandwidth * (now - p.lastSentTime) < 9223372036854775808)
    (ha : adjustedBandwidth bandwidth < 9223372036854775808)
    (hb₀ : 0 ≤ p.budgetAtLastSent) (hb : p.budgetAtLastSent ≤ MaxByteCount) :
    p.Budget bandwidth now = min (p.maxBurstSize bandwidth) (p.budgetAtLastSent +
      adjustedBandwidth bandwidth * (now - p.lastSentTime) / 1000000000) := by
  have ha₀ := adjustedBandwidth_nonneg bandwidth
  have hprod : 0 ≤ adjustedBandwidth bandwidth * (now - p.lastSentTime) :=
    Int.mul_nonneg ha₀ (by omega)
  -- what the bandwidth adds is at most `2^63 / 10^9` bytes
  have hq : adjustedBandwidth bandwidth * (now - p.lastSentTime) / 1000000000 < 9223372037 := by
    omega
  have hq₀ : 0 ≤ adjustedBandwidth bandwidth * (now - p.lastSentTime) / 1000000000 :=
    Int.ediv_nonneg hprod (by norm_num)
  unfold MaxByteCount at hb
  unfold Budget
  rw [if_neg hlast, timeSub_eq ht hd, bmod64_of_bounds (by omega) ha, bmod64_of_bounds (by omega) hΔ,
    Int.tdiv_eq_ediv_of_nonneg hprod, bmod64_of_bounds (by omega) (by norm_num at hb ⊢; omega)]
  dsimp only
  rw [if_neg (by omega)]

/-- The budget is never more than the burst size. -/
theorem Budget_le_maxBurstSize (now : ℤ) : p.Budget bandwidth now ≤ p.maxBurstSize bandwidth := by
  unfold Budget
  split_ifs
  · exact Int.le_refl _
  · exact Int.min_le_left _ _

/-- The budget is never negative. -/
theorem Budget_nonneg (now : ℤ) (hm₀ : 0 ≤ p.maxDatagramSize)
    (hm : 10 * p.maxDatagramSize < 9223372036854775808) : 0 ≤ p.Budget bandwidth now := by
  have hburst : 0 ≤ p.maxBurstSize bandwidth :=
    Int.le_trans (by unfold maxBurstSizePackets; omega) (le_maxBurstSize hm₀ hm)
  unfold Budget
  dsimp only
  split_ifs with h₀ hneg
  · exact hburst
  · exact Int.le_min.mpr ⟨hburst, by unfold MaxByteCount; norm_num⟩
  · exact Int.le_min.mpr ⟨hburst, by omega⟩

/-- The burst size stays below `2^63 / 10^9` bytes while datagrams are at most
`MaxPacketBufferSize`: the first term is an `int64` divided by `10^9`. -/
theorem maxBurstSize_lt (hm₀ : 0 ≤ p.maxDatagramSize)
    (hm : p.maxDatagramSize ≤ MaxPacketBufferSize) : p.maxBurstSize bandwidth < 9223372037 := by
  unfold MaxPacketBufferSize at hm
  have hy := Int.bmod_lt (x := (MinPacingDelay + TimerGranularity) * adjustedBandwidth bandwidth %
    2 ^ 64) (m := 2 ^ 64) (by norm_num)
  unfold maxBurstSize
  generalize Int.bmod ((MinPacingDelay + TimerGranularity) * adjustedBandwidth bandwidth % 2 ^ 64)
    (2 ^ 64) = y at hy ⊢
  have hq : Int.tdiv y 1000000000 < 9223372037 := by
    rcases Int.le_total 0 y with hpos | hneg
    · rw [Int.tdiv_eq_ediv_of_nonneg hpos]
      norm_num at hy
      omega
    · -- truncation towards zero keeps a negative product at most zero
      have := Int.tdiv_nonneg (a := -y) (b := 1000000000) (by omega) (by norm_num)
      rw [Int.neg_tdiv] at this
      omega
  rw [bmod64_of_bounds (x := maxBurstSizePackets * p.maxDatagramSize)
    (by unfold maxBurstSizePackets; omega) (by unfold maxBurstSizePackets; omega)]
  unfold maxBurstSizePackets
  omega

@[simp] theorem SentPacket_maxDatagramSize (sendTime size : ℤ) :
    (p.SentPacket bandwidth sendTime size).maxDatagramSize = p.maxDatagramSize := rfl

@[simp] theorem SentPacket_lastSentTime (sendTime size : ℤ) :
    (p.SentPacket bandwidth sendTime size).lastSentTime = sendTime := rfl

/-- The burst size reads only the datagram size. -/
theorem maxBurstSize_congr {q : Pacer} (h : p.maxDatagramSize = q.maxDatagramSize) :
    p.maxBurstSize bandwidth = q.maxBurstSize bandwidth := by
  unfold maxBurstSize
  rw [h]

/-! ## Runs of `SentPacket` at one bandwidth estimate -/

/-- What a run of `SentPacket` calls keeps: datagrams of at most `MaxPacketBufferSize`, and a
budget between zero and the burst size. -/
structure Inv (p : Pacer) (bandwidth : ℤ) : Prop where
  datagram_nonneg : 0 ≤ p.maxDatagramSize
  datagram_le : p.maxDatagramSize ≤ MaxPacketBufferSize
  budget_nonneg : 0 ≤ p.budgetAtLastSent
  budget_le : p.budgetAtLastSent ≤ p.maxBurstSize bandwidth

theorem Inv.ten_datagrams_lt (hi : p.Inv bandwidth) :
    10 * p.maxDatagramSize < 9223372036854775808 := by
  have := hi.datagram_le
  unfold MaxPacketBufferSize at this
  omega

/-- A new pacer starts with a full burst. -/
theorem Inv.newPacer : (Congestion.newPacer bandwidth).Inv bandwidth := by
  have hmds : (Congestion.newPacer bandwidth).maxDatagramSize = 1280 := rfl
  -- the budget is the burst size of the same datagram size
  have hfull : (Congestion.newPacer bandwidth).budgetAtLastSent =
      (Congestion.newPacer bandwidth).maxBurstSize bandwidth := maxBurstSize_congr rfl
  have hburst : maxBurstSizePackets * (Congestion.newPacer bandwidth).maxDatagramSize ≤
      (Congestion.newPacer bandwidth).maxBurstSize bandwidth :=
    le_maxBurstSize (by omega) (by omega)
  rw [hmds] at hburst
  unfold maxBurstSizePackets at hburst
  refine ⟨by omega, by rw [hmds]; decide, ?_, Int.le_of_eq hfull⟩
  rw [hfull]
  omega

/-- What `SentPacket` leaves of the budget: the budget less the packet, and never less than
zero. -/
theorem Inv.SentPacket_budgetAtLastSent (hi : p.Inv bandwidth) {sendTime size : ℤ}
    (hs : 0 ≤ size) : (p.SentPacket bandwidth sendTime size).budgetAtLastSent =
      max 0 (p.Budget bandwidth sendTime - size) := by
  have h₀ : 0 ≤ p.Budget bandwidth sendTime :=
    Budget_nonneg sendTime hi.datagram_nonneg hi.ten_datagrams_lt
  have h₁ : p.Budget bandwidth sendTime ≤ p.maxBurstSize bandwidth :=
    Budget_le_maxBurstSize sendTime
  have h₂ : p.maxBurstSize bandwidth < 9223372037 :=
    maxBurstSize_lt hi.datagram_nonneg hi.datagram_le
  unfold Pacer.SentPacket
  dsimp only
  split_ifs with hle
  · omega
  · rw [bmod64_of_bounds (by omega) (by omega)]
    omega

/-- One packet sent keeps the invariant. -/
theorem Inv.SentPacket (hi : p.Inv bandwidth) {sendTime size : ℤ} (hs : 0 ≤ size) :
    (p.SentPacket bandwidth sendTime size).Inv bandwidth := by
  have hleft : (p.SentPacket bandwidth sendTime size).budgetAtLastSent =
      max 0 (p.Budget bandwidth sendTime - size) := hi.SentPacket_budgetAtLastSent hs
  have h₀ : 0 ≤ p.Budget bandwidth sendTime :=
    Budget_nonneg sendTime hi.datagram_nonneg hi.ten_datagrams_lt
  have hburst : p.Budget bandwidth sendTime ≤ p.maxBurstSize bandwidth :=
    Budget_le_maxBurstSize sendTime
  have hsame : (p.SentPacket bandwidth sendTime size).maxBurstSize bandwidth =
      p.maxBurstSize bandwidth := maxBurstSize_congr rfl
  refine ⟨hi.datagram_nonneg, hi.datagram_le, ?_, ?_⟩
  · rw [hleft]
    omega
  · rw [hleft, hsame]
    omega

/-- `SentPacket` called for each `(sendTime, size)` in turn. -/
def SentPackets (p : Pacer) (bandwidth : ℤ) (sends : List (ℤ × ℤ)) : Pacer :=
  sends.foldl (fun p s => p.SentPacket bandwidth s.1 s.2) p

/-- The invariant holds along every run of `SentPacket` calls. -/
theorem Inv.SentPackets (hi : p.Inv bandwidth) {sends : List (ℤ × ℤ)}
    (hs : ∀ s ∈ sends, 0 ≤ s.2) : (p.SentPackets bandwidth sends).Inv bandwidth := by
  induction sends generalizing p with
  | nil => exact hi
  | cons s sends ih =>
    exact ih (hi.SentPacket (hs s (List.mem_cons_self ..)))
      (fun s' h => hs s' (List.mem_cons_of_mem _ h))

/-- **The budget** over unbounded integers at every state the invariant allows, while the
bytes the bandwidth adds fit in an `int64`. -/
theorem Inv.Budget_eq (hi : p.Inv bandwidth) {now : ℤ} (hlast : p.lastSentTime ≠ 0)
    (ht : p.lastSentTime ≤ now) (hd : now - p.lastSentTime < 9223372036854775808)
    (hΔ : adjustedBandwidth bandwidth * (now - p.lastSentTime) < 9223372036854775808) :
    p.Budget bandwidth now = min (p.maxBurstSize bandwidth) (p.budgetAtLastSent +
      adjustedBandwidth bandwidth * (now - p.lastSentTime) / 1000000000) := by
  have hb := Int.le_trans hi.budget_le
    (Int.le_of_lt (maxBurstSize_lt hi.datagram_nonneg hi.datagram_le))
  exact Pacer.Budget_eq hlast ht hd hΔ
    (Int.lt_trans (adjustedBandwidth_lt bandwidth) (by norm_num)) hi.budget_nonneg
    (Int.le_trans hb (by unfold MaxByteCount; norm_num))

/-- The budget is never below what was left at the last packet. -/
theorem Inv.budgetAtLastSent_le_Budget (hi : p.Inv bandwidth) {now : ℤ}
    (hlast : p.lastSentTime ≠ 0) (ht : p.lastSentTime ≤ now)
    (hd : now - p.lastSentTime < 9223372036854775808)
    (hΔ : adjustedBandwidth bandwidth * (now - p.lastSentTime) < 9223372036854775808) :
    p.budgetAtLastSent ≤ p.Budget bandwidth now := by
  have hq₀ : 0 ≤ adjustedBandwidth bandwidth * (now - p.lastSentTime) / 1000000000 :=
    Int.ediv_nonneg (Int.mul_nonneg (adjustedBandwidth_nonneg bandwidth) (by omega)) (by norm_num)
  rw [hi.Budget_eq hlast ht hd hΔ]
  have := hi.budget_le
  omega

/-- The budget does not decrease as time passes, up to the last time whose added bytes fit in
an `int64`. -/
theorem Inv.Budget_mono (hi : p.Inv bandwidth) {now now' : ℤ} (hlast : p.lastSentTime ≠ 0)
    (ht : p.lastSentTime ≤ now) (hle : now ≤ now')
    (hd : now' - p.lastSentTime < 9223372036854775808)
    (hΔ : adjustedBandwidth bandwidth * (now' - p.lastSentTime) < 9223372036854775808) :
    p.Budget bandwidth now ≤ p.Budget bandwidth now' := by
  have hmul : adjustedBandwidth bandwidth * (now - p.lastSentTime) ≤
      adjustedBandwidth bandwidth * (now' - p.lastSentTime) :=
    Int.mul_le_mul_of_nonneg_left (by omega) (adjustedBandwidth_nonneg bandwidth)
  have hq := Int.ediv_le_ediv (by norm_num : (0 : ℤ) < 1000000000) hmul
  rw [hi.Budget_eq hlast ht (by omega) (by omega), hi.Budget_eq hlast (by omega) hd hΔ]
  omega

/-- **When to send.** With less than a datagram of budget left, `TimeUntilSend` names a time at
least `MinPacingDelay` after the last packet, and at that time the budget holds a datagram, while
the bytes the bandwidth adds fit in an `int64`. -/
theorem TimeUntilSend_spec (hlast : p.lastSentTime ≠ 0) (hb₀ : 0 ≤ p.budgetAtLastSent)
    (hb : p.budgetAtLastSent < p.maxDatagramSize) (hm : p.maxDatagramSize ≤ MaxPacketBufferSize)
    (ha : 0 < adjustedBandwidth bandwidth) :
    ∃ t, p.TimeUntilSend bandwidth = some t ∧ p.lastSentTime + MinPacingDelay ≤ t ∧
      (adjustedBandwidth bandwidth * (t - p.lastSentTime) < 9223372036854775808 →
        p.maxDatagramSize ≤ p.Budget bandwidth t) := by
  unfold MaxPacketBufferSize at hm
  have hmin : MinPacingDelay = 1000000 := rfl
  -- the bytes missing, in nanosecond-bytes, fit in a `uint64`
  have hD : 1000000000 * ((p.maxDatagramSize - p.budgetAtLastSent) % 2 ^ 64) % 2 ^ 64 =
      1000000000 * (p.maxDatagramSize - p.budgetAtLastSent) := by
    rw [Int.emod_eq_of_lt (by omega) (by norm_num; omega),
      Int.emod_eq_of_lt (by omega) (by norm_num; omega)]
  obtain ⟨c, hceq, hcD, hc₀, hc⟩ :=
    ceil_div_spec (D := 1000000000 * (p.maxDatagramSize - p.budgetAtLastSent)) (by omega) ha
      (by omega)
  unfold TimeUntilSend
  dsimp only
  rw [if_neg (by omega), hD, if_neg (Int.ne_of_gt ha), hceq, bmod64_of_bounds (by omega) (by omega)]
  refine ⟨_, rfl, Int.add_le_add_left (Int.le_max_left _ _) _, fun hΔ => ?_⟩
  have hdt : p.lastSentTime + max MinPacingDelay c - p.lastSentTime = max MinPacingDelay c := by
    omega
  rw [Budget_eq hlast (by omega) (by omega) hΔ (Int.lt_trans (adjustedBandwidth_lt bandwidth)
    (by norm_num)) hb₀ (by unfold MaxByteCount; norm_num; omega)]
  refine Int.le_min.mpr ⟨Int.le_trans (by unfold maxBurstSizePackets; omega)
    (le_maxBurstSize (by omega) (by omega)), ?_⟩
  -- the bandwidth adds at least the bytes missing by the time named
  have hmul : 1000000000 * (p.maxDatagramSize - p.budgetAtLastSent) ≤
      adjustedBandwidth bandwidth * (p.lastSentTime + max MinPacingDelay c - p.lastSentTime) := by
    rw [hdt]
    exact Int.le_trans hcD (Int.mul_le_mul_of_nonneg_left (Int.le_max_right _ _) (Int.le_of_lt ha))
  have hq := Int.ediv_le_ediv (by norm_num : (0 : ℤ) < 1000000000) hmul
  rw [Int.mul_ediv_cancel_left _ (by norm_num)] at hq
  omega

/-- At `infBandwidth` the products wrap. The burst size is ten datagrams, not the
`5764607523034234` bytes of the unbounded formula. Ten packets sent at once take the whole
budget; `TimeUntilSend` then names the time `MinPacingDelay` later, where the budget is still
zero, while one nanosecond after the last packet it is a full burst again. -/
theorem infBandwidth_pacing_wraps :
    (newPacer infBandwidth).maxBurstSize infBandwidth = 12800 ∧
    max ((MinPacingDelay + TimerGranularity) * adjustedBandwidth infBandwidth / 1000000000)
      (maxBurstSizePackets * initialMaxDatagramSize) = 5764607523034234 ∧
    (newPacer infBandwidth).SentPackets infBandwidth (List.replicate 10 (1000000000, 1280)) =
      ⟨0, 1280, 1000000000⟩ ∧
    Pacer.TimeUntilSend ⟨0, 1280, 1000000000⟩ infBandwidth = some 1001000000 ∧
    Pacer.Budget ⟨0, 1280, 1000000000⟩ infBandwidth 1001000000 = 0 ∧
    Pacer.Budget ⟨0, 1280, 1000000000⟩ infBandwidth 1000000001 = 12800 := by
  refine ⟨by decide +kernel, by decide +kernel, by decide +kernel, by decide +kernel, by decide +kernel,
    by decide +kernel⟩

end Pacer

end Congestion

end QuicGo
