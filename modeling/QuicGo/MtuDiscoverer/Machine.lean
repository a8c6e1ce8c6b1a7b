import Mathlib.Tactic.Ring
import QuicGo.Lib.Run
import QuicGo.MtuDiscoverer.Search

/-!
# QuicGo — path MTU discovery over whole runs

The connection drives the MTU finder with three calls: `Start` once the handshake is confirmed,
`ShouldSendProbe` and then `GetPing` when a packet could carry a probe, and `Reset` when the path
changes. The network then fires the ack handler of each probe sent, once, with `OnAcked` or
`OnLost`, also after a reset. A state of the machine is the finder with the generations of the
handlers still to fire and, for the statements about one search, a record of it: its start and
maximum, the number of probes sent and the sizes acknowledged since it began.

Where no reset brings back the generation of a handler still to fire, every state reached
satisfies `Inv`: the finder holds a valid search (`Holds`), the handler of the current generation
is pending exactly while a probe is in flight, and that probe is the search's. From that:

* no call panics;
* every probe is in `[CurrentSize(), max())`, `CurrentSize()` does not go down and `max()` not up
  until the next reset, and `CurrentSize()` is the start or an acknowledged size;
* a search sends at most `maxProbes (max - start)` probes: each outcome lowers the search's rank,
  and the probes sent plus the rank left stay within the rank at the start.

The `uint8` generation wraps after 256 resets, and a handler of a probe sent 256 resets ago then
finds no probe in flight and panics; a probe can equal `CurrentSize()`, and a size can be lost
twice.
-/

namespace QuicGo

namespace MtuDiscoverer

/-- A call on the MTU discoverer. `Probe now srtt` is the connection's
`if ShouldSendProbe(now) { GetPing(now) }`, with the smoothed RTT `srtt`; `OnAcked` and `OnLost`
are the calls on the ack handler of a probe of generation `generation`. -/
inductive Call
  | Start (now : ℤ)
  | Probe (now srtt : ℤ)
  | OnAcked (generation : UInt8)
  | OnLost (generation : UInt8)
  | Reset (now start max : ℤ)
  deriving DecidableEq, Repr

/-- The finder, the generations of the ack handlers still to fire, and a record of the search
since the last reset: its start and maximum, the probes sent and the sizes acknowledged. -/
structure Discovery where
  finder : MtuFinder
  pending : List UInt8
  start : ℤ
  max : ℤ
  sent : ℕ
  acked : List ℤ
  deriving DecidableEq, Repr

/-- The discoverer as `newMTUDiscoverer` creates it. -/
def newDiscovery (start max : ℤ) : Discovery :=
  ⟨newMTUDiscoverer start max, [], start, max, 0, []⟩

/-- One call; a `Probe` that sends returns the generation of the probe's ack handler and its
size. -/
def step (s : Discovery) : Call → Option (Discovery × Option (UInt8 × ℤ))
  | .Start now => some ({ s with finder := s.finder.Start now }, none)
  | .Probe now srtt =>
    match s.finder.ShouldSendProbe now srtt with
    | none => none
    | some false => some (s, none)
    | some true =>
      (s.finder.GetPing now).map fun r =>
        ({ s with finder := r.1, pending := r.2.1 :: s.pending, sent := s.sent + 1 }, some r.2)
  | .OnAcked g =>
    (s.finder.OnAcked g).map fun f =>
      ({ s with
          finder := f
          pending := s.pending.erase g
          acked := if g = s.finder.generation then f.min :: s.acked else s.acked }, none)
  | .OnLost g =>
    (s.finder.OnLost g).map fun f => ({ s with finder := f, pending := s.pending.erase g }, none)
  | .Reset now start max =>
    some (⟨s.finder.Reset now start max, s.pending, start, max, 0, []⟩, none)

/-- Whether a call is a reset. -/
def Call.isReset : Call → Bool
  | .Reset .. => true
  | _ => false

/-- The calls of the connection and the network: an ack handler fires only while its probe is
in flight, once for each probe sent, and a reset searches from a byte count to a larger one. -/
def Call.Fires (s : Discovery) : Call → Prop
  | .OnAcked g | .OnLost g => g ∈ s.pending
  | .Reset _ start max => 0 ≤ start ∧ start < max ∧ max ≤ MaxByteCount
  | _ => True

instance (s : Discovery) : DecidablePred (Call.Fires s) := fun c =>
  match c with
  | .Start _ | .Probe .. => inferInstanceAs (Decidable True)
  | .OnAcked g | .OnLost g => inferInstanceAs (Decidable (g ∈ s.pending))
  | .Reset _ start max =>
    inferInstanceAs (Decidable (0 ≤ start ∧ start < max ∧ max ≤ MaxByteCount))

/-- A reset does not bring back the generation of an ack handler still to fire: the `uint8`
generation wraps after 256 resets. -/
def Call.Fresh (s : Discovery) : Call → Prop
  | .Reset .. => s.finder.generation + 1 ∉ s.pending
  | _ => True

instance (s : Discovery) : DecidablePred (Call.Fresh s) := fun c =>
  match c with
  | .Reset .. => inferInstanceAs (Decidable (s.finder.generation + 1 ∉ s.pending))
  | .Start _ | .Probe .. | .OnAcked _ | .OnLost _ => inferInstanceAs (Decidable True)

/-- The calls of the connection and the network in which no probe outlives 255 resets. -/
def Call.Permitted (s : Discovery) (c : Call) : Prop := c.Fires s ∧ c.Fresh s

instance (s : Discovery) : DecidablePred (Call.Permitted s) := fun c =>
  inferInstanceAs (Decidable (c.Fires s ∧ c.Fresh s))

/-! ## The invariant -/

/-- `1` while a probe is in flight, `0` otherwise. -/
def inFlightCount (f : MtuFinder) : ℕ := if f.inFlight = InvalidByteCount then 0 else 1

/-- The bound on the number of probes of a search from `start` to `start + d`: the rank of
the search at its start, and one. -/
def maxProbes (d : ℤ) : ℤ := 8 * (d * (6 * d + 7) + 6 * d + 4) + 4

/-- What every state reached satisfies, for the search `S` the finder holds. -/
structure Inv (s : Discovery) (S : Search) : Prop where
  holds : Holds s.finder S
  valid : S.Valid
  start_lt : s.start < s.max
  start_le : s.start ≤ S.min
  bound_le : S.bound ≤ s.max
  min_mem : S.min = s.start ∨ S.min ∈ s.acked
  /-- the handler of the current generation is pending once for the probe in flight -/
  count_eq : s.pending.count s.finder.generation = inFlightCount s.finder
  inFlight_eq : s.finder.inFlight ≠ InvalidByteCount → s.finder.inFlight = S.probe ∧ ¬S.done
  /-- the probes sent and the rank left stay within the rank at the start -/
  rank_le : (s.sent : ℤ) + S.rank (s.max - s.start) ≤
    (Search.init s.start s.max).rank (s.max - s.start) + inFlightCount s.finder

variable {s : Discovery} {S : Search}

theorem Search.Valid.probe_ne_invalid (hv : S.Valid) : S.probe ≠ InvalidByteCount := by
  have := le_trans hv.min_nonneg hv.min_le_probe
  unfold InvalidByteCount
  omega

theorem Search.Valid.rank_nonneg (hv : S.Valid) {d : ℤ} (hd : 0 ≤ d) : 0 ≤ S.rank d := by
  have hw : 0 ≤ S.width * (6 * d + 7) := Int.mul_nonneg hv.width_nonneg (by omega)
  have := hv.slotWeight_bounds.1
  have := (Search.flag_bounds (S := S)).1
  unfold Search.rank
  omega

/-- The rank of a search at its start depends on its width alone. -/
theorem Search.rank_init {start max : ℤ} (hlt : start < max) :
    (Search.init start max).rank (max - start) + 1 = maxProbes (max - start) := by
  have hne : max ≠ start := by omega
  have hw : (Search.init start max).width = max - start := rfl
  have hweight : (Search.init start max).weight max = 2 * (max - start) + 2 := by
    rw [Search.weight, if_neg (show max ≠ (Search.init start max).min from hne)]
    rfl
  -- one slot holds `max`, two are empty, and none holds `start`
  have hsw : (Search.init start max).slotWeight = 6 * (max - start) + 4 := by
    show ([max].map (Search.init start max).weight).sum +
      ((maxLostMTUProbes - [max].length : ℕ) : ℤ) * (2 * (Search.init start max).width + 1) = _
    rw [List.map_singleton, List.sum_singleton, hweight, hw]
    simp only [maxLostMTUProbes, List.length_singleton]
    omega
  have hflag : (Search.init start max).flag = 3 := by
    show 4 * (if false = true then 1 else 0) +
      ((maxLostMTUProbes - [max].count start : ℕ) : ℤ) = 3
    simp [hne, maxLostMTUProbes]
  rw [Search.rank, hw, hsw, hflag, maxProbes]
  ring

theorem Inv.width_le (hi : Inv s S) : S.width ≤ s.max - s.start := by
  have := hi.start_le
  have := hi.bound_le
  unfold Search.width
  omega

/-- A search sends at most `maxProbes (max - start)` probes. -/
theorem Inv.sent_le (hi : Inv s S) : (s.sent : ℤ) ≤ maxProbes (s.max - s.start) := by
  have h₀ := hi.valid.rank_nonneg (d := s.max - s.start) (by have := hi.start_lt; omega)
  have h₁ : (inFlightCount s.finder : ℤ) ≤ 1 := by
    unfold inFlightCount
    split_ifs <;> simp
  have := hi.rank_le
  rw [← Search.rank_init hi.start_lt]
  omega

/-- The handler of the current generation fires only while a probe is in flight. -/
theorem Inv.inFlight_ne (hi : Inv s S) (hg : s.finder.generation ∈ s.pending) :
    s.finder.inFlight ≠ InvalidByteCount := by
  intro hfl
  have := hi.count_eq
  rw [inFlightCount, if_pos hfl] at this
  exact List.count_eq_zero.1 this hg

theorem inv_newDiscovery {start max : ℤ} (h₀ : 0 ≤ start) (hlt : start < max)
    (hmax : max ≤ MaxByteCount) : Inv (newDiscovery start max) (Search.init start max) where
  holds := Holds.init rfl start max
  valid := Search.Valid.init h₀ hlt hmax
  start_lt := hlt
  start_le := le_refl _
  bound_le := le_refl _
  min_mem := Or.inl rfl
  count_eq := rfl
  inFlight_eq h := absurd rfl h
  rank_le := by simp [inFlightCount, newDiscovery, newMTUDiscoverer, MtuFinder.init]

/-! ## One call -/

theorem Inv.Start (hi : Inv s S) (now : ℤ) : Inv { s with finder := s.finder.Start now } S where
  holds := ⟨hi.holds.min_eq, hi.holds.lost_eq, hi.holds.flag_eq⟩
  valid := hi.valid
  start_lt := hi.start_lt
  start_le := hi.start_le
  bound_le := hi.bound_le
  min_mem := hi.min_mem
  count_eq := hi.count_eq
  inFlight_eq := hi.inFlight_eq
  rank_le := hi.rank_le

/-- Sending the probe puts the handler of the current generation in flight. -/
theorem Inv.GetPing (hi : Inv s S) (hfl : s.finder.inFlight = InvalidByteCount) (hnd : ¬S.done)
    (now : ℤ) :
    Inv { s with
      finder := { s.finder with lastProbeTime := now, inFlight := S.probe }
      pending := s.finder.generation :: s.pending
      sent := s.sent + 1 } S where
  holds := ⟨hi.holds.min_eq, hi.holds.lost_eq, hi.holds.flag_eq⟩
  valid := hi.valid
  start_lt := hi.start_lt
  start_le := hi.start_le
  bound_le := hi.bound_le
  min_mem := hi.min_mem
  count_eq := by
    have := hi.count_eq
    rw [inFlightCount, if_pos hfl] at this
    simp [inFlightCount, hi.valid.probe_ne_invalid, this]
  inFlight_eq _ := ⟨rfl, hnd⟩
  rank_le := by
    have := hi.rank_le
    rw [inFlightCount, if_pos hfl] at this
    simp only [inFlightCount, if_neg hi.valid.probe_ne_invalid]
    push_cast
    omega

/-- A handler of an earlier generation firing changes nothing but the handlers pending. -/
theorem Inv.erase_stale (hi : Inv s S) {g : UInt8} (hg : g ≠ s.finder.generation) :
    Inv { s with pending := s.pending.erase g } S where
  holds := hi.holds
  valid := hi.valid
  start_lt := hi.start_lt
  start_le := hi.start_le
  bound_le := hi.bound_le
  min_mem := hi.min_mem
  count_eq := by
    rw [List.count_erase_of_ne (Ne.symm hg)]
    exact hi.count_eq
  inFlight_eq := hi.inFlight_eq
  rank_le := hi.rank_le

/-- After the outcome of the probe in flight, the handler of the current generation is no
longer pending. -/
theorem Inv.count_erase (hi : Inv s S) (hfl : s.finder.inFlight ≠ InvalidByteCount) :
    (s.pending.erase s.finder.generation).count s.finder.generation = 0 := by
  have := hi.count_eq
  rw [inFlightCount, if_neg hfl] at this
  rw [List.count_erase_self, this]

/-- The outcome of the probe in flight costs the probes sent one unit of rank. -/
theorem Inv.rank_le_of_below (hi : Inv s S) (hfl : s.finder.inFlight ≠ InvalidByteCount)
    {S' : Search} (hv' : S'.Valid) (hb : Search.Below S' S) :
    (s.sent : ℤ) + S'.rank (s.max - s.start) ≤
      (Search.init s.start s.max).rank (s.max - s.start) + 0 := by
  have hlt := Search.rank_lt_of_below hi.valid hv' hi.width_le hb
  have := hi.rank_le
  rw [inFlightCount, if_neg hfl] at this
  push_cast at this
  omega

/-- **The acknowledgement of the probe in flight** moves the finder to the acknowledged search. -/
theorem Inv.OnAcked (hi : Inv s S) (hfl : s.finder.inFlight ≠ InvalidByteCount) :
    Inv ⟨{ s.finder with
        inFlight := InvalidByteCount
        min := S.acked.min
        lastProbeWasLost := false
        lost := slots S.acked.lost },
      s.pending.erase s.finder.generation, s.start, s.max, s.sent, S.acked.min :: s.acked⟩
      S.acked := by
  obtain ⟨-, hnd⟩ := hi.inFlight_eq hfl
  exact {
    holds := ⟨rfl, rfl, rfl⟩
    valid := hi.valid.acked hnd
    start_lt := hi.start_lt
    start_le := le_trans hi.start_le hi.valid.min_le_probe
    bound_le := by
      rw [hi.valid.acked_bound hnd]
      exact hi.bound_le
    min_mem := Or.inr List.mem_cons_self
    count_eq := by
      rw [hi.count_erase hfl]
      rfl
    inFlight_eq := fun h => absurd rfl h
    rank_le := hi.rank_le_of_below hfl (hi.valid.acked hnd) (hi.valid.acked_below hnd) }

/-- **The loss of the probe in flight** moves the finder to the search after the loss. -/
theorem Inv.OnLost (hi : Inv s S) (hfl : s.finder.inFlight ≠ InvalidByteCount) :
    Inv { s with
        finder := { s.finder with
          lastProbeWasLost := true
          inFlight := InvalidByteCount
          lost := slots S.lostProbe.lost }
        pending := s.pending.erase s.finder.generation }
      S.lostProbe := by
  obtain ⟨-, hnd⟩ := hi.inFlight_eq hfl
  exact {
    holds := ⟨hi.holds.min_eq, rfl, rfl⟩
    valid := hi.valid.lostProbe hnd
    start_lt := hi.start_lt
    start_le := hi.start_le
    bound_le := le_trans (hi.valid.lostProbe_bound_le hnd) hi.bound_le
    min_mem := hi.min_mem
    count_eq := by
      rw [hi.count_erase hfl]
      rfl
    inFlight_eq := fun h => absurd rfl h
    rank_le := hi.rank_le_of_below hfl (hi.valid.lostProbe hnd) (hi.valid.lostProbe_below hnd) }

/-- A reset starts a new search, whatever the state: only the call is checked. -/
theorem inv_Reset {now start max : ℤ} (hc : (Call.Reset now start max).Permitted s) :
    Inv ⟨s.finder.Reset now start max, s.pending, start, max, 0, []⟩ (Search.init start max) := by
  obtain ⟨⟨h₀, hlt, hmax⟩, hfresh⟩ := hc
  exact {
    holds := Holds.init rfl start max
    valid := Search.Valid.init h₀ hlt hmax
    start_lt := hlt
    start_le := le_refl _
    bound_le := le_refl _
    min_mem := Or.inl rfl
    count_eq := List.count_eq_zero.2 hfresh
    inFlight_eq := fun h => absurd rfl h
    rank_le := by simp [inFlightCount, MtuFinder.Reset, MtuFinder.init] }

theorem MtuFinder.OnAcked_stale {f : MtuFinder} {g : UInt8} (hg : g ≠ f.generation) :
    f.OnAcked g = some f := by
  simp [MtuFinder.OnAcked, hg]

theorem MtuFinder.OnLost_stale {f : MtuFinder} {g : UInt8} (hg : g ≠ f.generation) :
    f.OnLost g = some f := by
  simp [MtuFinder.OnLost, hg]

/-- **Every permitted call succeeds and keeps the invariant.** A probe sent is the search's,
which is not done; and until a reset, `min` does not go down and the bound not up. -/
theorem Inv.step_spec (hi : Inv s S) {c : Call} (hc : c.Permitted s) :
    ∃ s' o S', step s c = some (s', o) ∧ Inv s' S' ∧
      (∀ g size, o = some (g, size) → size = S.probe ∧ ¬S.done) ∧
      (c.isReset = false → S.min ≤ S'.min ∧ S'.bound ≤ S.bound) := by
  cases c with
  | Start now =>
    exact ⟨_, none, S, rfl, hi.Start now, by simp, fun _ => ⟨le_refl _, le_refl _⟩⟩
  | Probe now srtt =>
    -- `ShouldSendProbe` reads the search; when it asks, `GetPing` sends the search's probe
    simp only [step, hi.holds.ShouldSendProbe hi.valid, hi.holds.GetPing hi.valid]
    by_cases hsend : s.finder.lastProbeTime ≠ 0 ∧ s.finder.inFlight = InvalidByteCount ∧
        ¬S.done ∧ s.finder.lastProbeTime + mtuProbeDelay * srtt ≤ now
    · simp only [decide_eq_true hsend, Option.map_some]
      refine ⟨_, _, S, rfl, hi.GetPing hsend.2.1 hsend.2.2.1 now, ?_,
        fun _ => ⟨le_refl _, le_refl _⟩⟩
      simp only [Option.some.injEq, Prod.mk.injEq]
      rintro g size ⟨-, rfl⟩
      exact ⟨rfl, hsend.2.2.1⟩
    · simp only [decide_eq_false hsend]
      exact ⟨s, none, S, rfl, hi, by simp, fun _ => ⟨le_refl _, le_refl _⟩⟩
  | OnAcked g =>
    by_cases hg : g = s.finder.generation
    · -- the handler of the probe in flight
      subst hg
      have hfl := hi.inFlight_ne hc.1
      obtain ⟨hprobe, hnd⟩ := hi.inFlight_eq hfl
      refine ⟨_, none, S.acked, ?_, hi.OnAcked hfl, by simp,
        fun _ => ⟨hi.valid.min_le_probe, le_of_eq (hi.valid.acked_bound hnd)⟩⟩
      simp only [step, hi.holds.OnAcked hi.valid hnd hprobe, Option.map_some, ↓reduceIte]
    · simp only [step, MtuFinder.OnAcked_stale hg, Option.map_some, if_neg hg]
      exact ⟨_, none, S, rfl, hi.erase_stale hg, by simp, fun _ => ⟨le_refl _, le_refl _⟩⟩
  | OnLost g =>
    by_cases hg : g = s.finder.generation
    · subst hg
      have hfl := hi.inFlight_ne hc.1
      obtain ⟨hprobe, hnd⟩ := hi.inFlight_eq hfl
      refine ⟨_, none, S.lostProbe, ?_, hi.OnLost hfl, by simp,
        fun _ => ⟨le_refl _, hi.valid.lostProbe_bound_le hnd⟩⟩
      simp only [step, hi.holds.OnLost hi.valid hnd hprobe, Option.map_some]
    · simp only [step, MtuFinder.OnLost_stale hg, Option.map_some]
      exact ⟨_, none, S, rfl, hi.erase_stale hg, by simp, fun _ => ⟨le_refl _, le_refl _⟩⟩
  | Reset now start max =>
    exact ⟨_, none, _, rfl, inv_Reset hc, by simp, by simp [Call.isReset]⟩

/-- **The invariant over every run** of permitted calls from `newMTUDiscoverer`. -/
theorem exists_inv_of_reachable {start max : ℤ} (h₀ : 0 ≤ start) (hlt : start < max)
    (hmax : max ≤ MaxByteCount)
    (hs : Machine.Reachable (Machine.guard Call.Permitted step) (newDiscovery start max)
      (fun _ => True) (fun _ => True) s) : ∃ S, Inv s S := by
  refine Machine.Reachable.induction (fun s => ∃ S, Inv s S)
    ⟨_, inv_newDiscovery h₀ hlt hmax⟩ ?_ hs
  rintro s c s' o ⟨S, hi⟩ - - hstep
  obtain ⟨hc, hstep⟩ := Machine.guard_eq_some.mp hstep
  obtain ⟨s'', o', S', heq, hi', -⟩ := hi.step_spec hc
  rw [hstep, Option.some.injEq, Prod.mk.injEq] at heq
  obtain ⟨rfl, -⟩ := heq
  exact ⟨S', hi'⟩


/-! ## The search over every run -/

/-- **Path MTU discovery over every run.** In every state that permitted calls reach from
`newMTUDiscoverer(start, max)`: the slots of `lost` hold sizes in increasing order from
`CurrentSize()` on, the last of them `max()`, and `InvalidByteCount`s after them;
`CurrentSize()` is the start of the search or a size acknowledged since; the search has sent at
most `maxProbes (max - start)` probes; and every permitted call succeeds, a probe it sends is in
`[CurrentSize(), max())`, and unless it is a reset it does not lower `CurrentSize()` or raise
`max()`. -/
theorem mtuSearch_of_reachable {start max : ℤ} (h₀ : 0 ≤ start) (hlt : start < max)
    (hmax : max ≤ MaxByteCount) {s : Discovery}
    (hs : Machine.Reachable (Machine.guard Call.Permitted step) (newDiscovery start max)
      (fun _ => True) (fun _ => True) s) :
    (∃ vs, s.finder.lost = slots vs ∧ vs ≠ [] ∧ vs.Pairwise (· ≤ ·) ∧
      (∀ v ∈ vs, s.finder.CurrentSize ≤ v) ∧ s.finder.max = vs.getLast?) ∧
    (s.finder.CurrentSize = s.start ∨ s.finder.CurrentSize ∈ s.acked) ∧
    (s.sent : ℤ) ≤ maxProbes (s.max - s.start) ∧
    ∀ c, c.Permitted s → ∃ s' o, step s c = some (s', o) ∧
      (∀ g size, o = some (g, size) →
        ∃ m, s.finder.max = some m ∧ s.finder.CurrentSize ≤ size ∧ size < m) ∧
      (c.isReset = false → s.finder.CurrentSize ≤ s'.finder.CurrentSize ∧
        ∃ m m', s.finder.max = some m ∧ s'.finder.max = some m' ∧ m' ≤ m) := by
  obtain ⟨S, hi⟩ := exists_inv_of_reachable h₀ hlt hmax hs
  have hmin : s.finder.CurrentSize = S.min := hi.holds.min_eq
  have hbound : s.finder.max = some S.bound := hi.holds.max hi.valid
  refine ⟨⟨S.lost, hi.holds.lost_eq, hi.valid.ne_nil, hi.valid.sorted, ?_, ?_⟩,
    by rw [hmin]; exact hi.min_mem, hi.sent_le, ?_⟩
  · rw [hmin]
    exact hi.valid.min_le
  · rw [hbound, List.getLast?_eq_some_getLast hi.valid.ne_nil, Search.bound_eq hi.valid.ne_nil]
  · intro c hc
    obtain ⟨s', o, S', hstep, hi', hprobe, hmono⟩ := hi.step_spec hc
    refine ⟨s', o, hstep, fun g size ho => ?_, fun hr => ?_⟩
    · -- a probe sent is the search's, which is not done
      obtain ⟨rfl, hnd⟩ := hprobe g size ho
      exact ⟨S.bound, hbound, hmin ▸ hi.valid.min_le_probe, hi.valid.probe_lt_bound hnd⟩
    · obtain ⟨hle, hble⟩ := hmono hr
      have hmin' : s'.finder.CurrentSize = S'.min := hi'.holds.min_eq
      exact ⟨by rw [hmin, hmin']; exact hle, S.bound, S'.bound, hbound,
        hi'.holds.max hi'.valid, hble⟩

/-- One probe, sent as soon as the finder asks, and acknowledged. -/
def ackedOnce : Discovery :=
  ⟨⟨1, InvalidByteCount, 1326, [1452, InvalidByteCount, InvalidByteCount], false, 0⟩,
    [], 1200, 1452, 1, [1326]⟩

theorem run_ackedOnce :
    Machine.run (Machine.guard Call.Permitted step) (newDiscovery 1200 1452)
      [.Start 1, .Probe 1 0, .OnAcked 0] = some (ackedOnce, [none, some (0, 1326), none]) := by
  decide +kernel

theorem mtuSearch_ackedOnce :
    (∃ vs, ackedOnce.finder.lost = slots vs ∧ vs ≠ [] ∧ vs.Pairwise (· ≤ ·) ∧
      (∀ v ∈ vs, ackedOnce.finder.CurrentSize ≤ v) ∧ ackedOnce.finder.max = vs.getLast?) ∧
    (ackedOnce.finder.CurrentSize = ackedOnce.start ∨
      ackedOnce.finder.CurrentSize ∈ ackedOnce.acked) ∧
    (ackedOnce.sent : ℤ) ≤ maxProbes (ackedOnce.max - ackedOnce.start) ∧
    ∀ c, c.Permitted ackedOnce → ∃ s' o, step ackedOnce c = some (s', o) ∧
      (∀ g size, o = some (g, size) → ∃ m, ackedOnce.finder.max = some m ∧
        ackedOnce.finder.CurrentSize ≤ size ∧ size < m) ∧
      (c.isReset = false → ackedOnce.finder.CurrentSize ≤ s'.finder.CurrentSize ∧
        ∃ m m', ackedOnce.finder.max = some m ∧ s'.finder.max = some m' ∧ m' ≤ m) :=
  mtuSearch_of_reachable (by decide) (by decide) (by decide)
    ⟨_, _, run_ackedOnce, fun _ _ => trivial, fun _ _ => trivial⟩

/-- The calls of a search in which each probe is sent as soon as the finder asks, and has the
outcome in `outcomes` (`true` for an acknowledgement). -/
def probeRun (outcomes : List Bool) : List Call :=
  .Start 1 :: outcomes.flatMap fun a => [.Probe 1 0, if a then .OnAcked 0 else .OnLost 0]

/-- Three runs. A probe whose handler fires after 256 resets finds its generation current and
no probe in flight: `OnAcked` panics. From 1200 to 1470, after the outcomes
L1335 L1267 A1233 L1351 L1250 A1241 L1288 A1245 A1266 L1277, the next probe is 1266, equal to
`CurrentSize()`. From 1200 to 1452, after L1326 A1263 L1357 A1294 L1373 A1310 A1341 L1357,
`lost` holds 1357 twice. -/
theorem mtuSearch_wrap_minProbe_repeatedLoss :
    Machine.run (Machine.guard Call.Fires step) (newDiscovery 1200 1452)
      (.Start 1 :: .Probe 1 0 :: List.replicate 256 (.Reset 1 1200 1452) ++ [.OnAcked 0]) =
        none ∧
    (Machine.run (Machine.guard Call.Permitted step) (newDiscovery 1200 1470)
      (probeRun [false, false, true, false, false, true, false, true, true, false] ++
        [.Probe 1 0])).map (fun r => (r.1.finder.CurrentSize, r.2.getLast?)) =
      some (1266, some (some (0, 1266))) ∧
    (Machine.run (Machine.guard Call.Permitted step) (newDiscovery 1200 1452)
      (probeRun [false, true, false, true, false, true, true, false])).map
        (fun r => r.1.finder.lost) = some [1357, 1357, 1373] :=
  ⟨by decide +kernel, by decide +kernel, by decide +kernel⟩

end MtuDiscoverer

end QuicGo
