import Mathlib.Logic.Basic

/-!
# Runs of a partial step function

A component that is driven by calls is a function `step : σ → α → Option (σ × β)`: in state
`s` the call `a` returns its output `b` together with the next state, or the code panics
(`none`). A run feeds a list of calls to `step` and collects the outputs in order.

Every whole-run result of the development is proved the same way: state what one call
preserves, then lift it along the run. The lifting is done once, here:

* `run_induction_of` — an invariant over the state *and* the calls and outputs seen so far,
  preserved by every permitted call with a permitted output, holds after every successful
  run of such calls;
* `Reachable` — the states some successful run ends in whose calls and outputs pass given
  filters (the calls a caller may make, the outputs a claim restricts itself to);
* `guard` — the machine of a caller that makes a call only where a precondition on the state
  permits it, so that `Reachable` covers preconditions such as "read no more than received";
* `run_conserve` — a conservation law: what the calls bring in is what the outputs take out
  plus what the state holds, up to a relation on lists such as `List.Perm` (nothing is lost
  or duplicated) or `List.Subperm` (nothing is duplicated);
* `run_rel` — lockstep simulation: two machines whose calls from related states fail
  together or give the same output and related states run alike on every list of calls.
-/

namespace Machine

variable {σ α β : Type*}

/-- Feed the calls `as` to `step` from `s`, collecting the outputs; `none` as soon as one
call fails. -/
def run (step : σ → α → Option (σ × β)) : σ → List α → Option (σ × List β)
  | s, [] => some (s, [])
  | s, a :: as =>
    match step s a with
    | none => none
    | some (s', b) =>
      match run step s' as with
      | none => none
      | some (s'', bs) => some (s'', b :: bs)

variable {step : σ → α → Option (σ × β)}

@[simp] theorem run_nil (s : σ) : run step s [] = some (s, []) := rfl

/-- Inversion of a successful run of a non-empty list of calls: the first call succeeds and
the rest of the run starts from the state it leaves. -/
theorem run_cons_eq_some {s s'' : σ} {a : α} {as : List α} {out : List β}
    (h : run step s (a :: as) = some (s'', out)) :
    ∃ s' b bs, step s a = some (s', b) ∧ run step s' as = some (s'', bs) ∧ out = b :: bs := by
  simp only [run] at h
  split at h
  · exact absurd h (by simp)
  · rename_i s' b hstep
    split at h
    · exact absurd h (by simp)
    · rename_i s₂ bs hrun
      simp only [Option.some.injEq, Prod.mk.injEq] at h
      obtain ⟨rfl, rfl⟩ := h
      exact ⟨s', b, bs, hstep, hrun, rfl⟩

/-- A successful call followed by a successful run is a successful run. -/
theorem run_cons_of {s s' s'' : σ} {a : α} {as : List α} {b : β} {bs : List β}
    (h : step s a = some (s', b)) (hrun : run step s' as = some (s'', bs)) :
    run step s (a :: as) = some (s'', b :: bs) := by
  simp [run, h, hrun]

/-- A successful run followed by a successful call is a successful run. -/
theorem run_snoc {s s₁ s₂ : σ} {as : List α} {a : α} {bs : List β} {b : β}
    (h : run step s as = some (s₁, bs)) (ha : step s₁ a = some (s₂, b)) :
    run step s (as ++ [a]) = some (s₂, bs ++ [b]) := by
  induction as generalizing s bs with
  | nil =>
    simp only [run_nil, Option.some.injEq, Prod.mk.injEq] at h
    obtain ⟨rfl, rfl⟩ := h
    simp [run, ha]
  | cons a' as ih =>
    obtain ⟨s', b', bs', h₁, hrun, rfl⟩ := run_cons_eq_some h
    simp [run, h₁, ih hrun]

/-- Two successful runs one after the other are a successful run. -/
theorem run_append_of {s s₁ s₂ : σ} {as as' : List α} {bs bs' : List β}
    (h : run step s as = some (s₁, bs)) (h' : run step s₁ as' = some (s₂, bs')) :
    run step s (as ++ as') = some (s₂, bs ++ bs') := by
  induction as generalizing s bs with
  | nil =>
    simp only [run_nil, Option.some.injEq, Prod.mk.injEq] at h
    obtain ⟨rfl, rfl⟩ := h
    simpa using h'
  | cons a as ih =>
    obtain ⟨s', b, bs₁, h₁, hrun, rfl⟩ := run_cons_eq_some h
    exact run_cons_of h₁ (ih hrun)

/-- **Run induction over permitted calls.** An invariant over the state and the calls and
outputs seen so far that every permitted call with a permitted output preserves holds after
every successful run of permitted calls with permitted outputs. -/
theorem run_induction_of (okCall : α → Prop) (okOut : β → Prop)
    (P : σ → List α → List β → Prop)
    (hstep : ∀ s hist out a s' b, P s hist out → okCall a → okOut b →
      step s a = some (s', b) → P s' (hist ++ [a]) (out ++ [b]))
    {s s' : σ} (hist : List α) {as : List α} (out : List β) {bs : List β}
    (hP : P s hist out) (hcalls : ∀ a ∈ as, okCall a) (houts : ∀ b ∈ bs, okOut b)
    (hrun : run step s as = some (s', bs)) : P s' (hist ++ as) (out ++ bs) := by
  induction as generalizing s hist out bs with
  | nil =>
    simp only [run_nil, Option.some.injEq, Prod.mk.injEq] at hrun
    obtain ⟨rfl, rfl⟩ := hrun
    simpa using hP
  | cons a as ih =>
    obtain ⟨s₁, b, bs₁, hstep₁, hrun₁, rfl⟩ := run_cons_eq_some hrun
    have h₁ := hstep s hist out a s₁ b hP (hcalls a (by simp)) (houts b (by simp)) hstep₁
    have := ih (hist ++ [a]) (out ++ [b]) h₁ (fun x hx => hcalls x (by simp [hx]))
      (fun x hx => houts x (by simp [hx])) hrun₁
    simpa using this

/-- The states that a successful run from `init` ends in, when every call passes `okCall`
and every output passes `okOut`. -/
def Reachable (step : σ → α → Option (σ × β)) (init : σ) (okCall : α → Prop)
    (okOut : β → Prop) (s : σ) : Prop :=
  ∃ as bs, run step init as = some (s, bs) ∧ (∀ a ∈ as, okCall a) ∧ ∀ b ∈ bs, okOut b

/-- **Reachability induction.** A property of the initial state that every permitted call
with a permitted output preserves holds in every reachable state. -/
theorem Reachable.induction {init : σ} {okCall : α → Prop} {okOut : β → Prop}
    (P : σ → Prop) (hinit : P init)
    (hstep : ∀ s a s' b, P s → okCall a → okOut b → step s a = some (s', b) → P s')
    {s : σ} (h : Reachable step init okCall okOut s) : P s := by
  obtain ⟨as, bs, hrun, hcalls, houts⟩ := h
  exact run_induction_of okCall okOut (fun s _ _ => P s)
    (fun s _ _ a s' b h ha hb hs => hstep s a s' b h ha hb hs) [] [] hinit hcalls houts hrun

/-- The machine of a caller that makes a call only in the states where `ok` permits it: a
call it would not make fails. -/
def guard (ok : σ → α → Prop) [∀ s a, Decidable (ok s a)] (step : σ → α → Option (σ × β))
    (s : σ) (a : α) : Option (σ × β) :=
  if ok s a then step s a else none

theorem guard_eq_some {ok : σ → α → Prop} [∀ s a, Decidable (ok s a)] {s : σ} {a : α}
    {r : σ × β} : guard ok step s a = some r ↔ ok s a ∧ step s a = some r := by
  unfold guard
  split <;> simp [*]

/-- **Conservation along a run.** Let `R` be a relation on lists that contains `List.Perm`,
is transitive and is kept by adding the same prefix on both sides. If every permitted step
(from a state with `P`, with an output that passes `okOut`) keeps `P` and relates what its
output takes out plus what the new state holds to what its call brings in plus what the old
state held, then so does every run. -/
theorem run_conserve {γ : Type*} (R : List γ → List γ → Prop)
    (hperm : ∀ {l₁ l₂ : List γ}, l₁.Perm l₂ → R l₁ l₂)
    (htrans : ∀ {l₁ l₂ l₃ : List γ}, R l₁ l₂ → R l₂ l₃ → R l₁ l₃)
    (happend : ∀ (l : List γ) {l₁ l₂ : List γ}, R l₁ l₂ → R (l ++ l₁) (l ++ l₂))
    (given : α → List γ) (taken : β → List γ) (held : σ → List γ)
    (P : σ → Prop) (okOut : β → Prop)
    (hstep : ∀ s a s' b, P s → okOut b → step s a = some (s', b) →
      P s' ∧ R (taken b ++ held s') (given a ++ held s))
    {s s' : σ} {as : List α} {bs : List β} (hP : P s) (hout : ∀ b ∈ bs, okOut b)
    (h : run step s as = some (s', bs)) :
    R (bs.flatMap taken ++ held s') (as.flatMap given ++ held s) := by
  induction as generalizing s bs with
  | nil =>
    simp only [run_nil, Option.some.injEq, Prod.mk.injEq] at h
    obtain ⟨rfl, rfl⟩ := h
    exact hperm (List.Perm.refl _)
  | cons a as ih =>
    obtain ⟨s₁, b, bs₁, h₁, hrun, rfl⟩ := run_cons_eq_some h
    obtain ⟨hP₁, hR₁⟩ := hstep s a s₁ b hP (hout b (by simp)) h₁
    have hrest := ih hP₁ (fun b' hb' => hout b' (by simp [hb'])) hrun
    -- the rest of the run after the first output, then the first step under the rest's calls
    have e₁ : R ((b :: bs₁).flatMap taken ++ held s')
        (taken b ++ (as.flatMap given ++ held s₁)) := by
      rw [List.flatMap_cons, List.append_assoc]
      exact happend _ hrest
    have e₂ : R (taken b ++ (as.flatMap given ++ held s₁))
        (as.flatMap given ++ (given a ++ held s)) :=
      htrans (hperm (List.perm_append_comm_assoc _ _ _)) (happend _ hR₁)
    refine htrans e₁ (htrans e₂ (hperm ?_))
    rw [List.flatMap_cons, List.append_assoc]
    exact List.perm_append_comm_assoc _ _ _

/-- **Lockstep simulation.** If from related states every call fails in both machines or
succeeds in both with the same output and related next states, then so does every run. -/
theorem run_rel {τ : Type*} {step' : τ → α → Option (τ × β)} (R : σ → τ → Prop)
    (hstep : ∀ s t a, R s t →
      Option.Rel (fun x y => x.2 = y.2 ∧ R x.1 y.1) (step s a) (step' t a))
    {s : σ} {t : τ} (h : R s t) (as : List α) :
    Option.Rel (fun x y => x.2 = y.2 ∧ R x.1 y.1) (run step s as) (run step' t as) := by
  induction as generalizing s t with
  | nil => exact .some ⟨rfl, h⟩
  | cons a as ih =>
    simp only [run]
    -- the first call, then the rest of the run from the states it leaves
    have h₁ := hstep s t a h
    generalize step s a = x at h₁ ⊢
    generalize step' t a = y at h₁ ⊢
    cases h₁ with
    | none => exact .none
    | @some x y hxy =>
      obtain ⟨s', b⟩ := x
      obtain ⟨t', b'⟩ := y
      obtain ⟨rfl, hR⟩ := hxy
      dsimp only
      have h₂ := ih hR
      generalize run step s' as = x' at h₂ ⊢
      generalize run step' t' as = y' at h₂ ⊢
      cases h₂ with
      | none => exact .none
      | @some x' y' hxy' => exact .some ⟨by simp [hxy'.1], hxy'.2⟩
end Machine
