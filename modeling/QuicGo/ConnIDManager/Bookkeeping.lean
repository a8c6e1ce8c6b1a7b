import QuicGo.ConnIDManager.Basic

/-!
# QuicGo — the bookkeeping of the connection IDs of the peer

What the manager keeps over every run of the calls that a connection makes while it is in use
(`Add`, `Get`, `SentPacket`, `SetHandshakeComplete`, `GetConnIDForPath`,
`RetireConnIDForPath`):

* `QueueInv` — the queue is ordered by sequence number, strictly, and lies above the active
  connection ID, so that the active one is never queued as well (`queueInv_of_run`);
* `Balanced` — the stateless reset tokens added minus those removed are, as a multiset, those
  of the active connection ID and of the paths (`tokens_of_run`).

The bricks are one inversion lemma per function (`add_eq_some`, `updateConnectionID_eq_some`),
the loops' specs (`Ordered.insertConnID`, `retirePaths_tokens`), and the field lemmas of the
helpers; both invariants are assembled from them in `QueueInv.of_step` and
`Balanced.of_step`.

What the manager does not keep: a NEW_CONNECTION_ID frame whose sequence number is that of
the last connection ID given to a path passes every check of `add` (it is not below
`max activeSequenceNumber highestProbingID`) and is queued again, so that one sequence number
is held by a path and by the queue. When the path is abandoned first, `RetireConnIDForPath`
queues a RETIRE_CONNECTION_ID frame for it without raising `highestRetired`, and the
retransmitted frame makes the retired connection ID the next active one
(`retransmitted_frame_requeues_connID`).
-/

namespace QuicGo

namespace ConnIDManager

open Wire

variable {h h' : ConnIDManager} {seq : ℕ} {connID : ConnectionID}
  {resetToken : StatelessResetToken} {draw : Fin PacketsPerConnectionID}

/-- The calls of a connection in use: not the setup of the first connection ID
(`AddFromPreferredAddress`, `ChangeInitialConnID`, `SetStatelessResetToken`) nor `Close`. -/
def Call.InUse : Call → Prop
  | .Add _ _ | .Get _ | .SentPacket | .SetHandshakeComplete | .GetConnIDForPath _
  | .RetireConnIDForPath _ => True
  | _ => False

/-! ## What the helpers leave alone -/

@[simp] theorem addConnectionID_activeSequenceNumber :
    (h.addConnectionID seq connID resetToken).1.activeSequenceNumber = h.activeSequenceNumber := by
  unfold addConnectionID; split <;> rfl

@[simp] theorem addConnectionID_activeStatelessResetToken :
    (h.addConnectionID seq connID resetToken).1.activeStatelessResetToken =
      h.activeStatelessResetToken := by
  unfold addConnectionID; split <;> rfl

@[simp] theorem addConnectionID_pathProbing :
    (h.addConnectionID seq connID resetToken).1.pathProbing = h.pathProbing := by
  unfold addConnectionID; split <;> rfl

@[simp] theorem retirePathProbing_queue (r : ℕ) :
    (h.retirePathProbing r).1.queue = h.queue := by
  unfold retirePathProbing; split <;> rfl

@[simp] theorem retirePathProbing_activeSequenceNumber (r : ℕ) :
    (h.retirePathProbing r).1.activeSequenceNumber = h.activeSequenceNumber := by
  unfold retirePathProbing; split <;> rfl

@[simp] theorem retirePathProbing_activeStatelessResetToken (r : ℕ) :
    (h.retirePathProbing r).1.activeStatelessResetToken = h.activeStatelessResetToken := by
  unfold retirePathProbing; split <;> rfl

@[simp] theorem retireQueued_activeSequenceNumber (r : ℕ) :
    (h.retireQueued r).1.activeSequenceNumber = h.activeSequenceNumber := by
  unfold retireQueued; split <;> rfl

@[simp] theorem retireQueued_activeStatelessResetToken (r : ℕ) :
    (h.retireQueued r).1.activeStatelessResetToken = h.activeStatelessResetToken := by
  unfold retireQueued; split <;> rfl

@[simp] theorem retireQueued_pathProbing (r : ℕ) :
    (h.retireQueued r).1.pathProbing = h.pathProbing := by
  unfold retireQueued; split <;> rfl

theorem retireQueue_sublist (r : ℕ) (q : List NewConnID) : (retireQueue r q).1.Sublist q := by
  induction q with
  | nil => simp [retireQueue]
  | cons entry rest ih =>
    simp only [retireQueue]
    split
    · exact ih.cons_cons _
    · exact ih.cons _

theorem retireQueued_queue_sublist (r : ℕ) : (h.retireQueued r).1.queue.Sublist h.queue := by
  unfold retireQueued
  split
  · exact retireQueue_sublist _ _
  · exact List.Sublist.refl _

/-! ## The inversion lemmas -/

/-- Everything `updateConnectionID` can do: it needs an open manager and a non-empty queue. -/
theorem updateConnectionID_eq_some {r : ConnIDManager × List Event}
    (hu : h.updateConnectionID draw = some r) :
    ∃ front queue, h.closed = false ∧ h.queue = front :: queue ∧
      r = ({ h with
          queue := queue
          highestRetired := max h.highestRetired h.activeSequenceNumber
          activeSequenceNumber := front.SequenceNumber
          activeConnectionID := front.ConnectionID
          activeStatelessResetToken := some front.StatelessResetToken
          packetsSinceLastChange := 0
          packetsPerConnectionID := UInt32.ofNat (PacketsPerConnectionID / 2 + draw.val) },
        .queueControlFrame ⟨h.activeSequenceNumber⟩ ::
          (h.activeStatelessResetToken.toList.map .removeStatelessResetToken ++
            [.addStatelessResetToken front.StatelessResetToken])) := by
  unfold updateConnectionID at hu
  by_cases hc : h.closed = true
  · rw [if_pos hc] at hu
    cases hu
  rw [if_neg hc] at hu
  cases hq : h.queue with
  | nil => rw [hq] at hu; cases hu
  | cons front queue =>
    rw [hq] at hu
    exact ⟨front, queue, by simpa using hc, rfl, (Option.some.inj hu).symm⟩

/-- Everything `add` can do: nothing but an error or the retirement of a reordered frame; or
the two retirement loops, then nothing more for the active sequence number, and otherwise the
new connection ID, and a change of the active one when `RetirePriorTo` retires it. -/
theorem add_eq_some {f : NewConnectionIDFrame} {es : List Event} {err : Option Error}
    (ha : h.add f draw = some (h', es, err)) :
    (h' = h ∧ (es = [] ∨ es = [.queueControlFrame ⟨f.SequenceNumber⟩])) ∨
    ∃ h₁ e₁ h₂ e₂, max h.activeSequenceNumber h.highestProbingID ≤ f.SequenceNumber ∧
      h.retirePathProbing f.RetirePriorTo = (h₁, e₁) ∧
      h₁.retireQueued f.RetirePriorTo = (h₂, e₂) ∧
      ((f.SequenceNumber = h₂.activeSequenceNumber ∧ h' = h₂ ∧ es = e₁ ++ e₂) ∨
        (f.SequenceNumber ≠ h₂.activeSequenceNumber ∧
          ((h' = (h₂.addConnectionID f.SequenceNumber f.ConnectionID f.StatelessResetToken).1 ∧
              es = e₁ ++ e₂) ∨
            ∃ e₄, (h₂.addConnectionID f.SequenceNumber f.ConnectionID
                f.StatelessResetToken).1.updateConnectionID draw = some (h', e₄) ∧
              es = e₁ ++ e₂ ++ e₄))) := by
  unfold add at ha
  dsimp only at ha
  split_ifs at ha with hlen hold hact hlt
  · cases ha
    exact .inl ⟨rfl, .inl rfl⟩
  · cases ha
    exact .inl ⟨rfl, .inr rfl⟩
  · cases ha
    exact .inr ⟨_, _, _, _, by omega, rfl, rfl, .inl ⟨hact, rfl, rfl⟩⟩
  · -- `RetirePriorTo` retires the active connection ID
    refine .inr ⟨_, _, _, _, by omega, rfl, rfl, .inr ⟨hact, ?_⟩⟩
    split at ha
    · cases ha
      exact .inl ⟨rfl, rfl⟩
    · obtain ⟨r₄, hr₄, he⟩ := Option.map_eq_some_iff.mp ha
      cases he
      exact .inr ⟨r₄.2, hr₄, rfl⟩
  · refine .inr ⟨_, _, _, _, by omega, rfl, rfl, .inr ⟨hact, .inl ?_⟩⟩
    split at ha <;>
    · cases ha
      exact ⟨rfl, rfl⟩

theorem add_of_Add {f : NewConnectionIDFrame} {es : List Event} {err : Option Error}
    (ha : h.Add f draw = some (h', es, err)) : ∃ err', h.add f draw = some (h', es, err') := by
  unfold Add at ha
  split at ha
  · cases ha
  · rename_i err' hadd
    cases ha
    exact ⟨some err', hadd⟩
  · rename_i hadd
    split_ifs at ha <;> cases ha <;> exact ⟨none, hadd⟩

/-! ## The queue is ordered and above the active connection ID -/

/-- The queue's sequence numbers increase strictly. -/
def Ordered (queue : List NewConnID) : Prop :=
  queue.Pairwise fun a b => a.SequenceNumber < b.SequenceNumber

theorem mem_insertConnID {q : List NewConnID} {e : NewConnID}
    (he : e ∈ (insertConnID seq connID resetToken q).1) : e ∈ q ∨ e.SequenceNumber = seq := by
  induction q with
  | nil => simp [insertConnID] at he
  | cons entry rest ih =>
    simp only [insertConnID] at he
    split_ifs at he
    · exact .inl he
    · exact .inl he
    · exact .inl he
    · rcases List.mem_cons.mp he with rfl | he
      · exact .inr rfl
      · exact .inl he
    · rcases List.mem_cons.mp he with rfl | he
      · exact .inl List.mem_cons_self
      · exact (ih he).imp (List.mem_cons_of_mem _) id

theorem Ordered.insertConnID {q : List NewConnID} (hq : Ordered q) :
    Ordered (insertConnID seq connID resetToken q).1 := by
  induction q with
  | nil => simp [ConnIDManager.insertConnID, Ordered]
  | cons entry rest ih =>
    obtain ⟨hentry, hrest⟩ := List.pairwise_cons.mp hq
    simp only [ConnIDManager.insertConnID]
    by_cases heq : entry.SequenceNumber = seq
    · -- the entry with the sequence number stays as it is
      rw [if_pos heq]
      split_ifs <;> exact hq
    rw [if_neg heq]
    by_cases hgt : entry.SequenceNumber > seq
    · -- the new entry goes before `entry`, which is below the rest
      rw [if_pos hgt]
      refine List.pairwise_cons.mpr ⟨fun e he => ?_, hq⟩
      rcases List.mem_cons.mp he with rfl | he
      · exact hgt
      · exact Nat.lt_trans hgt (hentry e he)
    · -- `entry` stays in front: the rest is above it, and so is `seq`
      rw [if_neg hgt]
      refine List.pairwise_cons.mpr ⟨fun e he => ?_, ih hrest⟩
      rcases mem_insertConnID he with he | he
      · exact hentry e he
      · omega

theorem Ordered.le_last {q : List NewConnID} {last e : NewConnID} (hq : Ordered q)
    (hl : q.getLast? = some last) (he : e ∈ q) : e.SequenceNumber ≤ last.SequenceNumber := by
  obtain ⟨init, rfl⟩ := List.getLast?_eq_some_iff.mp hl
  rcases List.mem_append.mp he with he | he
  · exact Nat.le_of_lt ((List.pairwise_append.mp hq).2.2 e he last (List.mem_singleton_self last))
  · rw [List.mem_singleton.mp he]

theorem Ordered.addConnectionID (hq : Ordered h.queue) :
    Ordered (h.addConnectionID seq connID resetToken).1.queue := by
  unfold ConnIDManager.addConnectionID
  split
  · -- the fast path: every entry is at most the last one, which is below `seq`
    rename_i hfast
    refine List.pairwise_append.mpr ⟨hq, by simp, fun e he n hn => ?_⟩
    rw [List.mem_singleton.mp hn]
    cases hl : h.queue.getLast? with
    | none => simp [List.getLast?_eq_none_iff.mp hl] at he
    | some last =>
      rw [hl] at hfast
      have hlt : last.SequenceNumber < seq := by simpa using hfast
      exact Nat.lt_of_le_of_lt (hq.le_last hl he) hlt
  · exact hq.insertConnID

theorem mem_addConnectionID {e : NewConnID}
    (he : e ∈ (h.addConnectionID seq connID resetToken).1.queue) :
    e ∈ h.queue ∨ e.SequenceNumber = seq := by
  unfold addConnectionID at he
  split at he
  · rcases List.mem_append.mp he with he | he
    · exact .inl he
    · exact .inr (by rw [List.mem_singleton.mp he])
  · exact mem_insertConnID he

/-- The queue is ordered, and every queued connection ID is above the active one. -/
structure QueueInv (h : ConnIDManager) : Prop where
  ordered : Ordered h.queue
  above : ∀ e ∈ h.queue, h.activeSequenceNumber < e.SequenceNumber

theorem QueueInv.of_sublist (hi : QueueInv h) (hq : h'.queue.Sublist h.queue)
    (ha : h'.activeSequenceNumber = h.activeSequenceNumber) : QueueInv h' where
  ordered := hi.ordered.sublist hq
  above e he := ha ▸ hi.above e (hq.subset he)

theorem QueueInv.retirePathProbing (hi : QueueInv h) (r : ℕ) :
    QueueInv (h.retirePathProbing r).1 :=
  hi.of_sublist (by rw [retirePathProbing_queue]) (by simp)

theorem QueueInv.retireQueued (hi : QueueInv h) (r : ℕ) : QueueInv (h.retireQueued r).1 :=
  hi.of_sublist (retireQueued_queue_sublist r) (by simp)

theorem QueueInv.addConnectionID (hi : QueueInv h) (hseq : h.activeSequenceNumber < seq) :
    QueueInv (h.addConnectionID seq connID resetToken).1 where
  ordered := hi.ordered.addConnectionID
  above e he := by
    rw [addConnectionID_activeSequenceNumber]
    rcases mem_addConnectionID he with he | he
    · exact hi.above e he
    · omega

/-- The new active connection ID was the front of the queue, and the rest is above it. -/
theorem QueueInv.updateConnectionID (hi : QueueInv h) {r : ConnIDManager × List Event}
    (hu : h.updateConnectionID draw = some r) : QueueInv r.1 := by
  obtain ⟨front, queue, -, hq, rfl⟩ := updateConnectionID_eq_some hu
  have hord := hi.ordered
  rw [Ordered, hq] at hord
  exact ⟨(List.pairwise_cons.mp hord).2, (List.pairwise_cons.mp hord).1⟩

theorem QueueInv.add (hi : QueueInv h) {f : NewConnectionIDFrame} {es : List Event}
    {err : Option Error} (ha : h.add f draw = some (h', es, err)) : QueueInv h' := by
  rcases add_eq_some ha with ⟨rfl, -⟩ | ⟨h₁, e₁, h₂, e₂, hle, hr₁, hr₂, hcases⟩
  · exact hi
  have hi₂ : QueueInv h₂ := by
    have := (hi.retirePathProbing f.RetirePriorTo).retireQueued f.RetirePriorTo
    rwa [hr₁, hr₂] at this
  have hact : h₂.activeSequenceNumber = h.activeSequenceNumber := by
    have := congrArg (fun r => (Prod.fst r).activeSequenceNumber) hr₂
    have h₁act := congrArg (fun r => (Prod.fst r).activeSequenceNumber) hr₁
    simp only [retireQueued_activeSequenceNumber, retirePathProbing_activeSequenceNumber]
      at this h₁act
    omega
  rcases hcases with ⟨-, rfl, -⟩ | ⟨hne, hadd⟩
  · exact hi₂
  -- the new sequence number is at least the active one, and not equal to it
  have hi₃ : QueueInv (h₂.addConnectionID f.SequenceNumber f.ConnectionID
      f.StatelessResetToken).1 := hi₂.addConnectionID (by omega)
  rcases hadd with ⟨rfl, -⟩ | ⟨e₄, hu, -⟩
  · exact hi₃
  · exact hi₃.updateConnectionID hu

/-! ## The stateless reset tokens -/

/-- The token a callback adds. -/
def Event.added : Event → List StatelessResetToken
  | .addStatelessResetToken token => [token]
  | _ => []

/-- The token a callback removes. -/
def Event.removed : Event → List StatelessResetToken
  | .removeStatelessResetToken token => [token]
  | _ => []

/-- The tokens of the active connection ID and of the paths. -/
def tokensHeld (h : ConnIDManager) : List StatelessResetToken :=
  h.activeStatelessResetToken.toList ++ h.pathProbing.entries.map fun entry =>
    entry.2.StatelessResetToken

/-- From `h` to `h'`, the callbacks `events` account for the tokens: what they remove and what
`h'` holds is what they add and what `h` holds. -/
def Balanced (h : ConnIDManager) (events : List Event) (h' : ConnIDManager) : Prop :=
  (events.flatMap Event.removed ++ tokensHeld h').Perm (events.flatMap Event.added ++ tokensHeld h)

theorem Balanced.trans {h₁ h₂ : ConnIDManager} {e₁ e₂ : List Event} (b₁ : Balanced h e₁ h₁)
    (b₂ : Balanced h₁ e₂ h₂) : Balanced h (e₁ ++ e₂) h₂ := by
  unfold Balanced at *
  rw [List.perm_iff_count] at *
  intro t
  have c₁ := b₁ t
  have c₂ := b₂ t
  simp only [List.count_append, List.flatMap_append] at c₁ c₂ ⊢
  omega

theorem Balanced.of_held {h₁ h₂ : ConnIDManager} {es : List Event} (b : Balanced h es h₁)
    (ht : tokensHeld h₂ = tokensHeld h₁) : Balanced h es h₂ := by
  unfold Balanced at *
  rwa [ht]

/-- Callbacks that add and remove no token, between states that hold the same tokens. -/
theorem balanced_of_held {es : List Event} (ht : tokensHeld h' = tokensHeld h)
    (ha : es.flatMap Event.added = []) (hr : es.flatMap Event.removed = []) :
    Balanced h es h' := by
  unfold Balanced
  rw [ha, hr, ht]

theorem retirePaths_added (r : ℕ) (l : List (Σ _ : ℤ, NewConnID)) :
    (retirePaths r l).2.flatMap Event.added = [] := by
  induction l with
  | nil => rfl
  | cons e rest ih =>
    obtain ⟨id, entry⟩ := e
    simp only [retirePaths]
    split <;> simp [ih, Event.added]

/-- The loop over the paths removes the tokens of the paths it deletes. -/
theorem retirePaths_tokens (r : ℕ) (l : List (Σ _ : ℤ, NewConnID)) :
    ((retirePaths r l).2.flatMap Event.removed ++
      (retirePaths r l).1.map fun entry => entry.2.StatelessResetToken).Perm
      (l.map fun entry => entry.2.StatelessResetToken) := by
  induction l with
  | nil => simp [retirePaths]
  | cons e rest ih =>
    obtain ⟨id, entry⟩ := e
    simp only [retirePaths]
    split
    · simpa [Event.removed] using ih.cons entry.StatelessResetToken
    · simpa using List.perm_middle.trans (ih.cons entry.StatelessResetToken)

theorem retireQueue_added (r : ℕ) (q : List NewConnID) :
    (retireQueue r q).2.flatMap Event.added = [] := by
  induction q with
  | nil => rfl
  | cons entry rest ih =>
    simp only [retireQueue]
    split <;> simp [ih, Event.added]

theorem retireQueue_removed (r : ℕ) (q : List NewConnID) :
    (retireQueue r q).2.flatMap Event.removed = [] := by
  induction q with
  | nil => rfl
  | cons entry rest ih =>
    simp only [retireQueue]
    split <;> simp [ih, Event.removed]

theorem Balanced.retirePathProbing (r : ℕ) :
    Balanced h (h.retirePathProbing r).2 (h.retirePathProbing r).1 := by
  unfold ConnIDManager.retirePathProbing
  split
  · unfold Balanced tokensHeld
    dsimp only
    rw [retirePaths_added, List.nil_append]
    exact (List.perm_append_comm_assoc _ _ _).trans
      ((retirePaths_tokens r _).append_left _)
  · exact balanced_of_held rfl rfl rfl

theorem Balanced.retireQueued (r : ℕ) :
    Balanced h (h.retireQueued r).2 (h.retireQueued r).1 := by
  unfold ConnIDManager.retireQueued
  split
  · exact balanced_of_held rfl (retireQueue_added _ _) (retireQueue_removed _ _)
  · exact balanced_of_held rfl rfl rfl

theorem Balanced.updateConnectionID {r : ConnIDManager × List Event}
    (hu : h.updateConnectionID draw = some r) : Balanced h r.2 r.1 := by
  obtain ⟨front, queue, -, -, rfl⟩ := updateConnectionID_eq_some hu
  unfold Balanced tokensHeld
  cases h.activeStatelessResetToken with
  | none => simp [Event.added, Event.removed]
  | some token =>
    -- the old token is removed, the new one added
    simpa [Event.added, Event.removed] using List.Perm.swap front.StatelessResetToken token _

theorem Balanced.add {f : NewConnectionIDFrame} {es : List Event} {err : Option Error}
    (ha : h.add f draw = some (h', es, err)) : Balanced h es h' := by
  rcases add_eq_some ha with ⟨rfl, rfl | rfl⟩ | ⟨h₁, e₁, h₂, e₂, -, hr₁, hr₂, hcases⟩
  · exact balanced_of_held rfl rfl rfl
  · exact balanced_of_held rfl rfl rfl
  -- the two loops
  have b₂ : Balanced h (e₁ ++ e₂) h₂ := by
    have b₁ := Balanced.retirePathProbing (h := h) f.RetirePriorTo
    have b₁₂ := Balanced.retireQueued (h := h₁) f.RetirePriorTo
    rw [hr₁] at b₁
    rw [hr₂] at b₁₂
    exact b₁.trans b₁₂
  rcases hcases with ⟨-, rfl, rfl⟩ | ⟨-, ⟨rfl, rfl⟩ | ⟨e₄, hu, rfl⟩⟩
  · exact b₂
  · exact b₂.of_held (by simp [tokensHeld])
  · exact (b₂.of_held (by simp [tokensHeld])).trans (Balanced.updateConnectionID hu)

/-- The tokens of the paths, with the one of a path in front, after the path is deleted. -/
theorem tokens_erase {s : AList (fun _ : ℤ => NewConnID)} {a : ℤ} {entry : NewConnID}
    (hl : s.lookup a = some entry) :
    (entry.StatelessResetToken :: (s.erase a).entries.map fun e => e.2.StatelessResetToken).Perm
      (s.entries.map fun e => e.2.StatelessResetToken) := by
  have ha : a ∈ s.entries.keys := AList.mem_keys.mp (AList.lookup_isSome.mp (by simp [hl]))
  obtain ⟨b, l₁, l₂, hn, he, hk⟩ := List.exists_of_kerase ha
  have hb : b = entry := by
    have hlook : s.entries.dlookup a = some entry := hl
    rw [he, List.dlookup_append, List.dlookup_eq_none.mpr hn, List.dlookup_cons_eq] at hlook
    simpa using hlook
  have herase : (s.erase a).entries = l₁ ++ l₂ := hk
  rw [herase, he, hb]
  simpa using List.perm_middle.symm

theorem Balanced.of_step {c : Call} {out : Output} (hc : c.InUse)
    (hs : step h c = some (h', out)) : Balanced h out.events h' := by
  cases c with
  | Add f draw =>
    obtain ⟨r, hr, he⟩ := Option.map_eq_some_iff.mp hs
    cases he
    obtain ⟨err, hadd⟩ := add_of_Add hr
    exact Balanced.add hadd
  | Get draw =>
    obtain ⟨r, hr, he⟩ := Option.map_eq_some_iff.mp hs
    cases he
    unfold Get at hr
    split_ifs at hr
    · obtain ⟨r', hr', he⟩ := Option.map_eq_some_iff.mp hr
      cases he
      exact Balanced.updateConnectionID hr'
    · cases hr
      exact balanced_of_held rfl rfl rfl
  | SentPacket =>
    cases hs
    exact balanced_of_held rfl rfl rfl
  | SetHandshakeComplete =>
    cases hs
    exact balanced_of_held rfl rfl rfl
  | GetConnIDForPath id =>
    obtain ⟨r, hr, he⟩ := Option.map_eq_some_iff.mp hs
    cases he
    unfold GetConnIDForPath at hr
    split_ifs at hr
    · cases hr
      exact balanced_of_held rfl rfl rfl
    split at hr
    · cases hr
      exact balanced_of_held rfl rfl rfl
    · rename_i hnone
      split at hr
      · cases hr
        exact balanced_of_held rfl rfl rfl
      · -- the path takes the front of the queue, with its token
        rename_i front queue _
        cases hr
        unfold Balanced tokensHeld
        rw [AList.entries_insert_of_notMem (AList.lookup_eq_none.mp hnone)]
        simp [Event.added, Event.removed]
  | RetireConnIDForPath pathID =>
    obtain ⟨r, hr, he⟩ := Option.map_eq_some_iff.mp hs
    cases he
    unfold RetireConnIDForPath at hr
    split_ifs at hr
    · cases hr
      exact balanced_of_held rfl rfl rfl
    split at hr
    · cases hr
      exact balanced_of_held rfl rfl rfl
    · -- the path is deleted, with its token
      rename_i entry hl
      cases hr
      unfold Balanced tokensHeld
      simpa [Event.added, Event.removed] using
        List.perm_middle.symm.trans ((tokens_erase hl).append_left _)
  | _ => exact absurd hc id

theorem QueueInv.of_step (hi : QueueInv h) {c : Call} {out : Output} (hc : c.InUse)
    (hs : step h c = some (h', out)) : QueueInv h' := by
  cases c with
  | Add f draw =>
    obtain ⟨r, hr, he⟩ := Option.map_eq_some_iff.mp hs
    cases he
    obtain ⟨err, hadd⟩ := add_of_Add hr
    exact hi.add hadd
  | Get draw =>
    obtain ⟨r, hr, he⟩ := Option.map_eq_some_iff.mp hs
    cases he
    unfold Get at hr
    split_ifs at hr
    · obtain ⟨r', hr', he⟩ := Option.map_eq_some_iff.mp hr
      cases he
      exact hi.updateConnectionID hr'
    · cases hr
      exact hi
  | SentPacket => cases hs; exact ⟨hi.ordered, hi.above⟩
  | SetHandshakeComplete => cases hs; exact ⟨hi.ordered, hi.above⟩
  | GetConnIDForPath id =>
    obtain ⟨r, hr, he⟩ := Option.map_eq_some_iff.mp hs
    cases he
    unfold GetConnIDForPath at hr
    split_ifs at hr
    · cases hr; exact hi
    split at hr
    · cases hr; exact hi
    split at hr
    · cases hr; exact hi
    · -- the path takes the front of the queue
      rename_i front queue hq
      cases hr
      refine hi.of_sublist (h := h) ?_ rfl
      rw [hq]
      exact List.sublist_cons_self _ _
  | RetireConnIDForPath pathID =>
    obtain ⟨r, hr, he⟩ := Option.map_eq_some_iff.mp hs
    cases he
    unfold RetireConnIDForPath at hr
    split_ifs at hr
    · cases hr; exact hi
    split at hr
    · cases hr; exact hi
    · cases hr; exact ⟨hi.ordered, hi.above⟩
  | _ => exact absurd hc id

/-! ## Over every run -/

theorem queueInv_newConnIDManager (c : ConnectionID) : QueueInv (newConnIDManager c) :=
  ⟨List.Pairwise.nil, fun _ he => absurd he List.not_mem_nil⟩

/-- **The queue over every run**: ordered strictly by sequence number, and above the active
connection ID. -/
theorem queueInv_of_run (initialDestConnID : ConnectionID) {calls : List Call}
    {outs : List Output}
    (hrun : Machine.run step (newConnIDManager initialDestConnID) calls = some (h, outs))
    (hcalls : ∀ c ∈ calls, c.InUse) : QueueInv h := by
  have := Machine.run_induction_of Call.InUse (fun _ => True) (fun s _ _ => QueueInv s)
    (fun _ _ _ _ _ _ hi hc _ hs => hi.of_step hc hs) [] [] (queueInv_newConnIDManager _)
    hcalls (fun _ _ => trivial) hrun
  exact this

/-- **The tokens over every run**: the tokens removed, and those of the active connection ID
and of the paths, are the tokens added. -/
theorem tokens_of_run (initialDestConnID : ConnectionID) {calls : List Call}
    {outs : List Output}
    (hrun : Machine.run step (newConnIDManager initialDestConnID) calls = some (h, outs))
    (hcalls : ∀ c ∈ calls, c.InUse) :
    ((outs.flatMap Output.events).flatMap Event.removed ++ tokensHeld h).Perm
      ((outs.flatMap Output.events).flatMap Event.added) := by
  have := Machine.run_induction_of Call.InUse (fun _ => True)
    (fun s _ out => Balanced (newConnIDManager initialDestConnID) (out.flatMap Output.events) s)
    (fun _ _ out _ _ b hb hc _ hs => by
      rw [List.flatMap_append, List.flatMap_singleton]
      exact hb.trans (Balanced.of_step hc hs))
    [] [] (balanced_of_held rfl rfl rfl) hcalls (fun _ _ => trivial) hrun
  simpa [Balanced, tokensHeld, newConnIDManager] using this

/-! ## A retransmitted frame re-enters the queue -/

/-- The connection ID of the handshake. -/
def initialConnID : ConnectionID := ⟨[1], by decide⟩

/-- The peer's connection ID with sequence number 1, and its token. -/
def pathConnID : ConnectionID := ⟨[2], by decide⟩

def pathToken : StatelessResetToken := Vector.replicate 16 2

/-- The NEW_CONNECTION_ID frame of `pathConnID`, which the peer sends twice. -/
def pathFrame : NewConnectionIDFrame := ⟨1, 0, pathConnID, pathToken⟩

def draw₀ : Fin PacketsPerConnectionID := ⟨0, by decide⟩

/-- A retransmission of the frame that issued the connection ID of a path queues that
connection ID again, so that the path and the queue both hold sequence number 1; and after the
path is abandoned, which retires sequence number 1, the retransmission makes it the active
connection ID at the next `Get`. -/
theorem retransmitted_frame_requeues_connID :
    pathFrame.Parsed ∧
    (Machine.run step (newConnIDManager initialConnID)
        [.Add pathFrame draw₀, .GetConnIDForPath 1, .Add pathFrame draw₀]).map
        (fun r => (r.1.queue.map NewConnID.SequenceNumber,
          (r.1.pathProbing.lookup 1).map NewConnID.SequenceNumber)) = some ([1], some 1) ∧
    (Machine.run step (newConnIDManager initialConnID)
        [.Add pathFrame draw₀, .GetConnIDForPath 1, .RetireConnIDForPath 1,
          .Add pathFrame draw₀, .SetHandshakeComplete, .Get draw₀]).map
        (fun r => (r.1.activeSequenceNumber, r.2)) =
      some (1, [⟨[], .error none⟩,
        ⟨[.addStatelessResetToken pathToken], .connIDForPath pathConnID true⟩,
        ⟨[.queueControlFrame ⟨1⟩, .removeStatelessResetToken pathToken], .unit⟩,
        ⟨[], .error none⟩, ⟨[], .unit⟩,
        ⟨[.queueControlFrame ⟨0⟩, .addStatelessResetToken pathToken],
          .connectionID pathConnID⟩]) := by
  refine ⟨by decide, by decide, by decide⟩

end ConnIDManager

end QuicGo
