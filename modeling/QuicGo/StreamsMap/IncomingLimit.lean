import QuicGo.StreamsMap.Incoming
import QuicGo.Lib.Run

/-!
# QuicGo — the stream limit of the incoming streams map over a run

The map is driven by `GetOrOpenStream` for every stream frame of its type the peer sends, by
`AcceptStream` from the application, and by `DeleteStream` when a stream is done. This module
makes it a machine in the sense of `QuicGo.Lib.Run` and checks the limit on the peer's streams
along every run.

The bricks:

* `Inv` — the IDs line up with the first ID `first` of the type, every stream in the map was
  opened, and the streams in the map plus the IDs the peer may still open are at most
  `maxNumStreams`;
* `Inv.of_deleteStream`, `Inv.of_GetOrOpenStream`, `Inv.of_AcceptStream` — each call keeps it,
  never lowers `maxStream`, and queues the stream count of the new `maxStream`;
* `incoming_stream_limit` — over every run from `newIncomingStreamsMap`.
-/

namespace QuicGo

namespace StreamsMap

namespace IncomingStreamsMap

variable {T : Type*}

/-- The invariant of the map, for the streams `first`, `first + 4`, … of its type. -/
structure Inv (first : ℤ) (m : IncomingStreamsMap T) : Prop where
  first_nonneg : 0 ≤ first
  first_le_accept : first ≤ m.nextStreamToAccept
  accept_mod : (m.nextStreamToAccept - first) % 4 = 0
  accept_le_open : m.nextStreamToAccept ≤ m.nextStreamToOpen
  open_mod : (m.nextStreamToOpen - first) % 4 = 0
  keys_lt : ∀ k ∈ m.streams.keys, k < m.nextStreamToOpen
  count : m.streams.keys.length + (idsBetween m.nextStreamToOpen m.maxStream).length ≤
    m.maxNumStreams
  maxStream_le : m.maxStream ≤ MaxStreamID

/-- `StreamNum` is monotone: a higher limit announces a higher stream count. -/
theorem StreamNum_le_StreamNum {a b : ℤ} (h : a ≤ b) :
    StreamID.StreamNum a ≤ StreamID.StreamNum b := by
  have := Int.tdiv_le_tdiv (show (0 : ℤ) < 4 by decide) h
  unfold StreamID.StreamNum
  omega

/-- A limit that is a stream ID announces at most `MaxStreamCount` streams. -/
theorem StreamNum_le_MaxStreamCount {a : ℤ} (h : a ≤ MaxStreamID) :
    StreamID.StreamNum a ≤ MaxStreamCount := by
  have hmax : StreamID.StreamNum MaxStreamID = MaxStreamCount := by decide
  exact hmax ▸ StreamNum_le_StreamNum h

variable {first : ℤ} {m m' : IncomingStreamsMap T}

/-! ## `deleteStream` -/

/-- A key of the map lies below `nextStreamToOpen`, on the IDs of the type. -/
theorem Inv.lookup_lt (hi : Inv first m) {id : ℤ} {e : IncomingStreamEntry T}
    (h : m.streams.lookup id = some e) : id < m.nextStreamToOpen :=
  hi.keys_lt id (AList.mem_keys.mp (AList.lookup_isSome.mp (by simp [h])))

theorem length_keys_erase {s : AList (fun _ : ℤ => IncomingStreamEntry T)} {id : ℤ}
    {e : IncomingStreamEntry T} (h : s.lookup id = some e) :
    (s.erase id).keys.length + 1 = s.keys.length := by
  have hk : id ∈ s.keys := AList.mem_keys.mp (AList.lookup_isSome.mp (by simp [h]))
  rw [AList.keys_erase, List.length_erase_of_mem hk]
  have := List.length_pos_of_mem hk
  omega

theorem keys_insert_of_lookup {s : AList (fun _ : ℤ => IncomingStreamEntry T)} {id : ℤ}
    {e f : IncomingStreamEntry T} (h : s.lookup id = some e) :
    (s.insert id f).keys.length = s.keys.length ∧ ∀ k ∈ (s.insert id f).keys, k ∈ s.keys := by
  have hk : id ∈ s.keys := AList.mem_keys.mp (AList.lookup_isSome.mp (by simp [h]))
  rw [AList.keys_insert]
  refine ⟨?_, fun k hk' => ?_⟩
  · rw [List.length_cons, List.length_erase_of_mem hk]
    have := List.length_pos_of_mem hk
    omega
  · rcases List.mem_cons.mp hk' with rfl | hk'
    · exact hk
    · exact List.mem_of_mem_erase hk'

/-- Replacing the streams by no more of the same keys keeps the invariant. -/
theorem Inv.with_streams (hi : Inv first m) {streams : AList (fun _ : ℤ => IncomingStreamEntry T)}
    (hkeys : ∀ k ∈ streams.keys, k ∈ m.streams.keys)
    (hlen : streams.keys.length ≤ m.streams.keys.length) :
    Inv first { m with streams := streams } :=
  ⟨hi.first_nonneg, hi.first_le_accept, hi.accept_mod, hi.accept_le_open, hi.open_mod,
    fun k hk => hi.keys_lt k (hkeys k hk), Nat.le_trans (Nat.add_le_add_right hlen _) hi.count,
    hi.maxStream_le⟩

/-- Deleting one stream and raising the limit so that the peer may open exactly one stream
for each free place keeps the invariant, and raises the limit. -/
theorem Inv.raise (hi : Inv first m) {streams : AList (fun _ : ℤ => IncomingStreamEntry T)}
    (hkeys : ∀ k ∈ streams.keys, k ∈ m.streams.keys)
    (hlen : streams.keys.length + 1 = m.streams.keys.length)
    (hmax : m.nextStreamToOpen + 4 * ((m.maxNumStreams - streams.keys.length - 1 : ℕ) : ℤ) ≤
      MaxStreamID) :
    Inv first
        { m with
            streams := streams
            maxStream := m.nextStreamToOpen +
              4 * ((m.maxNumStreams - streams.keys.length - 1 : ℕ) : ℤ) } ∧
      m.maxStream ≤ m.nextStreamToOpen +
        4 * ((m.maxNumStreams - streams.keys.length - 1 : ℕ) : ℤ) := by
  have hcount := hi.count
  simp only [length_idsBetween] at hcount
  refine ⟨⟨hi.first_nonneg, hi.first_le_accept, hi.accept_mod, hi.accept_le_open, hi.open_mod,
    fun k hk => hi.keys_lt k (hkeys k hk), ?_, hmax⟩, ?_⟩
  · -- the new limit leaves exactly the free places to the peer
    show streams.keys.length + (idsBetween m.nextStreamToOpen _).length ≤ m.maxNumStreams
    simp only [length_idsBetween]
    omega
  · -- the old limit left the peer at most the places that were free before
    omega

theorem keys_erase_sub (s : AList (fun _ : ℤ => IncomingStreamEntry T)) (id : ℤ) :
    ∀ k ∈ (s.erase id).keys, k ∈ s.keys := fun k hk => by
  rw [AList.keys_erase] at hk
  exact List.mem_of_mem_erase hk

/-- **`deleteStream` keeps the invariant**: marking a stream changes no count; deleting an
accepted one frees a place, and the new limit gives the peer exactly that place, so it is at
least the old one. -/
theorem Inv.of_deleteStream (hi : Inv first m) {id : ℤ} {f : Option MaxStreamsFrame}
    (h : m.deleteStream id = .ok (m', f)) :
    Inv first m' ∧ m.maxStream ≤ m'.maxStream ∧
      (∀ fr ∈ f, fr.MaxStreamNum = StreamID.StreamNum m'.maxStream) ∧
      m'.nextStreamToOpen = m.nextStreamToOpen ∧ m'.nextStreamToAccept = m.nextStreamToAccept := by
  unfold deleteStream at h
  split at h
  · cases h
  · rename_i e he
    dsimp only at h
    have hlen := length_keys_erase he
    -- the branches that return an error are refuted by `h`
    split_ifs at h with h₁ h₂ h₃ h₄
    · -- not accepted yet: the stream is only marked
      cases h
      obtain ⟨hlen', hmem⟩ := keys_insert_of_lookup (f := { e with shouldDelete := true }) he
      exact ⟨hi.with_streams hmem hlen'.le, Int.le_refl _, by simp, rfl, rfl⟩
    · -- deleted, and the limit raised to give the peer the freed place
      cases h
      obtain ⟨hi', hle⟩ := hi.raise (keys_erase_sub m.streams id) hlen h₄
      exact ⟨hi', hle, by simp, rfl, rfl⟩
    · -- deleted; the new limit would not be a stream ID, so the old one stays
      cases h
      exact ⟨hi.with_streams (keys_erase_sub m.streams id) (by omega), Int.le_refl _, by simp,
        rfl, rfl⟩
    · cases h
      exact ⟨hi.with_streams (keys_erase_sub m.streams id) (by omega), Int.le_refl _, by simp,
        rfl, rfl⟩

/-! ## `GetOrOpenStream` and `AcceptStream` -/

/-- **Opening a stream of the type keeps the invariant**: the streams it opens move from the
IDs the peer may still open into the map, and they are the next ones after those opened
before. -/
theorem Inv.of_GetOrOpenStream (hi : Inv first m) {id : ℤ} (hmod : (id - first) % 4 = 0) :
    Inv first (m.GetOrOpenStream id).1 ∧ (m.GetOrOpenStream id).1.maxStream = m.maxStream ∧
      idsBetween first (m.nextStreamToOpen - 4) ++ (m.GetOrOpenStream id).2.2.2 =
        idsBetween first ((m.GetOrOpenStream id).1.nextStreamToOpen - 4) := by
  unfold GetOrOpenStream
  split_ifs with h₁ h₂
  · exact ⟨hi, rfl, List.append_nil _⟩
  · exact ⟨hi, rfl, List.append_nil _⟩
  · -- the streams from `nextStreamToOpen` up to `id` are opened
    dsimp only
    have hkeys := keys_openStreams m.newStream id m.streams m.nextStreamToOpen hi.keys_lt
    rw [openStreams_snd] at hkeys ⊢
    have hcount := hi.count
    have hacc := hi.accept_le_open
    have hfa := hi.first_le_accept
    have hopen := hi.open_mod
    simp only [length_idsBetween] at hcount
    refine ⟨⟨hi.first_nonneg, hi.first_le_accept, hi.accept_mod,
      show m.nextStreamToAccept ≤ id + 4 by omega, show (id + 4 - first) % 4 = 0 by omega,
      fun k hk => show k < id + 4 from ?_, ?_, hi.maxStream_le⟩, rfl, ?_⟩
    · rw [hkeys, List.mem_append, List.mem_reverse, mem_idsBetween] at hk
      rcases hk with hk | hk
      · omega
      · have := hi.keys_lt k hk
        omega
    · show (openStreams m.newStream id m.streams m.nextStreamToOpen).1.keys.length +
        (idsBetween (id + 4) m.maxStream).length ≤ m.maxNumStreams
      rw [hkeys, List.length_append, List.length_reverse, length_idsBetween, length_idsBetween]
      omega
    · rw [show id + 4 - 4 = id by omega]
      exact idsBetween_append (by omega) (by omega) hopen

/-- `AcceptStream` never accepts past the streams opened: the stream it accepts is in the map. -/
theorem Inv.accept (hi : Inv first m) {e : IncomingStreamEntry T}
    (h : m.streams.lookup m.nextStreamToAccept = some e) :
    Inv first { m with nextStreamToAccept := m.nextStreamToAccept + 4 } := by
  have hlt := hi.lookup_lt h
  have hacc := hi.accept_mod
  have hopen := hi.open_mod
  have hfa := hi.first_le_accept
  exact ⟨hi.first_nonneg, show first ≤ m.nextStreamToAccept + 4 by omega,
    show (m.nextStreamToAccept + 4 - first) % 4 = 0 by omega,
    show m.nextStreamToAccept + 4 ≤ m.nextStreamToOpen by omega, hi.open_mod, hi.keys_lt, hi.count,
    hi.maxStream_le⟩

/-- **Accepting a stream keeps the invariant**, and so does deleting it if it had been deleted
before. -/
theorem Inv.of_AcceptStream (hi : Inv first m) :
    Inv first m.AcceptStream.1 ∧ m.maxStream ≤ m.AcceptStream.1.maxStream ∧
      (∀ fr ∈ m.AcceptStream.2.2, fr.MaxStreamNum = StreamID.StreamNum m.AcceptStream.1.maxStream) ∧
      m.AcceptStream.1.nextStreamToOpen = m.nextStreamToOpen := by
  unfold AcceptStream
  dsimp only
  split
  · exact ⟨hi, Int.le_refl _, by simp, rfl⟩
  · rename_i e he
    have hi₁ := hi.accept he
    split
    · split
      · exact ⟨hi₁, Int.le_refl _, by simp, rfl⟩
      · rename_i m₂ f hdel
        obtain ⟨hi₂, hle, hf, hopen, -⟩ := hi₁.of_deleteStream hdel
        exact ⟨hi₂, hle, hf, hopen⟩
    · exact ⟨hi₁, Int.le_refl _, by simp, rfl⟩

theorem Inv.of_DeleteStream (hi : Inv first m) (id : ℤ) :
    Inv first (m.DeleteStream id).1 ∧ m.maxStream ≤ (m.DeleteStream id).1.maxStream ∧
      (∀ fr ∈ (m.DeleteStream id).2.2,
        fr.MaxStreamNum = StreamID.StreamNum (m.DeleteStream id).1.maxStream) ∧
      (m.DeleteStream id).1.nextStreamToOpen = m.nextStreamToOpen := by
  unfold DeleteStream
  split
  · exact ⟨hi, Int.le_refl _, by simp, rfl⟩
  · rename_i m₂ f hdel
    obtain ⟨hi₂, hle, hf, hopen, -⟩ := hi.of_deleteStream hdel
    exact ⟨hi₂, hle, hf, hopen⟩

/-! ## The map over a run -/

/-- The calls on the map. -/
inductive Call
  | getOrOpenStream (id : ℤ)
  | acceptStream
  | deleteStream (id : ℤ)
  deriving DecidableEq, Repr

/-- What each call returns; `opened` records the IDs `GetOrOpenStream` passed to
`newStream`, `queued` the MAX_STREAMS frame handed to `queueMaxStreamID`. -/
inductive Output (T : Type*)
  | getOrOpenStream (stream : Option T) (err : Option TransportError) (opened : List ℤ)
  | acceptStream (r : Option (Except String T)) (queued : Option MaxStreamsFrame)
  | deleteStream (err : Option TransportError) (queued : Option MaxStreamsFrame)

/-- The streams a call opened. -/
def Output.opened : Output T → List ℤ
  | .getOrOpenStream _ _ opened => opened
  | _ => []

/-- The stream counts of the MAX_STREAMS frames a call queued. -/
def Output.queued : Output T → List ℤ
  | .getOrOpenStream .. => []
  | .acceptStream _ f => (f.map (·.MaxStreamNum)).toList
  | .deleteStream _ f => (f.map (·.MaxStreamNum)).toList

/-- One call on the map. -/
def step (m : IncomingStreamsMap T) : Call → Option (IncomingStreamsMap T × Output T)
  | .getOrOpenStream id =>
    let r := m.GetOrOpenStream id
    some (r.1, .getOrOpenStream r.2.1 r.2.2.1 r.2.2.2)
  | .acceptStream =>
    let r := m.AcceptStream
    some (r.1, .acceptStream r.2.1 r.2.2)
  | .deleteStream id =>
    let r := m.DeleteStream id
    some (r.1, .deleteStream r.2.1 r.2.2)

/-- The peer opens streams of the map's type only. -/
def Call.OfType (first : ℤ) : Call → Prop
  | .getOrOpenStream id => (id - first) % 4 = 0
  | _ => True

theorem mem_toList_map {f : Option MaxStreamsFrame} {v : ℤ}
    (h : v ∈ (f.map (·.MaxStreamNum)).toList) : ∃ fr ∈ f, v = fr.MaxStreamNum := by
  cases f with
  | none => simp at h
  | some fr => exact ⟨fr, rfl, by simpa using h⟩

/-- **One call keeps the invariant**, never lowers the limit, queues the stream count of the
new limit, and opens the streams that follow those opened before. -/
theorem Inv.of_step (hi : Inv first m) {c : Call} {o : Output T} (hc : c.OfType first)
    (h : step m c = some (m', o)) :
    Inv first m' ∧ m.maxStream ≤ m'.maxStream ∧
      (∀ v ∈ o.queued, v = StreamID.StreamNum m'.maxStream) ∧
      idsBetween first (m.nextStreamToOpen - 4) ++ o.opened =
        idsBetween first (m'.nextStreamToOpen - 4) := by
  cases c with
  | getOrOpenStream id =>
    cases h
    obtain ⟨hi', hmax, hopened⟩ := hi.of_GetOrOpenStream hc
    exact ⟨hi', Int.le_of_eq hmax.symm, by simp [Output.queued], hopened⟩
  | acceptStream =>
    cases h
    obtain ⟨hi', hmax, hf, hopen⟩ := hi.of_AcceptStream
    refine ⟨hi', hmax, fun v hv => ?_, by simp [Output.opened, hopen]⟩
    obtain ⟨fr, hfr, rfl⟩ := mem_toList_map hv
    exact hf fr hfr
  | deleteStream id =>
    cases h
    obtain ⟨hi', hmax, hf, hopen⟩ := hi.of_DeleteStream id
    refine ⟨hi', hmax, fun v hv => ?_, by simp [Output.opened, hopen]⟩
    obtain ⟨fr, hfr, rfl⟩ := mem_toList_map hv
    exact hf fr hfr

/-! ## From the new map -/

/-- The first limit lets the peer open `maxStreams` streams, from the first one of the
type. -/
theorem newIncomingStreamsMap_maxStream (stype : StreamType) (newStream : ℤ → T) (M : ℕ)
    (pers : Perspective) :
    (newIncomingStreamsMap stype newStream M pers).maxStream =
      if M = 0 then InvalidStreamID
      else (newIncomingStreamsMap stype newStream M pers).nextStreamToAccept + 4 * ((M : ℤ) - 1) := by
  cases stype <;> cases pers <;>
    simp [newIncomingStreamsMap, StreamNum.StreamID, Perspective.Opposite,
      FirstIncomingBidiStreamServer, FirstIncomingBidiStreamClient, FirstIncomingUniStreamServer,
      FirstIncomingUniStreamClient, FirstOutgoingBidiStreamClient, FirstOutgoingBidiStreamServer,
      FirstOutgoingUniStreamClient, FirstOutgoingUniStreamServer]

theorem newIncomingStreamsMap_first (stype : StreamType) (newStream : ℤ → T) (M : ℕ)
    (pers : Perspective) :
    0 ≤ (newIncomingStreamsMap stype newStream M pers).nextStreamToAccept ∧
      (newIncomingStreamsMap stype newStream M pers).nextStreamToAccept ≤ 3 := by
  cases stype <;> cases pers <;>
    simp [newIncomingStreamsMap, FirstIncomingBidiStreamServer, FirstIncomingBidiStreamClient,
      FirstIncomingUniStreamServer, FirstIncomingUniStreamClient, FirstOutgoingBidiStreamClient,
      FirstOutgoingBidiStreamServer, FirstOutgoingUniStreamClient, FirstOutgoingUniStreamServer]

/-- The new map holds no stream and opens from the first one it accepts. -/
theorem newIncomingStreamsMap_empty (stype : StreamType) (newStream : ℤ → T) (M : ℕ)
    (pers : Perspective) :
    (newIncomingStreamsMap stype newStream M pers).nextStreamToOpen =
        (newIncomingStreamsMap stype newStream M pers).nextStreamToAccept ∧
      (newIncomingStreamsMap stype newStream M pers).streams.keys = [] ∧
      (newIncomingStreamsMap stype newStream M pers).maxNumStreams = M := by
  cases stype <;> cases pers <;> exact ⟨rfl, rfl, rfl⟩

/-- The new map holds the invariant for its first ID, when `maxStreams` is at most
`MaxStreamCount`, as the configuration ensures. -/
theorem inv_newIncomingStreamsMap (stype : StreamType) (newStream : ℤ → T) {M : ℕ}
    (hM : (M : ℤ) ≤ MaxStreamCount) (pers : Perspective) :
    Inv (newIncomingStreamsMap stype newStream M pers).nextStreamToAccept
      (newIncomingStreamsMap stype newStream M pers) := by
  have hmax := newIncomingStreamsMap_maxStream stype newStream M pers
  have hfirst := newIncomingStreamsMap_first stype newStream M pers
  obtain ⟨hopen, hkeys, hnum⟩ := newIncomingStreamsMap_empty stype newStream M pers
  unfold MaxStreamCount at hM
  refine ⟨hfirst.1, Int.le_refl _, by simp, by omega, by omega, by simp [hkeys], ?_, ?_⟩
  · -- the peer may open exactly `maxStreams` streams
    rw [hkeys, hnum, length_idsBetween, hopen, hmax]
    split
    · simp only [InvalidStreamID, List.length_nil]
      omega
    · simp only [List.length_nil]
      omega
  · -- the last of them is a stream ID, since `maxStreams ≤ 2 ^ 60`
    rw [hmax]
    split
    · simp [InvalidStreamID, MaxStreamID]
    · simp only [MaxStreamID]
      omega

theorem pairwise_le_of_forall_eq {l : List ℤ} {v : ℤ} (h : ∀ x ∈ l, x = v) :
    l.Pairwise (· ≤ ·) := by
  induction l with
  | nil => exact List.Pairwise.nil
  | cons x l ih =>
    refine List.Pairwise.cons (fun y hy => ?_) (ih fun z hz => h z (by simp [hz]))
    have hx := h x (by simp)
    have hy' := h y (by simp [hy])
    omega

/-- **The stream limit over every run.** Along every run from `newIncomingStreamsMap` in which
the peer opens streams of the map's type only, with `maxStreams` at most `MaxStreamCount`: the
streams in the map plus the IDs the peer may still open are at most `maxNumStreams`;
`GetOrOpenStream` fails, with `STREAM_LIMIT_ERROR`, exactly above `maxStream`; `maxStream` is
a stream ID, at least the first one, and no further call lowers it; the stream counts queued in
MAX_STREAMS frames never decrease and never exceed `MaxStreamCount`; and the streams opened are
the IDs of the type below `nextStreamToOpen`, in order, each once. -/
theorem incoming_stream_limit {stype : StreamType} {newStream : ℤ → T} {M : ℕ}
    {pers : Perspective} {calls : List Call} {s : IncomingStreamsMap T} {outs : List (Output T)}
    (hM : (M : ℤ) ≤ MaxStreamCount)
    (hcalls : ∀ c ∈ calls,
      c.OfType (newIncomingStreamsMap stype newStream M pers).nextStreamToAccept)
    (hrun : Machine.run step (newIncomingStreamsMap stype newStream M pers) calls =
      some (s, outs)) :
    s.streams.keys.length + (idsBetween s.nextStreamToOpen s.maxStream).length ≤
        s.maxNumStreams ∧
      (∀ id, (s.GetOrOpenStream id).2.2.1.map (·.ErrorCode) =
        if s.maxStream < id then some .StreamLimitError else none) ∧
      (newIncomingStreamsMap stype newStream M pers).maxStream ≤ s.maxStream ∧
      s.maxStream ≤ MaxStreamID ∧
      (∀ c s' o, c.OfType (newIncomingStreamsMap stype newStream M pers).nextStreamToAccept →
        step s c = some (s', o) → s.maxStream ≤ s'.maxStream) ∧
      (outs.flatMap Output.queued).Pairwise (· ≤ ·) ∧
      (∀ v ∈ outs.flatMap Output.queued, v ≤ MaxStreamCount) ∧
      outs.flatMap Output.opened =
        idsBetween (newIncomingStreamsMap stype newStream M pers).nextStreamToAccept
          (s.nextStreamToOpen - 4) := by
  set m₀ := newIncomingStreamsMap stype newStream M pers
  set first := m₀.nextStreamToAccept
  have hi₀ : Inv first m₀ := inv_newIncomingStreamsMap stype newStream hM pers
  have hopen₀ : m₀.nextStreamToOpen = first := (newIncomingStreamsMap_empty stype newStream M pers).1
  -- the invariant, with the limit, the opened streams and the queued counts so far
  let P : IncomingStreamsMap T → List Call → List (Output T) → Prop := fun m _ out =>
    Inv first m ∧ m₀.maxStream ≤ m.maxStream ∧
      out.flatMap Output.opened = idsBetween first (m.nextStreamToOpen - 4) ∧
      (out.flatMap Output.queued).Pairwise (· ≤ ·) ∧
      ∀ v ∈ out.flatMap Output.queued, v ≤ StreamID.StreamNum m.maxStream
  have hP : P s ([] ++ calls) ([] ++ outs) := by
    refine Machine.run_induction_of (Call.OfType first) (fun _ => True) P ?_ [] []
      ⟨hi₀, Int.le_refl _, ?_, List.Pairwise.nil, by simp⟩ hcalls (fun _ _ => trivial) hrun
    · intro m hist out c m' o ⟨hi, hle, hopened, hsorted, hbound⟩ hc _ hstep
      obtain ⟨hi', hmax, hqueued, hnext⟩ := hi.of_step hc hstep
      have hnum := StreamNum_le_StreamNum hmax
      refine ⟨hi', Int.le_trans hle hmax, ?_, ?_, ?_⟩
      · rw [List.flatMap_append, List.flatMap_singleton, hopened, hnext]
      · rw [List.flatMap_append, List.flatMap_singleton, List.pairwise_append]
        refine ⟨hsorted, pairwise_le_of_forall_eq hqueued, fun a ha b hb => ?_⟩
        rw [hqueued b hb]
        exact Int.le_trans (hbound a ha) hnum
      · intro v hv
        rw [List.flatMap_append, List.flatMap_singleton, List.mem_append] at hv
        rcases hv with hv | hv
        · exact Int.le_trans (hbound v hv) hnum
        · exact Int.le_of_eq (hqueued v hv)
    · rw [List.flatMap_nil, hopen₀, idsBetween_of_lt (by omega)]
  obtain ⟨hi, hle, hopened, hsorted, hbound⟩ := hP
  simp only [List.nil_append] at hopened hsorted hbound
  exact ⟨hi.count, fun id => GetOrOpenStream_err s id, hle, hi.maxStream_le,
    fun c s' o hc hstep => (hi.of_step hc hstep).2.1, hsorted,
    fun v hv => Int.le_trans (hbound v hv) (StreamNum_le_MaxStreamCount hi.maxStream_le),
    hopened⟩

/-- Two streams allowed: the peer opens streams 0 and 4, stream 0 is done before it is
accepted and deleted for good when it is accepted, which lets the peer open stream 8. -/
def twoStreamsCalls : List Call :=
  [.getOrOpenStream 4, .deleteStream 0, .acceptStream, .getOrOpenStream 8]

/-- Where `twoStreamsCalls` ends: streams 4 and 8 open, and the limit raised to 8. -/
def twoStreamsEnd : IncomingStreamsMap ℤ :=
  ⟨.StreamTypeBidi, (((((∅ : AList (fun _ : ℤ => IncomingStreamEntry ℤ)).insert 0 ⟨0, false⟩).insert 4
    ⟨4, false⟩).insert 0 ⟨0, true⟩).erase 0).insert 8 ⟨8, false⟩, 4, 12, 8, 2, fun id => id⟩

/-- What `twoStreamsCalls` returns: the MAX_STREAMS frame raises the count to 3. -/
def twoStreamsOuts : List (Output ℤ) :=
  [.getOrOpenStream (some 4) none [0, 4], .deleteStream none none,
    .acceptStream (some (.ok 0)) (some ⟨.StreamTypeBidi, 3⟩), .getOrOpenStream (some 8) none [8]]

theorem run_twoStreams :
    Machine.run step (newIncomingStreamsMap .StreamTypeBidi (fun id : ℤ => id) 2 .PerspectiveServer)
      twoStreamsCalls = some (twoStreamsEnd, twoStreamsOuts) := by
  simp [twoStreamsCalls, twoStreamsEnd, twoStreamsOuts, Machine.run, step, GetOrOpenStream,
    newIncomingStreamsMap, StreamNum.StreamID, Perspective.Opposite, FirstIncomingBidiStreamServer,
    FirstOutgoingBidiStreamClient, openStreams_of_le, openStreams_of_lt, DeleteStream, deleteStream,
    AcceptStream, MaxStreamID, StreamID.StreamNum, AList.lookup_insert, AList.lookup_insert_ne,
    - AList.insert_empty]

theorem incoming_stream_limit_twoStreams :
    twoStreamsEnd.streams.keys.length +
        (idsBetween twoStreamsEnd.nextStreamToOpen twoStreamsEnd.maxStream).length ≤
        twoStreamsEnd.maxNumStreams ∧
      (∀ id, (twoStreamsEnd.GetOrOpenStream id).2.2.1.map (·.ErrorCode) =
        if twoStreamsEnd.maxStream < id then some .StreamLimitError else none) ∧
      (newIncomingStreamsMap .StreamTypeBidi (fun id : ℤ => id) 2 .PerspectiveServer).maxStream ≤
        twoStreamsEnd.maxStream ∧
      twoStreamsEnd.maxStream ≤ MaxStreamID ∧
      (∀ c s' o, c.OfType
          (newIncomingStreamsMap .StreamTypeBidi (fun id : ℤ => id) 2 .PerspectiveServer).nextStreamToAccept →
        step twoStreamsEnd c = some (s', o) → twoStreamsEnd.maxStream ≤ s'.maxStream) ∧
      (twoStreamsOuts.flatMap Output.queued).Pairwise (· ≤ ·) ∧
      (∀ v ∈ twoStreamsOuts.flatMap Output.queued, v ≤ MaxStreamCount) ∧
      twoStreamsOuts.flatMap Output.opened =
        idsBetween
          (newIncomingStreamsMap .StreamTypeBidi (fun id : ℤ => id) 2 .PerspectiveServer).nextStreamToAccept
          (twoStreamsEnd.nextStreamToOpen - 4) :=
  incoming_stream_limit (by decide)
    (by simp [twoStreamsCalls, Call.OfType, newIncomingStreamsMap, FirstIncomingBidiStreamServer,
      FirstOutgoingBidiStreamClient])
    run_twoStreams

end IncomingStreamsMap

end StreamsMap

end QuicGo
