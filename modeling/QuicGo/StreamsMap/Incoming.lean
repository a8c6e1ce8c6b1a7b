import Mathlib.Data.List.AList
import Mathlib.Data.List.Range
import QuicGo.Protocol

/-!
# QuicGo — the map of streams the peer opens (`streams_map_incoming.go`)

An `incomingStreamsMap` holds the streams of one type (bidirectional or unidirectional) that
the peer opens. Opening a stream opens every lower stream of the type that is not open yet;
the application accepts the streams in order; a stream is deleted when it is done, but one
that was not accepted yet is only marked, and deleted when it is accepted. Deleting a stream
raises the limit `maxStream` the peer may open up to, and queues a MAX_STREAMS frame with it.

Stream IDs of one type are `first`, `first + 4`, …; `idsBetween a b` lists those from `a` up
to `b`. The map's type parameter `T` is the stream; `newStream` builds one.

The bricks:

* `idsBetween_append`, `length_idsBetween`, `mem_idsBetween` — the stream IDs of one type;
* `openStreams_snd`, `keys_openStreams` — the loop of `GetOrOpenStream` opens exactly the IDs
  from `nextStreamToOpen` up to the requested one, each a new key of the map;
* `GetOrOpenStream_err` — it returns an error, `StreamLimitError`, exactly for IDs above
  `maxStream`.
-/

namespace QuicGo

namespace StreamsMap

/-- `incomingStreamEntry`: a stream, and whether it was deleted before it was accepted. -/
structure IncomingStreamEntry (T : Type*) where
  stream : T
  shouldDelete : Bool

/-- `wire.MaxStreamsFrame`; its field `Type` is `streamType` here, `Type` being a keyword. -/
structure MaxStreamsFrame where
  streamType : StreamType
  MaxStreamNum : ℤ
  deriving DecidableEq, Repr

/-- `incomingStreamsMap`, without the mutex, the channel that wakes `AcceptStream` and the
error it was closed with. -/
structure IncomingStreamsMap (T : Type*) where
  streamType : StreamType
  streams : AList (fun _ : ℤ => IncomingStreamEntry T)
  nextStreamToAccept : ℤ
  nextStreamToOpen : ℤ
  maxStream : ℤ
  maxNumStreams : ℕ
  newStream : ℤ → T

variable {T : Type*}

/-- `newIncomingStreamsMap`. -/
def newIncomingStreamsMap (streamType : StreamType) (newStream : ℤ → T) (maxStreams : ℕ)
    (pers : Perspective) : IncomingStreamsMap T :=
  let nextStreamToAccept : ℤ :=
    match streamType, pers with
    | .StreamTypeBidi, .PerspectiveServer => FirstIncomingBidiStreamServer
    | .StreamTypeBidi, .PerspectiveClient => FirstIncomingBidiStreamClient
    | .StreamTypeUni, .PerspectiveServer => FirstIncomingUniStreamServer
    | .StreamTypeUni, .PerspectiveClient => FirstIncomingUniStreamClient
  ⟨streamType, ∅, nextStreamToAccept, nextStreamToAccept,
    StreamNum.StreamID maxStreams streamType pers.Opposite, maxStreams, newStream⟩

namespace IncomingStreamsMap

/-- The loop of `GetOrOpenStream` (lines 148-154): a new stream for every ID from `newNum` up
to `id` in steps of 4, and the IDs passed to `newStream`. -/
def openStreams (newStream : ℤ → T) (id : ℤ) (streams : AList (fun _ : ℤ => IncomingStreamEntry T))
    (newNum : ℤ) : AList (fun _ : ℤ => IncomingStreamEntry T) × List ℤ :=
  if newNum ≤ id then
    let r := openStreams newStream id (streams.insert newNum ⟨newStream newNum, false⟩) (newNum + 4)
    (r.1, newNum :: r.2)
  else (streams, [])
termination_by (id + 4 - newNum).toNat
decreasing_by omega

/-- `incomingStreamsMap.GetOrOpenStream`: the new state, the stream (`nil` for a stream that
was deleted), the error, and the IDs of the streams it opened. -/
def GetOrOpenStream (m : IncomingStreamsMap T) (id : ℤ) :
    IncomingStreamsMap T × Option T × Option TransportError × List ℤ :=
  if id > m.maxStream then
    (m, none, some ⟨.StreamLimitError, "peer tried to open stream " ++ toString id ++
      " (current limit: " ++ toString m.maxStream ++ ")"⟩, [])
  -- a stream below the highest one opened exists, or was deleted already
  else if id < m.nextStreamToOpen then
    let s :=
      match m.streams.lookup id with
      | some entry => if !entry.shouldDelete then some entry.stream else none
      | none => none
    (m, s, none, [])
  else
    let r := openStreams m.newStream id m.streams m.nextStreamToOpen
    let m := { m with streams := r.1, nextStreamToOpen := id + 4 }
    (m, (m.streams.lookup id).map (·.stream), none, r.2)

/-- `incomingStreamsMap.deleteStream`: a stream that was not accepted yet is only marked; an
accepted one is deleted, and the peer may open one more stream, announced in the MAX_STREAMS
frame returned, as long as the new limit is a valid stream ID. -/
def deleteStream (m : IncomingStreamsMap T) (id : ℤ) :
    Except String (IncomingStreamsMap T × Option MaxStreamsFrame) :=
  match m.streams.lookup id with
  | none => .error ("tried to delete unknown incoming stream " ++ toString id)
  | some entry =>
    if id ≥ m.nextStreamToAccept then
      if entry.shouldDelete then
        .error ("tried to delete incoming stream " ++ toString id ++ " multiple times")
      else .ok ({ m with streams := m.streams.insert id { entry with shouldDelete := true } }, none)
    else
      let m := { m with streams := m.streams.erase id }
      if m.maxNumStreams > m.streams.keys.length then
        let maxStream := m.nextStreamToOpen +
          4 * ((m.maxNumStreams - m.streams.keys.length - 1 : ℕ) : ℤ)
        -- never send a value larger than the maximum value for a stream number
        if maxStream ≤ MaxStreamID then
          .ok ({ m with maxStream := maxStream },
            some ⟨m.streamType, StreamID.StreamNum maxStream⟩)
        else .ok (m, none)
      else .ok (m, none)

/-- `incomingStreamsMap.AcceptStream`: the next stream in order, `none` while it was not
opened (the code then waits, and returns the context's error once it is done), and the
MAX_STREAMS frame of its deletion if it had been deleted before. -/
def AcceptStream (m : IncomingStreamsMap T) :
    IncomingStreamsMap T × Option (Except String T) × Option MaxStreamsFrame :=
  let id := m.nextStreamToAccept
  match m.streams.lookup id with
  | none => (m, none, none)
  | some entry =>
    let m := { m with nextStreamToAccept := m.nextStreamToAccept + 4 }
    -- a stream completed before it was accepted is deleted now
    if entry.shouldDelete then
      match m.deleteStream id with
      | .error err => (m, some (.error err), none)
      | .ok (m, f) => (m, some (.ok entry.stream), f)
    else (m, some (.ok entry.stream), none)

/-- `incomingStreamsMap.DeleteStream`. -/
def DeleteStream (m : IncomingStreamsMap T) (id : ℤ) :
    IncomingStreamsMap T × Option TransportError × Option MaxStreamsFrame :=
  match m.deleteStream id with
  | .error err => (m, some ⟨.StreamStateError, err⟩, none)
  | .ok (m, f) => (m, none, f)

/-! ## Stream IDs of one type -/

/-- The stream IDs `a`, `a + 4`, … up to `b`. -/
def idsBetween (a b : ℤ) : List ℤ :=
  (List.range ((b - a) / 4 + 1).toNat).map (fun j : ℕ => a + 4 * (j : ℤ))

@[simp] theorem length_idsBetween (a b : ℤ) :
    (idsBetween a b).length = ((b - a) / 4 + 1).toNat := by
  simp [idsBetween]

theorem mem_idsBetween {a b x : ℤ} : x ∈ idsBetween a b ↔ a ≤ x ∧ x ≤ b ∧ (x - a) % 4 = 0 := by
  simp only [idsBetween, List.mem_map, List.mem_range]
  constructor
  · rintro ⟨j, hj, rfl⟩
    omega
  · rintro ⟨h₁, h₂, h₃⟩
    exact ⟨((x - a) / 4).toNat, by omega, by omega⟩

/-- The IDs come in increasing order, so each one once. -/
theorem pairwise_idsBetween (a b : ℤ) : (idsBetween a b).Pairwise (· < ·) := by
  unfold idsBetween
  rw [List.pairwise_map]
  exact (List.pairwise_lt_range).imp fun h => by omega

theorem idsBetween_of_lt {a b : ℤ} (h : b < a) : idsBetween a b = [] := by
  rw [← List.length_eq_zero_iff, length_idsBetween]
  omega

theorem idsBetween_cons {a b : ℤ} (h : a ≤ b) : idsBetween a b = a :: idsBetween (a + 4) b := by
  have hlen : ((b - a) / 4 + 1).toNat = ((b - (a + 4)) / 4 + 1).toNat + 1 := by omega
  unfold idsBetween
  rw [hlen, List.range_succ_eq_map, List.map_cons, List.map_map]
  congr 1
  · simp
  · refine List.map_congr_left fun j _ => ?_
    simp only [Function.comp_apply]
    omega

/-- The IDs below `b` and those from `b` on make up all of them. -/
theorem idsBetween_append {a b c : ℤ} (hab : a ≤ b) (hbc : b ≤ c + 4) (hmod : (b - a) % 4 = 0) :
    idsBetween a (b - 4) ++ idsBetween b c = idsBetween a c := by
  -- induction on the number of IDs from `a` below `b`
  obtain ⟨k, hk⟩ : ∃ k : ℕ, b = a + 4 * k := ⟨((b - a) / 4).toNat, by omega⟩
  subst hk
  induction k generalizing a with
  | zero => simp [idsBetween_of_lt (show a - 4 < a by omega)]
  | succ k ih =>
    have e : a + 4 * ((k + 1 : ℕ) : ℤ) = a + 4 + 4 * (k : ℤ) := by push_cast; omega
    rw [e] at hbc ⊢
    rw [idsBetween_cons (show a ≤ a + 4 + 4 * (k : ℤ) - 4 by omega),
      idsBetween_cons (show a ≤ c by omega), List.cons_append,
      ih (a := a + 4) (by omega) hbc (by omega)]

/-! ## The loop of `GetOrOpenStream` -/

theorem openStreams_of_le {f : ℤ → T} {id : ℤ} {streams : AList (fun _ : ℤ => IncomingStreamEntry T)}
    {newNum : ℤ} (h : newNum ≤ id) :
    openStreams f id streams newNum =
      ((openStreams f id (streams.insert newNum ⟨f newNum, false⟩) (newNum + 4)).1,
        newNum :: (openStreams f id (streams.insert newNum ⟨f newNum, false⟩) (newNum + 4)).2) := by
  rw [openStreams, if_pos h]

theorem openStreams_of_lt {f : ℤ → T} {id : ℤ} {streams : AList (fun _ : ℤ => IncomingStreamEntry T)}
    {newNum : ℤ} (h : id < newNum) : openStreams f id streams newNum = (streams, []) := by
  rw [openStreams, if_neg (by omega)]

theorem openStreams_snd (f : ℤ → T) (id : ℤ) (streams : AList (fun _ : ℤ => IncomingStreamEntry T))
    (newNum : ℤ) : (openStreams f id streams newNum).2 = idsBetween newNum id := by
  fun_induction openStreams f id streams newNum with
  | case1 streams newNum h r ih =>
    rw [idsBetween_cons h, ← ih]
  | case2 streams newNum h =>
    rw [idsBetween_of_lt (by omega)]

/-- Every stream the loop opens is a new key, put in front of the old ones. -/
theorem keys_openStreams (f : ℤ → T) (id : ℤ)
    (streams : AList (fun _ : ℤ => IncomingStreamEntry T)) (newNum : ℤ)
    (hfresh : ∀ k ∈ streams.keys, k < newNum) :
    (openStreams f id streams newNum).1.keys =
      (openStreams f id streams newNum).2.reverse ++ streams.keys := by
  fun_induction openStreams f id streams newNum with
  | case1 streams newNum h r ih =>
    have hnew : newNum ∉ streams.keys := fun hk => by
      have := hfresh newNum hk
      omega
    have hkeys : (streams.insert newNum ⟨f newNum, false⟩).keys = newNum :: streams.keys := by
      rw [AList.keys_insert, List.erase_of_not_mem hnew]
    rw [ih (fun k hk => by
      rw [hkeys] at hk
      rcases List.mem_cons.mp hk with rfl | hk
      · omega
      · have := hfresh k hk
        omega), hkeys]
    simp only [List.reverse_cons, List.append_assoc, List.singleton_append]
    rfl
  | case2 streams newNum h => simp

/-- **`GetOrOpenStream` fails exactly for the IDs above `maxStream`**, with a
`STREAM_LIMIT_ERROR`. -/
theorem GetOrOpenStream_err (m : IncomingStreamsMap T) (id : ℤ) :
    (m.GetOrOpenStream id).2.2.1.map (·.ErrorCode) =
      if m.maxStream < id then some .StreamLimitError else none := by
  unfold GetOrOpenStream
  split_ifs <;> rfl

end IncomingStreamsMap

end StreamsMap

end QuicGo
