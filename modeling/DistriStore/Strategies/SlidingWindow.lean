import DistriStore.FileEngine.Chunker
import DistriStore.Lib.Dict
import DistriStore.Lib.Machine
import DistriStore.Network.Protocol
import Mathlib.Algebra.Order.Ring.Rat
import Mathlib.Data.Finset.Card
import Mathlib.Tactic.Linarith

/-!
# The sliding window sender

`strategies/sliding_window.py`: `SlidingWindowSender.send_all` with its two background tasks and
the connection to the peer, as a machine.  The tasks switch at their awaits only, and no block
under `_lock` awaits, so taking the lock never suspends.  The messages in flight in either
direction are part of the state; what the peer answers to a frame is chosen by the label, and
so are failures and the passing of time.

`send_all` fills the window once and then waits: no task sends the next chunk after an
acknowledgement (`_handle_ack` only tests whether there is room), and the sweep, which gives up
on a chunk after `MAX_RETRIES`, never sets `_done`.  So the sender gets stuck exactly for the
lists that do not fit the first window, and with a silent peer it always does
(`never_stuck_iff`).
-/

namespace DistriStore.SlidingWindow

open Lib

/-! ## The sender -/

def maxWindowSize : ℕ := 20
def timeoutSeconds : ℚ := 3
def sweepInterval : ℚ := 2
def maxRetries : ℕ := 5

structure UnackedChunk where
  index : ℤ
  chunkHash : String
  data : Bytes
  timestamp : ℚ
  retries : ℕ := 0
  deriving DecidableEq, Repr

/-- What `send_all` returns, without the elapsed time. -/
structure SendStats where
  totalSent : ℕ
  totalAcked : ℕ
  retransmissions : ℕ
  windowSize : ℕ
  deriving DecidableEq, Repr

/-- The arguments of the sender and of `send_all`, which pairs the chunks with their data. -/
structure Config where
  nodeId : String
  fileHash : String
  windowSize : ℕ := maxWindowSize
  chunks : List (ChunkInfo × Bytes)

/-- Where `send_all` is. -/
inductive Main where
  | idle
  /-- In `conn.send`, filling the window. -/
  | sending
  /-- In `_done.wait()`. -/
  | waiting
  | returned (stats : SendStats)
  | raised
  deriving DecidableEq, Repr

/-- Where `_sweep_loop` is. -/
inductive Sweep where
  | off
  | asleep (till : ℚ)
  /-- In `conn.send`, with the rest of `timed_out` to come. -/
  | sending (rest : List ℕ)
  deriving DecidableEq, Repr

/-- The sender, its tasks and its connection. -/
structure State where
  /-- From indices to objects, which are named by their places in `objects`. -/
  unacked : Dict Key ℕ := ∅
  objects : List UnackedChunk := []
  acked : Finset Key := ∅
  sendIdx : ℕ := 0
  done : Bool := false
  main : Main := .idle
  /-- `_ack_listener` is in `conn.receive`. -/
  listening : Bool := false
  sweep : Sweep := .off
  /-- Frames on their way to the peer, and its messages on their way back. -/
  outgoing : List Value := []
  incoming : List Value := []
  /-- `time.monotonic()`. -/
  clock : ℚ := 0

inductive Label where
  /-- `send_all` is called. -/
  | start
  /-- `conn.send` in the fill loop returns, or raises. -/
  | sendDone (ok : Bool)
  /-- `_ack_listener` receives the next message, or `None`. -/
  | receive
  | disconnect
  /-- `_sweep_loop` wakes up, or its `conn.send` is over. -/
  | sweepWake
  | sweepSent
  /-- `_done.wait()` returns. -/
  | finish
  /-- The peer receives the next frame and sends these messages. -/
  | deliver (answers : List Value)
  | tick (d : ℚ)

variable (cfg : Config)

/-- The key under which an index is stored. -/
def indexKey (i : ℤ) : Key := .number i

/-- The message that carries a chunk. -/
def frame (timestamp : ℚ) (index : ℤ) (chunkHash : String) (data : Bytes) : Value :=
  (storeChunkMsg timestamp cfg.nodeId chunkHash data cfg.fileHash).setField "index" (.int index)

/-- `UnackedChunk(index, chunk_hash, data)` at this time. -/
def UnackedChunk.new (info : ChunkInfo) (data : Bytes) (timestamp : ℚ) : UnackedChunk where
  index := info.index
  chunkHash := info.chunkHash
  data := data
  timestamp := timestamp

/-- `_send_chunk` up to its await. -/
def sendChunk (s : State) (info : ChunkInfo) (data : Bytes) : State :=
  { s with
    unacked := s.unacked.set (indexKey info.index) s.objects.length
    objects := s.objects ++ [.new info data s.clock]
    outgoing := s.outgoing ++ [frame cfg s.clock info.index info.chunkHash data]
    main := .sending }

/-- The test of the fill loop and what follows it. -/
def fill (s : State) : State :=
  match cfg.chunks[s.sendIdx]? with
  | none => { s with main := .waiting }
  | some (info, data) =>
    if s.unacked.keys.length < cfg.windowSize then sendChunk cfg s info data
    else { s with main := .waiting }

/-- `_unacked_retries` restricted to `_acked`, counted. -/
def retransmissions (s : State) : ℕ :=
  (s.acked.filter fun k => ((s.unacked.get? k).bind fun i => s.objects[i]?).any
    fun o => 0 < o.retries).card

/-- `_handle_ack`; the loop over the free window is left at once. -/
def handleAck (s : State) (k : Key) : State :=
  { s with
    unacked := s.unacked.erase k
    acked := insert k s.acked
    done := s.done || decide (cfg.chunks.length ≤ (insert k s.acked).card) }

/-- The test of the listener's loop. -/
def listen (s : State) : State :=
  { s with listening := decide (s.acked.card < cfg.chunks.length) }

/-- `_ack_listener` after an exception or a lost connection. -/
def stopListening (s : State) : State := { s with done := true, listening := false }

/-- `_ack_listener` with a message. -/
def onMessage (s : State) (msg : Value) : State :=
  match msg with
  | .nil => stopListening s
  | msg =>
    match msg.getD "type" .nil with
    | .error _ => stopListening s
    | .ok type =>
      if type.isStr "CHUNK_ACK" then
        match msg.getD "index" (.int (-1)) with
        | .error _ => stopListening s
        | .ok index =>
          match index.key? with
          | none => stopListening s
          | some k => listen cfg (handleAck cfg s k)
      else listen cfg s

/-- The test of the sweep's loop: the next sweep, or the end of the task. -/
def endSweep (s : State) : State :=
  { s with sweep := if s.done then .off else .asleep (s.clock + sweepInterval) }

/-- Send the chunk of object `i` once more, with `rest` to follow. -/
def retransmit (s : State) (i : ℕ) (o : UnackedChunk) (rest : List ℕ) : State :=
  { s with
    objects := s.objects.set i { o with retries := o.retries + 1, timestamp := s.clock }
    outgoing := s.outgoing ++ [frame cfg s.clock o.index o.chunkHash o.data]
    sweep := .sending rest }

/-- The loop over `timed_out` up to its next await, or to the end of the sweep. -/
def sweepNext (s : State) : List ℕ → State
  | [] => endSweep s
  | i :: rest =>
    match s.objects[i]? with
    | none => sweepNext s rest
    | some o => if maxRetries ≤ o.retries then sweepNext s rest else retransmit cfg s i o rest

/-- `timed_out`. -/
def timedOut (s : State) : List ℕ :=
  s.unacked.values.filter fun i =>
    (s.objects[i]?).any fun o => timeoutSeconds < s.clock - o.timestamp

def exec (s : State) : Label → Option State
  | .start =>
    if s.main ≠ .idle then none
    else if cfg.chunks = [] then
      some { s with main := .returned ⟨0, 0, 0, cfg.windowSize⟩ }
    else some (fill cfg { s with listening := true, sweep := .asleep (s.clock + sweepInterval) })
  | .sendDone ok =>
    if s.main ≠ .sending then none
    else if ok then some (fill cfg { s with sendIdx := s.sendIdx + 1 })
    else some { s with main := .raised, listening := false, sweep := .off }
  | .receive =>
    match s.listening, s.incoming with
    | true, msg :: rest => some (onMessage cfg { s with incoming := rest } msg)
    | _, _ => none
  | .disconnect => if s.listening then some (stopListening s) else none
  | .sweepWake =>
    match s.sweep with
    | .asleep till => if till ≤ s.clock then some (sweepNext cfg s (timedOut s)) else none
    | _ => none
  | .sweepSent =>
    match s.sweep with
    | .sending rest => some (sweepNext cfg s rest)
    | _ => none
  | .finish =>
    if s.main = .waiting ∧ s.done = true then
      some { s with
        main := .returned ⟨cfg.chunks.length, s.acked.card, retransmissions s, cfg.windowSize⟩
        listening := false
        sweep := .off }
    else none
  | .deliver answers =>
    match s.outgoing with
    | [] => none
    | _ :: rest => some { s with outgoing := rest, incoming := s.incoming ++ answers }
  | .tick d => if 0 ≤ d then some { s with clock := s.clock + d } else none

def machine : Machine State Label where
  init := {}
  exec := exec cfg

@[simp] lemma machine_exec (s : State) (l : Label) : (machine cfg).exec s l = exec cfg s l := rfl

/-! ### What a label says about its step -/

section Exec

variable {cfg : Config} {s t : State}

lemma exec_start (h : exec cfg s .start = some t) :
    s.main = .idle ∧
      (cfg.chunks = [] ∧ t = { s with main := .returned ⟨0, 0, 0, cfg.windowSize⟩ } ∨
        cfg.chunks ≠ [] ∧ t = fill cfg { s with
          listening := true, sweep := .asleep (s.clock + sweepInterval) }) := by
  simp only [exec] at h
  split at h
  · cases h
  · next hidle =>
    rw [not_not] at hidle
    split at h
    · next hnil => exact ⟨hidle, Or.inl ⟨hnil, (Option.some.inj h).symm⟩⟩
    · next hne => exact ⟨hidle, Or.inr ⟨hne, (Option.some.inj h).symm⟩⟩

lemma exec_sendDone {ok : Bool} (h : exec cfg s (.sendDone ok) = some t) :
    s.main = .sending ∧ (ok = true ∧ t = fill cfg { s with sendIdx := s.sendIdx + 1 } ∨
      ok = false ∧ t = { s with main := .raised, listening := false, sweep := .off }) := by
  simp only [exec] at h
  split at h
  · cases h
  · next hsending =>
    rw [not_not] at hsending
    cases ok with
    | true => exact ⟨hsending, Or.inl ⟨rfl, (Option.some.inj h).symm⟩⟩
    | false => exact ⟨hsending, Or.inr ⟨rfl, (Option.some.inj h).symm⟩⟩

lemma exec_receive (h : exec cfg s .receive = some t) :
    ∃ msg rest, s.listening = true ∧ s.incoming = msg :: rest ∧
      t = onMessage cfg { s with incoming := rest } msg := by
  simp only [exec] at h
  split at h
  · next msg rest hlistening hin =>
    exact ⟨msg, rest, hlistening, hin, (Option.some.inj h).symm⟩
  · cases h

lemma exec_disconnect (h : exec cfg s .disconnect = some t) :
    s.listening = true ∧ t = stopListening s := by
  simp only [exec, Option.ite_none_right_eq_some, Option.some.injEq] at h
  exact ⟨h.1, h.2.symm⟩

lemma exec_sweepWake (h : exec cfg s .sweepWake = some t) :
    ∃ till, s.sweep = .asleep till ∧ till ≤ s.clock ∧ t = sweepNext cfg s (timedOut s) := by
  simp only [exec] at h
  split at h
  · next till hasleep =>
    rw [Option.ite_none_right_eq_some, Option.some.injEq] at h
    exact ⟨till, hasleep, h.1, h.2.symm⟩
  · cases h

lemma exec_sweepSent (h : exec cfg s .sweepSent = some t) :
    ∃ rest, s.sweep = .sending rest ∧ t = sweepNext cfg s rest := by
  simp only [exec] at h
  split at h
  · next rest hsending => exact ⟨rest, hsending, (Option.some.inj h).symm⟩
  · cases h

lemma exec_finish (h : exec cfg s .finish = some t) :
    s.main = .waiting ∧ s.done = true ∧ t = { s with
      main := .returned ⟨cfg.chunks.length, s.acked.card, retransmissions s, cfg.windowSize⟩
      listening := false
      sweep := .off } := by
  simp only [exec, Option.ite_none_right_eq_some, Option.some.injEq] at h
  obtain ⟨⟨hwaiting, hdone⟩, rfl⟩ := h
  exact ⟨hwaiting, hdone, rfl⟩

lemma exec_deliver {answers : List Value} (h : exec cfg s (.deliver answers) = some t) :
    ∃ f rest, s.outgoing = f :: rest ∧
      t = { s with outgoing := rest, incoming := s.incoming ++ answers } := by
  simp only [exec] at h
  split at h
  · cases h
  · next f rest hout => exact ⟨f, rest, hout, (Option.some.inj h).symm⟩

lemma exec_tick {d : ℚ} (h : exec cfg s (.tick d) = some t) :
    0 ≤ d ∧ t = { s with clock := s.clock + d } := by
  simp only [exec, Option.ite_none_right_eq_some, Option.some.injEq] at h
  exact ⟨h.1, h.2.symm⟩

end Exec

/-! ## The two peers -/

/-- The index that a message carries. -/
def Carries (msg : Value) (i : ℤ) : Prop := msg.getD "index" (.int (-1)) = .ok (.int i)

/-- `msg` acknowledges the chunk with index `i`. -/
def Acknowledges (msg : Value) (i : ℤ) : Prop :=
  msg.getD "type" .nil = .ok (.str "CHUNK_ACK") ∧ Carries msg i

/-- The peer answers every frame with exactly one acknowledgement, and nothing fails. -/
def Acking (s : State) : Label → Prop
  | .deliver answers => ∀ f ∈ s.outgoing.head?, ∀ i, Carries f i →
      ∃ msg, answers = [msg] ∧ Acknowledges msg i
  | .sendDone ok => ok = true
  | .disconnect => False
  | _ => True

/-- The peer never answers, and nothing fails. -/
def Silent (_ : State) : Label → Prop
  | .deliver answers => answers = []
  | .sendDone ok => ok = true
  | .disconnect => False
  | _ => True

/-- Nothing is in flight and no task is about to send. -/
structure Quiescent (s : State) : Prop where
  main : s.main = .waiting ∨ ∃ stats, s.main = .returned stats
  sweep : ∀ rest, s.sweep ≠ .sending rest
  outgoing : s.outgoing = []
  incoming : s.incoming = []

/-- Every chunk was sent and acknowledged, and `_done` is set; `send_all` returns before it sets
up anything when there are no chunks. -/
structure Complete (s : State) : Prop where
  sent : s.sendIdx = cfg.chunks.length
  acked : ∀ c ∈ cfg.chunks, indexKey c.1.index ∈ s.acked
  done : cfg.chunks ≠ [] → s.done = true

/-- With a peer that acknowledges every frame, no quiescent state falls short. -/
def NeverStuck : Prop :=
  ∀ s, (machine cfg).ReachableBy Acking s → Quiescent s → Complete cfg s

/-- Every unacknowledged chunk has used up its retries. -/
def Exhausted (s : State) : Prop :=
  ∀ k i o, s.unacked.get? k = some i → s.objects[i]? = some o → maxRetries ≤ o.retries

/-- With a silent peer `_done` is set once all retries are used up. -/
def GivesUp : Prop :=
  ∀ s, (machine cfg).ReachableBy Silent s → s.main = .waiting → Exhausted s → s.done = true

/-! ## What holds with an acknowledging peer -/

/-- The indices sent so far. -/
def sentIndices (s : State) : List ℤ := s.objects.map UnackedChunk.index

/-- Where each sent chunk is: in a frame, in an acknowledgement, or acknowledged. -/
structure Delivery (s : State) : Prop where
  sent : sentIndices s <+: cfg.chunks.map fun c => c.1.index
  unacked : ∀ k ∈ s.unacked.keys, k ∈ (sentIndices s).map indexKey
  acked : ∀ k ∈ s.acked, k ∈ (sentIndices s).map indexKey
  outgoing : ∀ f ∈ s.outgoing, ∃ i ∈ sentIndices s, Carries f i
  incoming : ∀ msg ∈ s.incoming, ∃ i ∈ sentIndices s, Acknowledges msg i
  settled : ∀ i ∈ sentIndices s, indexKey i ∈ s.acked ∨ (∃ f ∈ s.outgoing, Carries f i) ∨
    ∃ msg ∈ s.incoming, Acknowledges msg i
  done : s.done = true ↔ cfg.chunks ≠ [] ∧ cfg.chunks.length ≤ s.acked.card

/-- The tasks of the sender, with an acknowledging peer. -/
structure Inv (s : State) : Prop extends Delivery cfg s where
  sendIdx : s.objects.length = s.sendIdx + if s.main = .sending then 1 else 0
  full : s.main = .waiting → s.sendIdx < cfg.chunks.length → cfg.windowSize ≤ s.sendIdx
  listening : s.main = .sending ∨ s.main = .waiting → s.acked.card < cfg.chunks.length →
    s.listening = true
  returned : ∀ stats, s.main = .returned stats → cfg.chunks = [] ∨ s.done = true

variable {cfg}

lemma indexKey_injective : Function.Injective indexKey := by
  intro i j h
  exact Rat.intCast_inj.1 (Key.number.inj h)

lemma carries_frame (t : ℚ) (i : ℤ) (h : String) (data : Bytes) :
    Carries (frame cfg t i h data) i := by
  simp [Carries, frame, storeChunkMsg, buildMessage, Value.setField, Value.getD, Value.isStr]

lemma Carries.unique {msg : Value} {i j : ℤ} (hi : Carries msg i) (hj : Carries msg j) : i = j :=
  Value.int.inj (Except.ok.inj (hi.symm.trans hj))

lemma inv_init : Inv cfg {} where
  sent := List.nil_prefix
  unacked k hk := by simp at hk
  acked k hk := by simp at hk
  outgoing f hf := by simp at hf
  incoming msg hmsg := by simp at hmsg
  settled i hi := by simp [sentIndices] at hi
  done := by simp
  sendIdx := rfl
  full h := by simp at h
  listening h := by simp at h
  returned stats h := by simp at h

/-! ### Counting -/

lemma length_sentIndices (s : State) : (sentIndices s).length = s.objects.length :=
  List.length_map ..

lemma Delivery.length_objects_le {s : State} (hs : Delivery cfg s) :
    s.objects.length ≤ cfg.chunks.length := by
  have hlen := hs.sent.length_le
  rwa [length_sentIndices, List.length_map] at hlen

lemma Delivery.length_unacked_le {s : State} (hs : Delivery cfg s) :
    s.unacked.keys.length ≤ s.objects.length := by
  have hlen : s.unacked.keys.length ≤ ((sentIndices s).map indexKey).length :=
    s.unacked.nodupKeys.length_le_of_subset hs.unacked
  rwa [List.length_map (f := indexKey), length_sentIndices] at hlen

lemma Delivery.card_acked_le {s : State} (hs : Delivery cfg s) :
    s.acked.card ≤ s.objects.length := by
  have hsub : s.acked ⊆ ((sentIndices s).map indexKey).toFinset := fun k hk =>
    List.mem_toFinset.2 (hs.acked k hk)
  have hlen := (Finset.card_le_card hsub).trans (List.toFinset_card_le _)
  rwa [List.length_map, length_sentIndices] at hlen

/-! ### The fill loop -/

lemma append_prefix {α : Type} {l m : List α} {x : α} (h : l <+: m) (hx : m[l.length]? = some x) :
    l ++ [x] <+: m := by
  obtain ⟨t, rfl⟩ := h
  rw [List.getElem?_append_right (Nat.le_refl _), Nat.sub_self] at hx
  obtain ⟨t', rfl⟩ : ∃ t', t = x :: t' := by
    cases t with
    | nil => simp at hx
    | cons y t' => exact ⟨t', by simpa using hx⟩
  exact ⟨t', by simp⟩

lemma delivery_sendChunk {s : State} {info : ChunkInfo} {data : Bytes} (hs : Delivery cfg s)
    (hc : cfg.chunks[s.objects.length]? = some (info, data)) :
    Delivery cfg (sendChunk cfg s info data) := by
  have hidx : sentIndices (sendChunk cfg s info data) = sentIndices s ++ [info.index] := by
    simp [sentIndices, sendChunk, UnackedChunk.new]
  have hold {i : ℤ} (hi : i ∈ sentIndices s) :
      i ∈ sentIndices (sendChunk cfg s info data) := by
    rw [hidx]
    exact List.mem_append_left _ hi
  have hnew : info.index ∈ sentIndices (sendChunk cfg s info data) := by
    rw [hidx]
    exact List.mem_append_right _ (List.mem_singleton_self _)
  constructor
  · rw [hidx]
    refine append_prefix hs.sent ?_
    rw [length_sentIndices, List.getElem?_map, hc]
    rfl
  · intro k hk
    rcases (Dict.mem_keys_set ..).1 hk with rfl | hk
    · exact List.mem_map_of_mem hnew
    · obtain ⟨i, hi, rfl⟩ := List.mem_map.1 (hs.unacked k hk)
      exact List.mem_map_of_mem (hold hi)
  · intro k hk
    obtain ⟨i, hi, rfl⟩ := List.mem_map.1 (hs.acked k hk)
    exact List.mem_map_of_mem (hold hi)
  · intro f hf
    rcases List.mem_append.1 hf with hf | hf
    · obtain ⟨i, hi, hfi⟩ := hs.outgoing f hf
      exact ⟨i, hold hi, hfi⟩
    · rw [List.mem_singleton.1 hf]
      exact ⟨_, hnew, carries_frame ..⟩
  · intro msg hmsg
    obtain ⟨i, hi, hmi⟩ := hs.incoming msg hmsg
    exact ⟨i, hold hi, hmi⟩
  · intro i hi
    rw [hidx, List.mem_append, List.mem_singleton] at hi
    rcases hi with hi | rfl
    · rcases hs.settled i hi with hack | ⟨f, hf, hfi⟩ | hmsg
      · exact Or.inl hack
      · exact Or.inr (Or.inl ⟨f, List.mem_append_left _ hf, hfi⟩)
      · exact Or.inr (Or.inr hmsg)
    · refine Or.inr (Or.inl ⟨_, List.mem_append_right _ (List.mem_singleton_self _), ?_⟩)
      exact carries_frame ..
  · exact hs.done

lemma inv_fill {s : State} (hs : Delivery cfg s) (hidx : s.objects.length = s.sendIdx)
    (hlisten : s.acked.card < cfg.chunks.length → s.listening = true) : Inv cfg (fill cfg s) := by
  unfold fill
  split
  · next hc =>
    refine { hs with
      sendIdx := hidx, full := fun _ h => ?_, listening := fun _ => hlisten, returned := nofun }
    exact absurd h (Nat.not_lt.2 (List.getElem?_eq_none_iff.1 hc))
  · next info data hc =>
    split
    · rw [← hidx] at hc
      refine { delivery_sendChunk hs hc with
        sendIdx := ?_, full := nofun, listening := fun _ => hlisten, returned := nofun }
      simp [sendChunk, hidx]
    · next hroom =>
      refine { hs with
        sendIdx := hidx, full := fun _ _ => ?_, listening := fun _ => hlisten, returned := nofun }
      have hle := hs.length_unacked_le
      show cfg.windowSize ≤ s.sendIdx
      omega

/-! ### The listener -/

lemma onMessage_of_acknowledges {s : State} {msg : Value} {i : ℤ} (h : Acknowledges msg i) :
    onMessage cfg s msg = listen cfg (handleAck cfg s (indexKey i)) := by
  obtain ⟨htype, hindex⟩ := h
  unfold onMessage
  split
  · cases htype
  · simp only [htype, show msg.getD "index" (.int (-1)) = .ok (.int i) from hindex, Value.isStr,
      Value.key?, indexKey]
    rfl

/-- An acknowledged index leaves the dictionary and joins the set. -/
lemma delivery_handleAck {s : State} {i : ℤ} {msg : Value} {rest : List Value}
    (hs : Delivery cfg s) (hin : s.incoming = msg :: rest) (hack : Acknowledges msg i) :
    Delivery cfg (handleAck cfg { s with incoming := rest } (indexKey i)) := by
  have hmem {m : Value} (hm : m ∈ rest) : m ∈ s.incoming := hin ▸ List.mem_cons_of_mem _ hm
  obtain ⟨i', hi', hack'⟩ := hs.incoming msg (hin ▸ List.mem_cons_self ..)
  obtain rfl : i = i' := hack.2.unique hack'.2
  have hchunks : cfg.chunks ≠ [] := by
    intro hnil
    have hlen := hs.length_objects_le
    rw [← length_sentIndices, hnil, List.length_nil, Nat.le_zero, List.length_eq_zero_iff] at hlen
    rw [hlen] at hi'
    exact absurd hi' List.not_mem_nil
  constructor
  · exact hs.sent
  · exact fun k hk => hs.unacked k (Dict.mem_keys_of_mem_keys_erase hk)
  · intro k hk
    rcases Finset.mem_insert.1 hk with rfl | hk
    · exact List.mem_map_of_mem hi'
    · exact hs.acked k hk
  · exact hs.outgoing
  · exact fun m hm => hs.incoming m (hmem hm)
  · intro j hj
    rcases hs.settled j hj with hacked | hf | ⟨m, hm, hmj⟩
    · exact Or.inl (Finset.mem_insert_of_mem hacked)
    · exact Or.inr (Or.inl hf)
    · rw [hin] at hm
      rcases List.mem_cons.1 hm with rfl | hm
      · rw [hmj.2.unique hack.2]
        exact Or.inl (Finset.mem_insert_self ..)
      · exact Or.inr (Or.inr ⟨m, hm, hmj⟩)
  · show (s.done || decide _) = true ↔ _ ∧ cfg.chunks.length ≤ (insert (indexKey i) s.acked).card
    have hcard : s.acked.card ≤ (insert (indexKey i) s.acked).card :=
      Finset.card_le_card (Finset.subset_insert ..)
    rw [Bool.or_eq_true, hs.done, decide_eq_true_iff]
    constructor
    · rintro (⟨-, h⟩ | h)
      · exact ⟨hchunks, h.trans hcard⟩
      · exact ⟨hchunks, h⟩
    · exact fun h => Or.inr h.2

lemma inv_receive {s : State} {i : ℤ} {msg : Value} {rest : List Value} (hs : Inv cfg s)
    (hin : s.incoming = msg :: rest) (hack : Acknowledges msg i) :
    Inv cfg (listen cfg (handleAck cfg { s with incoming := rest } (indexKey i))) := by
  refine { delivery_handleAck hs.toDelivery hin hack with
    sendIdx := hs.sendIdx
    full := hs.full
    listening := fun _ h => decide_eq_true h
    returned := ?_ }
  intro stats hmain
  refine (hs.returned stats hmain).imp_right fun hdone => ?_
  show (s.done || _) = true
  rw [hdone, Bool.true_or]

/-! ### The sweep and the peer -/

/-- A sweep either finds nothing more to send, or retransmits one chunk and is left with the
rest of its list. -/
lemma sweepNext_cases (cfg : Config) (s : State) (ids : List ℕ) :
    ((∀ i ∈ ids, ∀ o, s.objects[i]? = some o → maxRetries ≤ o.retries) ∧
      sweepNext cfg s ids = endSweep s) ∨
    ∃ i o rest, s.objects[i]? = some o ∧ o.retries < maxRetries ∧
      sweepNext cfg s ids = retransmit cfg s i o rest := by
  induction ids with
  | nil => exact Or.inl ⟨by simp, rfl⟩
  | cons i rest ih =>
    unfold sweepNext
    split
    · next hnone =>
      refine ih.imp_left fun h => ⟨List.forall_mem_cons.2 ⟨fun o ho => ?_, h.1⟩, h.2⟩
      exact absurd (hnone.symm.trans ho) nofun
    · next o ho =>
      split
      · next hmax =>
        refine ih.imp_left fun h => ⟨List.forall_mem_cons.2 ⟨fun o' ho' => ?_, h.1⟩, h.2⟩
        exact Option.some.inj (ho.symm.trans ho') ▸ hmax
      · next hmax => exact Or.inr ⟨i, o, rest, ho, Nat.lt_of_not_le hmax, rfl⟩

lemma sentIndices_retransmit (cfg : Config) {s : State} {i : ℕ} {o : UnackedChunk} (rest : List ℕ)
    (ho : s.objects[i]? = some o) : sentIndices (retransmit cfg s i o rest) = sentIndices s := by
  obtain ⟨hlt, rfl⟩ := List.getElem?_eq_some_iff.1 ho
  show (s.objects.set i _).map UnackedChunk.index = s.objects.map UnackedChunk.index
  rw [List.map_set]
  refine List.ext_getElem? fun j => ?_
  rw [List.getElem?_set]
  split
  · next hj =>
    subst hj
    simp [hlt]
  · rfl

/-- A retransmission puts one more copy of a frame in flight. -/
lemma delivery_retransmit {s : State} {i : ℕ} {o : UnackedChunk} (hs : Delivery cfg s)
    (rest : List ℕ) (ho : s.objects[i]? = some o) : Delivery cfg (retransmit cfg s i o rest) := by
  have hidx := sentIndices_retransmit cfg rest ho
  constructor
  · rw [hidx]
    exact hs.sent
  · rw [hidx]
    exact hs.unacked
  · rw [hidx]
    exact hs.acked
  · rw [hidx]
    intro f hf
    rcases List.mem_append.1 hf with hf | hf
    · exact hs.outgoing f hf
    · rw [List.mem_singleton.1 hf]
      exact ⟨o.index, List.mem_map_of_mem (List.mem_of_getElem? ho), carries_frame ..⟩
  · rw [hidx]
    exact hs.incoming
  · rw [hidx]
    intro j hj
    rcases hs.settled j hj with hack | ⟨f, hf, hfj⟩ | hmsg
    · exact Or.inl hack
    · exact Or.inr (Or.inl ⟨f, List.mem_append_left _ hf, hfj⟩)
    · exact Or.inr (Or.inr hmsg)
  · exact hs.done

lemma inv_sweepNext {s : State} (hs : Inv cfg s) (ids : List ℕ) :
    Inv cfg (sweepNext cfg s ids) := by
  rcases sweepNext_cases cfg s ids with ⟨-, heq⟩ | ⟨i, o, rest, ho, -, heq⟩
  · exact heq ▸ { hs with }
  · rw [heq]
    refine { delivery_retransmit hs.toDelivery rest ho with
      sendIdx := ?_, full := hs.full, listening := hs.listening, returned := hs.returned }
    exact (List.length_set ..).trans hs.sendIdx

lemma inv_deliver {s : State} {f : Value} {rest answers : List Value} (hs : Inv cfg s)
    (hout : s.outgoing = f :: rest) (hans : ∀ i, Carries f i →
      ∃ msg, answers = [msg] ∧ Acknowledges msg i) :
    Inv cfg { s with outgoing := rest, incoming := s.incoming ++ answers } := by
  obtain ⟨i, hi, hfi⟩ := hs.outgoing f (hout ▸ List.mem_cons_self ..)
  obtain ⟨msg, rfl, hack⟩ := hans i hfi
  refine { hs with
    outgoing := fun g hg => ?_
    incoming := fun m hm => ?_
    settled := fun j hj => ?_ }
  · exact hs.outgoing g (hout ▸ List.mem_cons_of_mem _ hg)
  · rcases List.mem_append.1 hm with hm | hm
    · exact hs.incoming m hm
    · exact ⟨i, hi, List.mem_singleton.1 hm ▸ hack⟩
  · rcases hs.settled j hj with hacked | ⟨g, hg, hgj⟩ | ⟨m, hm, hmj⟩
    · exact Or.inl hacked
    · rw [hout] at hg
      rcases List.mem_cons.1 hg with rfl | hg
      · -- the frame that was delivered: its acknowledgement is on the way
        obtain rfl := hfi.unique hgj
        exact Or.inr (Or.inr ⟨msg, List.mem_append_right _ (List.mem_singleton_self _), hack⟩)
      · exact Or.inr (Or.inl ⟨g, hg, hgj⟩)
    · exact Or.inr (Or.inr ⟨m, List.mem_append_left _ hm, hmj⟩)

/-- **Step lemma**: a run with an acknowledging peer loses track of no chunk. -/
lemma inv_exec {s t : State} {l : Label} (hs : Inv cfg s) (h : (machine cfg).exec s l = some t)
    (hl : Acking s l) : Inv cfg t := by
  rw [machine_exec] at h
  cases l with
  | start =>
    obtain ⟨hidle, ⟨hnil, rfl⟩ | ⟨-, rfl⟩⟩ := exec_start h
    · refine { hs with sendIdx := ?_, full := nofun, listening := ?_, returned := ?_ }
      · simpa [hidle] using hs.sendIdx
      · rintro (hm | hm) <;> cases hm
      · exact fun _ _ => Or.inl hnil
    · refine inv_fill { hs.toDelivery with } ?_ fun _ => rfl
      simpa [hidle] using hs.sendIdx
  | sendDone ok =>
    obtain ⟨hmain, ⟨-, rfl⟩ | ⟨hfailed, -⟩⟩ := exec_sendDone h
    · refine inv_fill { hs.toDelivery with } ?_ (hs.listening (Or.inl hmain))
      simpa [hmain] using hs.sendIdx
    · rw [show ok = true from hl] at hfailed
      cases hfailed
  | receive =>
    obtain ⟨msg, rest, -, hin, rfl⟩ := exec_receive h
    obtain ⟨i, -, hack⟩ := hs.incoming msg (hin ▸ List.mem_cons_self ..)
    rw [onMessage_of_acknowledges hack]
    exact inv_receive hs hin hack
  | disconnect => exact absurd hl id
  | sweepWake =>
    obtain ⟨till, -, -, rfl⟩ := exec_sweepWake h
    exact inv_sweepNext hs _
  | sweepSent =>
    obtain ⟨rest, -, rfl⟩ := exec_sweepSent h
    exact inv_sweepNext hs _
  | finish =>
    obtain ⟨hmain, hdone, rfl⟩ := exec_finish h
    refine { hs with sendIdx := ?_, full := nofun, listening := ?_, returned := ?_ }
    · simpa [hmain] using hs.sendIdx
    · rintro (hm | hm) <;> cases hm
    · exact fun _ _ => Or.inr hdone
  | deliver answers =>
    obtain ⟨f, rest, hout, rfl⟩ := exec_deliver h
    refine inv_deliver hs hout (hl f ?_)
    rw [hout]
    rfl
  | tick d =>
    obtain ⟨-, rfl⟩ := exec_tick h
    exact { hs with }

/-! ## Lists that fit the window -/

lemma Delivery.all_acked {s : State} (hs : Delivery cfg s) (hout : s.outgoing = [])
    (hin : s.incoming = []) {i : ℤ} (hi : i ∈ sentIndices s) : indexKey i ∈ s.acked := by
  rcases hs.settled i hi with hack | ⟨f, hf, -⟩ | ⟨m, hm, -⟩
  · exact hack
  · rw [hout] at hf
    exact absurd hf List.not_mem_nil
  · rw [hin] at hm
    exact absurd hm List.not_mem_nil

/-- Once nothing is in flight, a sender that has sent everything is done. -/
lemma complete_of_sent {s : State} (hd : (cfg.chunks.map fun c => c.1.index).Nodup)
    (hs : Delivery cfg s) (hidx : s.sendIdx = cfg.chunks.length)
    (hobj : s.objects.length = cfg.chunks.length) (hq : Quiescent s) : Complete cfg s := by
  have hall : sentIndices s = cfg.chunks.map fun c => c.1.index := by
    refine hs.sent.eq_of_length ?_
    rw [length_sentIndices, hobj, List.length_map]
  have hacked (c : ChunkInfo × Bytes) (hc : c ∈ cfg.chunks) : indexKey c.1.index ∈ s.acked := by
    refine hs.all_acked hq.outgoing hq.incoming ?_
    rw [hall]
    exact List.mem_map_of_mem (f := fun c : ChunkInfo × Bytes => c.1.index) hc
  refine ⟨hidx, hacked, fun hne => hs.done.2 ⟨hne, ?_⟩⟩
  have hkeys : ((cfg.chunks.map fun c => c.1.index).map indexKey).Nodup :=
    hd.map indexKey_injective
  calc cfg.chunks.length
      = ((cfg.chunks.map fun c => c.1.index).map indexKey).length := by simp
    _ = ((cfg.chunks.map fun c => c.1.index).map indexKey).toFinset.card :=
        (List.toFinset_card_of_nodup hkeys).symm
    _ ≤ s.acked.card := by
        refine Finset.card_le_card fun k hk => ?_
        rw [List.mem_toFinset, List.mem_map] at hk
        obtain ⟨i, hi, rfl⟩ := hk
        obtain ⟨c, hc, rfl⟩ := List.mem_map.1 hi
        exact hacked c hc

lemma neverStuck_of_le (hd : (cfg.chunks.map fun c => c.1.index).Nodup)
    (hle : cfg.chunks.length ≤ cfg.windowSize) : NeverStuck cfg := by
  intro s hreach hq
  have hs : Inv cfg s := hreach.invariant inv_init fun s l t hs ht hl => inv_exec hs ht hl
  have hlen := hs.length_objects_le
  have hidx : s.objects.length = s.sendIdx := by
    rcases hq.main with hmain | ⟨stats, hmain⟩ <;> simpa [hmain] using hs.sendIdx
  have hsent : s.sendIdx = cfg.chunks.length := by
    rcases hq.main with hmain | ⟨stats, hmain⟩
    · have := hs.full hmain
      omega
    · rcases hs.returned stats hmain with hnil | hdone
      · rw [hnil] at hlen ⊢
        exact Nat.le_zero.1 (hidx ▸ hlen)
      · have := (hs.done.1 hdone).2
        have := hs.card_acked_le
        omega
  exact complete_of_sent hd hs.toDelivery hsent (hidx.trans hsent) hq

/-! ## Longer lists -/

/-- The window is being filled, or was just filled, and nothing else has happened. -/
structure Filling (cfg : Config) (s : State) : Prop extends Inv cfg s where
  main : s.main = .sending ∨ s.main = .waiting
  room : s.unacked.keys.length = s.objects.length
  window : s.objects.length ≤ cfg.windowSize
  undone : s.done = false
  asleep : ∃ till, s.sweep = .asleep till

lemma filling_fill (hd : (cfg.chunks.map fun c => c.1.index).Nodup) {s : State}
    (hs : Inv cfg (fill cfg s)) (hdel : Delivery cfg s) (hidx : s.objects.length = s.sendIdx)
    (hroom : s.unacked.keys.length = s.objects.length)
    (hwindow : s.objects.length ≤ cfg.windowSize) (hundone : s.done = false)
    (hasleep : ∃ till, s.sweep = .asleep till) : Filling cfg (fill cfg s) := by
  revert hs
  unfold fill
  split
  · exact fun hs => ⟨hs, Or.inr rfl, hroom, hwindow, hundone, hasleep⟩
  · next info data hc =>
    split
    · next hlt =>
      intro hs
      refine ⟨hs, Or.inl rfl, ?_, ?_, hundone, hasleep⟩
      · have hfresh : indexKey info.index ∉ s.unacked.keys := by
          intro hk
          obtain ⟨i, hi, hkey⟩ := List.mem_map.1 (hdel.unacked _ hk)
          obtain rfl := indexKey_injective hkey
          have hpre := append_prefix (x := info.index) hdel.sent (by
            rw [length_sentIndices, hidx, List.getElem?_map, hc]
            rfl)
          have hnodup := List.nodup_append.1 (hd.sublist hpre.sublist)
          exact hnodup.2.2 _ hi _ (List.mem_singleton_self _) rfl
        show (s.unacked.set _ _).keys.length = (s.objects ++ [_]).length
        rw [Dict.length_keys_set_of_not_mem _ hfresh, hroom, List.length_append,
          List.length_singleton]
      · show (s.objects ++ [_]).length ≤ _
        rw [List.length_append, List.length_singleton]
        omega
    · exact fun hs => ⟨hs, Or.inr rfl, hroom, hwindow, hundone, hasleep⟩

/-- **The first window**: whatever the peer does later, the fill loop can end before the first
acknowledgement, with at most a window of chunks sent. -/
lemma exists_filled {C : State → Label → Prop} (hd : (cfg.chunks.map fun c => c.1.index).Nodup)
    (hne : cfg.chunks ≠ []) (hstart : ∀ s, C s .start) (hsend : ∀ s, C s (.sendDone true)) :
    ∃ s, (machine cfg).ReachableBy C s ∧ Filling cfg s ∧ s.main = .waiting := by
  set s₀ : State := { listening := true, sweep := .asleep (0 + sweepInterval) } with hs₀
  have hexec : (machine cfg).exec (machine cfg).init .start = some (fill cfg s₀) := by
    simp [machine, exec, hne, hs₀]
  have hdel : Delivery cfg s₀ := { inv_init.toDelivery with }
  have hfilling : Filling cfg (fill cfg s₀) :=
    filling_fill hd (inv_fill hdel rfl fun _ => rfl) hdel rfl rfl (Nat.zero_le _) rfl ⟨_, rfl⟩
  refine Machine.ReachableBy.progress (fun s => cfg.chunks.length - s.sendIdx) ?_
    (Machine.ReachableBy.init.step hexec (hstart _)) hfilling
  intro s hs hmain
  replace hmain := hs.main.resolve_right hmain
  have hidx : s.objects.length = s.sendIdx + 1 := by simpa [hmain] using hs.sendIdx
  have hdel' : Delivery cfg { s with sendIdx := s.sendIdx + 1 } := { hs.toDelivery with }
  have hexec' : (machine cfg).exec s (.sendDone true) =
      some (fill cfg { s with sendIdx := s.sendIdx + 1 }) := by
    simp [exec, hmain]
  refine ⟨_, _, hsend s, hexec', ?_, ?_⟩
  · exact filling_fill hd (inv_fill hdel' hidx (hs.listening (Or.inl hmain))) hdel' hidx hs.room
      hs.window hs.undone hs.asleep
  · have hfill : (fill cfg { s with sendIdx := s.sendIdx + 1 }).sendIdx = s.sendIdx + 1 := by
      unfold fill
      split
      · rfl
      · split <;> rfl
    show cfg.chunks.length - (fill cfg _).sendIdx < cfg.chunks.length - s.sendIdx
    have hle := hs.length_objects_le
    rw [hfill]
    omega

lemma acknowledges_chunkAckMsg (t : ℚ) (sender hash : String) (i : ℤ) :
    Acknowledges (chunkAckMsg t sender hash i) i := by
  simp [Acknowledges, Carries, chunkAckMsg, buildMessage, Value.getD, Value.isStr]

/-- `send_all` waits, and some chunks were never sent. -/
structure Stalled (cfg : Config) (s : State) : Prop extends Inv cfg s where
  main : s.main = .waiting
  unsent : s.sendIdx < cfg.chunks.length
  asleep : ∃ till, s.sweep = .asleep till

/-- A stalled sender can take in what is in flight, but stays stalled. -/
lemma stalled_step {s : State} (hs : Stalled cfg s) (hG : ¬ (s.outgoing = [] ∧ s.incoming = [])) :
    ∃ l t, Acking s l ∧ (machine cfg).exec s l = some t ∧ Stalled cfg t ∧
      2 * t.outgoing.length + t.incoming.length <
        2 * s.outgoing.length + s.incoming.length := by
  cases hout : s.outgoing with
  | cons f rest =>
    obtain ⟨i, -, hfi⟩ := hs.outgoing f (hout ▸ List.mem_cons_self ..)
    have hexec : (machine cfg).exec s (.deliver [chunkAckMsg 0 "" "" i]) =
        some { s with
          outgoing := rest, incoming := s.incoming ++ [chunkAckMsg 0 "" "" i] } := by
      simp [exec, hout]
    have hack : Acking s (.deliver [chunkAckMsg 0 "" "" i]) := by
      intro g hg j hj
      rw [hout, List.head?_cons, Option.mem_some_iff] at hg
      subst hg
      exact ⟨_, rfl, hj.unique hfi ▸ acknowledges_chunkAckMsg ..⟩
    refine ⟨_, _, hack, hexec, ⟨inv_exec hs.toInv hexec hack, hs.main, hs.unsent, hs.asleep⟩, ?_⟩
    simp only [List.length_append, List.length_cons, List.length_nil]
    omega
  | nil =>
    cases hin : s.incoming with
    | nil => exact absurd ⟨hout, hin⟩ hG
    | cons msg rest =>
      obtain ⟨i, -, hmi⟩ := hs.incoming msg (hin ▸ List.mem_cons_self ..)
      have hlisten : s.listening = true := by
        refine hs.listening (Or.inr hs.main) ?_
        have hidx : s.objects.length = s.sendIdx := by simpa [hs.main] using hs.sendIdx
        exact Nat.lt_of_le_of_lt (hidx ▸ hs.card_acked_le) hs.unsent
      have hexec : (machine cfg).exec s .receive =
          some (listen cfg (handleAck cfg { s with incoming := rest } (indexKey i))) := by
        simp [exec, hlisten, hin, onMessage_of_acknowledges hmi]
      refine ⟨.receive, _, trivial, hexec,
        ⟨inv_exec hs.toInv hexec trivial, hs.main, hs.unsent, hs.asleep⟩, ?_⟩
      show 2 * s.outgoing.length + rest.length < _
      rw [hout]
      simp

lemma le_of_neverStuck (hd : (cfg.chunks.map fun c => c.1.index).Nodup) (h : NeverStuck cfg) :
    cfg.chunks.length ≤ cfg.windowSize := by
  by_contra hlt
  rw [Nat.not_le] at hlt
  have hne : cfg.chunks ≠ [] := by
    intro hnil
    rw [hnil] at hlt
    exact absurd hlt (Nat.not_lt_zero _)
  obtain ⟨s, hreach, hs, hmain⟩ :=
    exists_filled (C := Acking) hd hne (fun _ => trivial) fun _ => rfl
  have hidx : s.objects.length = s.sendIdx := by simpa [hmain] using hs.sendIdx
  have hstalled : Stalled cfg s :=
    ⟨hs.toInv, hmain, hidx ▸ Nat.lt_of_le_of_lt hs.window hlt, hs.asleep⟩
  obtain ⟨t, ht, hstalled, hout, hin⟩ := Machine.ReachableBy.progress
    (fun s => 2 * s.outgoing.length + s.incoming.length) (fun _ => stalled_step) hreach hstalled
  obtain ⟨till, hsweep⟩ := hstalled.asleep
  have hquiet : Quiescent t := ⟨Or.inl hstalled.main, by simp [hsweep], hout, hin⟩
  exact absurd (h t ht hquiet).sent (Nat.ne_of_lt hstalled.unsent)

/-! ## A silent peer -/

/-- The retransmissions that are left. -/
def remaining (s : State) : ℕ := (s.objects.map fun o => maxRetries - o.retries).sum

/-- The next sweep is due, and finds every unacknowledged chunk timed out. -/
def Due (s : State) : Prop :=
  (∃ till, s.sweep = .asleep till ∧ till ≤ s.clock) ∧
    ∀ o ∈ s.objects, timeoutSeconds < s.clock - o.timestamp

lemma sum_map_set_lt {α : Type} {f : α → ℕ} {l : List α} {i : ℕ} {a b : α} (h : l[i]? = some a)
    (hlt : f b < f a) : ((l.set i b).map f).sum < (l.map f).sum := by
  induction l generalizing i with
  | nil => simp at h
  | cons x l ih =>
    cases i with
    | zero =>
      obtain rfl : x = a := by simpa using h
      simpa using hlt
    | succ i =>
      have := ih (by simpa using h)
      simpa using this

lemma remaining_retransmit (cfg : Config) {s : State} {i : ℕ} {o : UnackedChunk} (rest : List ℕ)
    (ho : s.objects[i]? = some o) (hlt : o.retries < maxRetries) :
    remaining (retransmit cfg s i o rest) < remaining s :=
  sum_map_set_lt ho (by
    show maxRetries - (o.retries + 1) < maxRetries - o.retries
    omega)

/-- `send_all` waits, and the sweep goes on. -/
structure Waiting (s : State) : Prop where
  main : s.main = .waiting
  undone : s.done = false
  sweep : s.sweep ≠ .off

open Classical in
/-- Three times the retransmissions that are left, and how far away the next one is. -/
noncomputable def patience (s : State) : ℕ :=
  3 * remaining s +
    match s.sweep with
    | .sending _ => 2
    | _ => if Due s then 0 else 1

lemma exists_bound (objects : List UnackedChunk) (b : ℚ) :
    ∃ t, b ≤ t ∧ ∀ o ∈ objects, timeoutSeconds < t - o.timestamp := by
  induction objects with
  | nil => exact ⟨b, le_refl _, by simp⟩
  | cons o objects ih =>
    obtain ⟨t, hb, ht⟩ := ih
    refine ⟨max t (o.timestamp + timeoutSeconds + 1), le_trans hb (le_max_left _ _), ?_⟩
    rw [List.forall_mem_cons]
    constructor
    · have := le_max_right t (o.timestamp + timeoutSeconds + 1)
      linarith
    · intro o' ho'
      have := le_max_left t (o.timestamp + timeoutSeconds + 1)
      have := ht o' ho'
      linarith

/-- A sweep that finds a chunk to send again uses up a retransmission; one that finds none ends. -/
lemma waiting_sweepNext (cfg : Config) {s : State} (hs : Waiting s) (ids : List ℕ) :
    Waiting (sweepNext cfg s ids) ∧
      ((∀ i ∈ ids, ∀ o, s.objects[i]? = some o → maxRetries ≤ o.retries) ∧
        patience (sweepNext cfg s ids) ≤ 3 * remaining s + 1 ∨
      patience (sweepNext cfg s ids) < 3 * remaining s) := by
  rcases sweepNext_cases cfg s ids with ⟨hall, heq⟩ | ⟨i, o, rest, ho, hlt, heq⟩
  · have hend : (endSweep s).sweep = .asleep (s.clock + sweepInterval) := by
      rw [endSweep, hs.undone]
      rfl
    rw [heq]
    refine ⟨⟨hs.main, hs.undone, by rw [hend]; nofun⟩, Or.inl ⟨hall, ?_⟩⟩
    have hrem : remaining (endSweep s) = remaining s := rfl
    unfold patience
    rw [hend, hrem]
    dsimp only
    split <;> omega
  · rw [heq]
    refine ⟨⟨hs.main, hs.undone, nofun⟩, Or.inr ?_⟩
    have hrem := remaining_retransmit cfg rest ho hlt
    show 3 * remaining (retransmit cfg s i o rest) + 2 < _
    omega

/-- As long as a retransmission is left the sweep comes to it. -/
lemma waiting_step {s : State} (hs : Waiting s) (hG : ¬ Exhausted s) :
    ∃ l t, Silent s l ∧ (machine cfg).exec s l = some t ∧ Waiting t ∧ patience t < patience s := by
  cases hsweep : s.sweep with
  | off => exact absurd hsweep hs.sweep
  | sending rest =>
    have hpat : patience s = 3 * remaining s + 2 := by rw [patience, hsweep]
    obtain ⟨hwait, hlow⟩ := waiting_sweepNext cfg hs rest
    refine ⟨.sweepSent, _, trivial, by simp [exec, hsweep], hwait, ?_⟩
    rcases hlow with ⟨-, h⟩ | h <;> omega
  | asleep till =>
    by_cases hdue : Due s
    · have hpat : patience s = 3 * remaining s := by
        rw [patience, hsweep]
        simp [hdue]
      obtain ⟨⟨till', htill, hle⟩, hlate⟩ := hdue
      obtain ⟨hwait, hlow⟩ := waiting_sweepNext cfg hs (timedOut s)
      refine ⟨.sweepWake, _, trivial, ?_, hwait, ?_⟩
      · simp [exec, htill, hle]
      · rcases hlow with ⟨hall, -⟩ | h
        · -- every unacknowledged chunk has timed out, so none can have a retransmission left
          refine absurd (fun k i o hk ho => hall i ?_ o ho) hG
          rw [timedOut, List.mem_filter, ho]
          refine ⟨List.mem_map.2 ⟨_, Dict.mem_entries_of_get? hk, rfl⟩, ?_⟩
          simpa using hlate o (List.mem_of_getElem? ho)
        · omega
    · obtain ⟨t, hb, ht⟩ := exists_bound s.objects (max till s.clock)
      set s' : State := { s with clock := s.clock + (t - s.clock) } with hs'
      have hclock : s'.clock = t := add_sub_cancel ..
      have hle : 0 ≤ t - s.clock := sub_nonneg.2 (le_trans (le_max_right _ _) hb)
      have hdue' : Due s' := by
        unfold Due
        rw [hclock]
        exact ⟨⟨till, hsweep, le_trans (le_max_left _ _) hb⟩, ht⟩
      refine ⟨.tick (t - s.clock), s', trivial, by simp only [machine_exec, exec, if_pos hle, hs'],
        ⟨hs.main, hs.undone, hs.sweep⟩, ?_⟩
      have hpat : patience s = 3 * remaining s + 1 := by
        rw [patience, hsweep]
        simp [hdue]
      have hpat' : patience s' = 3 * remaining s' := by
        rw [patience, show s'.sweep = .asleep till from hsweep]
        simp [hdue']
      have hrem : remaining s' = remaining s := rfl
      omega

lemma nil_of_givesUp (hd : (cfg.chunks.map fun c => c.1.index).Nodup) (h : GivesUp cfg) :
    cfg.chunks = [] := by
  by_contra hne
  obtain ⟨s, hreach, hs, hmain⟩ :=
    exists_filled (C := Silent) hd hne (fun _ => trivial) fun _ => rfl
  obtain ⟨till, hsweep⟩ := hs.asleep
  have hwait : Waiting s := ⟨hmain, hs.undone, by rw [hsweep]; nofun⟩
  obtain ⟨t, ht, hwait, hex⟩ :=
    Machine.ReachableBy.progress patience (fun _ => waiting_step) hreach hwait
  have hdone := h t ht hwait.main hex
  rw [hwait.undone] at hdone
  exact Bool.false_ne_true hdone

lemma main_onMessage (s : State) (msg : Value) : (onMessage cfg s msg).main = s.main := by
  unfold onMessage
  repeat' split
  all_goals rfl

lemma main_sweepNext (s : State) (ids : List ℕ) : (sweepNext cfg s ids).main = s.main := by
  rcases sweepNext_cases cfg s ids with ⟨-, heq⟩ | ⟨i, o, rest, -, -, heq⟩
  · exact heq ▸ rfl
  · exact heq ▸ rfl

/-- `send_all` is past its test for an empty list. -/
def Main.started : Main → Bool
  | .sending => true
  | .waiting => true
  | _ => false

/-- Without chunks `send_all` returns at once. -/
lemma started_exec_of_nil (hnil : cfg.chunks = []) {s t : State} {l : Label}
    (hs : s.main.started = false) (h : (machine cfg).exec s l = some t) :
    t.main.started = false := by
  rw [machine_exec] at h
  cases l with
  | start =>
    obtain ⟨-, ⟨-, rfl⟩ | ⟨hne, -⟩⟩ := exec_start h
    · rfl
    · exact absurd hnil hne
  | sendDone ok =>
    obtain ⟨hmain, -⟩ := exec_sendDone h
    rw [hmain] at hs
    cases hs
  | receive =>
    obtain ⟨msg, rest, -, -, rfl⟩ := exec_receive h
    rw [main_onMessage]
    exact hs
  | disconnect =>
    obtain ⟨-, rfl⟩ := exec_disconnect h
    exact hs
  | sweepWake =>
    obtain ⟨till, -, -, rfl⟩ := exec_sweepWake h
    rw [main_sweepNext]
    exact hs
  | sweepSent =>
    obtain ⟨rest, -, rfl⟩ := exec_sweepSent h
    rw [main_sweepNext]
    exact hs
  | finish =>
    obtain ⟨-, -, rfl⟩ := exec_finish h
    rfl
  | deliver answers =>
    obtain ⟨f, rest, -, rfl⟩ := exec_deliver h
    exact hs
  | tick d =>
    obtain ⟨-, rfl⟩ := exec_tick h
    exact hs

lemma givesUp_of_nil (hnil : cfg.chunks = []) : GivesUp cfg := by
  intro s hreach hmain
  have hnever : s.main.started = false :=
    hreach.invariant (I := fun s => s.main.started = false) rfl
      fun s l t hs h _ => started_exec_of_nil hnil hs h
  rw [hmain] at hnever
  cases hnever

/-! ## When the sender gets stuck -/

/-- **The sender finishes exactly when the list fits the first window.**  With a peer that
acknowledges every frame, every quiescent state is complete if and only if there are no more
chunks than the window holds; with a silent peer, using up all retries ends the transfer only if
there was nothing to send. -/
theorem never_stuck_iff (cfg : Config) (hd : (cfg.chunks.map fun c => c.1.index).Nodup) :
    (NeverStuck cfg ↔ cfg.chunks.length ≤ cfg.windowSize) ∧ (GivesUp cfg ↔ cfg.chunks = []) :=
  ⟨⟨le_of_neverStuck hd, neverStuck_of_le hd⟩, ⟨nil_of_givesUp hd, givesUp_of_nil⟩⟩

/-- Two chunks and a window of one. -/
def twoChunks : Config where
  nodeId := "node"
  fileHash := "file"
  windowSize := 1
  chunks := [(⟨0, "a", 1, false⟩, [0]), (⟨1, "b", 1, false⟩, [1])]

theorem never_stuck_iff_two : (NeverStuck { twoChunks with windowSize := 2 } ↔ 2 ≤ 2) ∧
    (GivesUp { twoChunks with windowSize := 2 } ↔ twoChunks.chunks = []) :=
  never_stuck_iff { twoChunks with windowSize := 2 } (by decide)

/-- The first chunk is sent and acknowledged. -/
def firstWindow : List Label :=
  [.start, .sendDone true, .deliver [chunkAckMsg 0 "peer" "a" 0], .receive]

/-- The state after `firstWindow`. -/
def afterFirstWindow : State where
  unacked := ((∅ : Dict Key ℕ).set (indexKey 0) 0).erase (indexKey 0)
  objects := [.new ⟨0, "a", 1, false⟩ [0] 0]
  acked := {indexKey 0}
  sendIdx := 1
  main := .waiting
  listening := true
  sweep := .asleep (0 + sweepInterval)

lemma run_firstWindow : (machine twoChunks).run {} firstWindow = some afterFirstWindow := rfl

lemma meets_firstWindow : (machine twoChunks).Meets Acking {} firstWindow := by
  refine (Machine.meets_cons rfl).2 ⟨trivial, (Machine.meets_cons rfl).2 ⟨rfl, ?_⟩⟩
  refine (Machine.meets_cons rfl).2 ⟨?_, (Machine.meets_cons rfl).2 ⟨trivial, trivial⟩⟩
  intro f hf i hi
  obtain rfl : 0 = i := (Option.some.inj hf ▸ carries_frame 0 0 "a" [0]).unique hi
  exact ⟨_, rfl, acknowledges_chunkAckMsg ..⟩

/-- **The second of two chunks is never sent**: the first was sent and acknowledged, nothing is in
flight, and `send_all` waits for good. -/
theorem second_chunk_never_sent : ¬ ∀ cfg : Config, (cfg.chunks.map fun c => c.1.index).Nodup →
    1 ≤ cfg.windowSize → NeverStuck cfg ∧ GivesUp cfg := by
  intro hall
  obtain ⟨hnever, -⟩ := hall twoChunks (by decide) (Nat.le_refl 1)
  have hquiet : Quiescent afterFirstWindow := ⟨Or.inl rfl, nofun, rfl, rfl⟩
  have hsent : 1 = 2 :=
    (hnever afterFirstWindow ⟨firstWindow, meets_firstWindow, run_firstWindow⟩ hquiet).sent
  exact absurd hsent (by decide)

end DistriStore.SlidingWindow
