import DistriStore.Lib.Table
import DistriStore.Strategies.SlidingWindow

/-!
# Bounds of the sliding window sender

Whatever the peer answers, whenever it does, and whether or not the connection holds, the sender
keeps at most a window of chunks in `_unacked`, sends a chunk once and then at most `MAX_RETRIES`
times again, and every frame with an index carries the hash and the data of the chunk with this
index (`window_bounds`).

The peer is not bound to answer frames here: it may send any message at any time (`openLine`).  A
history variable lists the frames that were put on the wire.
-/

namespace DistriStore.SlidingWindow

open Lib

/-! ## Any peer -/

inductive PeerLabel where
  | sender (l : Label)
  /-- The peer sends a message of its own accord. -/
  | message (msg : Value)

variable (cfg : Config)

/-- The sender and a peer that may send anything at any time. -/
def openLine : Machine State PeerLabel where
  init := {}
  exec s
    | .sender l => exec cfg s l
    | .message msg => some { s with incoming := s.incoming ++ [msg] }

/-- The frames that a step puts on the wire. -/
def emitted (s t : State) : List Value := t.outgoing.drop s.outgoing.length

/-- The sender together with the list of all frames that it has sent. -/
def wired : Machine (State × List Value) PeerLabel :=
  (openLine cfg).observed [] fun wire s _ t => wire ++ emitted s t

/-- `msg` is a STORE_CHUNK message with this hash and data. -/
structure Stores (msg : Value) (chunkHash : String) (data : Bytes) : Prop where
  type : msg.getD "type" .nil = .ok (.str "STORE_CHUNK")
  chunkHash : msg.getD "chunk_hash" .nil = .ok (.str chunkHash)
  chunkData : msg.getD "chunk_data" .nil = .ok (.bytes data)

/-- Whether a message carries the index `i`. -/
def carriesIndex (i : ℤ) (msg : Value) : Bool :=
  match msg.getD "index" (.int (-1)) with
  | .ok (.int j) => decide (j = i)
  | _ => false

variable {cfg}

lemma carriesIndex_of_carries {msg : Value} {i j : ℤ} (h : Carries msg j) :
    carriesIndex i msg = decide (j = i) := by
  rw [carriesIndex, show msg.getD "index" (.int (-1)) = .ok (.int j) from h]

lemma carriesIndex_frame (i j : ℤ) (t : ℚ) (h : String) (data : Bytes) :
    carriesIndex i (frame cfg t j h data) = decide (j = i) :=
  carriesIndex_of_carries (carries_frame t j h data)

lemma stores_frame (i : ℤ) (t : ℚ) (h : String) (data : Bytes) :
    Stores (frame cfg t i h data) h data := by
  constructor <;>
    simp [frame, storeChunkMsg, buildMessage, Value.setField, Value.getD, Value.isStr]

/-! ## What a step can do -/

/-- Where the fill loop is in the list of chunks. -/
structure Placed (s : State) : Prop where
  idle : s.main = .idle → s.objects.length = s.sendIdx
  sending : s.main = .sending → s.objects.length = s.sendIdx + 1

/-- What a step does to the window and to the wire: nothing but possibly an acknowledgement, a
chunk sent for the first time, or a chunk sent again. -/
inductive Effect (cfg : Config) (s t : State) : Prop where
  | quiet (objects : t.objects = s.objects)
      (unacked : t.unacked.keys.length ≤ s.unacked.keys.length) (emitted : emitted s t = [])
  | first (info : ChunkInfo) (data : Bytes)
      (chunk : cfg.chunks[s.objects.length]? = some (info, data))
      (room : s.unacked.keys.length < cfg.windowSize)
      (objects : t.objects = s.objects ++ [.new info data s.clock])
      (unacked : t.unacked.keys.length ≤ s.unacked.keys.length + 1)
      (emitted : emitted s t = [frame cfg s.clock info.index info.chunkHash data])
  | again (i : ℕ) (o : UnackedChunk) (object : s.objects[i]? = some o)
      (left : o.retries < maxRetries)
      (objects : t.objects =
        s.objects.set i { o with retries := o.retries + 1, timestamp := s.clock })
      (unacked : t.unacked = s.unacked)
      (emitted : emitted s t = [frame cfg s.clock o.index o.chunkHash o.data])

variable {s t : State}

lemma emitted_of_eq (h : t.outgoing = s.outgoing) : emitted s t = [] := by
  rw [emitted, h, List.drop_length]

lemma emitted_of_append {f : Value} (h : t.outgoing = s.outgoing ++ [f]) : emitted s t = [f] := by
  rw [emitted, h, List.drop_left]

/-- The fill loop sends the chunk it has come to, or is over. -/
lemma effect_fill {s₀ : State} (hobj : s₀.objects = s.objects) (hun : s₀.unacked = s.unacked)
    (hout : s₀.outgoing = s.outgoing) (hclock : s₀.clock = s.clock)
    (hidx : s.objects.length = s₀.sendIdx) :
    Effect cfg s (fill cfg s₀) ∧ Placed (fill cfg s₀) := by
  unfold fill
  split
  · refine ⟨.quiet hobj (by rw [← hun]) (emitted_of_eq hout), ?_, ?_⟩ <;> simp
  · next info data hc =>
    split
    · next hroom =>
      refine ⟨.first info data (hidx ▸ hc) (hun ▸ hroom) ?_ ?_ ?_, by simp [sendChunk], ?_⟩
      · simp only [sendChunk, hobj, hclock]
      · simp only [sendChunk, hun]
        exact Dict.length_keys_set_le ..
      · refine emitted_of_append ?_
        simp only [sendChunk, hout, hclock]
      · intro _
        simp [sendChunk, hobj, hidx]
    · refine ⟨.quiet hobj (by rw [← hun]) (emitted_of_eq hout), ?_, ?_⟩ <;> simp

lemma onMessage_frame (cfg : Config) (s : State) (msg : Value) :
    (onMessage cfg s msg).objects = s.objects ∧
      (onMessage cfg s msg).outgoing = s.outgoing ∧
      (onMessage cfg s msg).main = s.main ∧ (onMessage cfg s msg).sendIdx = s.sendIdx ∧
      (onMessage cfg s msg).unacked.keys.length ≤ s.unacked.keys.length := by
  unfold onMessage
  repeat' split
  all_goals refine ⟨rfl, rfl, rfl, rfl, ?_⟩
  all_goals first
    | exact Nat.le_refl _
    | exact Dict.length_keys_erase_le ..

lemma effect_sweepNext (hs : Placed s) (ids : List ℕ) :
    Effect cfg s (sweepNext cfg s ids) ∧ Placed (sweepNext cfg s ids) := by
  rcases sweepNext_cases cfg s ids with ⟨-, heq⟩ | ⟨i, o, rest, ho, hlt, heq⟩
  · rw [heq]
    exact ⟨.quiet rfl (Nat.le_refl _) (emitted_of_eq rfl), hs.idle, hs.sending⟩
  · rw [heq]
    refine ⟨.again i o ho hlt rfl rfl (emitted_of_append rfl), fun hm => ?_, fun hm => ?_⟩
    · exact (List.length_set ..).trans (hs.idle hm)
    · exact (List.length_set ..).trans (hs.sending hm)

/-- **Step lemma**: every step of the sender or its peer has one of the three effects. -/
lemma effect_exec (hs : Placed s) {l : PeerLabel} (h : (openLine cfg).exec s l = some t) :
    Effect cfg s t ∧ Placed t := by
  cases l with
  | message msg =>
    obtain rfl := Option.some.inj h
    exact ⟨.quiet rfl (Nat.le_refl _) (emitted_of_eq rfl), hs.idle, hs.sending⟩
  | sender l =>
    replace h : exec cfg s l = some t := h
    cases l with
    | start =>
      obtain ⟨hidle, ⟨-, rfl⟩ | ⟨-, rfl⟩⟩ := exec_start h
      · refine ⟨.quiet rfl (Nat.le_refl _) (emitted_of_eq rfl), ?_, ?_⟩ <;> simp
      · exact effect_fill rfl rfl rfl rfl (hs.idle hidle)
    | sendDone ok =>
      obtain ⟨hsending, ⟨-, rfl⟩ | ⟨-, rfl⟩⟩ := exec_sendDone h
      · exact effect_fill rfl rfl rfl rfl (hs.sending hsending)
      · refine ⟨.quiet rfl (Nat.le_refl _) (emitted_of_eq rfl), ?_, ?_⟩ <;> simp
    | receive =>
      obtain ⟨msg, rest, -, -, rfl⟩ := exec_receive h
      obtain ⟨hobj, hout, hmain, hidx, hun⟩ := onMessage_frame cfg { s with incoming := rest } msg
      refine ⟨.quiet hobj hun (emitted_of_eq hout), ?_, ?_⟩
      · rw [hmain, hobj, hidx]
        exact hs.idle
      · rw [hmain, hobj, hidx]
        exact hs.sending
    | disconnect =>
      obtain ⟨-, rfl⟩ := exec_disconnect h
      exact ⟨.quiet rfl (Nat.le_refl _) (emitted_of_eq rfl), hs.idle, hs.sending⟩
    | sweepWake =>
      obtain ⟨till, -, -, rfl⟩ := exec_sweepWake h
      exact effect_sweepNext hs _
    | sweepSent =>
      obtain ⟨rest, -, rfl⟩ := exec_sweepSent h
      exact effect_sweepNext hs _
    | finish =>
      obtain ⟨-, -, rfl⟩ := exec_finish h
      refine ⟨.quiet rfl (Nat.le_refl _) (emitted_of_eq rfl), ?_, ?_⟩ <;> simp
    | deliver answers =>
      obtain ⟨f, rest, hout, rfl⟩ := exec_deliver h
      refine ⟨.quiet rfl (Nat.le_refl _) ?_, hs.idle, hs.sending⟩
      rw [emitted, hout]
      exact List.drop_of_length_le (Nat.le_succ _)
    | tick d =>
      obtain ⟨-, rfl⟩ := exec_tick h
      exact ⟨.quiet rfl (Nat.le_refl _) (emitted_of_eq rfl), hs.idle, hs.sending⟩

/-! ## The invariant -/

/-- Object `j` stands for chunk `j`, and the wire has carried it once and once more for each
retry. -/
structure Bounded (cfg : Config) (s : State) (wire : List Value) : Prop where
  placed : Placed s
  window : s.unacked.keys.length ≤ cfg.windowSize
  chunk : ∀ (j : ℕ) (o : UnackedChunk), s.objects[j]? = some o →
    ∃ c : ChunkInfo × Bytes, cfg.chunks[j]? = some c ∧
      o.index = c.1.index ∧ o.chunkHash = c.1.chunkHash ∧ o.data = c.2
  retries : ∀ (j : ℕ) (o : UnackedChunk), s.objects[j]? = some o → o.retries ≤ maxRetries
  frames : ∀ f ∈ wire, ∃ (j : ℕ) (o : UnackedChunk) (t : ℚ), s.objects[j]? = some o ∧
    f = frame cfg t o.index o.chunkHash o.data
  counted : ∀ (j : ℕ) (o : UnackedChunk), s.objects[j]? = some o →
    wire.countP (carriesIndex o.index) = 1 + o.retries

lemma bounded_init : Bounded cfg {} [] where
  placed := ⟨fun _ => rfl, fun h => by simp at h⟩
  window := Nat.zero_le _
  chunk j o h := by simp at h
  retries j o h := by simp at h
  frames f hf := absurd hf List.not_mem_nil
  counted j o h := by simp at h

/-- With distinct indices no two places hold chunks of one index. -/
lemma place_unique (hd : (cfg.chunks.map fun c => c.1.index).Nodup) {i j : ℕ}
    {c c' : ChunkInfo × Bytes} (hi : cfg.chunks[i]? = some c) (hj : cfg.chunks[j]? = some c')
    (h : c.1.index = c'.1.index) : i = j := by
  have hi' : (cfg.chunks.map fun c => c.1.index)[i]? = some c.1.index := by
    rw [List.getElem?_map, hi]
    rfl
  have hj' : (cfg.chunks.map fun c => c.1.index)[j]? = some c.1.index := by
    rw [List.getElem?_map, hj, h]
    rfl
  obtain ⟨hlt, -⟩ := List.getElem?_eq_some_iff.1 hi'
  exact (List.getElem?_inj hlt hd).1 (hi'.trans hj'.symm)

/-- An object that has the index of a chunk stands for it. -/
lemma Bounded.place_eq (hd : (cfg.chunks.map fun c => c.1.index).Nodup) {wire : List Value}
    (hs : Bounded cfg s wire) {i j : ℕ} {o : UnackedChunk} {c : ChunkInfo × Bytes}
    (ho : s.objects[j]? = some o) (hc : cfg.chunks[i]? = some c) (hidx : o.index = c.1.index) :
    j = i := by
  obtain ⟨c', hc', hidx', -⟩ := hs.chunk j o ho
  exact place_unique hd hc' hc (hidx'.symm.trans hidx)

/-- The wire has carried no chunk that has no object. -/
lemma Bounded.countP_eq_zero (hd : (cfg.chunks.map fun c => c.1.index).Nodup) {wire : List Value}
    (hs : Bounded cfg s wire) {i : ℕ} {c : ChunkInfo × Bytes} (hc : cfg.chunks[i]? = some c)
    (hnone : s.objects[i]? = none) : wire.countP (carriesIndex c.1.index) = 0 := by
  rw [List.countP_eq_zero]
  intro f hf
  obtain ⟨j, o, u, ho, rfl⟩ := hs.frames f hf
  rw [carriesIndex_frame, decide_eq_true_eq]
  intro hidx
  rw [hs.place_eq hd ho hc hidx, hnone] at ho
  cases ho

lemma bounded_first (hd : (cfg.chunks.map fun c => c.1.index).Nodup) {wire : List Value}
    {info : ChunkInfo} {data : Bytes} (hs : Bounded cfg s wire) (hplaced : Placed t)
    (hc : cfg.chunks[s.objects.length]? = some (info, data))
    (hroom : s.unacked.keys.length < cfg.windowSize)
    (hobj : t.objects = s.objects ++ [.new info data s.clock])
    (hun : t.unacked.keys.length ≤ s.unacked.keys.length + 1) :
    Bounded cfg t (wire ++ [frame cfg s.clock info.index info.chunkHash data]) where
  placed := hplaced
  window := by
    show t.unacked.keys.length ≤ _
    omega
  chunk j o ho := by
    rw [hobj] at ho
    rcases getElem?_concat_cases ho with ho | ⟨rfl, rfl⟩
    · exact hs.chunk j o ho
    · exact ⟨_, hc, rfl, rfl, rfl⟩
  retries j o ho := by
    rw [hobj] at ho
    rcases getElem?_concat_cases ho with ho | ⟨-, rfl⟩
    · exact hs.retries j o ho
    · exact Nat.zero_le _
  frames f hf := by
    rw [hobj]
    rcases List.mem_append.1 hf with hf | hf
    · obtain ⟨j, o, u, ho, rfl⟩ := hs.frames f hf
      exact ⟨j, o, u, getElem?_append_of_some ho _, rfl⟩
    · rw [List.mem_singleton.1 hf]
      exact ⟨_, _, _, List.getElem?_concat_length .., rfl⟩
  counted j o ho := by
    rw [hobj] at ho
    rw [List.countP_append, List.countP_singleton, carriesIndex_frame]
    rcases getElem?_concat_cases ho with ho | ⟨-, rfl⟩
    · -- an older chunk has another index
      have hne : info.index ≠ o.index := by
        intro heq
        have hlast : j = s.objects.length := hs.place_eq hd ho hc heq.symm
        have hlt := (List.getElem?_eq_some_iff.1 ho).1
        omega
      simp only [hne, decide_false, Bool.false_eq_true, if_false, Nat.add_zero]
      exact hs.counted j o ho
    · -- no frame so far carries the new index
      have hnone : wire.countP (carriesIndex info.index) = 0 :=
        hs.countP_eq_zero hd hc (List.getElem?_eq_none le_rfl)
      simp [UnackedChunk.new, hnone]

lemma bounded_again (hd : (cfg.chunks.map fun c => c.1.index).Nodup) {wire : List Value} {i : ℕ}
    {o : UnackedChunk} (hs : Bounded cfg s wire) (hplaced : Placed t)
    (ho : s.objects[i]? = some o) (hlt : o.retries < maxRetries)
    (hobj : t.objects = s.objects.set i { o with retries := o.retries + 1, timestamp := s.clock })
    (hun : t.unacked = s.unacked) :
    Bounded cfg t (wire ++ [frame cfg s.clock o.index o.chunkHash o.data]) where
  placed := hplaced
  window := by
    show t.unacked.keys.length ≤ _
    rw [hun]
    exact hs.window
  chunk j o' ho' := by
    rw [hobj] at ho'
    rcases getElem?_set_cases ho' with ⟨rfl, rfl⟩ | ⟨-, ho'⟩
    · exact hs.chunk i o ho
    · exact hs.chunk j o' ho'
  retries j o' ho' := by
    rw [hobj] at ho'
    rcases getElem?_set_cases ho' with ⟨rfl, rfl⟩ | ⟨-, ho'⟩
    · exact hlt
    · exact hs.retries j o' ho'
  frames f hf := by
    rw [hobj]
    rcases List.mem_append.1 hf with hf | hf
    · obtain ⟨j, o', u, ho', rfl⟩ := hs.frames f hf
      refine ⟨j, _, u, getElem?_set_of_some _ ho', ?_⟩
      split
      · next heq =>
        subst heq
        obtain rfl := Option.some.inj (ho.symm.trans ho')
        rfl
      · rfl
    · rw [List.mem_singleton.1 hf]
      refine ⟨i, _, s.clock, getElem?_set_of_some _ ho, ?_⟩
      rw [if_pos rfl]
  counted j o' ho' := by
    rw [hobj] at ho'
    rw [List.countP_append, List.countP_singleton, carriesIndex_frame]
    rcases getElem?_set_cases ho' with ⟨rfl, rfl⟩ | ⟨hne, ho'⟩
    · have hcount : wire.countP (carriesIndex o.index) = 1 + o.retries := hs.counted i o ho
      simp only [decide_true, if_true, hcount]
      omega
    · have hidx : o.index ≠ o'.index := by
        intro heq
        obtain ⟨c, hc, hidx, -⟩ := hs.chunk j o' ho'
        exact hne (hs.place_eq hd ho hc (heq.trans hidx))
      simp only [hidx, decide_false, Bool.false_eq_true, if_false, Nat.add_zero]
      exact hs.counted j o' ho'

/-- **Step lemma**: the bounds survive every step. -/
lemma bounded_exec (hd : (cfg.chunks.map fun c => c.1.index).Nodup) {x y : State × List Value}
    {l : PeerLabel} (hs : Bounded cfg x.1 x.2) (h : (wired cfg).exec x l = some y) :
    Bounded cfg y.1 y.2 := by
  obtain ⟨s, wire⟩ := x
  obtain ⟨t, wire'⟩ := y
  obtain ⟨hexec, hwire⟩ := Machine.exec_observed h
  obtain rfl : wire' = wire ++ emitted s t := hwire
  dsimp only at hs hexec ⊢
  obtain ⟨heffect, hplaced⟩ := effect_exec hs.placed hexec
  cases heffect with
  | quiet hobj hun hem =>
    rw [hem, List.append_nil]
    refine ⟨hplaced, hun.trans hs.window, ?_, ?_, ?_, ?_⟩
    · exact hobj ▸ hs.chunk
    · exact hobj ▸ hs.retries
    · exact hobj ▸ hs.frames
    · exact hobj ▸ hs.counted
  | first info data hc hroom hobj hun hem =>
    rw [hem]
    exact bounded_first hd hs hplaced hc hroom hobj hun
  | again i o ho hlt hobj hun hem =>
    rw [hem]
    exact bounded_again hd hs hplaced ho hlt hobj hun

lemma bounded_of_reachable (hd : (cfg.chunks.map fun c => c.1.index).Nodup)
    {x : State × List Value} (hx : (wired cfg).Reachable x) : Bounded cfg x.1 x.2 :=
  hx.invariant (I := fun x => Bounded cfg x.1 x.2) bounded_init
    fun _ _ _ hs h => bounded_exec hd hs h

/-! ## The bounds -/

/-- A chunk that was not sent yet was put on the wire no time, any other once and once for each
retry. -/
lemma Bounded.countP_le (hd : (cfg.chunks.map fun c => c.1.index).Nodup) {wire : List Value}
    (hs : Bounded cfg s wire) {c : ChunkInfo × Bytes} (hc : c ∈ cfg.chunks) :
    wire.countP (carriesIndex c.1.index) ≤ 1 + maxRetries := by
  obtain ⟨j, hj⟩ := List.mem_iff_getElem?.1 hc
  cases ho : s.objects[j]? with
  | some o =>
    obtain ⟨c', hc', hidx, -⟩ := hs.chunk j o ho
    obtain rfl := Option.some.inj (hj.symm.trans hc')
    rw [← hidx, hs.counted j o ho]
    have := hs.retries j o ho
    omega
  | none =>
    rw [hs.countP_eq_zero hd hj ho]
    exact Nat.zero_le _

/-- **Window and retransmission bounds hold for any peer.** -/
theorem window_bounds (cfg : Config) (hd : (cfg.chunks.map fun c => c.1.index).Nodup) (s : State)
    (wire : List Value) (h : (wired cfg).Reachable (s, wire)) :
    s.unacked.keys.length ≤ cfg.windowSize ∧
    (∀ c ∈ cfg.chunks, wire.countP (carriesIndex c.1.index) ≤ 1 + maxRetries) ∧
    ∀ f ∈ wire, ∃ c ∈ cfg.chunks, Carries f c.1.index ∧ Stores f c.1.chunkHash c.2 := by
  have hs : Bounded cfg s wire := bounded_of_reachable hd h
  refine ⟨hs.window, fun c hc => hs.countP_le hd hc, fun f hf => ?_⟩
  obtain ⟨j, o, u, ho, rfl⟩ := hs.frames f hf
  obtain ⟨c, hc, hidx, hhash, hdata⟩ := hs.chunk j o ho
  refine ⟨c, List.mem_of_getElem? hc, ?_, ?_⟩
  · rw [← hidx]
    exact carries_frame ..
  · rw [← hhash, ← hdata]
    exact stores_frame ..

/-- The first of two chunks is acknowledged before its frame has arrived, so that there is room
for the second one. -/
def earlyAck : List PeerLabel :=
  [.sender .start, .message (chunkAckMsg 0 "peer" "a" 0), .sender .receive,
    .sender (.sendDone true)]

/-- The state after `earlyAck`. -/
def afterEarlyAck : State where
  unacked := (((∅ : Dict Key ℕ).set (indexKey 0) 0).erase (indexKey 0)).set (indexKey 1) 1
  objects := [.new ⟨0, "a", 1, false⟩ [0] 0, .new ⟨1, "b", 1, false⟩ [1] 0]
  acked := {indexKey 0}
  sendIdx := 1
  main := .sending
  listening := true
  sweep := .asleep (0 + sweepInterval)
  outgoing := [frame twoChunks 0 0 "a" [0], frame twoChunks 0 1 "b" [1]]

theorem window_bounds_earlyAck :
    afterEarlyAck.unacked.keys.length ≤ 1 ∧
    (∀ c ∈ twoChunks.chunks, afterEarlyAck.outgoing.countP (carriesIndex c.1.index) ≤ 6) ∧
    ∀ f ∈ afterEarlyAck.outgoing, ∃ c ∈ twoChunks.chunks,
      Carries f c.1.index ∧ Stores f c.1.chunkHash c.2 :=
  window_bounds twoChunks (by decide) afterEarlyAck afterEarlyAck.outgoing ⟨earlyAck, rfl⟩

end DistriStore.SlidingWindow
