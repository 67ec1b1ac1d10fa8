import DistriStore.Strategies.WindowBounds

/-!
# The statistics of the sliding window sender

`send_all` returns the size of `_acked` and the number of its indices that have a retry count in
`_unacked`.  Two histories say what these numbers should be: the frames that were put on the wire,
and the indices of the CHUNK_ACK messages that `_ack_listener` has handed to `_handle_ack`.

`_acked` takes in every index that the peer sends, `-1` for a message without one, and
`_handle_ack` deletes from `_unacked` the entry in which the retries of the chunk are counted.  So
the numbers are right when every index is that of a chunk, no chunk that was sent again is
acknowledged while it is in `_unacked`, and none is sent again after that; and since an index never
leaves `_acked` and a deleted entry never comes back, in no other run (`truthful_iff`).
-/

namespace DistriStore.SlidingWindow

open Lib

/-! ## What is counted -/

/-- The index that a message acknowledges, as `_ack_listener` reads it. -/
def acknowledges (msg : Value) : Option Key :=
  match msg.getD "type" .nil, msg.getD "index" (.int (-1)) with
  | .ok type, .ok index => if type.isStr "CHUNK_ACK" then index.key? else none
  | _, _ => none

/-- The index that a step hands to `_handle_ack`. -/
def handled (s : State) : PeerLabel → List Key
  | .sender .receive => (s.incoming.head?.bind acknowledges).toList
  | _ => []

/-- The first of these objects that the sweep has not given up. -/
def nextResent (s : State) (ids : List ℕ) : Option ℕ :=
  ids.find? fun i => (s.objects[i]?).any fun o => o.retries < maxRetries

/-- The object that a step sends again. -/
def resent (s : State) : PeerLabel → Option ℕ
  | .sender .sweepWake => nextResent s (timedOut s)
  | .sender .sweepSent =>
    match s.sweep with
    | .sending rest => nextResent s rest
    | _ => none
  | _ => none

variable (cfg : Config)

/-- The sender with the frames it has sent and the indices that were acknowledged. -/
def counted : Machine ((State × List Value) × List Key) PeerLabel :=
  (wired cfg).observed [] fun acks x l _ => acks ++ handled x.1 l

/-- The statistics are those of the chunks that were acknowledged, and of those among them that
were sent more than once. -/
structure Truthful (wire : List Value) (acks : List Key) (stats : SendStats) : Prop where
  acked : stats.totalAcked = (cfg.chunks.filter fun c => indexKey c.1.index ∈ acks).length
  complete : stats.totalAcked = stats.totalSent → ∀ c ∈ cfg.chunks, indexKey c.1.index ∈ acks
  resent : stats.retransmissions = (cfg.chunks.filter fun c =>
    indexKey c.1.index ∈ acks ∧ 2 ≤ wire.countP (carriesIndex c.1.index)).length

/-- A step that the counters can follow. -/
structure Followed (s : State) (l : PeerLabel) : Prop where
  /-- An index that is acknowledged is that of a chunk. -/
  known : ∀ k ∈ handled s l, ∃ c ∈ cfg.chunks, indexKey c.1.index = k
  /-- A chunk that is acknowledged while it is in `_unacked` has been sent once. -/
  once : ∀ k ∈ handled s l, ∀ (i : ℕ) (o : UnackedChunk), s.unacked.get? k = some i →
    s.objects[i]? = some o → o.retries = 0
  /-- A chunk that is sent again is in `_unacked`. -/
  still : ∀ i, resent s l = some i → i ∈ s.unacked.values

/-! ## What a step does to the tables -/

/-- The changes of `_unacked`, `_acked` and the objects. -/
inductive Tables (s : State) (l : PeerLabel) (t : State) : Prop where
  | same (objects : t.objects = s.objects) (unacked : t.unacked = s.unacked)
      (acked : t.acked = s.acked) (handled : handled s l = []) (resent : resent s l = none)
  | ack (k : Key) (objects : t.objects = s.objects) (unacked : t.unacked = s.unacked.erase k)
      (acked : t.acked = insert k s.acked) (handled : handled s l = [k])
      (resent : resent s l = none)
  | first (info : ChunkInfo) (data : Bytes)
      (chunk : cfg.chunks[s.objects.length]? = some (info, data))
      (objects : t.objects = s.objects ++ [.new info data s.clock])
      (unacked : t.unacked = s.unacked.set (indexKey info.index) s.objects.length)
      (acked : t.acked = s.acked) (handled : handled s l = []) (resent : resent s l = none)
  | again (i : ℕ) (o : UnackedChunk) (object : s.objects[i]? = some o)
      (objects : t.objects =
        s.objects.set i { o with retries := o.retries + 1, timestamp := s.clock })
      (unacked : t.unacked = s.unacked) (acked : t.acked = s.acked)
      (handled : handled s l = []) (resent : resent s l = some i)

variable {cfg} {s t : State}

/-- A message either acknowledges an index, or it changes none of the tables. -/
lemma onMessage_cases (cfg : Config) (s : State) (msg : Value) :
    (∃ k, acknowledges msg = some k ∧ onMessage cfg s msg = listen cfg (handleAck cfg s k)) ∨
      acknowledges msg = none ∧
        (onMessage cfg s msg = stopListening s ∨ onMessage cfg s msg = listen cfg s) := by
  unfold onMessage
  split
  · exact Or.inr ⟨rfl, Or.inl rfl⟩
  · split
    · next e htype => exact Or.inr ⟨by rw [acknowledges, htype], Or.inl rfl⟩
    · next type htype =>
      split
      · next hack =>
        split
        · next e hindex => exact Or.inr ⟨by rw [acknowledges, htype, hindex], Or.inl rfl⟩
        · next index hindex =>
          split
          · next hkey =>
            exact Or.inr ⟨by simp [acknowledges, htype, hindex, hkey], Or.inl rfl⟩
          · next k hkey =>
            exact Or.inl ⟨k, by simp [acknowledges, htype, hindex, hack, hkey], rfl⟩
      · next hack =>
        refine Or.inr ⟨?_, Or.inr rfl⟩
        unfold acknowledges
        split
        · next type' index htype' hindex =>
          obtain rfl : type = type' := Except.ok.inj (htype.symm.trans htype')
          exact if_neg hack
        · rfl

/-- The sweep goes on with the object that it sends again, if there is one. -/
lemma sweepNext_eq (cfg : Config) (s : State) (ids : List ℕ) :
    nextResent s ids = none ∧ sweepNext cfg s ids = endSweep s ∨
      ∃ i o rest, nextResent s ids = some i ∧ s.objects[i]? = some o ∧
        sweepNext cfg s ids = retransmit cfg s i o rest := by
  induction ids with
  | nil => exact Or.inl ⟨rfl, rfl⟩
  | cons i rest ih =>
    unfold sweepNext nextResent
    split
    · next hnone =>
      rw [List.find?_cons_of_neg (by simp [hnone])]
      exact ih
    · next o ho =>
      split
      · next hmax =>
        rw [List.find?_cons_of_neg (by simp [ho, hmax])]
        exact ih
      · next hmax =>
        refine Or.inr ⟨i, o, rest, ?_, ho, rfl⟩
        rw [List.find?_cons_of_pos (by simpa [ho] using hmax)]

lemma tables_sweepNext {l : PeerLabel} {ids : List ℕ} (hl : handled s l = [])
    (hids : resent s l = nextResent s ids) : Tables cfg s l (sweepNext cfg s ids) := by
  rcases sweepNext_eq cfg s ids with ⟨hnone, heq⟩ | ⟨i, o, rest, hsome, ho, heq⟩
  · rw [heq]
    exact .same rfl rfl rfl hl (hids.trans hnone)
  · rw [heq]
    exact .again i o ho rfl rfl rfl hl (hids.trans hsome)

lemma tables_fill {s₀ : State} {l : PeerLabel} (hobj : s₀.objects = s.objects)
    (hun : s₀.unacked = s.unacked) (hacked : s₀.acked = s.acked) (hclock : s₀.clock = s.clock)
    (hidx : s.objects.length = s₀.sendIdx) (hl : handled s l = []) (hr : resent s l = none) :
    Tables cfg s l (fill cfg s₀) := by
  unfold fill
  split
  · exact .same hobj hun hacked hl hr
  · next info data hc =>
    split
    · refine .first info data (hidx ▸ hc) ?_ ?_ hacked hl hr
      · simp only [sendChunk, hobj, hclock]
      · simp only [sendChunk, hobj, hun]
    · exact .same hobj hun hacked hl hr

/-- **Step lemma** for the tables. -/
lemma tables_exec (hs : Placed s) {l : PeerLabel} (h : (openLine cfg).exec s l = some t) :
    Tables cfg s l t := by
  cases l with
  | message msg =>
    obtain rfl := Option.some.inj h
    exact .same rfl rfl rfl rfl rfl
  | sender l =>
    replace h : exec cfg s l = some t := h
    cases l with
    | start =>
      obtain ⟨hidle, ⟨-, rfl⟩ | ⟨-, rfl⟩⟩ := exec_start h
      · exact .same rfl rfl rfl rfl rfl
      · exact tables_fill rfl rfl rfl rfl (hs.idle hidle) rfl rfl
    | sendDone ok =>
      obtain ⟨hsending, ⟨-, rfl⟩ | ⟨-, rfl⟩⟩ := exec_sendDone h
      · exact tables_fill rfl rfl rfl rfl (hs.sending hsending) rfl rfl
      · exact .same rfl rfl rfl rfl rfl
    | receive =>
      obtain ⟨msg, rest, -, hin, rfl⟩ := exec_receive h
      rcases onMessage_cases cfg { s with incoming := rest } msg with
        ⟨k, hk, heq⟩ | ⟨hnone, heq | heq⟩
      · rw [heq]
        exact .ack k rfl rfl rfl (by simp [handled, hin, hk]) rfl
      · rw [heq]
        exact .same rfl rfl rfl (by simp [handled, hin, hnone]) rfl
      · rw [heq]
        exact .same rfl rfl rfl (by simp [handled, hin, hnone]) rfl
    | disconnect =>
      obtain ⟨-, rfl⟩ := exec_disconnect h
      exact .same rfl rfl rfl rfl rfl
    | sweepWake =>
      obtain ⟨till, -, -, rfl⟩ := exec_sweepWake h
      exact tables_sweepNext rfl rfl
    | sweepSent =>
      obtain ⟨rest, hsending, rfl⟩ := exec_sweepSent h
      exact tables_sweepNext rfl (by simp [resent, hsending])
    | finish =>
      obtain ⟨-, -, rfl⟩ := exec_finish h
      exact .same rfl rfl rfl rfl rfl
    | deliver answers =>
      obtain ⟨f, rest, -, rfl⟩ := exec_deliver h
      exact .same rfl rfl rfl rfl rfl
    | tick d =>
      obtain ⟨-, rfl⟩ := exec_tick h
      exact .same rfl rfl rfl rfl rfl

/-! ## Accurate tables -/

/-- `_acked` has only indices of chunks, and an acknowledged chunk that was sent again is still in
`_unacked`. -/
structure Accurate (cfg : Config) (s : State) : Prop where
  known : ∀ k ∈ s.acked, ∃ c ∈ cfg.chunks, indexKey c.1.index = k
  kept : ∀ (i : ℕ) (o : UnackedChunk), s.objects[i]? = some o → 0 < o.retries →
    indexKey o.index ∈ s.acked → s.unacked.get? (indexKey o.index) = some i

/-- The tables, and what is known of them in every run. -/
structure TablesInv (cfg : Config) (s : State) : Prop where
  chunk : ∀ (j : ℕ) (o : UnackedChunk), s.objects[j]? = some o →
    ∃ c : ChunkInfo × Bytes, cfg.chunks[j]? = some c ∧ o.index = c.1.index
  /-- `_unacked` files an object under its index. -/
  filed : ∀ (k : Key) (i : ℕ), s.unacked.get? k = some i →
    ∃ o : UnackedChunk, s.objects[i]? = some o ∧ indexKey o.index = k
  /-- An object has left `_unacked` when it was acknowledged. -/
  gone : ∀ (i : ℕ) (o : UnackedChunk), s.objects[i]? = some o →
    s.unacked.get? (indexKey o.index) = none → indexKey o.index ∈ s.acked

lemma indexKey_inj {i j : ℤ} : indexKey i = indexKey j ↔ i = j := by
  simp [indexKey]

/-- With distinct indices an object is known by its index. -/
lemma TablesInv.place_eq (hd : (cfg.chunks.map fun c => c.1.index).Nodup) (hs : TablesInv cfg s)
    {i j : ℕ} {o o' : UnackedChunk} (ho : s.objects[i]? = some o) (ho' : s.objects[j]? = some o')
    (h : indexKey o.index = indexKey o'.index) : i = j := by
  obtain ⟨c, hc, hidx⟩ := hs.chunk i o ho
  obtain ⟨c', hc', hidx'⟩ := hs.chunk j o' ho'
  refine place_unique hd hc hc' ?_
  rw [← hidx, ← hidx', indexKey_inj.1 h]

/-- What `_unacked` has under the index of an object is the object. -/
lemma TablesInv.get?_eq (hd : (cfg.chunks.map fun c => c.1.index).Nodup) (hs : TablesInv cfg s)
    {i j : ℕ} {o : UnackedChunk} (ho : s.objects[i]? = some o)
    (hj : s.unacked.get? (indexKey o.index) = some j) : j = i := by
  obtain ⟨o', ho', hkey⟩ := hs.filed _ j hj
  exact hs.place_eq hd ho' ho hkey

section Step

variable {l : PeerLabel} {k : Key} {i : ℕ} {o : UnackedChunk} {info : ChunkInfo} {data : Bytes}

lemma tablesInv_ack (hs : TablesInv cfg s) (hobj : t.objects = s.objects)
    (hun : t.unacked = s.unacked.erase k) (hacked : t.acked = insert k s.acked) :
    TablesInv cfg t := by
  refine ⟨hobj ▸ hs.chunk, fun k' i hi => ?_, fun i o ho hnone => ?_⟩
  · rw [hun, Dict.get?_erase] at hi
    split at hi
    · cases hi
    · rw [hobj]
      exact hs.filed k' i hi
  · rw [hobj] at ho
    rw [hun, Dict.get?_erase] at hnone
    rw [hacked, Finset.mem_insert]
    split at hnone
    · next heq => exact Or.inl heq
    · exact Or.inr (hs.gone i o ho hnone)

/-- The objects so far have other indices than the next one. -/
lemma TablesInv.index_ne (hd : (cfg.chunks.map fun c => c.1.index).Nodup) (hs : TablesInv cfg s)
    (hc : cfg.chunks[s.objects.length]? = some (info, data)) {j : ℕ}
    (ho : s.objects[j]? = some o) : indexKey o.index ≠ indexKey info.index := by
  intro heq
  obtain ⟨c, hcj, hidx⟩ := hs.chunk j o ho
  have hlast := place_unique hd hcj hc (hidx.symm.trans (indexKey_inj.1 heq))
  have hlt := (List.getElem?_eq_some_iff.1 ho).1
  omega

lemma tablesInv_first (hd : (cfg.chunks.map fun c => c.1.index).Nodup) (hs : TablesInv cfg s)
    (hc : cfg.chunks[s.objects.length]? = some (info, data))
    (hobj : t.objects = s.objects ++ [.new info data s.clock])
    (hun : t.unacked = s.unacked.set (indexKey info.index) s.objects.length)
    (hacked : t.acked = s.acked) : TablesInv cfg t := by
  refine ⟨fun j o ho => ?_, fun k i hi => ?_, fun i o ho hnone => ?_⟩
  · rw [hobj] at ho
    rcases getElem?_concat_cases ho with ho | ⟨rfl, rfl⟩
    · exact hs.chunk j o ho
    · exact ⟨_, hc, rfl⟩
  · rw [hobj]
    rw [hun, Dict.get?_set] at hi
    split at hi
    · next heq =>
      obtain rfl := Option.some.inj hi
      exact ⟨_, List.getElem?_concat_length .., heq.symm⟩
    · obtain ⟨o, ho, hkey⟩ := hs.filed k i hi
      exact ⟨o, getElem?_append_of_some ho _, hkey⟩
  · rw [hobj] at ho
    rw [hun] at hnone
    rw [hacked]
    rcases getElem?_concat_cases ho with ho | ⟨rfl, rfl⟩
    · rw [Dict.get?_set_ne _ _ (hs.index_ne hd hc ho)] at hnone
      exact hs.gone i o ho hnone
    · exact absurd (hnone.symm.trans (Dict.get?_set_self ..)) (by simp)

lemma tablesInv_again (hs : TablesInv cfg s) (ho : s.objects[i]? = some o)
    (hobj : t.objects = s.objects.set i { o with retries := o.retries + 1, timestamp := s.clock })
    (hun : t.unacked = s.unacked) (hacked : t.acked = s.acked) : TablesInv cfg t := by
  refine ⟨fun j o' ho' => ?_, fun k j hj => ?_, fun j o' ho' hnone => ?_⟩
  · rw [hobj] at ho'
    rcases getElem?_set_cases ho' with ⟨rfl, rfl⟩ | ⟨-, ho'⟩
    · exact hs.chunk i o ho
    · exact hs.chunk j o' ho'
  · obtain ⟨o', ho', hkey⟩ := hs.filed k j (hun ▸ hj)
    rw [hobj]
    refine ⟨_, getElem?_set_of_some _ ho', ?_⟩
    split
    · next hij =>
      subst hij
      obtain rfl := Option.some.inj (ho.symm.trans ho')
      exact hkey
    · exact hkey
  · rw [hobj] at ho'
    rw [hun] at hnone
    rw [hacked]
    rcases getElem?_set_cases ho' with ⟨rfl, rfl⟩ | ⟨-, ho'⟩
    · exact hs.gone i o ho hnone
    · exact hs.gone j o' ho' hnone

/-- What is known of the tables stays so in every step. -/
lemma TablesInv.step (hd : (cfg.chunks.map fun c => c.1.index).Nodup) (hs : TablesInv cfg s)
    (ht : Tables cfg s l t) : TablesInv cfg t := by
  cases ht with
  | same hobj hun hacked =>
    refine ⟨hobj ▸ hs.chunk, ?_, ?_⟩
    · rw [hobj, hun]
      exact hs.filed
    · rw [hobj, hun, hacked]
      exact hs.gone
  | ack k hobj hun hacked => exact tablesInv_ack hs hobj hun hacked
  | first info data hc hobj hun hacked => exact tablesInv_first hd hs hc hobj hun hacked
  | again i o ho hobj hun hacked => exact tablesInv_again hs ho hobj hun hacked

lemma accurate_ack (hd : (cfg.chunks.map fun c => c.1.index).Nodup) (hs : TablesInv cfg s)
    (hobj : t.objects = s.objects) (hun : t.unacked = s.unacked.erase k)
    (hacked : t.acked = insert k s.acked) (hk : handled s l = [k]) (hr : resent s l = none) :
    Accurate cfg t ↔ Accurate cfg s ∧ Followed cfg s l := by
  constructor
  · intro h
    have hkept (i : ℕ) (o : UnackedChunk) (ho : s.objects[i]? = some o) (hpos : 0 < o.retries)
        (hmem : indexKey o.index ∈ insert k s.acked) :
        (s.unacked.erase k).get? (indexKey o.index) = some i := by
      rw [← hun]
      exact h.kept i o (hobj ▸ ho) hpos (hacked ▸ hmem)
    refine ⟨⟨fun k' hk' => ?_, fun i o ho hpos hmem => ?_⟩, ⟨?_, ?_, ?_⟩⟩
    · exact h.known k' (hacked ▸ Finset.mem_insert_of_mem hk')
    · have hget := hkept i o ho hpos (Finset.mem_insert_of_mem hmem)
      rw [Dict.get?_erase] at hget
      split at hget
      · cases hget
      · exact hget
    · rw [hk]
      simp only [List.mem_singleton, forall_eq]
      exact h.known k (hacked ▸ Finset.mem_insert_self ..)
    · rw [hk]
      simp only [List.mem_singleton, forall_eq]
      intro i o hi ho
      obtain ⟨o', ho', rfl⟩ := hs.filed k i hi
      obtain rfl := Option.some.inj (ho.symm.trans ho')
      by_contra hne
      have hget := hkept i o ho (Nat.pos_of_ne_zero hne) (Finset.mem_insert_self ..)
      rw [Dict.get?_erase_self] at hget
      cases hget
    · intro i hi
      rw [hr] at hi
      cases hi
  · rintro ⟨h, hstep⟩
    have hmem : k ∈ handled s l := hk ▸ List.mem_singleton_self k
    refine ⟨fun k' hk' => ?_, fun i o ho hpos hin => ?_⟩
    · rw [hacked, Finset.mem_insert] at hk'
      rcases hk' with rfl | hk'
      · exact hstep.known k' hmem
      · exact h.known k' hk'
    · rw [hobj] at ho
      -- under the acknowledged index there is no object that was sent again
      have hne : indexKey o.index ≠ k := by
        rintro rfl
        cases hget : s.unacked.get? (indexKey o.index) with
        | none =>
          have := h.kept i o ho hpos (hs.gone i o ho hget)
          rw [hget] at this
          cases this
        | some j =>
          obtain rfl := hs.get?_eq hd ho hget
          have := hstep.once _ hmem j o hget ho
          omega
      rw [hacked, Finset.mem_insert, or_iff_right hne] at hin
      rw [hun, Dict.get?_erase_ne _ hne]
      exact h.kept i o ho hpos hin

lemma accurate_first (hd : (cfg.chunks.map fun c => c.1.index).Nodup) (hs : TablesInv cfg s)
    (hc : cfg.chunks[s.objects.length]? = some (info, data))
    (hobj : t.objects = s.objects ++ [.new info data s.clock])
    (hun : t.unacked = s.unacked.set (indexKey info.index) s.objects.length)
    (hacked : t.acked = s.acked) : Accurate cfg t ↔ Accurate cfg s := by
  have hget (j : ℕ) (o : UnackedChunk) (ho : s.objects[j]? = some o) :
      t.unacked.get? (indexKey o.index) = s.unacked.get? (indexKey o.index) := by
    rw [hun, Dict.get?_set_ne _ _ (hs.index_ne hd hc ho)]
  constructor
  · intro h
    refine ⟨hacked ▸ h.known, fun i o ho hpos hin => ?_⟩
    rw [← hget i o ho]
    exact h.kept i o (hobj ▸ getElem?_append_of_some ho _) hpos (hacked ▸ hin)
  · intro h
    refine ⟨hacked ▸ h.known, fun i o ho hpos hin => ?_⟩
    rw [hobj] at ho
    rcases getElem?_concat_cases ho with ho | ⟨-, rfl⟩
    · rw [hget i o ho]
      exact h.kept i o ho hpos (hacked ▸ hin)
    · exact absurd hpos (Nat.lt_irrefl 0)

lemma accurate_again (hd : (cfg.chunks.map fun c => c.1.index).Nodup) (hs : TablesInv cfg s)
    (ho : s.objects[i]? = some o)
    (hobj : t.objects = s.objects.set i { o with retries := o.retries + 1, timestamp := s.clock })
    (hun : t.unacked = s.unacked) (hacked : t.acked = s.acked) (hk : handled s l = [])
    (hr : resent s l = some i) : Accurate cfg t ↔ Accurate cfg s ∧ Followed cfg s l := by
  constructor
  · intro h
    have hkept (hin : indexKey o.index ∈ s.acked) :
        s.unacked.get? (indexKey o.index) = some i := by
      have hset : t.objects[i]? =
          some { o with retries := o.retries + 1, timestamp := s.clock } := by
        rw [hobj, getElem?_set_of_some _ ho, if_pos rfl]
      have hget := h.kept i _ hset (Nat.succ_pos _) (hacked ▸ hin)
      rwa [hun] at hget
    refine ⟨⟨hacked ▸ h.known, fun j o' ho' hpos hin => ?_⟩, ⟨?_, ?_, ?_⟩⟩
    · by_cases hij : i = j
      · subst hij
        obtain rfl := Option.some.inj (ho.symm.trans ho')
        exact hkept hin
      · have hset : t.objects[j]? = some o' := by
          rw [hobj, getElem?_set_of_some _ ho', if_neg hij]
        rw [← hun]
        exact h.kept j o' hset hpos (hacked ▸ hin)
    · simp [hk]
    · simp [hk]
    · intro j hj
      obtain rfl := Option.some.inj (hr.symm.trans hj)
      cases hget : s.unacked.get? (indexKey o.index) with
      | none =>
        have := hkept (hs.gone i o ho hget)
        rw [hget] at this
        cases this
      | some j =>
        obtain rfl := hs.get?_eq hd ho hget
        exact Dict.mem_values_iff.2 ⟨_, hget⟩
  · rintro ⟨h, hstep⟩
    obtain ⟨k, hget⟩ := Dict.mem_values_iff.1 (hstep.still i hr)
    refine ⟨hacked ▸ h.known, fun j o' ho' hpos hin => ?_⟩
    rw [hobj] at ho'
    rw [hun]
    rcases getElem?_set_cases ho' with ⟨rfl, rfl⟩ | ⟨-, ho'⟩
    · obtain ⟨o', ho', hkey⟩ := hs.filed k i hget
      obtain rfl := Option.some.inj (ho.symm.trans ho')
      exact hkey ▸ hget
    · exact h.kept j o' ho' hpos (hacked ▸ hin)

lemma accurate_same (hobj : t.objects = s.objects) (hun : t.unacked = s.unacked)
    (hacked : t.acked = s.acked) : Accurate cfg t ↔ Accurate cfg s := by
  constructor
  · intro h
    refine ⟨hacked ▸ h.known, ?_⟩
    rw [← hobj, ← hun, ← hacked]
    exact h.kept
  · intro h
    refine ⟨hacked ▸ h.known, ?_⟩
    rw [hobj, hun, hacked]
    exact h.kept

/-- A step that acknowledges nothing and sends nothing again can be followed. -/
lemma followed_of_none (hk : handled s l = []) (hr : resent s l = none) : Followed cfg s l := by
  refine ⟨?_, ?_, ?_⟩
  · simp [hk]
  · simp [hk]
  · simp [hr]

end Step

/-- **The tables stay accurate through a step just when it can be followed**; and what a step has
spoilt, no later one makes good. -/
lemma accurate_exec (hd : (cfg.chunks.map fun c => c.1.index).Nodup) (hplaced : Placed s)
    (hs : TablesInv cfg s) {l : PeerLabel} (h : (openLine cfg).exec s l = some t) :
    TablesInv cfg t ∧ (Accurate cfg t ↔ Accurate cfg s ∧ Followed cfg s l) := by
  have htables := tables_exec hplaced h
  refine ⟨hs.step hd htables, ?_⟩
  cases htables with
  | same hobj hun hacked hk hr =>
    exact (accurate_same hobj hun hacked).trans (and_iff_left (followed_of_none hk hr)).symm
  | ack k hobj hun hacked hk hr => exact accurate_ack hd hs hobj hun hacked hk hr
  | first info data hc hobj hun hacked hk hr =>
    exact (accurate_first hd hs hc hobj hun hacked).trans
      (and_iff_left (followed_of_none hk hr)).symm
  | again i o ho hobj hun hacked hk hr => exact accurate_again hd hs ho hobj hun hacked hk hr

/-! ## The numbers that are returned -/

/-- The statistics that `send_all` has returned are those of its tables, which no longer change. -/
structure Settled (cfg : Config) (s : State) : Prop where
  idle : s.main = .idle → s.listening = false ∧ s.sweep = .off ∧ s.acked = ∅
  returned : ∀ stats, s.main = .returned stats → s.listening = false ∧ s.sweep = .off ∧
    stats = ⟨cfg.chunks.length, s.acked.card, retransmissions s, cfg.windowSize⟩

lemma main_fill (cfg : Config) (s : State) :
    (fill cfg s).main = .sending ∨ (fill cfg s).main = .waiting := by
  unfold fill
  split
  · exact Or.inr rfl
  · split
    · exact Or.inl rfl
    · exact Or.inr rfl

lemma settled_of_main (h : t.main = .sending ∨ t.main = .waiting ∨ t.main = .raised) :
    Settled cfg t := by
  constructor <;> intros <;> simp_all

/-- While a task of the sender is running, `send_all` has neither begun nor returned. -/
lemma Settled.of_running (hs : Settled cfg s) (hrun : s.listening = true ∨ s.sweep ≠ .off)
    (hmain : t.main = s.main) : Settled cfg t := by
  constructor
  · intro hidle
    obtain ⟨hl, hsweep, -⟩ := hs.idle (hmain ▸ hidle)
    simp [hl, hsweep] at hrun
  · intro stats hreturned
    obtain ⟨hl, hsweep, -⟩ := hs.returned stats (hmain ▸ hreturned)
    simp [hl, hsweep] at hrun

lemma settled_exec (hs : Settled cfg s) {l : PeerLabel} (h : (openLine cfg).exec s l = some t) :
    Settled cfg t := by
  cases l with
  | message msg =>
    obtain rfl := Option.some.inj h
    exact ⟨hs.idle, hs.returned⟩
  | sender l =>
    replace h : exec cfg s l = some t := h
    cases l with
    | start =>
      obtain ⟨hidle, ⟨hnil, rfl⟩ | ⟨-, rfl⟩⟩ := exec_start h
      · obtain ⟨hl, hsweep, hacked⟩ := hs.idle hidle
        refine ⟨fun hm => by simp at hm, fun stats hm => ⟨hl, hsweep, ?_⟩⟩
        obtain rfl := Main.returned.inj hm
        simp [hnil, hacked, retransmissions]
      · exact settled_of_main ((main_fill cfg _).imp_right Or.inl)
    | sendDone ok =>
      obtain ⟨-, ⟨-, rfl⟩ | ⟨-, rfl⟩⟩ := exec_sendDone h
      · exact settled_of_main ((main_fill cfg _).imp_right Or.inl)
      · exact settled_of_main (Or.inr (Or.inr rfl))
    | receive =>
      obtain ⟨msg, rest, hl, -, rfl⟩ := exec_receive h
      exact hs.of_running (Or.inl hl) (onMessage_frame cfg _ msg).2.2.1
    | disconnect =>
      obtain ⟨hl, rfl⟩ := exec_disconnect h
      exact hs.of_running (Or.inl hl) rfl
    | sweepWake =>
      obtain ⟨till, hsweep, -, rfl⟩ := exec_sweepWake h
      exact hs.of_running (Or.inr (by simp [hsweep])) (main_sweepNext s _)
    | sweepSent =>
      obtain ⟨rest, hsweep, rfl⟩ := exec_sweepSent h
      exact hs.of_running (Or.inr (by simp [hsweep])) (main_sweepNext s _)
    | finish =>
      obtain ⟨-, -, rfl⟩ := exec_finish h
      refine ⟨fun hm => by simp at hm, fun stats hm => ⟨rfl, rfl, ?_⟩⟩
      exact (Main.returned.inj hm).symm
    | deliver answers =>
      obtain ⟨f, rest, -, rfl⟩ := exec_deliver h
      exact ⟨hs.idle, hs.returned⟩
    | tick d =>
      obtain ⟨-, rfl⟩ := exec_tick h
      exact ⟨hs.idle, hs.returned⟩

/-- What is known of the sender and the two histories in every run. -/
structure CountedInv (cfg : Config) (x : (State × List Value) × List Key) : Prop where
  bounded : Bounded cfg x.1.1 x.1.2
  tables : TablesInv cfg x.1.1
  settled : Settled cfg x.1.1
  acked : x.1.1.acked = x.2.toFinset

lemma countedInv_init : CountedInv cfg (counted cfg).init where
  bounded := bounded_init
  tables := ⟨fun j o h => by simp [counted, wired, openLine, Machine.observed] at h,
    fun k i h => by simp [counted, wired, openLine, Machine.observed] at h,
    fun i o h => by simp [counted, wired, openLine, Machine.observed] at h⟩
  settled := ⟨fun _ => ⟨rfl, rfl, rfl⟩, fun stats h => by
    simp [counted, wired, openLine, Machine.observed] at h⟩
  acked := rfl

/-- `_acked` is the set of the indices that were handed to `_handle_ack`. -/
lemma acked_exec (hs : Placed s) {l : PeerLabel} (h : (openLine cfg).exec s l = some t) :
    t.acked = s.acked ∪ (handled s l).toFinset := by
  cases tables_exec hs h with
  | same _ _ hacked hk _ => simp [hacked, hk]
  | ack k _ _ hacked hk _ => simp [hacked, hk]
  | first _ _ _ _ _ hacked hk _ => simp [hacked, hk]
  | again _ _ _ _ _ hacked hk _ => simp [hacked, hk]

lemma countedInv_exec (hd : (cfg.chunks.map fun c => c.1.index).Nodup)
    {x y : (State × List Value) × List Key} {l : PeerLabel} (hx : CountedInv cfg x)
    (h : (counted cfg).exec x l = some y) :
    CountedInv cfg y ∧
      (Accurate cfg y.1.1 ↔ Accurate cfg x.1.1 ∧ Followed cfg x.1.1 l) := by
  obtain ⟨hwired, hacks⟩ := Machine.exec_observed h
  obtain ⟨hexec, -⟩ := Machine.exec_observed hwired
  obtain ⟨ht, hiff⟩ := accurate_exec hd hx.bounded.placed hx.tables hexec
  refine ⟨⟨bounded_exec hd hx.bounded hwired, ht, settled_exec hx.settled hexec, ?_⟩, hiff⟩
  rw [acked_exec hx.bounded.placed hexec, hacks, List.toFinset_append, hx.acked]

/-! ## When the statistics are truthful -/

/-- The keys of the chunks with `p`. -/
def keysOf (cfg : Config) (p : ChunkInfo × Bytes → Prop) [DecidablePred p] : Finset Key :=
  ((cfg.chunks.filter fun c => p c).map fun c => indexKey c.1.index).toFinset

section

variable {p : ChunkInfo × Bytes → Prop} [DecidablePred p]

lemma mem_keysOf {k : Key} :
    k ∈ keysOf cfg p ↔ ∃ c ∈ cfg.chunks, p c ∧ indexKey c.1.index = k := by
  simp [keysOf, and_assoc]

/-- Distinct chunks have distinct keys. -/
lemma card_keysOf (hd : (cfg.chunks.map fun c => c.1.index).Nodup) :
    (keysOf cfg p).card = (cfg.chunks.filter fun c => p c).length := by
  have hnodup : ((cfg.chunks.filter fun c => p c).map fun c => indexKey c.1.index).Nodup :=
    nodup_map_filter hd fun _ _ _ _ heq => indexKey_inj.1 heq
  rw [keysOf, List.toFinset_card_of_nodup hnodup, List.length_map]

end

section Returned

variable {wire : List Value} {acks : List Key} {stats : SendStats}

/-- The frames of a chunk tell whether its object was sent again. -/
lemma resent_iff (hd : (cfg.chunks.map fun c => c.1.index).Nodup) (hs : Bounded cfg s wire)
    {c : ChunkInfo × Bytes} (hc : c ∈ cfg.chunks) :
    2 ≤ wire.countP (carriesIndex c.1.index) ↔
      ∃ (i : ℕ) (o : UnackedChunk), s.objects[i]? = some o ∧ o.index = c.1.index ∧
        0 < o.retries := by
  obtain ⟨j, hj⟩ := List.mem_iff_getElem?.1 hc
  constructor
  · intro h
    cases ho : s.objects[j]? with
    | none =>
      rw [hs.countP_eq_zero hd hj ho] at h
      cases h
    | some o =>
      obtain ⟨c', hc', hidx, -⟩ := hs.chunk j o ho
      obtain rfl := Option.some.inj (hj.symm.trans hc')
      rw [← hidx, hs.counted j o ho] at h
      exact ⟨j, o, ho, hidx, by omega⟩
  · rintro ⟨i, o, ho, hidx, hpos⟩
    rw [← hidx, hs.counted i o ho]
    omega

lemma CountedInv.mem_acked (hx : CountedInv cfg ((s, wire), acks)) {k : Key} :
    k ∈ s.acked ↔ k ∈ acks := by
  rw [hx.acked, List.mem_toFinset]

lemma acked_iff (hd : (cfg.chunks.map fun c => c.1.index).Nodup)
    (hx : CountedInv cfg ((s, wire), acks)) :
    s.acked.card = (cfg.chunks.filter fun c => indexKey c.1.index ∈ acks).length ↔
      ∀ k ∈ s.acked, ∃ c ∈ cfg.chunks, indexKey c.1.index = k := by
  rw [← card_keysOf hd]
  have hsub : keysOf cfg (fun c => indexKey c.1.index ∈ acks) ⊆ s.acked := by
    intro k hk
    obtain ⟨c, -, hmem, rfl⟩ := mem_keysOf.1 hk
    exact hx.mem_acked.2 hmem
  constructor
  · intro hcard k hk
    rw [← Finset.eq_of_subset_of_card_le hsub hcard.le] at hk
    obtain ⟨c, hc, -, hkey⟩ := mem_keysOf.1 hk
    exact ⟨c, hc, hkey⟩
  · intro h
    refine congrArg Finset.card (Finset.Subset.antisymm (fun k hk => ?_) hsub)
    obtain ⟨c, hc, rfl⟩ := h k hk
    exact mem_keysOf.2 ⟨c, hc, hx.mem_acked.1 hk, rfl⟩

/-- The chunks that were acknowledged and sent again, as the objects tell. -/
lemma mem_resentKeys (hd : (cfg.chunks.map fun c => c.1.index).Nodup)
    (hx : CountedInv cfg ((s, wire), acks))
    (hknown : ∀ k ∈ s.acked, ∃ c ∈ cfg.chunks, indexKey c.1.index = k) {k : Key} :
    k ∈ keysOf cfg (fun c =>
        indexKey c.1.index ∈ acks ∧ 2 ≤ wire.countP (carriesIndex c.1.index)) ↔
      k ∈ s.acked ∧ ∃ (i : ℕ) (o : UnackedChunk), s.objects[i]? = some o ∧ 0 < o.retries ∧
        indexKey o.index = k := by
  rw [mem_keysOf]
  constructor
  · rintro ⟨c, hc, ⟨hin, hcount⟩, rfl⟩
    obtain ⟨i, o, ho, hidx, hpos⟩ := (resent_iff hd hx.bounded hc).1 hcount
    exact ⟨hx.mem_acked.2 hin, i, o, ho, hpos, by rw [hidx]⟩
  · rintro ⟨hin, i, o, ho, hpos, rfl⟩
    obtain ⟨c, hc, hkey⟩ := hknown _ hin
    have hcount := (resent_iff hd hx.bounded hc).2 ⟨i, o, ho, (indexKey_inj.1 hkey).symm, hpos⟩
    exact ⟨c, hc, ⟨hkey ▸ hx.mem_acked.1 hin, hcount⟩, hkey⟩

/-- The entries that `retransmissions` counts. -/
lemma mem_countedKeys (s : State) {k : Key} :
    k ∈ (s.acked.filter fun k =>
        ((s.unacked.get? k).bind fun i => s.objects[i]?).any fun o => 0 < o.retries) ↔
      k ∈ s.acked ∧ ∃ (i : ℕ) (o : UnackedChunk), s.unacked.get? k = some i ∧
        s.objects[i]? = some o ∧ 0 < o.retries := by
  rw [Finset.mem_filter, Option.any_eq_true]
  simp only [Option.bind_eq_some_iff, decide_eq_true_eq]
  refine and_congr_right fun _ => ⟨?_, ?_⟩
  · rintro ⟨o, ⟨i, hi, ho⟩, hpos⟩
    exact ⟨i, o, hi, ho, hpos⟩
  · rintro ⟨i, o, hi, ho, hpos⟩
    exact ⟨o, ⟨i, hi, ho⟩, hpos⟩

lemma retransmissions_iff (hd : (cfg.chunks.map fun c => c.1.index).Nodup)
    (hx : CountedInv cfg ((s, wire), acks))
    (hknown : ∀ k ∈ s.acked, ∃ c ∈ cfg.chunks, indexKey c.1.index = k) :
    retransmissions s = (cfg.chunks.filter fun c =>
        indexKey c.1.index ∈ acks ∧ 2 ≤ wire.countP (carriesIndex c.1.index)).length ↔
      ∀ (i : ℕ) (o : UnackedChunk), s.objects[i]? = some o → 0 < o.retries →
        indexKey o.index ∈ s.acked → s.unacked.get? (indexKey o.index) = some i := by
  -- what is counted was sent again
  have hsub : (s.acked.filter fun k => ((s.unacked.get? k).bind fun i => s.objects[i]?).any
      fun o => 0 < o.retries) ⊆ keysOf cfg (fun c =>
        indexKey c.1.index ∈ acks ∧ 2 ≤ wire.countP (carriesIndex c.1.index)) := by
    intro k hk
    obtain ⟨hin, i, o, hi, ho, hpos⟩ := (mem_countedKeys s).1 hk
    obtain ⟨o', ho', hkey⟩ := hx.tables.filed k i hi
    obtain rfl := Option.some.inj (ho.symm.trans ho')
    exact (mem_resentKeys hd hx hknown).2 ⟨hin, i, o, ho, hpos, hkey⟩
  rw [← card_keysOf hd, retransmissions]
  constructor
  · intro hcard i o ho hpos hin
    have hresent := (mem_resentKeys hd hx hknown).2 ⟨hin, i, o, ho, hpos, rfl⟩
    rw [← Finset.eq_of_subset_of_card_le hsub hcard.ge, mem_countedKeys] at hresent
    obtain ⟨-, j, -, hj, -, -⟩ := hresent
    rw [hj, hx.tables.get?_eq hd ho hj]
  · intro h
    refine congrArg Finset.card (Finset.Subset.antisymm hsub fun k hk => ?_)
    obtain ⟨hin, i, o, ho, hpos, rfl⟩ := (mem_resentKeys hd hx hknown).1 hk
    exact (mem_countedKeys s).2 ⟨hin, i, o, h i o ho hpos hin, ho, hpos⟩

/-- The statistics that are returned are truthful when the tables are accurate, and only then. -/
lemma truthful_iff_accurate (hd : (cfg.chunks.map fun c => c.1.index).Nodup)
    (hx : CountedInv cfg ((s, wire), acks)) (hret : s.main = .returned stats) :
    Truthful cfg wire acks stats ↔ Accurate cfg s := by
  obtain ⟨-, -, rfl⟩ := hx.settled.returned stats hret
  constructor
  · intro h
    have hknown := (acked_iff hd hx).1 h.acked
    exact ⟨hknown, (retransmissions_iff hd hx hknown).1 h.resent⟩
  · intro h
    have hacked := (acked_iff hd hx).2 h.known
    refine ⟨hacked, fun htotal c hc => ?_, (retransmissions_iff hd hx h.known).2 h.kept⟩
    have hall := List.length_filter_eq_length_iff.1 (hacked.symm.trans htotal) c hc
    exact of_decide_eq_true hall

end Returned

/-- **The statistics are truthful** in the runs whose steps can all be followed, and in no other. -/
theorem truthful_iff (cfg : Config) (hd : (cfg.chunks.map fun c => c.1.index).Nodup)
    (ls : List PeerLabel) (s : State) (wire : List Value) (acks : List Key) (stats : SendStats)
    (hrun : (counted cfg).run (counted cfg).init ls = some ((s, wire), acks))
    (hret : s.main = .returned stats) :
    Truthful cfg wire acks stats ↔
      (counted cfg).Meets (fun x l => Followed cfg x.1.1 l) (counted cfg).init ls := by
  have hstep (x : (State × List Value) × List Key) (l : PeerLabel)
      (y : (State × List Value) × List Key) (hx : CountedInv cfg x)
      (h : (counted cfg).exec x l = some y) (_ : True) :
      CountedInv cfg y ∧ (Accurate cfg y.1.1 ↔ Accurate cfg x.1.1 ∧ Followed cfg x.1.1 l) :=
    countedInv_exec hd hx h
  have hinit : Accurate cfg (counted cfg).init.1.1 := by
    refine ⟨fun k hk => ?_, fun i o ho => ?_⟩
    · simp [counted, wired, openLine, Machine.observed] at hk
    · simp [counted, wired, openLine, Machine.observed] at ho
  obtain ⟨hinv, hiff⟩ := Machine.run_iff_meets hstep countedInv_init
    (Machine.meets_of_forall (fun _ _ => trivial) _ _) hrun
  rw [truthful_iff_accurate hd hinv hret, hiff, and_iff_right hinit]

/-- The two chunks of `twoChunks`, with room for both. -/
def twoAtOnce : Config := { twoChunks with windowSize := 2 }

/-- What `send_all` returns. -/
def returnedStats (s : State) : Option SendStats :=
  match s.main with
  | .returned stats => some stats
  | _ => none

lemma main_of_returnedStats {s : State} {stats : SendStats} (h : returnedStats s = some stats) :
    s.main = .returned stats := by
  unfold returnedStats at h
  split at h
  · next stats' hmain => rw [hmain, Option.some.inj h]
  · cases h

/-- Both chunks are sent, and the second one is acknowledged at once; the first one is sent again
after four seconds, and then acknowledged. -/
def slowAck : List PeerLabel :=
  [.sender .start, .sender (.sendDone true), .sender (.sendDone true),
    .message (chunkAckMsg 0 "peer" "b" 1), .sender .receive, .sender (.tick 4),
    .sender .sweepWake, .sender .sweepSent, .message (chunkAckMsg 0 "peer" "a" 0),
    .sender .receive, .sender .finish]

lemma run_slowAck : ((counted twoAtOnce).run (counted twoAtOnce).init slowAck).map
    (fun x => (returnedStats x.1.1, x.2)) =
      some (some ⟨2, 2, 0, 2⟩, [indexKey 1, indexKey 0]) := by
  decide +kernel

theorem truthful_iff_slowAck : ∃ s wire,
    (counted twoAtOnce).run (counted twoAtOnce).init slowAck =
      some ((s, wire), [indexKey 1, indexKey 0]) ∧
    (Truthful twoAtOnce wire [indexKey 1, indexKey 0] ⟨2, 2, 0, 2⟩ ↔
      (counted twoAtOnce).Meets (fun x l => Followed twoAtOnce x.1.1 l) (counted twoAtOnce).init
        slowAck) := by
  obtain ⟨⟨⟨s, wire⟩, acks⟩, hrun, hx⟩ := Option.map_eq_some_iff.1 run_slowAck
  obtain ⟨hstats, rfl⟩ := Prod.mk.inj hx
  exact ⟨s, wire, hrun, truthful_iff twoAtOnce (by decide) slowAck s wire _ _ hrun
    (main_of_returnedStats hstats)⟩

/-! ## A run with wrong statistics -/

/-- Both chunks are sent and, after four seconds without an answer, sent again; then the peer
acknowledges the first one, and sends an acknowledgement without an index. -/
def lateAcks : List PeerLabel :=
  [.sender .start, .sender (.sendDone true), .sender (.sendDone true), .sender (.tick 4),
    .sender .sweepWake, .sender .sweepSent, .sender .sweepSent,
    .message (chunkAckMsg 0 "peer" "a" 0), .message (buildMessage 0 "CHUNK_ACK" "peer" []),
    .sender .receive, .sender .receive, .sender .finish]

lemma run_lateAcks : ((counted twoAtOnce).run (counted twoAtOnce).init lateAcks).map
    (fun x => (returnedStats x.1.1, x.2, x.1.2.length)) =
      some (some ⟨2, 2, 0, 2⟩, [indexKey 0, indexKey (-1)], 4) := by
  decide +kernel

/-- **The sender reports success for a chunk that was not acknowledged**, and no retransmission
where there were two. -/
theorem unacknowledged_reported : ¬ ∀ (cfg : Config), (cfg.chunks.map fun c => c.1.index).Nodup →
    ∀ (ls : List PeerLabel) (s : State) (wire : List Value) (acks : List Key) (stats : SendStats),
      (counted cfg).run (counted cfg).init ls = some ((s, wire), acks) →
      s.main = .returned stats → Truthful cfg wire acks stats := by
  intro hall
  obtain ⟨⟨⟨s, wire⟩, acks⟩, hrun, hx⟩ := Option.map_eq_some_iff.1 run_lateAcks
  simp only [Prod.mk.injEq] at hx
  obtain ⟨hstats, rfl, -⟩ := hx
  have htruthful := hall twoAtOnce (by decide) lateAcks s wire _ _ hrun
    (main_of_returnedStats hstats)
  have hmem := htruthful.complete rfl (⟨1, "b", 1, false⟩, [1]) (by decide)
  exact absurd hmem (by decide)

end DistriStore.SlidingWindow
