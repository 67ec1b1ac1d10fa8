import DistriStore.FileEngine.ParallelWriters

/-!
# The order of the stores (`pipeline_chunk_and_store`)

The pipeline stores a chunk in a task of its own while it reads and encrypts the next one, and
looks at the outcome of that task only before it makes the next one, or after the loop.  A history
variable lists when the calls of `store_fn` begin and end.

Since a task is made only after the previous one has been awaited without an exception, the history
is always that of some calls made one after the other and completed, with at most one more call
after them (`OneByOne`); and the calls are those for the chunks of the file from the first one on
(`stores_one_by_one`).
-/

namespace DistriStore.PipelineWriter

open Lib

/-! ## The history -/

/-- What happens to the `i`-th call of `store_fn`, counted from 0. -/
inductive StoreEvent where
  | began (i : ℕ) (ch : String) (ct : Bytes)
  | ended (i : ℕ) (outcome : Except PyError Unit)

/-- What a step adds to the history. -/
def observeStore (log : List StoreEvent) (s : State) (l : Label) (_ : State) : List StoreEvent :=
  match l with
  | .storeBegin => log ++ (pendingCall s.pendingStore).map fun call =>
      StoreEvent.began s.received.length call.1 call.2
  | .storeEnd outcome => log ++ [.ended (s.received.length - 1) outcome]
  | _ => log

/-- The pipeline with the history of its stores. -/
def logged (c : Config) : Machine (State × List StoreEvent) Label :=
  (machine c).observed [] observeStore

/-- Calls made one after the other, each of which has returned before the next one. -/
def completedCalls (calls : List (String × Bytes)) : List StoreEvent :=
  calls.zipIdx.flatMap fun p => [StoreEvent.began p.2 p.1.1 p.1.2, .ended p.2 (.ok ())]

/-- The history of these calls when they do not overlap and none is made after a failed one: all
have returned, or the last one is running or has ended in some way. -/
inductive OneByOne : List (String × Bytes) → List StoreEvent → Prop where
  | completed (calls) : OneByOne calls (completedCalls calls)
  | running (calls call) : OneByOne (calls ++ [call])
      (completedCalls calls ++ [.began calls.length call.1 call.2])
  | ended (calls call outcome) : OneByOne (calls ++ [call])
      (completedCalls calls ++
        [.began calls.length call.1 call.2, .ended calls.length outcome])

lemma completedCalls_append (calls : List (String × Bytes)) (call : String × Bytes) :
    completedCalls (calls ++ [call]) = completedCalls calls ++
      [.began calls.length call.1 call.2, .ended calls.length (.ok ())] := by
  simp [completedCalls, List.zipIdx_append]

lemma mem_completedCalls {calls : List (String × Bytes)} {event : StoreEvent}
    (h : event ∈ completedCalls calls) : ∃ (i : ℕ) (call : String × Bytes), i < calls.length ∧
      (event = .began i call.1 call.2 ∨ event = .ended i (.ok ())) := by
  obtain ⟨⟨call, i⟩, hp, hevent⟩ := List.mem_flatMap.1 h
  obtain ⟨-, hlt, -⟩ := List.mem_zipIdx hp
  refine ⟨i, call, by simpa using hlt, ?_⟩
  simpa using hevent

/-- After a failed call there is no other. -/
lemma OneByOne.of_error {calls : List (String × Bytes)} {log : List StoreEvent}
    (h : OneByOne calls log) {i : ℕ} {e : PyError} (he : .ended i (.error e) ∈ log) :
    ∃ before call, calls = before ++ [call] ∧ i = before.length ∧
      log = completedCalls before ++
        [.began before.length call.1 call.2, .ended before.length (.error e)] := by
  have hdone (done : List (String × Bytes)) : .ended i (.error e) ∉ completedCalls done := by
    intro hmem
    obtain ⟨j, call, -, h | h⟩ := mem_completedCalls hmem
    · cases h
    · cases h
  cases h with
  | completed => exact absurd he (hdone _)
  | running before call =>
    rcases List.mem_append.1 he with he | he
    · exact absurd he (hdone _)
    · simp at he
  | ended before call outcome =>
    rcases List.mem_append.1 he with he | he
    · exact absurd he (hdone _)
    · simp only [List.mem_cons, reduceCtorEq, List.not_mem_nil, or_false, false_or,
        StoreEvent.ended.injEq] at he
      obtain ⟨rfl, rfl⟩ := he
      exact ⟨before, call, rfl, rfl, rfl⟩

/-- The calls that have begun. -/
lemma OneByOne.lt_of_began {calls : List (String × Bytes)} {log : List StoreEvent}
    (h : OneByOne calls log) {i : ℕ} {ch : String} {ct : Bytes} (hi : .began i ch ct ∈ log) :
    i < calls.length := by
  have hdone {done : List (String × Bytes)} (hmem : .began i ch ct ∈ completedCalls done) :
      i < done.length := by
    obtain ⟨j, call, hlt, h | h⟩ := mem_completedCalls hmem
    · obtain ⟨rfl, -, -⟩ := StoreEvent.began.inj h
      exact hlt
    · cases h
  cases h with
  | completed => exact hdone hi
  | running before call =>
    rw [List.length_append, List.length_singleton]
    rcases List.mem_append.1 hi with hi | hi
    · exact Nat.lt_succ_of_lt (hdone hi)
    · simp at hi
      omega
  | ended before call outcome =>
    rw [List.length_append, List.length_singleton]
    rcases List.mem_append.1 hi with hi | hi
    · exact Nat.lt_succ_of_lt (hdone hi)
    · simp at hi
      omega

/-! ## The invariant -/

/-- What the history is, by the state of the store task. -/
def Tracked (s : State) (log : List StoreEvent) : Prop :=
  match s.pendingStore with
  | some .running => ∃ calls call, s.received = calls ++ [call] ∧
      log = completedCalls calls ++ [.began calls.length call.1 call.2]
  | some (.ended outcome) => ∃ calls call, s.received = calls ++ [call] ∧
      log = completedCalls calls ++
        [.began calls.length call.1 call.2, .ended calls.length outcome]
  | _ => log = completedCalls s.received

/-- The history of the stores, and what a finished pipeline has found of the last one. -/
structure StoreInv (c : Config) (x : State × List StoreEvent) : Prop where
  tracked : Tracked x.1 x.2
  ordered : x.1.received <+: c.encoded.map storeArgs
  returned : ∀ m, x.1.phase = .returned m → awaited x.1.pendingStore = some (.ok ())
  raised : ∀ e, x.1.phase = .raised e → awaited x.1.pendingStore = some (.error e)

variable {c : Config} {s t : State} {log : List StoreEvent}

lemma Tracked.oneByOne (h : Tracked s log) : OneByOne s.received log := by
  unfold Tracked at h
  split at h
  · obtain ⟨calls, call, hreceived, rfl⟩ := h
    exact hreceived ▸ .running calls call
  · obtain ⟨calls, call, hreceived, rfl⟩ := h
    exact hreceived ▸ .ended calls call _
  · exact h ▸ .completed _

/-- Once the store task has been awaited without an exception, all calls have completed. -/
lemma Tracked.completed (h : Tracked s log) (hok : awaited s.pendingStore = some (.ok ())) :
    log = completedCalls s.received := by
  rcases hp : s.pendingStore with _ | ⟨ch, ct⟩ | _ | outcome
  · simpa [Tracked, hp] using h
  · simp [hp, awaited] at hok
  · simp [hp, awaited] at hok
  · obtain rfl : outcome = .ok () := by simpa [hp, awaited] using hok
    simp only [Tracked, hp] at h
    obtain ⟨calls, call, hreceived, rfl⟩ := h
    rw [hreceived, completedCalls_append]

/-- A call that has failed is the last one, and its exception has still to be looked at or has
ended the pipeline. -/
lemma Tracked.of_error (h : Tracked s log) {i : ℕ} {e : PyError}
    (he : .ended i (.error e) ∈ log) :
    s.received.length = i + 1 ∧ awaited s.pendingStore = some (.error e) := by
  obtain ⟨before, call, hreceived, rfl, hlog⟩ := h.oneByOne.of_error he
  refine ⟨by rw [hreceived]; simp, ?_⟩
  have hne (calls : List (String × Bytes)) : log ≠ completedCalls calls := by
    intro heq
    obtain ⟨j, call, -, h | h⟩ := mem_completedCalls (heq ▸ he)
    · cases h
    · cases h
  rcases hp : s.pendingStore with _ | ⟨ch, ct⟩ | _ | outcome
  · exact absurd (by simpa [Tracked, hp] using h) (hne s.received)
  · exact absurd (by simpa [Tracked, hp] using h) (hne s.received)
  · simp only [Tracked, hp] at h
    obtain ⟨calls, call', -, hlog'⟩ := h
    have hlength := congrArg List.getLast? (hlog.symm.trans hlog')
    simp at hlength
  · simp only [Tracked, hp] at h
    obtain ⟨calls, call', -, hlog'⟩ := h
    have hlast := congrArg List.getLast? (hlog.symm.trans hlog')
    simp only [List.getLast?_append, List.getLast?_cons_cons, List.getLast?_singleton,
      Option.some_or, Option.some.injEq, StoreEvent.ended.injEq] at hlast
    rw [awaited, ← hlast.2]

/-! ### One step -/

lemma poolDone_frame (ht : poolDone c s = some t) :
    t.pendingStore = s.pendingStore ∧ t.received = s.received := by
  have hadvance (u : State) : u.advance.pendingStore = u.pendingStore ∧
      u.advance.received = u.received := by
    unfold State.advance
    split <;> exact ⟨rfl, rfl⟩
  unfold poolDone at ht
  split at ht
  · exact Option.some.inj ht ▸ hadvance _
  · split at ht <;> exact Option.some.inj ht ▸ ⟨rfl, rfl⟩
  · exact Option.some.inj ht ▸ ⟨rfl, rfl⟩
  · cases ht

/-- After an await the pipeline makes the next store task, returns or raises. -/
lemma resume_cases (ht : resume c s = some t) :
    t.received = s.received ∧
      ((awaited s.pendingStore = some (.ok ()) ∧
        ((∃ ch ct, t.pendingStore = some (.created ch ct)) ∨ t.pendingStore = s.pendingStore) ∧
          (∀ m, t.phase = .returned m → t.pendingStore = s.pendingStore) ∧
            ∀ e, t.phase ≠ .raised e) ∨
      ∃ e, awaited s.pendingStore = some (.error e) ∧ t.pendingStore = s.pendingStore ∧
        t.phase = .raised e) := by
  unfold resume at ht
  split at ht
  · next ch ct hs hp =>
    rw [← Option.some.inj ht]
    unfold State.advance
    split <;> exact ⟨rfl, Or.inl ⟨hp, Or.inl ⟨ch, ct, rfl⟩, by simp, by simp⟩⟩
  · next hs hp =>
    rw [← Option.some.inj ht]
    exact ⟨rfl, Or.inl ⟨hp, Or.inr rfl, by simp, by simp⟩⟩
  · next ch ct e hs hp =>
    rw [← Option.some.inj ht]
    exact ⟨rfl, Or.inr ⟨e, hp, rfl, rfl⟩⟩
  · next e hs hp =>
    rw [← Option.some.inj ht]
    exact ⟨rfl, Or.inr ⟨e, hp, rfl, rfl⟩⟩
  · cases ht

/-- The pool has nothing to do with the end of the pipeline. -/
lemma poolDone_running (ht : poolDone c s = some t) :
    (∀ m, t.phase ≠ .returned m) ∧ ∀ e, t.phase ≠ .raised e := by
  have hadvance (u : State) : (∀ m, u.advance.phase ≠ .returned m) ∧
      ∀ e, u.advance.phase ≠ .raised e := by
    unfold State.advance
    split <;> exact ⟨by simp, by simp⟩
  unfold poolDone at ht
  split at ht
  · exact Option.some.inj ht ▸ hadvance _
  · split at ht <;> exact Option.some.inj ht ▸ ⟨by simp [State.append], by simp [State.append]⟩
  · exact Option.some.inj ht ▸ ⟨by simp [State.append], by simp [State.append]⟩
  · cases ht

lemma tracked_step {l : Label} (h : Tracked s log) (ht : exec c s l = some t) :
    Tracked t (observeStore log s l t) := by
  cases l with
  | poolDone =>
    obtain ⟨hpending, hreceived⟩ := poolDone_frame ht
    unfold Tracked at h ⊢
    rw [hpending, hreceived]
    exact h
  | storeBegin =>
    obtain ⟨ch, ct, hp, rfl⟩ := storeBegin_cases ht
    have hlog : log = completedCalls s.received := by simpa [Tracked, hp] using h
    exact ⟨s.received, (ch, ct), rfl, by simp [observeStore, hp, pendingCall, hlog]⟩
  | storeEnd outcome =>
    obtain ⟨hp, rfl⟩ := storeEnd_cases ht
    simp only [Tracked, hp] at h
    obtain ⟨calls, call, hreceived, rfl⟩ := h
    exact ⟨calls, call, hreceived, by simp [observeStore, hreceived]⟩
  | resume =>
    obtain ⟨hreceived, ⟨hok, ⟨ch, ct, hcreated⟩ | hsame, -⟩ | ⟨e, -, hsame, -⟩⟩ := resume_cases ht
    · have hlog := h.completed hok
      simpa [Tracked, hcreated, hreceived, observeStore] using hlog
    · unfold Tracked at h ⊢
      rw [hsame, hreceived]
      exact h
    · unfold Tracked at h ⊢
      rw [hsame, hreceived]
      exact h

/-- What has been received is part of what there is to receive. -/
lemma Inv.received_isPrefix (h : Inv c s) : s.received <+: c.encoded.map storeArgs := by
  rw [← h.stored, List.append_assoc, List.append_assoc]
  exact List.prefix_append ..

/-- A pipeline that is over starts no store: its last one has been awaited. -/
lemma StoreInv.step {x y : State × List StoreEvent} {l : Label} (h : StoreInv c x)
    (ht : (logged c).exec x l = some y) (hinv : (∃ e, y.1.phase = .raised e) ∨ Inv c y.1) :
    StoreInv c y := by
  obtain ⟨s, log⟩ := x
  obtain ⟨t, log'⟩ := y
  obtain ⟨hexec, hlog⟩ := Machine.exec_observed ht
  obtain rfl : log' = observeStore log s l t := hlog
  replace hexec : exec c s l = some t := hexec
  have htracked := tracked_step h.tracked hexec
  have hordered : t.received = s.received → t.received <+: c.encoded.map storeArgs := by
    intro hreceived
    rw [hreceived]
    exact h.ordered
  cases l with
  | poolDone =>
    obtain ⟨hreturned, hraised⟩ := poolDone_running hexec
    exact ⟨htracked, hordered (poolDone_frame hexec).2, fun m hm => absurd hm (hreturned m),
      fun e he => absurd he (hraised e)⟩
  | storeBegin =>
    obtain ⟨ch, ct, hp, rfl⟩ := storeBegin_cases hexec
    have hreturned (m : FileManifest) : s.phase ≠ .returned m := by
      intro hm
      have := h.returned m hm
      simp [hp, awaited] at this
    have hraised (e : PyError) : s.phase ≠ .raised e := by
      intro he
      have := h.raised e he
      simp [hp, awaited] at this
    refine ⟨htracked, ?_, fun m hm => absurd hm (hreturned m), fun e he => absurd he (hraised e)⟩
    rcases hinv with ⟨e, he⟩ | hinv
    · exact absurd he (hraised e)
    · exact hinv.received_isPrefix
  | storeEnd outcome =>
    obtain ⟨hp, rfl⟩ := storeEnd_cases hexec
    refine ⟨htracked, hordered rfl, fun m hm => ?_, fun e he => ?_⟩
    · have := h.returned m hm
      simp [hp, awaited] at this
    · have := h.raised e he
      simp [hp, awaited] at this
  | resume =>
    obtain ⟨hreceived, ⟨hok, -, hreturned, hraised⟩ | ⟨e, herror, hsame, hphase⟩⟩ :=
      resume_cases hexec
    · refine ⟨htracked, hordered hreceived, fun m hm => ?_, fun e he => absurd he (hraised e)⟩
      show awaited t.pendingStore = _
      rw [hreturned m hm]
      exact hok
    · refine ⟨htracked, hordered hreceived, fun m hm => ?_, fun e' he' => ?_⟩
      · cases hphase.symm.trans hm
      · obtain rfl : e = e' := Phase.raised.inj (hphase.symm.trans he')
        show awaited t.pendingStore = _
        rw [hsame]
        exact herror

lemma storeInv_init (c : Config) : StoreInv c (logged c).init where
  tracked := rfl
  ordered := List.nil_prefix
  returned m hm := by cases hm
  raised e he := by cases he

lemma storeInv_of_reachable {x : State × List StoreEvent} (hx : (logged c).Reachable x) :
    ((∃ e, x.1.phase = .raised e) ∨ Inv c x.1) ∧ StoreInv c x := by
  refine hx.invariant (I := fun x => ((∃ e, x.1.phase = .raised e) ∨ Inv c x.1) ∧ StoreInv c x)
    ⟨Or.inr (inv_init c), storeInv_init c⟩ fun x l y h ht => ?_
  have hinv := inv_step h.1 (Machine.exec_observed ht).1
  exact ⟨hinv, h.2.step ht hinv⟩

/-! ## Every run -/

/-- The chunk at place `i` has the index `i`. -/
lemma index_encoded (c : Config) :
    c.encoded.map (fun p => p.1.index) = (List.range c.encoded.length).map Int.ofNat := by
  refine List.ext_getElem (by simp) fun i h₁ h₂ => ?_
  simp [Config.encoded, encodedChunks, streamChunks, encodeChunk_index]

/-- **The stores are made one by one, in order, and completely.**  However the pool and the store
tasks are scheduled and whatever comes of the stores, the calls of `store_fn` are those for the
chunks from the first one on, in the order of their indices, and each begins when the one before
it has completed.  After a call that has failed there is no other, and the pipeline, which comes to
an end, raises its exception.  A pipeline that returns a manifest has completed exactly one call for
each chunk in it. -/
theorem stores_one_by_one (c : Config) :
    c.encoded.map (fun p => p.1.index) = (List.range c.encoded.length).map Int.ofNat ∧
    (∃ k, ∀ ls x, (logged c).run (logged c).init ls = some x → ls.length ≤ k) ∧
    ∀ s log, (logged c).Reachable (s, log) →
      (∃ calls, calls <+: c.encoded.map storeArgs ∧ OneByOne calls log) ∧
      (∀ i e, .ended i (.error e) ∈ log →
        (∀ j ch ct, .began j ch ct ∈ log → j ≤ i) ∧ (∀ m, s.phase ≠ .returned m) ∧
          ((logged c).Stuck (s, log) → s.phase = .raised e)) ∧
      ∀ m, s.phase = .returned m → m.chunks = c.encoded.map Prod.fst ∧
        log = completedCalls ((m.chunks.map ChunkInfo.chunkHash).zip (c.encoded.map Prod.snd)) := by
  refine ⟨index_encoded c, ⟨measure (init c), fun ls x hx => ?_⟩, fun s log hx => ?_⟩
  · have hlt (x : State × List StoreEvent) (l : Label) (y : State × List StoreEvent) (_ : True)
        (hy : (logged c).exec x l = some y) : measure y.1 < measure x.1 :=
      measure_lt (Machine.exec_observed hy).1
    have h := Machine.length_le_of_run (fun _ _ _ _ _ => trivial) hlt ls _ x trivial hx
    exact Nat.le_of_add_right_le h
  obtain ⟨hinv, hstore⟩ := storeInv_of_reachable hx
  have htracked : Tracked s log := hstore.tracked
  refine ⟨⟨s.received, hstore.ordered, htracked.oneByOne⟩, fun i e he => ?_, fun m hm => ?_⟩
  · obtain ⟨hlength, herror⟩ := htracked.of_error he
    have hreturned (m : FileManifest) : s.phase ≠ .returned m := by
      intro hm
      cases (hstore.returned m hm).symm.trans herror
    refine ⟨fun j ch ct hj => ?_, hreturned, fun hstuck => ?_⟩
    · have := htracked.oneByOne.lt_of_began hj
      omega
    · have hstuck' : (machine c).Stuck s := fun l => by
        simpa [logged, Machine.observed] using hstuck l
      rcases ended_of_stuck hstuck' with ⟨m, hm⟩ | ⟨e', he'⟩
      · exact absurd hm (hreturned m)
      · obtain rfl : e' = e := by
          simpa using (hstore.raised e' he').symm.trans herror
        exact he'
  · rcases hinv with ⟨e, he⟩ | hinv
    · cases hm.symm.trans he
    · obtain ⟨rfl, hreceived⟩ := hinv.returned hm
      refine ⟨rfl, ?_⟩
      rw [htracked.completed (hstore.returned _ hm), hreceived, writtenManifest, List.map_map,
        List.zip_map']
      rfl

end DistriStore.PipelineWriter
