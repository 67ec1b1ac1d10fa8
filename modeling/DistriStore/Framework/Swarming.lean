import DistriStore.Framework.Client

/-!
# What the swarming client returns

Whatever the order in which the responses arrive, `download_chunks_parallel` returns the chunks in
the order of the hashes it was given, or raises the failure of one of its requests
(`downloadChunksParallel_ends`).  `download_swarmed` writes what a plain `download` from the first
peer writes, provided that every chunk could be fetched (`downloadSwarmed_ends`): the chunks
themselves end up only in the statistics.  Neither has ever more requests under way than the
semaphore admits, and neither leaves a permit idle (`inFlight_exact`).
-/

namespace DistriStore

namespace DistriStoreClient

open Lib

/-! ## What a step of the tasks does -/

section Fetching

variable {μ : Type} {tasks : List (Fetch μ)} {answers : Answers} {limit : ℕ} {memory : μ}
  {s t : Fetching μ}

/-- A task comes to the semaphore or enters it; the response to a task arrives, and its content is
kept; or the task fails. -/
inductive Progresses (tasks : List (Fetch μ)) (answers : Answers) (s : Fetching μ) :
    Fetching μ → Prop
  | moved {g : Gather.State ClientError} (h : g.ended = s.gather.ended) :
      Progresses tasks answers s { s with gather := g }
  | kept {i : ℕ} {task : Fetch μ} {memory : μ} {g : Gather.State ClientError}
      (htask : tasks[i]? = some task) (hrunning : i ∈ s.gather.running)
      (hsettle : settle answers i task s.memory = .ok memory)
      (h : g.ended = s.gather.ended ++ [(i, none)]) :
      Progresses tasks answers s { gather := g, memory := memory }
  | failed {i : ℕ} {task : Fetch μ} {e : ClientError} {g : Gather.State ClientError}
      (htask : tasks[i]? = some task) (hrunning : i ∈ s.gather.running)
      (hsettle : settle answers i task s.memory = .error e)
      (h : g.ended = s.gather.ended ++ [(i, some e)]) :
      Progresses tasks answers s { s with gather := g }

lemma Fetching.exec_cases {l : Step} (hexec : Fetching.exec tasks answers s l = some t) :
    (∃ l', Gather.exec s.gather l' = some t.gather) ∧ Progresses tasks answers s t := by
  cases l with
  | start =>
    obtain ⟨g, hg, rfl⟩ := Option.map_eq_some_iff.1 hexec
    exact ⟨⟨_, hg⟩, .moved (Gather.ended_of_start hg)⟩
  | wake i =>
    obtain ⟨g, hg, rfl⟩ := Option.map_eq_some_iff.1 hexec
    exact ⟨⟨_, hg⟩, .moved (Gather.ended_of_wake hg)⟩
  | answer i =>
    simp only [Fetching.exec] at hexec
    cases htask : tasks[i]? with
    | none => simp [htask] at hexec
    | some task =>
      simp only [htask] at hexec
      cases hsettle : settle answers i task s.memory with
      | ok memory =>
        simp only [hsettle] at hexec
        obtain ⟨g, hg, rfl⟩ := Option.map_eq_some_iff.1 hexec
        obtain ⟨hrunning, hended⟩ := Gather.ended_of_finish hg
        exact ⟨⟨_, hg⟩, .kept htask hrunning hsettle hended⟩
      | error e =>
        simp only [hsettle] at hexec
        obtain ⟨g, hg, rfl⟩ := Option.map_eq_some_iff.1 hexec
        obtain ⟨hrunning, hended⟩ := Gather.ended_of_finish hg
        exact ⟨⟨_, hg⟩, .failed htask hrunning hsettle hended⟩

/-- The tasks are gathered behind the semaphore as in `Lib.Gather`. -/
lemma gather_inv (hs : (fetching tasks answers limit memory).Reachable s) :
    Gather.Inv tasks.length limit s.gather := by
  refine hs.invariant (I := fun s => Gather.Inv tasks.length limit s.gather) Gather.inv_init ?_
  intro s l t h hexec
  obtain ⟨⟨l', hl'⟩, -⟩ := Fetching.exec_cases hexec
  exact h.step hl'

lemma measure_lt_of_exec {l : Step} (hexec : Fetching.exec tasks answers s l = some t) :
    Gather.measure t.gather < Gather.measure s.gather := by
  obtain ⟨⟨l', hl'⟩, -⟩ := Fetching.exec_cases hexec
  exact Gather.measure_lt hl'

/-- When no task can go on, all are over. -/
lemma allEnded_of_stuck (h : Gather.Inv tasks.length limit s.gather) (hlimit : 0 < limit)
    (hstuck : ∀ l, Fetching.exec tasks answers s l = none) : s.gather.AllEnded := by
  refine h.allEnded_of_stuck (ε := ClientError) hlimit fun l => ?_
  cases l with
  | start => exact Option.map_eq_none_iff.1 (hstuck .start)
  | wake i => exact Option.map_eq_none_iff.1 (hstuck (.wake i))
  | finish i failure =>
    by_contra hrunning
    have hi : i ∈ s.gather.running := by
      by_contra hi
      exact hrunning (by simp [Gather.machine, Gather.exec, hi])
    have htask := List.getElem?_eq_getElem (h.lt_of_running hi)
    have hanswer := hstuck (.answer i)
    simp only [Fetching.exec, htask] at hanswer
    split at hanswer <;> simp [Gather.exec, hi] at hanswer

end Fetching

/-! ## `download_chunks_parallel` -/

section Parallel

variable {urls chunkHashes : List String} {answers : Answers} {limit : ℕ}

/-- What the requests come to, in the order of the hashes. -/
def fetched (urls chunkHashes : List String) (answers : Answers) :
    List (Except ClientError Bytes) :=
  chunkHashes.mapIdx fun i h => content (answers.chunk i (roundRobin urls i) h)

/-- What the call may come to: all contents in order, or the failure of a request. -/
def Collects (fetched : List (Except ClientError Bytes)) :
    Except ClientError (List (Option Bytes)) → Prop
  | .ok results => ∃ datas : List Bytes, fetched = datas.map .ok ∧ results = datas.map some
  | .error e => .error e ∈ fetched

/-- What has ended has left its content, or its failure; the other places are empty. -/
structure Collected (urls chunkHashes : List String) (answers : Answers)
    (s : Fetching (List (Option Bytes))) : Prop where
  length : s.memory.length = chunkHashes.length
  kept : ∀ i, (i, none) ∈ s.gather.ended → ∃ data,
    (fetched urls chunkHashes answers)[i]? = some (.ok data) ∧ s.memory[i]? = some (some data)
  failed : ∀ i e, (i, some e) ∈ s.gather.ended →
    (fetched urls chunkHashes answers)[i]? = some (.error e)

@[simp] lemma length_fetches (urls chunkHashes : List String) :
    (fetches urls chunkHashes).length = chunkHashes.length := by
  simp [fetches]

/-- The task in a place asks for the chunk in this place. -/
lemma task_fetches {i : ℕ} {task : Fetch (List (Option Bytes))}
    (h : (fetches urls chunkHashes)[i]? = some task) :
    ∃ c, chunkHashes[i]? = some c ∧ task = fetch urls i c := by
  rw [fetches, List.getElem?_mapIdx, Option.map_eq_some_iff] at h
  obtain ⟨c, hc, rfl⟩ := h
  exact ⟨c, hc, rfl⟩

lemma fetched_of_getElem? {i : ℕ} {c : String} (h : chunkHashes[i]? = some c) :
    (fetched urls chunkHashes answers)[i]? =
      some (content (answers.chunk i (roundRobin urls i) c)) := by
  rw [fetched, List.getElem?_mapIdx, h]
  rfl

lemma settle_fetch {i : ℕ} {c : String} {results : List (Option Bytes)} :
    settle answers i (fetch urls i c) results =
      (content (answers.chunk i (roundRobin urls i) c)).map fun data =>
        results.set i (some data) := by
  unfold settle fetch
  cases content (answers.chunk i (roundRobin urls i) c) <;> rfl

lemma Collected.step {s t : Fetching (List (Option Bytes))}
    (h : Collected urls chunkHashes answers s)
    (hinv : Gather.Inv (fetches urls chunkHashes).length limit s.gather)
    (hstep : Progresses (fetches urls chunkHashes) answers s t) :
    Collected urls chunkHashes answers t := by
  cases hstep with
  | moved hended => exact ⟨h.length, by simpa [hended] using h.kept, by simpa [hended] using h.failed⟩
  | @kept i task memory g htask hrunning hsettle hended =>
    obtain ⟨c, hc, rfl⟩ := task_fetches htask
    rw [settle_fetch] at hsettle
    cases hcontent : content (answers.chunk i (roundRobin urls i) c) with
    | error e => simp [hcontent, Except.map] at hsettle
    | ok data =>
      simp only [hcontent, Except.map, Except.ok.injEq] at hsettle
      subst hsettle
      have hplace : i < s.memory.length := by
        rw [h.length]
        exact (List.getElem?_eq_some_iff.1 hc).1
      refine ⟨by simpa using h.length, fun j hj => ?_, fun j e hj => ?_⟩
      · rw [hended, List.mem_append, List.mem_singleton, Prod.mk.injEq] at hj
        rcases hj with hj | ⟨rfl, -⟩
        · obtain ⟨data', hdata', hmemory⟩ := h.kept j hj
          -- this task was still inside, so it is another one
          have hij : i ≠ j := by
            rintro rfl
            exact hinv.not_ended hrunning (List.mem_map_of_mem (f := Prod.fst) hj)
          exact ⟨data', hdata', by rw [List.getElem?_set_ne hij, hmemory]⟩
        · exact ⟨data, by rw [fetched_of_getElem? hc, hcontent], List.getElem?_set_self hplace⟩
      · rw [hended] at hj
        exact h.failed j e (by simpa using hj)
  | @failed i task e g htask hrunning hsettle hended =>
    obtain ⟨c, hc, rfl⟩ := task_fetches htask
    rw [settle_fetch] at hsettle
    refine ⟨h.length, fun j hj => ?_, fun j e' hj => ?_⟩
    · rw [hended] at hj
      exact h.kept j (by simpa using hj)
    · rw [hended, List.mem_append, List.mem_singleton, Prod.mk.injEq, Option.some.injEq] at hj
      rcases hj with hj | ⟨rfl, rfl⟩
      · exact h.failed j e' hj
      · rw [fetched_of_getElem? hc]
        cases hcontent : content (answers.chunk j (roundRobin urls j) c) with
        | ok data => simp [hcontent, Except.map] at hsettle
        | error e'' =>
          simp only [hcontent, Except.map, Except.error.injEq] at hsettle
          rw [hsettle]

lemma collected_of_reachable {s : Fetching (List (Option Bytes))}
    (hs : (downloadChunksParallel urls chunkHashes answers limit).Reachable s) :
    Collected urls chunkHashes answers s := by
  have hboth : Gather.Inv (fetches urls chunkHashes).length limit s.gather ∧
      Collected urls chunkHashes answers s := by
    refine hs.invariant (I := fun s => Gather.Inv (fetches urls chunkHashes).length limit s.gather ∧
      Collected urls chunkHashes answers s) ⟨Gather.inv_init, ?_⟩ ?_
    · refine ⟨by simp [downloadChunksParallel, fetching], ?_, ?_⟩
      · intro i hi
        simp [downloadChunksParallel, fetching, Gather.machine] at hi
      · intro i e hi
        simp [downloadChunksParallel, fetching, Gather.machine] at hi
    · rintro s l t ⟨hinv, h⟩ hexec
      obtain ⟨⟨l', hl'⟩, hstep⟩ := Fetching.exec_cases hexec
      exact ⟨hinv.step hl', h.step hinv hstep⟩
  exact hboth.2

/-- Fetches that all give a content. -/
lemma exists_map_ok {fates : List (Except ClientError Bytes)}
    (hall : ∀ i < fates.length, ∃ data, fates[i]? = some (.ok data)) :
    ∃ datas : List Bytes, fates = datas.map .ok := by
  induction fates with
  | nil => exact ⟨[], rfl⟩
  | cons fate fates ih =>
    obtain ⟨data, hdata⟩ := hall 0 (by simp)
    obtain ⟨datas, hdatas⟩ := ih fun i hi => by simpa using hall (i + 1) (by simpa using hi)
    refine ⟨data :: datas, ?_⟩
    rw [List.map_cons, ← hdatas]
    exact congrArg (· :: fates) (Option.some.inj hdata)

/-- When `gather` returns, every task is among those that have ended without an exception. -/
lemma ended_of_outcome {ε : Type} {n limit i : ℕ} {g : Gather.State ε}
    (hinv : Gather.Inv n limit g) (houtcome : g.outcome = some (.ok ())) (hi : i < n) :
    (i, none) ∈ g.ended := by
  obtain ⟨hall, hnone⟩ := Gather.outcome_eq_ok_iff.1 houtcome
  have hended : i ∈ g.ended.map Prod.fst := by
    rw [(hinv.ended_perm hall).mem_iff, List.mem_range]
    exact hi
  obtain ⟨⟨j, f⟩, hmem, rfl⟩ := List.mem_map.1 hended
  rwa [hnone j f hmem] at hmem

/-- **Parallel downloads.** In whatever order the responses arrive, the call comes to an end, and
it returns all chunks in the order of their hashes or raises the failure of one of the requests. -/
theorem downloadChunksParallel_ends (urls chunkHashes : List String) (answers : Answers)
    (hlimit : 0 < limit) :
    (downloadChunksParallel urls chunkHashes answers limit).Ends returnedChunks
      (Collects (fetched urls chunkHashes answers)) where
  sound s hs r hr := by
    have hinv := gather_inv hs
    have h := collected_of_reachable hs
    obtain ⟨outcome, houtcome, rfl⟩ := Option.map_eq_some_iff.1 hr
    cases outcome with
    | ok u =>
      have hlength : (fetched urls chunkHashes answers).length = chunkHashes.length := by
        simp [fetched]
      have hkept : ∀ i < chunkHashes.length, ∃ data,
          (fetched urls chunkHashes answers)[i]? = some (.ok data) ∧
            s.memory[i]? = some (some data) :=
        fun i hi => h.kept i (ended_of_outcome hinv houtcome (by simpa using hi))
      obtain ⟨datas, hdatas⟩ := exists_map_ok fun i hi => by
        obtain ⟨data, hdata, -⟩ := hkept i (hlength ▸ hi)
        exact ⟨data, hdata⟩
      refine ⟨datas, hdatas, List.ext_getElem? fun i => ?_⟩
      by_cases hi : i < chunkHashes.length
      · obtain ⟨data, hdata, hmemory⟩ := hkept i hi
        rw [hdatas, List.getElem?_map, Option.map_eq_some_iff] at hdata
        obtain ⟨data', hdata', hdd⟩ := hdata
        rw [hmemory, List.getElem?_map, hdata', Except.ok.inj hdd]
        rfl
      · have hlen : datas.length = chunkHashes.length := by
          rw [← hlength, hdatas, List.length_map]
        rw [List.getElem?_eq_none_iff.2 (by rw [h.length]; omega),
          List.getElem?_eq_none_iff.2 (by rw [List.length_map]; omega)]
    | error e =>
      obtain ⟨i, hi⟩ := Gather.mem_ended_of_outcome houtcome
      exact List.mem_of_getElem? (h.failed i e hi)
  bounded := Machine.bounded_of_measure (I := fun _ => True) (fun s => Gather.measure s.gather)
    trivial (fun _ _ _ _ _ => trivial) fun _ _ _ _ ht => measure_lt_of_exec ht
  stops s hs hstuck := by
    have hall := allEnded_of_stuck (gather_inv hs) hlimit hstuck
    obtain ⟨r, hr⟩ := Gather.exists_outcome_of_allEnded hall
    exact ⟨_, by rw [returnedChunks, hr]; rfl⟩

/-- A manifest with one chunk; the second of two peers does not answer. -/
def halfAlive : Answers where
  manifest _ _ := .response 200 (some { chunks := some [⟨some 0, some "c0", none, none⟩] })
  chunk _ peerUrl _ := if peerUrl = "http://a" then .response 200 (some [1]) else .failed
  download _ _ _ := .response 200 (some [7])

theorem downloadChunksParallel_ends_halfAlive :
    (downloadChunksParallel ["http://a", "http://b"] ["c0", "c1"] halfAlive 5).Ends returnedChunks
      (Collects [.ok [1], .error .requestError]) :=
  downloadChunksParallel_ends ["http://a", "http://b"] ["c0", "c1"] halfAlive (by decide)

end Parallel

/-! ## `download_swarmed` -/

section Swarmed

variable {call : Call} {answers : Answers} {limit : ℕ} {entries : List (ℤ × String)}

/-- The coroutines of the call for entries with these indices and hashes. -/
def Call.tasks (call : Call) (entries : List (ℤ × String)) : List (Fetch Progress) :=
  entries.map fun e => fetchChunk call.urls e.1 e.2

/-- `xs[idx] = x` is possible on a list of this length. -/
def InRange (length : ℕ) (idx : ℤ) : Prop := -length ≤ idx ∧ idx < length

instance (length : ℕ) (idx : ℤ) : Decidable (InRange length idx) :=
  inferInstanceAs (Decidable (_ ∧ _))

/-- What the tasks come to, in the order of the entries. -/
def Call.fates (call : Call) (answers : Answers) (entries : List (ℤ × String)) :
    List (Except ClientError Bytes) :=
  entries.mapIdx fun i e => do
    let data ← content (answers.chunk i (roundRobin call.urls e.1) e.2)
    if InRange entries.length e.1 then .ok data else .error .indexError

/-- What the call returns and what it has written to the output. -/
def Swarming.result (s : Swarming) :
    Option (Except ClientError SwarmStats × Option Bytes) :=
  match s.main with
  | .returned stats => some (.ok stats, s.written)
  | .raised e => some (.error e, s.written)
  | _ => none

/-- A plain `download` from the first peer. -/
def Call.plainDownload (call : Call) (answers : Answers) : Except ClientError Bytes :=
  { call.client with baseUrl := call.firstUrl }.download answers call.fileHash call.password

/-- What the call may come to: the statistics of the chunks, with the file of a plain download; or
the failure of a task, or that of the download, with nothing written. -/
def Call.Swarms (call : Call) (answers : Answers) (entries : List (ℤ × String)) :
    Except ClientError SwarmStats × Option Bytes → Prop
  | (.ok stats, written) => ∃ (datas : List Bytes) (data : Bytes),
      call.fates answers entries = datas.map .ok ∧
      call.plainDownload answers = .ok data ∧ written = some data ∧
      stats = { fileHash := call.fileHash, totalChunks := entries.length,
                totalBytes := (datas.map List.length).sum, peersUsed := call.urls.length,
                concurrency := call.client.swarmConcurrency }
  | (.error e, written) => written = none ∧ (.error e ∈ call.fates answers entries ∨
      (∃ datas : List Bytes, call.fates answers entries = datas.map .ok) ∧
        call.plainDownload answers = .error e)

/-- The bytes that a task adds to `total_bytes`. -/
def bytesOf (fates : List (Except ClientError Bytes)) (i : ℕ) : ℕ :=
  match fates[i]? with
  | some (.ok data) => data.length
  | _ => 0

/-- What has ended has ended as it had to, and its bytes are counted. -/
structure Tallied (call : Call) (answers : Answers) (entries : List (ℤ × String))
    (f : Fetching Progress) : Prop where
  length : f.memory.chunkData.length = entries.length
  kept : ∀ i, (i, none) ∈ f.gather.ended → ∃ data,
    (call.fates answers entries)[i]? = some (.ok data)
  failed : ∀ i e, (i, some e) ∈ f.gather.ended →
    (call.fates answers entries)[i]? = some (.error e)
  bytes : f.memory.totalBytes =
    ((f.gather.ended.map Prod.fst).map (bytesOf (call.fates answers entries))).sum

lemma setItem_of_inRange {α : Type} {xs : List α} {idx : ℤ} {x : α}
    (h : InRange xs.length idx) :
    ∃ ys, setItem xs idx x = .ok ys ∧ ys.length = xs.length := by
  obtain ⟨hlow, hhigh⟩ := h
  unfold setItem
  by_cases hpos : 0 ≤ idx ∧ idx < xs.length
  · exact ⟨_, if_pos hpos, by simp⟩
  · have hneg : -(xs.length : ℤ) ≤ idx ∧ idx < 0 := by omega
    exact ⟨_, by rw [if_neg hpos, if_pos hneg], by simp⟩

lemma setItem_of_not_inRange {α : Type} {xs : List α} {idx : ℤ} {x : α}
    (h : ¬ InRange xs.length idx) : setItem xs idx x = .error .indexError := by
  unfold setItem InRange at *
  rw [if_neg (by omega), if_neg (by omega)]

lemma task_of_tasks {i : ℕ} {task : Fetch Progress} (h : (call.tasks entries)[i]? = some task) :
    ∃ e, entries[i]? = some e ∧ task = fetchChunk call.urls e.1 e.2 := by
  rw [Call.tasks, List.getElem?_map, Option.map_eq_some_iff] at h
  obtain ⟨e, he, rfl⟩ := h
  exact ⟨e, he, rfl⟩

lemma fates_of_getElem? {i : ℕ} {e : ℤ × String} (h : entries[i]? = some e) :
    (call.fates answers entries)[i]? = some (do
      let data ← content (answers.chunk i (roundRobin call.urls e.1) e.2)
      if InRange entries.length e.1 then .ok data else .error .indexError) := by
  rw [Call.fates, List.getElem?_mapIdx, h]
  rfl

variable (call answers) in
/-- A task settles as its fate says, whatever the tasks before it have left. -/
lemma settle_fetchChunk {i : ℕ} {e : ℤ × String} {p : Progress} (hentry : entries[i]? = some e)
    (hlength : p.chunkData.length = entries.length) :
    (∃ data chunkData, (call.fates answers entries)[i]? = some (.ok data) ∧
      chunkData.length = entries.length ∧
      settle answers i (fetchChunk call.urls e.1 e.2) p =
        .ok ⟨chunkData, p.downloaded + 1, p.totalBytes + data.length⟩) ∨
    ∃ err, (call.fates answers entries)[i]? = some (.error err) ∧
      settle answers i (fetchChunk call.urls e.1 e.2) p = .error err := by
  rw [fates_of_getElem? hentry]
  unfold settle fetchChunk
  cases hcontent : content (answers.chunk i (roundRobin call.urls e.1) e.2) with
  | error err => exact Or.inr ⟨err, rfl, rfl⟩
  | ok data =>
    simp only [bind, Except.bind]
    by_cases hrange : InRange entries.length e.1
    · obtain ⟨chunkData, hset, hlen⟩ :=
        setItem_of_inRange (x := some data) (hlength ▸ hrange)
      refine Or.inl ⟨data, chunkData, by rw [if_pos hrange], hlen.trans hlength, ?_⟩
      rw [hset]
      rfl
    · refine Or.inr ⟨.indexError, by rw [if_neg hrange], ?_⟩
      rw [setItem_of_not_inRange (x := some data) (hlength ▸ hrange)]

lemma Tallied.step {f g : Fetching Progress} (h : Tallied call answers entries f)
    (hstep : Progresses (call.tasks entries) answers f g) : Tallied call answers entries g := by
  cases hstep with
  | moved hended =>
    exact ⟨h.length, by simpa [hended] using h.kept, by simpa [hended] using h.failed,
      by simpa [hended] using h.bytes⟩
  | @kept i task memory g htask hrunning hsettle hended =>
    obtain ⟨e, he, rfl⟩ := task_of_tasks htask
    rcases settle_fetchChunk call answers he h.length with
      ⟨data, chunkData, hfate, hlen, hok⟩ | ⟨err, -, herr⟩
    · rw [hok, Except.ok.injEq] at hsettle
      subst hsettle
      refine ⟨hlen, fun j hj => ?_, fun j e' hj => ?_, ?_⟩
      · rw [hended, List.mem_append, List.mem_singleton, Prod.mk.injEq] at hj
        rcases hj with hj | ⟨rfl, -⟩
        · exact h.kept j hj
        · exact ⟨data, hfate⟩
      · rw [hended] at hj
        exact h.failed j e' (by simpa using hj)
      · simp [hended, h.bytes, bytesOf, hfate]
    · rw [herr] at hsettle
      cases hsettle
  | @failed i task e' g htask hrunning hsettle hended =>
    obtain ⟨e, he, rfl⟩ := task_of_tasks htask
    rcases settle_fetchChunk call answers he h.length with
      ⟨data, chunkData, -, -, hok⟩ | ⟨err, hfate, herr⟩
    · rw [hok] at hsettle
      cases hsettle
    · rw [herr, Except.error.injEq] at hsettle
      subst hsettle
      refine ⟨h.length, fun j hj => ?_, fun j e'' hj => ?_, ?_⟩
      · rw [hended] at hj
        exact h.kept j (by simpa using hj)
      · rw [hended, List.mem_append, List.mem_singleton, Prod.mk.injEq, Option.some.injEq] at hj
        rcases hj with hj | ⟨rfl, rfl⟩
        · exact h.failed j e'' hj
        · exact hfate
      · simp [hended, h.bytes, bytesOf, hfate]

/-- When `gather` returns, every task has given a content, and `total_bytes` is their size. -/
lemma Tallied.of_outcome {f : Fetching Progress} (h : Tallied call answers entries f)
    (hinv : Gather.Inv entries.length limit f.gather)
    (houtcome : f.gather.outcome = some (.ok ())) :
    ∃ datas : List Bytes, call.fates answers entries = datas.map .ok ∧
      f.memory.totalBytes = (datas.map List.length).sum := by
  have hlength : (call.fates answers entries).length = entries.length := by simp [Call.fates]
  obtain ⟨datas, hdatas⟩ := exists_map_ok fun i hi =>
    h.kept i (ended_of_outcome hinv houtcome (hlength ▸ hi))
  refine ⟨datas, hdatas, ?_⟩
  have hperm := hinv.ended_perm (Gather.outcome_eq_ok_iff.1 houtcome).1
  have hlen : datas.length = entries.length := by rw [← hlength, hdatas, List.length_map]
  rw [h.bytes, (hperm.map _).sum_eq, ← hlen]
  congr 1
  refine List.ext_getElem (by simp) fun i hi hi' => ?_
  have hplace : i < datas.length := by simpa using hi
  simp [bytesOf, hdatas, List.getElem?_eq_getElem hplace]

/-- What holds of the call in every reachable state. -/
structure SwarmInv (call : Call) (answers : Answers) (limit : ℕ) (entries : List (ℤ × String))
    (s : Swarming) : Prop where
  gather : Gather.Inv entries.length limit s.fetching.gather
  tallied : Tallied call answers entries s.fetching
  unwritten : s.result = none → s.written = none
  requesting : s.main = .requesting → s.fetching.gather.outcome = some (.ok ())
  ended : ∀ r, s.result = some r → call.Swarms answers entries r

lemma swarmInv_init : SwarmInv call answers limit entries
    (downloadSwarmed call limit (call.tasks entries) answers).init where
  gather := by
    have h : Gather.Inv (call.tasks entries).length limit
        (Gather.machine ClientError (call.tasks entries).length limit).init := Gather.inv_init
    have hlength : (call.tasks entries).length = entries.length := by simp [Call.tasks]
    exact hlength ▸ h
  tallied := by
    refine ⟨by simp [downloadSwarmed, fetching, Call.tasks], ?_, ?_, rfl⟩
    · intro i hi
      simp [downloadSwarmed, fetching, Gather.machine] at hi
    · intro i e hi
      simp [downloadSwarmed, fetching, Gather.machine] at hi
  unwritten _ := rfl
  requesting h := by cases h
  ended r h := by cases h

/-- Tasks that are all over take no further step. -/
lemma not_exec_of_outcome {f g : Fetching Progress} {tasks : List (Fetch Progress)} {l : Step}
    (houtcome : f.gather.outcome = some (.ok ())) : f.exec tasks answers l ≠ some g := by
  intro hexec
  have hlt := measure_lt_of_exec hexec
  obtain ⟨hc, hq, hw, hr⟩ := (Gather.outcome_eq_ok_iff.1 houtcome).1
  simp [Gather.measure, hc, hq, hw, hr] at hlt

lemma SwarmInv.step {s t : Swarming} {l : SwarmLabel} (h : SwarmInv call answers limit entries s)
    (hexec : s.exec call (call.tasks entries) answers l = some t) :
    SwarmInv call answers limit entries t := by
  cases l with
  | task l =>
    obtain ⟨f, hf, rfl⟩ := Option.map_eq_some_iff.1 hexec
    obtain ⟨⟨l', hl'⟩, hstep⟩ := Fetching.exec_cases hf
    refine ⟨h.gather.step hl', h.tallied.step hstep, h.unwritten, fun hmain => ?_, h.ended⟩
    exact absurd hf (not_exec_of_outcome (h.requesting hmain))
  | gathered =>
    simp only [Swarming.exec] at hexec
    split at hexec
    · next hmain houtcome =>
      obtain rfl := Option.some.inj hexec
      have hnone : s.written = none := h.unwritten (by simp [Swarming.result, hmain])
      refine ⟨h.gather, h.tallied, fun _ => hnone, fun _ => houtcome, fun r hr => ?_⟩
      cases hr
    · next e hmain houtcome =>
      obtain rfl := Option.some.inj hexec
      have hnone : s.written = none := h.unwritten (by simp [Swarming.result, hmain])
      refine ⟨h.gather, h.tallied, fun _ => hnone, ?_, fun r hr => ?_⟩
      · intro hr
        cases hr
      obtain rfl := Option.some.inj hr
      obtain ⟨i, hi⟩ := Gather.mem_ended_of_outcome houtcome
      exact ⟨hnone, Or.inl (List.mem_of_getElem? (h.tallied.failed i e hi))⟩
    · simp at hexec
  | downloaded =>
    simp only [Swarming.exec] at hexec
    split at hexec
    · next hmain =>
      have hnone : s.written = none := h.unwritten (by simp [Swarming.result, hmain])
      obtain ⟨datas, hdatas, hbytes⟩ := h.tallied.of_outcome h.gather (h.requesting hmain)
      split at hexec
      · next data hdata =>
        obtain rfl := Option.some.inj hexec
        refine ⟨h.gather, h.tallied, ?_, ?_, fun r hr => ?_⟩
        · intro hr
          cases hr
        · intro hr
          cases hr
        obtain rfl := Option.some.inj hr
        refine ⟨datas, data, hdatas, hdata, rfl, ?_⟩
        rw [Call.stats, h.tallied.length, hbytes]
      · next e he =>
        obtain rfl := Option.some.inj hexec
        refine ⟨h.gather, h.tallied, ?_, ?_, fun r hr => ?_⟩
        · intro hr
          cases hr
        · intro hr
          cases hr
        obtain rfl := Option.some.inj hr
        exact ⟨hnone, Or.inr ⟨⟨datas, hdatas⟩, he⟩⟩
    · simp at hexec

lemma swarmInv_of_reachable {s : Swarming}
    (hs : (downloadSwarmed call limit (call.tasks entries) answers).Reachable s) :
    SwarmInv call answers limit entries s :=
  hs.invariant swarmInv_init fun _ _ _ h ht => h.step ht

/-- The steps that the call can still take. -/
def Swarming.measure (s : Swarming) : ℕ :=
  Gather.measure s.fetching.gather +
    match s.main with
    | .gathering => 2
    | .requesting => 1
    | _ => 0

lemma Swarming.measure_lt {s t : Swarming} {tasks : List (Fetch Progress)} {l : SwarmLabel}
    (hexec : s.exec call tasks answers l = some t) : t.measure < s.measure := by
  cases l with
  | task l =>
    obtain ⟨f, hf, rfl⟩ := Option.map_eq_some_iff.1 hexec
    exact Nat.add_lt_add_right (measure_lt_of_exec hf) _
  | gathered =>
    simp only [Swarming.exec] at hexec
    split at hexec
    · next hmain _ =>
      obtain rfl := Option.some.inj hexec
      simp [Swarming.measure, hmain]
    · next hmain _ =>
      obtain rfl := Option.some.inj hexec
      simp [Swarming.measure, hmain]
    · simp at hexec
  | downloaded =>
    simp only [Swarming.exec] at hexec
    split at hexec
    · next hmain =>
      split at hexec <;> obtain rfl := Option.some.inj hexec <;> simp [Swarming.measure, hmain]
    · simp at hexec

lemma Call.tasks_ends (hlimit : 0 < limit) :
    (downloadSwarmed call limit (call.tasks entries) answers).Ends Swarming.result
      (call.Swarms answers entries) where
  sound s hs r hr := (swarmInv_of_reachable hs).ended r hr
  bounded := Machine.bounded_of_measure (I := fun _ => True) Swarming.measure trivial
    (fun _ _ _ _ _ => trivial) fun _ _ _ _ ht => Swarming.measure_lt ht
  stops s hs hstuck := by
    have h := swarmInv_of_reachable hs
    have hgather : Gather.Inv (call.tasks entries).length limit s.fetching.gather := by
      rw [Call.tasks, List.length_map]
      exact h.gather
    have hall : s.fetching.gather.AllEnded := allEnded_of_stuck hgather hlimit fun l =>
      Option.map_eq_none_iff.1 (hstuck (.task l))
    obtain ⟨r, hr⟩ := Gather.exists_outcome_of_allEnded hall
    cases hmain : s.main with
    | gathering =>
      have hstay := hstuck .gathered
      cases r <;> simp [downloadSwarmed, Swarming.exec, hmain, hr] at hstay
    | requesting =>
      have hstay := hstuck .downloaded
      simp only [downloadSwarmed, Swarming.exec, hmain] at hstay
      split at hstay <;> simp at hstay
    | returned stats => exact ⟨(.ok stats, s.written), by simp [Swarming.result, hmain]⟩
    | raised e => exact ⟨(.error e, s.written), by simp [Swarming.result, hmain]⟩

/-- The index and the hash of the entries of a manifest. -/
def requested (manifest : ManifestDict) : List (ℤ × String) :=
  (manifest.chunks.getD []).filterMap fun info =>
    info.index.bind fun idx => info.chunkHash.map fun chunkHash => (idx, chunkHash)

lemma fetchChunks_cons (urls : List String) (info : ChunkDict) (infos : List ChunkDict) :
    fetchChunks urls (info :: infos) = (do
      let idx ← getItem "index" info.index
      let chunkHash ← getItem "chunk_hash" info.chunkHash
      let rest ← fetchChunks urls infos
      return fetchChunk urls idx chunkHash :: rest) := by
  rw [fetchChunks, List.mapM_cons]
  cases info.index with
  | none => rfl
  | some idx => cases info.chunkHash <;> rfl

lemma fetchChunks_ok {urls : List String} {chunksInfo : List ChunkDict}
    {tasks : List (Fetch Progress)} (h : fetchChunks urls chunksInfo = .ok tasks) :
    tasks = (chunksInfo.filterMap fun info => info.index.bind fun idx =>
      info.chunkHash.map fun chunkHash => (idx, chunkHash)).map
        fun e => fetchChunk urls e.1 e.2 := by
  induction chunksInfo generalizing tasks with
  | nil => exact (Except.ok.inj h).symm
  | cons info infos ih =>
    rw [fetchChunks_cons] at h
    obtain ⟨idx, chunkHash⟩ := info
    cases idx with
    | none => cases h
    | some idx =>
      cases chunkHash with
      | none => cases h
      | some chunkHash =>
        cases hrest : fetchChunks urls infos with
        | error e =>
          rw [hrest] at h
          cases h
        | ok rest =>
          rw [hrest] at h
          rw [← Except.ok.inj h, ih hrest]
          rfl

/-- What has to go well before the tasks are made. -/
lemma Call.prepare_ok {tasks : List (Fetch Progress)}
    (h : call.prepare answers = .ok (limit, tasks)) :
    ∃ manifest, content (answers.manifest call.firstUrl call.fileHash) = .ok manifest ∧
      (limit : ℤ) = call.client.swarmConcurrency ∧
      tasks = call.tasks (requested manifest) := by
  unfold Call.prepare at h
  cases hmanifest : content (answers.manifest call.firstUrl call.fileHash) with
  | error e => simp [hmanifest, bind, Except.bind] at h
  | ok manifest =>
    simp only [hmanifest, bind, Except.bind, newSemaphore] at h
    split at h
    · simp at h
    · next limit' hlimit =>
      split at hlimit
      · simp at hlimit
      · next hnonneg =>
        cases htasks : fetchChunks call.urls (manifest.chunks.getD []) with
        | error e => simp [htasks] at h
        | ok tasks' =>
          simp only [htasks, pure, Except.pure, Except.ok.injEq, Prod.mk.injEq] at h hlimit
          obtain ⟨rfl, rfl⟩ := h
          exact ⟨manifest, rfl, by omega, fetchChunks_ok htasks⟩

/-- **Swarmed downloads.** In whatever order the responses arrive, the call comes to an end.  It
returns only when every chunk that the manifest names could be fetched, with the file that a plain
download from the first peer gives; otherwise it raises the failure of a request, and writes
nothing. -/
theorem downloadSwarmed_ends {tasks : List (Fetch Progress)}
    (hprepare : call.prepare answers = .ok (limit, tasks)) (hlimit : 0 < limit) :
    ∃ manifest, content (answers.manifest call.firstUrl call.fileHash) = .ok manifest ∧
      (downloadSwarmed call limit tasks answers).Ends Swarming.result
        (call.Swarms answers (requested manifest)) := by
  obtain ⟨manifest, hmanifest, -, rfl⟩ := Call.prepare_ok hprepare
  exact ⟨manifest, hmanifest, Call.tasks_ends hlimit⟩

/-- A call with the default concurrency. -/
def twoPeerCall : Call where
  client := Client.new "http://localhost:8000" swarmConcurrency
  urls := ["http://a", "http://b"]
  fileHash := "f"
  password := ""

theorem downloadSwarmed_ends_halfAlive : ∃ manifest,
    content (halfAlive.manifest twoPeerCall.firstUrl twoPeerCall.fileHash) = .ok manifest ∧
      (downloadSwarmed twoPeerCall 5 (twoPeerCall.tasks [(0, "c0")]) halfAlive).Ends
        Swarming.result (twoPeerCall.Swarms halfAlive (requested manifest)) :=
  downloadSwarmed_ends rfl (by decide)

end Swarmed

/-! ## The requests under way -/

section InFlight

variable {limit : ℕ}

/-- At most `limit` requests are under way, as many as possible once the tasks have settled, and
tasks get there in the order of the list. -/
structure InFlight (n limit : ℕ) (g : Gather.State ClientError) : Prop where
  atMost : g.running.length ≤ limit
  noneIdle : g.created = [] → g.woken = [] → g.running.length = min limit (n - g.ended.length)
  inOrder : ∀ i ∈ g.queue ++ g.created,
    ∀ j ∈ g.woken ++ g.running ++ g.ended.map Prod.fst, j < i

lemma inFlight_of_inv {n : ℕ} {g : Gather.State ClientError} (h : Gather.Inv n limit g) :
    InFlight n limit g :=
  ⟨h.length_running_le, h.length_running_eq, fun _ hi _ hj => h.fifo hi hj⟩

lemma gather_inv_downloadSwarmed {call : Call} {tasks : List (Fetch Progress)} {answers : Answers}
    {s : Swarming} (hs : (downloadSwarmed call limit tasks answers).Reachable s) :
    Gather.Inv tasks.length limit s.fetching.gather := by
  refine hs.invariant (I := fun s => Gather.Inv tasks.length limit s.fetching.gather)
    Gather.inv_init ?_
  intro s l t h hexec
  cases l with
  | task l =>
    obtain ⟨f, hf, rfl⟩ := Option.map_eq_some_iff.1 hexec
    obtain ⟨⟨l', hl'⟩, -⟩ := Fetching.exec_cases hf
    exact h.step hl'
  | gathered =>
    simp only [downloadSwarmed, Swarming.exec] at hexec
    split at hexec
    · exact Option.some.inj hexec ▸ h
    · exact Option.some.inj hexec ▸ h
    · simp at hexec
  | downloaded =>
    simp only [downloadSwarmed, Swarming.exec] at hexec
    split at hexec
    · split at hexec <;> exact Option.some.inj hexec ▸ h
    · simp at hexec

/-- **Bounded concurrency.** At every moment of both calls at most `swarm_concurrency` requests for
chunks are under way; no permit is idle while a task waits, whatever fails; and the requests are
sent in the order of the chunks. -/
theorem inFlight_exact (urls chunkHashes : List String) (call : Call)
    (tasks : List (Fetch Progress)) (answers : Answers) (limit : ℕ) :
    (∀ s, (downloadChunksParallel urls chunkHashes answers limit).Reachable s →
      InFlight chunkHashes.length limit s.gather) ∧
    ∀ s, (downloadSwarmed call limit tasks answers).Reachable s →
      InFlight tasks.length limit s.fetching.gather := by
  refine ⟨fun s hs => ?_, fun s hs => inFlight_of_inv (gather_inv_downloadSwarmed hs)⟩
  have h := inFlight_of_inv (gather_inv hs)
  rwa [length_fetches] at h

end InFlight

end DistriStoreClient

end DistriStore
