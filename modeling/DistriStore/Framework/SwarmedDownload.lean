import DistriStore.Api.Swarm
import DistriStore.Framework.Swarming

/-!
# Swarming from honest nodes

The client of `client.py` against the nodes of `Api/Swarm`.  `GET /chunk` answers from the local
store only, while `GET /download` also asks the peers of the node.  So a swarmed download can fail
where a plain one does not: it delivers the uploaded file exactly when every chunk is held by the
very node that its place in the list falls to (`downloadSwarmed_of_uploaded`).
-/

namespace DistriStore

namespace DistriStoreClient

open Lib

variable {ν : Type} {P : Packages} {s : Swarm ν} {nodeAt : String → Option ν}
  {alive : ν → List ν} {call : Call}

/-- What the nodes answer: `nodeAt` is the node that listens at a base URL, `alive n` are the peers
that node `n` believes alive. -/
def answersOf (P : Packages) (s : Swarm ν) (nodeAt : String → Option ν) (alive : ν → List ν) :
    Answers where
  manifest peerUrl fileHash :=
    match nodeAt peerUrl with
    | some n => Reply.of (getManifest (s.nodes n).store fileHash)
    | none => .failed
  chunk _ peerUrl chunkHash :=
    match nodeAt peerUrl with
    | some n => Reply.of (getChunk (s.nodes n).store chunkHash)
    | none => .failed
  download peerUrl fileHash params :=
    match nodeAt peerUrl with
    | some n =>
      Reply.of ((s.download P n fileHash (params.getD "") (alive n)).1.result.map
        FileResponse.content)
    | none => .failed

/-- Every chunk is held by the node that it is asked of. -/
def Served (s : Swarm ν) (nodeAt : String → Option ν) (call : Call) (d : ManifestDict) : Prop :=
  ∀ (i : ℕ) (c : String), d.chunkHashes[i]? = some c →
    ∃ n, nodeAt (roundRobin call.urls i) = some n ∧ (s.nodes n).store.hasChunk c = true

/-! ## What the requests come to -/

lemma content_getChunk (store : LocalStore) {c : String} (hc : Storable c) :
    content (Reply.of (getChunk store c)) =
      match store.loadChunk c with
      | some x => .ok x
      | none => .error (.httpStatusError 404) := by
  unfold getChunk missingChunk
  rw [if_neg (not_tooLong_of_isFileName hc)]
  cases store.loadChunk c <;> rfl

lemma roundRobin_mem {urls : List String} (h : urls ≠ []) (idx : ℤ) :
    roundRobin urls idx ∈ urls := by
  have hlen : 0 < urls.length := List.length_pos_iff.2 h
  have hlt : (idx % urls.length).toNat < urls.length := by
    have hpos : (0 : ℤ) < urls.length := by exact_mod_cast hlen
    have hmod := Int.emod_lt_of_pos idx hpos
    omega
  rw [roundRobin, List.getElem?_eq_getElem hlt]
  exact List.getElem_mem hlt

/-- The entries of a written manifest all have what a task needs. -/
lemma fetchChunks_toDict (urls : List String) (infos : List ChunkInfo) :
    fetchChunks urls (infos.map ChunkInfo.toDict) =
      .ok (infos.map fun info => fetchChunk urls info.index info.chunkHash) := by
  induction infos with
  | nil => rfl
  | cons info infos ih =>
    rw [fetchChunks] at ih ⊢
    rw [List.map_cons, List.mapM_cons, ih]
    rfl

section Produced

variable {u : Upload} {d : ManifestDict}

/-- The index and the hash of each chunk of an upload. -/
def entriesOf (P : Packages) (u : Upload) : List (ℤ × String) :=
  (u.pairs P).map fun p => (p.1.index, p.1.chunkHash)

lemma chunks_of_produced (h : u.Produced P call.fileHash d) :
    d.chunks.getD [] = ((u.pairs P).map Prod.fst).map ChunkInfo.toDict := by
  obtain ⟨-, rfl⟩ := h
  rfl

variable (s alive) in
/-- With a produced manifest at the first peer, the tasks are made. -/
lemma prepare_of_produced {n : ν} (h : u.Produced P call.fileHash d)
    (hfirst : nodeAt call.firstUrl = some n)
    (hmanifest : (s.nodes n).store.loadManifest call.fileHash = some d)
    (hconcurrency : 0 < call.client.swarmConcurrency) :
    call.prepare (answersOf P s nodeAt alive) =
      .ok (call.client.swarmConcurrency.toNat, call.tasks (entriesOf P u)) := by
  have htruthy : d.truthy = true := by
    obtain ⟨-, rfl⟩ := h
    exact NodeDatabase.truthy_dictOf _ _
  have hcontent : content ((answersOf P s nodeAt alive).manifest call.firstUrl call.fileHash) =
      .ok d := by
    have hget : getManifest (s.nodes n).store call.fileHash = .ok d := by
      simp [getManifest, hmanifest, Option.filter, htruthy]
    simp only [answersOf, hfirst, hget]
    rfl
  have hsemaphore : newSemaphore call.client.swarmConcurrency =
      .ok call.client.swarmConcurrency.toNat := if_neg (by omega)
  have htasks : fetchChunks call.urls (d.chunks.getD []) = .ok (call.tasks (entriesOf P u)) := by
    rw [chunks_of_produced h, fetchChunks_toDict, Call.tasks, entriesOf, List.map_map, List.map_map]
    rfl
  simp only [Call.prepare, hcontent, hsemaphore, htasks, bind, Except.bind, pure, Except.pure]

/-- The chunks of an upload are numbered by their places. -/
lemma index_of_pairs {i : ℕ} {p : ChunkInfo × Bytes} (h : (u.pairs P)[i]? = some p) :
    p.1.index = i := by
  simp only [Upload.pairs, encodedChunks, streamChunks, List.getElem?_map,
    Option.map_eq_some_iff] at h
  obtain ⟨piece, hpiece, rfl⟩ := h
  rw [encodeChunk_index]
  rw [List.getElem?_mapIdx, Option.map_eq_some_iff] at hpiece
  obtain ⟨block, -, rfl⟩ := hpiece
  rfl

variable (s alive) in
/-- What the task for a chunk comes to. -/
lemma fate_of_pairs {i : ℕ} {p : ChunkInfo × Bytes} {n : ν} (hp : (u.pairs P)[i]? = some p)
    (hn : nodeAt (roundRobin call.urls i) = some n) :
    (call.fates (answersOf P s nodeAt alive) (entriesOf P u))[i]? =
      some (match (s.nodes n).store.loadChunk p.1.chunkHash with
        | some x => .ok x
        | none => .error (.httpStatusError 404)) := by
  have hentry : (entriesOf P u)[i]? = some (p.1.index, p.1.chunkHash) := by
    rw [entriesOf, List.getElem?_map, hp]
    rfl
  have hrange : InRange (entriesOf P u).length i := by
    have hlt : i < (entriesOf P u).length := (List.getElem?_eq_some_iff.1 hentry).1
    refine ⟨by omega, by exact_mod_cast hlt⟩
  have hname : Storable p.1.chunkHash := Upload.storable_of_mem_entries
    (Upload.mem_entries.2 ⟨p, List.mem_of_getElem? hp, rfl, rfl⟩)
  rw [fates_of_getElem? hentry, index_of_pairs hp]
  simp only [answersOf, hn, content_getChunk _ hname]
  cases (s.nodes n).store.loadChunk p.1.chunkHash with
  | none => rfl
  | some x => simp [bind, Except.bind, hrange]

lemma length_fates (answers : Answers) (entries : List (ℤ × String)) :
    (call.fates answers entries).length = entries.length := by
  simp [Call.fates]

variable (s alive) in
/-- The chunk of a place is there, or the answer is a 404. -/
lemma fate_cases {i : ℕ} {p : ChunkInfo × Bytes} (hne : call.urls ≠ [])
    (hurls : ∀ url ∈ call.urls, ∃ m, nodeAt url = some m) (hp : (u.pairs P)[i]? = some p) :
    ∃ m, nodeAt (roundRobin call.urls i) = some m ∧
      ((∃ x, (s.nodes m).store.loadChunk p.1.chunkHash = some x ∧
          (call.fates (answersOf P s nodeAt alive) (entriesOf P u))[i]? = some (.ok x)) ∨
        (s.nodes m).store.loadChunk p.1.chunkHash = none ∧
          (call.fates (answersOf P s nodeAt alive) (entriesOf P u))[i]? =
            some (.error (.httpStatusError 404))) := by
  obtain ⟨m, hm⟩ := hurls _ (roundRobin_mem hne i)
  have hfate := fate_of_pairs s alive hp hm
  refine ⟨m, hm, ?_⟩
  cases hload : (s.nodes m).store.loadChunk p.1.chunkHash with
  | none => exact Or.inr ⟨rfl, by rw [hfate, hload]⟩
  | some x => exact Or.inl ⟨x, rfl, by rw [hfate, hload]⟩

/-- The places of a produced manifest. -/
lemma chunkHashes_getElem? (h : u.Produced P call.fileHash d) {i : ℕ} {c : String} :
    d.chunkHashes[i]? = some c ↔ ∃ p, (u.pairs P)[i]? = some p ∧ p.1.chunkHash = c := by
  rw [h.chunkHashes, List.getElem?_map, Option.map_eq_some_iff]

/-- When every fetch gives a content, the chunks are where they are asked for. -/
lemma served_of_fates (h : u.Produced P call.fileHash d) (hne : call.urls ≠ [])
    (hurls : ∀ url ∈ call.urls, ∃ m, nodeAt url = some m) {datas : List Bytes}
    (hfates : call.fates (answersOf P s nodeAt alive) (entriesOf P u) = datas.map .ok) :
    Served s nodeAt call d := by
  intro i c hc
  obtain ⟨p, hp, rfl⟩ := (chunkHashes_getElem? h).1 hc
  obtain ⟨m, hm, ⟨x, hx, -⟩ | ⟨-, herror⟩⟩ :=
    fate_cases s alive hne hurls hp
  · exact ⟨m, hm, Option.isSome_iff_exists.2 ⟨x, hx⟩⟩
  · rw [hfates, List.getElem?_map, Option.map_eq_some_iff] at herror
    obtain ⟨x, -, hx⟩ := herror
    cases hx

/-- A fetch that fails ends in a 404, because the chunk is not where it is asked for. -/
lemma not_served_of_error (h : u.Produced P call.fileHash d) (hne : call.urls ≠ [])
    (hurls : ∀ url ∈ call.urls, ∃ m, nodeAt url = some m) {e : ClientError}
    (he : .error e ∈ call.fates (answersOf P s nodeAt alive) (entriesOf P u)) :
    e = .httpStatusError 404 ∧ ¬ Served s nodeAt call d := by
  obtain ⟨i, hi⟩ := List.mem_iff_getElem?.1 he
  have hlt : i < (u.pairs P).length := by
    have hlt := (List.getElem?_eq_some_iff.1 hi).1
    rwa [length_fates, entriesOf, List.length_map] at hlt
  have hp := List.getElem?_eq_getElem hlt
  obtain ⟨m, hm, ⟨x, -, hok⟩ | ⟨hnone, herror⟩⟩ :=
    fate_cases s alive hne hurls hp
  · rw [hok] at hi
    cases hi
  · rw [herror, Option.some.injEq, Except.error.injEq] at hi
    refine ⟨hi.symm, fun hserved => ?_⟩
    obtain ⟨m', hm', hheld⟩ := hserved i _ ((chunkHashes_getElem? h).2 ⟨_, hp, rfl⟩)
    obtain rfl : m = m' := Option.some.inj (hm.symm.trans hm')
    rw [LocalStore.hasChunk, hnone] at hheld
    cases hheld

/-- What honest nodes answer is what the upload made. -/
lemma datas_of_fates (hhonest : s.Honest P) (hcf : CollisionFree sha256 (s.Hashed P))
    (hu : u ∈ s.uploads) (hne : call.urls ≠ [])
    (hurls : ∀ url ∈ call.urls, ∃ m, nodeAt url = some m) {datas : List Bytes}
    (hfates : call.fates (answersOf P s nodeAt alive) (entriesOf P u) = datas.map .ok) :
    datas = (u.pairs P).map Prod.snd := by
  have hlength : datas.length = (u.pairs P).length := by
    rw [← List.length_map (f := Except.ok (ε := ClientError)), ← hfates, length_fates, entriesOf,
      List.length_map]
  refine List.ext_getElem (by simpa using hlength) fun i hi hi' => ?_
  have hlt : i < (u.pairs P).length := hlength ▸ hi
  have hp := List.getElem?_eq_getElem hlt
  have hdata : (call.fates (answersOf P s nodeAt alive) (entriesOf P u))[i]? =
      some (.ok datas[i]) := by
    rw [hfates, List.getElem?_map, List.getElem?_eq_getElem hi]
    rfl
  obtain ⟨m, -, ⟨x, hx, hok⟩ | ⟨-, herror⟩⟩ :=
    fate_cases s alive hne hurls hp
  · rw [hok, Option.some.injEq, Except.ok.injEq] at hdata
    have hentry : ((u.pairs P)[i].1.chunkHash, (u.pairs P)[i].2) ∈ u.entries P :=
      Upload.mem_entries.2 ⟨_, List.getElem_mem hlt, rfl, rfl⟩
    rw [← hdata, List.getElem_map]
    exact hhonest.chunk_unique hcf hu hentry hx
  · rw [herror] at hdata
    cases hdata

end Produced

/-! ## The file arrives exactly when the chunks are where they are asked for -/

/-- What a swarmed download of an uploaded file returns. -/
def uploadedStats (P : Packages) (call : Call) (u : Upload) : SwarmStats where
  fileHash := call.fileHash
  totalChunks := (u.pairs P).length
  totalBytes := ((u.pairs P).map fun p => p.2.length).sum
  peersUsed := call.urls.length
  concurrency := call.client.swarmConcurrency

/-- **Swarming from honest nodes.** In every reachable state of the swarm, let the first peer hold
the manifest of an uploaded file, and let the other peers be alive for it.  Whatever the order of
the responses, a swarmed download with the password of the upload ends: with the uploaded file, if
every chunk is held by the node that its place in the list falls to, and else with a 404 and
without a file. -/
theorem downloadSwarmed_of_uploaded [DecidableEq ν] {ident : ν → String} (hP : P.Lawful)
    (hs : (swarm P ident).Reachable s) (hcf : CollisionFree sha256 (s.Hashed P)) {n : ν}
    {d : ManifestDict} {u : Upload} (hconcurrency : 0 < call.client.swarmConcurrency)
    (hne : call.urls ≠ []) (hfirst : nodeAt call.firstUrl = some n)
    (hurls : ∀ url ∈ call.urls, ∃ m, nodeAt url = some m ∧ (m = n ∨ m ∈ alive n))
    (hmanifest : (s.nodes n).store.loadManifest call.fileHash = some d)
    (hu : u ∈ s.uploads) (hprod : u.Produced P call.fileHash d)
    (hpw : u.password ≠ "" → call.password = u.password) :
    ∃ limit tasks, call.prepare (answersOf P s nodeAt alive) = .ok (limit, tasks) ∧
      (downloadSwarmed call limit tasks (answersOf P s nodeAt alive)).Ends Swarming.result
        fun r =>
          Served s nodeAt call d ∧ r = (.ok (uploadedStats P call u), some u.file.content) ∨
          ¬ Served s nodeAt call d ∧ r = (.error (.httpStatusError 404), none) := by
  have hhonest := honest_of_reachable hs
  have hnodes : ∀ url ∈ call.urls, ∃ m, nodeAt url = some m := by
    intro url hurl
    obtain ⟨m, hm, -⟩ := hurls url hurl
    exact ⟨m, hm⟩
  have hprepare := prepare_of_produced s alive hprod hfirst hmanifest hconcurrency
  -- the plain download from the first peer
  have hplain : Served s nodeAt call d →
      call.plainDownload (answersOf P s nodeAt alive) = .ok u.file.content := by
    intro hserved
    have hfound : s.foundManifest n call.fileHash (alive n) = some d := by
      rw [hhonest.foundManifest_eq, hmanifest, Option.some_or]
    have havail : ∀ c ∈ d.chunkHashes, (s.nodes n).store.hasChunk c = true ∨
        ∃ m ∈ alive n, (s.nodes m).store.hasChunk c = true := by
      intro c hc
      obtain ⟨i, hi⟩ := List.mem_iff_getElem?.1 hc
      obtain ⟨m, hm, hheld⟩ := hserved i c hi
      obtain ⟨m', hm', hplace⟩ := hurls _ (roundRobin_mem hne i)
      obtain rfl : m = m' := Option.some.inj (hm.symm.trans hm')
      rcases hplace with rfl | halive
      · exact Or.inl hheld
      · exact Or.inr ⟨m, halive, hheld⟩
    have hparams : (passwordOrNone call.password).getD "" = call.password := by
      unfold passwordOrNone
      split
      · next h => simp [h]
      · rfl
    obtain ⟨hresult, -, -⟩ :=
      hhonest.download_eq hP hcf hfound havail hu hprod fun _ => Upload.unlocks hpw
    simp only [Call.plainDownload, Client.download, answersOf, hfirst, hparams, hresult]
    rfl
  refine ⟨_, _, hprepare, (Call.tasks_ends (by omega)).imp ?_⟩
  rintro ⟨result, written⟩ hr
  cases result with
  | ok stats =>
    obtain ⟨datas, data, hfates, hdata, rfl, rfl⟩ := hr
    have hserved := served_of_fates hprod hne hnodes hfates
    rw [hplain hserved, Except.ok.injEq] at hdata
    refine Or.inl ⟨hserved, ?_⟩
    rw [hdata, datas_of_fates hhonest hcf hu hne hnodes hfates, List.map_map, uploadedStats,
      entriesOf, List.length_map]
    rfl
  | error e =>
    obtain ⟨rfl, hfail | ⟨⟨datas, hfates⟩, hfail⟩⟩ := hr
    · obtain ⟨rfl, hserved⟩ := not_served_of_error hprod hne hnodes hfail
      exact Or.inr ⟨hserved, rfl⟩
    · rw [hplain (served_of_fates hprod hne hnodes hfates)] at hfail
      cases hfail

/-- One node, to which a file of one byte has been uploaded. -/
def loneNode : Swarm Unit :=
  ((swarm rawPackages fun _ : Unit => "node").init).step rawPackages
    (.upload () oneByteUpload ∅ fun _ => ⟨∅, fun _ => .ok false⟩)

/-- A call that swarms the file of one byte from one node. -/
def loneCall : Call where
  client := Client.new "http://localhost:8000" swarmConcurrency
  urls := ["http://localhost:8000"]
  fileHash := sha256Hash [0x61]
  password := ""

theorem downloadSwarmed_of_uploaded_loneNode : ∃ limit tasks,
    loneCall.prepare (answersOf rawPackages loneNode (fun _ => some ()) fun _ => []) =
      .ok (limit, tasks) ∧
    (downloadSwarmed loneCall limit tasks
      (answersOf rawPackages loneNode (fun _ => some ()) fun _ => [])).Ends Swarming.result
        fun r => Served loneNode (fun _ => some ()) loneCall (NodeDatabase.dictOf loneCall.fileHash
            (NodeDatabase.rowOf (oneByteUpload.manifest rawPackages).toDict)) ∧
            r = (.ok (uploadedStats rawPackages loneCall oneByteUpload), some [0x61]) ∨
          ¬ Served loneNode (fun _ => some ()) loneCall (NodeDatabase.dictOf loneCall.fileHash
            (NodeDatabase.rowOf (oneByteUpload.manifest rawPackages).toDict)) ∧
            r = (.error (.httpStatusError 404), none) := by
  have hs : (swarm rawPackages fun _ : Unit => "node").Reachable loneNode :=
    Machine.Reachable.init.step rfl
  have hmanifest : (loneNode.nodes ()).store.loadManifest loneCall.fileHash =
      some (NodeDatabase.dictOf loneCall.fileHash
        (NodeDatabase.rowOf (oneByteUpload.manifest rawPackages).toDict)) := by
    have hload := loadManifest_uploadAt rawPackages oneByteUpload ∅
      (fun _ => ⟨∅, fun _ => .ok false⟩) ((swarm rawPackages fun _ : Unit => "node").init.nodes ())
      (sha256Hash [0x61])
    have hname : sha256Hash [0x61] = sha256Hash oneByteUpload.file.content := rfl
    rwa [if_pos hname] at hload
  exact downloadSwarmed_of_uploaded (n := ()) rawPackages_lawful hs
    (collisionFree_oneByteUpload fun u hu => List.mem_singleton.1 hu) (by decide) (by decide) rfl
    (fun _ _ => ⟨(), rfl, Or.inl rfl⟩) hmanifest (List.mem_singleton_self _) ⟨rfl, rfl⟩
    fun h => absurd rfl h

end DistriStoreClient

end DistriStore
