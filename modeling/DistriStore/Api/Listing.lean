import DistriStore.Api.Swarm
import DistriStore.Lib.FirstBy
import DistriStore.Lib.Selection
import DistriStore.Network.Protocol

/-!
# The list of files (`GET /files`)

A node lists the files in its own database, and then those that its alive peers list and nobody
before has listed.  What a peer answers is taken as it is, up to the first entry that the loop
cannot handle; the exception is caught, and what has been appended stays.

Whatever the peers answer, the list has the files of the node as they are in its database, and under
any other hash the first offer that has come for it, and nothing twice (`listFiles_first`).  Among
honest nodes this is what a download would find: `GET /files` lists a hash exactly when
`GET /download` finds a manifest for it, with the data of that manifest (`listFiles_found`), and
the listed files download as listed while their chunks are held (`listFiles_downloads`).
-/

namespace DistriStore

open Lib

/-! ## Model -/

/-- JSON has `null` for `None`. -/
def orNil : Option Value → Value
  | some v => v
  | none => .nil

/-- The entry for a manifest in the database. -/
def localEntry (d : ManifestDict) : Value :=
  .dict [(.str "file_hash", orNil (d.fileHash.map .str)),
    (.str "filename", orNil (d.originalFilename.map .str)),
    (.str "size", orNil (d.originalSize.map .int)),
    (.str "chunks", .int (d.chunks.getD []).length),
    (.str "merkle_root", .str (d.merkleRoot.getD "")),
    (.str "source", .str "local")]

/-- The keys of `seen_hashes` after the own files. -/
def localKey (d : ManifestDict) : Key :=
  match d.fileHash with
  | some fh => .str fh
  | none => .none

/-- `manifests` and `seen_hashes`. -/
structure FileList where
  files : List Value
  seen : List Key

/-- The loop over the files of one peer. -/
def addPeerFiles (source : String) : List Value → FileList → FileList
  | [], list => list
  | pf :: rest, list =>
    match pf.getD "file_hash" .nil with
    | .error _ => list
    | .ok fh =>
      if !fh.truthy then addPeerFiles source rest list
      else
        match fh.key? with
        -- the set cannot look it up
        | none => list
        | some k =>
          if k ∈ list.seen then addPeerFiles source rest list
          else addPeerFiles source rest
            { files := list.files ++ [pf.setField "source" (.str source)], seen := k :: list.seen }

/-- `resp.json().get("files", [])`, as far as it can be gone through: a loop over anything but a
list of entries raises at once, or has nothing to do. -/
def peerFiles (reply : Reply Value) : List Value :=
  match reply.accepted with
  | none => []
  | some body =>
    match body.getD "files" (.array []) with
    | .ok (.array items) => items
    | _ => []

/-- The loop over the alive peers, with the name of each and what it answers. -/
def addPeers (peers : List (String × Reply Value)) (list : FileList) : FileList :=
  peers.foldl (fun list p => addPeerFiles ("peer:" ++ p.1) (peerFiles p.2) list) list

/-- The entries that `list_files` returns.  `local_only` asks no peers. -/
def listedFiles (store : LocalStore) (peers : List (String × Reply Value)) : List Value :=
  (addPeers peers
    { files := store.db.getAllManifestsSync.map localEntry
      seen := store.db.getAllManifestsSync.map localKey }).files

/-- The response. -/
def listFiles (store : LocalStore) (peers : List (String × Reply Value)) : Value :=
  .dict [(.str "files", .array (listedFiles store peers))]

/-! ## What comes of the answers -/

/-- The key that the file of an entry is known under. -/
def Value.hashKey (entry : Value) : Option Key :=
  (entry.getD "file_hash" .nil).toOption.bind Value.key?

/-- The entries of a peer that the loop comes to and that name a file, with their keys. -/
def offered : List Value → List (Key × Value)
  | [] => []
  | pf :: rest =>
    match pf.getD "file_hash" .nil with
    | .error _ => []
    | .ok fh =>
      if !fh.truthy then offered rest
      else
        match fh.key? with
        | none => []
        | some k => (k, pf) :: offered rest

/-- All offers of the peers, with their sources. -/
def offers (peers : List (String × Reply Value)) : List (Key × Value) :=
  peers.flatMap fun p => (offered (peerFiles p.2)).map fun e =>
    (e.1, e.2.setField "source" (.str ("peer:" ++ p.1)))

section Answers

variable {source name name' : String} {entry v : Value} {k : Key} {list : FileList}

lemma getD_setField_ne (hne : name' ≠ name) (default : Value) :
    (entry.setField name v).getD name' default = entry.getD name' default := by
  cases entry with
  | dict fields =>
    have hfind : (fun e : Value × Value => e.1.isStr name') (.str name, v) = false := by
      simpa [Value.isStr] using hne.symm
    simp only [Value.setField, Value.getD, List.reverse_append, List.reverse_singleton,
      List.singleton_append, List.find?_cons, hfind]
  | _ => rfl

lemma getD_setField_self (fields : List (Value × Value)) (default : Value) :
    ((Value.dict fields).setField name v).getD name default = .ok v := by
  simp [Value.setField, Value.getD, Value.isStr]

lemma hashKey_setField_source : (entry.setField "source" v).hashKey = entry.hashKey := by
  rw [Value.hashKey, Value.hashKey, getD_setField_ne (by decide)]

lemma hashKey_of_mem_offered {files : List Value} (h : (k, entry) ∈ offered files) :
    entry.hashKey = some k := by
  induction files with
  | nil => cases h
  | cons pf rest ih =>
    rw [offered] at h
    split at h
    · cases h
    · next fh hfh =>
      split at h
      · exact ih h
      · split at h
        · cases h
        · next k' hk' =>
          rcases List.mem_cons.1 h with heq | h
          · cases heq
            rw [Value.hashKey, hfh]
            exact hk'
          · exact ih h

lemma hashKey_of_mem_offers {peers : List (String × Reply Value)} (h : (k, entry) ∈ offers peers) :
    entry.hashKey = some k := by
  obtain ⟨p, -, hp⟩ := List.mem_flatMap.1 h
  obtain ⟨e, he, heq⟩ := List.mem_map.1 hp
  cases heq
  rw [hashKey_setField_source]
  exact hashKey_of_mem_offered he

/-- The files of one peer, with whatever comes after them. -/
lemma files_addPeerFiles (files : List Value) (rest : List (Key × Value)) (list : FileList) :
    list.files ++ (firstBy Prod.fst list.seen ((offered files).map (fun e =>
        (e.1, e.2.setField "source" (.str source))) ++ rest)).map Prod.snd =
      (addPeerFiles source files list).files ++
        (firstBy Prod.fst (addPeerFiles source files list).seen rest).map Prod.snd := by
  induction files generalizing list with
  | nil => rfl
  | cons pf files ih =>
    rw [offered, addPeerFiles]
    split
    · rfl
    · next fh hfh =>
      split
      · exact ih list
      · split
        · rfl
        · next k hk =>
          rw [List.map_cons, List.cons_append]
          split
          · next hmem =>
            rw [firstBy_cons_of_mem hmem]
            exact ih list
          · next hmem =>
            rw [firstBy_cons_of_not_mem hmem, ← ih, List.map_cons, List.append_assoc]
            rfl

lemma files_addPeers (peers : List (String × Reply Value)) (list : FileList) :
    (addPeers peers list).files =
      list.files ++ (firstBy Prod.fst list.seen (offers peers)).map Prod.snd := by
  induction peers generalizing list with
  | nil => exact (List.append_nil _).symm
  | cons p peers ih =>
    rw [offers, List.flatMap_cons, files_addPeerFiles]
    exact ih _

end Answers

/-! ## The list for any answers -/

/-- What the database has under a key. -/
def localManifest (store : LocalStore) : Key → Option ManifestDict
  | .str h => store.loadManifest h
  | _ => none

section List

variable {store : LocalStore} {peers : List (String × Reply Value)} {k : Key}

lemma hashKey_localEntry (d : ManifestDict) : (localEntry d).hashKey = some (localKey d) := by
  rw [localKey, Value.hashKey, localEntry]
  cases d.fileHash <;> rfl

lemma localKey_dictOf (h : String) (row : ManifestRow) :
    localKey (NodeDatabase.dictOf h row) = .str h := rfl

/-- The own file with this key is listed once. -/
lemma filter_localEntries (store : LocalStore) (k : Key) :
    (store.db.getAllManifestsSync.map localEntry).filter (fun e => e.hashKey = some k) =
      (localManifest store k).toList.map localEntry := by
  have hkeys : (store.db.getAllManifestsSync.map localEntry).filter (fun e => e.hashKey = some k) =
      (store.db.manifests.entries.filter (fun e => Key.str e.1 = k)).map fun e =>
        localEntry (NodeDatabase.dictOf e.1 e.2) := by
    rw [NodeDatabase.getAllManifestsSync, List.map_map, List.filter_map]
    refine congrArg (List.map _) (List.filter_congr fun e _ => ?_)
    simp only [Function.comp_apply, hashKey_localEntry, localKey_dictOf, Option.some.injEq]
  rw [hkeys]
  cases k with
  | str h =>
    simp only [Key.str.injEq]
    rw [Dict.filter_entries_eq, localManifest, LocalStore.loadManifest, NodeDatabase.getManifestSync]
    cases store.db.manifests.get? h <;> rfl
  | _ => simp [localManifest]

lemma mem_localKeys : k ∈ store.db.getAllManifestsSync.map localKey ↔
    (localManifest store k).isSome = true := by
  rw [NodeDatabase.getAllManifestsSync, List.map_map, List.mem_map]
  constructor
  · rintro ⟨e, he, rfl⟩
    have hget : store.db.manifests.get? e.1 = some e.2 := Dict.get?_of_mem_entries he
    rw [Function.comp_apply, localKey_dictOf, localManifest, LocalStore.loadManifest,
      NodeDatabase.getManifestSync, hget]
    rfl
  · intro h
    cases k with
    | str name =>
      rw [localManifest, LocalStore.loadManifest, NodeDatabase.getManifestSync,
        Option.isSome_map] at h
      obtain ⟨row, hrow⟩ := Option.isSome_iff_exists.1 h
      exact ⟨(name, row), Dict.mem_entries_of_get? hrow, rfl⟩
    | _ => cases h

/-- The offers that the list takes, by their keys. -/
lemma filter_firstBy_offers (peers : List (String × Reply Value)) (seen : List Key) (k : Key) :
    ((firstBy Prod.fst seen (offers peers)).map Prod.snd).filter (fun e => e.hashKey = some k) =
      if k ∈ seen then [] else
        (((offers peers).find? fun e => e.1 = k).map Prod.snd).toList := by
  have hfilter : ((firstBy Prod.fst seen (offers peers)).map Prod.snd).filter
      (fun e => e.hashKey = some k) =
        ((firstBy Prod.fst seen (offers peers)).filter fun e => e.1 = k).map Prod.snd := by
    rw [List.filter_map]
    refine congrArg (List.map _) (List.filter_congr fun e he => ?_)
    have hkey : e.2.hashKey = some e.1 := hashKey_of_mem_offers (firstBy_subset _ _ _ he)
    simp only [Function.comp_apply, hkey, Option.some.injEq]
  rw [hfilter, filter_firstBy]
  split
  · rfl
  · cases (offers peers).find? fun e => e.1 = k <;> rfl

lemma listedFiles_eq (store : LocalStore) (peers : List (String × Reply Value)) :
    listedFiles store peers = store.db.getAllManifestsSync.map localEntry ++
      (firstBy Prod.fst (store.db.getAllManifestsSync.map localKey) (offers peers)).map Prod.snd :=
  files_addPeers ..

lemma exists_hashKey {entry : Value} (h : entry ∈ listedFiles store peers) :
    ∃ k, entry.hashKey = some k := by
  rw [listedFiles_eq] at h
  rcases List.mem_append.1 h with h | h
  · obtain ⟨d, -, rfl⟩ := List.mem_map.1 h
    exact ⟨_, hashKey_localEntry d⟩
  · obtain ⟨e, he, rfl⟩ := List.mem_map.1 h
    exact ⟨e.1, hashKey_of_mem_offers (firstBy_subset _ _ _ he)⟩

lemma filter_listedFiles (store : LocalStore) (peers : List (String × Reply Value)) (k : Key) :
    (listedFiles store peers).filter (fun e => e.hashKey = some k) =
      match localManifest store k with
      | some d => [localEntry d]
      | none => (((offers peers).find? fun e => e.1 = k).map Prod.snd).toList := by
  rw [listedFiles_eq, List.filter_append, filter_localEntries, filter_firstBy_offers]
  cases hlocal : localManifest store k with
  | some d =>
    rw [if_pos (mem_localKeys.2 (by rw [hlocal]; rfl))]
    rfl
  | none =>
    rw [if_neg fun hmem => by rw [mem_localKeys, hlocal] at hmem; cases hmem]
    rfl

/-- **Whatever the peers answer**, a list begins with the files of the node, each as it is in the
database; every entry has a key, and under a key there is the own file, or else the first offer that
the peers have made for it, and nothing more. -/
theorem listFiles_first (store : LocalStore) (peers : List (String × Reply Value)) :
    store.db.getAllManifestsSync.map localEntry <+: listedFiles store peers ∧
    (∀ entry ∈ listedFiles store peers, ∃ k, entry.hashKey = some k) ∧
    ∀ k, (listedFiles store peers).filter (fun e => e.hashKey = some k) =
      match localManifest store k with
      | some d => [localEntry d]
      | none => (((offers peers).find? fun e => e.1 = k).map Prod.snd).toList :=
  ⟨listedFiles_eq store peers ▸ List.prefix_append .., fun _ => exists_hashKey,
    filter_listedFiles store peers⟩

end List

/-! ## Honest peers -/

/-- What a reader of the list sees in an entry. -/
structure Shows (entry : Value) (source : String) (d : ManifestDict) : Prop where
  hash : entry.getD "file_hash" .nil = .ok (orNil (d.fileHash.map .str))
  filename : entry.getD "filename" .nil = .ok (orNil (d.originalFilename.map .str))
  size : entry.getD "size" .nil = .ok (orNil (d.originalSize.map .int))
  chunks : entry.getD "chunks" .nil = .ok (.int (d.chunks.getD []).length)
  root : entry.getD "merkle_root" .nil = .ok (.str (d.merkleRoot.getD ""))
  source : entry.getD "source" .nil = .ok (.str source)

lemma shows_localEntry (d : ManifestDict) : Shows (localEntry d) "local" d :=
  ⟨rfl, rfl, rfl, rfl, rfl, rfl⟩

lemma shows_peerEntry (source : String) (d : ManifestDict) :
    Shows ((localEntry d).setField "source" (.str source)) source d := by
  obtain ⟨hhash, hfilename, hsize, hchunks, hroot, -⟩ := shows_localEntry d
  constructor
  · rw [getD_setField_ne (by decide), hhash]
  · rw [getD_setField_ne (by decide), hfilename]
  · rw [getD_setField_ne (by decide), hsize]
  · rw [getD_setField_ne (by decide), hchunks]
  · rw [getD_setField_ne (by decide), hroot]
  · exact getD_setField_self _ _

namespace Swarm

variable {ν : Type}

/-- What alive peers answer to `GET /files?local_only=true`. -/
def fileReplies (s : Swarm ν) (name : ν → String) (alive : List ν) : List (String × Reply Value) :=
  alive.map fun m => (name m, .response 200 (some (listFiles (s.nodes m).store [])))

/-- `GET /files` on node `n`. -/
def listed (s : Swarm ν) (name : ν → String) (n : ν) (alive : List ν) : List Value :=
  listedFiles (s.nodes n).store (s.fileReplies name alive)

end Swarm

section Honest

variable {ν : Type} {P : Packages} {s : Swarm ν} {name : ν → String} {store : LocalStore}

/-- The database has no file under the empty name, which the loop would skip. -/
def Named (store : LocalStore) : Prop := ∀ h d, store.loadManifest h = some d → h ≠ ""

lemma Swarm.Honest.named (hs : s.Honest P) (m : ν) : Named (s.nodes m).store := by
  intro h d hd hempty
  obtain ⟨u, -, hu⟩ := (hs m).manifests h d hd
  have hlength : h.length = 64 := by rw [← hu.1, length_sha256Hash]
  rw [hempty] at hlength
  cases hlength

lemma offered_localEntries {ds : List ManifestDict}
    (hds : ∀ d ∈ ds, ∃ h, h ≠ "" ∧ d.fileHash = some h) :
    offered (ds.map localEntry) = ds.map fun d => (localKey d, localEntry d) := by
  induction ds with
  | nil => rfl
  | cons d ds ih =>
    obtain ⟨h, hne, hd⟩ := hds d (List.mem_cons_self ..)
    have hhash : (localEntry d).getD "file_hash" .nil = .ok (.str h) := by
      rw [(shows_localEntry d).hash, hd]
      rfl
    have htruthy : (Value.str h).truthy = true := by simpa [Value.truthy] using hne
    have hkey : localKey d = .str h := by rw [localKey, hd]
    rw [List.map_cons, offered, hhash, List.map_cons, hkey,
      ih fun d' hd' => hds d' (List.mem_cons_of_mem _ hd')]
    simp only [htruthy, Value.key?]
    rfl

/-- What an honest peer offers. -/
lemma offered_honest (hnamed : Named store) :
    offered (peerFiles (.response 200 (some (listFiles store [])))) =
      store.db.getAllManifestsSync.map fun d => (localKey d, localEntry d) := by
  have hfiles : peerFiles (.response 200 (some (listFiles store []))) =
      store.db.getAllManifestsSync.map localEntry := rfl
  rw [hfiles]
  refine offered_localEntries fun d hd => ?_
  obtain ⟨e, he, rfl⟩ := List.mem_map.1 hd
  refine ⟨e.1, hnamed e.1 (NodeDatabase.dictOf e.1 e.2) ?_, rfl⟩
  rw [LocalStore.loadManifest, NodeDatabase.getManifestSync, Dict.get?_of_mem_entries he]
  rfl

lemma find_localEntries (store : LocalStore) (h : String) :
    (store.db.getAllManifestsSync.map fun d => (localKey d, localEntry d)).find?
        (fun e => e.1 = .str h) =
      (store.loadManifest h).map fun d => (.str h, localEntry d) := by
  have hfind : (store.db.manifests.entries.find? fun e => e.1 = h) =
      (store.db.manifests.get? h).map fun row => (h, row) := by
    rw [← List.head?_filter, Dict.filter_entries_eq]
    cases store.db.manifests.get? h <;> rfl
  rw [NodeDatabase.getAllManifestsSync, List.map_map, List.find?_map]
  simp only [Function.comp_def, localKey_dictOf, Key.str.injEq]
  rw [hfind, LocalStore.loadManifest, NodeDatabase.getManifestSync]
  cases store.db.manifests.get? h <;> rfl

lemma findSome?_map_with {α β γ : Type} (f : α → Option β) (g : α → β → γ) (l : List α) :
    match l.findSome? f with
    | none => (l.findSome? fun a => (f a).map (g a)) = none
    | some b => ∃ a ∈ l, f a = some b ∧ (l.findSome? fun a => (f a).map (g a)) = some (g a b) := by
  induction l with
  | nil => rfl
  | cons a l ih =>
    rw [List.findSome?_cons, List.findSome?_cons]
    cases hfa : f a with
    | some b => exact ⟨a, List.mem_cons_self .., hfa, rfl⟩
    | none =>
      rw [Option.map_none]
      cases hl : l.findSome? f with
      | none =>
        rw [hl] at ih
        exact ih
      | some b =>
        rw [hl] at ih
        obtain ⟨a', ha', hfa', hfind⟩ := ih
        exact ⟨a', List.mem_cons_of_mem _ ha', hfa', hfind⟩

/-- The first offer for a file comes from the first peer that has it. -/
lemma find_offers (hs : s.Honest P) (alive : List ν) (h : String) :
    (offers (s.fileReplies name alive)).find? (fun e => e.1 = .str h) =
      alive.findSome? fun m => ((s.nodes m).store.loadManifest h).map fun d =>
        (.str h, (localEntry d).setField "source" (.str ("peer:" ++ name m))) := by
  induction alive with
  | nil => rfl
  | cons m alive ih =>
    have hfirst : ((offered (peerFiles (.response 200 (some (listFiles (s.nodes m).store []))))).map
        fun e => (e.1, e.2.setField "source" (.str ("peer:" ++ name m)))).find?
          (fun e => e.1 = .str h) =
        ((s.nodes m).store.loadManifest h).map fun d =>
          (.str h, (localEntry d).setField "source" (.str ("peer:" ++ name m))) := by
      rw [offered_honest (hs.named m), List.find?_map]
      simp only [Function.comp_def]
      rw [find_localEntries, Option.map_map]
      rfl
    rw [Swarm.fileReplies, List.map_cons, offers, List.flatMap_cons, List.find?_append, hfirst,
      List.findSome?_cons]
    cases (s.nodes m).store.loadManifest h with
    | some d => rfl
    | none => exact ih

/-- The entry for a manifest in the database of the node, or of the first peer that has one. -/
lemma filter_listed_of_some (hs : s.Honest P) (name : ν → String) {n : ν} {alive : List ν}
    {h : String} {d : ManifestDict} (hfound : s.foundManifest n h alive = some d) :
    ∃ entry source, (s.listed name n alive).filter (fun e => e.hashKey = some (.str h)) = [entry] ∧
      Shows entry source d ∧
      (if (s.nodes n).store.loadManifest h = some d then source = "local"
      else ∃ m ∈ alive, source = "peer:" ++ name m ∧
        (s.nodes m).store.loadManifest h = some d) := by
  have hlist := filter_listedFiles (s.nodes n).store (s.fileReplies name alive) (.str h)
  rw [localManifest, find_offers hs alive h] at hlist
  rw [hs.foundManifest_eq] at hfound
  cases hlocal : (s.nodes n).store.loadManifest h with
  | some d' =>
    rw [hlocal] at hlist hfound
    obtain rfl : d' = d := Option.some.inj hfound
    refine ⟨localEntry d', "local", hlist, shows_localEntry d', ?_⟩
    rw [if_pos rfl]
  | none =>
    rw [hlocal] at hlist hfound
    rw [Option.none_or] at hfound
    have hfind := findSome?_map_with (fun m => (s.nodes m).store.loadManifest h) (fun m d =>
      (Key.str h, (localEntry d).setField "source" (.str ("peer:" ++ name m)))) alive
    rw [hfound] at hfind
    obtain ⟨m, hm, hd, hentry⟩ := hfind
    dsimp only at hentry hlist
    rw [hentry] at hlist
    refine ⟨_, _, hlist, shows_peerEntry _ d, ?_⟩
    rw [if_neg (by rintro h; cases h)]
    exact ⟨m, hm, rfl, hd⟩

lemma filter_listed_of_none (hs : s.Honest P) (name : ν → String) {n : ν} {alive : List ν}
    {h : String} (hfound : s.foundManifest n h alive = none) :
    (s.listed name n alive).filter (fun e => e.hashKey = some (.str h)) = [] := by
  have hlist := filter_listedFiles (s.nodes n).store (s.fileReplies name alive) (.str h)
  rw [localManifest, find_offers hs alive h] at hlist
  rw [hs.foundManifest_eq, Option.or_eq_none_iff] at hfound
  have hfind := findSome?_map_with (fun m => (s.nodes m).store.loadManifest h) (fun m d =>
    (Key.str h, (localEntry d).setField "source" (.str ("peer:" ++ name m)))) alive
  rw [hfound.2] at hfind
  rw [hfound.1] at hlist
  dsimp only at hfind hlist
  rwa [hfind] at hlist

lemma key_of_mem_offers (hs : s.Honest P) {alive : List ν} {k : Key} {entry : Value}
    (h : (k, entry) ∈ offers (s.fileReplies name alive)) : ∃ fileHash, k = .str fileHash := by
  obtain ⟨p, hp, he⟩ := List.mem_flatMap.1 h
  obtain ⟨m, -, rfl⟩ := List.mem_map.1 hp
  obtain ⟨e, he, heq⟩ := List.mem_map.1 he
  rw [offered_honest (hs.named m)] at he
  obtain ⟨d, hd, rfl⟩ := List.mem_map.1 he
  obtain ⟨row, -, rfl⟩ := List.mem_map.1 hd
  cases heq
  exact ⟨row.1, rfl⟩

/-- A file of one byte has been uploaded at node `false`. -/
def browsed : Swarm Bool :=
  ((swarm rawPackages fun n : Bool => toString n).init).step rawPackages
    (.upload false oneByteUpload ∅ fun _ => ⟨∅, fun _ => .ok false⟩)

def browsedManifest : ManifestDict :=
  NodeDatabase.dictOf (sha256Hash [0x61])
    (NodeDatabase.rowOf (oneByteUpload.manifest rawPackages).toDict)

lemma reachable_browsed : (swarm rawPackages fun n : Bool => toString n).Reachable browsed :=
  Machine.Reachable.init.step rfl

lemma foundManifest_browsed :
    browsed.foundManifest true (sha256Hash [0x61]) [false] = some browsedManifest := by
  have hname : sha256Hash [0x61] = sha256Hash oneByteUpload.file.content := rfl
  have hload := loadManifest_uploadAt rawPackages oneByteUpload ∅ (fun _ => ⟨∅, fun _ => .ok false⟩)
    ((swarm rawPackages fun n : Bool => toString n).init.nodes false) (sha256Hash [0x61])
  rw [if_pos hname] at hload
  have hother : (browsed.nodes true).store.loadManifest (sha256Hash [0x61]) = none := rfl
  have hfalse : (browsed.nodes false).store.loadManifest (sha256Hash [0x61]) =
      some browsedManifest := hload
  rw [(honest_of_reachable reachable_browsed).foundManifest_eq, hother, List.findSome?_cons,
    hfalse]
  rfl

lemma collisionFree_browsed : CollisionFree sha256 (browsed.Hashed rawPackages) :=
  collisionFree_oneByteUpload fun _ hu => List.mem_singleton.1 hu

/-- **What is listed is what is found.**  In every reachable state the list of a node has exactly
the files for which a download at this node would find a manifest among the same peers, each once,
and it shows the data of this manifest; a file of the node itself is listed as local, and any other
under the name of a peer that has the manifest. -/
theorem listFiles_found [DecidableEq ν] {ident : ν → String} (hs : (swarm P ident).Reachable s)
    (name : ν → String) (n : ν) (alive : List ν) (h : String) :
    match s.foundManifest n h alive with
    | none => (s.listed name n alive).filter (fun e => e.hashKey = some (.str h)) = []
    | some d => ∃ entry source,
        (s.listed name n alive).filter (fun e => e.hashKey = some (.str h)) = [entry] ∧
        Shows entry source d ∧
        (if (s.nodes n).store.loadManifest h = some d then source = "local"
        else ∃ m ∈ alive, source = "peer:" ++ name m ∧
          (s.nodes m).store.loadManifest h = some d) := by
  have hhonest := honest_of_reachable hs
  cases hfound : s.foundManifest n h alive with
  | none => exact filter_listed_of_none hhonest name hfound
  | some d => exact filter_listed_of_some hhonest name hfound

theorem listFiles_found_browsed : ∃ entry source,
    (browsed.listed toString true [false]).filter
      (fun e => e.hashKey = some (.str (sha256Hash [0x61]))) = [entry] ∧
    Shows entry source browsedManifest ∧
    (if (browsed.nodes true).store.loadManifest (sha256Hash [0x61]) = some browsedManifest then
      source = "local"
    else ∃ m ∈ [false], source = "peer:" ++ toString m ∧
      (browsed.nodes m).store.loadManifest (sha256Hash [0x61]) = some browsedManifest) := by
  have h := listFiles_found reachable_browsed toString true [false] (sha256Hash [0x61])
  rw [foundManifest_browsed] at h
  exact h

/-- **What is listed can be downloaded.**  In every reachable state an entry of a list stands for an
upload and shows its name, its size and the number of its chunks; and while its chunks are held by
the node or by its alive peers, a download with its password delivers the file under this name. -/
theorem listFiles_downloads [DecidableEq ν] {ident : ν → String} (hP : P.Lawful)
    (hs : (swarm P ident).Reachable s) (hcf : CollisionFree sha256 (s.Hashed P))
    {name : ν → String} {n : ν} {alive : List ν} {entry : Value}
    (hentry : entry ∈ s.listed name n alive) :
    ∃ h d, entry.hashKey = some (.str h) ∧ s.foundManifest n h alive = some d ∧
      ∃ u ∈ s.uploads, u.Produced P h d ∧
        entry.getD "filename" .nil = .ok (.str u.file.name) ∧
        entry.getD "size" .nil = .ok (.int u.file.content.length) ∧
        entry.getD "chunks" .nil = .ok (.int (u.pairs P).length) ∧
        ((∀ c ∈ d.chunkHashes, (s.nodes n).store.hasChunk c = true ∨
          ∃ m ∈ alive, (s.nodes m).store.hasChunk c = true) →
          ∀ password, (u.password ≠ "" → password = u.password) →
            (s.download P n h password alive).1.result =
              .ok { content := u.file.content, filename := u.file.name }) := by
  have hhonest := honest_of_reachable hs
  obtain ⟨k, hk⟩ := exists_hashKey hentry
  have hmem : entry ∈ (s.listed name n alive).filter fun e => e.hashKey = some k :=
    List.mem_filter.2 ⟨hentry, by simpa using hk⟩
  obtain ⟨h, rfl⟩ : ∃ h, k = .str h := by
    rw [Swarm.listed, filter_listedFiles] at hmem
    cases k with
    | str h => exact ⟨h, rfl⟩
    | _ =>
      obtain ⟨e, he, rfl⟩ := Option.map_eq_some_iff.1 (Option.mem_toList.1 hmem)
      obtain ⟨h, hstr⟩ := key_of_mem_offers hhonest (List.mem_of_find?_eq_some he)
      have hkey := List.find?_some he
      rw [decide_eq_true_eq, hstr] at hkey
      cases hkey
  cases hfound : s.foundManifest n h alive with
  | none =>
    rw [filter_listed_of_none hhonest name hfound] at hmem
    cases hmem
  | some d =>
    obtain ⟨entry', source, hfilter, hshows, -⟩ := filter_listed_of_some hhonest name hfound
    rw [hfilter] at hmem
    obtain rfl := List.mem_singleton.1 hmem
    obtain ⟨m, hm⟩ := loadManifest_of_found hfound
    obtain ⟨u, hu, hprod⟩ := (hhonest m).manifests h d hm
    refine ⟨h, d, hk, hfound, u, hu, hprod, ?_, ?_, ?_, fun havail password hpw => ?_⟩
    · rw [hshows.filename, hprod.2]
      rfl
    · rw [hshows.size, hprod.2]
      rfl
    · have hcount : (d.chunks.getD []).length = (u.pairs P).length := by
        rw [hprod.2]
        exact (List.length_map _).trans (List.length_map _)
      rw [hshows.chunks, hcount]
    · exact (hhonest.download_eq hP hcf hfound havail hu hprod fun _ => Upload.unlocks hpw).1

theorem listFiles_downloads_browsed : ∃ entry ∈ browsed.listed toString true [false],
    entry.getD "filename" .nil = .ok (.str "a.txt") ∧ entry.getD "size" .nil = .ok (.int 1) := by
  obtain ⟨entry, -, hfilter, -⟩ := filter_listed_of_some (honest_of_reachable reachable_browsed)
    toString foundManifest_browsed
  have hentry : entry ∈ browsed.listed toString true [false] :=
    List.mem_of_mem_filter (hfilter ▸ List.mem_singleton_self entry)
  obtain ⟨h, d, -, -, u, hu, -, hname, hsize, -⟩ :=
    listFiles_downloads rawPackages_lawful reachable_browsed collisionFree_browsed hentry
  obtain rfl : u = oneByteUpload := List.mem_singleton.1 hu
  exact ⟨entry, hentry, hname, hsize⟩

end Honest

end DistriStore
