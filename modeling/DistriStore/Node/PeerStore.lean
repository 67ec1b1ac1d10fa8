import DistriStore.Lib.Machine
import DistriStore.Lib.Table
import DistriStore.Node.Peers
import DistriStore.Storage.Columns

/-!
# Peers in memory and in the database

`node/state.py` writes a peer through to the `peers` table of `storage/db.py` whenever `add_peer`
registers or updates it, with `_peers_lock` held until the row is written.  `handle_pong` of
`advanced/heartbeat.py` changes a record in place between its `get_peer` and its `add_peer`, and a
peer can be removed, or removed and registered anew, in the meantime.

The calls are a machine: a call waits for the lock, and the state says what the holder of the lock
is writing.  Records are objects that calls hold on to while the registry moves on.

A record has the values that the sender of a HELLO or a handshake put into it, whatever their types,
and a column gives back another value for some of them (`SqlNumbers.keeps_iff`): the port `"9000"`
is restored as the number 9000 (`restart_changes_port`).  As long as the columns keep what the
messages say, every peer in memory has a row with its fields when no call is in progress, so that
`load_peers_from_db` of a later process restores it (`restart_loses_no_peer`).
-/

namespace DistriStore

open Lib

/-! ## Records -/

namespace PeerRecord

/-- Check if the peer has been seen within the timeout window. -/
def isAlive (peer : PeerRecord) (timeout now : ℚ) : Bool := decide (now - peer.lastSeen < timeout)

/-- What `handle_pong` writes into a record. -/
def ponged (peer : PeerRecord) (latency : ℚ) (uptime freeSpace : Value) (now : ℚ) : PeerRecord :=
  { peer with latency := latency, uptime := uptime, freeSpace := freeSpace, lastSeen := now }

/-- The records have the same id and the same stored fields. -/
structure Same (a b : PeerRecord) : Prop where
  nodeId : a.nodeId = b.nodeId
  ip : a.ip = b.ip
  tcpPort : a.tcpPort.Same b.tcpPort
  apiPort : a.apiPort.Same b.apiPort
  name : a.name.Same b.name
  healthScore : a.healthScore.Same b.healthScore
  lastSeen : a.lastSeen = b.lastSeen

end PeerRecord

/-- `key[:12]` does not raise. -/
def Key.hasSlices : Key → Bool
  | .str _ => true
  | .bytes _ => true
  | .ext _ _ => true
  | _ => false

/-- The ids that a column `node_id` takes, and gives back as they are. -/
def Key.isStored : Key → Bool
  | .str _ => true
  | .bytes _ => true
  | _ => false

/-- A row of the `peers` table, less its key. -/
structure PeerRow (sql : SqlNumbers) where
  ip : String
  tcpPort : sql.Stored .integer
  apiPort : sql.Stored .integer
  name : sql.Stored .text
  healthScore : sql.Stored .real
  lastSeen : ℚ

namespace PeerRow

variable {sql : SqlNumbers}

variable (sql) in
/-- The row for the arguments of `upsert_peer`, if they can all be bound. -/
def of? (peer : PeerRecord) : Option (PeerRow sql) := do
  let tcpPort ← sql.write .integer peer.tcpPort
  let apiPort ← sql.write .integer peer.apiPort
  let name ← sql.write .text peer.name
  let healthScore ← sql.write .real peer.healthScore
  return { ip := peer.ip, tcpPort, apiPort, name, healthScore, lastSeen := peer.lastSeen }

/-- The `PeerInfo` that `load_peers_from_db` makes of a row. -/
def load (nodeId : Key) (row : PeerRow sql) : PeerRecord where
  nodeId := nodeId
  ip := row.ip
  tcpPort := row.tcpPort.value
  name := row.name.value
  apiPort := row.apiPort.value
  healthScore := row.healthScore.value
  lastSeen := row.lastSeen

@[simp] lemma of?_load (nodeId : Key) (row : PeerRow sql) :
    of? sql (row.load nodeId) = some row := by
  simp [of?, load]

end PeerRow

/-- What the columns of the table keep of a record. -/
structure PeerRecord.Kept (sql : SqlNumbers) (peer : PeerRecord) : Prop where
  nodeId : peer.nodeId.isStored = true
  tcpPort : sql.Keeps .integer peer.tcpPort
  apiPort : sql.Keeps .integer peer.apiPort
  name : sql.Keeps .text peer.name
  healthScore : sql.Keeps .real peer.healthScore

namespace PeerRecord.Kept

variable {sql : SqlNumbers} {peer existing : PeerRecord}

/-- The row of such a record gives it back. -/
lemma exists_row (h : peer.Kept sql) :
    ∃ row, PeerRow.of? sql peer = some row ∧ peer.Same (row.load peer.nodeId) := by
  obtain ⟨tcpPort, htcp, hsameTcp⟩ := SqlNumbers.exists_write_of_keeps h.tcpPort
  obtain ⟨apiPort, hapi, hsameApi⟩ := SqlNumbers.exists_write_of_keeps h.apiPort
  obtain ⟨name, hname, hsameName⟩ := SqlNumbers.exists_write_of_keeps h.name
  obtain ⟨healthScore, hhealth, hsameHealth⟩ := SqlNumbers.exists_write_of_keeps h.healthScore
  refine ⟨⟨peer.ip, tcpPort, apiPort, name, healthScore, peer.lastSeen⟩, ?_, ?_⟩
  · simp [PeerRow.of?, htcp, hapi, hname, hhealth]
  · exact ⟨rfl, rfl, hsameTcp, hsameApi, hsameName, hsameHealth, rfl⟩

lemma update (h : existing.Kept sql) (hpeer : peer.Kept sql) (now : ℚ) :
    (existing.update peer now).Kept sql where
  nodeId := h.nodeId
  tcpPort := hpeer.tcpPort
  apiPort := by
    simp only [PeerRecord.update]
    split
    · exact hpeer.apiPort
    · exact h.apiPort
  name := by
    simp only [PeerRecord.update]
    split
    · exact hpeer.name
    · exact h.name
  healthScore := by
    simp only [PeerRecord.update]
    split
    · exact hpeer.healthScore
    · exact h.healthScore

lemma seen (h : peer.Kept sql) (now : ℚ) : ({ peer with lastSeen := now } : PeerRecord).Kept sql :=
  ⟨h.nodeId, h.tcpPort, h.apiPort, h.name, h.healthScore⟩

lemma ponged (h : peer.Kept sql) (latency : ℚ) (uptime freeSpace : Value) (now : ℚ) :
    (peer.ponged latency uptime freeSpace now).Kept sql :=
  ⟨h.nodeId, h.tcpPort, h.apiPort, h.name, h.healthScore⟩

end PeerRecord.Kept

/-- The `peers` table. -/
structure PeersTable (sql : SqlNumbers) where
  rows : Dict Key (PeerRow sql)
  keys : ∀ k ∈ rows.keys, k.isStored = true

namespace PeersTable

variable {sql : SqlNumbers}

instance : EmptyCollection (PeersTable sql) := ⟨⟨∅, fun k hk => by simp at hk⟩⟩

/-- `_upsert_peer_sync`; `none` when it raises.  `INSERT OR REPLACE` deletes an older row with the
same key. -/
def upsertPeer (table : PeersTable sql) (peer : PeerRecord) : Option (PeersTable sql) :=
  if h : peer.nodeId.isStored = true then
    (PeerRow.of? sql peer).map fun row =>
      { rows := (table.rows.erase peer.nodeId).set peer.nodeId row
        keys := fun k hk => by
          rcases (Dict.mem_keys_set ..).1 hk with rfl | hk
          · exact h
          · exact table.keys k (Dict.mem_keys_of_mem_keys_erase hk) }
  else none

lemma get?_upsertPeer {table table' : PeersTable sql} {peer : PeerRecord}
    (h : table.upsertPeer peer = some table') (p : Key) :
    table'.rows.get? p =
      if p = peer.nodeId then PeerRow.of? sql peer else table.rows.get? p := by
  unfold upsertPeer at h
  split at h
  · obtain ⟨row, hrow, rfl⟩ := Option.map_eq_some_iff.1 h
    dsimp only
    rw [Dict.get?_set, Dict.get?_erase, hrow]
    split <;> rfl
  · cases h

lemma exists_upsertPeer {peer : PeerRecord} (table : PeersTable sql) (h : peer.Kept sql) :
    ∃ table', table.upsertPeer peer = some table' := by
  obtain ⟨row, hrow, -⟩ := h.exists_row
  unfold upsertPeer
  rw [dif_pos h.nodeId, hrow]
  exact ⟨_, rfl⟩

end PeersTable

namespace PeerStore

/-! ## Calls -/

/-- What a call waits for. -/
inductive Call where
  /-- `add_peer` with the object at this place waits for the lock. -/
  | addPeer (obj : ℕ)
  /-- `handle_pong` waits for the lock in `get_peer`. -/
  | getPeer (peer : Key) (latency : ℚ) (uptime freeSpace : Value)
  | removePeer (peer : Key)
  /-- The call is over, or holds the lock. -/
  | passed

structure State (sql : SqlNumbers) where
  /-- `time.time()`. -/
  now : ℚ := 0
  /-- All `PeerInfo` objects. -/
  objects : List PeerRecord := []
  /-- `NodeState._peers`. -/
  peers : Dict Key ℕ := ∅
  /-- The `peers` table. -/
  table : PeersTable sql := ∅
  calls : List Call := []
  /-- The arguments of the `upsert_peer` that the holder of the lock is waiting for. -/
  writing : Option PeerRecord := none

variable {sql : SqlNumbers}

/-- No call is in progress. -/
structure Quiet (s : State sql) : Prop where
  calls : ∀ call ∈ s.calls, call = .passed
  writing : s.writing = none

/-- `add_peer` with the object at `obj`, from the lock to its upsert. -/
def addPeer (s : State sql) (obj : ℕ) (peer : PeerRecord) : State sql :=
  match s.peers.get? peer.nodeId with
  | some i =>
    match s.objects[i]? with
    | none => s
    | some existing =>
      { s with
        objects := s.objects.set i (existing.update peer s.now)
        writing := some (existing.update peer s.now) }
  | none =>
    { s with
      objects := s.objects.set obj { peer with lastSeen := s.now }
      peers := s.peers.set peer.nodeId obj
      writing := some { peer with lastSeen := s.now } }

/-- `handle_pong` with the result of its `get_peer`, up to its `add_peer`. -/
def gotPeer (s : State sql) (n : ℕ) (peer : Key) (latency : ℚ) (uptime freeSpace : Value) :
    State sql :=
  match s.peers.get? peer with
  | none => { s with calls := s.calls.set n .passed }
  | some i =>
    { s with
      objects := s.objects.modify i fun o => o.ponged latency uptime freeSpace s.now
      calls := s.calls.set n (.addPeer i) }

inductive Label where
  /-- The clock of the system shows another time. -/
  | clock (t : ℚ)
  /-- A HELLO or a handshake: `add_peer` is called with a new object. -/
  | hello (peer : PeerRecord)
  /-- A PONG, with its `uptime` and `free_space`, for which a PING is recorded. -/
  | pong (peer : Key) (latency : ℚ) (uptime freeSpace : Value)
  | remove (peer : Key)
  /-- Call `n` gets the lock. -/
  | resume (n : ℕ)
  /-- The upsert is done or has raised, and the lock is released. -/
  | written

def exec (s : State sql) : Label → Option (State sql)
  | .clock t => some { s with now := t }
  | .hello peer =>
    -- the log line of each caller has a slice of the id
    if peer.nodeId.hasSlices then
      some { s with
        objects := s.objects ++ [peer], calls := s.calls ++ [.addPeer s.objects.length] }
    else none
  | .pong peer latency uptime freeSpace =>
    some { s with calls := s.calls ++ [.getPeer peer latency uptime freeSpace] }
  | .remove peer => some { s with calls := s.calls ++ [.removePeer peer] }
  | .resume n =>
    if s.writing.isSome then none
    else match s.calls[n]? with
      | some (.addPeer obj) =>
        (s.objects[obj]?).map fun peer => addPeer { s with calls := s.calls.set n .passed } obj peer
      | some (.getPeer peer latency uptime freeSpace) =>
        some (gotPeer s n peer latency uptime freeSpace)
      | some (.removePeer peer) =>
        some { s with peers := s.peers.erase peer, calls := s.calls.set n .passed }
      | _ => none
  | .written =>
    match s.writing with
    | none => none
    | some peer => some { s with table := (s.table.upsertPeer peer).getD s.table, writing := none }

/-- A new process on a database: `load_peers_from_db` makes a peer of every row but the node's
own. -/
def loadPeersFromDb (nodeId : String) (table : PeersTable sql) : State sql :=
  let loaded := table.rows.entries.filter fun e => e.1 ≠ .str nodeId
  { objects := loaded.map fun e => PeerRow.load e.1 e.2
    peers := (∅ : Dict Key ℕ).setAll (loaded.mapIdx fun i e => (e.1, i))
    table }

/-- The node `nodeId`, started on a database with this table. -/
def machine (nodeId : String) (table : PeersTable sql) : Machine (State sql) Label where
  init := loadPeersFromDb nodeId table
  exec := exec

/-! ## What the calls do -/

/-- What `add_peer` leaves: one object has changed, it is the one of its peer, and its row is about
to be written. -/
lemma addPeer_spec {s : State sql} {obj : ℕ} {peer : PeerRecord}
    (hkeyed : ∀ p i, s.peers.get? p = some i → ∃ o, s.objects[i]? = some o ∧ o.nodeId = p)
    (hobj : s.objects[obj]? = some peer) :
    ∃ j old new, s.objects[j]? = some old ∧ old.nodeId = peer.nodeId ∧
      new.nodeId = peer.nodeId ∧ (old.Kept sql → peer.Kept sql → new.Kept sql) ∧
      (addPeer s obj peer).objects = s.objects.set j new ∧
      (∀ p, (addPeer s obj peer).peers.get? p =
        if p = peer.nodeId then some j else s.peers.get? p) ∧
      (addPeer s obj peer).table = s.table ∧ (addPeer s obj peer).calls = s.calls ∧
      (addPeer s obj peer).writing = some new := by
  cases hget : s.peers.get? peer.nodeId with
  | some i =>
    obtain ⟨existing, hi, hid⟩ := hkeyed _ _ hget
    have heq : addPeer s obj peer = { s with
        objects := s.objects.set i (existing.update peer s.now)
        writing := some (existing.update peer s.now) } := by
      simp only [addPeer, hget, hi]
    refine ⟨i, existing, existing.update peer s.now, hi, hid, hid,
      fun hold hpeer => hold.update hpeer s.now, ?_⟩
    rw [heq]
    refine ⟨rfl, fun p => ?_, rfl, rfl, rfl⟩
    split
    · next hp => rw [hp, hget]
    · rfl
  | none =>
    have heq : addPeer s obj peer = { s with
        objects := s.objects.set obj { peer with lastSeen := s.now }
        peers := s.peers.set peer.nodeId obj
        writing := some { peer with lastSeen := s.now } } := by
      simp only [addPeer, hget]
    refine ⟨obj, peer, { peer with lastSeen := s.now }, hobj, rfl, rfl,
      fun _ hpeer => hpeer.seen s.now, ?_⟩
    rw [heq]
    exact ⟨rfl, fun p => Dict.get?_set .., rfl, rfl, rfl⟩

/-! ## The invariant -/

/-- The row that peer `p` has once the holder of the lock is done. -/
def finalRow (s : State sql) (p : Key) : Option (PeerRow sql) :=
  match s.writing with
  | none => s.table.rows.get? p
  | some peer => if p = peer.nodeId then PeerRow.of? sql peer else s.table.rows.get? p

/-- Some `add_peer` for `p` has not had the lock yet. -/
def Pending (s : State sql) (p : Key) : Prop :=
  ∃ obj o, Call.addPeer obj ∈ s.calls ∧ s.objects[obj]? = some o ∧ o.nodeId = p

/-- A peer in memory has its row, or an `add_peer` that will write it. -/
structure Inv (s : State sql) : Prop where
  keyed : ∀ p i, s.peers.get? p = some i → ∃ o, s.objects[i]? = some o ∧ o.nodeId = p
  agrees : ∀ p i o, s.peers.get? p = some i → s.objects[i]? = some o →
    Pending s p ∨ finalRow s p = PeerRow.of? sql o
  kept : ∀ (i : ℕ) (o : PeerRecord), s.objects[i]? = some o → o.Kept sql
  writable : ∀ o : PeerRecord, s.writing = some o → o.Kept sql

variable {s t : State sql}

/-- A place in the registry of a new process holds what was loaded from the peer's row. -/
lemma objects_loadPeersFromDb {nodeId : String} {p : Key} {table : PeersTable sql} {i : ℕ}
    (h : (p, i) ∈ (table.rows.entries.filter fun e => e.1 ≠ .str nodeId).mapIdx
      fun i e => (e.1, i)) :
    ∃ row, table.rows.get? p = some row ∧
      (loadPeersFromDb nodeId table).objects[i]? = some (PeerRow.load p row) := by
  obtain ⟨k, hk, heq⟩ := List.mem_mapIdx.1 h
  obtain ⟨hp, rfl⟩ := Prod.mk.inj heq
  set e := (table.rows.entries.filter fun e => e.1 ≠ .str nodeId)[k] with he
  have hmem : e ∈ table.rows.entries := (List.mem_filter.1 (List.getElem_mem hk)).1
  refine ⟨e.2, hp ▸ Dict.get?_of_mem_entries hmem, ?_⟩
  rw [loadPeersFromDb, List.getElem?_map, List.getElem?_eq_getElem hk, Option.map_some, ← he, hp]

/-- Every row but the node's own becomes a peer of a new process. -/
lemma get?_loadPeersFromDb {nodeId : String} {p : Key} {table : PeersTable sql} {row : PeerRow sql}
    (h : table.rows.get? p = some row) (hp : p ≠ .str nodeId) :
    ∃ i, (loadPeersFromDb nodeId table).peers.get? p = some i ∧
      (loadPeersFromDb nodeId table).objects[i]? = some (PeerRow.load p row) := by
  have hmem : (p, row) ∈ table.rows.entries.filter fun e => e.1 ≠ .str nodeId :=
    List.mem_filter.2 ⟨Dict.mem_entries_of_get? h, by simpa using hp⟩
  obtain ⟨k, hk, hget⟩ := List.getElem_of_mem hmem
  have hkey : (p, k) ∈ (table.rows.entries.filter fun e => e.1 ≠ .str nodeId).mapIdx
      fun i e => (e.1, i) :=
    List.mem_mapIdx.2 ⟨k, hk, by rw [hget]⟩
  obtain ⟨i, hi, hpeer⟩ := Dict.exists_get?_setAll _ (∅ : Dict Key ℕ) p
    (List.mem_map_of_mem (f := Prod.fst) hkey)
  obtain ⟨row', hrow', hobj⟩ := objects_loadPeersFromDb hi
  obtain rfl := Option.some.inj (h.symm.trans hrow')
  exact ⟨i, hpeer, hobj⟩

/-- What is loaded from a row the columns keep. -/
lemma kept_load (table : PeersTable sql) {p : Key} {row : PeerRow sql}
    (h : table.rows.get? p = some row) : (row.load p).Kept sql where
  nodeId := table.keys p (Dict.mem_keys_iff.2 ⟨row, h⟩)
  tcpPort := SqlNumbers.keeps_value row.tcpPort
  apiPort := SqlNumbers.keeps_value row.apiPort
  name := SqlNumbers.keeps_value row.name
  healthScore := SqlNumbers.keeps_value row.healthScore

lemma inv_init (nodeId : String) (table : PeersTable sql) : Inv (loadPeersFromDb nodeId table) := by
  have hloaded {p : Key} {i : ℕ} (h : (loadPeersFromDb nodeId table).peers.get? p = some i) :
      ∃ row, table.rows.get? p = some row ∧
        (loadPeersFromDb nodeId table).objects[i]? = some (PeerRow.load p row) := by
    rcases Dict.get?_setAll_cases _ _ _ _ h with hmem | hempty
    · exact objects_loadPeersFromDb hmem
    · simp at hempty
  constructor
  · intro p i h
    obtain ⟨row, -, hobj⟩ := hloaded h
    exact ⟨_, hobj, rfl⟩
  · intro p i o h ho
    obtain ⟨row, hrow, hobj⟩ := hloaded h
    obtain rfl := Option.some.inj (ho.symm.trans hobj)
    exact Or.inr (hrow.trans (PeerRow.of?_load p row).symm)
  · intro i o ho
    obtain ⟨e, he, rfl⟩ := List.mem_map.1 (List.mem_of_getElem? ho)
    exact kept_load table (Dict.get?_of_mem_entries (List.mem_of_mem_filter he))
  · intro o ho
    cases ho

/-- New objects and new calls change nothing for the peers in memory. -/
lemma Inv.append (hs : Inv s) (objects : List PeerRecord) (calls : List Call)
    (hnew : ∀ o ∈ objects, o.Kept sql) :
    Inv { s with objects := s.objects ++ objects, calls := s.calls ++ calls } where
  keyed p i h := by
    obtain ⟨o, ho, hid⟩ := hs.keyed p i h
    exact ⟨o, getElem?_append_of_some ho _, hid⟩
  agrees p i o h ho := by
    obtain ⟨o', ho', -⟩ := hs.keyed p i h
    obtain rfl : o = o' := Option.some.inj (ho.symm.trans (getElem?_append_of_some ho' _))
    refine (hs.agrees p i o h ho').imp_left ?_
    rintro ⟨obj, q, hcall, hq, hid⟩
    exact ⟨obj, q, List.mem_append_left _ hcall, getElem?_append_of_some hq _, hid⟩
  kept i o ho := by
    rcases List.mem_append.1 (List.mem_of_getElem? ho) with ho | ho
    · obtain ⟨j, hj⟩ := List.mem_iff_getElem?.1 ho
      exact hs.kept j o hj
    · exact hnew o ho
  writable := hs.writable

/-- A call other than the one that goes on is still there. -/
lemma mem_set_of_ne {calls : List Call} {n : ℕ} {call call' : Call} (c : Call)
    (hn : calls[n]? = some call') (h : call ∈ calls) (hne : call ≠ call') :
    call ∈ calls.set n c := by
  obtain ⟨m, hm⟩ := List.mem_iff_getElem?.1 h
  have hmn : n ≠ m := by
    rintro rfl
    exact hne (Option.some.inj (hm.symm.trans hn))
  exact List.mem_iff_getElem?.2 ⟨m, by rw [List.getElem?_set_ne hmn, hm]⟩

lemma inv_addPeer {n obj : ℕ} {peer : PeerRecord} (hs : Inv s) (hfree : s.writing = none)
    (hcall : s.calls[n]? = some (.addPeer obj)) (hobj : s.objects[obj]? = some peer) :
    Inv (addPeer { s with calls := s.calls.set n .passed } obj peer) := by
  obtain ⟨j, old, new, hj, hold, hnew, hkept, hobjects, hpeers, htable, hcalls, hwriting⟩ :=
    addPeer_spec (s := { s with calls := s.calls.set n .passed }) hs.keyed hobj
  have hlt := (List.getElem?_eq_some_iff.1 hj).1
  have hnewKept : new.Kept sql := hkept (hs.kept j old hj) (hs.kept obj peer hobj)
  -- the objects of other peers are other objects
  have hother {p : Key} {i : ℕ} {o : PeerRecord} (ho : s.objects[i]? = some o)
      (hid : o.nodeId = p) (hp : p ≠ peer.nodeId) : i ≠ j := by
    rintro rfl
    obtain rfl := Option.some.inj (ho.symm.trans hj)
    exact hp (hid.symm.trans hold)
  constructor
  · intro p i h
    rw [hpeers] at h
    rw [hobjects]
    split at h
    · next hp =>
      obtain rfl := Option.some.inj h
      exact ⟨new, List.getElem?_set_self hlt, hnew.trans hp.symm⟩
    · next hp =>
      obtain ⟨o, ho, hid⟩ := hs.keyed p i h
      exact ⟨o, by rw [List.getElem?_set_ne (hother ho hid hp).symm, ho], hid⟩
  · intro p i o h ho
    rw [hpeers] at h
    rw [hobjects] at ho
    split at h
    · next hp =>
      obtain rfl := Option.some.inj h
      rw [List.getElem?_set_self hlt, Option.some.injEq] at ho
      right
      rw [finalRow, hwriting, ← ho]
      exact if_pos (hp.trans hnew.symm)
    · next hp =>
      obtain ⟨o', ho', hid⟩ := hs.keyed p i h
      rw [List.getElem?_set_ne (hother ho' hid hp).symm] at ho
      rcases hs.agrees p i o h ho with ⟨k, q, hk, hq, hqid⟩ | hrow
      · have hqk := hother hq hqid hp
        have hne : Call.addPeer k ≠ .addPeer obj := by
          rintro heq
          obtain rfl := Call.addPeer.inj heq
          obtain rfl := Option.some.inj (hq.symm.trans hobj)
          exact hp hqid.symm
        refine Or.inl ⟨k, q, ?_, by rw [hobjects, List.getElem?_set_ne hqk.symm, hq], hqid⟩
        rw [hcalls]
        exact mem_set_of_ne _ hcall hk hne
      · right
        rw [finalRow, hfree] at hrow
        rw [finalRow, hwriting, htable]
        dsimp only
        rw [hnew, if_neg hp]
        exact hrow
  · intro i o ho
    rw [hobjects] at ho
    rcases getElem?_set_cases ho with ⟨-, rfl⟩ | ⟨-, ho⟩
    · exact hnewKept
    · exact hs.kept i o ho
  · intro o ho
    rw [hwriting, Option.some.injEq] at ho
    exact ho ▸ hnewKept

lemma inv_gotPeer {n : ℕ} {peer : Key} {latency : ℚ} {uptime freeSpace : Value} (hs : Inv s)
    (hcall : s.calls[n]? = some (.getPeer peer latency uptime freeSpace)) :
    Inv (gotPeer s n peer latency uptime freeSpace) := by
  have hlt := (List.getElem?_eq_some_iff.1 hcall).1
  have hkeep (c : Call) {k : ℕ} (h : Call.addPeer k ∈ s.calls) :
      Call.addPeer k ∈ s.calls.set n c := mem_set_of_ne c hcall h (by simp)
  cases hget : s.peers.get? peer with
  | none =>
    have heq : gotPeer s n peer latency uptime freeSpace =
        { s with calls := s.calls.set n .passed } := by simp only [gotPeer, hget]
    rw [heq]
    refine ⟨hs.keyed, fun p i o h ho => (hs.agrees p i o h ho).imp_left ?_, hs.kept, hs.writable⟩
    rintro ⟨k, q, hk, hq, hid⟩
    exact ⟨k, q, hkeep _ hk, hq, hid⟩
  | some j =>
    obtain ⟨found, hfound, hfid⟩ := hs.keyed _ _ hget
    have heq : gotPeer s n peer latency uptime freeSpace = { s with
        objects := s.objects.modify j fun o => o.ponged latency uptime freeSpace s.now
        calls := s.calls.set n (.addPeer j) } := by simp only [gotPeer, hget]
    rw [heq]
    refine ⟨fun p i h => ?_, fun p i o h ho => ?_, fun i o ho => ?_, hs.writable⟩
    · obtain ⟨o, ho, hid⟩ := hs.keyed p i h
      refine ⟨_, getElem?_modify_of_some _ ho, ?_⟩
      split
      · exact hid
      · exact hid
    · obtain ⟨o', ho', rfl⟩ := getElem?_modify_cases ho
      by_cases hp : p = peer
      · -- the record has changed, and this call will write it
        refine Or.inl ⟨j, _, List.mem_iff_getElem?.2 ⟨n, List.getElem?_set_self hlt⟩,
          getElem?_modify_of_some _ hfound, ?_⟩
        rw [if_pos rfl]
        exact hfid.trans hp.symm
      · obtain ⟨q, hq, hqid⟩ := hs.keyed p i h
        have hne : j ≠ i := by
          rintro rfl
          obtain rfl := Option.some.inj (hfound.symm.trans hq)
          exact hp (hqid.symm.trans hfid)
        rw [if_neg hne]
        refine (hs.agrees p i o' h ho').imp_left ?_
        rintro ⟨k, r, hk, hr, hrid⟩
        refine ⟨k, _, hkeep _ hk, getElem?_modify_of_some _ hr, ?_⟩
        split
        · exact hrid
        · exact hrid
    · obtain ⟨o', ho', rfl⟩ := getElem?_modify_cases ho
      split
      · exact (hs.kept i o' ho').ponged ..
      · exact hs.kept i o' ho'

/-- The columns keep what the messages of the step say. -/
def Keeps (sql : SqlNumbers) : Label → Prop
  | .hello peer => peer.Kept sql
  | _ => True

/-- **Step lemma**: every such step keeps what is in memory written, or about to be written. -/
lemma inv_exec {l : Label} (hs : Inv s) (h : exec s l = some t) (hl : Keeps sql l) : Inv t := by
  cases l with
  | clock now =>
    obtain rfl := Option.some.inj h
    exact ⟨hs.keyed, hs.agrees, hs.kept, hs.writable⟩
  | hello peer =>
    obtain ⟨-, h⟩ := Option.ite_none_right_eq_some.1 h
    obtain rfl := Option.some.inj h
    exact hs.append [peer] [.addPeer s.objects.length] (List.forall_mem_singleton.2 hl)
  | pong peer latency uptime freeSpace =>
    obtain rfl := Option.some.inj h
    simpa using hs.append [] [.getPeer peer latency uptime freeSpace] (by simp)
  | remove peer =>
    obtain rfl := Option.some.inj h
    simpa using hs.append [] [.removePeer peer] (by simp)
  | resume n =>
    simp only [exec] at h
    split at h
    · cases h
    · next hlock =>
      have hfree : s.writing = none := by simpa using hlock
      split at h
      · next obj hcall =>
        obtain ⟨peer, hobj, rfl⟩ := Option.map_eq_some_iff.1 h
        exact inv_addPeer hs hfree hcall hobj
      · next peer latency uptime freeSpace hcall =>
        obtain rfl := Option.some.inj h
        exact inv_gotPeer hs hcall
      · next peer hcall =>
        obtain rfl := Option.some.inj h
        have hstill {p : Key} {i : ℕ} (hp : (s.peers.erase peer).get? p = some i) :
            s.peers.get? p = some i := by
          rw [Dict.get?_erase] at hp
          split at hp
          · cases hp
          · exact hp
        refine ⟨fun p i hp => hs.keyed p i (hstill hp), fun p i o hp ho =>
          (hs.agrees p i o (hstill hp) ho).imp_left ?_, hs.kept, hs.writable⟩
        rintro ⟨k, q, hk, hq, hid⟩
        exact ⟨k, q, mem_set_of_ne _ hcall hk (by simp), hq, hid⟩
      · cases h
  | written =>
    simp only [exec] at h
    split at h
    · cases h
    · next peer hwriting =>
      obtain rfl := Option.some.inj h
      obtain ⟨table, htable⟩ := s.table.exists_upsertPeer (hs.writable peer hwriting)
      refine ⟨hs.keyed, fun p i o hp ho => (hs.agrees p i o hp ho).imp_right fun hrow => ?_,
        hs.kept, fun o ho => by cases ho⟩
      rw [finalRow, hwriting] at hrow
      rw [finalRow, htable]
      exact (PeersTable.get?_upsertPeer htable p).trans hrow

/-! ## Restart -/

/-- Every peer in memory has a row with its fields, and a new process on the database has every one
of them but its own node id in memory, with these fields and the same answer to `is_alive`. -/
def Restored (nodeId : String) (s : State sql) : Prop :=
  ∀ p i, s.peers.get? p = some i → ∃ peer row, s.objects[i]? = some peer ∧
    s.table.rows.get? p = some row ∧ peer.Same (row.load p) ∧
    (p ≠ .str nodeId → ∃ j restored, (loadPeersFromDb nodeId s.table).peers.get? p = some j ∧
      (loadPeersFromDb nodeId s.table).objects[j]? = some restored ∧ peer.Same restored ∧
      ∀ timeout now, restored.isAlive timeout now = peer.isAlive timeout now)

lemma restored_of_quiet {nodeId : String} (hs : Inv s) (hq : Quiet s) : Restored nodeId s := by
  intro p i hp
  obtain ⟨peer, hpeer, hid⟩ := hs.keyed p i hp
  obtain ⟨row, hof, hsame⟩ := (hs.kept i peer hpeer).exists_row
  rw [hid] at hsame
  have hrow : s.table.rows.get? p = some row := by
    rcases hs.agrees p i peer hp hpeer with ⟨k, q, hk, -⟩ | hrow
    · cases hq.calls _ hk
    · rwa [finalRow, hq.writing, hof] at hrow
  refine ⟨peer, row, hpeer, hrow, hsame, fun hne => ?_⟩
  obtain ⟨j, hj, hobj⟩ := get?_loadPeersFromDb hrow hne
  refine ⟨j, _, hj, hobj, hsame, fun timeout now => ?_⟩
  rw [PeerRecord.isAlive, PeerRecord.isAlive, hsame.lastSeen]

/-- **A restart loses no known peer** in a run in which the columns keep what the messages say:
whenever no call is in progress, all peers in memory are restored from their rows. -/
theorem restart_loses_no_peer (sql : SqlNumbers) (nodeId : String) (table : PeersTable sql)
    (ls : List Label)
    (h : (machine nodeId table).Meets (fun _ l => Keeps sql l) (machine nodeId table).init ls) :
    (machine nodeId table).Always (fun s => Quiet s → Restored nodeId s)
      (machine nodeId table).init ls := by
  have hinv : (machine nodeId table).Always Inv (machine nodeId table).init ls :=
    Machine.always_of_meets (fun s l t hs ht hl => inv_exec hs ht hl) (inv_init nodeId table) h
  exact hinv.imp fun s hs hq => restored_of_quiet hs hq

section Examples

/-- Decimal literals without sign, fraction and exponent are numbers; other numbers are not written
in the examples. -/
def decimalNumbers : SqlNumbers where
  literal _ s :=
    if s ≠ "" ∧ s.toList.all Char.isDigit = true then
      some (.finite (s.toList.foldl (fun n c => 10 * n + (c.toNat - '0'.toNat)) 0 : ℕ))
    else none
  render _ := ""
  nearest n := n

def peerAA : PeerRecord where
  nodeId := .str "aa"
  ip := "10.0.0.1"
  tcpPort := .int 50001
  name := .str "a"
  healthScore := .float 7

/-- A peer is registered, and removed between the two steps of a `handle_pong`, which registers it
again. -/
def removedInBetween : List Label :=
  [.clock 1, .hello peerAA, .resume 0, .written, .pong (.str "aa") 5 (.int 100) (.int 4096),
    .remove (.str "aa"), .clock 2, .resume 1, .resume 2, .clock 3, .resume 1, .written]

/-- The node `node` with an empty database. -/
def freshNode : Machine (State decimalNumbers) Label := machine "node" ∅

/-- The state after `removedInBetween`. -/
def afterRemovedInBetween : State decimalNumbers :=
  (freshNode.run freshNode.init removedInBetween).getD {}

lemma quiet_removedInBetween : Quiet afterRemovedInBetween where
  calls call hcall := by
    have hcalls : afterRemovedInBetween.calls = [.passed, .passed, .passed] := rfl
    simpa [hcalls] using hcall
  writing := rfl

lemma kept_peerAA : peerAA.Kept decimalNumbers where
  nodeId := rfl
  tcpPort := ⟨by decide, Or.inl rfl⟩
  apiPort := ⟨by decide, Or.inl rfl⟩
  name := Or.inl rfl
  healthScore := by simp [SqlNumbers.Keeps, peerAA]

theorem restart_loses_no_peer_removedInBetween :
    afterRemovedInBetween.peers.get? (.str "aa") = some 0 ∧
      Restored "node" afterRemovedInBetween := by
  have hkeeps : ∀ l ∈ removedInBetween, Keeps decimalNumbers l := by
    simp [removedInBetween, Keeps, kept_peerAA]
  exact ⟨rfl, (restart_loses_no_peer decimalNumbers "node" ∅ removedInBetween
    (Machine.meets_of_forall_mem hkeeps _)).last rfl quiet_removedInBetween⟩

/-- The TCP port in the handshake is the string `"9000"`. -/
def textPort : List Label :=
  [.clock 1, .hello { peerAA with tcpPort := .str "9000" }, .resume 0, .written]

/-- The state after `textPort`. -/
def afterTextPort : State decimalNumbers := (freshNode.run freshNode.init textPort).getD {}

/-- **A restart changes the port of a peer** whose handshake has it as a string: the row is written,
and it has the number. -/
theorem restart_changes_port : (afterTextPort.table.rows.get? (.str "aa")).isSome = true ∧
    ¬ freshNode.Always (fun s => Quiet s → Restored "node" s) freshNode.init textPort := by
  refine ⟨rfl, fun h => ?_⟩
  have hcalls : afterTextPort.calls = [.passed] := rfl
  have hrestored : Restored "node" afterTextPort :=
    h.last rfl ⟨fun call hcall => by simpa [hcalls] using hcall, rfl⟩
  obtain ⟨peer, row, hpeer, hrow, hsame, -⟩ := hrestored (.str "aa") 0 rfl
  obtain rfl : { peerAA with tcpPort := .str "9000", lastSeen := 1 } = peer := Option.some.inj hpeer
  have hport : row.tcpPort.value = .int 9000 := by
    obtain rfl := Option.some.inj hrow
    rfl
  obtain ⟨k, hk, hk'⟩ := hsame.tcpPort
  rw [PeerRow.load, hport] at hk'
  rw [← Option.some.inj hk] at hk'
  cases hk'

end Examples

end PeerStore

end DistriStore
