import DistriStore.Advanced.SelfHealing
import DistriStore.Lib.Machine
import DistriStore.Node.Node
import DistriStore.Strategies.Replication
import Mathlib.Logic.Function.Basic
import Mathlib.Logic.Relation

/-!
# Replicas in a network of nodes

A network of nodes in which `replicate_chunks` and cycles of `_check_and_heal` run as tasks and
send `STORE_CHUNK` messages, which the receivers give to `_handle_message`.  A step takes one
task to its next await or loop head, or hands one message to its receiver; messages in flight
are handled in any order.  What the environment answers (the alive peers, the node that answers
at a peer's address, whether a send succeeds) is chosen by the label.

Both senders record a peer as a holder as soon as the message is written, and no receiver stores
the chunk.  So the routing tables are right about other nodes throughout every run in which each
`STORE_CHUNK` reaches a node that has saved the same chunk itself (`truthful_of_harmless`), and
not in general (`unstored_replica_listed`).
-/

namespace DistriStore.Replicas

open Lib

/-! ## Tasks -/

/-- A `STORE_CHUNK` message on its way, or handled. -/
structure Frame where
  sender : String
  receiver : String
  timestamp : ℚ
  chunkHash : String
  data : Bytes
  fileHash : String
  deriving DecidableEq

/-- The message itself. -/
def Frame.message (f : Frame) : Value :=
  storeChunkMsg f.timestamp f.sender f.chunkHash f.data f.fileHash

/-- The loop that sends one chunk to its targets. -/
structure Transfer where
  chunkHash : String
  data : Bytes
  fileHash : String
  /-- The targets from the current one on. -/
  targets : List String
  /-- `replicated_to`, or `alive_holders`. -/
  holders : List String

/-- The loop over the chunks, with the chunks to come. -/
inductive ChunkLoop where
  | replicate (fileHash : String) (rest : List (ChunkInfo × Bytes))
      (results : Dict String ReplicationResult)
  | heal (alivePeers : Dict String PeerInfo) (rest : List (String × List String))

/-- Where a task is. -/
inductive Job where
  /-- At the head of the loop over the chunks. -/
  | chunks (l : ChunkLoop)
  /-- `replicate_chunks`: in `get_alive_peers`, for this chunk. -/
  | selecting (fileHash : String) (info : ChunkInfo) (data : Bytes)
      (rest : List (ChunkInfo × Bytes)) (results : Dict String ReplicationResult)
  /-- `_check_and_heal`: in `get_alive_peers`. -/
  | checking
  /-- At the head of the loop over the targets: looking for a connection, or dialling. -/
  | sending (t : Transfer) (l : ChunkLoop)
  /-- In `conn.send`, to the first of the targets. -/
  | draining (t : Transfer) (l : ChunkLoop)
  | returned (results : Dict String ReplicationResult)
  | healed
  | raised

/-- How an operation ends. -/
inductive Event where
  /-- A loop goes on; nothing is awaited. -/
  | next
  /-- `get_alive_peers()`. -/
  | alivePeers (peers : Dict String PeerInfo)
  /-- `connections.get(peer_id)` or `connect_to_peer`: the node at the other end, if any. -/
  | connected (peer : Option String) (timestamp : ℚ)
  /-- `conn.send` returned, or raised. -/
  | drained (ok : Bool)
  /-- The task is cancelled, or an operation outside of a `try` raises. -/
  | raised

/-- The body of a loop over the chunks, up to its first await. -/
def nextChunk (k : ℕ) (node : Node) : ChunkLoop → Node × Job
  | .replicate _ [] results => (node, .returned results)
  | .replicate fileHash ((info, data) :: rest) results =>
    if Storable info.chunkHash then
      (saveLocally node info data, .selecting fileHash info data rest results)
    else (node, .raised)
  | .heal _ [] => (node, .healed)
  | .heal alivePeers ((chunkHash, aliveHolders) :: rest) =>
    match healTargets k alivePeers node.store chunkHash aliveHolders with
    | .error _ => (node, .raised)
    | .ok none => (node, .chunks (.heal alivePeers rest))
    | .ok (some (data, targets)) =>
      (node, .sending ⟨chunkHash, data, "", targets, aliveHolders⟩ (.heal alivePeers rest))

/-- `replicate_chunks` with the alive peers for a chunk. -/
def onSelected (k : ℕ) (fileHash : String) (info : ChunkInfo) (data : Bytes)
    (rest : List (ChunkInfo × Bytes)) (results : Dict String ReplicationResult)
    (peers : Dict String PeerInfo) : Job :=
  match selectTargets k peers info.chunkHash with
  | .error _ => .raised
  | .ok targetPeers =>
    if targetPeers = [] then
      .chunks (.replicate fileHash rest
        (results.set info.chunkHash { storedLocally := true, replicatedTo := [] }))
    else
      .sending ⟨info.chunkHash, data, fileHash, targetPeers.take k, []⟩
        (.replicate fileHash rest results)

/-- `_check_and_heal` with the alive peers: the pass over the routing table. -/
def onChecked (k : ℕ) (node : Node) (peers : Dict String PeerInfo) : Node × Job :=
  let found := underReplicated k (node.state.nodeId :: peers.keys) node.routing.getAll
  ({ node with routing := node.routing.assignAll found }, .chunks (.heal peers found))

/-- The end of the body: the holders of the chunk go into the routing table. -/
def endChunk (node : Node) (t : Transfer) : ChunkLoop → Node × Job
  | .replicate fileHash rest results =>
    ({ node with
        routing := node.routing.assignChunk t.chunkHash (node.state.nodeId :: t.holders) },
      .chunks (.replicate fileHash rest (results.set t.chunkHash
        { storedLocally := true, replicatedTo := t.holders,
          totalCopies := some (1 + t.holders.length) })))
  | .heal alivePeers rest =>
    ({ node with routing := node.routing.assignChunk t.chunkHash t.holders },
      .chunks (.heal alivePeers rest))

/-- The loop over the targets with its connection, or with none. -/
def onConnected (node : Node) (t : Transfer) (l : ChunkLoop) (rest : List String)
    (peer : Option String) (timestamp : ℚ) : Job × List Frame :=
  match peer with
  | none => (.sending { t with targets := rest } l, [])
  | some q =>
    (.draining t l, [⟨node.state.nodeId, q, timestamp, t.chunkHash, t.data, t.fileHash⟩])

/-- A task goes on after an event: its node, the task and the frames it writes. -/
def Job.resume (k : ℕ) (node : Node) : Job → Event → Option (Node × Job × List Frame)
  | .returned _, _ => none
  | .healed, _ => none
  | .raised, _ => none
  | _, .raised => some (node, .raised, [])
  | .chunks l, .next =>
    let (node, job) := nextChunk k node l
    some (node, job, [])
  | .selecting fileHash info data rest results, .alivePeers peers =>
    some (node, onSelected k fileHash info data rest results peers, [])
  | .checking, .alivePeers peers =>
    let (node, job) := onChecked k node peers
    some (node, job, [])
  | .sending t l, .next =>
    if t.targets = [] then
      let (node, job) := endChunk node t l
      some (node, job, [])
    else none
  | .sending t l, .connected peer timestamp =>
    match t.targets with
    | [] => none
    | _ :: rest => some (node, onConnected node t l rest peer timestamp)
  | .draining t l, .drained ok =>
    match t.targets with
    | [] => none
    | p :: rest =>
      let holders := if ok then t.holders ++ [p] else t.holders
      some (node, .sending { t with targets := rest, holders } l, [])
  | _, _ => none

/-! ## The network -/

/-- A task, its node and its replication factor. -/
structure Task where
  node : String
  k : ℕ
  job : Job

structure State where
  /-- The nodes, by their ids. -/
  nodes : String → Node
  tasks : List Task := []
  flight : List Frame := []
  /-- The frames that their receivers have handled so far. -/
  handled : List Frame := []

inductive Label where
  /-- Node `n` calls `replicate_chunks`, or starts a cycle of `_check_and_heal`. -/
  | replicate (n : String) (k : ℕ) (manifest : FileManifest) (chunkDataList : List Bytes)
  | heal (n : String) (k : ℕ)
  /-- A task goes on. -/
  | resume (i : ℕ) (event : Event)
  /-- This frame in flight reaches its receiver, or is lost with its connection. -/
  | deliver (j : ℕ)
  | lose (j : ℕ)
  /-- A chunk is evicted. -/
  | evict (n chunkHash : String)

def State.setNode (s : State) (n : String) (node : Node) : State :=
  { s with nodes := Function.update s.nodes n node }

/-- The node after `_handle_message`. -/
def receive (node : Node) (msg : Value) : Node :=
  match handleMessage msg with
  -- the web sockets get the message
  | .ok .chat => node
  -- the log gets a line
  | .ok .logReceived => node
  | .ok .logUnknown => node
  -- `_handle_client` ends
  | .error _ => node

def exec (s : State) : Label → Option State
  | .replicate n k manifest chunkDataList =>
    let l := .replicate manifest.fileHash (manifest.chunks.zip chunkDataList) ∅
    some { s with tasks := s.tasks ++ [⟨n, k, .chunks l⟩] }
  | .heal n k => some { s with tasks := s.tasks ++ [⟨n, k, .checking⟩] }
  | .resume i event => do
    let task ← s.tasks[i]?
    let (node, job, frames) ← task.job.resume task.k (s.nodes task.node) event
    return { s.setNode task.node node with
      tasks := s.tasks.set i { task with job }
      flight := s.flight ++ frames }
  | .deliver j => do
    let f ← s.flight[j]?
    return { s.setNode f.receiver (receive (s.nodes f.receiver) f.message) with
      flight := s.flight.eraseIdx j
      handled := s.handled ++ [f] }
  | .lose j => do
    let _ ← s.flight[j]?
    return { s with flight := s.flight.eraseIdx j }
  | .evict n chunkHash =>
    some (s.setNode n { s.nodes n with store := (s.nodes n).store.deleteChunk chunkHash })

/-- A network in which every node starts with its store as it is on disk. -/
def machine (stores : String → LocalStore) : Machine State Label where
  init := { nodes := fun n => { state := { nodeId := n }, store := stores n } }
  exec := exec

@[simp] lemma machine_exec (stores : String → LocalStore) (s : State) (l : Label) :
    (machine stores).exec s l = exec s l := rfl

/-! ## What the routing tables promise -/

/-- Every other node that a routing table lists as a holder of a chunk was sent the chunk, and
stores the data that it was sent. -/
def Truthful (s : State) : Prop :=
  ∀ n h p, p ∈ (s.nodes n).routing.getHolders h → p ≠ n →
    ∃ f ∈ s.handled, f.sender = n ∧ f.receiver = p ∧ f.chunkHash = h ∧
      (s.nodes p).store.loadChunk h = some f.data

/-- No connection breaks and no chunk is evicted. -/
def Calm : Label → Prop
  | .lose _ => False
  | .evict _ _ => False
  | _ => True

/-- In a calm run the routing tables are right whenever no frame is in flight. -/
def AlwaysTruthful (stores : String → LocalStore) : Prop :=
  ∀ ls, (machine stores).Meets (fun _ l => Calm l) (machine stores).init ls →
    (machine stores).Always (fun s => s.flight = [] → Truthful s) (machine stores).init ls

/-- The peer that the task is about to send to. -/
def Job.target? : Job → Option String
  | .sending t _ => t.targets.head?
  | _ => none

/-- The chunk that the task is about to save. -/
def Job.saving? : Job → Option (ChunkInfo × Bytes)
  | .chunks (.replicate _ (c :: _) _) => if Storable c.1.chunkHash then some c else none
  | _ => none

/-- A connection for a peer leads to this peer, and a save does not change a chunk that the node
was sent before. -/
def HarmlessEvent (s : State) (task : Task) : Event → Prop
  | .connected (some q) _ => task.job.target? = some q
  | .next => ∀ c ∈ task.job.saving?, ∀ f ∈ s.handled,
      f.receiver = task.node → f.chunkHash = c.1.chunkHash → f.data = c.2
  | _ => True

/-- Every message is for a node that already stores its chunk. -/
def Harmless (s : State) : Label → Prop
  | .resume i event => ∀ task ∈ s.tasks[i]?, HarmlessEvent s task event
  | .deliver j => ∀ f ∈ s.flight[j]?,
      (s.nodes f.receiver).store.loadChunk f.chunkHash = some f.data
  | _ => True

instance : DecidablePred Calm
  | .lose _ => .isFalse id
  | .evict _ _ => .isFalse id
  | .replicate .. => .isTrue trivial
  | .heal .. => .isTrue trivial
  | .resume .. => .isTrue trivial
  | .deliver _ => .isTrue trivial

instance (s : State) (task : Task) : DecidablePred (HarmlessEvent s task)
  | .connected (some q) _ => inferInstanceAs (Decidable (task.job.target? = some q))
  | .connected none _ => .isTrue trivial
  | .next => inferInstanceAs (Decidable (∀ c ∈ task.job.saving?, ∀ f ∈ s.handled,
      f.receiver = task.node → f.chunkHash = c.1.chunkHash → f.data = c.2))
  | .alivePeers _ => .isTrue trivial
  | .drained _ => .isTrue trivial
  | .raised => .isTrue trivial

instance (s : State) : DecidablePred (Harmless s)
  | .resume i event =>
    inferInstanceAs (Decidable (∀ task ∈ s.tasks[i]?, HarmlessEvent s task event))
  | .deliver j => inferInstanceAs (Decidable (∀ f ∈ s.flight[j]?,
      (s.nodes f.receiver).store.loadChunk f.chunkHash = some f.data))
  | .replicate .. => .isTrue trivial
  | .heal .. => .isTrue trivial
  | .lose _ => .isTrue trivial
  | .evict .. => .isTrue trivial

/-! ## One step of a task -/

/-- The loop will put `p` among the holders of chunk `h` unless it has it sent. -/
def ChunkLoop.Lists (h p : String) : ChunkLoop → Prop
  | .replicate .. => False
  | .heal _ rest => ∃ holders, (h, holders) ∈ rest ∧ p ∈ holders

/-- The task has `p` on a list that it will assign to chunk `h`. -/
def Job.Lists (h p : String) : Job → Prop
  | .chunks l => l.Lists h p
  | .sending t l => h = t.chunkHash ∧ p ∈ t.holders ∨ l.Lists h p
  | .draining t l =>
    h = t.chunkHash ∧ (p ∈ t.holders ∨ t.targets.head? = some p) ∨ l.Lists h p
  | _ => False

/-- The ways in which a task goes on. -/
inductive Resumed (k : ℕ) (node : Node) : Job → Event → Node → Job → List Frame → Prop where
  | raised (job) : Resumed k node job .raised node .raised []
  | next (l) : Resumed k node (.chunks l) .next (nextChunk k node l).1 (nextChunk k node l).2 []
  | selected (fileHash info data rest results peers) :
      Resumed k node (.selecting fileHash info data rest results) (.alivePeers peers) node
        (onSelected k fileHash info data rest results peers) []
  | checked (peers) : Resumed k node .checking (.alivePeers peers) (onChecked k node peers).1
      (onChecked k node peers).2 []
  | ended (t l) : Resumed k node (.sending t l) .next (endChunk node t l).1 (endChunk node t l).2 []
  | skipped (t l rest timestamp) :
      Resumed k node (.sending t l) (.connected none timestamp) node
        (.sending { t with targets := rest } l) []
  | sent (t l q timestamp) : Resumed k node (.sending t l) (.connected (some q) timestamp) node
      (.draining t l) [⟨node.state.nodeId, q, timestamp, t.chunkHash, t.data, t.fileHash⟩]
  | drained (t l p rest ok holders) (htargets : t.targets = p :: rest)
      (hholders : ∀ p' ∈ holders, p' ∈ t.holders ∨ p' = p) :
      Resumed k node (.draining t l) (.drained ok) node
        (.sending { t with targets := rest, holders } l) []

lemma resumed_of_resume {k : ℕ} {node node' : Node} {job job' : Job} {event : Event}
    {frames : List Frame} (h : job.resume k node event = some (node', job', frames)) :
    Resumed k node job event node' job' frames := by
  cases job with
  | chunks l =>
    cases event with
    | next => cases h; exact .next l
    | raised => cases h; exact .raised _
    | _ => cases h
  | selecting fileHash info data rest results =>
    cases event with
    | alivePeers peers => cases h; exact .selected ..
    | raised => cases h; exact .raised _
    | _ => cases h
  | checking =>
    cases event with
    | alivePeers peers => cases h; exact .checked peers
    | raised => cases h; exact .raised _
    | _ => cases h
  | sending t l =>
    cases event with
    | raised => cases h; exact .raised _
    | next =>
      simp only [Job.resume] at h
      split at h
      · cases h; exact .ended t l
      · cases h
    | connected peer timestamp =>
      simp only [Job.resume] at h
      split at h
      · cases h
      · cases peer with
        | none => cases h; exact .skipped ..
        | some q => cases h; exact .sent ..
    | _ => cases h
  | draining t l =>
    cases event with
    | raised => cases h; exact .raised _
    | drained ok =>
      simp only [Job.resume] at h
      split at h
      · cases h
      · next p rest heq =>
        cases h
        refine .drained t l p rest ok _ heq fun p' hp' => ?_
        cases ok <;> simp_all
    | _ => cases h
  | _ => cases event <;> cases h

/-- Only `replicate_chunks` saves, and only the next of its chunks. -/
lemma node_nextChunk (k : ℕ) (node : Node) (l : ChunkLoop) :
    (nextChunk k node l).1 = match (Job.chunks l).saving? with
      | some c => saveLocally node c.1 c.2
      | none => node := by
  rcases l with ⟨_, _ | ⟨⟨info, data⟩, rest⟩, _⟩ | ⟨_, _ | ⟨⟨h, holders⟩, rest⟩⟩
  · rfl
  · simp only [nextChunk, Job.saving?]
    by_cases hname : Storable info.chunkHash
    · simp only [if_pos hname]
    · simp only [if_neg hname]
  · rfl
  · simp only [nextChunk]
    split <;> rfl

lemma routing_nextChunk (k : ℕ) (node : Node) (l : ChunkLoop) :
    (nextChunk k node l).1.routing = node.routing := by
  rw [node_nextChunk]
  split <;> rfl

lemma lists_nextChunk {k : ℕ} {node : Node} {l : ChunkLoop} {h p : String}
    (hlists : (nextChunk k node l).2.Lists h p) : l.Lists h p := by
  rcases l with ⟨_, _ | _, _⟩ | ⟨_, _ | ⟨⟨c, holders⟩, rest⟩⟩
  · exact hlists
  · simp only [nextChunk] at hlists
    split at hlists
    · exact hlists
    · exact hlists.elim
  · exact hlists.elim
  · have htail (hl : ∃ hs, (h, hs) ∈ rest ∧ p ∈ hs) :
        ∃ hs, (h, hs) ∈ (c, holders) :: rest ∧ p ∈ hs := by
      obtain ⟨hs, hmem, hp⟩ := hl
      exact ⟨hs, List.mem_cons_of_mem _ hmem, hp⟩
    simp only [nextChunk] at hlists
    split at hlists
    · exact hlists.elim
    · exact htail hlists
    · rcases hlists with ⟨rfl, hp⟩ | hl
      · exact ⟨holders, List.mem_cons_self .., hp⟩
      · exact htail hl

lemma lists_onSelected {k : ℕ} {fileHash : String} {info : ChunkInfo} {data : Bytes}
    {rest : List (ChunkInfo × Bytes)} {results : Dict String ReplicationResult}
    {peers : Dict String PeerInfo} {h p : String} :
    ¬ (onSelected k fileHash info data rest results peers).Lists h p := by
  unfold onSelected
  split
  · exact id
  · split <;> simp [Job.Lists, ChunkLoop.Lists]

/-- The pass over the routing table, and the loop after it, know no new holders. -/
lemma lists_onChecked {k : ℕ} {node : Node} {peers : Dict String PeerInfo} {h p : String}
    (hlists : p ∈ (onChecked k node peers).1.routing.getHolders h ∨
      (onChecked k node peers).2.Lists h p) : p ∈ node.routing.getHolders h := by
  rcases hlists with hp | ⟨holders, hmem, hp⟩
  · exact mem_getHolders_of_pass hp
  · exact mem_of_mem_underReplicated hmem hp

lemma lists_endChunk {node : Node} {t : Transfer} {l : ChunkLoop} {h p : String}
    (hlists : p ∈ (endChunk node t l).1.routing.getHolders h ∨
      (endChunk node t l).2.Lists h p) :
    p = node.state.nodeId ∨ p ∈ node.routing.getHolders h ∨ (Job.sending t l).Lists h p := by
  have hassign (ids : List String)
      (hp : p ∈ (node.routing.assignChunk t.chunkHash ids).getHolders h) :
      h = t.chunkHash ∧ p ∈ ids ∨ p ∈ node.routing.getHolders h := by
    rw [RoutingTable.getHolders_assignChunk] at hp
    split at hp
    · next hh => exact Or.inl ⟨hh, hp⟩
    · exact Or.inr hp
  cases l with
  | replicate fileHash rest results =>
    rcases hlists with hp | hl
    · rcases hassign _ hp with ⟨hh, hp⟩ | hp
      · rcases List.mem_cons.1 hp with hp | hp
        · exact Or.inl hp
        · exact Or.inr (Or.inr (Or.inl ⟨hh, hp⟩))
      · exact Or.inr (Or.inl hp)
    · exact hl.elim
  | heal alivePeers rest =>
    rcases hlists with hp | hl
    · rcases hassign _ hp with hp | hp
      · exact Or.inr (Or.inr (Or.inl hp))
      · exact Or.inr (Or.inl hp)
    · exact Or.inr (Or.inr (Or.inr hl))

/-- What a task newly lists, in the routing table or for it, is the node itself, or the target that
it has just got a connection for. -/
lemma Resumed.listed {k : ℕ} {node node' : Node} {job job' : Job} {event : Event}
    {frames : List Frame} (hr : Resumed k node job event node' job' frames) {h p : String}
    (hlists : p ∈ node'.routing.getHolders h ∨ job'.Lists h p) :
    p = node.state.nodeId ∨ p ∈ node.routing.getHolders h ∨ job.Lists h p ∨
      ∃ q timestamp, event = .connected (some q) timestamp ∧ job.target? = some p ∧
        ∃ f ∈ frames, f.sender = node.state.nodeId ∧ f.receiver = q ∧ f.chunkHash = h := by
  cases hr with
  | raised => exact Or.inr (Or.inl (hlists.resolve_right id))
  | next l =>
    rw [routing_nextChunk] at hlists
    exact Or.inr (hlists.imp_right fun hl => Or.inl (lists_nextChunk hl))
  | selected => exact Or.inr (Or.inl (hlists.resolve_right lists_onSelected))
  | checked => exact Or.inr (Or.inl (lists_onChecked hlists))
  | ended t l =>
    rcases lists_endChunk hlists with hp | hp | hl
    · exact Or.inl hp
    · exact Or.inr (Or.inl hp)
    · exact Or.inr (Or.inr (Or.inl hl))
  | skipped => exact Or.inr (hlists.imp_right Or.inl)
  | sent t l q timestamp =>
    rcases hlists with hp | ⟨rfl, hp | hp⟩ | hl
    · exact Or.inr (Or.inl hp)
    · exact Or.inr (Or.inr (Or.inl (Or.inl ⟨rfl, hp⟩)))
    · exact Or.inr (Or.inr (Or.inr
        ⟨q, timestamp, rfl, hp, _, List.mem_singleton_self _, rfl, rfl, rfl⟩))
    · exact Or.inr (Or.inr (Or.inl (Or.inr hl)))
  | drained t l q rest ok holders htargets hholders =>
    rcases hlists with hp | ⟨rfl, hp⟩ | hl
    · exact Or.inr (Or.inl hp)
    · refine Or.inr (Or.inr (Or.inl (Or.inl ⟨rfl, ?_⟩)))
      rcases hholders p hp with hp | rfl
      · exact Or.inl hp
      · exact Or.inr (by rw [htargets]; rfl)
    · exact Or.inr (Or.inr (Or.inl (Or.inr hl)))

/-- **Where listed holders come from.** What a task newly lists, in the routing table or for it,
is the node itself or the receiver of the frame that the task has just written. -/
lemma Resumed.origin {k : ℕ} {node node' : Node} {job job' : Job} {event : Event}
    {frames : List Frame} (hr : Resumed k node job event node' job' frames)
    (hroute : ∀ q timestamp, event = .connected (some q) timestamp → job.target? = some q)
    {h p : String} (hlists : p ∈ node'.routing.getHolders h ∨ job'.Lists h p) :
    p = node.state.nodeId ∨ p ∈ node.routing.getHolders h ∨ job.Lists h p ∨
      ∃ f ∈ frames, f.sender = node.state.nodeId ∧ f.receiver = p ∧ f.chunkHash = h := by
  rcases hr.listed hlists with hp | hp | hl | ⟨q, timestamp, hevent, htarget, f, hf, hs, hr, hh⟩
  · exact Or.inl hp
  · exact Or.inr (Or.inl hp)
  · exact Or.inr (Or.inr (Or.inl hl))
  · have hq : p = q := Option.some.inj (htarget.symm.trans (hroute q timestamp hevent))
    exact Or.inr (Or.inr (Or.inr ⟨f, hf, hs, hr.trans hq.symm, hh⟩))

/-- What a step of a task does to its node: it keeps its id, and its store, up to a save. -/
lemma Resumed.node {k : ℕ} {node node' : Node} {job job' : Job} {event : Event}
    {frames : List Frame} (hr : Resumed k node job event node' job' frames) :
    node'.state.nodeId = node.state.nodeId ∧ (node'.store = node.store ∨
      ∃ c, event = .next ∧ job.saving? = some c ∧
        node'.store = node.store.saveChunk c.1.chunkHash c.2) := by
  cases hr with
  | next l =>
    rw [node_nextChunk]
    split
    · next c hc => exact ⟨rfl, Or.inr ⟨c, rfl, hc, rfl⟩⟩
    · exact ⟨rfl, Or.inl rfl⟩
  | ended t l => cases l <;> exact ⟨rfl, Or.inl rfl⟩
  | _ => exact ⟨rfl, Or.inl rfl⟩

/-! ## A task on its own

When no other task of its node gets in between, a task computes `replicateChunks`. -/

section Alone

variable {k : ℕ}

/-- A task goes on, with its node. -/
def Proceeds (k : ℕ) (s t : Node × Job) : Prop :=
  ∃ event frames, s.2.resume k s.1 event = some (t.1, t.2, frames)

/-- The task goes on until it gets to that node and that place. -/
abbrev Leads (k : ℕ) : Node × Job → Node × Job → Prop := Relation.ReflTransGen (Proceeds k)

lemma Leads.step {s t : Node × Job} {node : Node} {job : Job} {frames : List Frame}
    (event : Event) (h : s.2.resume k s.1 event = some (node, job, frames))
    (ht : Leads k (node, job) t) : Leads k s t :=
  .head ⟨event, frames, h⟩ ht

/-- The loop over the targets records those that the send succeeds for. -/
lemma leads_targets (sent : String → Except PyError Bool) (node : Node) (t : Transfer)
    (l : ChunkLoop) : Leads k (node, .sending t l) (node, match sendToPeers sent t.targets with
      | .ok replicatedTo =>
        .sending { t with targets := [], holders := t.holders ++ replicatedTo } l
      | .error _ => .raised) := by
  obtain ⟨c, data, fileHash, targets, holders⟩ := t
  induction targets generalizing holders with
  | nil => simpa [sendToPeers] using Relation.ReflTransGen.refl
  | cons p rest ih =>
    cases hp : sent p with
    | error e =>
      refine Leads.step .raised rfl ?_
      simpa [sendToPeers, hp, bind, Except.bind] using Relation.ReflTransGen.refl
    | ok success =>
      cases success with
      | true =>
        refine Leads.step (.connected (some p) 0) rfl (Leads.step (.drained true) rfl ?_)
        have hrest := ih (holders ++ [p])
        cases hr : sendToPeers sent rest <;>
          simpa [sendToPeers, hp, hr, bind, Except.bind, pure, Except.pure] using hrest
      | false =>
        refine Leads.step (.connected none 0) rfl ?_
        have hrest := ih holders
        cases hr : sendToPeers sent rest <;>
          simpa [sendToPeers, hp, hr, bind, Except.bind, pure, Except.pure] using hrest

/-- The body of a loop over the chunks. -/
lemma leads_next (node : Node) (l : ChunkLoop) :
    Leads k (node, .chunks l) (nextChunk k node l) :=
  Leads.step .next rfl .refl

lemma leads_chunk (env : ReplicationEnv) (node : Node) (fileHash : String) (info : ChunkInfo)
    (data : Bytes) (rest : List (ChunkInfo × Bytes)) (results : Dict String ReplicationResult) :
    Leads k (node, .chunks (.replicate fileHash ((info, data) :: rest) results))
      ((replicateChunk k env info data node).2, match (replicateChunk k env info data node).1 with
        | .ok result => .chunks (.replicate fileHash rest (results.set info.chunkHash result))
        | .error _ => .raised) := by
  by_cases hname : Storable info.chunkHash
  swap
  · -- the file of the chunk cannot be written
    have hraised : nextChunk k node (.replicate fileHash ((info, data) :: rest) results) =
        (node, .raised) := if_neg hname
    rw [replicateChunk, if_pos hname, ← hraised]
    exact leads_next _ _
  have hsaved : nextChunk k node (.replicate fileHash ((info, data) :: rest) results) =
      (saveLocally node info data, .selecting fileHash info data rest results) := if_pos hname
  refine (hsaved ▸ leads_next _ _).trans (Leads.step (.alivePeers env.alive) rfl ?_)
  unfold onSelected replicateChunk
  rw [if_neg (not_not.2 hname)]
  dsimp only
  cases selectTargets k env.alive info.chunkHash with
  | error e => exact .refl
  | ok targets =>
    dsimp only
    split
    · exact .refl
    · have htargets := leads_targets (k := k) env.sent (saveLocally node info data)
        ⟨info.chunkHash, data, fileHash, targets.take k, []⟩ (.replicate fileHash rest results)
      cases hsent : sendToPeers env.sent (targets.take k) with
      | error e =>
        rw [hsent] at htargets
        exact htargets
      | ok replicatedTo =>
        rw [hsent] at htargets
        exact htargets.trans (Leads.step .next rfl .refl)

/-- Where a call of `replicate_chunks` ends. -/
def Job.ended : Except PyError (Dict String ReplicationResult) → Job
  | .ok results => .returned results
  | .error _ => .raised

/-- Left to itself, a task does what `replicateChunks` does. -/
theorem leads_replicateChunks (envs : ℕ → ReplicationEnv) (manifest : FileManifest)
    (chunkDataList : List Bytes) (node : Node) :
    Leads k
      (node, .chunks (.replicate manifest.fileHash (manifest.chunks.zip chunkDataList) ∅))
      ((replicateChunks k envs manifest chunkDataList node).2,
        .ended (replicateChunks k envs manifest chunkDataList node).1) := by
  have hloop (pairs : List (ChunkInfo × Bytes)) (i : ℕ) (results : Dict String ReplicationResult)
      (node : Node) : Leads k (node, .chunks (.replicate manifest.fileHash pairs results))
        ((replicateLoop k envs pairs i results node).2,
          .ended (replicateLoop k envs pairs i results node).1) := by
    induction pairs generalizing i results node with
    | nil => exact Leads.step .next rfl .refl
    | cons c rest ih =>
      have hchunk := leads_chunk (k := k) (envs i) node manifest.fileHash c.1 c.2 rest results
      rw [replicateLoop]
      rcases hr : replicateChunk k (envs i) c.1 c.2 node with ⟨e | result, node'⟩ <;>
        rw [hr] at hchunk
      · exact hchunk
      · exact hchunk.trans (ih (i + 1) _ node')
  exact hloop _ 0 ∅ node

end Alone

/-! ## The invariant -/

/-- Node `n` lists `p` as a holder of chunk `h`, or one of its tasks will. -/
def Listed (s : State) (n h p : String) : Prop :=
  p ∈ (s.nodes n).routing.getHolders h ∨ ∃ task ∈ s.tasks, task.node = n ∧ task.job.Lists h p

/-- Node `n` has sent chunk `h` to `p`. -/
def Sent (s : State) (n h p : String) : Prop :=
  ∃ f, (f ∈ s.flight ∨ f ∈ s.handled) ∧ f.sender = n ∧ f.receiver = p ∧ f.chunkHash = h

/-- Listed holders were sent the chunk, and who has handled a chunk stores it. -/
structure Inv (s : State) : Prop where
  nodeId : ∀ n, (s.nodes n).state.nodeId = n
  listed : ∀ n h p, Listed s n h p → p ≠ n → Sent s n h p
  stored : ∀ f ∈ s.handled, (s.nodes f.receiver).store.loadChunk f.chunkHash = some f.data

lemma inv_init (stores : String → LocalStore) : Inv (machine stores).init where
  nodeId n := rfl
  listed n h p := by
    rintro (hp | ⟨task, hmem, -⟩)
    · simp [machine] at hp
    · simp [machine] at hmem
  stored f hf := by simp [machine] at hf

lemma Inv.truthful {s : State} (hs : Inv s) (hflight : s.flight = []) : Truthful s := by
  intro n h p hp hne
  obtain ⟨f, hf, hsender, rfl, rfl⟩ := hs.listed n h p (Or.inl hp) hne
  rw [hflight] at hf
  have hhandled : f ∈ s.handled := hf.resolve_left (List.not_mem_nil)
  exact ⟨f, hhandled, hsender, rfl, rfl, hs.stored f hhandled⟩

@[simp] lemma receive_eq (node : Node) (msg : Value) : receive node msg = node := by
  unfold receive
  split <;> rfl

/-- A task that has just been started lists nothing. -/
lemma inv_start {s : State} {task : Task} (hs : Inv s)
    (htask : ∀ h p, ¬ task.job.Lists h p) : Inv { s with tasks := s.tasks ++ [task] } where
  nodeId := hs.nodeId
  stored := hs.stored
  listed n h p := by
    rintro (hp | ⟨task', hmem, hn, hl⟩) hne
    · exact hs.listed n h p (Or.inl hp) hne
    · rcases List.mem_append.1 hmem with hmem | hmem
      · exact hs.listed n h p (Or.inr ⟨task', hmem, hn, hl⟩) hne
      · rw [List.mem_singleton.1 hmem] at hl
        exact (htask h p hl).elim

lemma inv_resume {s : State} {i : ℕ} {task : Task} {event : Event} {node : Node} {job : Job}
    {frames : List Frame} (hs : Inv s) (htask : s.tasks[i]? = some task)
    (hr : Resumed task.k (s.nodes task.node) task.job event node job frames)
    (hharmless : HarmlessEvent s task event) :
    Inv { s.setNode task.node node with
      tasks := s.tasks.set i { task with job }
      flight := s.flight ++ frames } := by
  have hmem : task ∈ s.tasks := List.mem_of_getElem? htask
  have hroute : ∀ q timestamp, event = .connected (some q) timestamp →
      task.job.target? = some q := by
    rintro q timestamp rfl
    exact hharmless
  have hmono {n h p : String} (hl : Listed s n h p) (hne : p ≠ n) :
      Sent { s.setNode task.node node with
        tasks := s.tasks.set i { task with job }
        flight := s.flight ++ frames } n h p := by
    obtain ⟨f, hf, hfeq⟩ := hs.listed n h p hl hne
    exact ⟨f, hf.imp_left (List.mem_append_left _), hfeq⟩
  -- what the step adds to a list is the receiver of a frame that it puts in flight
  have hnew {h p : String} (hl : p ∈ node.routing.getHolders h ∨ job.Lists h p)
      (hne : p ≠ task.node) : Sent { s.setNode task.node node with
        tasks := s.tasks.set i { task with job }
        flight := s.flight ++ frames } task.node h p := by
    have horigin := hr.origin hroute hl
    rw [hs.nodeId] at horigin
    rcases horigin with hp | hp | hl | ⟨f, hf, hsender, hreceiver, hhash⟩
    · exact absurd hp hne
    · exact hmono (Or.inl hp) hne
    · exact hmono (Or.inr ⟨task, hmem, rfl, hl⟩) hne
    · exact ⟨f, Or.inl (List.mem_append_right _ hf), hsender, hreceiver, hhash⟩
  constructor
  · intro n
    by_cases hn : n = task.node
    · subst hn
      simp only [State.setNode, Function.update_self]
      rw [hr.node.1]
      exact hs.nodeId _
    · simp only [State.setNode, Function.update_of_ne hn]
      exact hs.nodeId n
  · rintro n h p (hp | ⟨task', hmem', rfl, hl⟩) hne
    · by_cases hn : n = task.node
      · subst hn
        simp only [State.setNode, Function.update_self] at hp
        exact hnew (Or.inl hp) hne
      · simp only [State.setNode, Function.update_of_ne hn] at hp
        exact hmono (Or.inl hp) hne
    · rcases List.mem_or_eq_of_mem_set hmem' with hmem' | rfl
      · exact hmono (Or.inr ⟨task', hmem', rfl, hl⟩) hne
      · exact hnew (Or.inr hl) hne
  · intro f hf
    by_cases hn : f.receiver = task.node
    · simp only [State.setNode, hn, Function.update_self]
      rcases hr.node.2 with hstore | ⟨c, rfl, hc, hstore⟩
      · rw [hstore, ← hn]
        exact hs.stored f hf
      · rw [hstore, LocalStore.loadChunk_saveChunk]
        split
        · next hh => rw [hharmless c hc f hf hn hh]
        · rw [← hn]
          exact hs.stored f hf
    · simp only [State.setNode, Function.update_of_ne hn]
      exact hs.stored f hf

lemma eq_or_mem_eraseIdx {α : Type} {l : List α} {j : ℕ} {x y : α} (hx : l[j]? = some x)
    (hy : y ∈ l) : y = x ∨ y ∈ l.eraseIdx j := by
  obtain ⟨i, hi⟩ := List.mem_iff_getElem?.1 hy
  by_cases hij : i = j
  · rw [hij, hx, Option.some.injEq] at hi
    exact Or.inl hi.symm
  · exact Or.inr (List.mem_eraseIdx_iff_getElem?.2 ⟨i, hij, hi⟩)

lemma inv_deliver {s : State} {j : ℕ} {f : Frame} (hs : Inv s) (hf : s.flight[j]? = some f)
    (hharmless : (s.nodes f.receiver).store.loadChunk f.chunkHash = some f.data) :
    Inv { s with flight := s.flight.eraseIdx j, handled := s.handled ++ [f] } where
  nodeId := hs.nodeId
  listed n h p hl hne := by
    obtain ⟨f', hf', hfeq⟩ := hs.listed n h p hl hne
    refine ⟨f', ?_, hfeq⟩
    rcases hf' with hf' | hf'
    · rcases eq_or_mem_eraseIdx hf hf' with rfl | hf'
      · exact Or.inr (List.mem_append_right _ (List.mem_singleton_self _))
      · exact Or.inl hf'
    · exact Or.inr (List.mem_append_left _ hf')
  stored f' hf' := by
    rcases List.mem_append.1 hf' with hf' | hf'
    · exact hs.stored f' hf'
    · rw [List.mem_singleton.1 hf']
      exact hharmless

lemma inv_step {s t : State} {l : Label} (hs : Inv s) (h : exec s l = some t)
    (hl : Calm l ∧ Harmless s l) : Inv t := by
  cases l with
  | replicate n k manifest chunkDataList =>
    cases h
    exact inv_start hs fun _ _ hlists => hlists
  | heal n k =>
    cases h
    exact inv_start hs fun _ _ hlists => hlists
  | resume i event =>
    obtain ⟨task, htask, h⟩ := Option.bind_eq_some_iff.1 h
    obtain ⟨⟨node, job, frames⟩, hr, h⟩ := Option.bind_eq_some_iff.1 h
    cases h
    exact inv_resume hs htask (resumed_of_resume hr) (hl.2 task htask)
  | deliver j =>
    obtain ⟨f, hf, h⟩ := Option.bind_eq_some_iff.1 h
    cases h
    simp only [State.setNode, receive_eq, Function.update_eq_self]
    exact inv_deliver hs hf (hl.2 f hf)
  | lose j => exact hl.1.elim
  | evict n chunkHash => exact hl.1.elim

/-- The routing tables are right whenever no frame is in flight, throughout every calm run in
which each message is for a node that already stores its chunk, a connection for a peer leads to
this peer, and no save changes a chunk that the node was sent before. -/
theorem truthful_of_harmless (stores : String → LocalStore) {ls : List Label}
    (h : (machine stores).Meets (fun s l => Calm l ∧ Harmless s l) (machine stores).init ls) :
    (machine stores).Always (fun s => s.flight = [] → Truthful s) (machine stores).init ls := by
  have hinv : (machine stores).Always Inv (machine stores).init ls :=
    Machine.always_of_meets (fun s l t hs ht hC => inv_step hs ht hC) (inv_init stores) h
  exact hinv.imp fun s hs hflight => hs.truthful hflight

/-! ## A file of one byte -/

section OneByte

def zeroHash : String := "6e340b9cffb37a989ca544e6bb780a2c78901d3fb33738768511a30617afa01d"

/-- The manifest of a file with the one byte 0. -/
def zeroFile : FileManifest where
  originalFilename := "zero.bin"
  originalSize := 1
  fileHash := zeroHash
  chunkSize := 262144
  chunks := [{ index := 0, chunkHash := zeroHash, size := 1 }]

/-- Task `i` is a run of `replicate_chunks` on `bb`, which knows no other node. -/
def replicateOnB (i : ℕ) : List Label :=
  [.replicate "bb" 3 zeroFile [[0]], .resume i .next, .resume i (.alivePeers ∅), .resume i .next]

/-- Task `i` is a run of `replicate_chunks` on `aa`, which knows `bb`. -/
def replicateToB (i : ℕ) : List Label :=
  [.replicate "aa" 3 zeroFile [[0]], .resume i .next,
    .resume i (.alivePeers ((∅ : Dict String PeerInfo).set "bb"
      { nodeId := "bb", ip := "10.0.0.2", tcpPort := 50001 })),
    .resume i (.connected (some "bb") 0), .resume i (.drained true), .resume i .next,
    .resume i .next, .deliver 0]

/-- The frames in flight, the holders that `aa` lists and the chunk that `bb` stores. -/
def view (s : State) : List Frame × List String × Option Bytes :=
  (s.flight, (s.nodes "aa").routing.getHolders zeroHash,
    (s.nodes "bb").store.loadChunk zeroHash)

lemma exists_of_view {o : Option State} {flight : List Frame} {holders : List String}
    {stored : Option Bytes} (h : o.map view = some (flight, holders, stored)) :
    ∃ s, o = some s ∧ s.flight = flight ∧
      (s.nodes "aa").routing.getHolders zeroHash = holders ∧
      (s.nodes "bb").store.loadChunk zeroHash = stored := by
  obtain ⟨s, hs, hview⟩ := Option.map_eq_some_iff.1 h
  simp only [view, Prod.mk.injEq] at hview
  exact ⟨s, hs, hview⟩

/-- When `bb` has replicated the file as well, `aa` lists it rightly. -/
theorem truthful_of_harmless_both : ∃ s,
    (machine fun _ => ∅).run (machine fun _ => ∅).init (replicateOnB 0 ++ replicateToB 1) =
      some s ∧ s.flight = [] ∧ "bb" ∈ (s.nodes "aa").routing.getHolders zeroHash ∧
      Truthful s := by
  have hmeets : (machine fun _ => ∅).Meets (fun s l => Calm l ∧ Harmless s l)
      (machine fun _ => ∅).init (replicateOnB 0 ++ replicateToB 1) := by decide +kernel
  have hview : ((machine fun _ => ∅).run (machine fun _ => ∅).init
      (replicateOnB 0 ++ replicateToB 1)).map view = some ([], ["aa", "bb"], some [0]) := by
    decide +kernel
  obtain ⟨s, hs, hflight, hholders, -⟩ := exists_of_view hview
  have htruthful : Truthful s := (truthful_of_harmless _ hmeets).last hs hflight
  exact ⟨s, hs, hflight, by rw [hholders]; decide, htruthful⟩

/-- **A node lists replicas that were never stored**: `aa` sends the file to `bb`, which writes
the message to its log, and lists it as a holder. -/
theorem unstored_replica_listed : ¬ ∀ stores, AlwaysTruthful stores := by
  intro hall
  have hcalm : (machine fun _ => ∅).Meets (fun _ l => Calm l) (machine fun _ => ∅).init
      (replicateToB 0) := by decide +kernel
  have hview : ((machine fun _ => ∅).run (machine fun _ => ∅).init (replicateToB 0)).map view =
      some ([], ["aa", "bb"], none) := by decide +kernel
  obtain ⟨s, hs, hflight, hholders, hstored⟩ := exists_of_view hview
  have hlisted : "bb" ∈ (s.nodes "aa").routing.getHolders zeroHash := by
    rw [hholders]
    decide
  have htruthful : Truthful s := (hall _ _ hcalm).last hs hflight
  obtain ⟨f, -, -, -, -, hload⟩ := htruthful "aa" zeroHash "bb" hlisted (by decide)
  rw [hstored] at hload
  cases hload

end OneByte

end DistriStore.Replicas
