import DistriStore.Lib.Table
import DistriStore.Node.Replicas

/-!
# Records of replicas under concurrent writes

`replicate_chunks` and `_check_and_heal` collect the peers that a chunk was sent to in a list of
their own, while other tasks run, and then overwrite the entry of the chunk with this list.  An
observer notes every send that succeeds.  A note is accounted for as long as the peer stands in
the entry of the chunk or on the list of a task that will write the entry.

An overwrite keeps the notes when its list has every holder that the entry has at that moment
(`Job.KeepsEvent`), and then no record is lost (`no_record_lost`).  A task that wrote the entry
in the meantime breaks the condition: the last writer wins (`healing_loses_record`).
-/

namespace DistriStore.Replicas

open Lib

/-! ## Notes of the sends that succeeded -/

/-- Node `node` has sent a chunk to `peer`. -/
structure Record where
  node : String
  chunkHash : String
  peer : String
  deriving DecidableEq

/-- The chunk that the task is writing to a connection, and the peer. -/
def Job.sending? : Job → Option (String × String)
  | .draining t _ => t.targets.head?.map fun p => (t.chunkHash, p)
  | _ => none

/-- The observer notes a send when it returns. -/
def note (records : List Record) (s : State) (l : Label) (_ : State) : List Record :=
  match l with
  | .resume i (.drained true) =>
    match s.tasks[i]? with
    | some task => records ++
        (task.job.sending?.map fun c => (⟨task.node, c.1, c.2⟩ : Record)).toList
    | none => records
  | _ => records

/-- The network with the notes. -/
def recording (stores : String → LocalStore) : Machine (State × List Record) Label :=
  (machine stores).observed [] note

def Job.isOver : Job → Bool
  | .returned _ => true
  | .healed => true
  | .raised => true
  | _ => false

/-- When the tasks of a node are over, its routing table has every record. -/
def NoRecordLost (x : State × List Record) : Prop :=
  ∀ r ∈ x.2, (∀ task ∈ x.1.tasks, task.node = r.node → task.job.isOver = true) →
    r.peer ∈ (x.1.nodes r.node).routing.getHolders r.chunkHash

/-! ## Conditions on the steps -/

/-- The peers are alive: `get_alive_peers` returns all of them, and sends are to them only. -/
def AliveEvent (peers : List String) (task : Task) : Event → Prop
  | .alivePeers answer => ∀ p ∈ peers, p ∈ answer.keys
  | .connected (some _) _ => ∀ p ∈ task.job.target?, p ∈ peers
  | _ => True

/-- The peers `involved n` of each node `n` are alive throughout. -/
def AliveThroughout (involved : String → List String) (s : State) : Label → Prop
  | .resume i event => ∀ task ∈ s.tasks[i]?, AliveEvent (involved task.node) task event
  | _ => True

/-- The entry that the task is about to assign. -/
def Job.assigning? (nodeId : String) : Job → Option (String × List String)
  | .sending t (.replicate ..) => some (t.chunkHash, nodeId :: t.holders)
  | .sending t (.heal ..) => some (t.chunkHash, t.holders)
  | _ => none

/-- The chunk that the task is sending, and its list of holders so far. -/
def Job.holding? : Job → Option (String × List String)
  | .sending t _ => some (t.chunkHash, t.holders)
  | .draining t _ => some (t.chunkHash, t.holders)
  | _ => none

/-- An entry is overwritten by a list with all of its holders, and a task that breaks off has its
holders in the entry. -/
def Job.KeepsEvent (node : Node) (job : Job) : Event → Prop
  | .next => ∀ e ∈ job.assigning? node.state.nodeId, ∀ p ∈ node.routing.getHolders e.1, p ∈ e.2
  | .raised => ∀ e ∈ job.holding?, ∀ p ∈ e.2, p ∈ node.routing.getHolders e.1
  | _ => True

def Keeps (s : State) : Label → Prop
  | .resume i event => ∀ task ∈ s.tasks[i]?, task.job.KeepsEvent (s.nodes task.node) event
  | _ => True

instance (peers : List String) (task : Task) : DecidablePred (AliveEvent peers task)
  | .alivePeers answer => inferInstanceAs (Decidable (∀ p ∈ peers, p ∈ answer.keys))
  | .connected (some _) _ =>
    inferInstanceAs (Decidable (∀ p ∈ task.job.target?, p ∈ peers))
  | .connected none _ => .isTrue trivial
  | .next => .isTrue trivial
  | .drained _ => .isTrue trivial
  | .raised => .isTrue trivial

instance (involved : String → List String) (s : State) :
    DecidablePred (AliveThroughout involved s)
  | .resume i event => inferInstanceAs
      (Decidable (∀ task ∈ s.tasks[i]?, AliveEvent (involved task.node) task event))
  | .replicate .. => .isTrue trivial
  | .heal .. => .isTrue trivial
  | .deliver _ => .isTrue trivial
  | .lose _ => .isTrue trivial
  | .evict .. => .isTrue trivial

instance (node : Node) (job : Job) : DecidablePred (job.KeepsEvent node)
  | .next => inferInstanceAs (Decidable (∀ e ∈ job.assigning? node.state.nodeId,
      ∀ p ∈ node.routing.getHolders e.1, p ∈ e.2))
  | .raised => inferInstanceAs (Decidable (∀ e ∈ job.holding?,
      ∀ p ∈ e.2, p ∈ node.routing.getHolders e.1))
  | .alivePeers _ => .isTrue trivial
  | .connected .. => .isTrue trivial
  | .drained _ => .isTrue trivial

instance (s : State) : DecidablePred (Keeps s)
  | .resume i event => inferInstanceAs
      (Decidable (∀ task ∈ s.tasks[i]?, task.job.KeepsEvent (s.nodes task.node) event))
  | .replicate .. => .isTrue trivial
  | .heal .. => .isTrue trivial
  | .deliver _ => .isTrue trivial
  | .lose _ => .isTrue trivial
  | .evict .. => .isTrue trivial

/-! ## One step of a task -/

/-- The task has `p` on its list of holders of chunk `h`. -/
def Job.Holds (h p : String) (job : Job) : Prop := ∃ e ∈ job.holding?, e.1 = h ∧ p ∈ e.2

lemma not_holds_of_isOver {job : Job} {h p : String} (hover : job.isOver = true) :
    ¬ job.Holds h p := by
  rintro ⟨e, he, -⟩
  cases job <;> simp_all [Job.isOver, Job.holding?]

/-- The send that returns puts its target on the list. -/
lemma resume_drained {k : ℕ} {node node' : Node} {job job' : Job} {ok : Bool}
    {frames : List Frame}
    (h : job.resume k node (.drained ok) = some (node', job', frames)) :
    ∃ t l p rest, job = .draining t l ∧ t.targets = p :: rest ∧ node' = node ∧
      job' = .sending
        { t with targets := rest, holders := if ok then t.holders ++ [p] else t.holders } l := by
  cases job with
  | draining t l =>
    simp only [Job.resume] at h
    split at h
    · cases h
    · next p rest heq =>
      cases h
      exact ⟨t, l, p, rest, rfl, heq, rfl, rfl⟩
  | _ => cases h

/-- A step keeps the notes that the entries and the task account for. -/
lemma keeps_of_resume {k : ℕ} {node node' : Node} {job job' : Job} {event : Event}
    {frames : List Frame} (hr : job.resume k node event = some (node', job', frames))
    {h p : String}
    (halive : ∀ peers, event = .alivePeers peers → p ∈ node.routing.getHolders h →
      p ∈ node.state.nodeId :: peers.keys)
    (hkeeps : job.KeepsEvent node event)
    (hp : p ∈ node.routing.getHolders h ∨ job.Holds h p) :
    p ∈ node'.routing.getHolders h ∨ job'.Holds h p := by
  cases resumed_of_resume hr with
  | raised =>
    rcases hp with hp | ⟨e, he, rfl, hp⟩
    · exact Or.inl hp
    · exact Or.inl (hkeeps e he p hp)
  | next l =>
    rw [routing_nextChunk]
    refine Or.inl (hp.resolve_right ?_)
    rintro ⟨e, he, -⟩
    cases he
  | selected =>
    refine Or.inl (hp.resolve_right ?_)
    rintro ⟨e, he, -⟩
    cases he
  | checked peers =>
    have hentry : p ∈ node.routing.getHolders h := by
      refine hp.resolve_right ?_
      rintro ⟨e, he, -⟩
      cases he
    exact Or.inl (mem_getHolders_pass hentry (halive peers rfl hentry))
  | ended t l =>
    -- both ways: what the entry had is on the list, by the condition, and what the list has goes
    -- into the entry
    have hassign {ids : List String} (hsub : ∀ p ∈ node.routing.getHolders t.chunkHash, p ∈ ids)
        (hholders : ∀ p ∈ t.holders, p ∈ ids) :
        p ∈ (node.routing.assignChunk t.chunkHash ids).getHolders h := by
      rw [RoutingTable.getHolders_assignChunk]
      rcases hp with hp | ⟨e, he, rfl, hp⟩
      · split
        · next hh => exact hsub p (hh ▸ hp)
        · exact hp
      · cases he
        rw [if_pos rfl]
        exact hholders p hp
    cases l with
    | replicate fileHash rest results =>
      exact Or.inl (hassign (hkeeps _ rfl) fun p hp => List.mem_cons_of_mem _ hp)
    | heal alivePeers rest => exact Or.inl (hassign (hkeeps _ rfl) fun p hp => hp)
  | skipped => exact hp
  | sent => exact hp
  | drained t l q rest ok holders htargets hholders =>
    obtain ⟨t', l', p', rest', hjob, -, -, hjob'⟩ := resume_drained hr
    cases hjob
    rw [hjob']
    refine hp.imp_right ?_
    rintro ⟨e, he, rfl, hmem⟩
    cases he
    refine ⟨_, rfl, rfl, ?_⟩
    cases ok with
    | true => exact List.mem_append_left _ hmem
    | false => exact hmem

/-- What is noted at the end of a send is on the list of the task. -/
lemma holds_of_sending {k : ℕ} {node node' : Node} {job job' : Job} {frames : List Frame}
    (hr : job.resume k node (.drained true) = some (node', job', frames)) {c : String × String}
    (hc : c ∈ job.sending?) : job'.Holds c.1 c.2 := by
  obtain ⟨t, l, p, rest, rfl, htargets, -, rfl⟩ := resume_drained hr
  simp only [Job.sending?, htargets, List.head?_cons, Option.map_some, Option.mem_some_iff] at hc
  subst hc
  exact ⟨_, rfl, rfl, List.mem_append_right _ (List.mem_singleton_self _)⟩

/-! ## The invariant -/

/-- The entry of the chunk has the peer, or the list of a task has it. -/
def Accounted (s : State) (r : Record) : Prop :=
  r.peer ∈ (s.nodes r.node).routing.getHolders r.chunkHash ∨
    ∃ task ∈ s.tasks, task.node = r.node ∧ task.job.Holds r.chunkHash r.peer

/-- Only involved peers are listed, and all notes are accounted for. -/
structure Recording (involved : String → List String) (x : State × List Record) : Prop where
  nodeId : ∀ n, (x.1.nodes n).state.nodeId = n
  involved : ∀ n h p, Listed x.1 n h p → p = n ∨ p ∈ involved n
  accounted : ∀ r ∈ x.2, Accounted x.1 r

variable {involved : String → List String}

lemma recording_init (stores : String → LocalStore) :
    Recording involved (recording stores).init where
  nodeId n := rfl
  involved n h p := by
    rintro (hp | ⟨task, hmem, -⟩)
    · simp [recording, Machine.observed, machine] at hp
    · simp [recording, Machine.observed, machine] at hmem
  accounted r hr := by simp [recording, Machine.observed] at hr

lemma Recording.noRecordLost {x : State × List Record} (hx : Recording involved x) :
    NoRecordLost x := by
  intro r hr hover
  rcases hx.accounted r hr with hp | ⟨task, hmem, hn, hholds⟩
  · exact hp
  · exact absurd hholds (not_holds_of_isOver (hover task hmem hn))

/-- A step that leaves the tasks and the routing tables alone. -/
lemma Recording.frame {x : State × List Record} (hx : Recording involved x) {s : State}
    (htasks : s.tasks = x.1.tasks) (hid : ∀ n, (s.nodes n).state = (x.1.nodes n).state)
    (hrouting : ∀ n, (s.nodes n).routing = (x.1.nodes n).routing) :
    Recording involved (s, x.2) where
  nodeId n := by rw [hid]; exact hx.nodeId n
  involved n h p hl := by
    rw [Listed, htasks, hrouting] at hl
    exact hx.involved n h p hl
  accounted r hr := by
    rw [Accounted, htasks, hrouting]
    exact hx.accounted r hr

/-- A task that has just been started lists nothing. -/
lemma Recording.start {x : State × List Record} (hx : Recording involved x) {task : Task}
    (htask : ∀ h p, ¬ task.job.Lists h p) :
    Recording involved ({ x.1 with tasks := x.1.tasks ++ [task] }, x.2) where
  nodeId := hx.nodeId
  involved n h p := by
    rintro (hp | ⟨task', hmem, hn, hl⟩)
    · exact hx.involved n h p (Or.inl hp)
    · rcases List.mem_append.1 hmem with hmem | hmem
      · exact hx.involved n h p (Or.inr ⟨task', hmem, hn, hl⟩)
      · rw [List.mem_singleton.1 hmem] at hl
        exact (htask h p hl).elim
  accounted r hr := by
    rcases hx.accounted r hr with hp | ⟨task', hmem, hn, hholds⟩
    · exact Or.inl hp
    · exact Or.inr ⟨task', List.mem_append_left _ hmem, hn, hholds⟩

/-- The tables after a task has gone on: every note is accounted for. -/
lemma Recording.accounted_resume {x : State × List Record} (hx : Recording involved x) {i : ℕ}
    {task : Task} {event : Event} {node : Node} {job : Job} {frames : List Frame}
    (htask : x.1.tasks[i]? = some task)
    (hr : task.job.resume task.k (x.1.nodes task.node) event = some (node, job, frames))
    (halive : AliveEvent (involved task.node) task event)
    (hkeeps : task.job.KeepsEvent (x.1.nodes task.node) event) {r : Record}
    (hacc : Accounted x.1 r) :
    Accounted { x.1.setNode task.node node with
      tasks := x.1.tasks.set i { task with job }
      flight := x.1.flight ++ frames } r := by
  have hset : { task with job } ∈ x.1.tasks.set i { task with job } :=
    List.mem_set (List.getElem?_eq_some_iff.1 htask).1 _
  by_cases hn : r.node = task.node
  · have hstep (hp : r.peer ∈ (x.1.nodes task.node).routing.getHolders r.chunkHash ∨
        task.job.Holds r.chunkHash r.peer) :
        r.peer ∈ node.routing.getHolders r.chunkHash ∨ job.Holds r.chunkHash r.peer := by
      refine keeps_of_resume hr ?_ hkeeps hp
      rintro peers rfl hp
      rw [hx.nodeId]
      rcases hx.involved task.node r.chunkHash r.peer (Or.inl hp) with hp | hp
      · exact hp ▸ List.mem_cons_self ..
      · exact List.mem_cons_of_mem _ (halive _ hp)
    have hnew (hp : r.peer ∈ node.routing.getHolders r.chunkHash ∨
        job.Holds r.chunkHash r.peer) : Accounted { x.1.setNode task.node node with
          tasks := x.1.tasks.set i { task with job }
          flight := x.1.flight ++ frames } r := by
      rcases hp with hp | hp
      · refine Or.inl ?_
        simp only [State.setNode, hn, Function.update_self]
        exact hp
      · exact Or.inr ⟨_, hset, hn.symm, hp⟩
    rcases hacc with hp | ⟨task', hmem, hn', hholds⟩
    · exact hnew (hstep (Or.inl (hn ▸ hp)))
    · rcases eq_or_mem_set htask hmem { task with job } with rfl | hmem'
      · exact hnew (hstep (Or.inr hholds))
      · exact Or.inr ⟨task', hmem', hn', hholds⟩
  · rcases hacc with hp | ⟨task', hmem, hn', hholds⟩
    · refine Or.inl ?_
      simp only [State.setNode, Function.update_of_ne hn]
      exact hp
    · rcases eq_or_mem_set htask hmem { task with job } with rfl | hmem'
      · exact absurd hn'.symm hn
      · exact Or.inr ⟨task', hmem', hn', hholds⟩

/-- A task that goes on lists only involved peers. -/
lemma Recording.involved_resume {x : State × List Record} (hx : Recording involved x) {i : ℕ}
    {task : Task} {event : Event} {node : Node} {job : Job} {frames : List Frame}
    (htask : x.1.tasks[i]? = some task)
    (hr : task.job.resume task.k (x.1.nodes task.node) event = some (node, job, frames))
    (halive : AliveEvent (involved task.node) task event) {n h p : String}
    (hl : Listed { x.1.setNode task.node node with
      tasks := x.1.tasks.set i { task with job }
      flight := x.1.flight ++ frames } n h p) : p = n ∨ p ∈ involved n := by
  have hmem : task ∈ x.1.tasks := List.mem_of_getElem? htask
  have hnew (hl : p ∈ node.routing.getHolders h ∨ job.Lists h p) :
      p = task.node ∨ p ∈ involved task.node := by
    rcases (resumed_of_resume hr).listed hl with hp | hp | hl | ⟨q, timestamp, rfl, hp, -⟩
    · exact Or.inl (hp.trans (hx.nodeId _))
    · exact hx.involved _ h p (Or.inl hp)
    · exact hx.involved _ h p (Or.inr ⟨task, hmem, rfl, hl⟩)
    · exact Or.inr (halive p hp)
  rcases hl with hp | ⟨task', hmem', rfl, hl⟩
  · by_cases hn : n = task.node
    · subst hn
      simp only [State.setNode, Function.update_self] at hp
      exact hnew (Or.inl hp)
    · simp only [State.setNode, Function.update_of_ne hn] at hp
      exact hx.involved n h p (Or.inl hp)
  · rcases List.mem_or_eq_of_mem_set hmem' with hmem' | rfl
    · exact hx.involved _ h p (Or.inr ⟨task', hmem', rfl, hl⟩)
    · exact hnew (Or.inr hl)

/-- A note is an old one, or of the send that has just returned. -/
lemma mem_note_resume {records : List Record} {s t : State} {i : ℕ} {task : Task} {event : Event}
    {r : Record} (htask : s.tasks[i]? = some task)
    (hr : r ∈ note records s (.resume i event) t) :
    r ∈ records ∨ event = .drained true ∧ r.node = task.node ∧
      (r.chunkHash, r.peer) ∈ task.job.sending? := by
  unfold note at hr
  split at hr
  · next j heq =>
    cases heq
    rw [htask] at hr
    rcases List.mem_append.1 hr with hr | hr
    · exact Or.inl hr
    · obtain ⟨c, hc, rfl⟩ := Option.map_eq_some_iff.1 (Option.mem_toList.1 hr)
      exact Or.inr ⟨rfl, rfl, hc⟩
  · exact Or.inl hr

lemma recording_resume {x : State × List Record} (hx : Recording involved x) {i : ℕ}
    {task : Task} {event : Event} {node : Node} {job : Job} {frames : List Frame}
    (htask : x.1.tasks[i]? = some task)
    (hr : task.job.resume task.k (x.1.nodes task.node) event = some (node, job, frames))
    (halive : AliveEvent (involved task.node) task event)
    (hkeeps : task.job.KeepsEvent (x.1.nodes task.node) event) (t : State)
    (ht : t = { x.1.setNode task.node node with
      tasks := x.1.tasks.set i { task with job }
      flight := x.1.flight ++ frames }) :
    Recording involved (t, note x.2 x.1 (.resume i event) t) where
  nodeId n := by
    subst ht
    by_cases hn : n = task.node
    · subst hn
      simp only [State.setNode, Function.update_self]
      rw [(resumed_of_resume hr).node.1]
      exact hx.nodeId _
    · simp only [State.setNode, Function.update_of_ne hn]
      exact hx.nodeId n
  involved n h p hl := hx.involved_resume htask hr halive (ht ▸ hl)
  accounted r hmem := by
    have hcases := mem_note_resume htask (show r ∈ note x.2 x.1 (.resume i event) t from hmem)
    subst ht
    rcases hcases with hold | ⟨rfl, hn, hsending⟩
    · exact hx.accounted_resume htask hr halive hkeeps (hx.accounted r hold)
    · have hset : { task with job } ∈ x.1.tasks.set i { task with job } :=
        List.mem_set (List.getElem?_eq_some_iff.1 htask).1 _
      exact Or.inr ⟨_, hset, hn.symm, holds_of_sending hr hsending⟩

lemma recording_step (stores : String → LocalStore) {x y : State × List Record} {l : Label}
    (hx : Recording involved x) (h : (recording stores).exec x l = some y)
    (hl : AliveThroughout involved x.1 l ∧ Keeps x.1 l) : Recording involved y := by
  obtain ⟨hexec, hnote⟩ := Machine.exec_observed h
  obtain ⟨t, records⟩ := y
  dsimp only at hexec hnote
  subst hnote
  cases l with
  | replicate n k manifest chunkDataList =>
    cases hexec
    exact hx.start fun _ _ hlists => hlists
  | heal n k =>
    cases hexec
    exact hx.start fun _ _ hlists => hlists
  | resume i event =>
    obtain ⟨task, htask, hexec⟩ := Option.bind_eq_some_iff.1 hexec
    obtain ⟨⟨node, job, frames⟩, hr, hexec⟩ := Option.bind_eq_some_iff.1 hexec
    exact recording_resume hx htask hr (hl.1 task htask) (hl.2 task htask) t
      (Option.some.inj hexec).symm
  | deliver j =>
    obtain ⟨f, hf, hexec⟩ := Option.bind_eq_some_iff.1 hexec
    cases hexec
    exact hx.frame rfl (by simp [State.setNode]) (by simp [State.setNode])
  | lose j =>
    obtain ⟨f, hf, hexec⟩ := Option.bind_eq_some_iff.1 hexec
    cases hexec
    exact hx.frame rfl (fun _ => rfl) (fun _ => rfl)
  | evict n chunkHash =>
    cases hexec
    refine hx.frame rfl (fun m => ?_) fun m => ?_ <;>
    · by_cases hm : m = n
      · subst hm
        simp [State.setNode]
      · simp [State.setNode, Function.update_of_ne hm]

/-- **No record is lost** between replication and healing, for any interleaving of any number of
tasks whose peers are alive throughout, if each entry that is overwritten has all its holders on
the new list, and a task that breaks off has its holders in the entry. -/
theorem no_record_lost (stores : String → LocalStore) (involved : String → List String)
    {ls : List Label}
    (h : (recording stores).Meets (fun x l => AliveThroughout involved x.1 l ∧ Keeps x.1 l)
      (recording stores).init ls) :
    (recording stores).Always NoRecordLost (recording stores).init ls := by
  have hinv : (recording stores).Always (Recording involved) (recording stores).init ls :=
    Machine.always_of_meets (fun x l y hx hy hC => recording_step stores hx hy hC)
      (recording_init stores) h
  exact hinv.imp fun x hx => hx.noRecordLost

/-! ## Three tasks on one node -/

section ThreeTasks

def Label.isHeal : Label → Bool
  | .heal .. => true
  | _ => false

/-- With one cycle of self-healing and all peers alive, no record is lost. -/
def NeverLosesRecord (stores : String → LocalStore) : Prop :=
  ∀ (involved : String → List String) (ls : List Label), (ls.filter Label.isHeal).length ≤ 1 →
    (recording stores).Meets (fun x l => AliveThroughout involved x.1 l)
      (recording stores).init ls →
    (recording stores).Always NoRecordLost (recording stores).init ls

/-- The peers of `aa`. -/
def bothPeers : Dict String PeerInfo :=
  ((∅ : Dict String PeerInfo).set "bb" { nodeId := "bb", ip := "10.0.0.2", tcpPort := 50001 }).set
    "cc" { nodeId := "cc", ip := "10.0.0.3", tcpPort := 50001 }

/-- Task `i` of `aa` replicates the file and sends it to both peers. -/
def replicateToBoth (i : ℕ) : List Label :=
  [.replicate "aa" 3 zeroFile [[0]], .resume i .next, .resume i (.alivePeers bothPeers),
    .resume i (.connected (some "bb") 0), .resume i (.drained true),
    .resume i (.connected (some "cc") 0), .resume i (.drained true), .resume i .next,
    .resume i .next]

/-- Task `i` of `aa` replicates the file, but only `bb` is reached. -/
def replicateToFirst (i : ℕ) : List Label :=
  [.replicate "aa" 3 zeroFile [[0]], .resume i .next, .resume i (.alivePeers bothPeers),
    .resume i (.connected (some "bb") 0), .resume i (.drained true),
    .resume i (.connected none 0), .resume i .next, .resume i .next]

/-- A cycle of self-healing reads the entry and dials the peer that is missing. -/
def healBegins (i : ℕ) : List Label :=
  [.heal "aa" 3, .resume i (.alivePeers bothPeers), .resume i .next]

/-- The peer is reached, or not. -/
def healEnds (i : ℕ) (reached : Bool) : List Label :=
  (if reached then [.resume i (.connected (some "cc") 0), .resume i (.drained true)]
    else [.resume i (.connected none 0)]) ++ [.resume i .next, .resume i .next]

/-- What is noted, what `aa` lists and whether all tasks are over. -/
def recordView (x : State × List Record) : List Record × List String × Bool :=
  (x.2, (x.1.nodes "aa").routing.getHolders zeroHash, x.1.tasks.all fun task => task.job.isOver)

lemma exists_of_recordView {o : Option (State × List Record)} {records : List Record}
    {holders : List String} {allOver : Bool}
    (h : o.map recordView = some (records, holders, allOver)) :
    ∃ x, o = some x ∧ x.2 = records ∧ (x.1.nodes "aa").routing.getHolders zeroHash = holders ∧
      (x.1.tasks.all fun task => task.job.isOver) = allOver := by
  obtain ⟨x, hx, hview⟩ := Option.map_eq_some_iff.1 h
  simp only [recordView, Prod.mk.injEq] at hview
  exact ⟨x, hx, hview⟩

/-- The three tasks one after another: the cycle adds `cc`, and the second upload writes the same
entry again. -/
theorem no_record_lost_inTurn : ∃ x,
    (recording fun _ => ∅).run (recording fun _ => ∅).init
      (replicateToFirst 0 ++ healBegins 1 ++ healEnds 1 true ++ replicateToBoth 2) = some x ∧
    x.2.map Record.peer = ["bb", "cc", "bb", "cc"] ∧
    (x.1.tasks.all fun task => task.job.isOver) = true ∧ NoRecordLost x := by
  have hmeets : (recording fun _ => ∅).Meets
      (fun x l => AliveThroughout (fun _ => ["bb", "cc"]) x.1 l ∧ Keeps x.1 l)
      (recording fun _ => ∅).init
      (replicateToFirst 0 ++ healBegins 1 ++ healEnds 1 true ++ replicateToBoth 2) := by
    decide +kernel
  have hview : ((recording fun _ => ∅).run (recording fun _ => ∅).init
      (replicateToFirst 0 ++ healBegins 1 ++ healEnds 1 true ++ replicateToBoth 2)).map
        recordView = some ([⟨"aa", zeroHash, "bb"⟩, ⟨"aa", zeroHash, "cc"⟩,
          ⟨"aa", zeroHash, "bb"⟩, ⟨"aa", zeroHash, "cc"⟩], ["aa", "bb", "cc"], true) := by
    decide +kernel
  obtain ⟨x, hx, hrecords, -, hover⟩ := exists_of_recordView hview
  have hlost : NoRecordLost x := (no_record_lost _ _ hmeets).last hx
  exact ⟨x, hx, by rw [hrecords]; rfl, hover, hlost⟩

/-- **A healing cycle loses a record.** It reads the entry before a second upload has sent the
chunk to `cc`, and writes it, without `cc`, after that upload has. -/
theorem healing_loses_record : ¬ ∀ stores, NeverLosesRecord stores := by
  intro hall
  have halive : (recording fun _ => ∅).Meets
      (fun x l => AliveThroughout (fun _ => ["bb", "cc"]) x.1 l) (recording fun _ => ∅).init
      (replicateToFirst 0 ++ healBegins 1 ++ replicateToBoth 2 ++ healEnds 1 false) := by
    decide +kernel
  have hview : ((recording fun _ => ∅).run (recording fun _ => ∅).init
      (replicateToFirst 0 ++ healBegins 1 ++ replicateToBoth 2 ++ healEnds 1 false)).map
        recordView = some ([⟨"aa", zeroHash, "bb"⟩, ⟨"aa", zeroHash, "bb"⟩,
          ⟨"aa", zeroHash, "cc"⟩], ["aa", "bb"], true) := by
    decide +kernel
  obtain ⟨x, hx, hrecords, hholders, hover⟩ := exists_of_recordView hview
  have hlost : NoRecordLost x := (hall _ _ _ (by decide) halive).last hx
  have hmem : (⟨"aa", zeroHash, "cc"⟩ : Record) ∈ x.2 := by
    rw [hrecords]
    decide
  have hlisted : "cc" ∈ (x.1.nodes "aa").routing.getHolders zeroHash :=
    hlost _ hmem fun task htask _ => List.all_eq_true.1 hover task htask
  rw [hholders] at hlisted
  exact absurd hlisted (by decide)

end ThreeTasks

end DistriStore.Replicas
