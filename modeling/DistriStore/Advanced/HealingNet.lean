import DistriStore.Advanced.SelfHealing

/-!
# One healing cycle and what it asks of its net (`SelfHealingManager._check_and_heal`)

One cycle from its first line to its last, with no other task in between.  What it meets outside the
node is a `HealNet`: connections may be open or not, may come about or not, dialling and each send
may raise, with any dependence on what happened before.  The cycle keeps a log of the peers that it
tried, and the calls that it makes are those of the log (`recorded_checkAndHeal`).
-/

namespace DistriStore

open Lib

/-! ## The peers at the other end -/

/-- The connections of the node: `γ` is a connection, and `σ` what the outcomes depend on. -/
structure HealNet (σ γ : Type) where
  /-- `conn_mgr.connections.get(peer_id)`. -/
  connection : String → σ → Option γ × σ
  /-- `connect_to_peer(ip, port)`, which may raise (for a port that is none). -/
  connectToPeer : String → ℤ → σ → Except PyError (Option γ) × σ
  /-- `conn.send(store_chunk_msg(node_id, chunk_hash, chunk_data))`, and whether it returns. -/
  send : γ → String → String → Bytes → σ → Bool × σ

/-- How the attempt to send a chunk to a peer ended. -/
inductive SendOutcome where
  | unreachable
  | failed
  | sent
  /-- `connect_to_peer` raised. -/
  | raised (e : PyError)
  deriving DecidableEq, Repr

/-- The attempt to send a chunk to a peer. -/
structure SendAttempt where
  chunkHash : String
  data : Bytes
  peerId : String
  outcome : SendOutcome
  deriving DecidableEq, Repr

/-- How a cycle ends, the routing table that it leaves, and the log. -/
structure HealResult where
  ended : Except PyError Unit
  routing : RoutingTable
  log : List SendAttempt

/-- What a cycle reads and does not change. -/
structure HealContext where
  nodeId : String
  k : ℕ
  /-- `get_alive_peers()`. -/
  alivePeers : Dict String PeerInfo
  localStore : LocalStore

/-- `alive_ids`. -/
def HealContext.aliveIds (ctx : HealContext) : List String := ctx.nodeId :: ctx.alivePeers.keys

section

variable {σ γ : Type} (net : HealNet σ γ) (ctx : HealContext)

/-! ## The cycle -/

/-- A connection that is open, or a new one. -/
def connectionTo (peerId : String) (s : σ) : Except PyError (Option γ) × σ :=
  match net.connection peerId s with
  | (some conn, s) => (.ok (some conn), s)
  | (none, s) =>
    match ctx.alivePeers.get? peerId with
    | some peer => net.connectToPeer peer.ip peer.tcpPort s
    | none => (.ok none, s)

/-- The body of the loop over `new_targets`. -/
def sendToTarget (chunkHash : String) (data : Bytes) (peerId : String) (s : σ) : SendOutcome × σ :=
  match connectionTo net ctx peerId s with
  | (.error e, s) => (.raised e, s)
  | (.ok none, s) => (.unreachable, s)
  | (.ok (some conn), s) =>
    match net.send conn ctx.nodeId chunkHash data s with
    | (true, s) => (.sent, s)
    | (false, s) => (.failed, s)

/-- Send chunk to new targets: `alive_holders` at the end, and the log. -/
def sendToTargets (chunkHash : String) (data : Bytes) : List String → List String → σ →
    (Except PyError (List String) × List SendAttempt) × σ
  | [], aliveHolders, s => ((.ok aliveHolders, []), s)
  | peerId :: newTargets, aliveHolders, s =>
    match sendToTarget net ctx chunkHash data peerId s with
    | (.raised e, s) => ((.error e, [⟨chunkHash, data, peerId, .raised e⟩]), s)
    | (outcome, s) =>
      let aliveHolders := if outcome = .sent then aliveHolders ++ [peerId] else aliveHolders
      let (r, s) := sendToTargets chunkHash data newTargets aliveHolders s
      ((r.1, ⟨chunkHash, data, peerId, outcome⟩ :: r.2), s)

/-- The body of the loop over `under_replicated`. -/
def healChunk (routing : RoutingTable) (chunkHash : String) (aliveHolders : List String) (s : σ) :
    HealResult × σ :=
  match healTargets ctx.k ctx.alivePeers ctx.localStore chunkHash aliveHolders with
  | .error e => (⟨.error e, routing, []⟩, s)
  | .ok none => (⟨.ok (), routing, []⟩, s)
  | .ok (some (data, newTargets)) =>
    match sendToTargets net ctx chunkHash data newTargets aliveHolders s with
    | ((.error e, log), s) => (⟨.error e, routing, log⟩, s)
    | ((.ok aliveHolders, log), s) =>
      (⟨.ok (), routing.assignChunk chunkHash aliveHolders, log⟩, s)

/-- The loop over `under_replicated`. -/
def healChunks : List (String × List String) → RoutingTable → σ → HealResult × σ
  | [], routing, s => (⟨.ok (), routing, []⟩, s)
  | (chunkHash, aliveHolders) :: rest, routing, s =>
    match healChunk net ctx routing chunkHash aliveHolders s with
    | (⟨.error e, routing, log⟩, s) => (⟨.error e, routing, log⟩, s)
    | (⟨.ok _, routing, log⟩, s) =>
      let (r, s) := healChunks rest routing s
      ({ r with log := log ++ r.log }, s)

/-- Check for under-replicated chunks and re-replicate them. -/
def checkAndHeal (routing : RoutingTable) (s : σ) : HealResult × σ :=
  let found := underReplicated ctx.k ctx.aliveIds routing.getAll
  healChunks net ctx found (routing.assignAll found) s

end

section Equations

variable {σ γ : Type} {net : HealNet σ γ} {ctx : HealContext} {c : String} {data : Bytes}
  {p : String} {targets holders : List String} {s : σ}

lemma sendToTargets_raised {e : PyError} (h : (sendToTarget net ctx c data p s).1 = .raised e) :
    sendToTargets net ctx c data (p :: targets) holders s =
      ((.error e, [⟨c, data, p, .raised e⟩]), (sendToTarget net ctx c data p s).2) := by
  rw [sendToTargets]
  rcases hsend : sendToTarget net ctx c data p s with ⟨outcome, t⟩
  rw [hsend] at h
  cases h
  rfl

lemma sendToTargets_cons {outcome : SendOutcome}
    (h : (sendToTarget net ctx c data p s).1 = outcome) (hne : ∀ e, outcome ≠ .raised e) :
    sendToTargets net ctx c data (p :: targets) holders s =
      let r := sendToTargets net ctx c data targets
        (if outcome = .sent then holders ++ [p] else holders) (sendToTarget net ctx c data p s).2
      ((r.1.1, ⟨c, data, p, outcome⟩ :: r.1.2), r.2) := by
  rw [sendToTargets]
  rcases hsend : sendToTarget net ctx c data p s with ⟨outcome', t⟩
  obtain rfl : outcome' = outcome := by rw [← h, hsend]
  cases outcome' with
  | raised e => exact absurd rfl (hne e)
  | unreachable => rfl
  | failed => rfl
  | sent => rfl

end Equations

/-! ## What a cycle asks of its net -/

section Calls

variable {σ γ : Type}

/-- A call to the net, with its result. -/
inductive NetCall (γ : Type) where
  | connection (peerId : String) (conn : Option γ)
  | connectToPeer (ip : String) (port : ℤ) (result : Except PyError (Option γ))
  | send (conn : γ) (nodeId chunkHash : String) (data : Bytes) (ok : Bool)

/-- A net that writes down the calls made to it. -/
def HealNet.recorded (net : HealNet σ γ) : HealNet (σ × List (NetCall γ)) γ where
  connection peerId s :=
    let (conn, t) := net.connection peerId s.1
    (conn, t, s.2 ++ [.connection peerId conn])
  connectToPeer ip port s :=
    let (result, t) := net.connectToPeer ip port s.1
    (result, t, s.2 ++ [.connectToPeer ip port result])
  send conn nodeId chunkHash data s :=
    let (ok, t) := net.send conn nodeId chunkHash data s.1
    (ok, t, s.2 ++ [.send conn nodeId chunkHash data ok])

/-- The calls that look for a connection to a peer, and what they come to. -/
inductive Reached (ctx : HealContext) (peerId : String) :
    List (NetCall γ) → Except PyError (Option γ) → Prop where
  | connected (conn : γ) : Reached ctx peerId [.connection peerId (some conn)] (.ok (some conn))
  | dialled (peer : PeerInfo) (result : Except PyError (Option γ))
      (h : ctx.alivePeers.get? peerId = some peer) : Reached ctx peerId
        [.connection peerId none, .connectToPeer peer.ip peer.tcpPort result] result
  | unknown (h : ctx.alivePeers.get? peerId = none) :
      Reached ctx peerId [.connection peerId none] (.ok none)

/-- The calls of one attempt: it is logged as sent where the chunk was written to the connection
with its peer and the send returned. -/
inductive Attempted (ctx : HealContext) : SendAttempt → List (NetCall γ) → Prop where
  | raised {c : String} {data : Bytes} {p : String} {calls : List (NetCall γ)} {e : PyError}
      (h : Reached ctx p calls (.error e)) : Attempted ctx ⟨c, data, p, .raised e⟩ calls
  | unreachable {c : String} {data : Bytes} {p : String} {calls : List (NetCall γ)}
      (h : Reached ctx p calls (.ok none)) : Attempted ctx ⟨c, data, p, .unreachable⟩ calls
  | written {c : String} {data : Bytes} {p : String} {calls : List (NetCall γ)} {conn : γ}
      (ok : Bool) (h : Reached ctx p calls (.ok (some conn))) :
      Attempted ctx ⟨c, data, p, if ok then .sent else .failed⟩
        (calls ++ [.send conn ctx.nodeId c data ok])

/-- The calls are those of the attempts, one after the other. -/
def Recorded (ctx : HealContext) (log : List SendAttempt) (calls : List (NetCall γ)) : Prop :=
  ∃ parts, calls = parts.flatten ∧ List.Forall₂ (Attempted ctx) log parts

variable {ctx : HealContext} {log log' : List SendAttempt} {calls calls' : List (NetCall γ)}

lemma Recorded.nil : Recorded ctx [] ([] : List (NetCall γ)) := ⟨[], rfl, .nil⟩

lemma Recorded.calls_eq_nil (h : Recorded ctx [] calls) : calls = [] := by
  obtain ⟨parts, rfl, hparts⟩ := h
  cases hparts
  rfl

lemma Recorded.one {a : SendAttempt} (h : Attempted ctx a calls) : Recorded ctx [a] calls :=
  ⟨[calls], by simp, .cons h .nil⟩

lemma Recorded.append (h : Recorded ctx log calls) (h' : Recorded ctx log' calls') :
    Recorded ctx (log ++ log') (calls ++ calls') := by
  obtain ⟨parts, rfl, hparts⟩ := h
  obtain ⟨parts', rfl, hparts'⟩ := h'
  exact ⟨parts ++ parts', by simp, List.rel_append hparts hparts'⟩

variable (ctx) (net : HealNet σ γ)

lemma recorded_connectionTo (p : String) (s : σ) (calls : List (NetCall γ)) :
    ∃ new, Reached ctx p new (connectionTo net ctx p s).1 ∧
      connectionTo net.recorded ctx p (s, calls) =
        ((connectionTo net ctx p s).1, (connectionTo net ctx p s).2, calls ++ new) := by
  unfold connectionTo
  cases hconn : net.connection p s with
  | mk conn t =>
    cases conn with
    | some conn =>
      simp only [HealNet.recorded, hconn]
      exact ⟨_, .connected conn, rfl⟩
    | none =>
      simp only [HealNet.recorded, hconn]
      cases hpeer : ctx.alivePeers.get? p with
      | some peer => exact ⟨_, .dialled peer _ hpeer, by simp⟩
      | none => exact ⟨_, .unknown hpeer, rfl⟩

lemma recorded_sendToTarget (c : String) (data : Bytes) (p : String) (s : σ)
    (calls : List (NetCall γ)) :
    ∃ new, Attempted ctx ⟨c, data, p, (sendToTarget net ctx c data p s).1⟩ new ∧
      sendToTarget net.recorded ctx c data p (s, calls) =
        ((sendToTarget net ctx c data p s).1, (sendToTarget net ctx c data p s).2,
          calls ++ new) := by
  obtain ⟨new, hreached, heq⟩ := recorded_connectionTo ctx net p s calls
  unfold sendToTarget
  rw [heq]
  rcases hconn : connectionTo net ctx p s with ⟨e | conn | conn, t⟩ <;> rw [hconn] at hreached
  · exact ⟨new, .raised hreached, rfl⟩
  · exact ⟨new, .unreachable hreached, rfl⟩
  · simp only [HealNet.recorded]
    rcases hsend : net.send conn ctx.nodeId c data t with ⟨ok, u⟩
    refine ⟨new ++ [.send conn ctx.nodeId c data ok], ?_, ?_⟩
    · cases ok
      · exact .written false hreached
      · exact .written true hreached
    · cases ok <;> simp [hsend]

lemma recorded_sendToTargets (c : String) (data : Bytes) (targets holders : List String) (s : σ)
    (calls : List (NetCall γ)) :
    ∃ new, Recorded ctx (sendToTargets net ctx c data targets holders s).1.2 new ∧
      sendToTargets net.recorded ctx c data targets holders (s, calls) =
        ((sendToTargets net ctx c data targets holders s).1,
          (sendToTargets net ctx c data targets holders s).2, calls ++ new) := by
  induction targets generalizing holders s calls with
  | nil => exact ⟨[], .nil, by simp [sendToTargets]⟩
  | cons p targets ih =>
    obtain ⟨first, hfirst, heq⟩ := recorded_sendToTarget ctx net c data p s calls
    have hsame : (sendToTarget net.recorded ctx c data p (s, calls)).1 =
        (sendToTarget net ctx c data p s).1 := by rw [heq]
    by_cases hraised : ∃ e, (sendToTarget net ctx c data p s).1 = .raised e
    · obtain ⟨e, he⟩ := hraised
      rw [sendToTargets_raised he, sendToTargets_raised (hsame.trans he), heq]
      exact ⟨first, .one (he ▸ hfirst), rfl⟩
    · rw [not_exists] at hraised
      obtain ⟨rest, hrest, hrestEq⟩ := ih
        (if (sendToTarget net ctx c data p s).1 = .sent then holders ++ [p] else holders)
        (sendToTarget net ctx c data p s).2 (calls ++ first)
      rw [sendToTargets_cons rfl hraised, sendToTargets_cons hsame hraised, heq]
      refine ⟨first ++ rest, (Recorded.one hfirst).append hrest, ?_⟩
      dsimp only
      rw [hrestEq, List.append_assoc]

lemma recorded_healChunk (rt : RoutingTable) (c : String) (holders : List String) (s : σ)
    (calls : List (NetCall γ)) :
    ∃ new, Recorded ctx (healChunk net ctx rt c holders s).1.log new ∧
      healChunk net.recorded ctx rt c holders (s, calls) =
        ((healChunk net ctx rt c holders s).1, (healChunk net ctx rt c holders s).2,
          calls ++ new) := by
  unfold healChunk
  rcases healTargets ctx.k ctx.alivePeers ctx.localStore c holders with e | _ | ⟨data, targets⟩
  · exact ⟨[], .nil, by simp⟩
  · exact ⟨[], .nil, by simp⟩
  · obtain ⟨new, hrecorded, heq⟩ :=
      recorded_sendToTargets ctx net c data targets holders s calls
    simp only [heq]
    rcases hsend : sendToTargets net ctx c data targets holders s with ⟨⟨e | holders', log⟩, t⟩ <;>
      rw [hsend] at hrecorded <;> exact ⟨new, hrecorded, rfl⟩

lemma recorded_healChunks (es : List (String × List String)) (rt : RoutingTable) (s : σ)
    (calls : List (NetCall γ)) :
    ∃ new, Recorded ctx (healChunks net ctx es rt s).1.log new ∧
      healChunks net.recorded ctx es rt (s, calls) =
        ((healChunks net ctx es rt s).1, (healChunks net ctx es rt s).2, calls ++ new) := by
  induction es generalizing rt s calls with
  | nil => exact ⟨[], .nil, by simp [healChunks]⟩
  | cons e es ih =>
    obtain ⟨c, holders⟩ := e
    obtain ⟨first, hfirst, heq⟩ := recorded_healChunk ctx net rt c holders s calls
    rw [healChunks, healChunks, heq]
    rcases hheal : healChunk net ctx rt c holders s with ⟨⟨e | _, rt', log⟩, t⟩ <;>
      rw [hheal] at hfirst
    · exact ⟨first, hfirst, rfl⟩
    · obtain ⟨rest, hrest, hrestEq⟩ := ih rt' t (calls ++ first)
      refine ⟨first ++ rest, hfirst.append hrest, ?_⟩
      dsimp only
      rw [hrestEq, List.append_assoc]

/-- The calls that a cycle makes. -/
def cycleCalls (ctx : HealContext) (rt : RoutingTable) (s : σ) : List (NetCall γ) :=
  (checkAndHeal net.recorded ctx rt (s, [])).2.2

/-- **The log is what the cycle has asked of its net**, and asking is all that recording adds. -/
lemma recorded_checkAndHeal (ctx : HealContext) (rt : RoutingTable) (s : σ) :
    Recorded ctx (checkAndHeal net ctx rt s).1.log (cycleCalls net ctx rt s) ∧
      (checkAndHeal net.recorded ctx rt (s, [])).1 = (checkAndHeal net ctx rt s).1 := by
  obtain ⟨new, hrecorded, heq⟩ := recorded_healChunks ctx net
    (underReplicated ctx.k ctx.aliveIds rt.getAll)
    (rt.assignAll (underReplicated ctx.k ctx.aliveIds rt.getAll)) s []
  have hrun : checkAndHeal net.recorded ctx rt (s, []) =
      ((checkAndHeal net ctx rt s).1, (checkAndHeal net ctx rt s).2, new) := heq
  rw [cycleCalls, hrun]
  exact ⟨hrecorded, rfl⟩

end Calls

end DistriStore
