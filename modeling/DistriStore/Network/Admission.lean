import DistriStore.Network.Discovery
import DistriStore.Network.Inbound

/-!
# Who is let into the swarm

The nodes of a swarm and an attacker that does not know the swarm key.  It sees what the nodes
send to each other, opens connections and sends datagrams from addresses of its own, and puts
into its messages what it likes, but for signatures: a signature that is right is one that it has
seen (`State.seen` holds the bytes whose signatures were on the wire).

What honest ends of connections send, and when, is left open, and so is which honest addresses a
node dials; an address of the attacker it dials only when it has it from a peer record.

Neither of the two checks asks for anything new.  The signature in an AUTH message is that of the
node id, and the one in a HELLO datagram that of its payload, so both can be sent again from
anywhere, and the HANDSHAKE that follows is not signed at all (`outsider_enters`).  A swarm whose
signatures are not sent again keeps the attacker out (`kept_out_of_meets`).
-/

namespace DistriStore.Admission

open Lib Connection

/-! ## The nodes -/

structure Config where
  swarmKey : String
  json : Orjson
  members : List Identity
  /-- The addresses of the attacker. -/
  outside : String → Bool

/-- The other end of a connection. -/
structure End where
  ip : String
  /-- The port that was dialled. -/
  port : ℕ := 0
  /-- The first message that came in. -/
  first : Option Value := none

structure Node where
  self : Identity
  manager : Connection.State := {}
  /-- The other ends of `manager.conns`. -/
  ends : List End := []
  registry : Registry := ∅
  /-- The `add_peer` tasks that have not run yet. -/
  tasks : List PeerRecord := []
  /-- The addresses of all peers ever registered. -/
  ips : List String := []

structure State where
  nodes : List Node
  /-- What the nodes have signed and sent. -/
  seen : List Bytes := []

/-- What happens at one node. -/
inductive Event where
  /-- `connect_to_peer`. -/
  | dial (ip : String) (port : ℕ)
  | accept (ip : String)
  | resume (i : ℕ) (event : Connection.Event)
  | lost (i : ℕ)
  /-- A HELLO is broadcast. -/
  | hello (uptime timestamp : ℚ) (health : Health)
  | datagram (ip : String) (data : Bytes)
  /-- This `add_peer` task runs. -/
  | addPeer (k : ℕ) (now : ℚ)
  | removePeer (p : Key)

/-- The attacker would have to sign these bytes itself. -/
def forged (seen : List Bytes) (signed : Option Bytes) : Bool := signed.any fun bs => bs ∉ seen

/-- The signed bytes in what a connection delivers. -/
def signedIn (swarmKey : String) : Connection.Event → Option Bytes
  | .received (some msg) => signedName swarmKey msg
  | _ => none

def End.receive (e : End) : Connection.Event → End
  | .received msg => { e with first := e.first.or msg }
  | .done _ => e

/-- The `add_peer` that a handler schedules when it registers a connection. -/
def scheduled (e : End) (event : Connection.Event) (effect : Effect) : List PeerRecord :=
  match event, effect with
  | .received (some msg), .register p _ => (peerOfHandshake e.ip e.port p msg).toOption.toList
  | _, _ => []

/-- The peer that a datagram announces. -/
def announced (c : Config) (node : Node) (ip : String) (data : Bytes) : List PeerRecord :=
  match datagramReceived c.json c.swarmKey node.self.nodeId data ip with
  | .ok (some peer) => [peer]
  | _ => []

/-- The node after the event, and what has been signed and sent by honest nodes in it. -/
def Node.exec (c : Config) (seen : List Bytes) (node : Node) : Event → Option (Node × List Bytes)
  | .dial ip port =>
    if c.outside ip = true ∧ ip ∉ node.ips then none
    else do
      let manager ← Connection.exec c.swarmKey node.manager .connect
      return ({ node with manager := manager, ends := node.ends ++ [{ ip := ip, port := port }] },
        [encodeUtf8 node.self.nodeId])
  | .accept ip => do
    let manager ← Connection.exec c.swarmKey node.manager .accept
    return ({ node with manager := manager, ends := node.ends ++ [{ ip := ip }] }, [])
  | .resume i event => do
    let e ← node.ends[i]?
    let conn ← node.manager.conns[i]?
    let effect ← conn.phase.resume c.swarmKey event
    if c.outside e.ip && forged seen (signedIn c.swarmKey event) then none
    else
      return ({ node with
          manager := node.manager.apply i conn effect
          ends := node.ends.modify i (End.receive · event)
          tasks := node.tasks ++ scheduled e event effect },
        if c.outside e.ip then [] else (signedIn c.swarmKey event).toList)
  | .lost i => do
    let manager ← Connection.exec c.swarmKey node.manager (.lost i)
    return ({ node with manager := manager }, [])
  | .hello uptime timestamp health =>
    some (node, [c.json.dumps (helloPayload node.self uptime timestamp health)])
  | .datagram ip data =>
    let signed := signedPayload c.json c.swarmKey data
    if c.outside ip && forged seen signed then none
    else
      some ({ node with tasks := node.tasks ++ announced c node ip data },
        if c.outside ip then [] else signed.toList)
  | .addPeer k now => do
    let peer ← node.tasks[k]?
    return ({ node with
        tasks := node.tasks.eraseIdx k
        registry := node.registry.addPeer peer now
        ips := node.ips ++ [peer.ip] }, [])
  | .removePeer p => some ({ node with registry := node.registry.removePeer p }, [])

def exec (c : Config) (s : State) (l : ℕ × Event) : Option State := do
  let node ← s.nodes[l.1]?
  let (node, signed) ← node.exec c s.seen l.2
  return { nodes := s.nodes.set l.1 node, seen := s.seen ++ signed }

def machine (c : Config) : Machine State (ℕ × Event) where
  init := { nodes := c.members.map fun self => { self := self } }
  exec := exec c

/-! ## What the attacker must not reach -/

/-- One run of `add_peer`, with the record that was there before. -/
structure Update where
  peer : PeerRecord
  before : Option PeerRecord
  after : PeerRecord

def Node.update (node : Node) : Event → Option Update
  | .addPeer k now => do
    let peer ← node.tasks[k]?
    return ⟨peer, node.registry.peers.get? peer.nodeId, node.registry.merged peer now⟩
  | _ => none

def observe (log : List Update) (s : State) (l : ℕ × Event) (_ : State) : List Update :=
  log ++ ((s.nodes[l.1]?).bind fun node => node.update l.2).toList

/-- The swarm with all that `add_peer` has done. -/
def logged (c : Config) : Machine (State × List Update) (ℕ × Event) :=
  (machine c).observed [] observe

/-- No connection of the attacker is registered, and what `add_peer` was called with because of its
messages has created no record and changed no address or port. -/
structure KeptOut (c : Config) (x : State × List Update) : Prop where
  connections : ∀ node ∈ x.1.nodes, ∀ p i e, node.manager.connections.get? p = some i →
    node.ends[i]? = some e → c.outside e.ip = false
  peers : ∀ u ∈ x.2, c.outside u.peer.ip = true → ∃ r, u.before = some r ∧ r.ip = u.after.ip ∧
    r.tcpPort = u.after.tcpPort ∧ r.apiPort = u.after.apiPort

/-- The attacker sends no HANDSHAKE after an AUTH message with a signature that it has seen, and no
HELLO of another node with a signature that it has seen. -/
def NoReplay (c : Config) (s : State) : ℕ × Event → Prop
  | (n, .resume i (.received (some msg))) => ∀ node e first, s.nodes[n]? = some node →
      node.ends[i]? = some e → c.outside e.ip = true → e.first = some first →
      Inbound.IsHandshake msg → ∀ bs, signedName c.swarmKey first = some bs → bs ∉ s.seen
  | (n, .datagram ip data) => c.outside ip = true → ∀ node msg, s.nodes[n]? = some node →
      authorizedPayload c.json c.swarmKey data = .ok (some msg) →
      announces node.self.nodeId msg = true →
      ∀ bs, signedPayload c.json c.swarmKey data = some bs → bs ∉ s.seen
  | _ => True

/-! ## The invariant -/

section Invariant

variable (c : Config)

/-- How far a connection of the attacker gets: up to the HANDSHAKE message, and that only with an
AUTH message that was seen before. -/
def Waiting (seen : List Bytes) (e : End) : Phase → Prop
  | .awaitAuth => e.first = none
  | .awaitHandshake => ∃ first bs, e.first = some first ∧ signedName c.swarmKey first = some bs ∧
      bs ∈ seen
  | .dropping => True
  | .ended => True
  | _ => False

structure NodeInv (seen : List Bytes) (node : Node) : Prop where
  length : node.ends.length = node.manager.conns.length
  waiting : ∀ (i : ℕ) (e : End) (conn : Conn), node.ends[i]? = some e →
    node.manager.conns[i]? = some conn → c.outside e.ip = true → Waiting c seen e conn.phase
  entries : ∀ p i, node.manager.connections.get? p = some i →
    ∃ e : End, node.ends[i]? = some e ∧ c.outside e.ip = false
  tasks : ∀ peer ∈ node.tasks, c.outside peer.ip = false
  ips : ∀ ip ∈ node.ips, c.outside ip = false

end Invariant

variable {c : Config}

lemma Waiting.mono {seen seen' : List Bytes} {e : End} {ph : Phase} (h : Waiting c seen e ph)
    (hseen : seen ⊆ seen') : Waiting c seen' e ph := by
  cases ph with
  | awaitHandshake =>
    obtain ⟨first, bs, hfirst, hsigned, hmem⟩ := h
    exact ⟨first, bs, hfirst, hsigned, hseen hmem⟩
  | _ => exact h

lemma NodeInv.mono {seen seen' : List Bytes} {node : Node} (h : NodeInv c seen node)
    (hseen : seen ⊆ seen') : NodeInv c seen' node :=
  { h with waiting := fun i e conn he hconn hout => (h.waiting i e conn he hconn hout).mono hseen }

/-! ### New connections -/

/-- A new connection that is not the attacker's, or has only just come in. -/
lemma NodeInv.append {seen : List Bytes} {node : Node} (h : NodeInv c seen node) (e : End)
    (conn : Conn) (hnew : c.outside e.ip = true → Waiting c seen e conn.phase) :
    NodeInv c seen { node with
      manager := { node.manager with conns := node.manager.conns ++ [conn] }
      ends := node.ends ++ [e] } where
  length := by
    show (node.ends ++ [e]).length = (node.manager.conns ++ [conn]).length
    simp [h.length]
  waiting i e' conn' he hconn hout := by
    replace he : (node.ends ++ [e])[i]? = some e' := he
    replace hconn : (node.manager.conns ++ [conn])[i]? = some conn' := hconn
    rcases getElem?_concat_cases hconn with hconn | ⟨hlast, rfl⟩
    · have hi : i < node.ends.length := h.length ▸ (List.getElem?_eq_some_iff.1 hconn).1
      rw [List.getElem?_append_left hi] at he
      exact h.waiting i e' conn' he hconn hout
    · rw [hlast, ← h.length, List.getElem?_concat_length, Option.some.injEq] at he
      subst he
      exact hnew hout
  entries p i hp := by
    obtain ⟨e', he', hin⟩ := h.entries p i hp
    exact ⟨e', getElem?_append_of_some he' _, hin⟩
  tasks := h.tasks
  ips := h.ips

/-! ### What a handler does to the node -/

/-- After an effect the connection is in the next phase, and the others are as they were. -/
lemma conns_apply (s : Connection.State) (i : ℕ) (conn : Conn) (effect : Effect) :
    ∃ f : Conn → Conn, (s.apply i conn effect).conns = s.conns.modify i f ∧
      ∀ d, (f d).phase = Inbound.phaseAfter effect := by
  cases effect <;> exact ⟨_, rfl, fun _ => rfl⟩

/-- A new entry is that of the connection itself. -/
lemma connections_apply {s : Connection.State} {i j : ℕ} {conn : Conn} {effect : Effect} {p : Key}
    (h : (s.apply i conn effect).connections.get? p = some j) :
    s.connections.get? p = some j ∨ j = i ∧ ∃ p' ph, effect = .register p' ph := by
  cases effect with
  | move ph => exact Or.inl h
  | close ph => exact Or.inl h
  | register p' ph =>
    replace h : (s.connections.set p' i).get? p = some j := h
    rw [Dict.get?_set] at h
    split at h
    · exact Or.inr ⟨(Option.some.inj h).symm, p', ph, rfl⟩
    · exact Or.inl h
  | finish =>
    replace h : (s.connections.erase conn.peerId).get? p = some j := h
    rw [Dict.get?_erase] at h
    split at h
    · cases h
    · exact Or.inl h
  | abort p' =>
    replace h : ((s.connections.set p' i).erase p').get? p = some j := h
    rw [Dict.get?_erase] at h
    split at h
    · cases h
    · next hne => exact Or.inl ((Dict.get?_set_ne _ _ hne).symm.trans h)

lemma ip_of_peerOfHandshake {ip : String} {port : ℕ} {p : Key} {msg : Value} {peer : PeerRecord}
    (h : peerOfHandshake ip port p msg = .ok peer) : peer.ip = ip := by
  obtain ⟨tcpPort, -, h⟩ := bind_eq_ok.1 h
  obtain ⟨name, -, h⟩ := bind_eq_ok.1 h
  obtain ⟨apiPort, -, h⟩ := bind_eq_ok.1 h
  rw [← Except.ok.inj h]

/-- A handler registers the peer at the address of the connection, and only with the entry. -/
lemma scheduled_cases {e : End} {event : Connection.Event} {effect : Effect} {peer : PeerRecord}
    (h : peer ∈ scheduled e event effect) :
    peer.ip = e.ip ∧ ∃ p ph, effect = .register p ph := by
  unfold scheduled at h
  split at h
  · next msg p ph =>
    refine ⟨?_, p, ph, rfl⟩
    cases hpeer : peerOfHandshake e.ip e.port p msg with
    | error err => simp [hpeer, Except.toOption] at h
    | ok peer' =>
      simp only [hpeer, Except.toOption, Option.toList_some, List.mem_singleton] at h
      rw [h]
      exact ip_of_peerOfHandshake hpeer
  · cases h

/-- A connection of the attacker is not let past its HANDSHAKE message. -/
lemma outside_resume {seen : List Bytes} {e : End} {conn : Conn} {event : Connection.Event}
    {effect : Effect} (hwait : Waiting c seen e conn.phase)
    (heffect : conn.phase.resume c.swarmKey event = some effect)
    (hforged : forged seen (signedIn c.swarmKey event) = false)
    (hreplay : ∀ msg first, event = .received (some msg) → e.first = some first →
      Inbound.IsHandshake msg → ∀ bs, signedName c.swarmKey first = some bs → bs ∉ seen) :
    Waiting c seen (e.receive event) (Inbound.phaseAfter effect) ∧
      ∀ p ph, effect ≠ .register p ph := by
  cases hphase : conn.phase with
  | awaitAuth =>
    rw [hphase] at hwait heffect
    replace hwait : e.first = none := hwait
    cases event with
    | done ok => cases heffect
    | received msg =>
      rw [Phase.resume, Option.some.injEq] at heffect
      subst heffect
      rcases Inbound.onAuth_cases c.swarmKey msg with h | h | ⟨h, v, rfl, hauth⟩
      · rw [h]
        exact ⟨trivial, by simp⟩
      · rw [h]
        exact ⟨trivial, by simp⟩
      · rw [h]
        obtain ⟨bs, hsigned⟩ := signedName_of_isAuth hauth
        have hmem : bs ∈ seen := by
          rw [signedIn, hsigned, forged] at hforged
          simpa using hforged
        refine ⟨⟨v, bs, ?_, hsigned, hmem⟩, by simp⟩
        rw [End.receive, hwait, Option.none_or]
  | awaitHandshake =>
    rw [hphase] at hwait heffect
    obtain ⟨first, bs, hfirst, hsigned, hmem⟩ := hwait
    cases event with
    | done ok => cases heffect
    | received msg =>
      rw [Phase.resume, Option.some.injEq] at heffect
      subst heffect
      rcases Inbound.onHandshake_cases msg with (h | h | h) | ⟨v, p, rfl, hhandshake, -⟩
      · rw [h]
        exact ⟨trivial, by simp⟩
      · rw [h]
        exact ⟨trivial, by simp⟩
      · rw [h]
        exact ⟨trivial, by simp⟩
      · exact absurd hmem (hreplay v first rfl hfirst hhandshake bs hsigned)
  | dropping =>
    rw [hphase] at heffect
    cases event with
    | received msg => cases heffect
    | done ok =>
      rw [Phase.resume, Option.some.injEq] at heffect
      subst heffect
      exact ⟨trivial, by simp⟩
  | ended =>
    rw [hphase] at heffect
    cases event <;> cases heffect
  | _ =>
    rw [hphase] at hwait
    exact hwait.elim

@[simp] lemma ip_receive (e : End) (event : Connection.Event) : (e.receive event).ip = e.ip := by
  cases event <;> rfl

/-- One handler goes on; its connection is not the attacker's, or is still kept waiting. -/
lemma NodeInv.resume {seen : List Bytes} {node : Node} {i : ℕ} {e : End} {conn : Conn}
    {event : Connection.Event} {effect : Effect} (h : NodeInv c seen node)
    (he : node.ends[i]? = some e)
    (hout : c.outside e.ip = true → Waiting c seen (e.receive event) (Inbound.phaseAfter effect) ∧
      ∀ p ph, effect ≠ .register p ph) :
    NodeInv c seen { node with
      manager := node.manager.apply i conn effect
      ends := node.ends.modify i (End.receive · event)
      tasks := node.tasks ++ scheduled e event effect } := by
  obtain ⟨f, hconns, hphase⟩ := conns_apply node.manager i conn effect
  have hinside (p : Key) (ph : Phase) (hregister : effect = .register p ph) :
      c.outside e.ip = false := by
    by_contra hip
    exact (hout (by simpa using hip)).2 p ph hregister
  refine ⟨?_, ?_, ?_, ?_, h.ips⟩
  · show (node.ends.modify i _).length = (node.manager.apply i conn effect).conns.length
    rw [hconns, List.length_modify, List.length_modify, h.length]
  · intro j e' conn' he' hconn' hip
    replace he' : (node.ends.modify i (End.receive · event))[j]? = some e' := he'
    replace hconn' : (node.manager.apply i conn effect).conns[j]? = some conn' := hconn'
    rw [hconns] at hconn'
    obtain ⟨d, hd, rfl⟩ := getElem?_modify_cases he'
    obtain ⟨conn₀, hconn₀, rfl⟩ := getElem?_modify_cases hconn'
    by_cases hj : i = j
    · subst hj
      rw [he, Option.some.injEq] at hd
      subst hd
      rw [if_pos rfl, ip_receive] at hip
      rw [if_pos rfl, if_pos rfl, hphase]
      exact (hout hip).1
    · rw [if_neg hj] at hip ⊢
      rw [if_neg hj]
      exact h.waiting j d conn₀ hd hconn₀ hip
  · intro p j hp
    have hold (hend : ∃ e' : End, node.ends[j]? = some e' ∧ c.outside e'.ip = false) :
        ∃ e' : End, (node.ends.modify i (End.receive · event))[j]? = some e' ∧
          c.outside e'.ip = false := by
      obtain ⟨e', he', hip⟩ := hend
      refine ⟨_, getElem?_modify_of_some _ he', ?_⟩
      split
      · rw [ip_receive, hip]
      · exact hip
    rcases connections_apply hp with hp | ⟨rfl, p', ph, hregister⟩
    · exact hold (h.entries p j hp)
    · exact hold ⟨e, he, hinside p' ph hregister⟩
  · intro peer hpeer
    rcases List.mem_append.1 hpeer with hpeer | hpeer
    · exact h.tasks peer hpeer
    · obtain ⟨hip, p, ph, hregister⟩ := scheduled_cases hpeer
      rw [hip]
      exact hinside p ph hregister

/-- A lost connection stays where it is. -/
lemma NodeInv.lost {seen : List Bytes} {node : Node} (h : NodeInv c seen node) (i : ℕ) :
    NodeInv c seen { node with
      manager := node.manager.update i fun conn => { conn with isOpen := false } } where
  length := by
    show node.ends.length = (node.manager.conns.modify i _).length
    rw [List.length_modify, h.length]
  waiting j e conn he hconn hip := by
    obtain ⟨d, hd, rfl⟩ := getElem?_modify_cases hconn
    split
    · exact h.waiting j e d he hd hip
    · exact h.waiting j e d he hd hip
  entries := h.entries
  tasks := h.tasks
  ips := h.ips

/-- A peer is announced at the address of the datagram, and only by a signed one. -/
lemma announced_cases {node : Node} {ip : String} {data : Bytes} {peer : PeerRecord}
    (hpeer : peer ∈ announced c node ip data) :
    peer.ip = ip ∧ ∃ msg bs, authorizedPayload c.json c.swarmKey data = .ok (some msg) ∧
      announces node.self.nodeId msg = true ∧ signedPayload c.json c.swarmKey data = some bs := by
  unfold announced at hpeer
  split at hpeer
  · next peer' hreceived =>
    rw [List.mem_singleton] at hpeer
    subst hpeer
    obtain ⟨msg, hauthorized, hsigned, hannounces, hip⟩ := datagramReceived_cases hreceived
    exact ⟨hip, msg, _, hauthorized, hannounces, hsigned⟩
  · cases hpeer

/-! ### One step -/

lemma nodeInv_exec {s : State} {n : ℕ} {node node' : Node} {event : Event} {signed : List Bytes}
    (hnode : s.nodes[n]? = some node) (h : NodeInv c s.seen node)
    (hexec : node.exec c s.seen event = some (node', signed)) (hreplay : NoReplay c s (n, event)) :
    NodeInv c s.seen node' := by
  cases event with
  | dial ip port =>
    simp only [Node.exec] at hexec
    split at hexec
    · cases hexec
    · next hknown =>
      obtain ⟨rfl, -⟩ := Prod.mk.inj (Option.some.inj hexec)
      refine h.append { ip := ip, port := port } { phase := .awaitAck } fun hout => ?_
      -- an address of the attacker is in no record
      by_cases hip : ip ∈ node.ips
      · exact absurd hout (by simp [h.ips ip hip])
      · exact absurd ⟨hout, hip⟩ hknown
  | accept ip =>
    obtain ⟨rfl, -⟩ := Prod.mk.inj (Option.some.inj hexec)
    exact h.append { ip := ip } { phase := .awaitAuth } fun _ => rfl
  | resume i event =>
    simp only [Node.exec, Option.bind_eq_bind, Option.bind_eq_some_iff] at hexec
    obtain ⟨e, he, conn, hconn, effect, heffect, hexec⟩ := hexec
    split at hexec
    · cases hexec
    · next hforged =>
      obtain ⟨rfl, -⟩ := Prod.mk.inj (Option.some.inj hexec)
      refine h.resume he fun hout => ?_
      rw [hout, Bool.true_and, Bool.not_eq_true] at hforged
      refine outside_resume (h.waiting i e conn he hconn hout) heffect hforged ?_
      rintro msg first rfl hfirst hhandshake bs hsigned
      exact hreplay node e first hnode he hout hfirst hhandshake bs hsigned
  | lost i =>
    simp only [Node.exec, Connection.exec, Option.bind_eq_bind, Option.bind_eq_some_iff] at hexec
    obtain ⟨_, ⟨_, -, hmanager⟩, hexec⟩ := hexec
    obtain rfl := Option.some.inj hmanager
    obtain ⟨rfl, -⟩ := Prod.mk.inj (Option.some.inj hexec)
    exact h.lost i
  | hello uptime timestamp health =>
    obtain ⟨rfl, -⟩ := Prod.mk.inj (Option.some.inj hexec)
    exact h
  | datagram ip data =>
    simp only [Node.exec] at hexec
    split at hexec
    · cases hexec
    · next hforged =>
      obtain ⟨rfl, -⟩ := Prod.mk.inj (Option.some.inj hexec)
      refine { h with tasks := fun peer hpeer => ?_ }
      rcases List.mem_append.1 hpeer with hpeer | hpeer
      · exact h.tasks peer hpeer
      · obtain ⟨hip, msg, bs, hauthorized, hannounces, hsigned⟩ := announced_cases hpeer
        rw [hip]
        by_contra hout
        rw [Bool.not_eq_false] at hout
        have hseen : bs ∈ s.seen := by
          rw [hout, hsigned] at hforged
          simpa [forged] using hforged
        exact hreplay hout node msg hnode hauthorized hannounces bs hsigned hseen
  | addPeer k now =>
    simp only [Node.exec, Option.bind_eq_bind, Option.bind_eq_some_iff] at hexec
    obtain ⟨peer, hpeer, hexec⟩ := hexec
    obtain ⟨rfl, -⟩ := Prod.mk.inj (Option.some.inj hexec)
    refine { h with
      tasks := fun peer' hpeer' => h.tasks peer' (List.mem_of_mem_eraseIdx hpeer')
      ips := fun ip hip => ?_ }
    rcases List.mem_append.1 hip with hip | hip
    · exact h.ips ip hip
    · rw [List.mem_singleton.1 hip]
      exact h.tasks peer (List.mem_of_getElem? hpeer)
  | removePeer p =>
    obtain ⟨rfl, -⟩ := Prod.mk.inj (Option.some.inj hexec)
    exact { h with }

/-- No node has let the attacker in, and `add_peer` has run for other addresses only. -/
structure Inv (c : Config) (x : State × List Update) : Prop where
  nodes : ∀ node ∈ x.1.nodes, NodeInv c x.1.seen node
  updates : ∀ u ∈ x.2, c.outside u.peer.ip = false

lemma inv_init (c : Config) : Inv c (logged c).init where
  nodes node hnode := by
    obtain ⟨self, -, rfl⟩ := List.mem_map.1 hnode
    exact ⟨rfl, by simp, by simp, by simp, by simp⟩
  updates u hu := by cases hu

lemma inv_exec {x y : State × List Update} {l : ℕ × Event} (h : Inv c x)
    (hexec : (logged c).exec x l = some y) (hreplay : NoReplay c x.1 l) : Inv c y := by
  obtain ⟨s, log⟩ := x
  obtain ⟨t, log'⟩ := y
  obtain ⟨n, event⟩ := l
  obtain ⟨hstep, hlog⟩ := Machine.exec_observed hexec
  obtain ⟨node, hnode, hstep⟩ := Option.bind_eq_some_iff.1 hstep
  obtain ⟨⟨node', signed⟩, hnext, hstep⟩ := Option.bind_eq_some_iff.1 hstep
  obtain rfl := Option.some.inj hstep
  have hinv : NodeInv c s.seen node := h.nodes node (List.mem_of_getElem? hnode)
  have hseen : s.seen ⊆ s.seen ++ signed := List.subset_append_left ..
  refine ⟨fun other hother => ?_, fun u hu => ?_⟩
  · rcases List.mem_or_eq_of_mem_set hother with hother | rfl
    · exact (h.nodes other hother).mono hseen
    · exact (nodeInv_exec hnode hinv hnext hreplay).mono hseen
  · replace hu : u ∈ log' := hu
    replace hlog : log' = log ++ ((s.nodes[n]?).bind fun node => node.update event).toList := hlog
    rw [hlog] at hu
    rcases List.mem_append.1 hu with hu | hu
    · exact h.updates u hu
    · -- `add_peer` runs for a task of the node
      rw [hnode, Option.bind_some, Option.mem_toList] at hu
      cases event with
      | addPeer k now =>
        obtain ⟨peer, hpeer, hu⟩ := Option.bind_eq_some_iff.1 hu
        rw [← Option.some.inj hu]
        exact hinv.tasks peer (List.mem_of_getElem? hpeer)
      | _ => cases hu

lemma keptOut_of_inv {x : State × List Update} (h : Inv c x) : KeptOut c x where
  connections node hnode p i e hp he := by
    obtain ⟨e', he', hip⟩ := (h.nodes node hnode).entries p i hp
    rw [he', Option.some.injEq] at he
    exact he ▸ hip
  peers u hu hip := absurd hip (by simp [h.updates u hu])

/-- **Outsiders stay out** of a swarm as long as no signature that was sent in it is sent again:
in an AUTH message before a HANDSHAKE, or in the HELLO of another node. -/
theorem kept_out_of_meets (c : Config) (run : List (ℕ × Event))
    (hmeets : (logged c).Meets (fun x => NoReplay c x.1) (logged c).init run) :
    (logged c).Always (KeptOut c) (logged c).init run :=
  (Machine.always_of_meets (fun _ _ _ h hexec hreplay => inv_exec h hexec hreplay) (inv_init c)
    hmeets).imp fun _ => keptOut_of_inv

/-! ## An attacker at one address -/

section Duo

variable (swarmKey : String)

/-- Two nodes, and an attacker at one address. -/
def duo : Config where
  swarmKey := swarmKey
  json := { loads := fun _ => none, dumps := fun _ => [] }
  members := [{ nodeId := "aa" }, { nodeId := "bb" }]
  outside ip := ip = "6.6.6.6"

/-- The attacker sends an AUTH message that it has seen, and then a message of another type. -/
def visit : List (ℕ × Event) :=
  [(0, .dial "10.0.0.2" 50001), (1, .accept "6.6.6.6"),
    (1, .resume 0 (.received (some (authHandshakeMsg "aa" swarmKey)))),
    (1, .resume 0 (.received (some (authHandshakeMsg "aa" swarmKey))))]

/-- The attacker sends the AUTH message of a node, and then a HANDSHAKE with an id of its own. -/
def intrusion : List (ℕ × Event) :=
  [(0, .dial "10.0.0.2" 50001), (1, .accept "6.6.6.6"),
    (1, .resume 0 (.received (some (authHandshakeMsg "aa" swarmKey)))),
    (1, .resume 0 (.received (some (handshakeMsg "HANDSHAKE" "mallory" "node" 9000 8888))))]

/-- The other end of the connection that a node has registered under an id. -/
def registeredEnd (s : State) (n : ℕ) (p : Key) : Option String := do
  let node ← s.nodes[n]?
  let i ← node.manager.connections.get? p
  let e ← node.ends[i]?
  return e.ip

lemma run_intrusion :
    ((logged (duo swarmKey)).run (logged (duo swarmKey)).init (intrusion swarmKey)).bind
      (fun x => registeredEnd x.1 1 (.str "mallory")) = some "6.6.6.6" := by
  simp [intrusion, Machine.run_cons, logged, Machine.observed, machine, exec, Node.exec, duo,
    Connection.exec, Phase.resume, onAuth_authHandshakeMsg, onHandshake_handshakeMsg, signedIn,
    signedName_authHandshakeMsg, signedName_handshakeMsg, forged, State.apply, State.update,
    registeredEnd]

end Duo

theorem kept_out_visit : (logged (duo "k")).Always (KeptOut (duo "k")) (logged (duo "k")).init
    (visit "k") := by
  refine kept_out_of_meets (duo "k") (visit "k") ?_
  have hauth : ¬ Inbound.IsHandshake (authHandshakeMsg "aa" "k") := by
    simp [Inbound.IsHandshake, authHandshakeMsg, Value.getD, Value.isStr]
  have hkept (s : State) :
      NoReplay (duo "k") s (1, .resume 0 (.received (some (authHandshakeMsg "aa" "k")))) := by
    intro node e first _ _ _ _ hhandshake
    exact absurd hhandshake hauth
  intro _ _
  exact ⟨trivial, fun _ _ => ⟨trivial, fun _ _ => ⟨hkept _, fun _ _ => ⟨hkept _, trivial⟩⟩⟩⟩

/-- **A node registers a connection of the attacker**, which has sent it the AUTH message of another
node. -/
theorem outsider_enters : ¬ ∀ (c : Config) (run : List (ℕ × Event)),
    (logged c).Always (KeptOut c) (logged c).init run := by
  intro hall
  obtain ⟨x, hrun, hregistered⟩ := Option.bind_eq_some_iff.1 (run_intrusion "k")
  simp only [registeredEnd, Option.bind_eq_bind, Option.bind_eq_some_iff] at hregistered
  obtain ⟨node, hnode, i, hp, e, he, hip⟩ := hregistered
  have hinside := ((hall (duo "k") (intrusion "k")).last hrun).connections node
    (List.mem_of_getElem? hnode) _ i e hp he
  rw [Option.some.inj hip] at hinside
  simp [duo] at hinside

end DistriStore.Admission
