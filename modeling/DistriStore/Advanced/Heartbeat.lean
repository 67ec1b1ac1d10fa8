import DistriStore.Lib.Machine
import DistriStore.Node.Peers

/-!
# The heartbeat monitor (`backend/advanced/heartbeat.py`)

One `HeartbeatMonitor` with the clock, the peers of its node and its connections, as a machine.
The loop pings all connected peers one after the other, sleeps, and then removes the peers whose
recorded PING is too old; PONGs are handled by other tasks, which forget the recorded PING.
Peer records are objects that several tasks hold on to, so the state has a heap of them.

`_ping_all_peers` overwrites the recorded time in every round, so what `_check_timeouts` compares
with the timeout is the age of the last PING, not of the first unanswered one.  With an interval
below the timeout a silent peer is therefore not noticed as long as the rounds are on time
(`silent_peer_stays`); `detected_iff` is the exact condition.

`stop` cancels the loop, which ends a run.  Nothing that the loop awaits raises anything but
`send`, whose exceptions are caught, so the sleep after an error does not occur.
-/

namespace DistriStore.Heartbeat

open Lib

/-! ## Data -/

structure Config where
  interval : ℚ := 5
  timeout : ℚ := 15

/-- What the loop awaits. -/
inductive Phase where
  /-- The peers of the node. -/
  | listing
  /-- The sending of a PING, with the peers that come after it. -/
  | sending (peer : Key) (rest : List Key)
  | sleeping (wake : ℚ)
  /-- The removal of the first of these peers. -/
  | removing (dead : List Key)
  deriving DecidableEq, Repr

/-- What a `handle_pong` awaits. -/
inductive PongPhase where
  | getPeer
  | addPeer (obj : ℕ)
  | finished
  deriving DecidableEq, Repr

/-- A `handle_pong` that has found a recorded PING. -/
structure Pong where
  peer : Key
  msg : Value
  latency : ℚ
  phase : PongPhase := .getPeer

structure State where
  now : ℚ := 0
  /-- All `PeerInfo` objects. -/
  objects : List PeerRecord := []
  /-- `NodeState._peers`. -/
  peers : Dict Key ℕ := ∅
  connections : Dict Key Unit := ∅
  pendingPings : Dict Key ℚ := ∅
  phase : Phase := .listing
  pongs : List Pong := []

namespace State

def isPeer (s : State) (p : Key) : Bool := (s.peers.get? p).isSome

def isConnected (s : State) (p : Key) : Bool := (s.connections.get? p).isSome

/-- `add_peer` with object `i`. -/
def addPeer (s : State) (i : ℕ) : State :=
  match s.objects[i]? with
  | none => s
  | some peer =>
    match s.peers.get? peer.nodeId with
    | some j => { s with objects := s.objects.modify j fun existing => existing.update peer s.now }
    | none =>
      { s with
        objects := s.objects.modify i fun peer => { peer with lastSeen := s.now }
        peers := s.peers.set peer.nodeId i }

end State

/-! ## The loop -/

/-- `_ping_all_peers` up to its next send, and the sleep after the last one. -/
def pingNext (c : Config) (s : State) : List Key → State
  | [] => { s with phase := .sleeping (s.now + c.interval) }
  | peer :: rest =>
    if s.isConnected peer then { s with phase := .sending peer rest } else pingNext c s rest

/-- The send to `peer` is over, with an exception or not. -/
def pingSent (c : Config) (s : State) (peer : Key) (rest : List Key) (ok : Bool) : State :=
  pingNext c (if ok then { s with pendingPings := s.pendingPings.set peer s.now } else s) rest

/-- The peers whose recorded PING is older than the timeout. -/
def deadPeers (c : Config) (s : State) : List Key :=
  (s.pendingPings.entries.filter fun e => c.timeout < s.now - e.2).map Prod.fst

/-- The rest of `_check_timeouts`, and the next round after it. -/
def removeNext (s : State) : List Key → State
  | [] => { s with phase := .listing }
  | dead => { s with phase := .removing dead }

/-- `_check_timeouts` up to its first removal. -/
def checkTimeouts (c : Config) (s : State) : State :=
  removeNext { s with pendingPings := s.pendingPings.eraseAll (deadPeers c s) } (deadPeers c s)

/-! ## PONGs -/

/-- `handle_pong` up to its first await. -/
def handlePong (s : State) (peer : Key) (msg : Value) : State :=
  match s.pendingPings.get? peer with
  | none => s
  | some sentTime =>
    { s with
      pendingPings := s.pendingPings.erase peer
      pongs := s.pongs ++ [{ peer := peer, msg := msg, latency := (s.now - sentTime) * 1000 }] }

/-- The fields that a PONG writes, up to the first that cannot be read from the message. -/
def ponged (peer : PeerRecord) (latency now : ℚ) (msg : Value) : PeerRecord × Bool :=
  match msg.getD "uptime" (.int 0), msg.getD "free_space" (.int 0) with
  | .ok uptime, .ok freeSpace =>
    ({ peer with latency := latency, uptime := uptime, freeSpace := freeSpace, lastSeen := now },
      true)
  | _, _ => ({ peer with latency := latency }, false)

/-- `handle_pong` number `n` with the result of `get_peer`. -/
def pongGot (s : State) (n : ℕ) (pong : Pong) : State :=
  let done (phase : PongPhase) : List Pong :=
    s.pongs.modify n fun pong => { pong with phase := phase }
  match s.peers.get? pong.peer with
  | none => { s with pongs := done .finished }
  | some i =>
    match s.objects[i]? with
    | none => { s with pongs := done .finished }
    | some peer =>
      let (peer, ok) := ponged peer pong.latency s.now pong.msg
      { s with
        objects := s.objects.set i peer
        pongs := done (if ok then .addPeer i else .finished) }

/-! ## The machine -/

inductive Label where
  /-- The clock goes on. -/
  | tick (d : ℚ)
  | list
  | sent (ok : Bool)
  | check
  | removed
  | pong (peer : Key) (msg : Value)
  /-- The `get_peer`, or the `add_peer`, of a `handle_pong` has the lock. -/
  | pongNext (n : ℕ)
  /-- Other tasks of the node register or remove a peer, and open or lose a connection. -/
  | register (peer : PeerRecord)
  | unregister (peer : Key)
  | connect (peer : Key)
  | disconnect (peer : Key)

def exec (c : Config) (s : State) : Label → Option State
  | .tick d => if 0 ≤ d then some { s with now := s.now + d } else none
  | .list =>
    match s.phase with
    | .listing => some (pingNext c s s.peers.keys)
    | _ => none
  | .sent ok =>
    match s.phase with
    | .sending peer rest => some (pingSent c s peer rest ok)
    | _ => none
  | .check =>
    match s.phase with
    | .sleeping wake => if wake ≤ s.now then some (checkTimeouts c s) else none
    | _ => none
  | .removed =>
    match s.phase with
    | .removing (peer :: rest) => some (removeNext { s with peers := s.peers.erase peer } rest)
    | _ => none
  | .pong peer msg => some (handlePong s peer msg)
  | .pongNext n => do
    let pong ← s.pongs[n]?
    match pong.phase with
    | .getPeer => some (pongGot s n pong)
    | .addPeer i => some { s.addPeer i with
        pongs := s.pongs.modify n fun pong => { pong with phase := .finished } }
    | .finished => none
  | .register peer => some ({ s with objects := s.objects ++ [peer] }.addPeer s.objects.length)
  | .unregister peer => some { s with peers := s.peers.erase peer }
  | .connect peer => some { s with connections := s.connections.set peer () }
  | .disconnect peer => some { s with connections := s.connections.erase peer }

def machine (c : Config) : Machine State Label where
  init := {}
  exec := exec c

/-! ## Silent peers -/

/-- What has been seen of one peer. -/
structure Silence where
  /-- The first PING of the time in which the peer is registered and connected, all sends to it
  succeed, and it does not answer. -/
  since : Option ℚ := none
  /-- The last PING. -/
  last : ℚ := 0
  /-- A check has run when the peer had been silent for too long, and it is still registered. -/
  overdue : Bool := false

/-- More than timeout and interval have passed since the first unanswered PING. -/
def Silence.due (c : Config) (g : Silence) (now : ℚ) : Bool :=
  g.since.any fun s => c.timeout + c.interval < now - s

/-- The step itself. -/
def Silence.note (c : Config) (p : Key) (g : Silence) (s : State) : Label → Silence
  | .sent ok =>
    match s.phase with
    | .sending peer _ =>
      if peer = p then
        if ok then { g with since := g.since.or (some s.now), last := s.now }
        else { g with since := none }
      else g
    | _ => g
  | .pong peer _ => if peer = p then { g with since := none } else g
  | .check => { g with overdue := g.due c s.now }
  | _ => g

def Silence.observe (c : Config) (p : Key) (g : Silence) (s : State) (l : Label) (t : State) :
    Silence :=
  let g := g.note c p s l
  { g with
    since := if t.isPeer p ∧ t.isConnected p then g.since else none
    overdue := g.overdue && t.isPeer p }

/-- The monitor with what has been seen of peer `p`. -/
def watched (c : Config) (p : Key) : Machine (State × Silence) Label :=
  (machine c).observed {} (Silence.observe c p)

/-- Whoever is overdue at a check is removed before this check is over. -/
def Detected (p : Key) (x : State × Silence) : Prop :=
  x.2.overdue = true → ∃ dead, x.1.phase = .removing dead ∧ p ∈ dead

/-- When a check comes too late for the first unanswered PING, it does so for the last one too. -/
def LastPingOld (c : Config) (x : State × Silence) : Label → Prop
  | .check => x.2.due c x.1.now = true → c.timeout < x.1.now - x.2.last
  | _ => True

/-! ### What is recorded of a silent peer -/

/-- The last PING of a silent peer is recorded, unless a check is about to remove the peer. -/
def Recorded (p : Key) (x : State × Silence) : Prop :=
  x.2.since.isSome = true → x.1.isPeer p = true ∧
    (x.1.pendingPings.get? p = some x.2.last ∨ ∃ dead, x.1.phase = .removing dead ∧ p ∈ dead)

variable {c : Config} {p : Key}

lemma mem_deadPeers {s : State} :
    p ∈ deadPeers c s ↔ ∃ t, s.pendingPings.get? p = some t ∧ c.timeout < s.now - t := by
  unfold deadPeers
  rw [List.mem_map]
  constructor
  · rintro ⟨⟨k, t⟩, hmem, rfl⟩
    obtain ⟨hentry, hold⟩ := List.mem_filter.1 hmem
    exact ⟨t, Dict.get?_of_mem_entries hentry, of_decide_eq_true hold⟩
  · rintro ⟨t, ht, hold⟩
    exact ⟨(p, t), List.mem_filter.2 ⟨Dict.mem_entries_of_get? ht, decide_eq_true hold⟩, rfl⟩

lemma removing_removeNext {s : State} {dead : List Key} :
    (∃ rest, (removeNext s dead).phase = .removing rest ∧ p ∈ rest) ↔ p ∈ dead := by
  cases dead with
  | nil => simp [removeNext]
  | cons k dead =>
    constructor
    · rintro ⟨rest, hphase, hmem⟩
      rw [← Phase.removing.inj hphase] at hmem
      exact hmem
    · intro hmem
      exact ⟨k :: dead, rfl, hmem⟩

/-- The fields that the end of `_check_timeouts` leaves alone. -/
lemma removeNext_frame (s : State) (dead : List Key) :
    (removeNext s dead).pendingPings = s.pendingPings ∧ (removeNext s dead).peers = s.peers ∧
      (removeNext s dead).connections = s.connections := by
  cases dead <;> exact ⟨rfl, rfl, rfl⟩

/-- Going on to the next PING changes the phase alone, and does not remove anybody. -/
lemma pingNext_frame (s : State) (rest : List Key) :
    (pingNext c s rest).pendingPings = s.pendingPings ∧ (pingNext c s rest).peers = s.peers ∧
      ∀ dead, (pingNext c s rest).phase ≠ .removing dead := by
  induction rest with
  | nil => exact ⟨rfl, rfl, by simp [pingNext]⟩
  | cons peer rest ih =>
    unfold pingNext
    split
    · exact ⟨rfl, rfl, by simp⟩
    · exact ih

/-- The steps of other tasks that no PING is affected by. -/
def Label.outside : Label → Bool
  | .tick _ => true
  | .pongNext _ => true
  | .register _ => true
  | .unregister _ => true
  | .connect _ => true
  | .disconnect _ => true
  | _ => false

lemma addPeer_frame (s : State) (i : ℕ) :
    (s.addPeer i).pendingPings = s.pendingPings ∧ (s.addPeer i).phase = s.phase := by
  unfold State.addPeer
  split
  · exact ⟨rfl, rfl⟩
  · split <;> exact ⟨rfl, rfl⟩

lemma pongGot_frame (s : State) (n : ℕ) (pong : Pong) :
    (pongGot s n pong).pendingPings = s.pendingPings ∧ (pongGot s n pong).phase = s.phase := by
  unfold pongGot
  dsimp only
  split
  · exact ⟨rfl, rfl⟩
  · split <;> exact ⟨rfl, rfl⟩

lemma outside_frame {s t : State} {l : Label} (hl : l.outside = true) (h : exec c s l = some t) :
    t.pendingPings = s.pendingPings ∧ t.phase = s.phase := by
  cases l with
  | tick d =>
    unfold exec at h
    dsimp only at h
    split at h
    · rw [← Option.some.inj h]
      exact ⟨rfl, rfl⟩
    · cases h
  | pongNext n =>
    simp only [exec, Option.bind_eq_bind, Option.bind_eq_some_iff] at h
    obtain ⟨pong, -, h⟩ := h
    split at h
    · rw [← Option.some.inj h]
      exact pongGot_frame s n pong
    · rw [← Option.some.inj h]
      exact addPeer_frame s _
    · cases h
  | register peer =>
    rw [exec, Option.some.injEq] at h
    rw [← h]
    exact addPeer_frame _ _
  | unregister peer =>
    rw [← Option.some.inj h]
    exact ⟨rfl, rfl⟩
  | connect peer =>
    rw [← Option.some.inj h]
    exact ⟨rfl, rfl⟩
  | disconnect peer =>
    rw [← Option.some.inj h]
    exact ⟨rfl, rfl⟩
  | _ => cases hl

lemma note_of_outside {s : State} {l : Label} (g : Silence) (hl : l.outside = true) :
    g.note c p s l = g := by
  cases l <;> first | rfl | cases hl

lemma exec_list {s t : State} (h : exec c s .list = some t) :
    s.phase = .listing ∧ t = pingNext c s s.peers.keys := by
  unfold exec at h
  dsimp only at h
  split at h
  · next hlisting => exact ⟨hlisting, (Option.some.inj h).symm⟩
  · cases h

lemma exec_sent {s t : State} {ok : Bool} (h : exec c s (.sent ok) = some t) :
    ∃ peer rest, s.phase = .sending peer rest ∧ t = pingSent c s peer rest ok := by
  unfold exec at h
  dsimp only at h
  split at h
  · next peer rest hsending => exact ⟨peer, rest, hsending, (Option.some.inj h).symm⟩
  · cases h

lemma exec_check {s t : State} (h : exec c s .check = some t) :
    (∀ dead, s.phase ≠ .removing dead) ∧ t = checkTimeouts c s := by
  unfold exec at h
  dsimp only at h
  split at h
  · next wake hsleeping =>
    rw [Option.ite_none_right_eq_some, Option.some.injEq] at h
    exact ⟨by simp [hsleeping], h.2.symm⟩
  · cases h

/-- Whoever is still registered after a removal is still to be removed. -/
lemma exec_removed {s t : State} (h : exec c s .removed = some t) :
    t.pendingPings = s.pendingPings ∧ ∀ dead, s.phase = .removing dead → p ∈ dead →
      t.isPeer p = true → ∃ dead, t.phase = .removing dead ∧ p ∈ dead := by
  unfold exec at h
  dsimp only at h
  split at h
  · next peer rest hremoving =>
    rw [← Option.some.inj h]
    refine ⟨(removeNext_frame _ _).1, fun dead hphase hmem hpeer => ?_⟩
    rw [hremoving] at hphase
    rw [← Phase.removing.inj hphase, List.mem_cons] at hmem
    refine removing_removeNext.2 (hmem.resolve_left ?_)
    rintro rfl
    simp [State.isPeer, (removeNext_frame _ _).2.1] at hpeer
  · cases h

/-- The last PING to `p` is recorded, or a check is about to remove `p`. -/
def Kept (p : Key) (s : State) (last : ℚ) : Prop :=
  s.pendingPings.get? p = some last ∨ ∃ dead, s.phase = .removing dead ∧ p ∈ dead

lemma Kept.ping {s : State} {last : ℚ} (h : Kept p s last)
    (hphase : ∀ dead, s.phase ≠ .removing dead) : s.pendingPings.get? p = some last := by
  refine h.resolve_right ?_
  rintro ⟨dead, hdead, -⟩
  exact hphase dead hdead

lemma kept_pingSent {s : State} {g : Silence} {peer : Key} {rest : List Key} {ok : Bool}
    (hsending : s.phase = .sending peer rest) (hs : g.since.isSome = true → Kept p s g.last)
    (hsince : (g.note c p s (.sent ok)).since.isSome = true) :
    Kept p (pingSent c s peer rest ok) (g.note c p s (.sent ok)).last := by
  left
  rw [pingSent, (pingNext_frame _ rest).1]
  simp only [Silence.note, hsending] at hsince ⊢
  by_cases hpeer : peer = p
  · subst hpeer
    cases ok with
    | true => simp
    | false => simp at hsince
  · rw [if_neg hpeer] at hsince ⊢
    have hping : s.pendingPings.get? p = some g.last := (hs hsince).ping (by simp [hsending])
    cases ok with
    | true => simpa [Dict.get?_set, Ne.symm hpeer] using hping
    | false => simpa using hping

lemma kept_checkTimeouts {s : State} {last : ℚ} (hs : s.pendingPings.get? p = some last) :
    Kept p (checkTimeouts c s) last := by
  by_cases hdead : p ∈ deadPeers c s
  · exact Or.inr (removing_removeNext.2 hdead)
  · left
    rw [checkTimeouts, (removeNext_frame _ _).1]
    exact (Dict.get?_eraseAll_of_not_mem _ hdead).trans hs

lemma kept_handlePong {s : State} {last : ℚ} {peer : Key} (msg : Value) (hs : Kept p s last)
    (hpeer : peer ≠ p) : Kept p (handlePong s peer msg) last := by
  unfold handlePong
  split
  · exact hs
  · exact hs.imp_left fun hping => (Dict.get?_erase_ne _ (Ne.symm hpeer)).trans hping

/-- What the observer sees of `p` after the step it has noted. -/
lemma recorded_of_note {s t : State} {g : Silence} {l : Label}
    (h : (g.note c p s l).since.isSome = true → t.isPeer p = true →
      Kept p t (g.note c p s l).last) : Recorded p (t, g.observe c p s l t) := by
  intro hsince
  unfold Silence.observe at hsince ⊢
  dsimp only at hsince ⊢
  split at hsince
  · next hknown => exact ⟨hknown.1, h hsince hknown.1⟩
  · cases hsince

lemma recorded_step {x y : State × Silence} {l : Label} (hx : Recorded p x)
    (hy : (watched c p).exec x l = some y) : Recorded p y := by
  obtain ⟨s, g⟩ := x
  obtain ⟨t, g'⟩ := y
  obtain ⟨h, hobserve⟩ := Machine.exec_observed hy
  dsimp only at h hobserve
  rw [hobserve]
  replace h : exec c s l = some t := h
  have hs : g.since.isSome = true → Kept p s g.last := fun hsince => (hx hsince).2
  refine recorded_of_note fun hsince hpeer => ?_
  have houtside (hl : l.outside = true) : Kept p t (g.note c p s l).last := by
    obtain ⟨hpings, hphase⟩ := outside_frame hl h
    rw [note_of_outside g hl] at hsince ⊢
    rw [Kept, hpings, hphase]
    exact hs hsince
  cases l with
  | list =>
    obtain ⟨hlisting, rfl⟩ := exec_list h
    left
    rw [(pingNext_frame s s.peers.keys).1]
    exact (hs hsince).ping (by simp [hlisting])
  | sent ok =>
    obtain ⟨peer, rest, hsending, rfl⟩ := exec_sent h
    exact kept_pingSent hsending hs hsince
  | check =>
    obtain ⟨hphase, rfl⟩ := exec_check h
    exact kept_checkTimeouts ((hs hsince).ping hphase)
  | removed =>
    obtain ⟨hpings, hremoving⟩ := exec_removed h
    rw [Kept, hpings]
    refine (hs hsince).imp_right ?_
    rintro ⟨dead, hdead, hmem⟩
    exact hremoving dead hdead hmem hpeer
  | pong peer msg =>
    rw [exec, Option.some.injEq] at h
    subst h
    simp only [Silence.note] at hsince ⊢
    by_cases hpeer : peer = p
    · rw [if_pos hpeer] at hsince
      cases hsince
    · rw [if_neg hpeer] at hsince ⊢
      exact kept_handlePong msg (hs hsince) hpeer
  | tick d => exact houtside rfl
  | pongNext n => exact houtside rfl
  | register peer => exact houtside rfl
  | unregister peer => exact houtside rfl
  | connect peer => exact houtside rfl
  | disconnect peer => exact houtside rfl

/-! ### When a silent peer is detected -/

lemma overdue_observe {g : Silence} {s t : State} {l : Label}
    (h : (g.observe c p s l t).overdue = true) :
    (g.note c p s l).overdue = true ∧ t.isPeer p = true := by
  simpa [Silence.observe] using h

lemma overdue_note {g : Silence} {s : State} {l : Label} (hl : l ≠ .check) :
    (g.note c p s l).overdue = g.overdue := by
  cases l with
  | check => exact absurd rfl hl
  | sent ok =>
    unfold Silence.note
    dsimp only
    split
    · split
      · split <;> rfl
      · rfl
    · rfl
  | pong peer msg =>
    unfold Silence.note
    dsimp only
    split <;> rfl
  | _ => rfl

/-- Between its checks the loop loses no overdue peer. -/
lemma detected_step {x y : State × Silence} {l : Label} (hx : Detected p x)
    (hy : (watched c p).exec x l = some y) (hl : l ≠ .check) : Detected p y := by
  obtain ⟨s, g⟩ := x
  obtain ⟨t, g'⟩ := y
  obtain ⟨h, hobserve⟩ := Machine.exec_observed hy
  dsimp only at h hobserve
  rw [hobserve]
  replace h : exec c s l = some t := h
  intro hoverdue
  obtain ⟨hnote, hpeer⟩ := overdue_observe hoverdue
  rw [overdue_note hl] at hnote
  obtain ⟨dead, hdead, hmem⟩ := hx hnote
  replace hdead : s.phase = .removing dead := hdead
  have hsame (hphase : t.phase = s.phase) : ∃ dead, t.phase = .removing dead ∧ p ∈ dead :=
    ⟨dead, hphase.trans hdead, hmem⟩
  cases l with
  | list => simp [exec, hdead] at h
  | sent ok => simp [exec, hdead] at h
  | check => exact absurd rfl hl
  | removed => exact (exec_removed h).2 dead hdead hmem hpeer
  | pong peer msg =>
    refine hsame ?_
    rw [exec, Option.some.injEq] at h
    rw [← h, handlePong]
    split <;> rfl
  | tick d => exact hsame (outside_frame rfl h).2
  | pongNext n => exact hsame (outside_frame rfl h).2
  | register peer => exact hsame (outside_frame rfl h).2
  | unregister peer => exact hsame (outside_frame rfl h).2
  | connect peer => exact hsame (outside_frame rfl h).2
  | disconnect peer => exact hsame (outside_frame rfl h).2

/-- A check removes a peer that is due exactly when its last PING is old as well. -/
lemma detected_check {x y : State × Silence} (hx : Recorded p x)
    (hy : (watched c p).exec x .check = some y) : Detected p y ↔ LastPingOld c x .check := by
  obtain ⟨s, g⟩ := x
  obtain ⟨t, g'⟩ := y
  obtain ⟨h, hobserve⟩ := Machine.exec_observed hy
  dsimp only at h hobserve
  rw [hobserve]
  obtain ⟨hphase, rfl⟩ := exec_check h
  have hpeers : (checkTimeouts c s).peers = s.peers := (removeNext_frame _ _).2.1
  have hrecorded (hdue : g.due c s.now = true) :
      s.isPeer p = true ∧ s.pendingPings.get? p = some g.last := by
    have hsince : g.since.isSome = true := by
      unfold Silence.due at hdue
      exact Option.isSome_of_any hdue
    obtain ⟨hpeer, hkept⟩ := hx hsince
    exact ⟨hpeer, Kept.ping hkept hphase⟩
  have hoverdue : (g.observe c p s .check (checkTimeouts c s)).overdue = true ↔
      g.due c s.now = true := by
    simp only [Silence.observe, Silence.note, State.isPeer, hpeers, Bool.and_eq_true,
      and_iff_left_iff_imp]
    exact fun hdue => (hrecorded hdue).1
  unfold Detected LastPingOld
  dsimp only
  rw [hoverdue]
  refine forall_congr' fun hdue => ?_
  rw [checkTimeouts, removing_removeNext, mem_deadPeers, (hrecorded hdue).2]
  simp

/-- **A silent peer is detected in time exactly when**, at every check that comes too late for the
first unanswered PING, the last PING is older than the timeout too. -/
theorem detected_iff (c : Config) (p : Key) (run : List Label) :
    (watched c p).Always (Detected p) (watched c p).init run ↔
      (watched c p).Meets (LastPingOld c) (watched c p).init run := by
  have hinit : Recorded p (watched c p).init ∧ Detected p (watched c p).init := by
    constructor <;> intro h <;> cases h
  refine Machine.always_iff_meets (fun _ _ _ hx hy => recorded_step hx hy)
    (fun x l y hx hdetected hy => ?_) hinit.1 hinit.2
  by_cases hl : l = .check
  · subst hl
    exact detected_check hx hy
  · refine iff_of_true (detected_step hdetected hy hl) ?_
    cases l with
    | check => exact absurd rfl hl
    | _ => trivial

/-- A round with one peer: PING, sleep and check. -/
def round (c : Config) : List Label := [.list, .sent true, .tick c.interval, .check]

/-- The defaults of the monitor, and five rounds with a connected peer that never answers. -/
def fiveRounds : List Label :=
  [.register { nodeId := .str "p", ip := "10.0.0.2", tcpPort := .int 50001 },
    .connect (.str "p")] ++
    round {} ++ round {} ++ round {} ++ round {} ++ round {}

lemma run_fiveRounds :
    ((watched {} (.str "p")).run (watched {} (.str "p")).init fiveRounds).map
      (fun x => (x.2.overdue, x.1.phase)) = some (true, .listing) := by decide +kernel

/-- **A silent peer stays**: every PING hides that the one before was not answered. -/
theorem silent_peer_stays : ¬ ∀ (c : Config) (p : Key) (run : List Label),
    c.interval < c.timeout → (watched c p).Always (Detected p) (watched c p).init run := by
  intro hall
  obtain ⟨x, hrun, hx⟩ := Option.map_eq_some_iff.1 run_fiveRounds
  obtain ⟨hoverdue, hphase⟩ := Prod.mk.inj hx
  have hdefaults : (5 : ℚ) < 15 := by decide +kernel
  obtain ⟨dead, hdead, -⟩ := (hall {} (.str "p") fiveRounds hdefaults).last hrun hoverdue
  rw [hphase] at hdead
  cases hdead

end DistriStore.Heartbeat
