import DistriStore.Network.Duplex

/-!
# Which messages of a connection are handled

`_handle_client` goes on reading after the handshake, `connect_to_peer` returns.  So the messages
of the end that has dialled are all handled, in order, each once, and those of the other end
never are: a connection that has come to rest has delivered everything exactly when the accepting
end has sent nothing over it (`delivered_iff_oneWay`).
-/

namespace DistriStore.Duplex

open Lib Connection

/-- The connection is open, and no task at either end can read further bytes from it. -/
structure Quiet (s : State) : Prop where
  opened : s.isOpen = true
  acceptor : s.acceptor.phase.handled = true → s.acceptor.inbox = []
  dialer : s.dialer.phase = .awaitAck → s.dialer.inbox = []

/-- Each message handler has been given the messages sent at the other end. -/
def Delivered (s : State) : Prop :=
  s.acceptor.handled = s.dialer.sent ∧ s.dialer.handled = s.acceptor.sent

/-- The accepting end sends nothing. -/
def OneWay (_ : State) : Label → Prop
  | .send .acceptor _ => False
  | _ => True

variable {c : Config} {s t : State}

/-- The direction that is read delivers. -/
lemma Inv.handled_eq_sent (h : Inv c s) (hq : Quiet s) : s.acceptor.handled = s.dialer.sent := by
  obtain ⟨read, hread⟩ := Option.ne_none_iff_exists'.1 (h.opened hq.opened)
  have heq := h.toAcceptor read hread
  have hinbox : s.acceptor.inbox = [] := hq.acceptor (by
    unfold readBy at hread
    split at hread <;> simp_all [Phase.handled])
  rw [hinbox, List.map_nil, List.append_nil] at heq
  by_cases hreg : s.acceptor.phase.registered = true
  · have hread' : read = c.auth :: c.hello :: s.acceptor.handled := by
      unfold readBy at hread
      split at hread <;> simp_all [Phase.registered]
    rw [hread'] at heq
    have hgreet : s.acceptor.handled ++ s.greetings = s.dialer.sent := by simpa using heq
    rcases h.greeted with hnil | hnil
    · rwa [hnil, List.append_nil] at hgreet
    · rw [hnil, List.append_eq_nil_iff] at hgreet
      rw [hnil, hgreet.1]
  · -- the handshake is not over, so neither end has done anything
    have hfresh : s.acceptor.phase = .awaitAuth ∨ s.acceptor.phase = .awaitHandshake := by
      unfold readBy at hread
      split at hread <;> simp_all [Phase.registered]
    rw [(h.silent (h.fresh hfresh)).2]
    rcases h.greeted with hnil | hnil
    · have hlength : read.length ≤ 1 := by
        rcases hfresh with hp | hp <;> rw [readBy, hp] at hread <;> simp [← Option.some.inj hread]
      rw [hnil, List.append_nil] at heq
      rw [heq] at hlength
      simp at hlength
    · exact hnil.symm

lemma Inv.delivered_iff (h : Inv c s) (hq : Quiet s) : Delivered s ↔ s.acceptor.sent = [] := by
  rw [Delivered, h.deaf, eq_comm (a := [])]
  exact and_iff_right (h.handled_eq_sent hq)

/-! ## Who sends -/

lemma sent_apply (side : Side) (msg : Value) (e : Effect) :
    (s.apply c side msg e).acceptor.sent = s.acceptor.sent := by
  cases side <;> cases e <;> try rfl
  all_goals
    simp only [State.apply]
    split <;> rfl

/-- A step adds a message to those of the accepting end exactly when it sends one there. -/
lemma sent_exec {l : Label} (ht : exec c s l = some t) :
    ∃ new, t.acceptor.sent = s.acceptor.sent ++ new ∧ (new = [] ↔ OneWay s l) := by
  cases l with
  | greet =>
    obtain ⟨message, rest, -, rfl⟩ := exec_greet ht
    exact ⟨[], by simp [State.write], by simp [OneWay]⟩
  | receive side =>
    obtain ⟨f, rest, e, -, -, -, rfl⟩ := exec_receive ht
    refine ⟨[], ?_, by simp [OneWay]⟩
    rw [sent_apply, List.append_nil]
    cases side <;> rfl
  | noMessage side =>
    obtain ⟨e, -, rfl⟩ := exec_noMessage ht
    exact ⟨[], by rw [sent_apply, List.append_nil], by simp [OneWay]⟩
  | done side ok =>
    obtain ⟨e, -, rfl⟩ := exec_done ht
    exact ⟨[], by rw [sent_apply, List.append_nil], by simp [OneWay]⟩
  | send side f =>
    obtain ⟨-, rfl⟩ := exec_send ht
    cases side with
    | dialer => exact ⟨[], by simp [State.set, State.write], by simp [OneWay]⟩
    | acceptor => exact ⟨[f.message], rfl, by simp [OneWay]⟩
  | addPeer side now =>
    obtain ⟨r, -, -, rfl⟩ := exec_addPeer ht
    exact ⟨[], by cases side <;> simp [State.set, State.get], by simp [OneWay]⟩
  | others side peers =>
    rw [← Option.some.inj ht]
    exact ⟨[], by cases side <;> simp [State.set, State.get], by simp [OneWay]⟩
  | lost =>
    rw [← Option.some.inj ht]
    exact ⟨[], by simp, by simp [OneWay]⟩

lemma sent_run (ls : List Label) (s t : State) (hrun : (machine c).run s ls = some t) :
    ∃ new, t.acceptor.sent = s.acceptor.sent ++ new ∧
      (new = [] ↔ (machine c).Meets OneWay s ls) := by
  induction ls generalizing s with
  | nil =>
    rw [Machine.run_nil, Option.some.injEq] at hrun
    exact ⟨[], by simp [hrun], by simp [Machine.Meets]⟩
  | cons l ls ih =>
    rw [Machine.run_cons, Option.bind_eq_some_iff] at hrun
    obtain ⟨s', hstep, hrun⟩ := hrun
    obtain ⟨new, hnew, hiff⟩ := sent_exec hstep
    obtain ⟨later, hlater, hiff'⟩ := ih s' hrun
    refine ⟨new ++ later, by rw [hlater, hnew, List.append_assoc], ?_⟩
    rw [Machine.meets_cons hstep, List.append_eq_nil_iff, hiff, hiff']

/-- **Only one direction delivers.** In a run in which the accepting end sends nothing, every
message is handled exactly once and in order by the time the connection has come to rest; and a
run that comes to rest has delivered all messages only if the accepting end has sent none. -/
theorem delivered_iff_oneWay (c : Config) (ls : List Label) :
    ((machine c).Meets OneWay (init c) ls →
      (machine c).Always (fun s => Quiet s → Delivered s) (init c) ls) ∧
    ∀ s, (machine c).run (init c) ls = some s → Quiet s →
      (Delivered s ↔ (machine c).Meets OneWay (init c) ls) := by
  constructor
  · intro hmeets
    have hinv : (machine c).Always (fun s => Inv c s ∧ s.acceptor.sent = []) (init c) ls := by
      refine Machine.always_of_meets (fun s l t hs ht hl => ?_) ⟨inv_init c, rfl⟩ hmeets
      obtain ⟨new, hnew, hiff⟩ := sent_exec ht
      exact ⟨inv_exec hs.1 ht, by rw [hnew, hs.2, hiff.2 hl, List.append_nil]⟩
    exact hinv.imp fun s hs hq => (hs.1.delivered_iff hq).2 hs.2
  · intro s hrun hq
    have hinv : Inv c s := inv_of_reachable ⟨ls, hrun⟩
    obtain ⟨new, hnew, hiff⟩ := sent_run ls _ _ hrun
    rw [hinv.delivered_iff hq, hnew, ← hiff]
    exact Iff.rfl

/-! ## An answer that nobody reads -/

def twoNodes : Config where
  dialer := ⟨"aa", "a", "10.0.0.1", 9000, 8888, "key"⟩
  acceptor := ⟨"bb", "b", "10.0.0.2", 9001, 8889, "key"⟩
  port := 9001
  dialerPeers := ∅
  acceptorPeers := ∅

/-- The handshake, and then a PING from the node that was dialled. -/
def answered : List Label :=
  [.greet, .greet, .receive .acceptor, .receive .acceptor, .done .acceptor true, .receive .dialer,
    .send .acceptor (.ofValue (.dict [(.str "type", .str "PING")]))]

/-- What is seen of a state in the counterexample. -/
def glance (s : State) : Bool × Phase × ℕ × Phase × ℕ × ℕ :=
  (s.isOpen, s.acceptor.phase, s.acceptor.inbox.length, s.dialer.phase, s.dialer.handled.length,
    s.acceptor.sent.length)

/-- Any two nodes with one key can have this run. -/
lemma glance_answered (c : Config) (hkey : c.dialer.swarmKey = c.acceptor.swarmKey) :
    ((machine c).run (init c) answered).map glance =
      some (true, .looping, 0, .connected, 0, 1) := by
  simp [answered, Machine.run_cons, machine, exec, init, State.write, State.get, State.set,
    State.apply, State.mayRead, Config.swarmKey, Config.auth, Config.hello, Config.ack, hkey,
    Frame.ofValue, Phase.resume, Phase.registered, onAuth_authHandshakeMsg,
    onHandshake_handshakeMsg, onAck_handshakeMsg, glance]

/-- **The answers of a node that was dialled are lost**: its `send_to_peer` returns True, and no
task at the other end reads. -/
theorem answer_never_handled : ¬ ∀ (c : Config) (s : State),
    (machine c).Reachable s → Quiet s → Delivered s := by
  intro hall
  obtain ⟨s, hrun, hs⟩ := Option.map_eq_some_iff.1 (glance_answered twoNodes rfl)
  simp only [glance, Prod.mk.injEq, List.length_eq_zero_iff] at hs
  obtain ⟨hopen, -, hinbox, hdialer, hhandled, hsent⟩ := hs
  have hdelivered := hall twoNodes s ⟨answered, hrun⟩
    ⟨hopen, fun _ => hinbox, fun h => by simp [hdialer] at h⟩
  rw [← hdelivered.2, hhandled] at hsent
  simp at hsent

end DistriStore.Duplex
