import DistriStore.Api.Chat
import Mathlib.Algebra.BigOperators.Group.Finset.Basic
import Mathlib.Logic.Relation

/-!
# What a flood reaches

While the connections stay as they are and no send raises, the flood of a message is a search of
the directed graph of who has dialled whom, carried out by the nodes in whatever order they are
scheduled and the copies arrive.  When nothing is left to do, the message has been shown at exactly
the nodes that can be reached from its author, as the author has written it (`shown_iff_linked`).
With no more messages than a node remembers, each of these nodes has shown it once, and has sent one
copy of it to each of its peers, those included that do not read it (`flood_exact`); and such a
flood comes to an end (`flood_ends`).

Beyond that number neither holds: see `popped_message_shown_again`.
-/

namespace DistriStore.Chat

open Lib

variable {N : Type}

/-- The connections stay as they are, and no send raises. -/
def Label.Steady : Label N → Prop
  | connect .. => False
  | disconnect .. => False
  | send _ ok => ok = true
  | _ => True

instance : DecidablePred (Label.Steady (N := N))
  | .connect .. => inferInstanceAs (Decidable False)
  | .disconnect .. => inferInstanceAs (Decidable False)
  | .send _ ok => inferInstanceAs (Decidable (ok = true))
  | .write .. => inferInstanceAs (Decidable True)
  | .receive .. => inferInstanceAs (Decidable True)
  | .flood .. => inferInstanceAs (Decidable True)

/-- Nobody writes. -/
def Label.Silent : Label N → Prop
  | write .. => False
  | _ => True

instance : DecidablePred (Label.Silent (N := N))
  | .write .. => inferInstanceAs (Decidable False)
  | .connect .. => inferInstanceAs (Decidable True)
  | .disconnect .. => inferInstanceAs (Decidable True)
  | .send .. => inferInstanceAs (Decidable True)
  | .receive .. => inferInstanceAs (Decidable True)
  | .flood .. => inferInstanceAs (Decidable True)

/-- Nothing is left to do: no copy is on its way to a node that reads it, and every task has gone
through its list. -/
structure Done (s : State N) : Prop where
  flight : s.flight.length = 0
  tasks : ∀ task ∈ s.tasks, task.stage ≠ .showing ∧ task.stage.rest = []

/-- The peers of a node, in the order of `connections`. -/
def State.peers (s : State N) (a : N) : List N := (s.nodes a).connections.keys

section Linked

variable [DecidableEq N]

/-- Node `a` sends to `b` over a connection that it has dialled. -/
def Dialled (s : State N) (a b : N) : Prop := (s.nodes a).connections.get? b = some .dialled

instance (s : State N) (a b : N) : Decidable (Dialled s a b) :=
  inferInstanceAs (Decidable ((s.nodes a).connections.get? b = some .dialled))

/-- There is a path of connections, each dialled by the node that is nearer to the first one. -/
def Linked (s : State N) : N → N → Prop := Relation.ReflTransGen (Dialled s)

lemma Dialled.mem_peers {s : State N} {a b : N} (h : Dialled s a b) : b ∈ s.peers a :=
  Dict.mem_keys_iff.2 ⟨.dialled, h⟩

end Linked

/-- No node has taken a message with this id. -/
def New (s : State N) (msgId : String) : Prop := ∀ x ∈ s.taken, x.msg.msgId ≠ msgId

/-! ## One message for each id -/

/-- What nodes take and what is in flight are the messages of users, and no two of these have the
same id. -/
structure Genuine (s : State N) : Prop where
  flight : ∀ copy ∈ s.flight, ∃ x ∈ s.taken, x.msg = copy.msg
  same : ∀ x ∈ s.taken, ∀ y ∈ s.taken, x.msg.msgId = y.msg.msgId → x.msg = y.msg
  author : ∀ x ∈ s.taken, ∀ y ∈ s.taken, x.source = .user → y.source = .user →
    x.msg.msgId = y.msg.msgId → x.node = y.node

section Genuine

variable {s t : State N} {a : N} {msg : ChatMsg} {source : Source} {popped : Option String}

lemma Genuine.quiet (hs : Genuine s) (hst : Quiet s t) : Genuine t where
  flight copy hcopy := by
    rw [hst.taken]
    exact (hst.flight copy hcopy).elim (hs.flight copy) id
  same := by
    rw [hst.taken]
    exact hs.same
  author := by
    rw [hst.taken]
    exact hs.author

lemma Takes.mem_taken_iff (h : Takes a msg source popped s t) {x : Taken N} :
    x ∈ t.taken ↔ x ∈ s.taken ∨ x = ⟨a, msg, source⟩ := by
  rw [h.taken, List.mem_append, List.mem_singleton]

/-- A user writes a message with a new id, or a copy arrives. -/
lemma Genuine.takes (hs : Genuine s) (h : Takes a msg source popped s t)
    (hmsg : New s msg.msgId ∨ source = .peer ∧ ∃ x ∈ s.taken, x.msg = msg) : Genuine t where
  flight copy hcopy := by
    rw [h.flight] at hcopy
    obtain ⟨x, hx, hxmsg⟩ := hs.flight copy hcopy
    exact ⟨x, h.mem_taken_iff.2 (Or.inl hx), hxmsg⟩
  same := by
    have hnew : ∀ x ∈ s.taken, x.msg.msgId = msg.msgId → x.msg = msg := by
      intro x hx hid
      rcases hmsg with hnew | ⟨-, y, hy, rfl⟩
      · exact absurd hid (hnew x hx)
      · exact hs.same x hx y hy hid
    intro x hx y hy hid
    rcases h.mem_taken_iff.1 hx with hx | rfl <;> rcases h.mem_taken_iff.1 hy with hy | rfl
    · exact hs.same x hx y hy hid
    · exact hnew x hx hid
    · exact (hnew y hy hid.symm).symm
    · rfl
  author := by
    have hnew : ∀ x ∈ s.taken, source = .user → x.msg.msgId ≠ msg.msgId := by
      intro x hx huser
      rcases hmsg with hnew | ⟨hpeer, -⟩
      · exact hnew x hx
      · exact absurd (huser.symm.trans hpeer) (by decide)
    intro x hx y hy hxuser hyuser hid
    rcases h.mem_taken_iff.1 hx with hx | rfl <;> rcases h.mem_taken_iff.1 hy with hy | rfl
    · exact hs.author x hx y hy hxuser hyuser hid
    · exact absurd hid (hnew x hx hyuser)
    · exact absurd hid.symm (hnew y hy hxuser)
    · rfl

variable [DecidableEq N] {profile : N → Profile} {l : Label N}

lemma Genuine.exec (hs : Genuine s) (h : exec profile s l = some t) : Genuine t := by
  cases l with
  | connect a b side => exact hs.quiet (quiet_exec_connect h)
  | disconnect a b => exact hs.quiet (quiet_exec_disconnect h)
  | write a text msgId timestamp popped =>
    rcases exec_write h with rfl | ⟨hfresh, msg, rfl, htakes⟩
    · exact hs
    · exact hs.takes htakes (Or.inl hfresh)
  | receive j popped =>
    obtain ⟨copy, hj, ⟨-, hquiet⟩ | ⟨-, htakes⟩⟩ := exec_receive h
    · exact hs.quiet hquiet
    · refine (hs.quiet (quiet_eraseIdx s j)).takes htakes (Or.inr ⟨rfl, ?_⟩)
      exact hs.flight copy (List.mem_of_getElem? hj)
  | flood i => exact hs.quiet (quiet_exec_flood h)
  | send i ok => exact hs.quiet (quiet_exec_send h)

lemma genuine_of_reachable (hs : (machine profile).Reachable s) : Genuine s := by
  refine hs.invariant ⟨fun copy hcopy => ?_, fun x hx => ?_, fun x hx => ?_⟩
    fun s l t hs h => hs.exec h
  · cases hcopy
  · cases hx
  · cases hx

lemma inv_of_reachable (hs : (machine profile).Reachable s) : Inv s :=
  hs.invariant (inv_init profile) fun _ _ _ hs h => inv_exec hs h

end Genuine

/-! ## The search of the graph -/

lemma mem_keys_of_mem_taken {t : State N} {x : Taken N} (hx : x ∈ t.taken) :
    (x.node, x.msg.msgId) ∈ t.keys :=
  List.mem_map_of_mem hx

section Spread

variable [DecidableEq N]

/-- The author of a message that has come to `a` along connections of `s`. -/
def Author (s t : State N) (msg : ChatMsg) (a : N) : Prop :=
  ∃ y ∈ t.taken, y.source = .user ∧ y.msg = msg ∧ Linked s y.node a

/-- What holds of the messages with new ids after steady steps from `s` to `t`: a node that floods a
message has or had all its peers on its list, a peer that it has dialled and sent to has taken the
message or there is a copy on the way to it, and whatever has come anywhere has come along
connections. -/
structure Spread (s t : State N) : Prop where
  connections : ∀ a, (t.nodes a).connections = (s.nodes a).connections
  list : ∀ task ∈ t.tasks, New s task.msg.msgId → task.stage ≠ .showing →
    task.stage.sent ++ task.stage.rest = s.peers task.node
  sent : ∀ task ∈ t.tasks, New s task.msg.msgId → ∀ b ∈ task.stage.sent, Dialled s task.node b →
    (b, task.msg.msgId) ∈ t.keys ∨ ⟨b, task.msg⟩ ∈ t.flight
  taken : ∀ x ∈ t.taken, New s x.msg.msgId → Author s t x.msg x.node
  flight : ∀ copy ∈ t.flight, New s copy.msg.msgId → Author s t copy.msg copy.receiver

variable {s t u : State N} {a : N} {msg : ChatMsg} {source : Source} {popped : Option String}
  {i j : ℕ} {task : Task N} {copy : Copy N}

lemma Spread.peers (h : Spread s t) (a : N) : t.peers a = s.peers a := by
  rw [State.peers, h.connections, State.peers]

/-- At first there is nothing with a new id. -/
lemma Spread.refl (hs : Inv s) : Spread s s where
  connections _ := rfl
  list task htask hnew := absurd rfl (hnew task.toTaken (List.mem_map_of_mem htask))
  sent task htask hnew := absurd rfl (hnew task.toTaken (List.mem_map_of_mem htask))
  taken x hx hnew := absurd rfl (hnew x hx)
  flight copy hcopy hnew := by
    obtain ⟨x, hx, hid⟩ := hs.flight copy hcopy
    exact absurd hid (hnew x hx)

lemma Author.mono {b : N} (h : Author s t msg b) (htaken : ∀ x ∈ t.taken, x ∈ u.taken) :
    Author s u msg b := by
  obtain ⟨y, hy, hauthor⟩ := h
  exact ⟨y, htaken y hy, hauthor⟩

/-- A node takes a message that it has written or that has come along connections. -/
lemma Spread.takes (h : Spread s t) (htakes : Takes a msg source popped t u)
    (hmsg : New s msg.msgId → source = .user ∨ Author s t msg a) : Spread s u := by
  have hmono : ∀ x ∈ t.taken, x ∈ u.taken := fun x hx => htakes.mem_taken_iff.2 (Or.inl hx)
  have htasks : ∀ task ∈ u.tasks, task ∈ t.tasks ∨ task.stage = .showing := by
    intro task htask
    rw [htakes.tasks, List.mem_append, List.mem_singleton] at htask
    rcases htask with htask | rfl
    · exact Or.inl htask
    · exact Or.inr rfl
  refine ⟨fun b => ?_, fun task htask hnew hstage => ?_, fun task htask hnew b hb hdialled => ?_,
    fun x hx hnew => ?_, fun copy hcopy hnew => ?_⟩
  · rw [htakes.connections]
    exact h.connections b
  · rcases htasks task htask with htask | hshowing
    · exact h.list task htask hnew hstage
    · exact absurd hshowing hstage
  · rcases htasks task htask with htask | hshowing
    · rw [htakes.keys, List.mem_append, htakes.flight]
      exact (h.sent task htask hnew b hb hdialled).imp_left Or.inl
    · rw [hshowing] at hb
      cases hb
  · rcases htakes.mem_taken_iff.1 hx with hx | rfl
    · exact (h.taken x hx hnew).mono hmono
    · rcases hmsg hnew with rfl | hauthor
      · exact ⟨_, hx, rfl, rfl, Relation.ReflTransGen.refl⟩
      · exact hauthor.mono hmono
  · rw [htakes.flight] at hcopy
    exact (h.flight copy hcopy hnew).mono hmono

/-- A copy arrives at a node that has taken its message. -/
lemma Spread.arrive (h : Spread s t) (hj : t.flight[j]? = some copy)
    (hknown : (copy.receiver, copy.msg.msgId) ∈ t.keys) :
    Spread s { t with flight := t.flight.eraseIdx j } where
  connections := h.connections
  list := h.list
  sent task htask hnew b hb hdialled := by
    rcases h.sent task htask hnew b hb hdialled with hkey | hflight
    · exact Or.inl hkey
    · obtain ⟨k, hk⟩ := List.mem_iff_getElem?.1 hflight
      by_cases hkj : k = j
      · rw [← hkj, hk, Option.some.injEq] at hj
        subst hj
        exact Or.inl hknown
      · exact Or.inr (List.mem_eraseIdx_iff_getElem?.2 ⟨k, hkj, hk⟩)
  taken := h.taken
  flight copy hcopy := h.flight copy (List.mem_of_mem_eraseIdx hcopy)

/-- A task goes on, and may send copies to peers of its node. -/
lemma Spread.setStage (h : Spread s t) (hi : t.tasks[i]? = some task) {stage : Stage N}
    {flight : List (Copy N)} (hkeep : ∀ copy ∈ t.flight, copy ∈ flight)
    (hlist : New s task.msg.msgId → stage ≠ .showing →
      stage.sent ++ stage.rest = s.peers task.node)
    (hsent : ∀ b ∈ stage.sent, Dialled s task.node b →
      b ∈ task.stage.sent ∨ ⟨b, task.msg⟩ ∈ flight)
    (hflight : ∀ copy ∈ flight, copy ∈ t.flight ∨
      copy.msg = task.msg ∧ Dialled s task.node copy.receiver) :
    Spread s { t.setStage i task stage with flight } := by
  have htask : task ∈ t.tasks := List.mem_of_getElem? hi
  have htaken : ({ t.setStage i task stage with flight } : State N).taken = t.taken :=
    map_set_of_eq hi rfl
  refine ⟨h.connections, fun task' htask' hnew hstage => ?_,
    fun task' htask' hnew b hb hdialled => ?_, fun x hx hnew => ?_, fun copy hcopy hnew => ?_⟩
  · rcases List.mem_or_eq_of_mem_set htask' with hmem | rfl
    · exact h.list task' hmem hnew hstage
    · exact hlist hnew hstage
  · rw [State.keys, htaken]
    rcases List.mem_or_eq_of_mem_set htask' with hmem | rfl
    · exact (h.sent task' hmem hnew b hb hdialled).imp_right (hkeep _)
    · rcases hsent b hb hdialled with hb | hb
      · exact (h.sent task htask hnew b hb hdialled).imp_right (hkeep _)
      · exact Or.inr hb
  · rw [htaken] at hx
    exact (h.taken x hx hnew).mono fun y hy => htaken ▸ hy
  · refine Author.mono (t := t) ?_ fun y hy => htaken ▸ hy
    rcases hflight copy hcopy with hcopy | ⟨hmsg, hdialled⟩
    · exact h.flight copy hcopy hnew
    · rw [hmsg] at hnew ⊢
      obtain ⟨y, hy, huser, hymsg, hlinked⟩ :=
        h.taken task.toTaken (List.mem_map_of_mem htask) hnew
      exact ⟨y, hy, huser, hymsg, hlinked.tail hdialled⟩

end Spread

section Network

variable [DecidableEq N] {profile : N → Profile} {s t u : State N} {l : Label N} {i : ℕ}
  {task : Task N}

lemma exec_flood_eq (h : exec profile t (.flood i) = some u) :
    ∃ task, t.tasks[i]? = some task ∧ task.stage = .showing ∧
      u = t.setStage i task (.flooding [] (t.peers task.node)) := by
  obtain ⟨task, hi, h⟩ := Option.bind_eq_some_iff.1 h
  split at h
  · next hstage => exact ⟨task, hi, hstage, (Option.some.inj h).symm⟩
  · cases h

lemma exec_send_eq {ok : Bool} (h : exec profile t (.send i ok) = some u) :
    ∃ task sent b rest, t.tasks[i]? = some task ∧ task.stage = .flooding sent (b :: rest) ∧
      u = t.sendToPeer i task sent b rest ok := by
  obtain ⟨task, hi, h⟩ := Option.bind_eq_some_iff.1 h
  split at h
  · next sent b rest hstage => exact ⟨task, sent, b, rest, hi, hstage, (Option.some.inj h).symm⟩
  · cases h

lemma Spread.sendToPeer (h : Spread s t) {sent rest : List N} {b : N}
    (hi : t.tasks[i]? = some task) (hstage : task.stage = .flooding sent (b :: rest)) :
    Spread s (t.sendToPeer i task sent b rest true) := by
  have hnew (hnew : New s task.msg.msgId) : sent ++ b :: rest = s.peers task.node := by
    have hlist := h.list task (List.mem_of_getElem? hi) hnew
    rw [hstage] at hlist
    exact hlist (by simp)
  rw [State.sendToPeer]
  cases hside : (t.nodes task.node).connections.get? b with
  | none =>
    -- the peers of the node are still those on the list
    refine h.setStage hi (fun copy => id) (fun hid _ => ?_) (fun c hc _ => ?_) fun copy => Or.inl
    · have hpeer : b ∈ t.peers task.node := by
        rw [h.peers, ← hnew hid]
        simp
      obtain ⟨side, hget⟩ := Dict.mem_keys_iff.1 hpeer
      rw [hside] at hget
      cases hget
    · rw [hstage]
      exact Or.inl hc
  | some side =>
    rw [h.connections] at hside
    refine h.setStage hi (fun copy => List.mem_append_left _) (fun hid _ => ?_)
      (fun c hc hdialled => ?_) fun copy hcopy => ?_
    · rw [← hnew hid]
      exact List.append_assoc ..
    · rcases List.mem_append.1 hc with hc | hc
      · rw [hstage]
        exact Or.inl hc
      · obtain rfl := List.mem_singleton.1 hc
        obtain rfl := Option.some.inj (hside.symm.trans hdialled)
        exact Or.inr (List.mem_append_right _ (List.mem_singleton_self _))
    · refine (List.mem_append.1 hcopy).imp_right fun hcopy => ?_
      obtain ⟨rfl, rfl⟩ := eq_of_mem_read hcopy
      exact ⟨rfl, hside⟩

lemma Spread.exec (hinv : Inv t) (h : Spread s t) (hl : l.Steady)
    (hexec : exec profile t l = some u) : Spread s u := by
  cases l with
  | connect a b side => cases hl
  | disconnect a b => cases hl
  | write a text msgId timestamp popped =>
    rcases exec_write hexec with rfl | ⟨-, msg, -, htakes⟩
    · exact h
    · exact h.takes htakes fun _ => Or.inl rfl
  | receive j popped =>
    obtain ⟨copy, hj, ⟨hseen, -⟩ | ⟨-, htakes⟩⟩ := exec_receive hexec
    · have hu : u = { t with flight := t.flight.eraseIdx j } := by
        simpa [Chat.exec, hj, State.handleTcpChat, hseen, eq_comm] using hexec
      rw [hu]
      exact h.arrive hj ((hinv.known _ _).2 (Or.inl hseen))
    · -- the node takes the message first, and then the copy is no longer in flight
      have htakes' : Takes copy.receiver copy.msg .peer popped t { u with flight := t.flight } :=
        ⟨htakes.add, htakes.popped, htakes.others, htakes.connections, htakes.tasks, rfl⟩
      have hauthor := h.flight copy (List.mem_of_getElem? hj)
      have hu : u = { u with flight := t.flight.eraseIdx j } := by
        rw [← show u.flight = t.flight.eraseIdx j from htakes.flight]
      rw [hu]
      exact (h.takes htakes' fun hnew => Or.inr (hauthor hnew)).arrive hj
        (mem_keys_of_mem_taken (htakes'.mem_taken_iff.2 (Or.inr rfl)))
  | flood i =>
    obtain ⟨task, hi, hstage, rfl⟩ := exec_flood_eq hexec
    refine h.setStage hi (fun copy => id) (fun _ _ => ?_) (fun b hb => ?_) fun copy => Or.inl
    · exact h.peers task.node
    · cases hb
  | send i ok =>
    obtain ⟨task, sent, b, rest, hi, hstage, rfl⟩ := exec_send_eq hexec
    rw [show ok = true from hl]
    exact h.sendToPeer hi hstage

/-- A state that is reached by steady steps. -/
lemma spread_of_steady (hs : (machine profile).Reachable s)
    (ht : ((machine profile).restrict Label.Steady s).Reachable t) : Spread s t := by
  have hall : (machine profile).Reachable t ∧ Spread s t := by
    refine ht.invariant (I := fun t => (machine profile).Reachable t ∧ Spread s t)
      ⟨hs, Spread.refl (inv_of_reachable hs)⟩ ?_
    rintro t l u ⟨hreach, hspread⟩ h
    obtain ⟨hl, h⟩ := Machine.exec_restrict_eq_some.1 h
    exact ⟨hreach.step h, hspread.exec (inv_of_reachable hreach) hl h⟩
  exact hall.2

end Network

/-! ## A short line of nodes -/

def fourNodes : Fin 4 → Profile := fun a => ⟨toString a.val, toString a.val⟩

/-- The first node has dialled the second, the second the third, and the fourth the first. -/
def lineLabels : List (Label (Fin 4)) :=
  [.connect 0 1 .dialled, .connect 1 0 .accepted, .connect 1 2 .dialled, .connect 2 1 .accepted,
    .connect 3 0 .dialled, .connect 0 3 .accepted]

def lineState : State (Fin 4) :=
  ((machine fourNodes).run (machine fourNodes).init lineLabels).getD {}

/-- The user of the first one writes a message, and it spreads, but not to the fourth. -/
def helloLabels : List (Label (Fin 4)) :=
  [.write 0 "hello" "a1" 0 none, .flood 0, .send 0 true, .send 0 true, .receive 0 none, .flood 1,
    .send 1 true, .send 1 true, .receive 0 none, .flood 2, .send 2 true]

def helloState : State (Fin 4) := ((machine fourNodes).run lineState helloLabels).getD {}

def helloMsg : ChatMsg := ⟨"a1", "0", "0", "hello", 0⟩

lemma reachable_lineState : (machine fourNodes).Reachable lineState := ⟨lineLabels, rfl⟩

lemma reachable_helloState :
    ((machine fourNodes).restrict Label.Steady lineState).Reachable helloState :=
  ⟨helloLabels, rfl⟩

lemma done_helloState : Done helloState := ⟨rfl, by decide⟩

lemma mem_helloState : ⟨0, helloMsg, .user⟩ ∈ helloState.taken :=
  List.mem_of_getElem? (show helloState.taken[0]? = some ⟨0, helloMsg, .user⟩ from rfl)

lemma linked_line (b : Fin 4) : b ∈ ({0, 1, 2} : Finset (Fin 4)) ↔ Linked lineState 0 b := by
  have h01 : Linked lineState 0 1 := .tail .refl (by decide)
  have h02 : Linked lineState 0 2 := .tail h01 (by decide)
  constructor
  · intro hb
    rcases (by simpa using hb : b = 0 ∨ b = 1 ∨ b = 2) with rfl | rfl | rfl
    · exact .refl
    · exact h01
    · exact h02
  · intro hlinked
    have hclosed : ∀ a ∈ ({0, 1, 2} : Finset (Fin 4)), ∀ b, Dialled lineState a b →
        b ∈ ({0, 1, 2} : Finset (Fin 4)) := by decide
    induction hlinked with
    | refl => decide
    | tail _ hdialled ih => exact hclosed _ ih _ hdialled

/-! ## What is shown in the end -/

section Shown

variable [DecidableEq N] {s t : State N} {x : Taken N} {a b : N}

/-- When nothing is left to do, a node that has taken a message has sent it to all its peers. -/
lemma Spread.sent_eq (h : Spread s t) (hdone : Done t) {task : Task N} (htask : task ∈ t.tasks)
    (hnew : New s task.msg.msgId) : task.stage.sent = s.peers task.node := by
  obtain ⟨hstage, hrest⟩ := hdone.tasks task htask
  rw [← h.list task htask hnew hstage, hrest, List.append_nil]

/-- And those that it has dialled have taken it. -/
lemma Spread.closed (h : Spread s t) (hdone : Done t) {msgId : String} (hnew : New s msgId)
    (ha : (a, msgId) ∈ t.keys) (hdialled : Dialled s a b) : (b, msgId) ∈ t.keys := by
  obtain ⟨x, hx, hkey⟩ := List.mem_map.1 ha
  obtain ⟨task, htask, rfl⟩ := List.mem_map.1 hx
  obtain ⟨rfl, rfl⟩ := Prod.mk.inj hkey
  have hb : b ∈ task.stage.sent := by
    rw [h.sent_eq hdone htask hnew]
    exact hdialled.mem_peers
  rcases h.sent task htask hnew b hb hdialled with hkey | hflight
  · exact hkey
  · rw [List.eq_nil_of_length_eq_zero hdone.flight] at hflight
    cases hflight

variable {profile : N → Profile}

/-- When nothing is left to do, a message has been taken at the nodes that can be reached from its
author. -/
lemma mem_keys_iff_linked (hs : (machine profile).Reachable s)
    (ht : ((machine profile).restrict Label.Steady s).Reachable t) (hdone : Done t)
    (hx : x ∈ t.taken) (huser : x.source = .user) (hnew : New s x.msg.msgId) :
    (b, x.msg.msgId) ∈ t.keys ↔ Linked s x.node b := by
  have hspread := spread_of_steady hs ht
  have hgenuine := genuine_of_reachable (hs.of_restrict ht)
  constructor
  · intro hkey
    obtain ⟨z, hz, hkey⟩ := List.mem_map.1 hkey
    obtain ⟨rfl, hid⟩ := Prod.mk.inj hkey
    obtain ⟨y, hy, hyuser, hmsg, hlinked⟩ := hspread.taken z hz (hid ▸ hnew)
    rwa [hgenuine.author x hx y hy huser hyuser (by rw [hmsg, hid])]
  · intro hlinked
    induction hlinked with
    | refl => exact mem_keys_of_mem_taken hx
    | tail _ hdialled ih => exact hspread.closed hdone hnew ih hdialled

/-- The source that a node gives with a message. -/
def sourceAt (author b : N) : Source := if b = author then .user else .peer

/-- What is shown at a node under the id of a message. -/
def State.shownAs (t : State N) (b : N) (msgId : String) : List Payload :=
  (t.taken.filter fun z => z.key = (b, msgId)).map fun z => z.msg.payload z.source

/-- A message that is taken once at a node is shown as its author has written it. -/
lemma shownAs_of_mem (hgenuine : Genuine t) (hnodup : t.keys.Nodup) (hx : x ∈ t.taken)
    (huser : x.source = .user) (hkey : (b, x.msg.msgId) ∈ t.keys) :
    t.shownAs b x.msg.msgId = [x.msg.payload (sourceAt x.node b)] := by
  obtain ⟨z, hz, hzkey⟩ := List.mem_map.1 hkey
  rw [State.shownAs, ← hzkey, filter_key_eq hnodup hz]
  obtain ⟨rfl, hid⟩ := Prod.mk.inj hzkey
  have hsource : z.source = sourceAt x.node z.node := by
    unfold sourceAt
    split
    · next hnode =>
      -- the author has taken it once, when he wrote it
      have hxz : x.key = z.key := Prod.ext hnode.symm hid.symm
      have hx' : x ∈ t.taken.filter fun y => y.key = z.key := by simp [hx, hxz]
      rw [filter_key_eq hnodup hz, List.mem_singleton] at hx'
      rw [← hx', huser]
    · next hnode =>
      cases hz' : z.source with
      | user => exact absurd (hgenuine.author z hz x hx hz' huser hid) hnode
      | peer => rfl
  rw [List.map_singleton, hsource, hgenuine.same z hz x hx hid]

/-- **When nothing is left to do, a message has been shown at exactly the nodes that can be reached
from its author.** -/
theorem shown_iff_linked (hs : (machine profile).Reachable s)
    (ht : ((machine profile).restrict Label.Steady s).Reachable t) (hdone : Done t)
    (hx : x ∈ t.taken) (huser : x.source = .user) (hnew : New s x.msg.msgId) (b : N) :
    (∃ source, x.msg.payload source ∈ t.shown b) ↔ Linked s x.node b := by
  rw [← mem_keys_iff_linked hs ht hdone hx huser hnew]
  have hgenuine := genuine_of_reachable (hs.of_restrict ht)
  constructor
  · rintro ⟨source, hshown⟩
    obtain ⟨z, hz, hpayload⟩ := List.mem_map.1 hshown
    obtain ⟨hz, hnode⟩ := List.mem_filter.1 hz
    have hid : z.msg.msgId = x.msg.msgId := Value.str.inj (congrArg Payload.msgId hpayload)
    rw [← hid, ← of_decide_eq_true hnode]
    exact mem_keys_of_mem_taken hz
  · intro hkey
    obtain ⟨z, hz, hkey⟩ := List.mem_map.1 hkey
    obtain ⟨rfl, hid⟩ := Prod.mk.inj hkey
    refine ⟨z.source, List.mem_map.2 ⟨z, List.mem_filter.2 ⟨hz, decide_eq_true rfl⟩, ?_⟩⟩
    rw [hgenuine.same z hz x hx hid]

theorem shown_iff_linked_line :
    (∃ source, helloMsg.payload source ∈ helloState.shown 2) ↔ Linked lineState 0 2 :=
  shown_iff_linked reachable_lineState reachable_helloState done_helloState mem_helloState rfl
    (fun x hx => by cases hx) 2

/-- The copies of a message, when each node that has taken it has sent one to each of its peers. -/
lemma copies_eq (hnodup : t.keys.Nodup) {msgId : String} {reached : Finset N}
    (hreached : ∀ b, b ∈ reached ↔ (b, msgId) ∈ t.keys)
    (hsent : ∀ task ∈ t.tasks, task.msg.msgId = msgId → task.stage.sent = s.peers task.node) :
    t.copies msgId = ∑ b ∈ reached, (s.peers b).length := by
  let tasks := t.tasks.filter fun task => task.msg.msgId = msgId
  have hmem : ∀ task, task ∈ tasks ↔ task ∈ t.tasks ∧ task.msg.msgId = msgId := by
    simp [tasks]
  have hnodes : (tasks.map fun task => task.node).Nodup := by
    rw [State.keys, State.taken, List.map_map] at hnodup
    refine nodup_map_filter hnodup fun x y hx hy hnode => ?_
    rw [decide_eq_true_eq] at hx hy
    exact Prod.ext hnode (hx.trans hy.symm)
  have heq : (tasks.map fun task => task.node).toFinset = reached := by
    ext b
    rw [List.mem_toFinset, hreached, State.keys, State.taken, List.map_map, List.mem_map,
      List.mem_map]
    refine exists_congr fun task => ?_
    rw [hmem, and_assoc, Function.comp_apply, Taken.key, Prod.mk.injEq, and_comm (a := _ = b)]
  calc t.copies msgId
      = (tasks.map fun task => (s.peers task.node).length).sum := by
        refine congrArg List.sum (List.map_congr_left fun task htask => ?_)
        rw [hsent task ((hmem task).1 htask).1 ((hmem task).1 htask).2]
    _ = ((tasks.map fun task => task.node).map fun b => (s.peers b).length).sum := by
        rw [List.map_map]
        rfl
    _ = ∑ b ∈ reached, (s.peers b).length := by rw [← heq, List.sum_toFinset _ hnodes]

/-- **While no more messages have been written than a node remembers, a message that has spread has
been shown once at each node that can be reached from its author, as the author has written it,
nowhere else, and one copy of it has been sent over every connection of these nodes, whoever has
dialled it.** -/
theorem flood_exact [Fintype N] (hs : (machine profile).Reachable s)
    (ht : ((machine profile).restrict Label.Steady s).Reachable t) (hdone : Done t)
    (hfew : t.written.length ≤ maxSeen) (hx : x ∈ t.taken) (huser : x.source = .user)
    (hnew : New s x.msg.msgId) {reached : Finset N}
    (hreached : ∀ b, b ∈ reached ↔ Linked s x.node b) :
    (∀ b ∈ reached,
      t.shownAs b x.msg.msgId = [x.msg.payload (sourceAt x.node b)]) ∧
    (∀ b ∉ reached, t.shownAs b x.msg.msgId = []) ∧
    t.copies x.msg.msgId = ∑ b ∈ reached, (s.peers b).length := by
  have htreach := hs.of_restrict ht
  have hnodup : t.keys.Nodup :=
    (atMostOnce_iff (inv_of_reachable htreach)).1 (at_most_once_of_few htreach hfew)
  have hkeys : ∀ b, b ∈ reached ↔ (b, x.msg.msgId) ∈ t.keys := fun b =>
    (hreached b).trans (mem_keys_iff_linked hs ht hdone hx huser hnew).symm
  refine ⟨fun b hb => ?_, fun b hb => ?_, copies_eq hnodup hkeys fun task htask hid => ?_⟩
  · exact shownAs_of_mem (genuine_of_reachable htreach) hnodup hx huser ((hkeys b).1 hb)
  · refine List.map_eq_nil_iff.2 (List.filter_eq_nil_iff.2 fun z hz hkey => hb ?_)
    rw [hkeys, ← of_decide_eq_true hkey]
    exact List.mem_map_of_mem hz
  · exact (spread_of_steady hs ht).sent_eq hdone htask (hid ▸ hnew)

theorem flood_exact_line :
    (∀ b ∈ ({0, 1, 2} : Finset (Fin 4)),
      helloState.shownAs b "a1" = [helloMsg.payload (sourceAt 0 b)]) ∧
    (∀ b ∉ ({0, 1, 2} : Finset (Fin 4)), helloState.shownAs b "a1" = []) ∧
    helloState.copies "a1" = ∑ b ∈ {0, 1, 2}, (lineState.peers b).length :=
  flood_exact reachable_lineState reachable_helloState done_helloState (by decide) mem_helloState
    rfl (fun x hx => by cases hx) linked_line

end Shown

/-! ## The end of a flood -/

/-- The connections stay as they are, no send raises, and nobody writes. -/
def Label.Flooding (l : Label N) : Prop := l.Steady ∧ l.Silent

instance : DecidablePred (Label.Flooding (N := N)) :=
  fun l => inferInstanceAs (Decidable (l.Steady ∧ l.Silent))

/-- The steps that a task has left, those included that take the copies it sends; `n` bounds the
number of its peers. -/
def Stage.work (n : ℕ) : Stage N → ℕ
  | showing => 2 * n + 1
  | flooding _ rest => 2 * rest.length

/-- The steps that are left as long as no node takes a message. -/
def State.work (n : ℕ) (s : State N) : ℕ :=
  (s.tasks.map fun task => task.stage.work n).sum + s.flight.length

/-- The steps that are left when `k` messages have been written. -/
def State.remaining [Fintype N] (k : ℕ) (s : State N) : ℕ :=
  (Fintype.card N * k - s.keys.length) * (2 * Fintype.card N + 2) + s.work (Fintype.card N)

section Ends

variable {s t : State N} {a : N} {msg : ChatMsg} {source : Source} {popped : Option String}
  {i j : ℕ} {task : Task N} {n : ℕ}

lemma work_setStage (hi : s.tasks[i]? = some task) (stage : Stage N) :
    (s.setStage i task stage).work n + task.stage.work n = s.work n + stage.work n := by
  have hsum : ((s.tasks.set i { task with stage }).map fun task => task.stage.work n).sum +
      task.stage.work n = (s.tasks.map fun task => task.stage.work n).sum + stage.work n :=
    sum_map_set hi (fun task => task.stage.work n) { task with stage }
  simp only [State.work, State.setStage]
  omega

lemma Takes.work (h : Takes a msg source popped s t) :
    t.work n = s.work n + (2 * n + 1) := by
  simp only [State.work, h.tasks, h.flight, List.map_append, List.sum_append, List.map_singleton,
    List.sum_singleton, Stage.work]
  omega

/-- Every pair of a node and a message is taken once at most. -/
lemma length_keys_le [Fintype N] (hs : Short s) (hnodup : s.keys.Nodup) :
    s.keys.length ≤ Fintype.card N * s.written.toFinset.card := by
  classical
  have hsubset : s.keys.toFinset ⊆ Finset.univ ×ˢ s.written.toFinset := by
    intro key hkey
    obtain ⟨x, hx, rfl⟩ := List.mem_map.1 (List.mem_toFinset.1 hkey)
    exact Finset.mem_product.2 ⟨Finset.mem_univ _, List.mem_toFinset.2 (hs.written x hx)⟩
  calc s.keys.length
      = s.keys.toFinset.card := (List.toFinset_card_of_nodup hnodup).symm
    _ ≤ (Finset.univ ×ˢ s.written.toFinset).card := Finset.card_le_card hsubset
    _ = Fintype.card N * s.written.toFinset.card := by
      rw [Finset.card_product, Finset.card_univ]

/-- Taking a message makes more room for new steps than it uses. -/
lemma remaining_takes [Fintype N] {k : ℕ} (h : Takes a msg source popped s t)
    (hle : t.keys.length ≤ Fintype.card N * k) : t.remaining k < s.remaining k := by
  have hlength : t.keys.length = s.keys.length + 1 := by rw [h.keys, List.length_append]; rfl
  obtain ⟨m, hm⟩ : ∃ m, Fintype.card N * k = s.keys.length + 1 + m :=
    Nat.exists_eq_add_of_le (hlength ▸ hle)
  have hmul := Nat.succ_mul m (2 * Fintype.card N + 2)
  rw [State.remaining, State.remaining, h.work, hlength, hm, Nat.add_sub_cancel_left,
    show s.keys.length + 1 + m - s.keys.length = m.succ by omega, hmul]
  omega

lemma length_peers_le [Fintype N] (s : State N) (a : N) :
    (s.peers a).length ≤ Fintype.card N :=
  (s.nodes a).connections.nodupKeys.length_le_card

/-- What remains when no node takes a message. -/
lemma remaining_quiet [Fintype N] {k : ℕ} (h : Quiet s t)
    (hlt : t.work (Fintype.card N) < s.work (Fintype.card N)) : t.remaining k < s.remaining k := by
  rw [State.remaining, State.remaining, h.keys]
  exact Nat.add_lt_add_left hlt _

lemma work_arrive (hj : j < s.flight.length) :
    ({ s with flight := s.flight.eraseIdx j } : State N).work n < s.work n := by
  simp only [State.work, List.length_eraseIdx_of_lt hj]
  omega

variable [DecidableEq N] {profile : N → Profile} {l : Label N}

lemma work_sendToPeer {sent rest : List N} {b : N} (hi : s.tasks[i]? = some task)
    (hstage : task.stage = .flooding sent (b :: rest)) (ok : Bool) :
    (s.sendToPeer i task sent b rest ok).work n < s.work n := by
  have hskip : (s.setStage i task (.flooding sent rest)).work n < s.work n := by
    have hwork := work_setStage (n := n) hi (.flooding sent rest)
    simp only [hstage, Stage.work, List.length_cons] at hwork
    omega
  unfold State.sendToPeer
  split
  · exact hskip
  · next side _ =>
    split
    · have hwork := work_setStage (n := n) hi (.flooding (sent ++ [b]) rest)
      have hread := length_read_le side (⟨b, task.msg⟩ : Copy N)
      have hflight : (s.setStage i task (.flooding (sent ++ [b]) rest)).flight = s.flight := rfl
      simp only [hstage, Stage.work, List.length_cons] at hwork
      simp only [State.work, List.length_append, hflight] at hwork ⊢
      omega
    · exact hskip

lemma written_of_silent (h : exec profile s l = some t) (hl : l.Silent) :
    t.written = s.written := by
  cases l with
  | connect a b side => exact (quiet_exec_connect h).written
  | disconnect a b => exact (quiet_exec_disconnect h).written
  | write a text msgId timestamp popped => cases hl
  | receive j popped =>
    obtain ⟨copy, hj, ⟨-, hquiet⟩ | ⟨-, htakes⟩⟩ := exec_receive h
    · exact hquiet.written
    · rw [State.written, htakes.taken, List.filter_append, List.map_append]
      exact List.append_nil _
  | flood i => exact (quiet_exec_flood h).written
  | send i ok => exact (quiet_exec_send h).written

/-- Every step of a flood uses up something of what remains. -/
lemma remaining_lt [Fintype N] {k : ℕ} (h : exec profile s l = some t) (hl : l.Flooding)
    (hle : t.keys.length ≤ Fintype.card N * k) : t.remaining k < s.remaining k := by
  cases l with
  | connect a b side => cases hl.1
  | disconnect a b => cases hl.1
  | write a text msgId timestamp popped => cases hl.2
  | receive j popped =>
    obtain ⟨copy, hj, hcases⟩ := exec_receive h
    have hlt : j < s.flight.length := (List.getElem?_eq_some_iff.1 hj).1
    rcases hcases with ⟨hseen, hquiet⟩ | ⟨-, htakes⟩
    · have ht : t = { s with flight := s.flight.eraseIdx j } := by
        simpa [exec, hj, State.handleTcpChat, hseen, eq_comm] using h
      exact remaining_quiet hquiet (ht ▸ work_arrive hlt)
    · exact (remaining_takes htakes hle).trans
        (remaining_quiet (quiet_eraseIdx s j) (work_arrive hlt))
  | flood i =>
    obtain ⟨task, hi, hstage, ht⟩ := exec_flood_eq h
    have hwork := work_setStage (n := Fintype.card N) hi (.flooding [] (s.peers task.node))
    have hpeers := length_peers_le s task.node
    refine remaining_quiet (quiet_exec_flood h) ?_
    rw [ht]
    simp only [hstage, Stage.work] at hwork
    omega
  | send i ok =>
    obtain ⟨task, sent, b, rest, hi, hstage, ht⟩ := exec_send_eq h
    refine remaining_quiet (quiet_exec_send h) ?_
    rw [ht]
    exact work_sendToPeer hi hstage ok

/-- As long as something is left to do, some step can be taken, and afterwards none. -/
lemma stuck_iff_done : ((machine profile).restrict Label.Flooding s).Stuck t ↔ Done t := by
  constructor
  · intro hstuck
    have hnone (l : Label N) (hl : l.Flooding) : exec profile t l = none :=
      (if_pos hl).symm.trans (hstuck l)
    refine ⟨?_, fun task htask => ?_⟩
    · by_contra hne
      have hlt : 0 < t.flight.length := Nat.pos_of_ne_zero hne
      let copy := t.flight[0]
      obtain ⟨popped, seen, hadd⟩ :=
        exists_addBounded maxSeen (t.nodes copy.receiver).seen copy.msg.msgId
      have hreceive := hnone (.receive 0 popped) ⟨trivial, trivial⟩
      have hcopy : t.flight[0]? = some copy := List.getElem?_eq_getElem hlt
      simp [exec, hcopy, State.handleTcpChat, State.take, hadd] at hreceive
      split at hreceive <;> cases hreceive
    · obtain ⟨i, hi⟩ := List.mem_iff_getElem?.1 htask
      have hflood := hnone (.flood i) ⟨trivial, trivial⟩
      have hsend := hnone (.send i true) ⟨rfl, trivial⟩
      simp only [exec, hi, Option.bind_eq_bind, Option.bind_some] at hflood hsend
      cases hstage : task.stage with
      | showing => simp [hstage] at hflood
      | flooding sent rest =>
        cases rest with
        | nil => exact ⟨by simp, rfl⟩
        | cons b rest => simp [hstage] at hsend
  · intro hdone l
    refine Option.eq_none_iff_forall_ne_some.2 fun u hu => ?_
    obtain ⟨hl, hu⟩ := Machine.exec_restrict_eq_some.1 hu
    replace hu : exec profile t l = some u := hu
    cases l with
    | connect a b side => cases hl.1
    | disconnect a b => cases hl.1
    | write a text msgId timestamp popped => cases hl.2
    | receive j popped =>
      obtain ⟨copy, hj, -⟩ := exec_receive hu
      rw [List.eq_nil_of_length_eq_zero hdone.flight] at hj
      cases hj
    | flood i =>
      obtain ⟨task, hi, hstage, -⟩ := exec_flood_eq hu
      exact (hdone.tasks task (List.mem_of_getElem? hi)).1 hstage
    | send i ok =>
      obtain ⟨task, sent, b, rest, hi, hstage, -⟩ := exec_send_eq hu
      have hrest := (hdone.tasks task (List.mem_of_getElem? hi)).2
      rw [hstage] at hrest
      cases hrest

lemma short_of_reachable (hs : (machine profile).Reachable s) : Short s := by
  have hall : Inv s ∧ Short s := by
    refine hs.invariant (I := fun s => Inv s ∧ Short s) ⟨inv_init profile, fun x hx => ?_, ?_⟩ ?_
    · cases hx
    · exact fun _ _ => rfl
    · exact fun s l t hs h => ⟨inv_exec hs.1 h, short_exec hs.1 hs.2 h⟩
  exact hall.2

/-- **While no more messages have been written than a node remembers, every flood comes to an end:
there is a bound on the steps that can follow as long as nobody writes, and none can be taken
exactly when nothing is left to do.** -/
theorem flood_ends [Fintype N] (hs : (machine profile).Reachable s)
    (hfew : s.written.length ≤ maxSeen) :
    (∃ n, ∀ ls t, ((machine profile).restrict Label.Flooding s).run s ls = some t →
      ls.length ≤ n) ∧
    ∀ t, ((machine profile).restrict Label.Flooding s).Reachable t →
      (((machine profile).restrict Label.Flooding s).Stuck t ↔ Done t) := by
  refine ⟨?_, fun t _ => stuck_iff_done⟩
  have hstep : ∀ t l u, (machine profile).Reachable t ∧ t.written = s.written →
      ((machine profile).restrict Label.Flooding s).exec t l = some u →
      (machine profile).Reachable u ∧ u.written = s.written := by
    rintro t l u ⟨ht, hwritten⟩ h
    obtain ⟨hl, h⟩ := Machine.exec_restrict_eq_some.1 h
    exact ⟨ht.step h, (written_of_silent h hl.2).trans hwritten⟩
  refine Machine.bounded_of_measure (M := (machine profile).restrict Label.Flooding s)
    (State.remaining s.written.toFinset.card) ⟨hs, rfl⟩ hstep fun t l u ht h => ?_
  obtain ⟨hu, hwritten⟩ := hstep t l u ht h
  obtain ⟨hl, h⟩ := Machine.exec_restrict_eq_some.1 h
  have hnodup : u.keys.Nodup :=
    (atMostOnce_iff (inv_of_reachable hu)).1 (at_most_once_of_few hu (hwritten ▸ hfew))
  have hle := length_keys_le (short_of_reachable hu) hnodup
  rw [hwritten] at hle
  exact remaining_lt h hl hle

theorem flood_ends_line :
    (∃ n, ∀ ls t, ((machine fourNodes).restrict Label.Flooding lineState).run lineState ls =
      some t → ls.length ≤ n) ∧
    ∀ t, ((machine fourNodes).restrict Label.Flooding lineState).Reachable t →
      (((machine fourNodes).restrict Label.Flooding lineState).Stuck t ↔ Done t) :=
  flood_ends reachable_lineState (by decide)

end Ends

end DistriStore.Chat
