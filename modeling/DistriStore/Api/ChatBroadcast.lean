import DistriStore.Lib.Machine
import Mathlib.Data.List.Nodup

/-!
# A broadcast to the chat clients

`ChatManager` of `api/routes.py`: `broadcast` goes through `active_connections` with an iterator,
which is a position in the list, and awaits the send to each client.  Meanwhile the handlers of the
other WebSockets may append to the list and remove from it.

A removal in front of the position moves the clients behind it up by one, and the client at the
position is passed over.  So a client that stays is sent the message exactly once if and only if
that never happens to it (`sent_once_iff`).
-/

namespace DistriStore

open Lib

/-! ## The manager -/

/-- `ChatManager`; the WebSockets are distinct objects, here numbers. -/
structure ChatManager where
  activeConnections : List ℕ
  nodup : activeConnections.Nodup
  deriving DecidableEq

namespace ChatManager

/-- `connect` after `accept`, with a new WebSocket. -/
def connect (m : ChatManager) (ws : ℕ) (h : ws ∉ m.activeConnections) : ChatManager where
  activeConnections := m.activeConnections ++ [ws]
  nodup := by
    rw [List.nodup_append]
    exact ⟨m.nodup, List.nodup_singleton ws, by simpa using fun a ha => ne_of_mem_of_not_mem ha h⟩

/-- `active_connections.remove(ws)`; without `ws` in the list it raises a `ValueError`, which
leaves the list as it is. -/
def disconnect (m : ChatManager) (ws : ℕ) : ChatManager where
  activeConnections := m.activeConnections.erase ws
  nodup := m.nodup.erase ws

/-! ## A broadcast -/

inductive Phase where
  /-- In `ws.send_json(message)`; `pos` is where the iterator goes on. -/
  | sending (ws pos : ℕ) (dead : List ℕ)
  | ended
  deriving DecidableEq

structure State where
  manager : ChatManager
  phase : Phase := .ended
  /-- The clients to which a send has succeeded. -/
  sent : List ℕ := []
  deriving DecidableEq

inductive Label where
  /-- A WebSocket is accepted, or the handler of one ends. -/
  | connect (ws : ℕ)
  | disconnect (ws : ℕ)
  /-- `send_json` returns, or raises. -/
  | sent (ok : Bool)
  deriving DecidableEq

/-- The next turn of the loop over `active_connections`, or the removal of the dead ones. -/
def next (s : State) (pos : ℕ) (dead : List ℕ) : State :=
  match s.manager.activeConnections[pos]? with
  | some ws => { s with phase := .sending ws (pos + 1) dead }
  | none => { s with manager := dead.foldl disconnect s.manager, phase := .ended }

def exec (s : State) : Label → Option State
  | .connect ws =>
    if h : ws ∈ s.manager.activeConnections then none
    else some { s with manager := s.manager.connect ws h }
  | .disconnect ws => some { s with manager := s.manager.disconnect ws }
  | .sent ok =>
    match s.phase with
    | .sending ws pos dead =>
      some (if ok then next { s with sent := s.sent ++ [ws] } pos dead
        else next s pos (dead ++ [ws]))
    | .ended => none

/-- `broadcast` with these clients connected. -/
def broadcast (m : ChatManager) : Machine State Label where
  init := next { manager := m } 0 []
  exec := exec

/-! ## Clients that stay -/

/-- The client that is being sent the message. -/
def State.current (s : State) : Option ℕ :=
  match s.phase with
  | .sending ws _ _ => some ws
  | .ended => none

/-- The clients that the iterator has still to come to. -/
def State.ahead (s : State) : List ℕ :=
  match s.phase with
  | .sending _ pos _ => s.manager.activeConnections.drop pos
  | .ended => []

/-- Client `x` does not disconnect, and no send to it fails. -/
def Stays (x : ℕ) (s : State) : Label → Prop
  | .disconnect ws => ws ≠ x
  | .sent ok => ok = false → s.current ≠ some x
  | .connect _ => True

/-- A client in front of the iterator disconnects while `x` is the next one. -/
def Skips (x : ℕ) (s : State) : Label → Prop
  | .disconnect ws =>
    match s.phase with
    | .sending _ pos _ => ws ∈ s.manager.activeConnections.take pos ∧
        s.manager.activeConnections[pos]? = some x
    | .ended => False
  | _ => False

/-! ### Positions in a list -/

section Positions

variable {l : List ℕ} {x c pos : ℕ}

/-- An appended element changes nothing about the others. -/
lemma mem_drop_concat (hne : x ≠ c) : x ∈ (l ++ [c]).drop pos ↔ x ∈ l.drop pos := by
  rw [List.drop_append, List.mem_append]
  refine or_iff_left fun hx => hne ?_
  exact List.mem_singleton.1 (List.mem_of_mem_drop hx)

/-- The element at the position and those behind it. -/
lemma mem_drop_succ (hd : l.Nodup) :
    x ∈ l.drop (pos + 1) ↔ x ∈ l.drop pos ∧ l[pos]? ≠ some x := by
  cases hx : l[pos]? with
  | none =>
    rw [List.getElem?_eq_none_iff] at hx
    simp [List.drop_of_length_le hx, List.drop_of_length_le (Nat.le_succ_of_le hx)]
  | some y =>
    obtain ⟨hlt, rfl⟩ := List.getElem?_eq_some_iff.1 hx
    have hdrop := hd.sublist (List.drop_sublist pos l)
    rw [List.drop_eq_getElem_cons hlt] at hdrop ⊢
    rw [List.mem_cons, ne_eq, Option.some_inj]
    have hnot := (List.nodup_cons.1 hdrop).1
    constructor
    · exact fun h => ⟨Or.inr h, fun heq => hnot (heq ▸ h)⟩
    · rintro ⟨rfl | h, hne⟩
      · exact absurd rfl hne
      · exact h

/-- A removal in front of the position moves up what is behind it. -/
lemma drop_erase_of_mem_take (hc : c ∈ l.take pos) : (l.erase c).drop pos = l.drop (pos + 1) := by
  obtain ⟨a, b, hnot, hl, herase⟩ := List.exists_erase_eq (List.mem_of_mem_take hc)
  have hlt : a.length < pos := by
    by_contra hle
    rw [hl, List.take_append_of_le_length (Nat.le_of_not_lt hle)] at hc
    exact hnot (List.mem_of_mem_take hc)
  have hpos : a.drop pos = [] := List.drop_of_length_le (by omega)
  have hsucc : a.drop (pos + 1) = [] := List.drop_of_length_le (by omega)
  have hsub : pos + 1 - a.length = pos - a.length + 1 := by omega
  rw [herase, hl, List.drop_append, List.drop_append, hpos, hsucc, hsub, List.drop_succ_cons]

/-- A removal behind the position takes away nothing else. -/
lemma mem_drop_erase_of_not_mem_take (hc : c ∉ l.take pos) (hne : x ≠ c) :
    x ∈ (l.erase c).drop pos ↔ x ∈ l.drop pos := by
  have hsplit : l.erase c = l.take pos ++ (l.drop pos).erase c := by
    rw [← List.erase_append_right _ hc, List.take_append_drop]
  rcases Nat.lt_or_ge l.length pos with hpos | hpos
  · have hlen : (l.erase c).length ≤ pos := Nat.le_trans List.length_erase_le (Nat.le_of_lt hpos)
    rw [List.drop_of_length_le hlen, List.drop_of_length_le (Nat.le_of_lt hpos)]
  · rw [hsplit, List.drop_left' (List.length_take_of_le hpos)]
    exact List.mem_erase_of_ne hne

end Positions

/-! ### One step -/

/-- The broadcast has passed the client over. -/
def Missed (x : ℕ) (s : State) : Prop :=
  x ∉ s.ahead ∧ s.current ≠ some x ∧ s.sent.count x = 0

/-- A connected client is ahead, or is being sent the message, or neither; it has been sent the
message once at most, and not before its turn. -/
structure Inv (x : ℕ) (s : State) : Prop where
  connected : s.phase ≠ .ended → x ∈ s.manager.activeConnections
  ahead : x ∈ s.ahead → s.current ≠ some x ∧ s.sent.count x = 0
  current : s.current = some x → s.sent.count x = 0
  once : s.sent.count x ≤ 1

variable {x : ℕ} {s t : State}

/-- The iterator takes the client at its position out of what is ahead. -/
lemma next_spec (s : State) (x pos : ℕ) (dead : List ℕ) :
    (next s pos dead).sent = s.sent ∧
      ((next s pos dead).phase ≠ .ended → (next s pos dead).manager = s.manager) ∧
      (x ∈ (next s pos dead).ahead ↔ x ∈ s.manager.activeConnections.drop pos ∧
        (next s pos dead).current ≠ some x) ∧
      ((next s pos dead).current = some x → x ∈ s.manager.activeConnections.drop pos) := by
  unfold next
  split
  · next ws hws =>
    refine ⟨rfl, fun _ => rfl, ?_, fun h => ?_⟩
    · have hsucc : x ∈ s.manager.activeConnections.drop (pos + 1) ↔ _ :=
        mem_drop_succ s.manager.nodup
      rwa [hws] at hsucc
    · obtain rfl : ws = x := by simpa [State.current] using h
      obtain ⟨hlt, rfl⟩ := List.getElem?_eq_some_iff.1 hws
      rw [List.drop_eq_getElem_cons hlt]
      exact List.mem_cons_self ..
  · next hnone =>
    rw [List.getElem?_eq_none_iff] at hnone
    simp [State.ahead, State.current, List.drop_of_length_le hnone]

/-- The client is sent the message in its turn, and only then. -/
lemma inv_next {u : State} {pos : ℕ} {dead : List ℕ} (hx : x ∈ u.manager.activeConnections)
    (hahead : x ∈ u.manager.activeConnections.drop pos → u.sent.count x = 0)
    (honce : u.sent.count x ≤ 1) : Inv x (next u pos dead) := by
  obtain ⟨hsent, hmanager, hin, hcurrent⟩ := next_spec u x pos dead
  refine ⟨fun h => ?_, fun h => ?_, fun h => ?_, ?_⟩
  · rw [hmanager h]
    exact hx
  · obtain ⟨hdrop, hne⟩ := hin.1 h
    rw [hsent]
    exact ⟨hne, hahead hdrop⟩
  · rw [hsent]
    exact hahead (hcurrent h)
  · rw [hsent]
    exact honce

lemma missed_next {u : State} {pos : ℕ} {dead : List ℕ} : Missed x (next u pos dead) ↔
    x ∉ u.manager.activeConnections.drop pos ∧ u.sent.count x = 0 := by
  obtain ⟨hsent, -, hin, hcurrent⟩ := next_spec u x pos dead
  unfold Missed
  rw [hsent, hin]
  tauto

lemma inv_connect {ws : ℕ} (hs : Inv x s) (h : ws ∉ s.manager.activeConnections) :
    Inv x { s with manager := s.manager.connect ws h } ∧
      (Missed x { s with manager := s.manager.connect ws h } ↔ Missed x s) := by
  have hahead : x ∈ State.ahead { s with manager := s.manager.connect ws h } ↔ x ∈ s.ahead := by
    unfold State.ahead
    dsimp only
    split
    · next hphase =>
      have hne : x ≠ ws := ne_of_mem_of_not_mem (hs.connected (by simp [hphase])) h
      exact mem_drop_concat hne
    · rfl
  constructor
  · refine ⟨fun hphase => List.mem_append_left _ (hs.connected hphase), fun hx => ?_, hs.current,
      hs.once⟩
    exact hs.ahead (hahead.1 hx)
  · exact and_congr_left' (not_congr hahead)

lemma inv_disconnect {ws : ℕ} (hs : Inv x s) (hne : x ≠ ws) :
    Inv x { s with manager := s.manager.disconnect ws } ∧
      (Missed x { s with manager := s.manager.disconnect ws } ↔
        Missed x s ∨ Skips x s (.disconnect ws)) := by
  have hahead : x ∈ State.ahead { s with manager := s.manager.disconnect ws } ↔
      x ∈ s.ahead ∧ ¬ Skips x s (.disconnect ws) := by
    unfold State.ahead Skips
    dsimp only
    split
    · next cur pos dead hphase =>
      by_cases hws : ws ∈ s.manager.activeConnections.take pos
      · simp only [hws, true_and]
        rw [disconnect, drop_erase_of_mem_take hws]
        exact mem_drop_succ s.manager.nodup
      · simp only [hws, false_and, not_false_eq_true, and_true]
        exact mem_drop_erase_of_not_mem_take hws hne
    · simp
  have hskips : Skips x s (.disconnect ws) → x ∈ s.ahead := by
    unfold State.ahead Skips
    dsimp only
    split
    · rintro ⟨-, hpos⟩
      obtain ⟨hlt, rfl⟩ := List.getElem?_eq_some_iff.1 hpos
      rw [List.drop_eq_getElem_cons hlt]
      exact List.mem_cons_self ..
    · exact False.elim
  constructor
  · refine ⟨fun hphase => ?_, fun hx => hs.ahead (hahead.1 hx).1, hs.current, hs.once⟩
    exact (List.mem_erase_of_ne hne).2 (hs.connected hphase)
  · constructor
    · rintro ⟨hx, hcurrent, hcount⟩
      by_cases hskip : Skips x s (.disconnect ws)
      · exact Or.inr hskip
      · exact Or.inl ⟨fun h => hx (hahead.2 ⟨h, hskip⟩), hcurrent, hcount⟩
    · rintro (⟨hx, hcurrent, hcount⟩ | hskip)
      · exact ⟨fun h => hx (hahead.1 h).1, hcurrent, hcount⟩
      · obtain ⟨hcurrent, hcount⟩ := hs.ahead (hskips hskip)
        exact ⟨fun h => (hahead.1 h).2 hskip, hcurrent, hcount⟩

lemma inv_sent {ok : Bool} (hs : Inv x s) (hstays : Stays x s (.sent ok))
    (ht : exec s (.sent ok) = some t) : Inv x t ∧ (Missed x t ↔ Missed x s) := by
  simp only [exec] at ht
  split at ht
  · next ws pos dead hphase =>
    have hx : x ∈ s.manager.activeConnections := hs.connected (by simp [hphase])
    have hahead : s.ahead = s.manager.activeConnections.drop pos := by
      rw [State.ahead, hphase]
    have hcurrent : s.current = some ws := by rw [State.current, hphase]
    have hone := hs.ahead
    rw [hahead, hcurrent, ne_eq, Option.some_inj] at hone
    have hmissed : Missed x s ↔ x ∉ s.manager.activeConnections.drop pos ∧ ws ≠ x ∧
        s.sent.count x = 0 := by
      rw [Missed, hahead, hcurrent, ne_eq, ne_eq, Option.some_inj]
    rw [← Option.some.inj ht, hmissed]
    cases ok with
    | false =>
      have hws : ws ≠ x := by simpa [hcurrent] using hstays rfl
      refine ⟨inv_next hx (fun h => (hone h).2) hs.once, missed_next.trans ?_⟩
      exact ⟨fun h => ⟨h.1, hws, h.2⟩, fun h => ⟨h.1, h.2.2⟩⟩
    | true =>
      have hcount : (s.sent ++ [ws]).count x = s.sent.count x + if ws = x then 1 else 0 := by
        simp [List.count_append, List.count_singleton]
      have hnow := hs.current
      rw [hcurrent, Option.some_inj] at hnow
      have honce := hs.once
      refine ⟨inv_next hx (fun h => ?_) ?_, missed_next.trans ?_⟩
      · obtain ⟨hws, hzero⟩ := hone h
        rw [hcount, if_neg hws, hzero]
      · rw [hcount]
        split
        · next hws => simp [hnow hws]
        · exact honce
      · rw [hcount]
        refine and_congr_right fun _ => ?_
        split
        · next hws => simp [hws]
        · next hws => simp [hws]
  · cases ht

/-- **Step lemma.** A step that leaves `x` connected misses it exactly when it skips it. -/
lemma inv_exec {l : Label} (hs : Inv x s) (ht : exec s l = some t) (hstays : Stays x s l) :
    Inv x t ∧ (¬ Missed x t ↔ ¬ Missed x s ∧ ¬ Skips x s l) := by
  cases l with
  | connect ws =>
    simp only [exec] at ht
    split at ht
    · cases ht
    · next hnew =>
      rw [← Option.some.inj ht]
      obtain ⟨hinv, hmissed⟩ := inv_connect hs hnew
      exact ⟨hinv, by rw [hmissed]; simp [Skips]⟩
  | disconnect ws =>
    rw [← Option.some.inj ht]
    obtain ⟨hinv, hmissed⟩ := inv_disconnect hs (Ne.symm hstays)
    exact ⟨hinv, by rw [hmissed, not_or]⟩
  | sent ok =>
    obtain ⟨hinv, hmissed⟩ := inv_sent hs hstays ht
    exact ⟨hinv, by rw [hmissed]; simp [Skips]⟩

/-! ## Every run -/

/-- **Who gets the message.** A client that is connected when the broadcast starts and stays
connected, and whose send succeeds, has been sent the message exactly once at the end if and only
if no client in front of the iterator disconnects while this client is the next one. -/
theorem sent_once_iff (m : ChatManager) {x : ℕ} (hx : x ∈ m.activeConnections) {run : List Label}
    {s : State} (hrun : (broadcast m).run (broadcast m).init run = some s)
    (hended : s.phase = .ended) (hstays : (broadcast m).Meets (Stays x) (broadcast m).init run) :
    s.sent.count x = 1 ↔
      (broadcast m).Meets (fun s l => ¬ Skips x s l) (broadcast m).init run := by
  have hinv : Inv x (broadcast m).init :=
    inv_next hx (fun _ => List.count_nil) (by simp)
  have hstart : ¬ Missed x (broadcast m).init := fun h => (missed_next.1 h).1 hx
  have hstep : ∀ s l t, Inv x s → (broadcast m).exec s l = some t → Stays x s l →
      Inv x t ∧ (¬ Missed x t ↔ ¬ Missed x s ∧ ¬ Skips x s l) := fun s l t h ht => inv_exec h ht
  obtain ⟨hs, hiff⟩ := Machine.run_iff_meets hstep hinv hstays hrun
  have hmissed : Missed x s ↔ s.sent.count x = 0 := by
    simp [Missed, State.ahead, State.current, hended]
  rw [hmissed, and_iff_right hstart] at hiff
  rw [← hiff]
  have honce := hs.once
  omega

/-- Three clients, of which the first disconnects as soon as the message is on its way to it. -/
def threeClients : ChatManager := ⟨[0, 1, 2], by decide⟩

/-- With all of them staying the last one is sent the message once. -/
theorem sent_once_iff_three : ∃ s, (broadcast threeClients).run (broadcast threeClients).init
    [.sent true, .connect 3, .sent true, .sent true, .sent true] = some s ∧ s.sent.count 2 = 1 := by
  have hrun : (broadcast threeClients).run (broadcast threeClients).init
      [.sent true, .connect 3, .sent true, .sent true, .sent true] =
        some ⟨⟨[0, 1, 2, 3], by decide⟩, .ended, [0, 1, 2, 3]⟩ := rfl
  refine ⟨_, hrun, (sent_once_iff threeClients (by decide) hrun rfl ?_).2 ?_⟩
  · simp [Machine.Meets, Stays]
  · simp [Machine.Meets, Skips]

/-- **The second client is passed over**: the first one disconnects while it is sent the message,
the second one is connected throughout, and the message goes to the third one only. -/
theorem broadcast_misses_client : 1 ∈ threeClients.activeConnections ∧
    ∃ s, (broadcast threeClients).run (broadcast threeClients).init
        [.disconnect 0, .sent false, .sent true] = some s ∧ s.phase = .ended ∧
      (broadcast threeClients).Meets (Stays 1) (broadcast threeClients).init
        [.disconnect 0, .sent false, .sent true] ∧ ¬ s.sent.count 1 = 1 := by
  refine ⟨by decide, ⟨⟨[1, 2], by decide⟩, .ended, [2]⟩, rfl, rfl, ?_, by decide⟩
  simp [Machine.Meets, Stays, broadcast, exec, State.current, next, threeClients]

end ChatManager

end DistriStore
