import DistriStore.Network.Connection

/-!
# One inbound connection

A single run of `_handle_client`, from the accepted connection on, with the values that the
connection will deliver and a log of what the handler has acted on: the entries it has made in
`connections`, the peers it has registered, the messages it has passed to `message_handler`.  The
handler is that of `Connection`; only the log is new.

Whatever the values are, nothing is acted on before a signed AUTH message and a HANDSHAKE
(`acts_only_after_handshake`).
-/

namespace DistriStore.Inbound

open Lib Connection

/-- What the handler does to the rest of the node. -/
inductive Act where
  /-- `self.connections[conn.peer_id] = conn`. -/
  | entry (p : Key)
  /-- `asyncio.ensure_future(self.state.add_peer(peer))`. -/
  | addPeer (p : Key)
  /-- `await self.message_handler(conn, msg)`. -/
  | handle (msg : Value)

structure State where
  phase : Phase := .awaitAuth
  /-- What `receive` has still to return; after that the connection has ended. -/
  inbox : List Value
  acts : List Act := []

inductive Label where
  /-- `receive` returns the next value, or `None` at the end of the connection. -/
  | receive
  /-- The two seconds for the AUTH message are over. -/
  | timeout
  /-- The close, the sending of the acknowledgement or the message handler is over. -/
  | done (ok : Bool)
  deriving DecidableEq

/-- What an effect of the handler is to the rest of the node. -/
def actsOf (msg : Option Value) : Effect → List Act
  | .register p _ => [.entry p, .addPeer p]
  | .abort p => [.entry p]
  | .move .handling => msg.toList.map .handle
  | _ => []

/-- The phase after an effect. -/
def phaseAfter : Effect → Phase
  | .move ph => ph
  | .close ph => ph
  | .register _ ph => ph
  | .finish => .ended
  | .abort _ => .ended

/-- The handler waits for a message. -/
def receiving : Phase → Bool
  | .awaitAuth => true
  | .awaitHandshake => true
  | .looping => true
  | _ => false

def exec (swarmKey : String) (s : State) : Label → Option State
  | .receive => do
    if receiving s.phase then
      let e ← s.phase.resume swarmKey (.received s.inbox.head?)
      return { phase := phaseAfter e
               inbox := s.inbox.tail
               acts := s.acts ++ actsOf s.inbox.head? e }
    else none
  | .timeout =>
    if s.phase = .awaitAuth then do
      let e ← s.phase.resume swarmKey (.received none)
      return { s with phase := phaseAfter e }
    else none
  | .done ok => do
    let e ← s.phase.resume swarmKey (.done ok)
    return { s with phase := phaseAfter e }

/-- A connection that will deliver `values`. -/
def machine (swarmKey : String) (values : List Value) : Machine State Label where
  init := { inbox := values }
  exec := exec swarmKey

/-- The messages passed to `message_handler`. -/
def State.handled (s : State) : List Value :=
  s.acts.filterMap fun
    | .handle msg => some msg
    | _ => none

/-- The AUTH message comes in time, the acknowledgement can be sent and the message handler does not
fail. -/
def NoFailure (_ : State) (l : Label) : Prop := l ≠ .timeout ∧ l ≠ .done false

/-! ## What the handlers answer -/

/-- `msg` is a dictionary of type `HANDSHAKE`. -/
def IsHandshake (msg : Value) : Prop :=
  (∃ fields, msg = .dict fields) ∧ msg.getD "type" .nil = .ok (.str "HANDSHAKE")

/-- The node id in a handshake is a string. -/
def WellTyped (msg : Value) : Prop := ∃ n, msg.getD "node_id" (.str "") = .ok (.str n)

/-- The first two values admit the connection. -/
def Admissible (swarmKey : String) (values : List Value) : Prop :=
  ∃ auth hs rest, values = auth :: hs :: rest ∧ IsAuth swarmKey auth ∧ IsHandshake hs ∧
    WellTyped hs

lemma onAuth_of_isAuth {swarmKey : String} {msg : Value} (h : IsAuth swarmKey msg) :
    onAuth swarmKey (some msg) = .move .awaitHandshake := by
  rw [onAuth, checkAuth_of_isAuth h]

lemma onHandshake_of_wellTyped {msg : Value} (h : IsHandshake msg) (htyped : WellTyped msg) :
    ∃ p, onHandshake (some msg) = .register p .acking := by
  obtain ⟨nodeId, hid⟩ := htyped
  refine ⟨.str nodeId, ?_⟩
  rw [onHandshake, rejects_of_type h.1 h.2, hid]
  rfl

lemma onAuth_cases (swarmKey : String) (msg : Option Value) :
    onAuth swarmKey msg = .close .dropping ∨ onAuth swarmKey msg = .finish ∨
      onAuth swarmKey msg = .move .awaitHandshake ∧ ∃ v, msg = some v ∧ IsAuth swarmKey v := by
  unfold onAuth
  split
  · exact Or.inl rfl
  · next v =>
    split
    · exact Or.inr (Or.inl rfl)
    · exact Or.inl rfl
    · next h => exact Or.inr (Or.inr ⟨rfl, v, rfl, isAuth_of_checkAuth h⟩)

/-- The handler registers a peer, or the connection goes without a trace. -/
lemma onHandshake_cases (msg : Option Value) :
    (onHandshake msg = .close .dropping ∨ onHandshake msg = .finish ∨
      onHandshake msg = .move .ended) ∨
    ∃ v p, msg = some v ∧ IsHandshake v ∧
      (onHandshake msg = .register p .acking ∨ onHandshake msg = .abort p ∧ ¬ WellTyped v) := by
  unfold onHandshake
  split
  · exact Or.inl (Or.inl rfl)
  · next v =>
    split
    · exact Or.inl (Or.inr (Or.inl rfl))
    · exact Or.inl (Or.inl rfl)
    · next hrejects =>
      have hv : IsHandshake v := rejects_eq_false hrejects
      split
      · exact Or.inl (Or.inr (Or.inl rfl))
      · next nodeId hid =>
        split
        · exact Or.inl (Or.inr (Or.inr rfl))
        · next p _ =>
          refine Or.inr ⟨v, p, rfl, hv, ?_⟩
          split
          · exact Or.inl rfl
          · next hslices =>
            refine Or.inr ⟨rfl, ?_⟩
            rintro ⟨n, hn⟩
            rw [hid, Except.ok.injEq] at hn
            simp [hn, Value.hasSlices] at hslices

lemma onMessage_cases (msg : Option Value) :
    onMessage msg = .finish ∧ (∀ v, msg = some v → v.isNone = true) ∨
      ∃ v, msg = some v ∧ v.isNone = false ∧ onMessage msg = .move .handling := by
  rcases msg with _ | v
  · exact Or.inl ⟨rfl, by simp⟩
  · cases v
    case nil => exact Or.inl ⟨rfl, by simp [Value.isNone]⟩
    all_goals exact Or.inr ⟨_, rfl, rfl, rfl⟩

lemma not_admissible_of_onAuth {swarmKey : String} {values : List Value}
    (h : onAuth swarmKey values.head? ≠ .move .awaitHandshake) : ¬ Admissible swarmKey values := by
  rintro ⟨auth, hs, rest, rfl, hauth, -⟩
  exact h (onAuth_of_isAuth hauth)

lemma not_admissible_of_onHandshake {swarmKey : String} {auth : Value} {inbox : List Value}
    (h : ∀ p, onHandshake inbox.head? ≠ .register p .acking) :
    ¬ Admissible swarmKey (auth :: inbox) := by
  rintro ⟨auth', hs, rest, hvalues, -, hhs, htyped⟩
  obtain ⟨rfl, rfl⟩ := List.cons.inj hvalues
  obtain ⟨p, hp⟩ := onHandshake_of_wellTyped hhs htyped
  exact h p hp

/-! ## The invariant -/

/-- The connection has been admitted with its first two values; the messages handled so far and
those in `left` are the others. -/
structure Admitted (swarmKey : String) (values : List Value) (s : State) (hs : Value)
    (left : List Value) : Prop where
  values : ∃ auth, IsAuth swarmKey auth ∧ values = auth :: hs :: (s.handled ++ left)
  handshake : IsHandshake hs
  messages : ∀ v ∈ s.handled, v.isNone = false

/-- The connection has its entry, its peer is registered, and messages have been handled since. -/
def Served (s : State) : Prop :=
  ∃ p, s.acts = .entry p :: .addPeer p :: s.handled.map .handle

/-- What holds in each phase.  When nothing fails (`ok`), a connection is dropped only if its first
two values do not admit it, and the handler of an admitted one ends at the first `None` only. -/
def Inv (swarmKey : String) (values : List Value) (ok : Prop) (s : State) : Prop :=
  match s.phase with
  | .awaitAuth => s.acts = [] ∧ s.inbox = values
  | .awaitHandshake =>
    s.acts = [] ∧ ∃ auth, IsAuth swarmKey auth ∧ values = auth :: s.inbox
  | .dropping => s.acts = [] ∧ (ok → ¬ Admissible swarmKey values)
  | .ended => s.acts = [] ∧ (ok → ¬ Admissible swarmKey values) ∨
    ∃ hs left, Admitted swarmKey values s hs left ∧
      (ok → WellTyped hs → Served s ∧ ∀ v, left.head? = some v → v.isNone = true)
  | .awaitAck => False
  | .connected => False
  | _ => Served s ∧ ∃ hs, Admitted swarmKey values s hs s.inbox

variable {swarmKey : String} {values : List Value} {ok : Prop} {s t : State}

lemma exec_receive (h : exec swarmKey s .receive = some t) :
    receiving s.phase = true ∧ ∃ e, s.phase.resume swarmKey (.received s.inbox.head?) = some e ∧
      t = ⟨phaseAfter e, s.inbox.tail, s.acts ++ actsOf s.inbox.head? e⟩ := by
  simp only [exec, Option.ite_none_right_eq_some, Option.bind_eq_bind, Option.bind_eq_some_iff,
    Option.pure_def, Option.some.injEq] at h
  obtain ⟨hreceiving, e, he, rfl⟩ := h
  exact ⟨hreceiving, e, he, rfl⟩

lemma exec_timeout (h : exec swarmKey s .timeout = some t) :
    s.phase = .awaitAuth ∧ ∃ e, s.phase.resume swarmKey (.received none) = some e ∧
      t = { s with phase := phaseAfter e } := by
  simp only [exec, Option.ite_none_right_eq_some, Option.bind_eq_bind, Option.bind_eq_some_iff,
    Option.pure_def, Option.some.injEq] at h
  obtain ⟨hwaiting, e, he, rfl⟩ := h
  exact ⟨hwaiting, e, he, rfl⟩

lemma exec_done {b : Bool} (h : exec swarmKey s (.done b) = some t) :
    ∃ e, s.phase.resume swarmKey (.done b) = some e ∧ t = { s with phase := phaseAfter e } := by
  simp only [exec, Option.bind_eq_bind, Option.bind_eq_some_iff, Option.pure_def,
    Option.some.injEq] at h
  obtain ⟨e, he, rfl⟩ := h
  exact ⟨e, he, rfl⟩

lemma inv_receive (h : Inv swarmKey values ok s) (ht : exec swarmKey s .receive = some t) :
    Inv swarmKey values ok t := by
  obtain ⟨hreceiving, e, he, rfl⟩ := exec_receive ht
  obtain ⟨phase, inbox, acts⟩ := s
  cases phase <;> simp only [receiving, Bool.false_eq_true] at hreceiving
  case awaitAuth =>
    obtain ⟨rfl, rfl⟩ := h
    obtain rfl := Option.some.inj he
    rcases onAuth_cases swarmKey inbox.head? with hcase | hcase | ⟨hcase, v, hv, hauth⟩
    · rw [hcase]
      exact ⟨rfl, fun _ => not_admissible_of_onAuth (by rw [hcase]; nofun)⟩
    · rw [hcase]
      exact Or.inl ⟨rfl, fun _ => not_admissible_of_onAuth (by rw [hcase]; nofun)⟩
    · rw [hcase]
      exact ⟨rfl, v, hauth, List.eq_cons_of_mem_head? hv⟩
  case awaitHandshake =>
    obtain ⟨rfl, auth, hauth, rfl⟩ := h
    obtain rfl := Option.some.inj he
    rcases onHandshake_cases inbox.head? with (hcase | hcase | hcase) | ⟨v, p, hv, hhs, hcase⟩
    · rw [hcase]
      exact ⟨rfl, fun _ => not_admissible_of_onHandshake fun p => by rw [hcase]; nofun⟩
    · rw [hcase]
      exact Or.inl ⟨rfl, fun _ => not_admissible_of_onHandshake fun p => by rw [hcase]; nofun⟩
    · rw [hcase]
      exact Or.inl ⟨rfl, fun _ => not_admissible_of_onHandshake fun p => by rw [hcase]; nofun⟩
    · have hinbox := List.eq_cons_of_mem_head? hv
      rcases hcase with hcase | ⟨hcase, hbad⟩
      · rw [hcase]
        exact ⟨⟨p, rfl⟩, v, ⟨auth, hauth, congrArg _ hinbox⟩, hhs, by simp [State.handled, actsOf]⟩
      · rw [hcase]
        exact Or.inr ⟨v, _, ⟨⟨auth, hauth, congrArg _ hinbox⟩, hhs,
          by simp [State.handled, actsOf]⟩, fun _ htyped => absurd htyped hbad⟩
  case looping =>
    obtain ⟨⟨p, hacts⟩, hs, hadmitted⟩ := h
    obtain rfl := Option.some.inj he
    rcases onMessage_cases inbox.head? with ⟨hcase, hnone⟩ | ⟨v, hv, hsome, hcase⟩
    · rw [hcase]
      have hsame : acts ++ actsOf inbox.head? .finish = acts := List.append_nil acts
      rw [hsame]
      exact Or.inr ⟨hs, inbox, ⟨hadmitted.values, hadmitted.handshake, hadmitted.messages⟩,
        fun _ _ => ⟨⟨p, hacts⟩, hnone⟩⟩
    · obtain ⟨auth, hauth, hvalues⟩ := hadmitted.values
      have hinbox : v :: inbox.tail = inbox := (List.eq_cons_of_mem_head? hv).symm
      have hhandled : State.handled ⟨.handling, inbox.tail,
          acts ++ actsOf inbox.head? (.move .handling)⟩ =
            State.handled ⟨.looping, inbox, acts⟩ ++ [v] := by
        simp [State.handled, actsOf, hv]
      rw [hcase]
      refine ⟨⟨p, ?_⟩, hs, ⟨auth, hauth, ?_⟩, hadmitted.handshake, ?_⟩
      · rw [phaseAfter, hhandled, List.map_append]
        have hnew : actsOf inbox.head? (.move .handling) = [.handle v] := by rw [hv]; rfl
        exact (congrArg₂ _ hacts hnew).trans rfl
      · rw [phaseAfter, hhandled, List.append_assoc, List.singleton_append, hinbox]
        exact hvalues
      · rw [phaseAfter, hhandled]
        intro w hw
        rcases List.mem_append.1 hw with hw | hw
        · exact hadmitted.messages w hw
        · rw [List.mem_singleton.1 hw]
          exact hsome

lemma inv_timeout (h : Inv swarmKey values ok s) (hok : ¬ ok)
    (ht : exec swarmKey s .timeout = some t) : Inv swarmKey values ok t := by
  obtain ⟨phase, inbox, acts⟩ := s
  obtain ⟨rfl, e, he, rfl⟩ := exec_timeout ht
  obtain rfl := Option.some.inj he
  exact ⟨h.1, fun h => absurd h hok⟩

/-- The end of an operation ends the handler, or brings it to its message loop. -/
lemma inv_done {b : Bool} (h : Inv swarmKey values ok s) (hok : ok → b = true)
    (ht : exec swarmKey s (.done b) = some t) : Inv swarmKey values ok t := by
  obtain ⟨phase, inbox, acts⟩ := s
  obtain ⟨e, he, rfl⟩ := exec_done ht
  have hloop : Inv swarmKey values ok ⟨.looping, inbox, acts⟩ →
      e = (if b then .move .looping else .finish) →
        Inv swarmKey values ok ⟨phaseAfter e, inbox, acts⟩ := by
    rintro hinv rfl
    cases b with
    | true => exact hinv
    | false =>
      obtain ⟨-, hs, hadmitted⟩ := hinv
      refine Or.inr ⟨hs, inbox, ⟨hadmitted.values, hadmitted.handshake, hadmitted.messages⟩,
        fun h => absurd (hok h) Bool.false_ne_true⟩
  cases phase <;> simp only [Phase.resume, Option.some.injEq, reduceCtorEq] at he
  case dropping =>
    subst he
    exact Or.inl h
  case acking =>
    obtain ⟨hserved, hs, hadmitted⟩ := h
    exact hloop ⟨hserved, hs, hadmitted.values, hadmitted.handshake, hadmitted.messages⟩ he.symm
  case handling =>
    obtain ⟨hserved, hs, hadmitted⟩ := h
    exact hloop ⟨hserved, hs, hadmitted.values, hadmitted.handshake, hadmitted.messages⟩ he.symm
  case awaitAck => exact absurd h id

/-- **Step lemma.** -/
lemma inv_exec {l : Label} (h : Inv swarmKey values ok s) (hok : ok → NoFailure s l)
    (ht : exec swarmKey s l = some t) : Inv swarmKey values ok t := by
  cases l with
  | receive => exact inv_receive h ht
  | timeout => exact inv_timeout h (fun h => (hok h).1 rfl) ht
  | done b =>
    refine inv_done h (fun h => ?_) ht
    have hb := (hok h).2
    simpa using hb

lemma inv_init (swarmKey : String) (values : List Value) (ok : Prop) :
    Inv swarmKey values ok { inbox := values } := ⟨rfl, rfl⟩

/-! ## Every sequence of values -/

/-- The awaits that are still to come after a phase, without the messages. -/
def weight : Phase → ℕ
  | .awaitAuth => 4
  | .awaitHandshake => 3
  | .acking => 2
  | .handling => 2
  | .dropping => 1
  | .looping => 1
  | _ => 0

def measure (s : State) : ℕ := 2 * s.inbox.length + weight s.phase

lemma measure_lt {l : Label} (h : Inv swarmKey values ok s) (ht : exec swarmKey s l = some t) :
    measure t < measure s := by
  obtain ⟨phase, inbox, acts⟩ := s
  cases l with
  | receive =>
    obtain ⟨hreceiving, e, he, rfl⟩ := exec_receive ht
    simp only [measure, List.length_tail]
    cases phase <;> simp only [receiving, Bool.false_eq_true] at hreceiving
    case awaitAuth =>
      obtain rfl := Option.some.inj he
      rcases onAuth_cases swarmKey inbox.head? with hcase | hcase | ⟨hcase, -⟩ <;>
        simp only [hcase, phaseAfter, weight] <;> omega
    case awaitHandshake =>
      obtain rfl := Option.some.inj he
      rcases onHandshake_cases inbox.head? with (hcase | hcase | hcase) |
        ⟨v, p, -, -, hcase | ⟨hcase, -⟩⟩ <;>
        simp only [hcase, phaseAfter, weight] <;> omega
    case looping =>
      obtain rfl := Option.some.inj he
      rcases onMessage_cases inbox.head? with ⟨hcase, -⟩ | ⟨v, hv, -, hcase⟩
      · simp only [hcase, phaseAfter, weight]
        omega
      · have hpos : 0 < inbox.length := List.length_pos_of_mem (List.mem_of_mem_head? hv)
        simp only [hcase, phaseAfter, weight]
        omega
  | timeout =>
    obtain ⟨rfl, e, he, rfl⟩ := exec_timeout ht
    obtain rfl := Option.some.inj he
    simp only [measure, onAuth, phaseAfter, weight]
    omega
  | done b =>
    obtain ⟨e, he, rfl⟩ := exec_done ht
    cases phase <;> simp only [Phase.resume, Option.some.injEq, reduceCtorEq] at he
    case dropping =>
      simp only [measure, ← he, phaseAfter, weight]
      omega
    case acking =>
      cases b <;> simp only [measure, ← he, if_true, if_false, Bool.false_eq_true, phaseAfter,
        weight] <;> omega
    case handling =>
      cases b <;> simp only [measure, ← he, if_true, if_false, Bool.false_eq_true, phaseAfter,
        weight] <;> omega
    case awaitAck => exact absurd h id

/-- The handler goes on until it has ended. -/
lemma ended_of_stuck (h : Inv swarmKey values ok s) (hstuck : (machine swarmKey values).Stuck s) :
    s.phase = .ended := by
  have hreceive := hstuck .receive
  have hdone := hstuck (.done true)
  simp only [machine, exec] at hreceive hdone
  obtain ⟨phase, inbox, acts⟩ := s
  cases phase <;> simp [receiving, Phase.resume] at hreceive hdone ⊢
  case awaitAck => exact h
  case connected => exact h

/-- The messages before the first `None`. -/
def untilNone (values : List Value) : List Value := values.takeWhile fun v => !v.isNone

lemma Admitted.handled_isPrefix {hs : Value} {left : List Value}
    (h : Admitted swarmKey values s hs left) :
    s.handled <+: untilNone (s.handled ++ left) := by
  rw [untilNone, List.takeWhile_append_of_pos fun v hv => by simp [h.messages v hv]]
  exact List.prefix_append ..

lemma Admitted.handled_eq {hs : Value} {left : List Value}
    (h : Admitted swarmKey values s hs left) (hleft : ∀ v, left.head? = some v → v.isNone = true) :
    s.handled = untilNone (s.handled ++ left) := by
  rw [untilNone, List.takeWhile_append_of_pos fun v hv => by simp [h.messages v hv]]
  cases left with
  | nil => simp
  | cons v left => simp [hleft v rfl]

/-- A connection that was acted on had been admitted. -/
lemma Inv.admitted (h : Inv swarmKey values ok s) (hacts : s.acts ≠ []) :
    ∃ hs left, Admitted swarmKey values s hs left := by
  obtain ⟨phase, inbox, acts⟩ := s
  cases phase
  case awaitAuth => exact absurd h.1 hacts
  case awaitHandshake => exact absurd h.1 hacts
  case dropping => exact absurd h.1 hacts
  case acking =>
    obtain ⟨-, hs, hadmitted⟩ := h
    exact ⟨hs, inbox, hadmitted⟩
  case looping =>
    obtain ⟨-, hs, hadmitted⟩ := h
    exact ⟨hs, inbox, hadmitted⟩
  case handling =>
    obtain ⟨-, hs, hadmitted⟩ := h
    exact ⟨hs, inbox, hadmitted⟩
  case ended =>
    obtain ⟨hnil, -⟩ | ⟨hs, left, hadmitted, -⟩ := h
    · exact absurd hnil hacts
    · exact ⟨hs, left, hadmitted⟩
  case awaitAck => exact absurd h id
  case connected => exact absurd h id

/-- **Nothing is acted on before the handshake.**  An entry, a registered peer or a handled message
means that the first value was an AUTH message signed with the swarm key and the second one a
HANDSHAKE; the messages handled are those that follow, in order, up to the first `None` at most.
The handler comes to its end; when nothing fails, a connection with such values has then got its
entry and its peer, and all of those messages have been handled. -/
theorem acts_only_after_handshake (swarmKey : String) (values : List Value) :
    (∀ s, (machine swarmKey values).Reachable s → s.acts ≠ [] →
      ∃ auth hs rest, values = auth :: hs :: rest ∧ IsAuth swarmKey auth ∧ IsHandshake hs ∧
        s.handled <+: untilNone rest) ∧
    (∃ k, ∀ ls s, (machine swarmKey values).run { inbox := values } ls = some s →
      ls.length ≤ k) ∧
    ∀ s, (machine swarmKey values).ReachableBy NoFailure s →
      (machine swarmKey values).Stuck s →
        ∀ auth hs rest, values = auth :: hs :: rest → IsAuth swarmKey auth → IsHandshake hs →
          WellTyped hs → s.handled = untilNone rest ∧
            ∃ p, s.acts = .entry p :: .addPeer p :: (untilNone rest).map .handle := by
  refine ⟨fun s hs hacts => ?_, ⟨2 * values.length + 4, fun ls s hs => ?_⟩,
    fun s hs hstuck auth hshake rest hvalues hauth hhs htyped => ?_⟩
  · have hinv : Inv swarmKey values False s :=
      hs.invariant (inv_init swarmKey values _) fun _ _ _ h => inv_exec h False.elim
    obtain ⟨hshake, left, hadmitted⟩ := hinv.admitted hacts
    obtain ⟨auth, hauth, hvalues⟩ := hadmitted.values
    exact ⟨auth, hshake, _, hvalues, hauth, hadmitted.handshake, hadmitted.handled_isPrefix⟩
  · have h := Machine.length_le_of_run (M := machine swarmKey values)
      (I := Inv swarmKey values False) (fun _ _ _ h => inv_exec h False.elim)
      (fun _ _ _ h => measure_lt h) ls _ s (inv_init swarmKey values _) hs
    simp only [measure, weight] at h
    omega
  · have hinv : Inv swarmKey values True s :=
      hs.invariant (inv_init swarmKey values _) fun _ _ _ h ht hl => inv_exec h (fun _ => hl) ht
    have hended := ended_of_stuck hinv hstuck
    unfold Inv at hinv
    rw [hended] at hinv
    obtain ⟨-, hdropped⟩ | ⟨hshake', left, hadmitted, hleft⟩ := hinv
    · exact absurd ⟨auth, hshake, rest, hvalues, hauth, hhs, htyped⟩ (hdropped trivial)
    · obtain ⟨auth', -, hvalues'⟩ := hadmitted.values
      rw [hvalues'] at hvalues
      obtain ⟨rfl, rfl, rfl⟩ : auth' = auth ∧ hshake' = hshake ∧ s.handled ++ left = rest := by
        simpa using hvalues
      obtain ⟨⟨p, hacts⟩, hnone⟩ := hleft trivial htyped
      have hhandled := hadmitted.handled_eq hnone
      exact ⟨hhandled, p, hacts.trans (by rw [← hhandled])⟩

/-- The values of a connection that sends two messages around a `None`. -/
def session : List Value :=
  [authHandshakeMsg "aa" "", handshakeMsg "HANDSHAKE" "aa" "node" 9000 8888, .int 5, .nil, .int 6]

theorem acts_only_after_handshake_session :
    ∃ s, (machine "" session).Reachable s ∧ s.handled = [.int 5] := by
  have hrun : (machine "" session).run { inbox := session }
      [.receive, .receive, .done true, .receive, .done true, .receive] =
        some ⟨.ended, [.int 6], [.entry (.str "aa"), .addPeer (.str "aa"), .handle (.int 5)]⟩ := by
    simp [Machine.run_cons, machine, exec, session, receiving, Phase.resume,
      onAuth_authHandshakeMsg, onHandshake_handshakeMsg, onMessage, phaseAfter, actsOf]
  have hby : (machine "" session).ReachableBy NoFailure
      ⟨.ended, [.int 6], [.entry (.str "aa"), .addPeer (.str "aa"), .handle (.int 5)]⟩ := by
    refine ⟨_, ?_, hrun⟩
    simp [Machine.Meets, NoFailure]
  have hstuck : (machine "" session).Stuck
      ⟨.ended, [.int 6], [.entry (.str "aa"), .addPeer (.str "aa"), .handle (.int 5)]⟩ := by
    intro l
    cases l <;> simp [machine, exec, receiving, Phase.resume]
  obtain ⟨-, -, hall⟩ := acts_only_after_handshake "" session
  have hauth : IsAuth "" (authHandshakeMsg "aa" "") :=
    isAuth_of_checkAuth (checkAuth_authHandshakeMsg "" "aa")
  have hhandshake : IsHandshake (handshakeMsg "HANDSHAKE" "aa" "node" 9000 8888) :=
    rejects_eq_false (rejects_handshakeMsg "HANDSHAKE" "aa" "node" 9000 8888)
  obtain ⟨hhandled, -⟩ := hall _ hby hstuck _ _ _ rfl hauth hhandshake
    ⟨"aa", nodeId_handshakeMsg "HANDSHAKE" "aa" "node" 9000 8888⟩
  exact ⟨_, hby.reachable, hhandled⟩

end DistriStore.Inbound
