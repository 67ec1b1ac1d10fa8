import DistriStore.Advanced.Heartbeat

/-!
# Peers that answer (`backend/advanced/heartbeat.py`)

The other side of `Advanced/Heartbeat`: whom the monitor removes.  It never removes a peer whose
last PING has been answered, or is not older than the timeout, when it checks, and it removes every
other one (`spared_iff`).  So a peer that answers in time stays registered, whatever the loop, the
PONG handlers and the other tasks of the node do in between, until another task removes it
(`answering_peer_stays`).
-/

namespace DistriStore.Heartbeat

open Lib

/-! ## Following a peer -/

/-- When the last PING was sent to `p`, as long as it is neither answered nor given up. -/
def unanswered (c : Config) (p : Key) (last : Option ℚ) (s : State) (l : Label) (_ : State) :
    Option ℚ :=
  match l, s.phase with
  | .sent true, .sending peer _ => if peer = p then some s.now else last
  | .pong peer _, _ => if peer = p then none else last
  | .check, _ => last.filter fun t => s.now - t ≤ c.timeout
  | _, _ => last

/-- The monitor, with what `unanswered` sees. -/
def followed (c : Config) (p : Key) : Machine (State × Option ℚ) Label :=
  (machine c).observed none (unanswered c p)

/-- The loop is not about to remove `p`. -/
def Spared (p : Key) (x : State × Option ℚ) : Prop :=
  ∀ dead, x.1.phase = .removing dead → p ∉ dead

/-- A check finds the last PING answered, or not too old. -/
def InTime (c : Config) (x : State × Option ℚ) : Label → Prop
  | .check => ∀ sent ∈ x.2, x.1.now - sent ≤ c.timeout
  | _ => True

instance (c : Config) (x : State × Option ℚ) : ∀ l, Decidable (InTime c x l)
  | .check => inferInstanceAs (Decidable (∀ sent ∈ x.2, x.1.now - sent ≤ c.timeout))
  | .tick _ => isTrue trivial
  | .list => isTrue trivial
  | .sent _ => isTrue trivial
  | .removed => isTrue trivial
  | .pong .. => isTrue trivial
  | .pongNext _ => isTrue trivial
  | .register _ => isTrue trivial
  | .unregister _ => isTrue trivial
  | .connect _ => isTrue trivial
  | .disconnect _ => isTrue trivial

variable {c : Config} {p : Key} {s t : State} {last : Option ℚ} {l : Label}

/-! ## What is recorded of the peer -/

/-- What is recorded of `p` is its last PING. -/
def Matches (p : Key) (x : State × Option ℚ) : Prop := x.1.pendingPings.get? p = x.2

lemma matches_pingSent {peer : Key} {rest : List Key} {ok : Bool}
    (hsending : s.phase = .sending peer rest) (hs : Matches p (s, last)) :
    Matches p (pingSent c s peer rest ok, unanswered c p last s (.sent ok) t) := by
  rw [Matches, pingSent, (pingNext_frame _ rest).1]
  cases ok with
  | false => exact hs
  | true =>
    simp only [unanswered, hsending, if_true, Dict.get?_set, eq_comm (a := p)]
    split
    · rfl
    · exact hs

/-- A check condemns a peer unless it finds it in time. -/
lemma not_mem_deadPeers (hs : Matches p (s, last)) :
    p ∉ deadPeers c s ↔ ∀ sent ∈ last, s.now - sent ≤ c.timeout := by
  replace hs : s.pendingPings.get? p = last := hs
  rw [mem_deadPeers, hs]
  simp only [not_exists, not_and, Rat.not_lt, Option.mem_def]

lemma matches_checkTimeouts (hs : Matches p (s, last)) :
    Matches p (checkTimeouts c s, unanswered c p last s .check t) := by
  have hpings : (checkTimeouts c s).pendingPings = s.pendingPings.eraseAll (deadPeers c s) :=
    (removeNext_frame _ _).1
  have hdead := not_mem_deadPeers (c := c) hs
  rw [Matches, hpings, unanswered]
  by_cases hmem : p ∈ deadPeers c s
  · rw [Dict.get?_eraseAll_of_mem _ hmem]
    cases last with
    | none => rfl
    | some sent =>
      have hold : ¬ s.now - sent ≤ c.timeout := by simpa [hmem] using hdead
      simp [Option.filter, hold]
  · have hyoung := hdead.1 hmem
    rw [Dict.get?_eraseAll_of_not_mem _ hmem]
    refine Eq.trans hs ?_
    cases last with
    | none => rfl
    | some sent => simp [Option.filter, hyoung sent rfl]

lemma matches_handlePong {peer : Key} (msg : Value) (hs : Matches p (s, last)) :
    Matches p (handlePong s peer msg, unanswered c p last s (.pong peer msg) t) := by
  replace hs : s.pendingPings.get? p = last := hs
  rw [Matches, unanswered]
  unfold handlePong
  by_cases hpeer : peer = p
  · subst hpeer
    rw [if_pos rfl]
    split
    · next hnone => exact hnone
    · exact Dict.get?_erase_self ..
  · rw [if_neg hpeer]
    split
    · exact hs
    · exact (Dict.get?_erase_ne _ (Ne.symm hpeer)).trans hs

lemma matches_step {x y : State × Option ℚ} (hx : Matches p x)
    (hy : (followed c p).exec x l = some y) : Matches p y := by
  obtain ⟨s, last⟩ := x
  obtain ⟨t, last'⟩ := y
  obtain ⟨h, hobserve⟩ := Machine.exec_observed hy
  dsimp only at h hobserve
  rw [hobserve]
  replace h : exec c s l = some t := h
  have houtside (hl : l.outside = true) (hlast : unanswered c p last s l t = last) :
      Matches p (t, unanswered c p last s l t) := by
    rw [hlast, Matches, (outside_frame hl h).1]
    exact hx
  cases l with
  | list =>
    obtain ⟨-, rfl⟩ := exec_list h
    rw [Matches, (pingNext_frame s s.peers.keys).1]
    exact hx
  | sent ok =>
    obtain ⟨peer, rest, hsending, rfl⟩ := exec_sent h
    exact matches_pingSent hsending hx
  | check =>
    obtain ⟨-, rfl⟩ := exec_check h
    exact matches_checkTimeouts hx
  | removed =>
    rw [Matches, (exec_removed (p := p) h).1]
    exact hx
  | pong peer msg =>
    rw [exec, Option.some.injEq] at h
    subst h
    exact matches_handlePong msg hx
  | tick d => exact houtside rfl rfl
  | pongNext n => exact houtside rfl rfl
  | register peer => exact houtside rfl rfl
  | unregister peer => exact houtside rfl rfl
  | connect peer => exact houtside rfl rfl
  | disconnect peer => exact houtside rfl rfl

/-! ## Whom a check removes -/

/-- The steps between two checks do not condemn anybody. -/
lemma spared_step {x y : State × Option ℚ} (hx : Spared p x)
    (hy : (followed c p).exec x l = some y) (hl : l ≠ .check) : Spared p y := by
  obtain ⟨s, last⟩ := x
  obtain ⟨t, last'⟩ := y
  obtain ⟨h, -⟩ := Machine.exec_observed hy
  replace h : exec c s l = some t := h
  intro dead hdead
  replace hdead : t.phase = .removing dead := hdead
  have hsame (hphase : t.phase = s.phase) : p ∉ dead := hx dead (hphase.symm.trans hdead)
  cases l with
  | list =>
    obtain ⟨-, rfl⟩ := exec_list h
    exact absurd hdead ((pingNext_frame s s.peers.keys).2.2 dead)
  | sent ok =>
    obtain ⟨peer, rest, -, rfl⟩ := exec_sent h
    exact absurd hdead ((pingNext_frame _ rest).2.2 dead)
  | check => exact absurd rfl hl
  | removed =>
    unfold exec at h
    dsimp only at h
    split at h
    · next peer rest hremoving =>
      rw [Option.some.injEq] at h
      subst h
      intro hmem
      have hrest : p ∈ rest := removing_removeNext.1 ⟨dead, hdead, hmem⟩
      exact hx _ hremoving (List.mem_cons_of_mem _ hrest)
    · cases h
  | pong peer msg =>
    refine hsame ?_
    rw [exec, Option.some.injEq] at h
    rw [← h, handlePong]
    split <;> rfl
  | tick d => exact hsame (outside_frame rfl h).2
  | pongNext n => exact hsame (outside_frame rfl h).2
  | register peer => exact hsame (outside_frame rfl h).2
  | unregister peer => exact hsame (outside_frame rfl h).2
  | connect peer => exact hsame (outside_frame rfl h).2
  | disconnect peer => exact hsame (outside_frame rfl h).2

lemma spared_check {x y : State × Option ℚ} (hx : Matches p x)
    (hy : (followed c p).exec x .check = some y) : Spared p y ↔ InTime c x .check := by
  obtain ⟨s, last⟩ := x
  obtain ⟨t, last'⟩ := y
  obtain ⟨h, -⟩ := Machine.exec_observed hy
  obtain ⟨-, rfl⟩ := exec_check (show exec c s .check = some t from h)
  refine Iff.trans ?_ (not_mem_deadPeers hx)
  rw [← removing_removeNext (s := { s with
    pendingPings := s.pendingPings.eraseAll (deadPeers c s) })]
  unfold Spared checkTimeouts
  simp only [not_exists, not_and]

/-- **Whom the monitor removes**: nobody but the peers whose last PING a check finds unanswered and
older than the timeout. -/
theorem spared_iff (c : Config) (p : Key) (run : List Label) :
    (followed c p).Always (Spared p) (followed c p).init run ↔
      (followed c p).Meets (InTime c) (followed c p).init run := by
  have hspared : Spared p (followed c p).init := by
    intro dead hdead
    cases hdead
  refine Machine.always_iff_meets (I := Matches p) (fun _ _ _ hx hy => matches_step hx hy)
    (fun x l y hx hspared hy => ?_) rfl hspared
  by_cases hl : l = .check
  · subst hl
    exact spared_check hx hy
  · refine iff_of_true (spared_step hspared hy hl) ?_
    cases l with
    | check => exact absurd rfl hl
    | _ => trivial

/-! ## A peer that answers -/

/-- No other task removes `p`. -/
def Undisturbed (p : Key) : Label → Prop
  | .unregister peer => peer ≠ p
  | _ => True

instance (p : Key) : DecidablePred (Undisturbed p)
  | .unregister peer => inferInstanceAs (Decidable (peer ≠ p))
  | .tick _ => isTrue trivial
  | .list => isTrue trivial
  | .sent _ => isTrue trivial
  | .check => isTrue trivial
  | .removed => isTrue trivial
  | .pong .. => isTrue trivial
  | .pongNext _ => isTrue trivial
  | .register _ => isTrue trivial
  | .connect _ => isTrue trivial
  | .disconnect _ => isTrue trivial

lemma isPeer_of_peers_eq (hpeers : t.peers = s.peers) (hs : s.isPeer p = true) :
    t.isPeer p = true := by
  rwa [State.isPeer, hpeers]

lemma isPeer_erase {peer : Key} (hpeer : peer ≠ p) (hs : s.isPeer p = true) :
    ((s.peers.erase peer).get? p).isSome = true := by
  rwa [Dict.get?_erase_ne _ (Ne.symm hpeer)]

lemma isPeer_addPeer (i : ℕ) (hs : s.isPeer p = true) : (s.addPeer i).isPeer p = true := by
  unfold State.addPeer
  split
  · exact hs
  · split
    · exact hs
    · rw [State.isPeer, Dict.get?_set]
      split
      · rfl
      · exact hs

lemma isPeer_step (hspared : ∀ dead, s.phase = .removing dead → p ∉ dead)
    (hs : s.isPeer p = true) (h : exec c s l = some t) (hl : Undisturbed p l) :
    t.isPeer p = true := by
  cases l with
  | tick d =>
    unfold exec at h
    dsimp only at h
    rw [Option.ite_none_right_eq_some, Option.some.injEq] at h
    rw [← h.2]
    exact hs
  | list =>
    obtain ⟨-, rfl⟩ := exec_list h
    exact isPeer_of_peers_eq (pingNext_frame s s.peers.keys).2.1 hs
  | sent ok =>
    obtain ⟨peer, rest, -, rfl⟩ := exec_sent h
    refine isPeer_of_peers_eq ((pingNext_frame _ rest).2.1.trans ?_) hs
    split <;> rfl
  | check =>
    obtain ⟨-, rfl⟩ := exec_check h
    exact isPeer_of_peers_eq (removeNext_frame _ _).2.1 hs
  | removed =>
    unfold exec at h
    dsimp only at h
    split at h
    · next peer rest hremoving =>
      rw [Option.some.injEq] at h
      rw [← h, State.isPeer, (removeNext_frame _ _).2.1]
      refine isPeer_erase ?_ hs
      rintro rfl
      exact hspared _ hremoving (List.mem_cons_self ..)
    · cases h
  | pong peer msg =>
    rw [exec, Option.some.injEq] at h
    refine isPeer_of_peers_eq ?_ hs
    rw [← h, handlePong]
    split <;> rfl
  | pongNext n =>
    simp only [exec, Option.bind_eq_bind, Option.bind_eq_some_iff] at h
    obtain ⟨pong, -, h⟩ := h
    split at h
    · rw [← Option.some.inj h]
      refine isPeer_of_peers_eq ?_ hs
      unfold pongGot
      dsimp only
      split
      · rfl
      · split <;> rfl
    · next i _ =>
      rw [← Option.some.inj h]
      exact isPeer_addPeer i hs
    · cases h
  | register peer =>
    rw [exec, Option.some.injEq] at h
    rw [← h]
    exact isPeer_addPeer _ hs
  | unregister peer =>
    rw [← Option.some.inj h]
    exact isPeer_erase hl hs
  | connect peer =>
    rw [← Option.some.inj h]
    exact hs
  | disconnect peer =>
    rw [← Option.some.inj h]
    exact hs

/-- **A peer that answers stays.**  As long as every check finds the last PING to a registered peer
answered, or not older than the timeout, the peer stays registered in every run in which no other
task removes it. -/
theorem answering_peer_stays (c : Config) (p : Key) (x : State × Option ℚ) (run : List Label)
    (hx : (followed c p).Reachable x) (hspared : Spared p x) (hpeer : x.1.isPeer p = true)
    (hrun : (followed c p).Meets (fun y l => InTime c y l ∧ Undisturbed p l) x run) :
    (followed c p).Always (fun y => y.1.isPeer p = true) x run := by
  have hmatches : Matches p x := hx.invariant rfl fun _ _ _ hs h => matches_step hs h
  refine Machine.Always.imp (fun y hy => hy.2.2) (Machine.always_of_meets
    (I := fun y => Matches p y ∧ Spared p y ∧ y.1.isPeer p = true) ?_
    ⟨hmatches, hspared, hpeer⟩ hrun)
  rintro y l z ⟨hmatches, hspared, hpeer⟩ h ⟨hintime, hl⟩
  refine ⟨matches_step hmatches h, ?_, isPeer_step hspared hpeer (Machine.exec_observed h).1 hl⟩
  by_cases hcheck : l = .check
  · subst hcheck
    exact (spared_check hmatches h).2 hintime
  · exact spared_step hspared h hcheck

/-- A peer joins and is connected. -/
def joining : List Label :=
  [.register { nodeId := .str "p", ip := "10.0.0.2", tcpPort := .int 50001 },
    .connect (.str "p")]

/-- Two rounds of the defaults, in which `p` answers a second after each PING. -/
def answered : List Label :=
  let turn : List Label :=
    [.list, .sent true, .tick 1, .pong (.str "p") (.dict []), .tick 4, .check]
  turn ++ turn

def joined : State × Option ℚ :=
  ((followed {} (.str "p")).run (followed {} (.str "p")).init joining).get (by decide +kernel)

theorem answering_peer_stays_answered : (followed {} (.str "p")).Always
    (fun y => y.1.isPeer (.str "p") = true) joined answered :=
  answering_peer_stays {} (.str "p") joined answered ⟨joining, (Option.some_get _).symm⟩
    (by
      intro dead hdead
      have hlisting : joined.1.phase = .listing := by decide +kernel
      rw [hlisting] at hdead
      cases hdead)
    (by decide +kernel) (by decide +kernel)

end DistriStore.Heartbeat
