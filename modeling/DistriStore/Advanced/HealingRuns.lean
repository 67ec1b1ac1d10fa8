import DistriStore.Advanced.HealingCycle

/-!
# Healing from cycle to cycle (`SelfHealingManager._heal_loop`)

The loop runs one cycle after the other, each with the peers that are alive then and with the chunks
that the node holds then; an exception ends a cycle and is logged.  Nothing else writes to the
routing table here.

Each peer that stays alive is sent a chunk once at most, however many cycles fail to reach others
(`healing_sends_once`); the holders on record are those of the beginning and those that the chunk
was sent to, without repetitions and not more than needed (`healing_holders`).  After a cycle in
which nothing has failed the loop has nothing to send for as long as the same peers are alive
(`healing_settles`).
-/

namespace DistriStore

open Lib

section Cycles

variable {σ γ : Type} (net : HealNet σ γ)

/-- One cycle after the other: the routing table at the end, and the logs. -/
def healLoop : List HealContext → RoutingTable → σ → (RoutingTable × List SendAttempt) × σ
  | [], routing, s => ((routing, []), s)
  | ctx :: ctxs, routing, s =>
    let (r, s) := checkAndHeal net ctx routing s
    let (r', s) := healLoop ctxs r.routing s
    ((r'.1, r.log ++ r'.2), s)

/-- The calls that the loop makes. -/
def loopCalls (ctxs : List HealContext) (rt : RoutingTable) (s : σ) : List (NetCall γ) :=
  (healLoop net.recorded ctxs rt (s, [])).2.2

/-- The calls are those of the attempts, from cycle to cycle. -/
def LoopRecorded : List HealContext → List SendAttempt → List (NetCall γ) → Prop
  | [], log, calls => log = [] ∧ calls = []
  | ctx :: ctxs, log, calls => ∃ log₁ log₂ calls₁ calls₂, log = log₁ ++ log₂ ∧
      calls = calls₁ ++ calls₂ ∧ Recorded ctx log₁ calls₁ ∧ LoopRecorded ctxs log₂ calls₂

variable {ctx : HealContext} {rt : RoutingTable} {c p : String} (s : σ)

lemma recorded_healLoop (ctxs : List HealContext) (rt : RoutingTable) (s : σ)
    (calls : List (NetCall γ)) :
    ∃ new, LoopRecorded ctxs (healLoop net ctxs rt s).1.2 new ∧
      healLoop net.recorded ctxs rt (s, calls) =
        ((healLoop net ctxs rt s).1, (healLoop net ctxs rt s).2, calls ++ new) := by
  induction ctxs generalizing rt s calls with
  | nil => exact ⟨[], ⟨rfl, rfl⟩, by simp [healLoop]⟩
  | cons ctx ctxs ih =>
    obtain ⟨first, hfirst, heq⟩ := recorded_healChunks ctx net
      (underReplicated ctx.k ctx.aliveIds rt.getAll)
      (rt.assignAll (underReplicated ctx.k ctx.aliveIds rt.getAll)) s calls
    have hcycle : checkAndHeal net.recorded ctx rt (s, calls) =
        ((checkAndHeal net ctx rt s).1, (checkAndHeal net ctx rt s).2, calls ++ first) := heq
    obtain ⟨rest, hrest, hrestEq⟩ := ih (checkAndHeal net ctx rt s).1.routing
      (checkAndHeal net ctx rt s).2 (calls ++ first)
    refine ⟨first ++ rest, ⟨_, _, first, rest, rfl, rfl, hfirst, hrest⟩, ?_⟩
    simp only [healLoop, hcycle, hrestEq, List.append_assoc]

lemma loopRecorded_loopCalls (ctxs : List HealContext) (rt : RoutingTable) (s : σ) :
    LoopRecorded ctxs (healLoop net ctxs rt s).1.2 (loopCalls net ctxs rt s) := by
  obtain ⟨new, hrecorded, heq⟩ := recorded_healLoop net ctxs rt s []
  rw [loopCalls, heq]
  exact hrecorded

lemma LoopRecorded.calls_eq_nil {ctxs : List HealContext} {calls : List (NetCall γ)}
    (h : LoopRecorded ctxs [] calls) : calls = [] := by
  induction ctxs generalizing calls with
  | nil => exact h.2
  | cons ctx ctxs ih =>
    obtain ⟨log₁, log₂, calls₁, calls₂, hlog, rfl, hfirst, hrest⟩ := h
    obtain ⟨rfl, rfl⟩ := List.append_eq_nil_iff.1 hlog.symm
    rw [hfirst.calls_eq_nil, ih hrest]
    rfl

/-! ## One cycle -/

/-- The holders on record after a cycle. -/
lemma getHolders_checkAndHeal {net : HealNet σ γ} (hnet : net.DialsReturn) (ctx : HealContext)
    (rt : RoutingTable) (s : σ) (c : String) :
    let r := (checkAndHeal net ctx rt s).1
    let alive := (rt.getHolders c).filter (· ∈ ctx.aliveIds)
    (r.routing.getHolders c = rt.getHolders c ∧ triedFor c r.log = []) ∨
      (alive.length < ctx.k ∧ r.routing.getHolders c = alive ++ sentTo c r.log ∧
        triedFor c r.log <+: targetsOf ctx c alive) := by
  obtain ⟨hchunk, hframe, -, hheal⟩ := checkAndHeal_spec net ctx rt s
  by_cases hmem : c ∈ (underReplicated ctx.k ctx.aliveIds rt.getAll).map Prod.fst
  · obtain ⟨ids, hget, hlt⟩ := mem_keys_underReplicated.1 hmem
    obtain ⟨htried, hentry⟩ := hheal c _ (mem_underReplicated.2 ⟨ids, hget, rfl, hlt⟩)
    have hids : rt.getHolders c = ids := by rw [RoutingTable.getHolders, hget]; rfl
    right
    rw [hids]
    refine ⟨hlt, ?_, htried⟩
    rw [RoutingTable.getHolders, hentry (noneRaised_checkAndHeal hnet ctx rt s)]
    rfl
  · left
    refine ⟨?_, triedFor_eq_nil fun a ha heq => hmem (heq ▸ (hchunk a ha).1)⟩
    rw [RoutingTable.getHolders, RoutingTable.getHolders, hframe c hmem]

section

variable {net : HealNet σ γ} (hnet : net.DialsReturn)

include hnet

/-- A peer that is alive gets a place on record for each time that the chunk is sent to it. -/
lemma count_checkAndHeal (hp : p ∈ ctx.aliveIds) :
    ((checkAndHeal net ctx rt s).1.routing.getHolders c).count p =
      (rt.getHolders c).count p + (sentTo c (checkAndHeal net ctx rt s).1.log).count p := by
  rcases getHolders_checkAndHeal hnet ctx rt s c with ⟨hholders, htried⟩ | ⟨-, hholders, -⟩
  · have hsent : sentTo c (checkAndHeal net ctx rt s).1.log = [] :=
      List.eq_nil_of_sublist_nil (htried ▸ sentTo_sublist_triedFor)
    rw [hholders, hsent, List.count_nil, Nat.add_zero]
  · rw [hholders, List.count_append, List.count_filter (by simpa using hp)]

/-- Whom a cycle sends a chunk to is among its targets. -/
lemma sentTo_sublist_targetsOf :
    (sentTo c (checkAndHeal net ctx rt s).1.log).Sublist
      (targetsOf ctx c ((rt.getHolders c).filter (· ∈ ctx.aliveIds))) := by
  refine sentTo_sublist_triedFor.trans ?_
  rcases getHolders_checkAndHeal hnet ctx rt s c with ⟨-, htried⟩ | ⟨-, -, htried⟩
  · exact htried ▸ List.nil_sublist _
  · exact htried.sublist

lemma count_sentTo_le : (sentTo c (checkAndHeal net ctx rt s).1.log).count p ≤ 1 :=
  List.nodup_iff_count_le_one.1 (nodup_targetsOf.sublist (sentTo_sublist_targetsOf s hnet)) p

/-- A holder that is alive is not chosen. -/
lemma count_sentTo_of_mem (hp : p ∈ ctx.aliveIds) (hheld : p ∈ rt.getHolders c) :
    (sentTo c (checkAndHeal net ctx rt s).1.log).count p = 0 := by
  refine List.count_eq_zero.2 fun hsent => ?_
  have htarget := (sentTo_sublist_targetsOf s hnet).subset hsent
  exact (mem_targetsOf htarget).2 (List.mem_filter.2 ⟨hheld, decide_eq_true hp⟩)

end

/-! ## All cycles -/

/-- **A peer that stays alive is sent a chunk once at most**, and not at all when it is on record
for it; and it is on record afterwards exactly when it was before or the chunk was sent to it.  What
is sent is what the loop has written to connections, as long as no call of `connect_to_peer`
raises. -/
theorem healing_sends_once {net : HealNet σ γ} (hnet : net.DialsReturn) (ctxs : List HealContext)
    (rt : RoutingTable) (s : σ) (c p : String) (halive : ∀ ctx ∈ ctxs, p ∈ ctx.aliveIds) :
    let r := (healLoop net ctxs rt s).1
    LoopRecorded ctxs r.2 (loopCalls net ctxs rt s) ∧
      (r.1.getHolders c).count p = (rt.getHolders c).count p + (sentTo c r.2).count p ∧
      (sentTo c r.2).count p ≤ 1 ∧ (p ∈ rt.getHolders c → (sentTo c r.2).count p = 0) := by
  refine ⟨loopRecorded_loopCalls net ctxs rt s, ?_⟩
  induction ctxs generalizing rt s with
  | nil => exact ⟨rfl, Nat.zero_le 1, fun _ => rfl⟩
  | cons ctx ctxs ih =>
    have hp : p ∈ ctx.aliveIds := halive ctx (List.mem_cons_self ..)
    have hcount : ((checkAndHeal net ctx rt s).1.routing.getHolders c).count p =
        (rt.getHolders c).count p + (sentTo c (checkAndHeal net ctx rt s).1.log).count p :=
      count_checkAndHeal s hnet hp
    have hle : (sentTo c (checkAndHeal net ctx rt s).1.log).count p ≤ 1 := count_sentTo_le s hnet
    have hheld : p ∈ rt.getHolders c →
        (sentTo c (checkAndHeal net ctx rt s).1.log).count p = 0 := count_sentTo_of_mem s hnet hp
    obtain ⟨hcount', hle', hheld'⟩ := ih (checkAndHeal net ctx rt s).1.routing
      (checkAndHeal net ctx rt s).2 fun ctx hctx => halive ctx (List.mem_cons_of_mem _ hctx)
    have hlog : (healLoop net (ctx :: ctxs) rt s).1.2 = (checkAndHeal net ctx rt s).1.log ++
        (healLoop net ctxs (checkAndHeal net ctx rt s).1.routing
          (checkAndHeal net ctx rt s).2).1.2 := rfl
    have htable : (healLoop net (ctx :: ctxs) rt s).1.1 =
        (healLoop net ctxs (checkAndHeal net ctx rt s).1.routing
          (checkAndHeal net ctx rt s).2).1.1 := rfl
    rw [hlog, htable, sentTo_append, List.count_append]
    refine ⟨by omega, ?_, fun hmem => ?_⟩
    · -- whom this cycle has reached, the later ones do not choose
      rcases Nat.eq_zero_or_pos ((sentTo c (checkAndHeal net ctx rt s).1.log).count p) with h | h
      · omega
      · have hnone := hheld' (List.count_pos_iff.1 (by omega))
        omega
    · have hfirst := hheld hmem
      have hrest := hheld' (List.count_pos_iff.1 (by
        have hpos := List.count_pos_iff.2 hmem
        omega))
      omega

/-- The table that has a dead holder. -/
def oneDead : RoutingTable := (∅ : RoutingTable).assignChunk "f0" ["aa", "dd"]

theorem healing_sends_once_twice :
    let r := (healLoop oneUnreachable.1 [oneUnreachable.2, oneUnreachable.2] oneDead ()).1
    LoopRecorded [oneUnreachable.2, oneUnreachable.2] r.2
        (loopCalls oneUnreachable.1 [oneUnreachable.2, oneUnreachable.2] oneDead ()) ∧
      (r.1.getHolders "f0").count "f1" =
        (oneDead.getHolders "f0").count "f1" + (sentTo "f0" r.2).count "f1" ∧
      (sentTo "f0" r.2).count "f1" ≤ 1 ∧
      ("f1" ∈ oneDead.getHolders "f0" → (sentTo "f0" r.2).count "f1" = 0) :=
  healing_sends_once dialsReturn_oneUnreachable [oneUnreachable.2, oneUnreachable.2] oneDead ()
    "f0" "f1" (by decide)

/-- What one cycle does to the holders on record. -/
lemma holders_checkAndHeal {net : HealNet σ γ} (hnet : net.DialsReturn) (ctx : HealContext)
    (rt : RoutingTable) (s : σ) (c : String) (hnodup : (rt.getHolders c).Nodup) :
    let r := (checkAndHeal net ctx rt s).1
    (r.routing.getHolders c).Nodup ∧
      (r.routing.getHolders c).length ≤ max ctx.k (rt.getHolders c).length ∧
      ∀ q ∈ r.routing.getHolders c, q ∈ rt.getHolders c ∨ q ∈ sentTo c r.log := by
  have hsub : (sentTo c (checkAndHeal net ctx rt s).1.log).Sublist
      (targetsOf ctx c ((rt.getHolders c).filter (· ∈ ctx.aliveIds))) :=
    sentTo_sublist_targetsOf s hnet
  rcases getHolders_checkAndHeal hnet ctx rt s c with ⟨hholders, -⟩ | ⟨hlt, hholders, -⟩
  · dsimp only
    rw [hholders]
    exact ⟨hnodup, le_max_right _ _, fun q hq => Or.inl hq⟩
  · set alive := (rt.getHolders c).filter (· ∈ ctx.aliveIds)
    have hfew : (sentTo c (checkAndHeal net ctx rt s).1.log).length ≤ ctx.k - alive.length :=
      hsub.length_le.trans length_targetsOf_le
    dsimp only
    rw [hholders]
    refine ⟨List.nodup_append.2 ⟨hnodup.filter _, nodup_targetsOf.sublist hsub, ?_⟩, ?_, ?_⟩
    · rintro q hq q' hq' rfl
      exact (mem_targetsOf (hsub.subset hq')).2 hq
    · rw [List.length_append]
      exact le_max_of_le_left (by omega)
    · intro q hq
      rcases List.mem_append.1 hq with hq | hq
      · exact Or.inl (List.mem_filter.1 hq).1
      · exact Or.inr hq

/-- **The record stays honest** as long as no call of `connect_to_peer` raises: whatever else fails,
and whoever comes and goes, no peer is on record twice, there are not more than `k` unless there
were before, each of them was on record at first or the chunk was sent to it, and what was sent is
what the node held then. -/
theorem healing_holders {net : HealNet σ γ} (hnet : net.DialsReturn) (k : ℕ)
    (ctxs : List HealContext) (rt : RoutingTable) (s : σ) (hk : ∀ ctx ∈ ctxs, ctx.k = k) :
    let r := (healLoop net ctxs rt s).1
    LoopRecorded ctxs r.2 (loopCalls net ctxs rt s) ∧
    (∀ c, (rt.getHolders c).Nodup →
      (r.1.getHolders c).Nodup ∧
      (r.1.getHolders c).length ≤ max k (rt.getHolders c).length ∧
      ∀ q ∈ r.1.getHolders c, q ∈ rt.getHolders c ∨ q ∈ sentTo c r.2) ∧
    ∀ a ∈ r.2, ∃ ctx ∈ ctxs, ctx.localStore.loadChunk a.chunkHash = some a.data := by
  refine ⟨loopRecorded_loopCalls net ctxs rt s, ?_⟩
  induction ctxs generalizing rt s with
  | nil => exact ⟨fun c h => ⟨h, le_max_right _ _, fun q hq => Or.inl hq⟩, fun a ha => by cases ha⟩
  | cons ctx ctxs ih =>
    obtain ⟨hrest, hdata⟩ := ih (checkAndHeal net ctx rt s).1.routing
      (checkAndHeal net ctx rt s).2 fun ctx hctx => hk ctx (List.mem_cons_of_mem _ hctx)
    have hlog : (healLoop net (ctx :: ctxs) rt s).1.2 = (checkAndHeal net ctx rt s).1.log ++
        (healLoop net ctxs (checkAndHeal net ctx rt s).1.routing
          (checkAndHeal net ctx rt s).2).1.2 := rfl
    have htable : (healLoop net (ctx :: ctxs) rt s).1.1 =
        (healLoop net ctxs (checkAndHeal net ctx rt s).1.routing
          (checkAndHeal net ctx rt s).2).1.1 := rfl
    rw [hlog, htable]
    constructor
    · intro c hnodup
      obtain ⟨hnodup₁, hlength₁, hmem₁⟩ := holders_checkAndHeal hnet ctx rt s c hnodup
      obtain ⟨hnodup₂, hlength₂, hmem₂⟩ := hrest c hnodup₁
      rw [hk ctx (List.mem_cons_self ..)] at hlength₁
      refine ⟨hnodup₂, hlength₂.trans (max_le (le_max_left _ _) hlength₁), fun q hq => ?_⟩
      rw [sentTo_append, List.mem_append]
      rcases hmem₂ q hq with hq | hq
      · rcases hmem₁ q hq with hq | hq
        · exact Or.inl hq
        · exact Or.inr (Or.inl hq)
      · exact Or.inr (Or.inr hq)
    · intro a ha
      rcases List.mem_append.1 ha with ha | ha
      · exact ⟨ctx, List.mem_cons_self .., ((checkAndHeal_spec net ctx rt s).1 a ha).2⟩
      · obtain ⟨ctx', hctx', hload⟩ := hdata a ha
        exact ⟨ctx', List.mem_cons_of_mem _ hctx', hload⟩

theorem healing_holders_twice :
    let r := (healLoop oneUnreachable.1 [oneUnreachable.2, oneUnreachable.2] oneDead ()).1
    (r.1.getHolders "f0").Nodup ∧ (r.1.getHolders "f0").length ≤ 3 ∧
      ∀ q ∈ r.1.getHolders "f0", q ∈ ["aa", "dd"] ∨ q ∈ sentTo "f0" r.2 :=
  (healing_holders dialsReturn_oneUnreachable 3 [oneUnreachable.2, oneUnreachable.2] oneDead ()
    (by decide)).2.1 "f0" (by decide)

/-! ## Settled tables -/

/-- A cycle over this table has nothing to send. -/
def Settled (ctx : HealContext) (rt : RoutingTable) : Prop :=
  Quiet ctx (underReplicated ctx.k ctx.aliveIds rt.getAll)

/-- A settled table stays settled, and nothing is sent. -/
lemma Settled.cycle (h : Settled ctx rt) (s : σ) :
    (checkAndHeal net ctx rt s).1.log = [] ∧ Settled ctx (checkAndHeal net ctx rt s).1.routing := by
  have hlog : (checkAndHeal net ctx rt s).1.log = [] := log_healChunks_of_quiet net h _ s
  refine ⟨hlog, ?_⟩
  have hraised : NoneRaised (checkAndHeal net ctx rt s).1.log := by
    rw [hlog]
    exact fun a ha => absurd ha List.not_mem_nil
  have hentries : ∀ e ∈ underReplicated ctx.k ctx.aliveIds rt.getAll,
      (e.1, e.2 ++ sentTo e.1 []) = e := fun e _ => Prod.ext rfl (List.append_nil e.2)
  unfold Settled
  rw [underReplicated_checkAndHeal net s hraised, hlog, List.map_congr_left hentries, List.map_id',
    List.filter_eq_self.2 fun e he => by simpa using (List.mem_filter.1 he).2]
  exact h

lemma Settled.loop (h : Settled ctx rt) (n : ℕ) (s : σ) :
    (healLoop net (List.replicate n ctx) rt s).1.2 = [] := by
  induction n generalizing rt s with
  | zero => rfl
  | succ n ih =>
    obtain ⟨hlog, hsettled⟩ := h.cycle net s
    have hloop : (healLoop net (List.replicate (n + 1) ctx) rt s).1.2 =
        (checkAndHeal net ctx rt s).1.log ++ (healLoop net (List.replicate n ctx)
          (checkAndHeal net ctx rt s).1.routing (checkAndHeal net ctx rt s).2).1.2 := rfl
    rw [hloop, hlog, ih hsettled]
    rfl

/-- **Healing settles.**  After a cycle in which no send has failed, the loop sends nothing in any
number of cycles, as long as the same peers are alive and the node holds the same chunks: it makes
no call to its net. -/
theorem healing_settles (net : HealNet σ γ) (ctx : HealContext) (rt : RoutingTable) (s : σ)
    (hsent : ∀ a ∈ (checkAndHeal net ctx rt s).1.log, a.outcome = .sent) (n : ℕ) (s' : σ) :
    (healLoop net (List.replicate n ctx) (checkAndHeal net ctx rt s).1.routing s').1.2 = [] ∧
      loopCalls net (List.replicate n ctx) (checkAndHeal net ctx rt s).1.routing s' = [] := by
  have hlog := Settled.loop net (quiet_checkAndHeal net s hsent) n s'
  exact ⟨hlog, LoopRecorded.calls_eq_nil (hlog ▸ loopRecorded_loopCalls net _ _ s')⟩

/-- The peers of `oneUnreachable`, now both reachable. -/
def bothReachable : HealNet Unit ℤ :=
  { oneUnreachable.1 with connectToPeer := fun _ port s => (.ok (some port), s) }

theorem healing_settles_reachable : (healLoop bothReachable (List.replicate 5 oneUnreachable.2)
    (checkAndHeal bothReachable oneUnreachable.2 oneDead ()).1.routing ()).1.2 = [] :=
  (healing_settles bothReachable oneUnreachable.2 oneDead () (by decide +kernel) 5 ()).1

end Cycles

end DistriStore
