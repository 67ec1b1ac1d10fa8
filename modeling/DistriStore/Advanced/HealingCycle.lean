import DistriStore.Advanced.HealingNet
import DistriStore.Dht.Nearest

/-!
# What a healing cycle leaves (`SelfHealingManager._check_and_heal`)

Whatever fails, each entry with too few holders alive becomes the alive ones followed by the peers
that the chunk was sent to (`checkAndHeal_repairs`).  When nothing fails, an entry that is still
short has used up all the peers that could be chosen, so that a second cycle sends nothing.

A cycle can end early, in the log line of `find_closest_peers`; then the entries that it has not
come to have only lost their dead holders, and the next cycle ends at the same place.
-/

namespace DistriStore

open Lib

/-! ## The pass over the table -/

section Pass

variable {k : ℕ} {aliveIds : List String} {rt : RoutingTable} {c : String} {ids : List String}

lemma mem_underReplicated {h : List String} :
    (c, h) ∈ underReplicated k aliveIds rt.getAll ↔
      ∃ ids, rt.table.get? c = some ids ∧ h = ids.filter (· ∈ aliveIds) ∧ h.length < k := by
  unfold underReplicated
  rw [List.mem_filter]
  simp only [decide_eq_true_eq]
  constructor
  · rintro ⟨hmem, hlt⟩
    obtain ⟨⟨c', ids⟩, hentry, heq⟩ := List.mem_map.1 hmem
    obtain ⟨rfl, rfl⟩ := Prod.mk.inj heq
    exact ⟨ids, Dict.get?_of_mem_entries hentry, rfl, hlt⟩
  · rintro ⟨ids, hget, rfl, hlt⟩
    exact ⟨List.mem_map.2 ⟨(c, ids), Dict.mem_entries_of_get? hget, rfl⟩, hlt⟩

lemma mem_keys_underReplicated :
    c ∈ (underReplicated k aliveIds rt.getAll).map Prod.fst ↔
      ∃ ids, rt.table.get? c = some ids ∧ (ids.filter (· ∈ aliveIds)).length < k := by
  rw [List.mem_map]
  constructor
  · rintro ⟨⟨c', h⟩, hmem, rfl⟩
    obtain ⟨ids, hget, rfl, hlt⟩ := mem_underReplicated.1 hmem
    exact ⟨ids, hget, hlt⟩
  · rintro ⟨ids, hget, hlt⟩
    exact ⟨(c, ids.filter (· ∈ aliveIds)), mem_underReplicated.2 ⟨ids, hget, rfl, hlt⟩, rfl⟩

/-- Each chunk is found at most once. -/
lemma nodup_underReplicated : ((underReplicated k aliveIds rt.getAll).map Prod.fst).Nodup := by
  have hkeys : ((rt.getAll.map fun e => (e.1, e.2.filter (· ∈ aliveIds))).map Prod.fst).Nodup := by
    rw [List.map_map]
    exact rt.table.nodupKeys
  exact hkeys.sublist (List.filter_sublist.map _)

lemma assignAll_eq (rt : RoutingTable) (es : List (String × List String)) :
    rt.assignAll es = ⟨rt.table.setAll es⟩ := by
  induction es generalizing rt with
  | nil => rfl
  | cons e es ih => exact ih (rt.assignChunk e.1 e.2)

lemma get?_assignAll_of_not_mem {es : List (String × List String)} (h : c ∉ es.map Prod.fst) :
    (rt.assignAll es).table.get? c = rt.table.get? c := by
  rw [assignAll_eq]
  exact Dict.get?_setAll_of_not_mem es _ c h

lemma get?_assignAll_of_mem {es : List (String × List String)} (hes : (es.map Prod.fst).Nodup)
    (h : (c, ids) ∈ es) : (rt.assignAll es).table.get? c = some ids := by
  rw [assignAll_eq]
  obtain ⟨ids', hmem, hget⟩ := Dict.exists_get?_setAll es rt.table c (List.mem_map_of_mem h)
  rw [hget, (List.inj_on_of_nodup_map hes hmem h rfl : (c, ids') = (c, ids)) |> Prod.mk.inj |>.2]

end Pass

/-- The targets are nearest among the alive peers that do not hold the chunk yet. -/
lemma healTargets_eq_some {k : ℕ} {peers : Dict String PeerInfo} {store : LocalStore} {c : String}
    {holders targets : List String} {data : Bytes}
    (h : healTargets k peers store c holders = .ok (some (data, targets))) :
    store.loadChunk c = some data ∧ targets = (closestEntries c
      (peers.keys.filter (· ∉ holders)) (k - holders.length)).map Prod.fst := by
  unfold healTargets at h
  dsimp only at h
  by_cases hneeded : k - holders.length = 0
  · rw [if_pos hneeded] at h
    cases h
  rw [if_neg hneeded] at h
  cases hload : store.loadChunk c with
  | none => simp only [hload, Except.ok.injEq, reduceCtorEq] at h
  | some data' =>
    simp only [hload] at h
    by_cases hcandidates : peers.keys.filter (· ∉ holders) = []
    · rw [if_pos hcandidates] at h
      cases h
    rw [if_neg hcandidates, bind_eq_ok] at h
    obtain ⟨es, hes, heq⟩ := h
    obtain ⟨rfl, rfl⟩ := Prod.mk.inj (Option.some.inj (Except.ok.inj heq))
    exact ⟨rfl, by rw [(findClosestPeers_eq_ok.1 hes).1]⟩

/-! ## What a cycle sends -/

/-- The peers that a chunk was sent to. -/
def sentTo (chunkHash : String) (log : List SendAttempt) : List String :=
  (log.filter fun a => a.chunkHash = chunkHash ∧ a.outcome = .sent).map SendAttempt.peerId

/-- The peers that were tried for a chunk. -/
def triedFor (chunkHash : String) (log : List SendAttempt) : List String :=
  (log.filter fun a => a.chunkHash = chunkHash).map SendAttempt.peerId

/-- The peers that a cycle tries for a chunk. -/
def targetsOf (ctx : HealContext) (chunkHash : String) (aliveHolders : List String) :
    List String :=
  match healTargets ctx.k ctx.alivePeers ctx.localStore chunkHash aliveHolders with
  | .ok (some (_, targets)) => targets
  | .ok none => []
  | .error _ => []

/-- No call of `connect_to_peer` has raised. -/
def NoneRaised (log : List SendAttempt) : Prop := ∀ a ∈ log, ∀ e, a.outcome ≠ .raised e

/-- `connect_to_peer` returns, with a connection or none. -/
def HealNet.DialsReturn {σ γ : Type} (net : HealNet σ γ) : Prop :=
  ∀ ip port s e, (net.connectToPeer ip port s).1 ≠ .error e

section Log

variable {c : String} {log log' : List SendAttempt}

lemma sentTo_append : sentTo c (log ++ log') = sentTo c log ++ sentTo c log' := by
  rw [sentTo, List.filter_append, List.map_append]
  rfl

lemma triedFor_append : triedFor c (log ++ log') = triedFor c log ++ triedFor c log' := by
  rw [triedFor, List.filter_append, List.map_append]
  rfl

lemma sentTo_sublist_triedFor : (sentTo c log).Sublist (triedFor c log) := by
  refine List.Sublist.map _ (List.monotone_filter_right log fun a ha => ?_)
  exact decide_eq_true (of_decide_eq_true ha).1

lemma triedFor_eq_nil (h : ∀ a ∈ log, a.chunkHash ≠ c) : triedFor c log = [] := by
  rw [triedFor, List.filter_eq_nil_iff.2 fun a ha => by simpa using h a ha, List.map_nil]

lemma sentTo_eq_nil (h : ∀ a ∈ log, a.chunkHash ≠ c) : sentTo c log = [] :=
  List.eq_nil_of_sublist_nil (triedFor_eq_nil h ▸ sentTo_sublist_triedFor)

lemma sentTo_eq_triedFor (h : ∀ a ∈ log, a.outcome = .sent) : sentTo c log = triedFor c log := by
  rw [sentTo, triedFor]
  refine congrArg (List.map _) (List.filter_congr fun a ha => ?_)
  simp only [h a ha, and_true]

lemma mem_sentTo {p : String} : p ∈ sentTo c log ↔
    ∃ a ∈ log, a.chunkHash = c ∧ a.outcome = .sent ∧ a.peerId = p := by
  simp only [sentTo, List.mem_map, List.mem_filter, decide_eq_true_eq, and_assoc]

end Log

section Cycle

variable {σ γ : Type} (net : HealNet σ γ) (ctx : HealContext)

lemma sendToTarget_ne_raised {net : HealNet σ γ} (hnet : net.DialsReturn) (c : String)
    (data : Bytes) (p : String) (s : σ) (e : PyError) :
    (sendToTarget net ctx c data p s).1 ≠ .raised e := by
  have hdial : ∀ e, (connectionTo net ctx p s).1 ≠ .error e := by
    intro e
    unfold connectionTo
    rcases net.connection p s with ⟨_ | conn, t⟩
    · dsimp only
      split
      · exact hnet _ _ _ _
      · simp
    · simp
  unfold sendToTarget
  rcases hconn : connectionTo net ctx p s with ⟨e | _ | conn, t⟩
  · exact absurd (by rw [hconn]) (hdial e)
  · simp
  · dsimp only
    rcases net.send conn ctx.nodeId c data t with ⟨_ | _, u⟩ <;> simp

/-- A chunk is tried at each of its targets, and the ones that it reaches become holders; unless
dialling raises. -/
lemma sendToTargets_spec (c : String) (data : Bytes) (targets holders : List String) (s : σ) :
    let r := (sendToTargets net ctx c data targets holders s).1
    (∀ a ∈ r.2, a.chunkHash = c ∧ a.data = data) ∧
      (NoneRaised r.2 → r.1 = .ok (holders ++ sentTo c r.2) ∧ triedFor c r.2 = targets) := by
  induction targets generalizing holders s with
  | nil =>
    exact ⟨fun a ha => absurd ha List.not_mem_nil,
      fun _ => ⟨congrArg Except.ok (List.append_nil holders).symm, rfl⟩⟩
  | cons p targets ih =>
    by_cases hraised : ∃ e, (sendToTarget net ctx c data p s).1 = .raised e
    · obtain ⟨e, he⟩ := hraised
      rw [sendToTargets_raised he]
      refine ⟨fun a ha => ?_, fun h => absurd rfl (h _ (List.mem_singleton_self _) e)⟩
      rw [List.mem_singleton.1 ha]
      exact ⟨rfl, rfl⟩
    · rw [not_exists] at hraised
      obtain ⟨hchunk, hspec⟩ := ih
        (if (sendToTarget net ctx c data p s).1 = .sent then holders ++ [p] else holders)
        (sendToTarget net ctx c data p s).2
      rw [sendToTargets_cons rfl hraised]
      refine ⟨fun a ha => ?_, fun h => ?_⟩
      · rcases List.mem_cons.1 ha with rfl | ha
        · exact ⟨rfl, rfl⟩
        · exact hchunk a ha
      · obtain ⟨hheld, htried⟩ := hspec fun a ha => h a (List.mem_cons_of_mem _ ha)
        constructor
        · refine hheld.trans (congrArg Except.ok ?_)
          by_cases hsent : (sendToTarget net ctx c data p s).1 = .sent
          · simp [sentTo, hsent]
          · simp [sentTo, hsent]
        · rw [triedFor] at htried
          simpa [triedFor] using htried

/-- The targets are tried one after the other. -/
lemma triedFor_sendToTargets (c : String) (data : Bytes) (targets holders : List String) (s : σ) :
    triedFor c (sendToTargets net ctx c data targets holders s).1.2 <+: targets := by
  induction targets generalizing holders s with
  | nil => exact List.prefix_refl _
  | cons p targets ih =>
    by_cases hraised : ∃ e, (sendToTarget net ctx c data p s).1 = .raised e
    · obtain ⟨e, he⟩ := hraised
      rw [sendToTargets_raised he]
      simp [triedFor]
    · rw [sendToTargets_cons rfl (not_exists.1 hraised)]
      have hrest := ih
        (if (sendToTarget net ctx c data p s).1 = .sent then holders ++ [p] else holders)
        (sendToTarget net ctx c data p s).2
      simpa [triedFor] using hrest

lemma noneRaised_sendToTargets {net : HealNet σ γ} (hnet : net.DialsReturn) (c : String)
    (data : Bytes) (targets holders : List String) (s : σ) :
    NoneRaised (sendToTargets net ctx c data targets holders s).1.2 := by
  induction targets generalizing holders s with
  | nil => exact fun a ha => absurd ha List.not_mem_nil
  | cons p targets ih =>
    rw [sendToTargets_cons rfl (sendToTarget_ne_raised ctx hnet c data p s)]
    exact List.forall_mem_cons.2 ⟨sendToTarget_ne_raised ctx hnet c data p s, ih _ _⟩

lemma noneRaised_healChunks {net : HealNet σ γ} (hnet : net.DialsReturn)
    (es : List (String × List String)) (rt : RoutingTable) (s : σ) :
    NoneRaised (healChunks net ctx es rt s).1.log := by
  have hone (rt : RoutingTable) (c : String) (holders : List String) (s : σ) :
      NoneRaised (healChunk net ctx rt c holders s).1.log := by
    unfold healChunk
    rcases healTargets ctx.k ctx.alivePeers ctx.localStore c holders with e | _ | ⟨data, targets⟩
    · exact fun a ha => absurd ha List.not_mem_nil
    · exact fun a ha => absurd ha List.not_mem_nil
    · have hlog := noneRaised_sendToTargets ctx hnet c data targets holders s
      dsimp only
      rcases hsend : sendToTargets net ctx c data targets holders s with ⟨⟨e | _, log⟩, t⟩ <;>
        rw [hsend] at hlog <;> exact hlog
  induction es generalizing rt s with
  | nil => exact fun a ha => absurd ha List.not_mem_nil
  | cons e es ih =>
    rw [healChunks]
    have hhead := hone rt e.1 e.2 s
    rcases hheal : healChunk net ctx rt e.1 e.2 s with ⟨⟨_ | _, rt', log⟩, t⟩ <;>
      rw [hheal] at hhead
    · exact hhead
    · exact List.forall_mem_append.2 ⟨hhead, ih rt' t⟩

lemma noneRaised_checkAndHeal {net : HealNet σ γ} (hnet : net.DialsReturn) (ctx : HealContext)
    (rt : RoutingTable) (s : σ) : NoneRaised (checkAndHeal net ctx rt s).1.log :=
  noneRaised_healChunks ctx hnet _ _ s

/-- What is done about one entry. -/
lemma healChunk_spec (rt : RoutingTable) (c : String) (holders : List String) (s : σ) :
    let r := (healChunk net ctx rt c holders s).1
    (NoneRaised r.log → rt.table.get? c = some holders →
      r.routing.table.get? c = some (holders ++ sentTo c r.log)) ∧
    (∀ c', c' ≠ c → r.routing.table.get? c' = rt.table.get? c') ∧
    (c ∈ rt.table.keys → r.routing.table.keys = rt.table.keys) ∧
    triedFor c r.log <+: targetsOf ctx c holders ∧
    ∀ a ∈ r.log, a.chunkHash = c ∧ ctx.localStore.loadChunk c = some a.data := by
  have hskip : rt.table.get? c = some holders →
      rt.table.get? c = some (holders ++ sentTo c []) := fun h =>
    h.trans (congrArg some (List.append_nil holders).symm)
  unfold healChunk targetsOf
  rcases htargets : healTargets ctx.k ctx.alivePeers ctx.localStore c holders with
    e | _ | ⟨data, targets⟩
  · exact ⟨fun _ => hskip, fun c' _ => rfl, fun _ => rfl, List.prefix_refl _,
      fun a ha => absurd ha List.not_mem_nil⟩
  · exact ⟨fun _ => hskip, fun c' _ => rfl, fun _ => rfl, List.prefix_refl _,
      fun a ha => absurd ha List.not_mem_nil⟩
  · obtain ⟨hchunk, hspec⟩ := sendToTargets_spec net ctx c data targets holders s
    have htried := triedFor_sendToTargets net ctx c data targets holders s
    have hdata (a : SendAttempt)
        (ha : a ∈ (sendToTargets net ctx c data targets holders s).1.2) :
        a.chunkHash = c ∧ ctx.localStore.loadChunk c = some a.data := by
      obtain ⟨hc, rfl⟩ := hchunk a ha
      exact ⟨hc, (healTargets_eq_some htargets).1⟩
    dsimp only
    rcases hsend : sendToTargets net ctx c data targets holders s with ⟨⟨e | holders', log⟩, t⟩ <;>
      simp only [hsend] at hspec htried hdata
    · refine ⟨fun h => absurd (hspec h).1 (by simp), fun c' _ => rfl, fun _ => rfl, htried, hdata⟩
    · refine ⟨fun h _ => ?_, fun c' hc' => Dict.get?_set_ne _ _ hc',
        fun hkey => Dict.keys_set_of_mem _ _ hkey, htried, hdata⟩
      exact (Dict.get?_set_self ..).trans (congrArg some (Except.ok.inj (hspec h).1))

/-- The loop ends with an entry where that entry ends the cycle. -/
lemma healChunks_cons_error {c : String} {holders : List String}
    {es : List (String × List String)} {rt : RoutingTable} {s : σ} {e : PyError}
    (h : (healChunk net ctx rt c holders s).1.ended = .error e) :
    (healChunks net ctx ((c, holders) :: es) rt s).1 = (healChunk net ctx rt c holders s).1 := by
  rw [healChunks]
  rcases hheal : healChunk net ctx rt c holders s with ⟨⟨_ | _, rt', log⟩, t⟩
  · rfl
  · rw [hheal] at h
    cases h

lemma healChunks_cons_ok {c : String} {holders : List String} {es : List (String × List String)}
    {rt : RoutingTable} {s : σ} (h : (healChunk net ctx rt c holders s).1.ended = .ok ()) :
    (healChunks net ctx ((c, holders) :: es) rt s).1 =
      let r := healChunk net ctx rt c holders s
      let r' := (healChunks net ctx es r.1.routing r.2).1
      { r' with log := r.1.log ++ r'.log } := by
  rw [healChunks]
  rcases hheal : healChunk net ctx rt c holders s with ⟨⟨_ | _, rt', log⟩, t⟩
  · rw [hheal] at h
    cases h
  · rfl

/-- What the loop does about its entries; those that it does not come to stay as they are. -/
lemma healChunks_spec (es : List (String × List String)) (hes : (es.map Prod.fst).Nodup)
    (rt : RoutingTable) (s : σ) :
    let r := (healChunks net ctx es rt s).1
    (∀ a ∈ r.log, a.chunkHash ∈ es.map Prod.fst ∧
      ctx.localStore.loadChunk a.chunkHash = some a.data) ∧
    (∀ c, c ∉ es.map Prod.fst → r.routing.table.get? c = rt.table.get? c) ∧
    ((∀ c ∈ es.map Prod.fst, c ∈ rt.table.keys) → r.routing.table.keys = rt.table.keys) ∧
    (∀ c holders, (c, holders) ∈ es → triedFor c r.log <+: targetsOf ctx c holders ∧
      (NoneRaised r.log → rt.table.get? c = some holders →
        r.routing.table.get? c = some (holders ++ sentTo c r.log))) := by
  induction es generalizing rt s with
  | nil =>
    refine ⟨fun a ha => absurd ha List.not_mem_nil, fun _ _ => rfl, fun _ => rfl,
      fun c holders h => ?_⟩
    exact absurd h List.not_mem_nil
  | cons e es ih =>
    obtain ⟨c₀, holders₀⟩ := e
    rw [List.map_cons, List.nodup_cons] at hes
    obtain ⟨hset, hframe, hkeys, htried, hchunk⟩ := healChunk_spec net ctx rt c₀ holders₀ s
    set first := (healChunk net ctx rt c₀ holders₀ s).1 with hfirst
    -- the first entry is about another chunk than the later ones
    have hne {c : String} {holders : List String} (htail : (c, holders) ∈ es) : c ≠ c₀ := by
      have hkey : c ∈ es.map Prod.fst := List.mem_map_of_mem htail
      exact fun heq => hes.1 (heq ▸ hkey)
    have hother {c : String} {holders : List String} (htail : (c, holders) ∈ es) :
        ∀ a ∈ first.log, a.chunkHash ≠ c := fun a ha heq =>
      hne htail (heq.symm.trans (hchunk a ha).1)
    rcases hended : first.ended with e | ⟨⟩
    · -- the cycle ends here
      rw [healChunks_cons_error net ctx hended, ← hfirst]
      refine ⟨fun a ha => ?_, fun c hc => ?_, fun h => hkeys (h _ (List.mem_cons_self ..)),
        fun c holders hmem => ?_⟩
      · obtain ⟨rfl, hload⟩ := hchunk a ha
        exact ⟨List.mem_cons_self .., hload⟩
      · rw [List.map_cons, List.mem_cons, not_or] at hc
        exact hframe c hc.1
      · rcases List.mem_cons.1 hmem with heq | htail
        · obtain ⟨rfl, rfl⟩ := Prod.mk.inj heq
          exact ⟨htried, hset⟩
        · rw [triedFor_eq_nil (hother htail), sentTo_eq_nil (hother htail), List.append_nil]
          exact ⟨List.nil_prefix, fun _ h => (hframe c (hne htail)).trans h⟩
    obtain ⟨hrestChunk, hrestFrame, hrestKeys, hrest⟩ := ih hes.2 first.routing
      (healChunk net ctx rt c₀ holders₀ s).2
    rw [healChunks_cons_ok net ctx hended]
    dsimp only
    rw [← hfirst]
    set rest := (healChunks net ctx es first.routing (healChunk net ctx rt c₀ holders₀ s).2).1
    refine ⟨fun a ha => ?_, fun c hc => ?_, fun h => ?_, fun c holders hmem => ?_⟩
    · rcases List.mem_append.1 ha with ha | ha
      · obtain ⟨rfl, hload⟩ := hchunk a ha
        exact ⟨List.mem_cons_self .., hload⟩
      · exact ⟨List.mem_cons_of_mem _ (hrestChunk a ha).1, (hrestChunk a ha).2⟩
    · rw [List.map_cons, List.mem_cons, not_or] at hc
      exact (hrestFrame c hc.2).trans (hframe c hc.1)
    · have hfirstKeys := hkeys (h _ (List.mem_cons_self ..))
      exact (hrestKeys fun c hc => hfirstKeys ▸ h c (List.mem_cons_of_mem _ hc)).trans hfirstKeys
    · rw [sentTo_append, triedFor_append]
      rcases List.mem_cons.1 hmem with heq | htail
      · obtain ⟨rfl, rfl⟩ := Prod.mk.inj heq
        have hlater : ∀ a ∈ rest.log, a.chunkHash ≠ c := by
          rintro a ha rfl
          exact hes.1 (hrestChunk a ha).1
        rw [triedFor_eq_nil hlater, sentTo_eq_nil hlater, List.append_nil, List.append_nil]
        refine ⟨htried, fun hraised h => (hrestFrame c hes.1).trans (hset ?_ h)⟩
        exact fun a ha => hraised a (List.mem_append_left _ ha)
      · rw [triedFor_eq_nil (hother htail), sentTo_eq_nil (hother htail), List.nil_append,
          List.nil_append]
        obtain ⟨htried', hset'⟩ := hrest c holders htail
        refine ⟨htried', fun hraised h => hset' ?_ ((hframe c (hne htail)).trans h)⟩
        exact fun a ha => hraised a (List.mem_append_right _ ha)

lemma keys_assignAll {rt : RoutingTable} {es : List (String × List String)}
    (h : ∀ c ∈ es.map Prod.fst, c ∈ rt.table.keys) :
    (rt.assignAll es).table.keys = rt.table.keys := by
  induction es generalizing rt with
  | nil => rfl
  | cons e es ih =>
    have hkeys : (rt.assignChunk e.1 e.2).table.keys = rt.table.keys :=
      Dict.keys_set_of_mem _ _ (h _ (List.mem_cons_self ..))
    have hrest : ∀ c ∈ es.map Prod.fst, c ∈ (rt.assignChunk e.1 e.2).table.keys :=
      fun c hc => hkeys ▸ h c (List.mem_cons_of_mem _ hc)
    exact (ih hrest).trans hkeys

/-- What a cycle does about one chunk of the table. -/
lemma checkAndHeal_spec (rt : RoutingTable) (s : σ) :
    let r := (checkAndHeal net ctx rt s).1
    (∀ a ∈ r.log, a.chunkHash ∈ (underReplicated ctx.k ctx.aliveIds rt.getAll).map Prod.fst ∧
      ctx.localStore.loadChunk a.chunkHash = some a.data) ∧
    (∀ c, c ∉ (underReplicated ctx.k ctx.aliveIds rt.getAll).map Prod.fst →
      r.routing.table.get? c = rt.table.get? c) ∧
    r.routing.table.keys = rt.table.keys ∧
    (∀ c holders, (c, holders) ∈ underReplicated ctx.k ctx.aliveIds rt.getAll →
      triedFor c r.log <+: targetsOf ctx c holders ∧
      (NoneRaised r.log → r.routing.table.get? c = some (holders ++ sentTo c r.log))) := by
  have hfound : ((underReplicated ctx.k ctx.aliveIds rt.getAll).map Prod.fst).Nodup :=
    nodup_underReplicated
  obtain ⟨hchunk, hframe, hkeys, hheal⟩ := healChunks_spec net ctx _ hfound
    (rt.assignAll (underReplicated ctx.k ctx.aliveIds rt.getAll)) s
  have hassign : (rt.assignAll (underReplicated ctx.k ctx.aliveIds rt.getAll)).table.keys =
      rt.table.keys := keys_assignAll fun c hc => by
    obtain ⟨ids, hget, -⟩ := mem_keys_underReplicated.1 hc
    exact Dict.mem_keys_iff.2 ⟨ids, hget⟩
  refine ⟨hchunk, fun c hc => ?_, ?_, fun c holders hmem => ?_⟩
  · exact (hframe c hc).trans (get?_assignAll_of_not_mem hc)
  · refine (hkeys fun c hc => ?_).trans hassign
    obtain ⟨ids, hget, -⟩ := mem_keys_underReplicated.1 hc
    exact hassign ▸ Dict.mem_keys_iff.2 ⟨ids, hget⟩
  · obtain ⟨htried, hset⟩ := hheal c holders hmem
    exact ⟨htried, fun h => hset h (get?_assignAll_of_mem hfound hmem)⟩

end Cycle

section Targets

variable {ctx : HealContext} {c : String} {holders : List String}

/-- The peers tried are none, or the nearest ones that do not hold the chunk yet. -/
lemma targetsOf_cases (ctx : HealContext) (c : String) (holders : List String) :
    targetsOf ctx c holders = [] ∨ targetsOf ctx c holders = (closestEntries c
      (ctx.alivePeers.keys.filter (· ∉ holders)) (ctx.k - holders.length)).map Prod.fst := by
  unfold targetsOf
  rcases htargets : healTargets ctx.k ctx.alivePeers ctx.localStore c holders with
    e | _ | ⟨data, targets⟩
  · exact Or.inl rfl
  · exact Or.inl rfl
  · exact Or.inr (healTargets_eq_some htargets).2

lemma mem_targetsOf {p : String} (hp : p ∈ targetsOf ctx c holders) :
    p ∈ ctx.alivePeers.keys ∧ p ∉ holders := by
  rcases targetsOf_cases ctx c holders with hnil | htargets
  · rw [hnil] at hp
    cases hp
  · rw [htargets] at hp
    obtain ⟨e, he, rfl⟩ := List.mem_map.1 hp
    obtain ⟨hkey, hnew⟩ := List.mem_filter.1 (mem_closestEntries he)
    exact ⟨hkey, of_decide_eq_true hnew⟩

lemma nodup_targetsOf : (targetsOf ctx c holders).Nodup := by
  rcases targetsOf_cases ctx c holders with hnil | htargets
  · exact hnil ▸ List.nodup_nil
  · rw [htargets]
    exact nodup_closestEntries (ctx.alivePeers.nodupKeys.filter _)

lemma length_targetsOf_le : (targetsOf ctx c holders).length ≤ ctx.k - holders.length := by
  rcases targetsOf_cases ctx c holders with hnil | htargets
  · exact hnil ▸ Nat.zero_le _
  · rw [htargets, List.length_map, length_closestEntries]
    exact min_le_left _ _

/-- Once all the targets of a chunk hold it and it is still short, no peer is left to choose. -/
lemma closestEntries_of_targets {targets : List String}
    (htargets : targets = (closestEntries c (ctx.alivePeers.keys.filter (· ∉ holders))
      (ctx.k - holders.length)).map Prod.fst)
    (hshort : (holders ++ targets).length < ctx.k) (k : ℕ) :
    closestEntries c (ctx.alivePeers.keys.filter (· ∉ holders ++ targets)) k = [] := by
  refine List.eq_nil_iff_forall_not_mem.2 fun e he => ?_
  obtain ⟨hkey, hnew⟩ := List.mem_filter.1 (mem_closestEntries he)
  have hnew : e.1 ∉ holders ++ targets := of_decide_eq_true hnew
  rw [List.mem_append, not_or] at hnew
  -- fewer were found than were needed, so that this one would have been among them
  rw [List.length_append, htargets, List.length_map] at hshort
  rw [htargets] at hnew
  refine hnew.2 (mem_closestEntries_of_length_lt (by omega) ?_
    (isSome_xorDistance_of_mem (List.mem_map_of_mem he)))
  exact List.mem_filter.2 ⟨hkey, decide_eq_true hnew.1⟩

end Targets

/-! ## Loops that send nothing -/

section Quiet

variable {σ γ : Type} (net : HealNet σ γ) (ctx : HealContext)

/-- The loop over these entries sends nothing: none of them has targets, up to one that ends the
cycle, if there is one. -/
def Quiet : List (String × List String) → Prop
  | [] => True
  | (c, holders) :: es =>
    match healTargets ctx.k ctx.alivePeers ctx.localStore c holders with
    | .error _ => True
    | .ok none => Quiet es
    | .ok (some (_, targets)) => targets = [] ∧ Quiet es

variable {ctx}

lemma Quiet.cons {c : String} {holders : List String} {es : List (String × List String)}
    (h : healTargets ctx.k ctx.alivePeers ctx.localStore c holders = .ok none ∨
      ∃ data, healTargets ctx.k ctx.alivePeers ctx.localStore c holders = .ok (some (data, [])))
    (hes : Quiet ctx es) : Quiet ctx ((c, holders) :: es) := by
  rcases h with h | ⟨data, h⟩ <;> simp only [Quiet, h]
  · exact hes
  · exact ⟨trivial, hes⟩

lemma log_healChunks_of_quiet {es : List (String × List String)} (h : Quiet ctx es)
    (rt : RoutingTable) (s : σ) : (healChunks net ctx es rt s).1.log = [] := by
  induction es generalizing rt s with
  | nil => rfl
  | cons e es ih =>
    obtain ⟨c, holders⟩ := e
    rcases htargets : healTargets ctx.k ctx.alivePeers ctx.localStore c holders with
      e | _ | ⟨data, targets⟩ <;>
      simp only [Quiet, htargets] at h
    · have hheal : (healChunk net ctx rt c holders s).1 = ⟨.error e, rt, []⟩ := by
        simp [healChunk, htargets]
      rw [healChunks_cons_error (e := e) net ctx (by rw [hheal]), hheal]
    · have hheal : healChunk net ctx rt c holders s = (⟨.ok (), rt, []⟩, s) := by
        simp [healChunk, htargets]
      rw [healChunks_cons_ok net ctx (by rw [hheal]), hheal]
      exact ih h rt s
    · obtain ⟨rfl, h⟩ := h
      have hheal : healChunk net ctx rt c holders s =
          (⟨.ok (), rt.assignChunk c holders, []⟩, s) := by
        simp [healChunk, htargets, sendToTargets]
      rw [healChunks_cons_ok net ctx (by rw [hheal]), hheal]
      exact ih h _ s

/-- All holders of a chunk that is still short hold it: the next cycle finds nobody. -/
lemma healTargets_again {c : String} {holders targets : List String} {data : Bytes}
    (h : healTargets ctx.k ctx.alivePeers ctx.localStore c holders = .ok (some (data, targets)))
    (hshort : (holders ++ targets).length < ctx.k) :
    healTargets ctx.k ctx.alivePeers ctx.localStore c (holders ++ targets) = .ok none ∨
      ∃ data, healTargets ctx.k ctx.alivePeers ctx.localStore c (holders ++ targets) =
        .ok (some (data, [])) := by
  obtain ⟨hload, htargets⟩ := healTargets_eq_some h
  have hnone := closestEntries_of_targets htargets hshort (ctx.k - (holders ++ targets).length)
  have hneeded : ctx.k - (holders ++ targets).length ≠ 0 := by omega
  unfold healTargets
  simp only [if_neg hneeded, hload]
  split
  · exact Or.inl rfl
  · right
    rw [findClosestPeers_of_writable (writableDistances_of_closestEntries_eq_nil hnone), hnone]
    exact ⟨data, rfl⟩

/-- When all that was tried was sent, the loop over the targets has gone to its end. -/
lemma sendToTargets_of_sent {c : String} {data : Bytes} {targets holders : List String} {s t : σ}
    {ended : Except PyError (List String)} {log : List SendAttempt}
    (h : sendToTargets net ctx c data targets holders s = ((ended, log), t))
    (hsent : ∀ a ∈ log, a.outcome = .sent) :
    ended = .ok (holders ++ targets) ∧ sentTo c log = targets := by
  obtain ⟨-, hspec⟩ := sendToTargets_spec net ctx c data targets holders s
  simp only [h] at hspec
  obtain ⟨hended, htried⟩ := hspec fun a ha e => by rw [hsent a ha]; simp
  rw [sentTo_eq_triedFor hsent, htried] at hended
  exact ⟨hended, (sentTo_eq_triedFor hsent).trans htried⟩

/-- What was sent of one chunk changes no entry of another. -/
lemma map_sentTo_append {es : List (String × List String)} {log : List SendAttempt}
    (h : ∀ a ∈ log, a.chunkHash ∉ es.map Prod.fst) (rest : List SendAttempt) :
    (es.map fun e => (e.1, e.2 ++ sentTo e.1 (log ++ rest))) =
      es.map fun e => (e.1, e.2 ++ sentTo e.1 rest) := by
  refine List.map_congr_left fun e he => ?_
  have hne : ∀ a ∈ log, a.chunkHash ≠ e.1 := fun a ha heq =>
    h a ha (heq ▸ List.mem_map_of_mem he)
  rw [sentTo_append, sentTo_eq_nil hne, List.nil_append]

/-- What is left of the entries of a loop in which nothing failed. -/
lemma quiet_of_all_sent (es : List (String × List String)) (hes : (es.map Prod.fst).Nodup)
    (hshort : ∀ e ∈ es, e.2.length < ctx.k) (rt : RoutingTable) (s : σ)
    (hsent : ∀ a ∈ (healChunks net ctx es rt s).1.log, a.outcome = .sent) :
    Quiet ctx ((es.map fun e =>
      (e.1, e.2 ++ sentTo e.1 (healChunks net ctx es rt s).1.log)).filter
        fun e => e.2.length < ctx.k) := by
  induction es generalizing rt s with
  | nil => trivial
  | cons e es ih =>
    obtain ⟨c, holders⟩ := e
    rw [List.map_cons, List.nodup_cons] at hes
    have hhead : holders.length < ctx.k := hshort _ (List.mem_cons_self ..)
    have htail : ∀ e ∈ es, e.2.length < ctx.k := fun e he => hshort e (List.mem_cons_of_mem _ he)
    rcases htargets : healTargets ctx.k ctx.alivePeers ctx.localStore c holders with
      e | _ | ⟨data, targets⟩
    · -- the cycle ended here, and does so again
      have hheal : (healChunk net ctx rt c holders s).1 = ⟨.error e, rt, []⟩ := by
        simp [healChunk, htargets]
      have hlog : (healChunks net ctx ((c, holders) :: es) rt s).1.log = [] := by
        rw [healChunks_cons_error (e := e) net ctx (by rw [hheal]), hheal]
      rw [hlog, List.map_cons, List.filter_cons_of_pos (by simpa [sentTo] using hhead)]
      simp [Quiet, sentTo, htargets]
    · have hheal : healChunk net ctx rt c holders s = (⟨.ok (), rt, []⟩, s) := by
        simp [healChunk, htargets]
      have hlog : (healChunks net ctx ((c, holders) :: es) rt s).1.log =
          (healChunks net ctx es rt s).1.log := by
        rw [healChunks_cons_ok net ctx (by rw [hheal]), hheal]
        rfl
      rw [hlog] at hsent ⊢
      have hother : ∀ a ∈ (healChunks net ctx es rt s).1.log, a.chunkHash ≠ c := by
        rintro a ha rfl
        exact hes.1 ((healChunks_spec net ctx es hes.2 rt s).1 a ha).1
      rw [List.map_cons, sentTo_eq_nil hother, List.append_nil,
        List.filter_cons_of_pos (by simpa using hhead)]
      exact Quiet.cons (Or.inl htargets) (ih hes.2 htail rt s hsent)
    · obtain ⟨hchunk, -⟩ := sendToTargets_spec net ctx c data targets holders s
      rcases hsend : sendToTargets net ctx c data targets holders s with ⟨⟨ended, log⟩, t⟩
      simp only [hsend] at hchunk
      rcases ended with e | holders'
      · -- dialling raised, so that not all was sent
        have hheal : (healChunk net ctx rt c holders s).1 = ⟨.error e, rt, log⟩ := by
          simp [healChunk, htargets, hsend]
        rw [healChunks_cons_error (e := e) net ctx (by rw [hheal]), hheal] at hsent
        exact absurd (sendToTargets_of_sent net hsend hsent).1 (by simp)
      have hheal : healChunk net ctx rt c holders s =
          (⟨.ok (), rt.assignChunk c holders', log⟩, t) := by
        simp [healChunk, htargets, hsend]
      have hlog : (healChunks net ctx ((c, holders) :: es) rt s).1.log =
          log ++ (healChunks net ctx es (rt.assignChunk c holders') t).1.log := by
        rw [healChunks_cons_ok net ctx (by rw [hheal]), hheal]
      set rest := (healChunks net ctx es (rt.assignChunk c holders') t).1.log
      rw [hlog] at hsent ⊢
      obtain ⟨-, hfirst⟩ := sendToTargets_of_sent net hsend fun a ha =>
        hsent a (List.mem_append_left _ ha)
      have hothers : ∀ a ∈ rest, a.chunkHash ∈ es.map Prod.fst := fun a ha =>
        ((healChunks_spec net ctx es hes.2 _ _).1 a ha).1
      have hc : sentTo c (log ++ rest) = targets := by
        have hrestNone : sentTo c rest = [] := sentTo_eq_nil fun a ha heq =>
          hes.1 (by simpa only [heq] using hothers a ha)
        rw [sentTo_append, hfirst, hrestNone, List.append_nil]
      have hfresh : ∀ a ∈ log, a.chunkHash ∉ es.map Prod.fst := fun a ha =>
        (hchunk a ha).1 ▸ hes.1
      have hquiet := ih hes.2 htail (rt.assignChunk c holders') t
        fun a ha => hsent a (List.mem_append_right _ ha)
      rw [List.map_cons, hc, map_sentTo_append hfresh rest]
      by_cases hagain : (holders ++ targets).length < ctx.k
      · rw [List.filter_cons_of_pos (by simpa using hagain)]
        exact Quiet.cons (healTargets_again htargets hagain) hquiet
      · rw [List.filter_cons_of_neg (by simpa using hagain)]
        exact hquiet

end Quiet

/-! ## The cycle repairs the table -/

section Repairs

variable {σ γ : Type} (net : HealNet σ γ) {ctx : HealContext} {rt : RoutingTable} (s : σ)
  {c : String} {ids : List String}

lemma checkAndHeal_none (h : rt.table.get? c = none) :
    (checkAndHeal net ctx rt s).1.routing.table.get? c = none := by
  refine ((checkAndHeal_spec net ctx rt s).2.1 c fun hmem => ?_).trans h
  obtain ⟨ids, hget, -⟩ := mem_keys_underReplicated.1 hmem
  exact absurd (h.symm.trans hget) (by simp)

/-- An entry with enough holders alive is left alone. -/
lemma checkAndHeal_of_le (hget : rt.table.get? c = some ids)
    (hle : ctx.k ≤ (ids.filter (· ∈ ctx.aliveIds)).length) :
    (checkAndHeal net ctx rt s).1.routing.table.get? c = some ids := by
  refine ((checkAndHeal_spec net ctx rt s).2.1 c fun hmem => ?_).trans hget
  obtain ⟨ids', hget', hlt⟩ := mem_keys_underReplicated.1 hmem
  obtain rfl : ids' = ids := Option.some.inj (hget'.symm.trans hget)
  exact absurd hlt (not_lt.2 hle)

/-- An entry with too few holders alive gets the peers that the chunk was sent to. -/
lemma checkAndHeal_of_lt (hget : rt.table.get? c = some ids)
    (hlt : (ids.filter (· ∈ ctx.aliveIds)).length < ctx.k) :
    let r := (checkAndHeal net ctx rt s).1
    triedFor c r.log <+: targetsOf ctx c (ids.filter (· ∈ ctx.aliveIds)) ∧
      (NoneRaised r.log → r.routing.table.get? c =
        some (ids.filter (· ∈ ctx.aliveIds) ++ sentTo c r.log)) :=
  (checkAndHeal_spec net ctx rt s).2.2.2 c _ (mem_underReplicated.2 ⟨ids, hget, rfl, hlt⟩)

/-- Whom the cycle has sent a chunk to is alive. -/
lemma mem_keys_of_mem_sentTo {p : String} (hp : p ∈ sentTo c (checkAndHeal net ctx rt s).1.log) :
    p ∈ ctx.alivePeers.keys := by
  obtain ⟨a, ha, rfl, -, -⟩ := mem_sentTo.1 hp
  obtain ⟨ids, hget, hlt⟩ := mem_keys_underReplicated.1 ((checkAndHeal_spec net ctx rt s).1 a ha).1
  have htried := (checkAndHeal_of_lt net s hget hlt).1
  exact (mem_targetsOf (htried.subset (sentTo_sublist_triedFor.subset hp))).1

lemma NoneRaised.of_all_sent {log : List SendAttempt} (h : ∀ a ∈ log, a.outcome = .sent) :
    NoneRaised log := fun a ha e => by
  rw [h a ha]
  simp

/-- The entries that the next cycle finds: those of this one that are still short. -/
lemma underReplicated_checkAndHeal
    (hraised : NoneRaised (checkAndHeal net ctx rt s).1.log) :
    underReplicated ctx.k ctx.aliveIds (checkAndHeal net ctx rt s).1.routing.getAll =
      ((underReplicated ctx.k ctx.aliveIds rt.getAll).map fun e =>
        (e.1, e.2 ++ sentTo e.1 (checkAndHeal net ctx rt s).1.log)).filter
          fun e => e.2.length < ctx.k := by
  have hkeys : (checkAndHeal net ctx rt s).1.routing.table.keys = rt.table.keys :=
    (checkAndHeal_spec net ctx rt s).2.2.1
  have hentries (d : RoutingTable) : d.getAll = d.table.keys.map fun c => (c, d.getHolders c) := by
    rw [Dict.keys, List.map_map]
    refine (List.map_id _).symm.trans (List.map_congr_left fun e he => ?_)
    exact Prod.ext rfl (RoutingTable.getHolders_of_mem_getAll he).symm
  -- one entry at a time, in the order of the keys
  have hone : ∀ c ∈ rt.table.keys,
      let alive := (rt.getHolders c).filter (· ∈ ctx.aliveIds)
      let alive' := ((checkAndHeal net ctx rt s).1.routing.getHolders c).filter (· ∈ ctx.aliveIds)
      if alive.length < ctx.k then
        alive' = alive ++ sentTo c (checkAndHeal net ctx rt s).1.log
      else ctx.k ≤ alive'.length := by
    intro c hc
    obtain ⟨ids, hget⟩ := Dict.mem_keys_iff.1 hc
    have hids : rt.getHolders c = ids := by rw [RoutingTable.getHolders, hget]; rfl
    rw [hids]
    dsimp only
    split
    · next hlt =>
      have hentry := (checkAndHeal_of_lt net s hget hlt).2 hraised
      rw [RoutingTable.getHolders, hentry, Option.getD_some, List.filter_append,
        List.filter_filter]
      simp only [Bool.and_self]
      refine congrArg _ (List.filter_eq_self.2 fun p hp => decide_eq_true ?_)
      exact List.mem_cons_of_mem _ (mem_keys_of_mem_sentTo net s hp)
    · next hle =>
      rw [RoutingTable.getHolders, checkAndHeal_of_le net s hget (not_lt.1 hle), Option.getD_some]
      exact not_lt.1 hle
  unfold underReplicated
  rw [hentries, hentries rt, hkeys]
  revert hone
  generalize rt.table.keys = cs
  intro hone
  induction cs with
  | nil => rfl
  | cons c cs ih =>
    have hhead := hone c (List.mem_cons_self ..)
    have hrest := ih fun c hc => hone c (List.mem_cons_of_mem _ hc)
    dsimp only at hhead
    simp only [List.map_cons]
    split at hhead
    · next hlt =>
      rw [List.filter_cons_of_pos (a := (c, (rt.getHolders c).filter (· ∈ ctx.aliveIds)))
        (by simpa using hlt), List.map_cons, hhead, List.filter_cons, List.filter_cons, hrest]
    · next hlt =>
      rw [List.filter_cons_of_neg (a := (c, (rt.getHolders c).filter (· ∈ ctx.aliveIds)))
        (by simpa using hlt), List.filter_cons_of_neg (by simpa using hhead), hrest]

/-- After a cycle in which nothing failed there is nothing to send. -/
lemma quiet_checkAndHeal
    (hsent : ∀ a ∈ (checkAndHeal net ctx rt s).1.log, a.outcome = .sent) :
    Quiet ctx (underReplicated ctx.k ctx.aliveIds
      (checkAndHeal net ctx rt s).1.routing.getAll) := by
  rw [underReplicated_checkAndHeal net s (.of_all_sent hsent)]
  refine quiet_of_all_sent net _ nodup_underReplicated (fun e he => ?_) _ s hsent
  exact of_decide_eq_true (List.mem_filter.1 he).2

end Repairs

/-- **A healing cycle repairs without losing, duplicating or over-replicating.**  Whatever connects
and sends fail, an entry with enough holders alive is unchanged, and any other becomes its alive
holders followed by the alive peers that the chunk's data was sent to in this cycle, `k` at most and
none twice; the log says what was sent.  When nothing fails, the next cycle has nothing to send. -/
theorem checkAndHeal_repairs {σ γ : Type} (net : HealNet σ γ) (hnet : net.DialsReturn)
    (ctx : HealContext) (rt : RoutingTable) (s : σ)
    (hrt : ∀ c ids, rt.table.get? c = some ids → ids.Nodup) :
    let r := (checkAndHeal net ctx rt s).1
    Recorded ctx r.log (cycleCalls net ctx rt s) ∧
    (checkAndHeal net.recorded ctx rt (s, [])).1 = r ∧
    (∀ c, rt.table.get? c = none → r.routing.table.get? c = none) ∧
    (∀ c ids, rt.table.get? c = some ids →
      ctx.k ≤ (ids.filter (· ∈ ctx.aliveIds)).length → r.routing.table.get? c = some ids) ∧
    (∀ c ids, rt.table.get? c = some ids → (ids.filter (· ∈ ctx.aliveIds)).length < ctx.k →
      ∃ added, r.routing.table.get? c = some (ids.filter (· ∈ ctx.aliveIds) ++ added) ∧
        (ids.filter (· ∈ ctx.aliveIds) ++ added).Nodup ∧
        (ids.filter (· ∈ ctx.aliveIds) ++ added).length ≤ ctx.k ∧
        (∀ p ∈ ids.filter (· ∈ ctx.aliveIds) ++ added, p ∈ ctx.aliveIds) ∧
        ∀ p, p ∈ added ↔ p ∈ ctx.alivePeers.keys ∧ ∃ data,
          ctx.localStore.loadChunk c = some data ∧ ⟨c, data, p, .sent⟩ ∈ r.log) ∧
    ((∀ a ∈ r.log, a.outcome = .sent) →
      ∀ s', (checkAndHeal net ctx r.routing s').1.log = [] ∧
        cycleCalls net ctx r.routing s' = []) := by
  have hraised := noneRaised_checkAndHeal hnet ctx rt s
  refine ⟨(recorded_checkAndHeal net ctx rt s).1, (recorded_checkAndHeal net ctx rt s).2,
    fun c hget => checkAndHeal_none net s hget,
    fun c ids hget hle => checkAndHeal_of_le net s hget hle, fun c ids hget hlt => ?_,
    fun hsent s' => ?_⟩
  · obtain ⟨htried, hentry⟩ := checkAndHeal_of_lt net s hget hlt
    have hchunk := (checkAndHeal_spec net ctx rt s).1
    set r := (checkAndHeal net ctx rt s).1
    set alive := ids.filter (· ∈ ctx.aliveIds)
    have hsub : (sentTo c r.log).Sublist (targetsOf ctx c alive) :=
      sentTo_sublist_triedFor.trans htried.sublist
    have hnew : ∀ p ∈ sentTo c r.log, p ∈ ctx.alivePeers.keys ∧ p ∉ alive := fun p hp =>
      mem_targetsOf (hsub.subset hp)
    refine ⟨sentTo c r.log, hentry hraised, ?_, ?_, fun p hp => ?_, fun p => ?_⟩
    · refine List.nodup_append.2 ⟨(hrt c ids hget).filter _, nodup_targetsOf.sublist hsub, ?_⟩
      rintro p hp q hq rfl
      exact (hnew p hq).2 hp
    · have hadded := hsub.length_le.trans length_targetsOf_le
      rw [List.length_append]
      omega
    · rcases List.mem_append.1 hp with hp | hp
      · exact of_decide_eq_true (List.mem_filter.1 hp).2
      · exact List.mem_cons_of_mem _ (hnew p hp).1
    · constructor
      · intro hp
        obtain ⟨⟨c', data, p', outcome⟩, ha, rfl, rfl, rfl⟩ := mem_sentTo.1 hp
        exact ⟨(hnew p' hp).1, data, (hchunk _ ha).2, ha⟩
      · rintro ⟨-, data, -, ha⟩
        exact mem_sentTo.2 ⟨_, ha, rfl, rfl, rfl⟩
  · have hlog := log_healChunks_of_quiet net (quiet_checkAndHeal net s hsent)
      ((checkAndHeal net ctx rt s).1.routing.assignAll (underReplicated ctx.k ctx.aliveIds
        (checkAndHeal net ctx rt s).1.routing.getAll)) s'
    exact ⟨hlog, Recorded.calls_eq_nil (hlog ▸ (recorded_checkAndHeal net ctx _ s').1)⟩

/-- Two peers are alive and the node holds a chunk; one peer does not accept connections. -/
def oneUnreachable : HealNet Unit ℤ × HealContext where
  fst :=
    { connection := fun _ s => (none, s)
      connectToPeer := fun _ port s => (.ok (if port = 1 then none else some port), s)
      send := fun _ _ _ _ s => (true, s) }
  snd :=
    { nodeId := "aa"
      k := 3
      alivePeers := (∅ : Dict String PeerInfo).setAll
        [("0f", { nodeId := "0f", ip := "10.0.0.1", tcpPort := 1 }),
          ("f1", { nodeId := "f1", ip := "10.0.0.2", tcpPort := 2 })]
      localStore := (∅ : LocalStore).saveChunk "f0" [7] }

lemma dialsReturn_oneUnreachable : oneUnreachable.1.DialsReturn := fun _ _ _ _ => by
  simp [oneUnreachable]

/-- The dead holder is dropped and the peer that was reached is added. -/
theorem checkAndHeal_repairs_reached :
    ∃ added, (checkAndHeal oneUnreachable.1 oneUnreachable.2
        ((∅ : RoutingTable).assignChunk "f0" ["aa", "dd"]) ()).1.routing.table.get? "f0" =
        some (["aa"] ++ added) ∧ (["aa"] ++ added).length ≤ 3 ∧ "f1" ∈ added ∧ "0f" ∉ added := by
  have hrt : ∀ c ids, ((∅ : RoutingTable).assignChunk "f0" ["aa", "dd"]).table.get? c = some ids →
      ids.Nodup := by
    intro c ids hget
    rw [RoutingTable.assignChunk, Dict.get?_set] at hget
    split at hget
    · cases hget
      decide
    · cases hget
  have h := (checkAndHeal_repairs oneUnreachable.1 dialsReturn_oneUnreachable oneUnreachable.2 _ ()
    hrt).2.2.2.2.1 "f0" ["aa", "dd"] rfl (by decide)
  obtain ⟨added, hget, -, hlength, -, hadded⟩ := h
  refine ⟨added, hget, hlength, (hadded "f1").2 ⟨by decide, [7], rfl, by decide +kernel⟩, ?_⟩
  intro hmem
  obtain ⟨-, data, hdata, hsent⟩ := (hadded "0f").1 hmem
  obtain rfl : [7] = data := Option.some.inj hdata
  exact absurd hsent (by decide +kernel)

end DistriStore
