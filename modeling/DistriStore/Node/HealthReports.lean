import DistriStore.FileEngine.Merkle
import DistriStore.Network.Connection
import DistriStore.Network.Discovery
import Mathlib.Tactic.Positivity

/-!
# Health reports

The free space, the uptime and the health score of a peer come with its HELLO datagrams only; a
handshake builds its record with the defaults of `PeerInfo`.  `add_peer` gets both kinds of records
and takes a value from a record when it is true in Python's sense, because the defaults are not.  A
value that is reported as zero is not true either.  So a metric of a peer is the last true value
that its HELLOs carried, and before there is one, the value with which its record began
(`metric_afterContacts`).

`reflects_iff` says when this is what the last HELLO reported: when its value is true, or when no
HELLO of the peer has carried a true value so far and the record began with an equal one.
`full_disk_unnoticed` is a peer whose disk has filled up.
-/

namespace DistriStore.HealthReports

open Lib

/-! ## Contacts -/

/-- A message that may lead to a call of `add_peer`. -/
inductive Contact where
  /-- `datagram_received`, with the address that the datagram came from. -/
  | hello (data : Bytes) (ip : String)
  /-- `_handle_client` at its HANDSHAKE message. -/
  | handshake (ip : String) (msg : Value)
  /-- `connect_to_peer` at its HANDSHAKE_ACK message. -/
  | ack (ip : String) (port : ℕ) (msg : Value)

/-- The contact carries health metrics. -/
def Contact.isHello : Contact → Bool
  | .hello .. => true
  | _ => false

/-- The three metrics. -/
def metrics : List (PeerRecord → Value) :=
  [PeerRecord.freeSpace, PeerRecord.uptime, PeerRecord.healthScore]

/-- `a == b`, for values with a hash; lists and dictionaries have to be the same. -/
def Same (a b : Value) : Prop := a = b ∨ ∃ k, a.key? = some k ∧ b.key? = some k

section

variable (json : Orjson) (swarmKey nodeId : String)

/-- The record that is given to `add_peer`; there is none when the message is rejected or the
handler raises before. -/
def Contact.peer : Contact → Option PeerRecord
  | .hello data ip => ((datagramReceived json swarmKey nodeId data ip).toOption).join
  | .handshake ip msg =>
    match Connection.onHandshake (some msg) with
    | .register p _ => (peerOfHandshake ip 0 p msg).toOption
    | _ => none
  | .ack ip port msg =>
    match Connection.onAck (some msg), msg.getD "node_id" (.str "") with
    | .register p _, .ok peerId =>
      -- the log line in front of the registration slices the id
      if peerId.hasSlices then (peerOfHandshake ip port p msg).toOption else none
    | _, _ => none

/-- The registry when the `add_peer` that a contact has scheduled has run. -/
def afterContact (registry : Registry) (e : Contact × ℚ) : Registry :=
  match e.1.peer json swarmKey nodeId with
  | none => registry
  | some peer => registry.addPeer peer e.2

/-- The registry after the calls of `add_peer` for `cs`, in this order; each contact comes with the
time of its call. -/
def afterContacts (registry : Registry) (cs : List (Contact × ℚ)) : Registry :=
  cs.foldl (afterContact json swarmKey nodeId) registry

/-- The records of `p` that the contacts give to `add_peer`. -/
def recordsOf (p : Key) (cs : List (Contact × ℚ)) : List PeerRecord :=
  cs.filterMap fun e => (e.1.peer json swarmKey nodeId).filter fun r => r.nodeId = p

/-- Those that came with a HELLO. -/
def reports (p : Key) (cs : List (Contact × ℚ)) : List PeerRecord :=
  recordsOf json swarmKey nodeId p (cs.filter fun e => e.1.isHello)

/-- What the record of `p` is at first: as it is in the registry, or as the first contact makes
it. -/
def firstRecord (registry : Registry) (p : Key) (cs : List (Contact × ℚ)) : Option PeerRecord :=
  (registry.peers.get? p).or (recordsOf json swarmKey nodeId p cs).head?

/-- The registry reflects the latest reports, and handshakes leave them alone. -/
structure Reflects (registry : Registry) (cs : List (Contact × ℚ)) : Prop where
  /-- The metrics of a peer equal those of its last HELLO. -/
  current : ∀ p r, (reports json swarmKey nodeId p cs).getLast? = some r →
    ∃ k, (afterContacts json swarmKey nodeId registry cs).peers.get? p = some k ∧
      ∀ f ∈ metrics, Same (f k) (f r)
  /-- A handshake changes no metric of a peer that is known. -/
  leftAlone : ∀ cs₁ e cs₂, cs = cs₁ ++ e :: cs₂ → e.1.isHello = false →
    ∀ p k, (afterContacts json swarmKey nodeId registry cs₁).peers.get? p = some k →
      ∃ k', (afterContacts json swarmKey nodeId registry (cs₁ ++ [e])).peers.get? p = some k' ∧
        ∀ f ∈ metrics, f k' = f k

/-- The last report `r` of a peer gets through in the metric `f`: it carries a true value, or none
of the reports does, and the record began with the same value. -/
def GetsThrough (first : PeerRecord) (rs : List PeerRecord) (r : PeerRecord)
    (f : PeerRecord → Value) : Prop :=
  (f r).truthy = true ∨ (∀ r' ∈ rs, (f r').truthy = false) ∧ Same (f first) (f r)

end

/-! ## The last true value -/

/-- What a metric is after a report, given what it was. -/
def heard (old : Option Value) (new : Value) : Value :=
  match old with
  | none => new
  | some v => if new.truthy then new else v

/-- The last true value, or `v` when there is none. -/
def lastTrue (v : Value) (vs : List Value) : Value := (vs.filter Value.truthy).getLast?.getD v

lemma foldl_heard (vs : List Value) (old : Option Value) :
    vs.foldl (fun o v => some (heard o v)) old =
      (old.or vs.head?).map fun v => lastTrue v vs := by
  induction vs generalizing old with
  | nil => cases old <;> rfl
  | cons w vs ih =>
    rw [List.foldl_cons, ih]
    cases old <;> cases hw : w.truthy <;>
      simp [heard, lastTrue, hw, List.getLast?_cons]

lemma lastTrue_append_of_truthy (v : Value) (vs : List Value) {w : Value}
    (hw : w.truthy = true) : lastTrue v (vs ++ [w]) = w := by
  simp [lastTrue, List.filter_append, hw]

lemma lastTrue_of_forall (v : Value) {vs : List Value} (h : ∀ w ∈ vs, w.truthy = false) :
    lastTrue v vs = v := by
  have hnil : vs.filter Value.truthy = [] := List.filter_eq_nil_iff.2 fun w hw => by simp [h w hw]
  rw [lastTrue, hnil]
  rfl

lemma truthy_lastTrue (v : Value) {vs : List Value} {w : Value} (hw : w ∈ vs)
    (htrue : w.truthy = true) : (lastTrue v vs).truthy = true := by
  have hmem : w ∈ vs.filter Value.truthy := List.mem_filter.2 ⟨hw, htrue⟩
  rw [lastTrue, List.getLast?_eq_some_getLast (List.ne_nil_of_mem hmem), Option.getD_some]
  exact (List.mem_filter.1 (List.getLast_mem _)).2

/-- The truth value of a value with a hash is that of its key. -/
def keyTruthy : Key → Bool
  | .none => false
  | .number x => x ≠ 0
  | .str s => s ≠ ""
  | .bytes b => b ≠ []
  | _ => true

lemma truthy_of_key {v : Value} {k : Key} (h : v.key? = some k) : v.truthy = keyTruthy k := by
  cases v with
  | bool b =>
    obtain rfl := Option.some.inj h
    cases b <;> rfl
  | int n =>
    obtain rfl := Option.some.inj h
    simp [Value.truthy, keyTruthy]
  | array items => simp [Value.key?] at h
  | dict fields => simp [Value.key?] at h
  | _ =>
    obtain rfl := Option.some.inj h
    rfl

lemma Same.truthy_eq {a b : Value} (h : Same a b) : a.truthy = b.truthy := by
  rcases h with rfl | ⟨k, ha, hb⟩
  · rfl
  · rw [truthy_of_key ha, truthy_of_key hb]

/-! ## Metrics -/

section

variable {json : Orjson} {swarmKey nodeId : String} {f : PeerRecord → Value}

/-- What `add_peer` makes of a metric. -/
lemma metric_merged (hf : f ∈ metrics) (registry : Registry) (peer : PeerRecord) (now : ℚ) :
    f (registry.merged peer now) = heard ((registry.peers.get? peer.nodeId).map f) (f peer) := by
  have hcases : f = PeerRecord.freeSpace ∨ f = PeerRecord.uptime ∨ f = PeerRecord.healthScore := by
    simpa [metrics] using hf
  unfold Registry.merged
  rcases hcases with rfl | rfl | rfl <;> split <;> next h => rw [h]; rfl

lemma recordsOf_cons (p : Key) (e : Contact × ℚ) (cs : List (Contact × ℚ)) :
    recordsOf json swarmKey nodeId p (e :: cs) =
      ((e.1.peer json swarmKey nodeId).filter fun r => r.nodeId = p).toList ++
        recordsOf json swarmKey nodeId p cs := by
  rw [recordsOf, List.filterMap_cons]
  cases (e.1.peer json swarmKey nodeId).filter fun r => r.nodeId = p <;> rfl

lemma metric_afterContact (hf : f ∈ metrics) (registry : Registry) (e : Contact × ℚ) (p : Key) :
    ((afterContact json swarmKey nodeId registry e).peers.get? p).map f =
      (((e.1.peer json swarmKey nodeId).filter fun r => r.nodeId = p).toList.map f).foldl
        (fun o v => some (heard o v)) ((registry.peers.get? p).map f) := by
  rw [afterContact]
  cases e.1.peer json swarmKey nodeId with
  | none => rfl
  | some peer =>
    by_cases hp : peer.nodeId = p
    · subst hp
      simp [Registry.get?_addPeer, metric_merged hf, Option.filter_some]
    · have hne : p ≠ peer.nodeId := fun h => hp h.symm
      simp [Registry.get?_addPeer, hp, hne, Option.filter_some]

lemma metric_foldl (hf : f ∈ metrics) (cs : List (Contact × ℚ)) (registry : Registry) (p : Key) :
    ((afterContacts json swarmKey nodeId registry cs).peers.get? p).map f =
      ((recordsOf json swarmKey nodeId p cs).map f).foldl (fun o v => some (heard o v))
        ((registry.peers.get? p).map f) := by
  induction cs generalizing registry with
  | nil => rfl
  | cons e cs ih =>
    rw [recordsOf_cons, List.map_append, List.foldl_append, ← metric_afterContact hf]
    exact ih _

/-- A handshake builds its record with the defaults. -/
lemma truthy_peerOfHandshake (hf : f ∈ metrics) {ip : String} {port : ℕ} {p : Key} {msg : Value}
    {r : PeerRecord} (h : (peerOfHandshake ip port p msg).toOption = some r) :
    (f r).truthy = false := by
  have hcases : f = PeerRecord.freeSpace ∨ f = PeerRecord.uptime ∨ f = PeerRecord.healthScore := by
    simpa [metrics] using hf
  cases hr : peerOfHandshake ip port p msg with
  | error e =>
    rw [hr] at h
    cases h
  | ok r' =>
    rw [hr] at h
    obtain rfl : r' = r := Option.some.inj h
    obtain ⟨tcpPort, -, hr⟩ := bind_eq_ok.1 hr
    obtain ⟨name, -, hr⟩ := bind_eq_ok.1 hr
    obtain ⟨apiPort, -, hr⟩ := bind_eq_ok.1 hr
    obtain rfl := Except.ok.inj hr
    rcases hcases with rfl | rfl | rfl <;> simp [Value.truthy]

lemma truthy_of_not_isHello (hf : f ∈ metrics) {c : Contact} (hc : c.isHello = false)
    {r : PeerRecord} (h : c.peer json swarmKey nodeId = some r) : (f r).truthy = false := by
  cases c with
  | hello data ip => cases hc
  | handshake ip msg =>
    dsimp only [Contact.peer] at h
    split at h
    · exact truthy_peerOfHandshake hf h
    · cases h
  | ack ip port msg =>
    dsimp only [Contact.peer] at h
    split at h
    · split at h
      · exact truthy_peerOfHandshake hf h
      · cases h
    · cases h

/-- The true values among the records of a peer are those of its HELLOs. -/
lemma lastTrue_recordsOf (hf : f ∈ metrics) (cs : List (Contact × ℚ)) (p : Key) (v : Value) :
    lastTrue v ((recordsOf json swarmKey nodeId p cs).map f) =
      lastTrue v ((reports json swarmKey nodeId p cs).map f) := by
  have hfilter : ((recordsOf json swarmKey nodeId p cs).map f).filter Value.truthy =
      ((reports json swarmKey nodeId p cs).map f).filter Value.truthy := by
    unfold reports
    induction cs with
    | nil => rfl
    | cons e cs ih =>
      rw [recordsOf_cons, List.map_append, List.filter_append, ih, List.filter_cons]
      split
      · rw [recordsOf_cons, List.map_append, List.filter_append]
      · next hc =>
        have hnil : ((((e.1.peer json swarmKey nodeId).filter fun r => r.nodeId = p).toList.map
            f).filter Value.truthy) = [] := by
          rw [List.filter_eq_nil_iff]
          intro v hv
          obtain ⟨r, hr, rfl⟩ := List.mem_map.1 hv
          have hpeer := (Option.filter_eq_some_iff.1 (Option.mem_toList.1 hr)).1
          simp [truthy_of_not_isHello hf (Bool.not_eq_true _ ▸ hc) hpeer]
        rw [hnil, List.nil_append]
  rw [lastTrue, hfilter, lastTrue]

/-- **What the registry has for a metric** of a peer is the last true value that one of its HELLOs
has carried, or what it had at first. -/
theorem metric_afterContacts (hf : f ∈ metrics) (registry : Registry) (cs : List (Contact × ℚ))
    (p : Key) :
    ((afterContacts json swarmKey nodeId registry cs).peers.get? p).map f =
      (firstRecord json swarmKey nodeId registry p cs).map fun first =>
        lastTrue (f first) ((reports json swarmKey nodeId p cs).map f) := by
  rw [metric_foldl hf, foldl_heard, firstRecord, List.head?_map]
  cases registry.peers.get? p <;> cases (recordsOf json swarmKey nodeId p cs).head? <;>
    simp [lastTrue_recordsOf hf]

variable {registry : Registry} {cs : List (Contact × ℚ)} {p : Key} {first k : PeerRecord}

lemma metric_eq (hf : f ∈ metrics)
    (hfirst : firstRecord json swarmKey nodeId registry p cs = some first)
    (hk : (afterContacts json swarmKey nodeId registry cs).peers.get? p = some k) :
    f k = lastTrue (f first) ((reports json swarmKey nodeId p cs).map f) := by
  have h : _ = (firstRecord json swarmKey nodeId registry p cs).map _ :=
    metric_afterContacts hf registry cs p
  rw [hfirst, hk, Option.map_some, Option.map_some] at h
  exact Option.some.inj h

lemma exists_afterContacts
    (hfirst : firstRecord json swarmKey nodeId registry p cs = some first) :
    ∃ k, (afterContacts json swarmKey nodeId registry cs).peers.get? p = some k := by
  have h : _ = (firstRecord json swarmKey nodeId registry p cs).map _ :=
    metric_afterContacts (f := PeerRecord.freeSpace) (List.mem_cons_self ..) registry cs p
  rw [hfirst, Option.map_some] at h
  obtain ⟨k, hk, -⟩ := Option.map_eq_some_iff.1 h
  exact ⟨k, hk⟩

/-- Whatever is known of a peer, a handshake changes none of its metrics. -/
lemma metric_of_not_isHello (hf : f ∈ metrics) (registry : Registry) {e : Contact × ℚ}
    (he : e.1.isHello = false) {p : Key} {k : PeerRecord} (hk : registry.peers.get? p = some k) :
    ((afterContact json swarmKey nodeId registry e).peers.get? p).map f = some (f k) := by
  rw [metric_afterContact hf, hk, Option.map_some]
  cases hr : (e.1.peer json swarmKey nodeId).filter fun r => r.nodeId = p with
  | none => rfl
  | some r =>
    have hfalse : (f r).truthy = false :=
      truthy_of_not_isHello hf he (Option.filter_eq_some_iff.1 hr).1
    simp [heard, hfalse]

lemma leftAlone_afterContact (registry : Registry) {e : Contact × ℚ} (he : e.1.isHello = false)
    {p : Key} {k : PeerRecord} (hk : registry.peers.get? p = some k) :
    ∃ k', (afterContact json swarmKey nodeId registry e).peers.get? p = some k' ∧
      ∀ f ∈ metrics, f k' = f k := by
  have hmetric (f : PeerRecord → Value) (hf : f ∈ metrics) :
      ((afterContact json swarmKey nodeId registry e).peers.get? p).map f = some (f k) :=
    metric_of_not_isHello hf registry he hk
  obtain ⟨k', hk', -⟩ := Option.map_eq_some_iff.1
    (hmetric PeerRecord.freeSpace (List.mem_cons_self ..))
  refine ⟨k', hk', fun f hf => ?_⟩
  have hf' := hmetric f hf
  rw [hk', Option.map_some] at hf'
  exact Option.some.inj hf'

/-! ## The latest report -/

lemma exists_firstRecord (registry : Registry) {cs : List (Contact × ℚ)} {p : Key}
    {r : PeerRecord} (hr : (reports json swarmKey nodeId p cs).getLast? = some r) :
    ∃ first, firstRecord json swarmKey nodeId registry p cs = some first := by
  have hmem : r ∈ recordsOf json swarmKey nodeId p cs := by
    have := List.mem_of_getLast? hr
    rw [reports, recordsOf, List.mem_filterMap] at this
    obtain ⟨e, he, hre⟩ := this
    exact List.mem_filterMap.2 ⟨e, (List.mem_filter.1 he).1, hre⟩
  rw [firstRecord]
  cases registry.peers.get? p with
  | some k => exact ⟨k, rfl⟩
  | none =>
    cases hrecords : recordsOf json swarmKey nodeId p cs with
    | nil => simp [hrecords] at hmem
    | cons first rs => exact ⟨first, rfl⟩

/-- The last true value equals the last value just when the last report gets through. -/
lemma same_lastTrue_iff {first r : PeerRecord} {rs : List PeerRecord}
    (hr : rs.getLast? = some r) (f : PeerRecord → Value) :
    Same (lastTrue (f first) (rs.map f)) (f r) ↔ GetsThrough first rs r f := by
  obtain ⟨rs', rfl⟩ : ∃ rs', rs = rs' ++ [r] := List.getLast?_eq_some_iff.1 hr
  cases htrue : (f r).truthy with
  | true =>
    rw [List.map_append, List.map_singleton, lastTrue_append_of_truthy _ _ htrue]
    exact iff_of_true (Or.inl rfl) (Or.inl htrue)
  | false =>
    constructor
    · intro hsame
      have hfalse (r' : PeerRecord) (hr' : r' ∈ rs' ++ [r]) : (f r').truthy = false := by
        by_contra htrue'
        have := truthy_lastTrue (f first) (List.mem_map_of_mem hr')
          (Bool.of_not_eq_false htrue')
        rw [hsame.truthy_eq, htrue] at this
        cases this
      refine Or.inr ⟨hfalse, ?_⟩
      rwa [lastTrue_of_forall _ (List.forall_mem_map.2 hfalse)] at hsame
    · rintro (h | ⟨hfalse, hfirst⟩)
      · rw [htrue] at h
        cases h
      · rwa [lastTrue_of_forall _ (List.forall_mem_map.2 hfalse)]

/-- **The registry reflects each peer's latest report** just when the last report of every peer
gets through in every metric.  Handshakes leave the metrics alone in any case. -/
theorem reflects_iff (json : Orjson) (swarmKey nodeId : String) (registry : Registry)
    (cs : List (Contact × ℚ)) :
    Reflects json swarmKey nodeId registry cs ↔
      ∀ p first r, firstRecord json swarmKey nodeId registry p cs = some first →
        (reports json swarmKey nodeId p cs).getLast? = some r →
        ∀ f ∈ metrics, GetsThrough first (reports json swarmKey nodeId p cs) r f := by
  constructor
  · intro h p first r hfirst hr f hf
    obtain ⟨k, hk, hsame⟩ := h.current p r hr
    rw [← same_lastTrue_iff hr, ← metric_eq hf hfirst hk]
    exact hsame f hf
  · intro h
    refine ⟨fun p r hr => ?_, fun cs₁ e cs₂ _ he p k hk => ?_⟩
    · obtain ⟨first, hfirst⟩ := exists_firstRecord registry hr
      obtain ⟨k, hk⟩ := exists_afterContacts hfirst
      refine ⟨k, hk, fun f hf => ?_⟩
      rw [metric_eq hf hfirst hk, same_lastTrue_iff hr]
      exact h p first r hfirst hr f hf
    · rw [afterContacts, List.foldl_append]
      exact leftAlone_afterContact _ he hk

end

/-! ## A full disk -/

/-- What `b` reports with `gib` GiB of its disk free. -/
def report (gib : ℕ) : Value :=
  helloPayload { nodeId := "b", tcpPort := 50001 } 60 0
    { freeRamMb := 512, cpuFreqGhz := 2, cpuPercent := 10, freeDiskGb := gib,
      healthScore := ((702 + 10 * gib : ℕ) : ℚ) }

/-- The text of the report. -/
def reportText (gib : ℕ) : String :=
  "\x7b\"type\":\"HELLO\",\"node_id\":\"b\",\"name\":\"node\",\"tcp_port\":50001," ++
  "\"api_port\":8888,\"uptime\":60.0,\"timestamp\":0.0,\"health\":\x7b\"free_ram_mb\":512.0," ++
  "\"cpu_freq_ghz\":2.0,\"cpu_percent\":10.0,\"free_disk_gb\":" ++ toString gib ++
  ".0,\"health_score\":" ++ toString (702 + 10 * gib) ++ ".0\x7d\x7d"

/-- Its text with sorted keys. -/
def sortedText (gib : ℕ) : String :=
  "\x7b\"api_port\":8888,\"health\":\x7b\"cpu_freq_ghz\":2.0,\"cpu_percent\":10.0," ++
  "\"free_disk_gb\":" ++ toString gib ++ ".0,\"free_ram_mb\":512.0,\"health_score\":" ++
  toString (702 + 10 * gib) ++ ".0\x7d,\"name\":\"node\",\"node_id\":\"b\"," ++
  "\"tcp_port\":50001,\"timestamp\":0.0,\"type\":\"HELLO\",\"uptime\":60.0\x7d"

def reportSignature (gib : ℕ) : String := hmacTag "k" (encodeUtf8 (sortedText gib))

/-- The text of a datagram with this payload and this signature. -/
def datagramText (payload signature : String) : String :=
  "\x7b\"payload\":" ++ payload ++ ",\"signature\":\"" ++ signature ++ "\"\x7d"

def datagram (gib : ℕ) : Bytes := encodeUtf8 (datagramText (reportText gib) (reportSignature gib))

/-- `orjson` on the reports of 0 and of 10 GiB. -/
def reportJson : Orjson where
  loads data :=
    ([0, 10].find? fun gib => data = datagram gib).map fun gib =>
      .dict [(.str "payload", report gib), (.str "signature", .str (reportSignature gib))]
  dumps
    | .dict [_, _, _, _, _, _, _, (_, .dict [_, _, _, (_, .float gib), _])] =>
      encodeUtf8 (sortedText gib.num.toNat)
    | _ => []

/-- The record that the datagram leads to. -/
def reportRecord (gib : ℕ) : PeerRecord where
  nodeId := .str "b"
  ip := "10.0.0.2"
  tcpPort := .int (50001 : ℕ)
  name := .str "node"
  freeSpace := .int (gib * 1024 ^ 3)
  uptime := .float 60
  healthScore := .float ((702 + 10 * gib : ℕ) : ℚ)

lemma length_reportSignature (gib : ℕ) : (reportSignature gib).length = 64 := by
  rw [reportSignature, hmacTag, length_hexDigest, length_hmacSha256]

lemma length_of_append {a b c x x' y y' : String}
    (h : (a ++ x ++ b ++ y ++ c).length = (a ++ x' ++ b ++ y' ++ c).length)
    (hy : y.length = y'.length) : x.length = x'.length := by
  simp only [String.length_append] at h
  omega

lemma datagram_ne : datagram 10 ≠ datagram 0 := by
  intro h
  have htext := congrArg String.length (encodeUtf8_injective h)
  have hreport : (reportText 10).length = (reportText 0).length :=
    length_of_append htext (by rw [length_reportSignature, length_reportSignature])
  have hdigits : (toString 10).length = (toString 0).length :=
    length_of_append hreport (by decide)
  exact absurd hdigits (by decide)

lemma loads_datagram (gib : ℕ) (h : gib = 0 ∨ gib = 10) :
    reportJson.loads (datagram gib) = some (.dict [(.str "payload", report gib),
      (.str "signature", .str (reportSignature gib))]) := by
  rcases h with rfl | rfl
  · simp [reportJson]
  · simp [reportJson, datagram_ne]

lemma dumps_report (gib : ℕ) : reportJson.dumps (report gib) = encodeUtf8 (sortedText gib) := by
  simp [reportJson, report, helloPayload]

lemma hmacTag_ne_empty (swarmKey : String) (bs : Bytes) : hmacTag swarmKey bs ≠ "" := by
  intro h
  have hlength : (hmacTag swarmKey bs).length = 64 := by
    rw [hmacTag, length_hexDigest, length_hmacSha256]
  simp [h] at hlength

/-- A payload with its signature is accepted. -/
lemma authorizedPayload_of_signed {json : Orjson} {swarmKey : String} {data : Bytes}
    {payload : Value} (htruthy : payload.truthy = true)
    (hloads : json.loads data = some (.dict [(.str "payload", payload),
      (.str "signature", .str (hmacTag swarmKey (json.dumps payload)))])) :
    authorizedPayload json swarmKey data = .ok (some payload) := by
  have hcompare : compareDigest (.str (hmacTag swarmKey (json.dumps payload)))
      (hmacTag swarmKey (json.dumps payload)) = .ok true := by
    simp only [compareDigest, hmacTag, ascii_hexDigest, if_true, decide_true]
  have hsignature : (Value.str (hmacTag swarmKey (json.dumps payload))).truthy = true := by
    simp [Value.truthy, hmacTag_ne_empty]
  rw [authorizedPayload, hloads]
  simp [Value.getD, Value.isStr, htruthy, hsignature, hcompare, bind, Except.bind, pure,
    Except.pure]

lemma gibToBytes_natCast {gib : ℕ} (h : gib ≤ 10) :
    gibToBytes (.float gib) = .ok (gib * 1024 ^ 3) := by
  have hcast : (gib : ℚ) * 1024 ^ 3 = ((gib * 1024 ^ 3 : ℕ) : ℚ) := by
    push_cast
    rfl
  have hsmall : ((gib * 1024 ^ 3 : ℕ) : ℚ) < 2 ^ 1024 :=
    calc ((gib * 1024 ^ 3 : ℕ) : ℚ) < ((2 ^ 40 : ℕ) : ℚ) := Nat.cast_lt.2 (by omega)
      _ = 2 ^ 40 := Nat.cast_pow 2 40
      _ ≤ 2 ^ 1024 := pow_le_pow_right₀ (by norm_num) (by omega)
  have hneg : -2 ^ 1024 < ((gib * 1024 ^ 3 : ℕ) : ℚ) :=
    lt_of_lt_of_le (neg_lt_zero.2 (by positivity)) (Nat.cast_nonneg _)
  unfold gibToBytes
  dsimp only
  rw [hcast, if_pos ⟨hneg, hsmall⟩, Rat.num_natCast, Rat.den_natCast]
  simp

/-- The record that comes of what `_build_hello` has built. -/
lemma onHello_helloPayload {self : Identity} {nodeId ip : String} {uptime timestamp : ℚ}
    {health : Health} {freeSpaceBytes : ℤ} (hother : self.nodeId ≠ nodeId)
    (hbytes : gibToBytes (.float health.freeDiskGb) = .ok freeSpaceBytes) :
    onHello nodeId ip (helloPayload self uptime timestamp health) =
      .ok (some { nodeId := .str self.nodeId, ip := ip, tcpPort := .int self.tcpPort,
                  name := .str self.name, freeSpace := .int freeSpaceBytes,
                  uptime := .float uptime, healthScore := .float health.healthScore,
                  apiPort := .int self.apiPort }) := by
  simp [onHello, peerOfHello, helloPayload, Value.getD, Value.isStr, Value.hasSlices, hbytes,
    hother, Value.key?, bind, Except.bind, pure, Except.pure]

lemma peer_hello_of_authorized {json : Orjson} {swarmKey nodeId ip : String} {data : Bytes}
    {msg : Value} {peer : PeerRecord}
    (hauthorized : authorizedPayload json swarmKey data = .ok (some msg))
    (hmsg : onHello nodeId ip msg = .ok (some peer)) :
    (Contact.hello data ip).peer json swarmKey nodeId = some peer := by
  simp [Contact.peer, datagramReceived, hauthorized, hmsg, bind, Except.bind, Except.toOption]

lemma peer_datagram {gib : ℕ} (h : gib = 0 ∨ gib = 10) :
    (Contact.hello (datagram gib) "10.0.0.2").peer reportJson "k" "a" =
      some (reportRecord gib) := by
  have hauthorized : authorizedPayload reportJson "k" (datagram gib) = .ok (some (report gib)) := by
    refine authorizedPayload_of_signed rfl ?_
    rw [loads_datagram gib h, dumps_report, reportSignature]
  have hbytes : gibToBytes (.float gib) = .ok (gib * 1024 ^ 3) := gibToBytes_natCast (by omega)
  exact peer_hello_of_authorized hauthorized (onHello_helloPayload (by decide) hbytes)

lemma recordsOf_single {json : Orjson} {swarmKey nodeId : String} {c : Contact} {now : ℚ}
    {r : PeerRecord} {cs : List (Contact × ℚ)} (h : c.peer json swarmKey nodeId = some r) :
    recordsOf json swarmKey nodeId r.nodeId ((c, now) :: cs) =
      r :: recordsOf json swarmKey nodeId r.nodeId cs := by
  rw [recordsOf_cons, h]
  simp [Option.filter_some]

/-- A HELLO with 10 GiB, and five seconds later one with none. -/
def filledUp : List (Contact × ℚ) :=
  [(.hello (datagram 10) "10.0.0.2", 0), (.hello (datagram 0) "10.0.0.2", 5)]

/-- **A full disk goes unnoticed.**  A peer that has reported 10 GiB reports 0; the registry keeps
the 10 GiB. -/
theorem full_disk_unnoticed : ¬ Reflects reportJson "k" "a" ∅ filledUp := by
  intro hreflects
  have h10 := peer_datagram (Or.inr rfl : 10 = 0 ∨ 10 = 10)
  have h0 := peer_datagram (Or.inl rfl : 0 = 0 ∨ 0 = 10)
  have hrecords : recordsOf reportJson "k" "a" (.str "b") filledUp =
      [reportRecord 10, reportRecord 0] :=
    (recordsOf_single h10).trans (congrArg _ (recordsOf_single h0))
  have hreports : reports reportJson "k" "a" (.str "b") filledUp =
      [reportRecord 10, reportRecord 0] := hrecords
  obtain ⟨k, hk, hsame⟩ := hreflects.current (.str "b") (reportRecord 0) (by
    rw [hreports]; rfl)
  have hfirst : firstRecord reportJson "k" "a" ∅ (.str "b") filledUp =
      some (reportRecord 10) := by
    rw [firstRecord, hrecords]
    rfl
  have hfree := hsame PeerRecord.freeSpace (List.mem_cons_self ..)
  rw [metric_eq (List.mem_cons_self ..) hfirst hk, hreports] at hfree
  have htruthy := hfree.truthy_eq
  simp [lastTrue, reportRecord, Value.truthy] at htruthy

end DistriStore.HealthReports
