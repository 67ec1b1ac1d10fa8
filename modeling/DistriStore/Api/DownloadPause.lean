import DistriStore.Api.DownloadWorkers

/-!
# Pausing a download that finishes

A worker ends a download by setting its status to `completed` or `error`, and a completed one has
no `.resume` file any more.  That should stand until the next launch.  `pause_download` breaks it:
it looks at the status, waits for the worker, and then writes `paused` and the `.resume` file
without looking again, although the worker it waited for may have ended the download meanwhile
(`pause_undoes_completed`).

`Outcome` remembers what a worker has made of the download.  Once there is one the file rests, no
worker is live and nothing is `downloading`, and then hardly any step touches it
(`step_of_resting`).  So an outcome stands in every run in which no pause goes on after one, and
no request launches a second worker (`outcome_stands`).
-/

namespace DistriStore.DownloadManager

open Lib

/-! ## The outcome of a download -/

/-- What a worker has made of the download since its last launch. -/
structure Outcome where
  /-- The object; it is gone after a crash. -/
  obj : Option ℕ
  status : Status
  deriving DecidableEq

/-- The outcome that worker `w` of the file sets. -/
def outcomeBy (h : String) (s : State) (w : ℕ) (status : Option Status) : Option Outcome :=
  (s.workers[w]?).bind fun worker =>
    if worker.fileHash = h then status.map fun st => ⟨some worker.obj, st⟩ else none

/-- The first outcome after a launch stays until the next one. -/
def observeOutcome (h : String) (g : Option Outcome) (s : State) (l : Label) (t : State) :
    Option Outcome :=
  match l with
  | .start h' _ _ _ => if h' = h ∧ t.workers.length ≠ s.workers.length then none else g
  | .resume h' _ _ => if h' = h ∧ t.workers.length ≠ s.workers.length then none else g
  | .beginRaises w _ _ _ => g.or (outcomeBy h s w l.outcome)
  | .fetched w _ _ => g.or (outcomeBy h s w l.outcome)
  | .merged w _ _ => g.or (outcomeBy h s w l.outcome)
  | .crash => g.map fun x => { x with obj := none }
  | .crashInMerge _ _ => g.map fun x => { x with obj := none }
  | _ => g

/-- The manager with the outcome of one file. -/
def judged (h : String) : Machine (State × Option Outcome) Label :=
  machine.observed none (observeOutcome h)

/-- The outcome has not been undone: the status is what the worker has set, and a completed
download has no `.resume` file. -/
def Stands (h : String) (x : State × Option Outcome) : Prop :=
  ∀ outcome ∈ x.2,
    (∀ i ∈ outcome.obj, ∃ o : DownloadState, x.1.objects[i]? = some o ∧
      o.status = outcome.status) ∧
    (outcome.status = .completed → x.1.files.get? h = none)

/-- When a waiting pause of the file goes on, there is no outcome yet. -/
def BeforeOutcome (h : String) (x : State × Option Outcome) : Label → Prop
  | .pauseDone p _ => ∀ pause, x.1.pauses[p]? = some pause → pause.fileHash = h → x.2 = none
  | _ => True

/-- No pause of the file goes on after its outcome, and no request launches a worker beside a live
one. -/
structure Undisturbed (h : String) (x : State × Option Outcome) (l : Label) : Prop where
  request : l.request = some h → Busy x.1 h → Active x.1 h
  pause : BeforeOutcome h x l

/-! ## A file at rest -/

/-- Nobody is at work on the file, and its status does not say so. -/
structure Resting (h : String) (s : State) : Prop where
  idle : ¬ Busy s h
  inactive : ¬ Active s h

variable {h : String}

lemma Resting.calm {s t : State} (hs : Resting h s) (hi : Inv ∅ (fun _ => 0) s)
    (hcalm : Calm h s t) : Resting h t where
  idle := by
    rintro ⟨w, i, hlive⟩
    exact hs.idle ⟨w, i, hcalm.live w i hlive⟩
  inactive := by
    rintro ⟨i, o', hdown, ho', hstatus⟩
    rw [hcalm.downloads] at hdown
    obtain ⟨o, ho, hhash⟩ := hi.tracked h i hdown
    obtain ⟨o'', ho'', -, hsame⟩ := hcalm.objects i o ho hhash
    rw [ho', Option.some.injEq] at ho''
    subst ho''
    exact hs.inactive ⟨i, o, hdown, ho, hsame ▸ hstatus⟩

/-- Clearing drops the tracked object or does not touch the file. -/
lemma Resting.clear {s : State} (hs : Resting h s) : Resting h (clearCompleted s) := by
  obtain ⟨hobjects, hworkers, -, hdict⟩ := clearCompleted_spec s h
  refine ⟨?_, ?_⟩
  · rintro ⟨w, i, hlive⟩
    rw [Live, hworkers] at hlive
    exact hs.idle ⟨w, i, hlive⟩
  · rintro ⟨i, o, hdown, ho, hstatus⟩
    rcases hdict with ⟨hsame, -⟩ | ⟨hnone, -⟩
    · rw [hsame] at hdown
      rw [hobjects] at ho
      exact hs.inactive ⟨i, o, hdown, ho, hstatus⟩
    · rw [hnone] at hdown
      cases hdown

/-- **Few steps touch a file at rest**: a launch, a pause that comes back, clearing and crashes. -/
lemma step_of_resting {s t : State} {l : Label} (hi : Inv ∅ (fun _ => 0) s) (hc : Control s)
    (hs : Resting h s) (ht : exec s l = some t) :
    Apart h s t ∨ (l.request = some h ∧ ∃ i, Launched h s t i) ∨
      (∃ p written pause, l = .pauseDone p written ∧ s.pauses[p]? = some pause ∧
        pause.fileHash = h) ∨ l = .clear ∨ l.crashes = true := by
  rcases fileStep h hi hc ht with hapart | ⟨i, hl, hlaunched⟩ | ⟨w, i, hlive, -⟩ |
    ⟨w, i, hlive, -⟩ | ⟨_, hactive, -⟩ | ⟨p, written, pause, hl, hp, hhash, -⟩ | ⟨hl, -⟩ | hcrash
  · exact Or.inl hapart
  · exact Or.inr (Or.inl ⟨hl, i, hlaunched⟩)
  · exact absurd ⟨w, i, hlive⟩ hs.idle
  · exact absurd ⟨w, i, hlive⟩ hs.idle
  · exact absurd hactive hs.inactive
  · exact Or.inr (Or.inr (Or.inl ⟨p, written, pause, hl, hp, hhash⟩))
  · exact Or.inr (Or.inr (Or.inr (Or.inl hl)))
  · exact Or.inr (Or.inr (Or.inr (Or.inr hcrash)))

/-! ## What the observer sees -/

lemma ne_downloading_of_outcome {l : Label} {st : Status} (hl : l.outcome = some st) :
    st ≠ .downloading := by
  unfold Label.outcome at hl
  split at hl
  · rw [← Option.some.inj hl]
    simp
  · rw [← Option.some.inj hl]
    simp
  · rw [← Option.some.inj hl]
    simp
  · rw [← Option.some.inj hl]
    simp
  · cases hl

/-- A first outcome is that of a worker that ends. -/
lemma observeOutcome_none {s t : State} {l : Label} {outcome : Outcome}
    (hg : observeOutcome h none s l t = some outcome) : ∃ (w : ℕ) (worker : Worker) (st : Status),
      l.worker = some w ∧ s.workers[w]? = some worker ∧ worker.fileHash = h ∧
        l.outcome = some st ∧ outcome = ⟨some worker.obj, st⟩ := by
  have hby {w : ℕ} (hw : outcomeBy h s w l.outcome = some outcome) :
      ∃ (worker : Worker) (st : Status), s.workers[w]? = some worker ∧ worker.fileHash = h ∧
        l.outcome = some st ∧ outcome = ⟨some worker.obj, st⟩ := by
    obtain ⟨worker, hworker, hif⟩ := Option.bind_eq_some_iff.1 hw
    split at hif
    · next hhash =>
      obtain ⟨st, hst, rfl⟩ := Option.map_eq_some_iff.1 hif
      exact ⟨worker, st, hworker, hhash, hst, rfl⟩
    · cases hif
  cases l with
  | beginRaises w sorted message written =>
    exact ⟨w, (hby hg).imp fun _ h => h.imp fun _ h => ⟨rfl, h⟩⟩
  | fetched w error written => exact ⟨w, (hby hg).imp fun _ h => h.imp fun _ h => ⟨rfl, h⟩⟩
  | merged w error written => exact ⟨w, (hby hg).imp fun _ h => h.imp fun _ h => ⟨rfl, h⟩⟩
  | start h' d password written => simp [observeOutcome] at hg
  | resume h' password d => simp [observeOutcome] at hg
  | _ => cases hg

/-- An outcome stays until a launch. -/
lemma observeOutcome_some (s t : State) {l : Label} (outcome : Outcome)
    (hl : l.crashes = false) :
    observeOutcome h (some outcome) s l t = some outcome ∨
      observeOutcome h (some outcome) s l t = none := by
  cases l with
  | start h' d password written =>
    unfold observeOutcome
    dsimp only
    split
    · exact Or.inr rfl
    · exact Or.inl rfl
  | resume h' password d =>
    unfold observeOutcome
    dsimp only
    split
    · exact Or.inr rfl
    · exact Or.inl rfl
  | crash => cases hl
  | crashInMerge w written => cases hl
  | _ => exact Or.inl rfl

lemma observeOutcome_launched {s t : State} {l : Label} {i : ℕ} (g : Option Outcome)
    (hl : l.request = some h) (ht : Launched h s t i) : observeOutcome h g s l t = none := by
  have hlength : t.workers.length ≠ s.workers.length := by
    obtain ⟨manifest, hworkers⟩ := ht.workers
    rw [hworkers, List.length_append, List.length_singleton]
    omega
  cases l with
  | start h' d password written => exact if_pos ⟨Option.some.inj hl, hlength⟩
  | resume h' password d => exact if_pos ⟨Option.some.inj hl, hlength⟩
  | _ => cases hl

lemma observeOutcome_crashes {s t : State} {l : Label} (g : Option Outcome)
    (hl : l.crashes = true) :
    observeOutcome h g s l t = g.map fun outcome => { outcome with obj := none } := by
  cases l with
  | crash => rfl
  | crashInMerge w written => rfl
  | _ => cases hl

/-! ## Every run -/

/-- The outcome stands, and the file rests. -/
structure Settled (h : String) (outcome : Outcome) (s : State) : Prop extends Resting h s where
  object : ∀ i ∈ outcome.obj, ∃ o : DownloadState, s.objects[i]? = some o ∧ o.fileHash = h ∧
    o.status = outcome.status
  file : outcome.status = .completed → s.files.get? h = none

lemma Settled.apart {outcome : Outcome} {s t : State} (hs : Settled h outcome s)
    (hi : Inv ∅ (fun _ => 0) s) (hapart : Apart h s t) : Settled h outcome t := by
  refine ⟨hs.toResting.calm hi hapart.toCalm, fun i hi' => ?_,
    fun hcompleted => hapart.files.trans (hs.file hcompleted)⟩
  obtain ⟨o, ho, hhash, hstatus⟩ := hs.object i hi'
  obtain ⟨o', ho', hhash', hsame⟩ := hapart.objects i o ho hhash
  exact ⟨o', ho', hhash', hsame.trans hstatus⟩

lemma Settled.clear {outcome : Outcome} {s : State} (hs : Settled h outcome s) :
    Settled h outcome (clearCompleted s) := by
  obtain ⟨hobjects, -, hfiles, -⟩ := clearCompleted_spec s h
  refine ⟨hs.toResting.clear, ?_, ?_⟩
  · rw [hobjects]
    exact hs.object
  · rw [hfiles]
    exact hs.file

lemma Settled.crash {outcome : Outcome} {s t : State} {l : Label} (hs : Settled h outcome s)
    (hi : Inv ∅ (fun _ => 0) s) (hl : l.crashes = true) (ht : exec s l = some t) :
    Settled h { outcome with obj := none } t := by
  obtain ⟨hidle, hinactive, hfiles | hbusy⟩ := crashes_cases hi hl ht h
  · exact ⟨⟨hidle, hinactive⟩, by simp, fun hcompleted => hfiles.trans (hs.file hcompleted)⟩
  · exact absurd hbusy hs.idle

/-- A worker that ends with an outcome leaves the file at rest. -/
lemma settled_of_ended {s t : State} {w : ℕ} {worker : Worker} {st : Status}
    (hi : Inv ∅ (fun _ => 0) t) (hs : Sole False worker.fileHash s)
    (hw : s.workers[w]? = some worker) (hphase : worker.phase ≠ .finished)
    (ht : Ended worker.fileHash s t w worker.obj (some st)) (hst : st ≠ .downloading) :
    Settled worker.fileHash ⟨some worker.obj, st⟩ t := by
  have hlive : Live s worker.fileHash w worker.obj := ⟨worker, hw, rfl, rfl, hphase⟩
  obtain ⟨o, ho, hstatus⟩ := ht.status st rfl
  have htracked : t.downloads.get? worker.fileHash = some worker.obj :=
    ht.downloads.trans (hs.owned w worker.obj hlive).tracked
  obtain ⟨o', ho', hhash⟩ := hi.tracked _ _ htracked
  rw [ho, Option.some.injEq] at ho'
  subst ho'
  refine ⟨⟨hs.not_busy_of_ended hlive ht, ?_⟩, fun i hobj => ?_, fun hcompleted => ?_⟩
  · rintro ⟨i, o', hdown, ho', hdownloading⟩
    rw [htracked, Option.some.injEq] at hdown
    subst hdown
    rw [ho, Option.some.injEq] at ho'
    subst ho'
    exact hst (hstatus.symm.trans hdownloading)
  · obtain rfl := Option.some.inj hobj
    exact ⟨o, ho, hhash, hstatus⟩
  · exact ht.files (congrArg some hcompleted)

structure Judged (h : String) (x : State × Option Outcome) : Prop where
  inv : Inv ∅ (fun _ => 0) x.1
  control : Control x.1
  sole : Sole False h x.1
  settled : ∀ outcome ∈ x.2, Settled h outcome x.1

lemma Judged.stands {x : State × Option Outcome} (hx : Judged h x) : Stands h x := by
  intro outcome hg
  refine ⟨fun i hi => ?_, (hx.settled outcome hg).file⟩
  obtain ⟨o, ho, -, hstatus⟩ := (hx.settled outcome hg).object i hi
  exact ⟨o, ho, hstatus⟩

lemma judged_init (h : String) : Judged h (judged h).init where
  inv := inv_init
  control := control_init
  sole := by
    refine sole_of_not_busy ?_
    rintro ⟨w, i, worker, hw, -⟩
    simp [judged, Machine.observed, machine] at hw
  settled := by simp [judged, Machine.observed]

/-- **Step lemma.** -/
lemma settled_step {s t : State} {g : Option Outcome} {l : Label} (hx : Judged h (s, g))
    (hi : Inv ∅ (fun _ => 0) t) (ht : exec s l = some t) (hl : Undisturbed h (s, g) l) :
    ∀ outcome ∈ observeOutcome h g s l t, Settled h outcome t := by
  intro outcome houtcome
  cases g with
  | none =>
    obtain ⟨w, worker, st, hworker, hw, rfl, hst, rfl⟩ := observeOutcome_none houtcome
    obtain ⟨worker', hw', hphase, -, hown⟩ := worker_cases hx.inv hworker ht
    replace hw' : s.workers[w]? = some worker' := hw'
    rw [hw, Option.some.injEq] at hw'
    subst hw'
    rcases hown with ⟨-, hnone⟩ | hended
    · rw [hst] at hnone
      cases hnone
    · rw [hst] at hended
      exact settled_of_ended hi hx.sole hw hphase hended (ne_downloading_of_outcome hst)
  | some first =>
    have hsettled : Settled h first s := hx.settled first rfl
    have hkept (hcrash : l.crashes = false) (ht : Settled h first t) : Settled h outcome t := by
      rcases observeOutcome_some s t first hcrash with hsome | hnone
      · rw [hsome] at houtcome
        exact Option.some.inj houtcome ▸ ht
      · rw [hnone] at houtcome
        cases houtcome
    by_cases hcrash : l.crashes = true
    · rw [observeOutcome_crashes _ hcrash] at houtcome
      exact Option.some.inj houtcome ▸ hsettled.crash hx.inv hcrash ht
    · rw [Bool.not_eq_true] at hcrash
      rcases step_of_resting hx.inv hx.control hsettled.toResting ht with
        hapart | ⟨hrequest, i, hlaunched⟩ | ⟨p, written, pause, rfl, hp, hhash⟩ | rfl | hcrash'
      · exact hkept hcrash (hsettled.apart hx.inv hapart)
      · rw [observeOutcome_launched _ hrequest hlaunched] at houtcome
        cases houtcome
      · exact absurd (hl.pause pause hp hhash) (by simp)
      · obtain rfl := Option.some.inj ht
        exact hkept rfl hsettled.clear
      · rw [hcrash] at hcrash'
        cases hcrash'

lemma Judged.step {x y : State × Option Outcome} {l : Label} (hx : Judged h x)
    (hy : (judged h).exec x l = some y) (hl : Undisturbed h x l) : Judged h y := by
  obtain ⟨ht, hobserve⟩ := Machine.exec_observed hy
  have hi : Inv ∅ (fun _ => 0) y.1 := inv_step hx.inv ht
  refine ⟨hi, control_exec hx.inv hx.control ht,
    sole_exec hx.inv hx.control hx.sole ht ⟨hl.request, False.elim⟩, ?_⟩
  rw [hobserve]
  exact settled_step hx hi ht hl

/-- **The outcome of a download stands** until the next launch, in every run in which no pause
goes on after it and no request launches a worker beside a live one. -/
theorem outcome_stands (h : String) (run : List Label)
    (hmeets : (judged h).Meets (Undisturbed h) (judged h).init run) :
    (judged h).Always (Stands h) (judged h).init run := by
  have hjudged : (judged h).Always (Judged h) (judged h).init run :=
    Machine.always_of_meets (fun _ _ _ hx hy hl => hx.step hy hl) (judged_init h) hmeets
  exact hjudged.imp fun x hx => hx.stands

instance (s : State) (h : String) : Decidable (Busy s h) :=
  decidable_of_iff (∃ worker ∈ s.workers, worker.fileHash = h ∧ worker.phase ≠ .finished) <| by
    constructor
    · rintro ⟨worker, hmem, hhash, hphase⟩
      obtain ⟨w, hw⟩ := List.mem_iff_getElem?.1 hmem
      exact ⟨w, worker.obj, worker, hw, hhash, rfl, hphase⟩
    · rintro ⟨w, i, worker, hw, hhash, -, hphase⟩
      exact ⟨worker, List.mem_of_getElem? hw, hhash, hphase⟩

instance (h : String) (x : State × Option Outcome) : ∀ l, Decidable (BeforeOutcome h x l)
  | .pauseDone p _ =>
    decidable_of_iff (∀ pause ∈ x.1.pauses[p]?, pause.fileHash = h → x.2 = none) <| Iff.rfl
  | .start _ _ _ _ | .pause _ _ | .pauseTimeout _ | .resume _ _ _ | .clear | .begin _ _
  | .beginRaises _ _ _ _ | .fetched _ _ _ | .merged _ _ _ | .cancelled _ _ | .crash
  | .crashInMerge _ _ => .isTrue trivial

instance (h : String) (x : State × Option Outcome) (l : Label) : Decidable (Undisturbed h x l) :=
  decidable_of_iff ((l.request = some h → Busy x.1 h → Active x.1 h) ∧ BeforeOutcome h x l) <| by
    constructor
    · rintro ⟨hrequest, hpause⟩
      exact ⟨hrequest, hpause⟩
    · rintro ⟨hrequest, hpause⟩
      exact ⟨hrequest, hpause⟩

/-- A download that is paused between its chunks, resumed, and completed. -/
def pausedAndCompleted : List Label :=
  pausedAndResumed ++ [.fetched 1 none true, .merged 1 none true]

theorem outcome_stands_pausedAndCompleted :
    (judged "h").Always (Stands "h") (judged "h").init pausedAndCompleted :=
  outcome_stands "h" pausedAndCompleted (by decide +kernel)

/-- The pause is requested while the last chunk is fetched. -/
def pausedAtLastChunk : List Label :=
  [.start "h" twoChunkManifest "" true, .begin 0 true, .fetched 0 none true, .pause "h" true,
    .fetched 0 none true, .merged 0 none true, .pauseDone 0 true]

/-- The outcome of `"h"`, and what is left of it: the status, and whether there is a file. -/
def remains (x : State × Option Outcome) : Option Outcome × Option Status × Bool :=
  (x.2, (x.1.objects[0]?).map DownloadState.status, (x.1.files.get? "h").isSome)

lemma run_pausedAtLastChunk : ((judged "h").run (judged "h").init pausedAtLastChunk).map remains =
    some (some ⟨some 0, .completed⟩, some .paused, true) := by decide +kernel

/-- **A pause undoes a completed download**: its status becomes `paused`, and it has a `.resume`
file again. -/
theorem pause_undoes_completed : ¬ ∀ (h : String) (run : List Label),
    (judged h).Always (Stands h) (judged h).init run := by
  intro hall
  obtain ⟨x, hrun, hremains⟩ := Option.map_eq_some_iff.1 run_pausedAtLastChunk
  simp only [remains, Prod.mk.injEq] at hremains
  obtain ⟨houtcome, hstatus, -⟩ := hremains
  obtain ⟨hobject, -⟩ := (hall "h" pausedAtLastChunk).last hrun _ houtcome
  obtain ⟨o, ho, hcompleted⟩ := hobject 0 rfl
  rw [ho, Option.map_some, Option.some.injEq, hcompleted] at hstatus
  cases hstatus

end DistriStore.DownloadManager
