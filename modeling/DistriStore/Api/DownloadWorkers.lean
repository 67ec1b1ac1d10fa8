import DistriStore.Api.DownloadSteps

/-!
# One worker per file

`start_download` and `resume_download` launch a worker unless they find the status `downloading`,
so that status is the only lock on a file.  As long as nobody takes it from a live worker it
works: `Sole` says that a file has one live worker at most, which is the one in `_tasks`, and
whose object is tracked and still `downloading`.

`pause_download` checks the status before its wait and writes `paused` after it.  When a request
launches a new worker in between, the pause takes the status and the task entry from a live
worker, and the next request launches a second one (`two_workers`).  A run in which the task of
the file is over whenever a pause comes back never has more than one worker, and a pause leaves
none behind (`one_worker_of_meets`).

`Sole` comes with a weak form, in which a live worker may have lost its status to a pause.
-/

namespace DistriStore.DownloadManager

open Lib

/-! ## The lock -/

section Sole

variable (Strict : Prop) (h : String)

/-- What live worker `w` with object `i` has; in the strict form also the lock and the entry. -/
structure Owned (s : State) (w i : ℕ) : Prop where
  tracked : s.downloads.get? h = some i
  object : ∃ o : DownloadState, s.objects[i]? = some o ∧ o.fileHash = h ∧ o.status ≠ .completed ∧
    o.status ≠ .error ∧ (Strict → o.status = .downloading)
  task : Strict → s.tasks.get? h = some w

structure Sole (s : State) : Prop where
  unique : AtMostOne s h
  owned : ∀ w i, Live s h w i → Owned Strict h s w i

/-- When a waiting pause of the file goes on, the task that the manager has for the file is
over. -/
def OnTime (s : State) : Label → Prop
  | .pauseDone p _ => ∀ pause, s.pauses[p]? = some pause → pause.fileHash = h → TaskOver s h
  | _ => True

/-- A request for the file comes while a worker is live only when that worker has the lock, and
in the strict form pauses are on time. -/
structure Orderly (s : State) (l : Label) : Prop where
  request : l.request = some h → Busy s h → Active s h
  onTime : Strict → OnTime h s l

end Sole

variable {Strict : Prop} {h : String}

lemma sole_of_not_busy {s : State} (hidle : ¬ Busy s h) : Sole Strict h s where
  unique w _ i _ hlive := absurd ⟨w, i, hlive⟩ hidle
  owned w i hlive := absurd ⟨w, i, hlive⟩ hidle

lemma Sole.calm {s t : State} (hs : Sole Strict h s) (hcalm : Calm h s t) : Sole Strict h t where
  unique w w' i i' hlive hlive' :=
    hs.unique w w' i i' (hcalm.live w i hlive) (hcalm.live w' i' hlive')
  owned w i hlive := by
    obtain ⟨htracked, ⟨o, ho, hhash, hcompleted, herror, hlock⟩, htask⟩ :=
      hs.owned w i (hcalm.live w i hlive)
    obtain ⟨o', ho', hhash', hstatus⟩ := hcalm.objects i o ho hhash
    refine ⟨hcalm.downloads.trans htracked, ⟨o', ho', hhash', ?_⟩,
      fun hstrict => hcalm.tasks.trans (htask hstrict)⟩
    rw [hstatus]
    exact ⟨hcompleted, herror, hlock⟩

/-- A live worker that has lost the status keeps its object. -/
lemma Sole.halted {s t : State} {i : ℕ} (hs : Sole Strict h s) (ht : Halted h s t i)
    (hover : Strict → TaskOver s h) : Sole Strict h t where
  unique w w' j j' hlive hlive' := hs.unique w w' j j' (ht.live w j hlive) (ht.live w' j' hlive')
  owned w j hlive := by
    have hlive' := ht.live w j hlive
    obtain ⟨htracked, ⟨o, ho, hhash, hcompleted, herror, -⟩, htask⟩ := hs.owned w j hlive'
    obtain ⟨o', ho', hhash', hstatus⟩ := ht.objects j o ho
    -- in the strict form the worker would be the task that is over
    have hlax : ¬ Strict := by
      intro hstrict
      obtain ⟨worker, hw, -, -, hphase⟩ := hlive'
      exact hphase (finished_of_taskDone (hover hstrict w (htask hstrict)) hw)
    refine ⟨ht.downloads.trans htracked, ⟨o', ho', hhash'.trans hhash, ?_⟩,
      fun hstrict => absurd hstrict hlax⟩
    rw [hstatus]
    split
    · exact ⟨by simp, by simp, fun hstrict => absurd hstrict hlax⟩
    · exact ⟨hcompleted, herror, fun hstrict => absurd hstrict hlax⟩

/-- The file of a worker that has ended is idle. -/
lemma Sole.not_busy_of_ended {s t : State} {w i : ℕ} {outcome : Option Status}
    (hs : Sole Strict h s) (hlive : Live s h w i) (ht : Ended h s t w i outcome) : ¬ Busy t h := by
  rintro ⟨w', i', hlive'⟩
  obtain ⟨hlive', hne⟩ := ht.live w' i' hlive'
  exact hne (hs.unique w' w i' i hlive' hlive)

/-- The only worker after a launch on an idle file. -/
lemma Launched.live {s t : State} {i : ℕ} (ht : Launched h s t i) (hidle : ¬ Busy s h) {w j : ℕ}
    (hlive : Live t h w j) : w = s.workers.length ∧ j = i := by
  obtain ⟨worker, hw, hhash, hobj, hphase⟩ := hlive
  obtain ⟨manifest, hworkers⟩ := ht.workers
  rw [hworkers] at hw
  rcases getElem?_concat_cases hw with hw | ⟨hlast, rfl⟩
  · exact absurd ⟨w, worker.obj, worker, hw, hhash, rfl, hphase⟩ hidle
  · exact ⟨hlast, hobj.symm⟩

lemma Launched.inv_object {s t : State} {i : ℕ} (ht : Launched h s t i)
    (hi : Inv ∅ (fun _ => 0) t) : ∃ o : DownloadState, t.objects[i]? = some o ∧
      o.fileHash = h ∧ o.status = .downloading := by
  obtain ⟨o, ho, hstatus⟩ := ht.object
  obtain ⟨o', ho', hhash⟩ := hi.tracked h i (by rw [ht.downloads, Dict.get?_set_self])
  rw [ho, Option.some.injEq] at ho'
  exact ⟨o, ho, ho' ▸ hhash, hstatus⟩

lemma Sole.launched {s t : State} {i : ℕ} (hi : Inv ∅ (fun _ => 0) t)
    (ht : Launched h s t i) (hidle : ¬ Busy s h) : Sole Strict h t where
  unique w w' j j' hlive hlive' := by
    rw [(ht.live hidle hlive).1, (ht.live hidle hlive').1]
  owned w j hlive := by
    obtain ⟨rfl, rfl⟩ := ht.live hidle hlive
    obtain ⟨o, ho, hhash, hstatus⟩ := ht.inv_object hi
    refine ⟨by rw [ht.downloads, Dict.get?_set_self], ⟨o, ho, hhash, ?_⟩,
      fun _ => by rw [ht.tasks, Dict.get?_set_self]⟩
    rw [hstatus]
    exact ⟨by simp, by simp, fun _ => rfl⟩

/-- Clearing drops the tracked object of no live worker. -/
lemma Sole.clear {s : State} (hs : Sole Strict h s) : Sole Strict h (clearCompleted s) := by
  obtain ⟨hobjects, hworkers, -, ⟨hdownloads, htasks⟩ | ⟨-, i, o, hdown, ho, hover⟩⟩ :=
    clearCompleted_spec s h
  · refine hs.calm ⟨fun w i => ?_, hdownloads, htasks, fun j o ho hhash =>
      ⟨o, by rw [hobjects, ho], hhash, rfl⟩⟩
    rw [Live, Live, hworkers]
    exact id
  · refine sole_of_not_busy ?_
    rintro ⟨w, j, hlive⟩
    rw [Live, hworkers] at hlive
    obtain ⟨htracked, ⟨o', ho', -, hcompleted, herror, -⟩, -⟩ := hs.owned w j hlive
    rw [hdown, Option.some.injEq] at htracked
    subst htracked
    rw [ho, Option.some.injEq] at ho'
    subst ho'
    exact hover.elim hcompleted herror

/-- **Step lemma.** -/
lemma sole_exec {s t : State} {l : Label} (hi : Inv ∅ (fun _ => 0) s) (hc : Control s)
    (hs : Sole Strict h s) (ht : machine.exec s l = some t) (horderly : Orderly Strict h s l) :
    Sole Strict h t := by
  have hi' : Inv ∅ (fun _ => 0) t := inv_step hi ht
  rw [machine_exec] at ht
  rcases fileStep h hi hc ht with hapart | ⟨i, hl, hlaunched⟩ | ⟨w, i, -, hcalm⟩ |
    ⟨w, i, hlive, hended⟩ | ⟨i, -, hover, hhalted⟩ | ⟨p, written, pause, rfl, hp, hhash, hhalted⟩ |
    ⟨-, rfl⟩ | hcrash
  · exact hs.calm hapart.toCalm
  · exact Sole.launched hi' hlaunched fun hbusy => hlaunched.idle (horderly.request hl hbusy)
  · exact hs.calm hcalm
  · exact sole_of_not_busy (hs.not_busy_of_ended hlive hended)
  · exact hs.halted hhalted fun _ => hover
  · exact hs.halted hhalted fun hstrict => horderly.onTime hstrict pause hp hhash
  · exact hs.clear
  · exact sole_of_not_busy (crashes_cases hi hcrash ht h).1

/-! ## Pauses that have returned -/

/-- What the requests for one file have seen. -/
structure Calls where
  /-- How many waiting pauses there were at the last `start_download` or `resume_download`. -/
  since : ℕ := 0
  /-- A pause that was called since then, and found the download active, has returned. -/
  returned : Bool := false
  deriving DecidableEq

instance (s : State) (h : String) : Decidable (Active s h) :=
  decidable_of_iff ((s.downloads.get? h).any fun i => (s.objects[i]?).any fun o =>
    o.status = .downloading) <| by simp [Active, Option.any_eq_true]

def Calls.observe (h : String) (g : Calls) (s : State) (l : Label) (t : State) : Calls :=
  match l with
  | .start h' _ _ _ => if h' = h then { since := t.pauses.length } else g
  | .resume h' _ _ => if h' = h then { since := t.pauses.length } else g
  | .pause h' _ =>
    if h' = h ∧ Active s h ∧ t.pauses.length = s.pauses.length then { g with returned := true }
    else g
  | .pauseDone p _ =>
    if g.since ≤ p ∧ (s.pauses[p]?).any fun pause => pause.fileHash = h then
      { g with returned := true }
    else g
  | .crash => {}
  | .crashInMerge _ _ => {}
  | _ => g

/-- The manager with the calls for one file. -/
def called (h : String) : Machine (State × Calls) Label := machine.observed {} (Calls.observe h)

/-- At most one worker of the file is unfinished, and none after a pause that no request came
after. -/
structure OneWorker (h : String) (x : State × Calls) : Prop where
  single : AtMostOne x.1 h
  paused : x.2.returned = true → ¬ Busy x.1 h

lemma Sole.active_of_busy {s : State} (hs : Sole True h s) (hbusy : Busy s h) : Active s h := by
  obtain ⟨w, i, hlive⟩ := hbusy
  obtain ⟨htracked, ⟨o, ho, -, -, -, hlock⟩, -⟩ := hs.owned w i hlive
  exact ⟨i, o, htracked, ho, hlock trivial⟩

lemma Sole.orderly {s : State} {l : Label} (hs : Sole True h s) (hl : OnTime h s l) :
    Orderly True h s l where
  request _ := hs.active_of_busy
  onTime _ := hl

lemma Sole.not_busy_of_taskOver {s : State} (hs : Sole True h s) (hover : TaskOver s h) :
    ¬ Busy s h := by
  rintro ⟨w, i, hlive⟩
  obtain ⟨worker, hw, -, -, hphase⟩ := id hlive
  exact hphase (finished_of_taskDone (hover w ((hs.owned w i hlive).task trivial)) hw)

/-- Requests alone make a file busy. -/
lemma busy_of_exec {s t : State} {l : Label} (hi : Inv ∅ (fun _ => 0) s) (hc : Control s)
    (ht : exec s l = some t) (hother : l.request ≠ some h) (hbusy : Busy t h) : Busy s h := by
  obtain ⟨w, i, hlive⟩ := hbusy
  refine ⟨w, i, ?_⟩
  rcases fileStep h hi hc ht with hapart | ⟨_, hl, -⟩ | ⟨_, _, -, hcalm⟩ | ⟨_, _, -, hended⟩ |
    ⟨_, -, -, hhalted⟩ | ⟨_, _, _, -, -, -, hhalted⟩ | ⟨-, rfl⟩ | hcrash
  · exact hapart.live w i hlive
  · exact absurd hl hother
  · exact hcalm.live w i hlive
  · exact (hended.live w i hlive).1
  · exact hhalted.live w i hlive
  · exact hhalted.live w i hlive
  · rw [Live, (clearCompleted_spec s h).2.1] at hlive
    exact hlive
  · exact absurd ⟨w, i, hlive⟩ (crashes_cases hi hcrash ht h).1

/-- A pause that has returned leaves no worker behind, until the next request. -/
lemma not_busy_of_returned {s t : State} {l : Label} {g : Calls} (hi : Inv ∅ (fun _ => 0) s)
    (hc : Control s) (hs : Sole True h s) (hg : g.returned = true → ¬ Busy s h)
    (ht : exec s l = some t) (hl : OnTime h s l)
    (hreturned : (g.observe h s l t).returned = true) : ¬ Busy t h := by
  have hquiet (hother : l.request ≠ some h) (hidle : ¬ Busy s h) : ¬ Busy t h :=
    fun hbusy => hidle (busy_of_exec hi hc ht hother hbusy)
  cases l with
  | start h' d password written =>
    unfold Calls.observe at hreturned
    dsimp only at hreturned
    split at hreturned
    · cases hreturned
    · next hne => exact hquiet (by simpa [Label.request] using hne) (hg hreturned)
  | resume h' password d =>
    unfold Calls.observe at hreturned
    dsimp only at hreturned
    split at hreturned
    · cases hreturned
    · next hne => exact hquiet (by simpa [Label.request] using hne) (hg hreturned)
  | pause h' written =>
    unfold Calls.observe at hreturned
    dsimp only at hreturned
    refine hquiet (by simp [Label.request]) ?_
    split at hreturned
    · next hnow =>
      obtain ⟨rfl, hactive, hlength⟩ := hnow
      obtain rfl := Option.some.inj ht
      rcases pauseDownload_cases hi h' written with ⟨hno, -⟩ | ⟨-, ⟨hwaits, -⟩ | ⟨-, hover, -⟩⟩
      · exact absurd hactive hno
      · omega
      · exact hs.not_busy_of_taskOver hover
    · exact hg hreturned
  | pauseDone p written =>
    unfold Calls.observe at hreturned
    dsimp only at hreturned
    refine hquiet (by simp [Label.request]) ?_
    split at hreturned
    · next hown =>
      obtain ⟨pause, hp, hhash⟩ := (Option.any_eq_true ..).1 hown.2
      exact hs.not_busy_of_taskOver (hl pause hp (by simpa using hhash))
    · exact hg hreturned
  | crash => cases hreturned
  | crashInMerge w written => cases hreturned
  | _ => exact hquiet (by simp [Label.request]) (hg hreturned)

/-- What the manager keeps while pauses come back on time. -/
structure Kept (h : String) (x : State × Calls) : Prop where
  inv : Inv ∅ (fun _ => 0) x.1
  control : Control x.1
  sole : Sole True h x.1
  returned : x.2.returned = true → ¬ Busy x.1 h

lemma kept_init (h : String) : Kept h (called h).init where
  inv := inv_init
  control := control_init
  sole := by
    refine sole_of_not_busy ?_
    rintro ⟨w, i, worker, hw, -⟩
    simp [called, Machine.observed, machine] at hw
  returned := by simp [called, Machine.observed]

lemma Kept.step {x y : State × Calls} {l : Label} (hx : Kept h x)
    (hy : (called h).exec x l = some y) (hl : OnTime h x.1 l) : Kept h y := by
  obtain ⟨ht, hobserve⟩ := Machine.exec_observed hy
  refine ⟨inv_step hx.inv ht, control_exec hx.inv hx.control ht,
    sole_exec hx.inv hx.control hx.sole ht (hx.sole.orderly hl), ?_⟩
  rw [hobserve]
  exact not_busy_of_returned hx.inv hx.control hx.sole hx.returned ht hl

/-- **At most one worker per file**, and none after a pause, in every run in which the task of the
file is over whenever a pause of it goes on after its wait. -/
theorem one_worker_of_meets (h : String) (run : List Label)
    (hmeets : (called h).Meets (fun x => OnTime h x.1) (called h).init run) :
    (called h).Always (OneWorker h) (called h).init run := by
  have hkept : (called h).Always (Kept h) (called h).init run :=
    Machine.always_of_meets (fun _ _ _ hx hy hl => hx.step hy hl) (kept_init h) hmeets
  exact hkept.imp fun x hx => ⟨hx.sole.unique, hx.returned⟩

instance (s : State) (h : String) : Decidable (TaskOver s h) :=
  decidable_of_iff ((s.tasks.get? h).all (taskDone s)) <| by
    cases htask : s.tasks.get? h <;> simp [TaskOver, htask]

instance (h : String) (s : State) : ∀ l, Decidable (OnTime h s l)
  | .pauseDone p _ =>
    decidable_of_iff (∀ pause ∈ s.pauses[p]?, pause.fileHash = h → TaskOver s h) <| Iff.rfl
  | .start _ _ _ _ | .pause _ _ | .pauseTimeout _ | .resume _ _ _ | .clear | .begin _ _
  | .beginRaises _ _ _ _ | .fetched _ _ _ | .merged _ _ _ | .cancelled _ _ | .crash
  | .crashInMerge _ _ => .isTrue trivial

/-- A download that is paused, stops at its next chunk, and is resumed. -/
def pausedAndResumed : List Label :=
  [.start "h" twoChunkManifest "" true, .begin 0 true, .pause "h" true, .fetched 0 none true,
    .pauseDone 0 true, .resume "h" "" (some twoChunkManifest), .begin 1 true]

theorem one_worker_pausedAndResumed :
    (called "h").Always (OneWorker "h") (called "h").init pausedAndResumed :=
  one_worker_of_meets "h" pausedAndResumed (by decide +kernel)

/-- The first chunk fails while a pause waits; the download is resumed before the pause goes on,
and again afterwards. -/
def relaunched : List Label :=
  [.start "h" twoChunkManifest "" true, .begin 0 true, .pause "h" true,
    .fetched 0 (some "timeout") true, .resume "h" "" (some twoChunkManifest), .begin 1 true,
    .pauseDone 0 true, .resume "h" "" (some twoChunkManifest), .begin 2 true]

/-- The file, the object and the end of each worker. -/
def taskList (x : State × Calls) : List (String × ℕ × Bool) :=
  x.1.workers.map fun worker => (worker.fileHash, worker.obj, worker.phase = .finished)

lemma run_relaunched : ((called "h").run (called "h").init relaunched).map taskList =
    some [("h", 0, true), ("h", 0, false), ("h", 0, false)] := by decide +kernel

lemma live_of_taskList {x : State × Calls} {w i : ℕ}
    (htask : (taskList x)[w]? = some (h, i, false)) : Live x.1 h w i := by
  rw [taskList, List.getElem?_map, Option.map_eq_some_iff] at htask
  obtain ⟨worker, hw, heq⟩ := htask
  simp only [Prod.mk.injEq, decide_eq_false_iff_not] at heq
  exact ⟨worker, hw, heq.1, heq.2.1, heq.2.2⟩

/-- **Two workers download the same file** after a pause that went on too late. -/
theorem two_workers : ¬ ∀ (h : String) (run : List Label),
    (called h).Always (OneWorker h) (called h).init run := by
  intro hall
  obtain ⟨x, hrun, htasks⟩ := Option.map_eq_some_iff.1 run_relaunched
  have hsingle := ((hall "h" relaunched).last hrun).single
  have hone : Live x.1 "h" 1 0 := live_of_taskList (by rw [htasks]; rfl)
  have htwo : Live x.1 "h" 2 0 := live_of_taskList (by rw [htasks]; rfl)
  have heq := hsingle 1 2 0 0 hone htwo
  omega

end DistriStore.DownloadManager
