import DistriStore.Lib.Machine

/-!
# A machine seen from one of its parts

When the parts of a machine do not disturb each other, what a part sees of a run is a run of its own:
the steps that it takes part in, in their order (`Machine.project`), lead its view of the first state
to its view of the last one (`run_project`).
-/

namespace Lib.Machine

variable {σ τ ℓ κ : Type*} (M : Machine σ ℓ) (N : Machine τ κ) (view : σ → τ)
  {sees : σ → ℓ → Option κ}

/-- The steps of a run that the part takes part in. -/
def project (sees : σ → ℓ → Option κ) : σ → List ℓ → List κ
  | _, [] => []
  | s, l :: ls => (sees s l).toList ++ ((M.exec s l).map fun t => project sees t ls).getD []

lemma project_cons {s t : σ} {l : ℓ} (h : M.exec s l = some t) (ls : List ℓ) :
    M.project sees s (l :: ls) = (sees s l).toList ++ M.project sees t ls := by
  rw [project, h]
  rfl

/-- What a part sees of a run is a run of the part. -/
theorem run_project {I : σ → Prop} (hinv : ∀ s l t, I s → M.exec s l = some t → I t)
    (hstep : ∀ s l t, I s → M.exec s l = some t →
      N.run (view s) (sees s l).toList = some (view t)) {ls : List ℓ} {s t : σ} (hs : I s)
    (h : M.run s ls = some t) : N.run (view s) (M.project sees s ls) = some (view t) := by
  induction ls generalizing s with
  | nil => exact congrArg (fun t => some (view t)) (Option.some.inj h)
  | cons l ls ih =>
    obtain ⟨u, hu, hrun⟩ := Option.bind_eq_some_iff.1 h
    rw [M.project_cons hu, N.run_append, hstep s l u hs hu]
    exact ih (hinv s l u hs hu) hrun

end Lib.Machine
