import Mathlib.Logic.Function.Basic
import Traintime.Lib.Transition

/-!
# Reconciliation by several workers

Any number of workers bring a shared state in line with some goals. A worker looks at the state once,
plans fixes for the goals that are not met, and carries them out one after the other, while the state
changes under it. It may stop at any time.

If no fix undoes a goal that is met, goals that are met stay met, and all goals are met once any one
worker is through with its plan, however the others interfere and wherever they stop.

## Main definitions

* `Reconcile.State`, `Reconcile.step`: the workers and their steps.
* `Reconcile.Keeps`, `Reconcile.Covers`: a fix that undoes nothing, and a plan for what is not met.
* `Reconcile.Planned`: the steps in which plans are such.

## Main results

* `Reconcile.met_mono`: goals that are met stay met.
* `Reconcile.met_of_done`: a worker that is through has met all goals.
-/

namespace Reconcile

open Function

variable {σ φ γ ι : Type*}

/-- A worker, before it has looked, with the fixes that are left, or stopped before it was
through. -/
inductive Job (φ : Type*)
  | waiting
  | working (rest : List φ)
  | stopped

/-- The shared state and the workers. -/
structure State (σ φ ι : Type*) where
  shared : σ
  job : ι → Job φ

/-- No worker has looked yet. -/
def State.init (shared : σ) : State σ φ ι := ⟨shared, fun _ => .waiting⟩

/-- What a worker does: it looks at the shared state and makes a plan, applies the next fix of its
plan, or stops. -/
inductive Action (φ ι : Type*)
  | plan (i : ι) (fixes : List φ)
  | fix (i : ι)
  | stop (i : ι)

section Workers

variable (apply : σ → φ → σ) (met : σ → γ → Prop)

/-- The fix undoes no goal. -/
def Keeps (f : φ) : Prop := ∀ s g, met s g → met (apply s f) g

/-- Every goal is met or has a fix that meets it whenever it is applied. -/
def Covers (s : σ) (fixes : List φ) : Prop :=
  ∀ g, met s g ∨ ∃ f ∈ fixes, ∀ s', met (apply s' f) g

/-- A plan that is made in this step covers the goals and undoes none. -/
def Planned (s : State σ φ ι) (a : Action φ ι) : Prop :=
  ∀ i fixes, a = .plan i fixes →
    Covers apply met s.shared fixes ∧ ∀ f ∈ fixes, Keeps apply met f

/-- Every worker has a plan for what is not met. -/
def OnPlan (s : State σ φ ι) : Prop :=
  ∀ i rest, s.job i = .working rest →
    Covers apply met s.shared rest ∧ ∀ f ∈ rest, Keeps apply met f

variable {apply met} {s s' : State σ φ ι} {a : Action φ ι} {f : φ} {rest : List φ}

/-- What a worker still has to do stays enough when another one applies its fix. -/
theorem Covers.of_keeps {t : σ} (h : Covers apply met t rest) (hf : Keeps apply met f) :
    Covers apply met (apply t f) rest := fun g => (h g).imp_left (hf t g)

/-- When it applies its own first fix, the others are enough. -/
theorem Covers.tail {t : σ} (h : Covers apply met t (f :: rest)) (hf : Keeps apply met f) :
    Covers apply met (apply t f) rest := by
  intro g
  rcases h g with hmet | ⟨f', hmem, hfix⟩
  · exact .inl (hf t g hmet)
  · rcases List.mem_cons.1 hmem with rfl | hmem
    · exact .inl (hfix t)
    · exact .inr ⟨f', hmem, hfix⟩

/-- A worker that is through has met all goals. -/
theorem met_of_done (h : OnPlan apply met s) {i : ι} (hi : s.job i = .working []) (g : γ) :
    met s.shared g := by
  rcases (h i [] hi).1 g with hmet | ⟨f, hf, -⟩
  · exact hmet
  · cases hf

variable [DecidableEq ι]

/-- The state after an action, if the action is possible. -/
def step (apply : σ → φ → σ) (s : State σ φ ι) : Action φ ι → Option (State σ φ ι)
  | .plan i fixes =>
    match s.job i with
    | .waiting => some { s with job := update s.job i (.working fixes) }
    | _ => none
  | .fix i =>
    match s.job i with
    | .working (f :: rest) => some ⟨apply s.shared f, update s.job i (.working rest)⟩
    | _ => none
  | .stop i =>
    match s.job i with
    | .waiting | .working (_ :: _) => some { s with job := update s.job i .stopped }
    | _ => none

theorem OnPlan.step (h : OnPlan apply met s) (hplanned : Planned apply met s a)
    (ha : step apply s a = some s') : OnPlan apply met s' := by
  intro i rest hi
  cases a with
  | plan j fixes =>
    simp only [Reconcile.step] at ha
    split at ha <;> cases ha
    by_cases hij : i = j
    · subst hij
      obtain rfl : fixes = rest := by simpa using hi
      exact hplanned i fixes rfl
    · exact h i rest (by simpa [hij] using hi)
  | fix j =>
    simp only [Reconcile.step] at ha
    split at ha
    next f rest' hj =>
      cases ha
      obtain ⟨hcovers, hkeeps⟩ := h j _ hj
      have hf : Keeps apply met f := hkeeps f List.mem_cons_self
      by_cases hij : i = j
      · subst hij
        obtain rfl : rest' = rest := by simpa using hi
        exact ⟨hcovers.tail hf, fun f' hf' => hkeeps f' (List.mem_cons_of_mem f hf')⟩
      · obtain ⟨hcovers', hkeeps'⟩ := h i rest (by simpa [hij] using hi)
        exact ⟨hcovers'.of_keeps hf, hkeeps'⟩
    next => cases ha
  | stop j =>
    have hjob : s'.job = update s.job j .stopped ∧ s'.shared = s.shared := by
      simp only [Reconcile.step] at ha
      split at ha <;> cases ha <;> exact ⟨rfl, rfl⟩
    rw [hjob.1] at hi
    rw [hjob.2]
    by_cases hij : i = j
    · subst hij
      simp at hi
    · exact h i rest (by simpa [hij] using hi)

/-- In every run whose plans are good every worker is on plan. -/
theorem onPlan {t : σ}
    (h : Transition.ReachableVia (step apply) (Planned apply met) (State.init t) s) :
    OnPlan apply met s :=
  h.invariant (I := OnPlan apply met) (fun _ _ => nofun) fun _ _ _ _ hI hok ha => hI.step hok ha

/-- Goals that are met stay met. -/
theorem met_step (h : OnPlan apply met s) (ha : step apply s a = some s') {g : γ}
    (hg : met s.shared g) : met s'.shared g := by
  cases a with
  | plan j fixes =>
    simp only [Reconcile.step] at ha
    split at ha <;> cases ha
    exact hg
  | fix j =>
    simp only [Reconcile.step] at ha
    split at ha
    next f rest hj =>
      cases ha
      exact (h j _ hj).2 f List.mem_cons_self _ g hg
    next => cases ha
  | stop j =>
    simp only [Reconcile.step] at ha
    split at ha <;> cases ha <;> exact hg

theorem met_mono {t : σ}
    (h : Transition.ReachableVia (step apply) (Planned apply met) (State.init t) s) {g : γ}
    (hg : met t g) : met s.shared g :=
  h.invariant (I := fun s => met s.shared g) hg fun _ _ _ hr hI _ ha => met_step (onPlan hr) ha hI

end Workers

end Reconcile
