import Mathlib.Algebra.GroupWithZero.Nat
import Mathlib.Data.List.Induction
import Mathlib.Logic.Relation

/-!
# Transition functions and their runs

A system is given by a partial transition function `step : σ → α → Option σ`: in state `s` the
action `a` is possible when `step s a` is a state. Runs are lists of actions. A condition
`ok : σ → α → Prop` on the state before a step and its action selects the runs all of whose
steps meet it, so that an invariant of such runs is an invariant under a condition on the
schedule.

## Main definitions

* `Transition.ReachableVia`: reachable by steps that all meet a condition.
* `Transition.Reachable`: reachable by any steps.
* `Transition.run`: the state after a list of actions.

## Main results

* `Transition.ReachableVia.invariant`: what holds initially and is kept by every step that meets
  the condition holds in every state reached.
* `Transition.reachable_of_run`: the states after the possible lists of actions are reached.
* `Transition.invariant_along_iff`: an invariant that each step keeps exactly if it is not bad.
-/

/-- Two parties are numbered 0 and 1. -/
instance (priority := high) neZero_two : NeZero 2 := ⟨by decide⟩

instance (priority := high) neZero_three : NeZero 3 := ⟨by decide⟩

namespace Transition

variable {σ α : Type*} (step : σ → α → Option σ)

/-- One step whose state and action meet `ok`. -/
def StepVia (ok : σ → α → Prop) (s s' : σ) : Prop :=
  ∃ a, ok s a ∧ step s a = some s'

/-- The state `s` is reached from `s₀` by steps that all meet `ok`. -/
def ReachableVia (ok : σ → α → Prop) (s₀ s : σ) : Prop :=
  Relation.ReflTransGen (StepVia step ok) s₀ s

/-- The state `s` is reached from `s₀` by some run. -/
def Reachable (s₀ s : σ) : Prop :=
  ReachableVia step (fun _ _ => True) s₀ s

/-- The state after a list of actions, if all of them are possible in turn. -/
def run : List α → σ → Option σ
  | [], s => some s
  | a :: as, s => (step s a).bind (run as)

variable {step}

namespace ReachableVia

variable {ok : σ → α → Prop} {s₀ s s' : σ}

theorem refl : ReachableVia step ok s₀ s₀ :=
  Relation.ReflTransGen.refl

theorem tail {a : α} (h : ReachableVia step ok s₀ s) (hok : ok s a) (ha : step s a = some s') :
    ReachableVia step ok s₀ s' :=
  Relation.ReflTransGen.tail h ⟨a, hok, ha⟩

/-- The invariant rule: the reachability of the state is at hand in the step case, so that an
invariant already proved can be used there. -/
theorem invariant {I : σ → Prop} (h : ReachableVia step ok s₀ s) (h₀ : I s₀)
    (hstep : ∀ s a s', ReachableVia step ok s₀ s → I s → ok s a → step s a = some s' → I s') :
    I s := by
  induction h with
  | refl => exact h₀
  | tail hr hst ih =>
    obtain ⟨a, hok, ha⟩ := hst
    exact hstep _ a _ hr ih hok ha

theorem trans {s'' : σ} (h : ReachableVia step ok s₀ s') (h' : ReachableVia step ok s' s'') :
    ReachableVia step ok s₀ s'' :=
  Relation.ReflTransGen.trans h h'

theorem mono {ok' : σ → α → Prop} (h : ReachableVia step ok s₀ s)
    (hle : ∀ s a, ok s a → ok' s a) : ReachableVia step ok' s₀ s :=
  Relation.ReflTransGen.mono (fun _ _ ⟨a, hok, ha⟩ => ⟨a, hle _ a hok, ha⟩) _ _ h

theorem reachable (h : ReachableVia step ok s₀ s) : Reachable step s₀ s :=
  h.mono fun _ _ _ => trivial

end ReachableVia

namespace Reachable

variable {s₀ s s' : σ}

theorem refl : Reachable step s₀ s₀ :=
  ReachableVia.refl

theorem tail {a : α} (h : Reachable step s₀ s) (ha : step s a = some s') :
    Reachable step s₀ s' :=
  ReachableVia.tail h trivial ha

theorem trans {s'' : σ} (h : Reachable step s₀ s') (h' : Reachable step s' s'') :
    Reachable step s₀ s'' :=
  ReachableVia.trans h h'

/-- The invariant rule for all runs. -/
theorem invariant {I : σ → Prop} (h : Reachable step s₀ s) (h₀ : I s₀)
    (hstep : ∀ s a s', Reachable step s₀ s → I s → step s a = some s' → I s') : I s :=
  ReachableVia.invariant h h₀ fun s a s' hr hI _ ha => hstep s a s' hr hI ha

end Reachable

/-! ### Lists of actions -/

theorem run_append (as bs : List α) (s : σ) :
    run step (as ++ bs) s = (run step as s).bind (run step bs) := by
  induction as generalizing s with
  | nil => rfl
  | cons a as ih =>
    cases h : step s a with
    | none => simp [run, h]
    | some s' => simp [run, h, ih]

theorem run_concat {as : List α} {a : α} {s s' : σ} :
    run step (as ++ [a]) s = some s' ↔ ∃ t, run step as s = some t ∧ step t a = some s' := by
  rw [run_append, Option.bind_eq_some_iff]
  refine exists_congr fun t => and_congr_right fun _ => ?_
  cases h : step t a <;> simp [run, h]

theorem reachable_of_run {as : List α} {s s' : σ} (h : run step as s = some s') :
    Reachable step s s' := by
  induction as using List.reverseRecOn generalizing s' with
  | nil =>
    obtain rfl : s = s' := by simpa [run] using h
    exact Reachable.refl
  | append_singleton as a ih =>
    obtain ⟨t, ht, ha⟩ := run_concat.1 h
    exact (ih ht).tail ha

/-- A run of actions that meet the condition in every state. -/
theorem reachableVia_of_run {ok : σ → α → Prop} {as : List α} {s s' : σ}
    (h : run step as s = some s') (hok : ∀ a ∈ as, ∀ t, ok t a) : ReachableVia step ok s s' := by
  induction as using List.reverseRecOn generalizing s' with
  | nil =>
    obtain rfl : s = s' := by simpa [run] using h
    exact ReachableVia.refl
  | append_singleton as a ih =>
    obtain ⟨t, ht, ha⟩ := run_concat.1 h
    have hvia := ih ht fun b hb => hok b (List.mem_append_left _ hb)
    exact hvia.tail (hok a (by simp) t) ha

/-- A run all of whose actions but one meet the condition in every state. -/
theorem reachableVia_of_run_append {ok : σ → α → Prop} {as bs : List α} {a : α} {s s' : σ}
    (h : run step (as ++ a :: bs) s = some s') (has : ∀ b ∈ as, ∀ t, ok t b)
    (ha : ∀ t, run step as s = some t → ok t a) (hbs : ∀ b ∈ bs, ∀ t, ok t b) :
    ReachableVia step ok s s' := by
  rw [run_append, Option.bind_eq_some_iff] at h
  obtain ⟨t, ht, h⟩ := h
  obtain ⟨u, hu, h⟩ := Option.bind_eq_some_iff.1 h
  have hbefore : ReachableVia step ok s u := (reachableVia_of_run ht has).tail (ha t ht) hu
  exact hbefore.trans (reachableVia_of_run h hbs)

theorem exists_run_of_prefix {as bs : List α} {s s' : σ} (h : run step as s = some s')
    (hb : bs <+: as) : ∃ t, run step bs s = some t := by
  obtain ⟨cs, rfl⟩ := hb
  rw [run_append, Option.bind_eq_some_iff] at h
  obtain ⟨t, ht, -⟩ := h
  exact ⟨t, ht⟩

/-- The invariant rule for a state together with the actions that led to it. -/
theorem run_invariant {I : List α → σ → Prop} {s₀ : σ} (h₀ : I [] s₀)
    (hstep : ∀ as a s s', run step as s₀ = some s → I as s → step s a = some s' →
      I (as ++ [a]) s') {as : List α} {s : σ} (h : run step as s₀ = some s) : I as s := by
  induction as using List.reverseRecOn generalizing s with
  | nil =>
    obtain rfl : s₀ = s := by simpa [run] using h
    exact h₀
  | append_singleton as a ih =>
    obtain ⟨t, ht, ha⟩ := run_concat.1 h
    exact hstep as a t s ht (ih ht) ha

/-- When each step keeps an invariant exactly if it is not bad, a run keeps the invariant
exactly if none of its steps is bad. -/
theorem invariant_along_iff {I : σ → Prop} {bad : σ → α → Prop} {as : List α} {s₀ s : σ}
    (h : run step as s₀ = some s) (h₀ : I s₀)
    (hstep : ∀ t a t', Reachable step s₀ t → I t → step t a = some t' → (I t' ↔ ¬ bad t a)) :
    (∀ bs t, bs <+: as → run step bs s₀ = some t → I t) ↔
      ∀ bs a t, bs ++ [a] <+: as → run step bs s₀ = some t → ¬ bad t a := by
  constructor
  · intro hI bs a t hb ht
    obtain ⟨t', ht'⟩ := exists_run_of_prefix h hb
    obtain ⟨u, hu, ha⟩ := run_concat.1 ht'
    obtain rfl : t = u := Option.some.inj (ht.symm.trans hu)
    have hIt : I t := hI bs t ((List.prefix_append _ _).trans hb) ht
    exact (hstep t a t' (reachable_of_run ht) hIt ha).1 (hI _ t' hb ht')
  · intro hbad bs
    induction bs using List.reverseRecOn with
    | nil =>
      intro t _ ht
      obtain rfl : s₀ = t := by simpa [run] using ht
      exact h₀
    | append_singleton bs a ih =>
      intro t hb ht
      obtain ⟨u, hu, ha⟩ := run_concat.1 ht
      have hIu : I u := ih u ((List.prefix_append _ _).trans hb) hu
      exact (hstep u a t (reachable_of_run hu) hIu ha).2 (hbad bs a u hb hu)

/-- A run on given actions is evaluated together with a test of the state it ends in. -/
theorem exists_run_of_any {p : σ → Prop} [DecidablePred p] {as : List α} {s : σ}
    (h : (run step as s).any (fun t => decide (p t)) = true) :
    ∃ t, run step as s = some t ∧ p t := by
  obtain ⟨t, ht, hp⟩ := (Option.any_eq_true _ _).1 h
  exact ⟨t, ht, of_decide_eq_true hp⟩

end Transition
