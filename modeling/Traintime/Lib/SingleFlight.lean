import Mathlib.Logic.Function.Basic
import Mathlib.Tactic.SplitIfs

/-!
# Single flight

Requests that want the same work agree on one of them to do it. A registry maps a key to the
request that works on it. A request finding its key registered waits for the owner, any other
request registers itself, works, releases its key and then wakes those that wait for it. The
registry and the waiters are only read and written in the steps below; the work itself is no step.
A request may leave at any time. One that leaves while its key is registered leaves the key
behind.

## Main definitions

* `SingleFlight.Role`, `SingleFlight.Registry`: a request's part in the protocol, and the state.
* `SingleFlight.Step`: the steps of the protocol, over any schedule.
* `SingleFlight.Exclusive`: the invariant of all runs.
* `SingleFlight.Attended`: the invariant of the runs in which no owner leaves.

## Main results

* `SingleFlight.Exclusive.step`, `SingleFlight.Attended.step`: every step keeps the invariants.
* `SingleFlight.Exclusive.leading_unique`: at most one request works for a key.
* `SingleFlight.not_attended_of_crash`: an owner that leaves ends `Attended`.
-/

namespace SingleFlight

variable {κ ρ : Type*}

/-- What a request is to the registry. -/
inductive Role (ρ : Type*)
  /-- Not yet or no longer part of the protocol. -/
  | out
  /-- Working, with its key registered. -/
  | leading
  /-- Its key is released, the waiters are not woken yet. -/
  | releasing
  | waiting (leader : ρ)
  | woken (leader : ρ)
  /-- Left while its key was registered. -/
  | gone

/-- The registered owner of every key and the role of every request. -/
structure Registry (κ ρ : Type*) where
  owner : κ → Option ρ
  role : ρ → Role ρ

/-- A role after `r` has woken those that wait for it. -/
def Role.wake [DecidableEq ρ] (r : ρ) : Role ρ → Role ρ
  | .waiting n => if n = r then .woken n else .waiting n
  | x => x

section Wake

variable [DecidableEq ρ] {r n : ρ} {x : Role ρ}

@[simp, grind =] theorem Role.wake_eq_leading_iff : x.wake r = .leading ↔ x = .leading := by
  cases x with
  | waiting l =>
    simp only [Role.wake]
    split_ifs <;> simp
  | _ => simp [Role.wake]

@[simp, grind =] theorem Role.wake_eq_releasing_iff : x.wake r = .releasing ↔ x = .releasing := by
  cases x with
  | waiting l =>
    simp only [Role.wake]
    split_ifs <;> simp
  | _ => simp [Role.wake]

@[simp, grind =] theorem Role.wake_eq_gone_iff : x.wake r = .gone ↔ x = .gone := by
  cases x with
  | waiting l =>
    simp only [Role.wake]
    split_ifs <;> simp
  | _ => simp [Role.wake]

@[simp, grind =] theorem Role.wake_eq_waiting_iff :
    x.wake r = .waiting n ↔ x = .waiting n ∧ n ≠ r := by
  cases x with
  | waiting l => simp only [Role.wake]; split_ifs <;> grind
  | _ => simp [Role.wake]

@[simp, grind =] theorem Role.wake_eq_woken_iff :
    x.wake r = .woken n ↔ x = .woken n ∨ x = .waiting r ∧ n = r := by
  cases x with
  | waiting l => simp only [Role.wake]; split_ifs <;> grind
  | _ => simp [Role.wake]

end Wake

section Steps

variable [DecidableEq κ] [DecidableEq ρ] (keyOf : ρ → κ)

/-- The steps of the protocol. -/
inductive Step : Registry κ ρ → Registry κ ρ → Prop
  | idle (g) : Step g g
  | join (g) (r n : ρ) (hr : g.role r = .out) (hn : g.owner (keyOf r) = some n) :
      Step g { g with role := Function.update g.role r (.waiting n) }
  | register (g) (r : ρ) (hr : g.role r = .out) (hn : g.owner (keyOf r) = none) :
      Step g ⟨Function.update g.owner (keyOf r) (some r), Function.update g.role r .leading⟩
  | release (g) (r : ρ) (hr : g.role r = .leading) :
      Step g ⟨Function.update g.owner (keyOf r) none, Function.update g.role r .releasing⟩
  | wake (g) (r : ρ) (hr : g.role r = .releasing) :
      Step g { g with role := Function.update (fun q => (g.role q).wake r) r .out }
  | leave (g) (r : ρ) (hr : g.role r ≠ .leading) (hr' : g.role r ≠ .releasing)
      (hg : g.role r ≠ .gone) : Step g { g with role := Function.update g.role r .out }
  | crash (g) (r : ρ) (hr : g.role r = .leading) :
      Step g { g with role := Function.update g.role r .gone }

end Steps

variable {keyOf : ρ → κ} {g g' : Registry κ ρ}

/-- The invariant of all runs: the owner of a key is a request for it that works or has left, a
working request owns its key, and a request waits for a request of its own key that has not
woken its waiters yet. -/
structure Exclusive (keyOf : ρ → κ) (g : Registry κ ρ) : Prop where
  owner_of_leading : ∀ r, g.role r = .leading → g.owner (keyOf r) = some r
  key_of_owner : ∀ k n, g.owner k = some n → keyOf n = k
  role_of_owner : ∀ k n, g.owner k = some n → g.role n = .leading ∨ g.role n = .gone
  key_of_waiting : ∀ r n, g.role r = .waiting n → keyOf n = keyOf r
  role_of_waiting : ∀ r n, g.role r = .waiting n →
    g.role n = .leading ∨ g.role n = .releasing ∨ g.role n = .gone
  key_of_woken : ∀ r n, g.role r = .woken n → keyOf n = keyOf r

/-- Every registered key has an owner that still works, and every waiting request waits for one
that works or is about to wake it. -/
structure Attended (g : Registry κ ρ) : Prop where
  leading_of_owner : ∀ k n, g.owner k = some n → g.role n = .leading
  leading_of_waiting : ∀ r n, g.role r = .waiting n →
    g.role n = .leading ∨ g.role n = .releasing

/-- At most one request works for a key. -/
theorem Exclusive.leading_unique (h : Exclusive keyOf g) {r r' : ρ} (hr : g.role r = .leading)
    (hr' : g.role r' = .leading) (hk : keyOf r = keyOf r') : r = r' := by
  have h₁ := h.owner_of_leading r hr
  have h₂ := h.owner_of_leading r' hr'
  rw [hk, h₂] at h₁
  exact (Option.some.inj h₁).symm

theorem exclusive_init (h : ∀ k, g.owner k = none) (h' : ∀ r, g.role r = .out) :
    Exclusive keyOf g := by
  constructor <;> simp [h, h']

theorem attended_init (h : ∀ k, g.owner k = none) (h' : ∀ r, g.role r = .out) : Attended g := by
  constructor <;> simp [h, h']

/-- Once an owner has left, its key is registered with nobody working on it. -/
theorem not_attended_of_crash (h : Exclusive keyOf g) {r : ρ} (hr : g.role r = .leading)
    (ho : g'.owner = g.owner) (hr' : g'.role r = .gone) : ¬ Attended g' := by
  intro ha
  have hown : g'.owner (keyOf r) = some r := by rw [ho]; exact h.owner_of_leading r hr
  simpa [hr'] using ha.leading_of_owner _ _ hown

section Invariants

variable [DecidableEq κ] [DecidableEq ρ]

/-- Every step keeps the registry exclusive. -/
theorem Exclusive.step (h : Exclusive keyOf g) (hs : Step keyOf g g') : Exclusive keyOf g' := by
  obtain ⟨hlead, hkey, hrole, hwkey, hwait, hwoken⟩ := h
  cases hs with
  | idle => exact ⟨hlead, hkey, hrole, hwkey, hwait, hwoken⟩
  | join r n hr hn =>
    have hnr : n ≠ r := by rintro rfl; simpa [hr] using hrole _ _ hn
    constructor <;> intros <;> grind
  | register r hr hn =>
    -- a request outside the protocol owns nothing and has no waiters
    have hown : ∀ k n, g.owner k = some n → n ≠ r := by
      rintro k n hk rfl
      simpa [hr] using hrole k _ hk
    have hwtr : ∀ q, g.role q ≠ .waiting r := by
      intro q hq
      simpa [hr] using hwait q r hq
    constructor <;> intros <;> grind
  | release r hr =>
    -- the released entry was the releasing request's own
    have hown : g.owner (keyOf r) = some r := hlead r hr
    have huniq : ∀ k n, g.owner k = some n → k ≠ keyOf r → n ≠ r := by
      rintro k n hk hne rfl
      exact hne (hkey k _ hk).symm
    constructor <;> intros <;> grind
  | wake r hr =>
    have hown : ∀ k n, g.owner k = some n → n ≠ r := by
      rintro k n hk rfl
      simpa [hr] using hrole k _ hk
    constructor <;> intros <;> grind
  | leave r hr hr' hg =>
    have hown : ∀ k n, g.owner k = some n → n ≠ r := by
      rintro k n hk rfl
      exact (hrole k _ hk).elim hr hg
    constructor <;> intros <;> grind
  | crash r hr =>
    constructor <;> intros <;> grind

/-- A step in which no owner leaves keeps the registry attended. -/
theorem Attended.step (ha : Attended g) (h : Exclusive keyOf g) (hs : Step keyOf g g')
    (hc : ∀ r, g.role r = .leading → g'.role r ≠ .gone) : Attended g' := by
  obtain ⟨hlead, hwait⟩ := ha
  have hkey := h.key_of_owner
  have hown := h.owner_of_leading
  cases hs with
  | idle => exact ⟨hlead, hwait⟩
  | crash r hr => exact absurd (Function.update_self r _ _) (hc r hr)
  | wake r hr => constructor <;> intros <;> grind
  | join r n hr hn => constructor <;> intros <;> grind
  | register r hr hn => constructor <;> intros <;> grind
  | release r hr => constructor <;> intros <;> grind
  | leave r hr hr' hg => constructor <;> intros <;> grind

end Invariants

end SingleFlight
