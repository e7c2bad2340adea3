import Mathlib.Data.Fin.VecNotation
import Traintime.Server.Memcached.Pool

/-!
# The skip window of the Memcached client

After a failure Memcached is left alone for `skipFor` (`skipping` and `mark_failed` of
`server/src/memcached.rs`). Whatever other calls do at the same time, a call that begins is skipped
exactly if some call has failed less than `skipFor` ago, and one that begins after a failure does not
get to the server before the window has passed. So a server that is gone costs the calls that had
begun before the first of them failed, and then one round of calls in a window.

## Main definitions

* `Fails`, `FailedAt`: the steps that mark the server as failed, and when a run had one.
* `Window`: what the skip window has to do with the failures of a run.

## Main results

* `window_of_run`: the invariant of all runs.
* `skip_window`: the calls that are skipped, and that nothing else gets through.
-/

namespace Traintime.Server.Memcached

variable {ι : Type} [DecidableEq ι]

/-! ### Failures -/

/-- The step marks the server as failed: an I/O error, a timeout, or a reply that is none. -/
def Fails (op : ι → Op) (s : Pool ι) : PoolAction ι → Prop
  | .call _ .fail | .call _ .timeout => True
  | .call r .receive =>
    ∃ c, s.pc r = .reading c ∧ (op r).reply (s.conns c).arrived (s.conns c).closed = .fail
  | _ => False

/-- A call failed at the instant `t` of the run. -/
def FailedAt (op : ι → Op) (items₀ : Items) (as : List (PoolAction ι)) (t : ℕ) : Prop :=
  ∃ bs a s, bs ++ [a] <+: as ∧
    Transition.run (poolStep op) bs (Pool.init items₀) = some s ∧ Fails op s a ∧ s.now = t

/-- The skip window of a state at the end of the run. -/
structure Window (op : ι → Op) (items₀ : Items) (as : List (PoolAction ι)) (s : Pool ι) :
    Prop where
  past : ∀ t, FailedAt op items₀ as t → t ≤ s.now
  skipped : ∀ t, FailedAt op items₀ as t → s.now < t + skipFor →
    ∃ u, s.skipUntil = some u ∧ t + skipFor ≤ u
  failed : ∀ u, s.skipUntil = some u → ∃ t, FailedAt op items₀ as t ∧ u = t + skipFor

variable {op : ι → Op} {items₀ : Items} {as bs : List (PoolAction ι)} {a : PoolAction ι}
  {s s' s₁ s₂ : Pool ι} {r : ι} {t : ℕ}

theorem not_failedAt_nil : ¬ FailedAt op items₀ [] t := by
  rintro ⟨bs, a, s, hb, -⟩
  simpa using hb.length_le

/-- A longer run has one more failure at most. -/
theorem failedAt_concat (h : Transition.run (poolStep op) as (Pool.init items₀) = some s) :
    FailedAt op items₀ (as ++ [a]) t ↔ FailedAt op items₀ as t ∨ Fails op s a ∧ s.now = t := by
  constructor
  · rintro ⟨bs, b, x, hb, hx, hf, ht⟩
    rcases List.prefix_concat_iff.1 hb with heq | hb
    · obtain ⟨rfl, hab⟩ := List.append_inj' heq rfl
      obtain rfl : b = a := List.singleton_inj.1 hab
      obtain rfl := Option.some.inj (h.symm.trans hx)
      exact .inr ⟨hf, ht⟩
    · exact .inl ⟨bs, b, x, hb, hx, hf, ht⟩
  · rintro (⟨bs, b, x, hb, hx, hf, ht⟩ | ⟨hf, ht⟩)
    · exact ⟨bs, b, x, hb.trans (List.prefix_append _ _), hx, hf, ht⟩
    · exact ⟨as, a, s, List.prefix_refl _, h, hf, ht⟩

/-! ### What a step does to the window -/

/-- A call of one step that leaves the clock and the window as they are, or fails, or begins after
the window. -/
inductive Moves (op : ι → Op) (s : Pool ι) (a : PoolAction ι) (s' : Pool ι) : Prop
  | fails (hf : Fails op s a) (hnow : s'.now = s.now)
      (hskip : s'.skipUntil = some (s.now + skipFor))
  | begins (hf : ¬ Fails op s a) (hnow : s'.now = s.now) (hs : s.skipping = false)
      (hskip : s'.skipUntil = none)
  | keeps (hf : ¬ Fails op s a) (hnow : s.now ≤ s'.now) (hskip : s'.skipUntil = s.skipUntil)

theorem Moves.of_step (h : poolStep op s a = some s') : Moves op s a s' := by
  cases a with
  | conn c a =>
    simp only [poolStep] at h
    split at h
    · cases h
      exact .keeps id le_rfl rfl
    · cases h
  | alter key item =>
    cases h
    exact .keeps id le_rfl rfl
  | tick d =>
    cases h
    exact .keeps id (Nat.le_add_right _ _) rfl
  | call r a =>
    cases a with
    | begin =>
      simp only [poolStep, callStep] at h
      split at h
      · split_ifs at h with hskip
        · cases h
          exact .keeps id le_rfl rfl
        · cases h
          rw [not_or, Bool.not_eq_true] at hskip
          exact .begins id rfl hskip.2 rfl
      · cases h
    | pick =>
      simp only [poolStep, callStep] at h
      split at h
      · split at h <;> cases h <;> exact .keeps id le_rfl rfl
      · cases h
    | connect | release =>
      simp only [poolStep, callStep] at h
      split at h <;> cases h
      exact .keeps id le_rfl rfl
    | write n =>
      simp only [poolStep, callStep] at h
      split at h
      · split_ifs at h
        all_goals
          cases h
          exact .keeps id le_rfl rfl
      · cases h
    | receive =>
      simp only [poolStep, callStep] at h
      split at h
      next c hpc =>
        have hfails : ∀ x, (op r).reply (s.conns c).arrived (s.conns c).closed = x → x ≠ .fail →
            ¬ Fails op s (.call r .receive) := by
          rintro x hx hne ⟨c', hc', hfail⟩
          obtain rfl := Pc.reading.inj (hpc.symm.trans hc')
          exact hne (hx.symm.trans hfail)
        split at h
        next hreply => cases h
        next hreply =>
          cases h
          exact .fails ⟨c, hpc, hreply⟩ rfl rfl
        next hreply =>
          cases h
          exact .keeps (hfails _ hreply nofun) le_rfl rfl
        next out rest hreply =>
          cases h
          exact .keeps (hfails _ hreply nofun) le_rfl rfl
      next => cases h
    | fail | timeout =>
      simp only [poolStep, callStep] at h
      split_ifs at h
      cases h
      exact .fails trivial rfl rfl
    | drop =>
      simp only [poolStep, callStep] at h
      split_ifs at h
      cases h
      exact .keeps id le_rfl rfl

omit [DecidableEq ι] in
theorem skipping_eq_false_iff : s.skipping = false ↔ ∀ u, s.skipUntil = some u → u ≤ s.now := by
  rw [Pool.skipping]
  cases s.skipUntil with
  | none => simp
  | some u => simp

/-- **The skip window.** The invariant of all runs. -/
theorem window_of_run (h : Transition.run (poolStep op) as (Pool.init items₀) = some s) :
    Window op items₀ as s := by
  refine Transition.run_invariant (I := Window op items₀) ?_ ?_ h
  · exact ⟨fun t ht => absurd ht not_failedAt_nil, fun t ht => absurd ht not_failedAt_nil, nofun⟩
  · intro as a s s' hs hI ha
    obtain ⟨hpast, hskipped, hfailed⟩ := hI
    cases Moves.of_step ha with
    | fails hf hnow hskip =>
      refine ⟨fun t ht => ?_, fun t ht hlt => ⟨_, hskip, ?_⟩, fun u hu => ?_⟩
      · rw [failedAt_concat hs] at ht
        rw [hnow]
        exact ht.elim (hpast t) fun ht => ht.2.ge
      · rw [failedAt_concat hs] at ht
        have hle : t ≤ s.now := ht.elim (hpast t) fun ht => ht.2.ge
        omega
      · rw [hskip] at hu
        exact ⟨s.now, (failedAt_concat hs).2 (.inr ⟨hf, rfl⟩), (Option.some.inj hu).symm⟩
    | begins hf hnow hs' hskip =>
      have hold : ∀ t, FailedAt op items₀ (as ++ [a]) t → FailedAt op items₀ as t := fun t ht =>
        ((failedAt_concat hs).1 ht).resolve_right fun ht => hf ht.1
      refine ⟨fun t ht => hnow ▸ hpast t (hold t ht), fun t ht hlt => ?_, fun u hu => ?_⟩
      · rw [hnow] at hlt
        obtain ⟨u, hu, hle⟩ := hskipped t (hold t ht) hlt
        have := skipping_eq_false_iff.1 hs' u hu
        omega
      · rw [hskip] at hu
        cases hu
    | keeps hf hnow hskip =>
      have hold : ∀ t, FailedAt op items₀ (as ++ [a]) t → FailedAt op items₀ as t := fun t ht =>
        ((failedAt_concat hs).1 ht).resolve_right fun ht => hf ht.1
      refine ⟨fun t ht => (hpast t (hold t ht)).trans hnow, fun t ht hlt => ?_, fun u hu => ?_⟩
      · rw [hskip]
        exact hskipped t (hold t ht) (hnow.trans_lt hlt)
      · rw [hskip] at hu
        obtain ⟨t, ht, rfl⟩ := hfailed u hu
        exact ⟨t, (failedAt_concat hs).2 (.inl ht), rfl⟩

/-- The server is skipped exactly if some call has failed less than `skipFor` ago. -/
theorem Window.skipping_iff (h : Window op items₀ as s) :
    s.skipping = true ↔ ∃ t, FailedAt op items₀ as t ∧ s.now < t + skipFor := by
  constructor
  · intro hs
    by_contra hno
    have hskip : s.skipping = false := by
      refine skipping_eq_false_iff.2 fun u hu => ?_
      obtain ⟨t, ht, rfl⟩ := h.failed u hu
      exact Nat.not_lt.1 fun hlt => hno ⟨t, ht, hlt⟩
    rw [hskip] at hs
    cases hs
  · rintro ⟨t, ht, hlt⟩
    obtain ⟨u, hu, hle⟩ := h.skipped t ht hlt
    by_contra hs
    have := skipping_eq_false_iff.1 (Bool.not_eq_true _ ▸ hs) u hu
    omega

/-! ### Calls that begin after a failure -/

/-- A step of one call does not move the others. -/
theorem pc_of_step {q : ι} (h : poolStep op s a = some s') (hq : ∀ b, a ≠ .call q b) :
    s'.pc q = s.pc q := by
  cases a with
  | conn c a =>
    simp only [poolStep] at h
    split at h <;> cases h
    rfl
  | alter key item =>
    cases h
    rfl
  | tick d =>
    cases h
    rfl
  | call r b =>
    have hqr : q ≠ r := by
      rintro rfl
      exact hq b rfl
    have hset : ∀ (x : Pool ι) (pc : Pc), x.pc = s.pc → (x.setPc r pc).pc q = s.pc q := by
      intro x pc hx
      change Function.update x.pc r pc q = s.pc q
      rw [Function.update_of_ne hqr, hx]
    simp only [poolStep] at h
    cases b <;> simp only [callStep] at h <;> (repeat' split at h) <;> cases h <;>
      exact hset _ _ rfl

/-- A call that has not begun is skipped or begins, and one that was skipped is over. -/
theorem callStep_of_ready {b : CallAction} (h : callStep op s r b = some s')
    (hr : s.pc r = .ready) : s' = s.setPc r (.done none) ∨ s.skipping = false := by
  cases b <;> simp only [callStep, hr] at h
  case begin =>
    split_ifs at h with hskip
    · exact .inl (Option.some.inj h).symm
    · rw [not_or, Bool.not_eq_true] at hskip
      exact .inr hskip.2
  all_goals simp [Pc.awaits] at h

theorem callStep_ne_some_of_done {b : CallAction} (hr : s.pc r = .done none) :
    callStep op s r b ≠ some s' := by
  cases b <;> simp [callStep, hr, Pc.awaits]

/-- A call that had not begun when another one failed does not get to the server before the window
has passed. -/
theorem ready_or_skipped (h : Transition.run (poolStep op) as (Pool.init items₀) = some s)
    (ha : poolStep op s a = some s₁) (hf : Fails op s a) (hr : s₁.pc r = .ready)
    (h₂ : Transition.run (poolStep op) bs s₁ = some s₂) (hnow : s₂.now < s.now + skipFor) :
    s₂.pc r = .ready ∨ s₂.pc r = .done none := by
  revert hnow
  refine Transition.run_invariant
    (I := fun _ x => x.now < s.now + skipFor → x.pc r = .ready ∨ x.pc r = .done none)
    (fun _ => .inl hr) ?_ h₂
  intro cs b x x' hx ih hb hnow
  have hmono : x.now ≤ x'.now := by
    cases Moves.of_step hb with
    | fails _ hnow _ | begins _ hnow _ _ => exact hnow.ge
    | keeps _ hnow _ => exact hnow
  have hlt := hmono.trans_lt hnow
  have hpc := ih hlt
  by_cases hbr : ∃ b', b = .call r b'
  · obtain ⟨b', rfl⟩ := hbr
    rcases hpc with hpc | hpc
    · rcases callStep_of_ready hb hpc with rfl | hskip
      · exact .inr (by simp [Pool.setPc])
      -- the run up to `x` has the failure, so the window is not over
      · have hrun : Transition.run (poolStep op) ((as ++ [a]) ++ cs) (Pool.init items₀) = some x := by
          rw [Transition.run_append, Transition.run_concat.2 ⟨s, h, ha⟩]
          exact hx
        have hfailed : FailedAt op items₀ ((as ++ [a]) ++ cs) s.now :=
          ⟨as, a, s, List.prefix_append _ _, h, hf, rfl⟩
        rw [(window_of_run hrun).skipping_iff.2 ⟨s.now, hfailed, hlt⟩] at hskip
        cases hskip
    · exact absurd hb (callStep_ne_some_of_done hpc)
  · rw [pc_of_step hb fun b' h => hbr ⟨b', h⟩]
    exact hpc

/-- **Memcached is left alone after a failure.** In every state of every run a call that begins is
skipped exactly if some call has failed less than `skipFor` ago, and goes on to the pool otherwise;
and a call that had not begun when another one failed has touched no connection as long as the
window lasts. -/
theorem skip_window (h : Transition.run (poolStep op) as (Pool.init items₀) = some s) :
    (∀ r, s.pc r = .ready → (op r).allowed = true →
      ((∃ t, FailedAt op items₀ as t ∧ s.now < t + skipFor) ∧
          poolStep op s (.call r .begin) = some (s.setPc r (.done none))) ∨
        (∀ t, FailedAt op items₀ as t → t + skipFor ≤ s.now) ∧
          poolStep op s (.call r .begin) = some ({ s with skipUntil := none }.setPc r .picking)) ∧
    ∀ bs a cs x x', as = bs ++ a :: cs →
      Transition.run (poolStep op) bs (Pool.init items₀) = some x → Fails op x a →
      poolStep op x a = some x' → ∀ r, x'.pc r = .ready → s.now < x.now + skipFor →
        s.pc r = .ready ∨ s.pc r = .done none := by
  constructor
  · intro r hr hop
    have hwindow := window_of_run h
    cases hskip : s.skipping with
    | true =>
      refine .inl ⟨hwindow.skipping_iff.1 hskip, ?_⟩
      simp [poolStep, callStep, hr, hskip]
    | false =>
      refine .inr ⟨fun t ht => Nat.not_lt.1 fun hlt => ?_, ?_⟩
      · rw [hwindow.skipping_iff.2 ⟨t, ht, hlt⟩] at hskip
        cases hskip
      · simp [poolStep, callStep, hr, hop, hskip]
  · rintro bs a cs x x' rfl hx hf ha r hr hnow
    rw [Transition.run_append, hx, Option.bind_some, Transition.run, ha, Option.bind_some] at h
    exact ready_or_skipped hx ha hf hr h hnow

/-- The get of request 0 fails, and ten seconds later request 1 begins. Request 2 is ready to. -/
def skippedRun : List (PoolAction (Fin 3)) :=
  [.call 0 .begin, .call 0 .pick, .call 0 .fail, .tick (10 * second), .call 1 .begin]

theorem skip_window_skippedRun : ∃ s,
    (Transition.run (poolStep fun _ : Fin 3 => Op.get "k") skippedRun (Pool.init ∅) = some s ∧
      s.pc 1 = .done none ∧ s.pc 2 = .ready) ∧
    (∀ r, s.pc r = .ready → (Op.get "k").allowed = true →
      ((∃ t, FailedAt (fun _ => Op.get "k") ∅ skippedRun t ∧ s.now < t + skipFor) ∧
          poolStep (fun _ => Op.get "k") s (.call r .begin) = some (s.setPc r (.done none))) ∨
        (∀ t, FailedAt (fun _ => Op.get "k") ∅ skippedRun t → t + skipFor ≤ s.now) ∧
          poolStep (fun _ => Op.get "k") s (.call r .begin) =
            some ({ s with skipUntil := none }.setPc r .picking)) ∧
    ∀ bs a cs x x', skippedRun = bs ++ a :: cs →
      Transition.run (poolStep fun _ => Op.get "k") bs (Pool.init ∅) = some x →
      Fails (fun _ => Op.get "k") x a → poolStep (fun _ => Op.get "k") x a = some x' →
      ∀ r, x'.pc r = .ready → s.now < x.now + skipFor → s.pc r = .ready ∨ s.pc r = .done none := by
  obtain ⟨s, hs, hpc⟩ : ∃ s, Transition.run (poolStep fun _ : Fin 3 => Op.get "k") skippedRun
      (Pool.init ∅) = some s ∧ s.pc 1 = .done none ∧ s.pc 2 = .ready :=
    Transition.exists_run_of_any (by decide)
  exact ⟨s, ⟨hs, hpc⟩, skip_window hs⟩

end Traintime.Server.Memcached
