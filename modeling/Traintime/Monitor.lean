import Mathlib.Computability.Language
import Mathlib.Data.List.Chain
import Traintime.Lib.AssocMap

/-!
# The monitor and its notifications

The state machine of `monitor/src/index.js`: `transition`, `readState` and the part of `run` that
comes after the probes. What the probes find, whether a push lands and the calendar of the time zone
are given. A write to the store succeeds.

## Main definitions

* `State`, `transition`: what is stored for a check, and what a run makes of it.
* `checkRun`, `run`: one check of a run, and a run.
* `after`: what is stored and what has been delivered after some runs of a check.

## Main results

* `lookup_foldl_run`: the checks do not disturb each other.
* `holds_after`: how the stored state and the delivered pushes belong together.
* `notifications_spec`: the notifications of a check over any history.
-/

namespace Traintime.Monitor

/-! ### The state machine -/

/-- How a check stands: it passes, or it has failed often enough. -/
inductive Status
  | ok
  | down
deriving DecidableEq, Repr

/-- What a push says: the check is down, it has recovered, or it is still down. -/
inductive Push
  | down
  | recovered
  | reminder
deriving DecidableEq, Repr

/-- What is stored for a check. The date of the last reminder is there after the first one. -/
structure State (δ : Type*) where
  status : Status
  since : ℤ
  fails : ℕ
  reminded : Option δ
deriving DecidableEq, Repr

/-- The calendar and the clock of the time zone, for times in milliseconds. -/
structure Calendar (δ : Type*) where
  localDate : ℤ → δ
  localHour : ℤ → ℕ

/-- `DOWN_AFTER_FAILS`: how many failures in a row bring a check down. -/
def downAfterFails : ℕ := 2

/-- `REMINDER_HOUR`: the hour of the day at which a check that is down is reported again. -/
def reminderHour : ℕ := 8

variable {δ : Type*} [DecidableEq δ] (cal : Calendar δ)

/-- `transition`: the state of a check after a result, and the push that the change calls for. -/
def transition (prev : State δ) (ok : Bool) (now : ℤ) : State δ × Option Push :=
  if ok then
    let state := { prev with fails := 0 }
    if prev.status = .down then
      ({ state with status := .ok, since := now }, some .recovered)
    else (state, none)
  else if prev.status = .down then
    let today := cal.localDate now
    if cal.localHour now = reminderHour ∧ prev.reminded ≠ some today then
      ({ prev with reminded := some today }, some .reminder)
    else (prev, none)
  else
    let state := { prev with fails := prev.fails + 1 }
    if downAfterFails ≤ state.fails then
      ({ state with status := .down, since := now }, some .down)
    else (state, none)

/-- `readState`: the stored state of a check, or that of one which has never failed when nothing is
stored. -/
def readState (raw : Option (State δ)) : State δ := raw.getD ⟨.ok, 0, 0, none⟩

/-! ### Runs -/

/-- What a run brings for one check: the result, the time, and whether a push lands. -/
structure Run where
  ok : Bool
  now : ℤ
  delivers : Bool
deriving DecidableEq, Repr

/-- What a run does for one check: the push that is sent, whether it lands or not, and the state that
is written. -/
structure Entry (δ : Type*) where
  push : Option Push
  write : Option (State δ)
deriving DecidableEq, Repr

/-- A push that did not land keeps the old state, so the next run sends it again. A state that is
as before is not written. -/
def checkRun (raw : Option (State δ)) (r : Run) : Entry δ :=
  let prev := readState raw
  let (state, push) := transition cal prev r.ok r.now
  if push.isSome ∧ ¬ r.delivers then ⟨push, none⟩
  else if state ≠ prev then ⟨push, some state⟩
  else ⟨push, none⟩

/-- The push that lands. One that does not is sent again by the next run, since nothing is written.
-/
def Entry.delivered (e : Entry δ) (r : Run) : Option Push := if r.delivers then e.push else none

/-- `HOSTS`: the hosts that are probed, each of which is a check. -/
def hosts : List String := ["api.traintime.ch", "api1.traintime.ch", "api2.traintime.ch"]

/-- The checks of a run in the order of the source: one for each host, and the comparison of two of
them. -/
def checkKeys : List String := hosts ++ ["parity"]

/-- What a run finds: its time, the result of each check, and which of the pushes land. -/
structure Round where
  now : ℤ
  ok : String → Bool
  delivers : String → Bool

/-- What a run brings for one of its checks. -/
def Round.check (round : Round) (key : String) : Run := ⟨round.ok key, round.now, round.delivers key⟩

/-- One check of a run: the state is read, and what the run makes of it is written. -/
def runCheck (round : Round) (store : AssocMap String (State δ)) (key : String) :
    AssocMap String (State δ) :=
  match (checkRun cal (store.lookup key) (round.check key)).write with
  | some state => store.insert key state
  | none => store

/-- The part of `run` after the probes. -/
def run (store : AssocMap String (State δ)) (round : Round) : AssocMap String (State δ) :=
  checkKeys.foldl (runCheck cal round) store

/-- What is stored for a check, and the pushes that have landed with their times. -/
structure World (δ : Type*) where
  raw : Option (State δ)
  sent : List (Push × ℤ)

/-- One more run of the check: what it writes is stored, and a push that lands is sent at the time
of the run. -/
def World.step (w : World δ) (r : Run) : World δ :=
  let e := checkRun cal w.raw r
  ⟨e.write.or w.raw, w.sent ++ ((e.delivered r).map fun push => (push, r.now)).toList⟩

/-- What has become of a check after some runs, from no stored state and no push. -/
def after (runs : List Run) : World δ := runs.foldl (World.step cal) ⟨none, []⟩

theorem after_concat (runs : List Run) (r : Run) :
    after cal (runs ++ [r]) = (after cal runs).step cal r := List.foldl_concat ..

/-! ### One check among the others -/

theorem lookup_runCheck (round : Round) (store : AssocMap String (State δ)) (key key' : String) :
    (runCheck cal round store key).lookup key' =
      if key' = key then
        (checkRun cal (store.lookup key) (round.check key)).write.or (store.lookup key)
      else store.lookup key' := by
  rw [runCheck]
  cases (checkRun cal (store.lookup key) (round.check key)).write with
  | some state => rw [AssocMap.lookup_insert_eq, Option.some_or]
  | none =>
    rw [Option.none_or]
    split_ifs with h
    · rw [h]
    · rfl

theorem lookup_foldl_runCheck (round : Round) {keys : List String} (hkeys : keys.Nodup)
    (store : AssocMap String (State δ)) (key : String) :
    (keys.foldl (runCheck cal round) store).lookup key =
      if key ∈ keys then
        (checkRun cal (store.lookup key) (round.check key)).write.or (store.lookup key)
      else store.lookup key := by
  induction keys generalizing store with
  | nil => rfl
  | cons k keys ih =>
    obtain ⟨hk, hkeys⟩ := List.nodup_cons.mp hkeys
    rw [List.foldl_cons, ih hkeys, lookup_runCheck]
    by_cases h : key = k
    · subst h
      rw [if_neg hk, if_pos rfl, if_pos List.mem_cons_self]
    · rw [if_neg h]
      simp only [List.mem_cons, h, false_or]

/-- The checks do not disturb each other: what is stored for one depends on its own runs. -/
theorem lookup_foldl_run {key : String} (hkey : key ∈ checkKeys) (rounds : List Round) :
    (rounds.foldl (run cal) ∅).lookup key = (after cal (rounds.map (Round.check · key))).raw := by
  induction rounds using List.reverseRecOn with
  | nil => rfl
  | append_singleton rounds round ih =>
    have hkeys : checkKeys.Nodup := by decide
    rw [List.foldl_concat, run, lookup_foldl_runCheck cal round hkeys, if_pos hkey, ih,
      List.map_append, List.map_singleton, after_concat]
    rfl

/-! ### Steps -/

/-- The state that is read and the status in it. -/
def World.state (w : World δ) : State δ := readState w.raw

/-- What a run can make of the state of a check, and the push that lands. -/
inductive Move (prev : State δ) (r : Run) : State δ → Option Push → Prop
  /-- A push that does not land. With the status `ok` it is that of a second failed run. -/
  | lost (h : prev.status = .ok → r.ok = false ∧ 1 ≤ prev.fails) : Move prev r prev none
  | green (hok : r.ok = true) (hstatus : prev.status = .ok) :
      Move prev r { prev with fails := 0 } none
  | recovered (hok : r.ok = true) (hstatus : prev.status = .down) :
      Move prev r { prev with fails := 0, status := .ok, since := r.now } (some .recovered)
  | reminder (hok : r.ok = false) (hstatus : prev.status = .down)
      (hhour : cal.localHour r.now = reminderHour)
      (hdate : prev.reminded ≠ some (cal.localDate r.now)) :
      Move prev r { prev with reminded := some (cal.localDate r.now) } (some .reminder)
  | quiet (hok : r.ok = false) (hstatus : prev.status = .down) : Move prev r prev none
  | down (hok : r.ok = false) (hstatus : prev.status = .ok) (hfails : 1 ≤ prev.fails) :
      Move prev r { prev with fails := prev.fails + 1, status := .down, since := r.now }
        (some .down)
  | failing (hok : r.ok = false) (hstatus : prev.status = .ok) (hfails : prev.fails = 0) :
      Move prev r { prev with fails := prev.fails + 1 } none

theorem push_checkRun (w : World δ) (r : Run) :
    (checkRun cal w.raw r).push = (transition cal w.state r.ok r.now).2 := by
  rw [checkRun, ← World.state]
  simp only
  split_ifs <;> rfl

/-- A state is written unless a push does not land, and only if it is another one. -/
theorem write_checkRun (w : World δ) (r : Run) :
    (checkRun cal w.raw r).write =
      if (transition cal w.state r.ok r.now).2.isSome ∧ ¬ r.delivers then none
      else if (transition cal w.state r.ok r.now).1 ≠ w.state then
        some (transition cal w.state r.ok r.now).1
      else none := by
  rw [checkRun, ← World.state]
  simp only
  split_ifs <;> rfl

/-- What is read afterwards is the new state, unless a push does not land. -/
theorem state_step (w : World δ) (r : Run) :
    (w.step cal r).state =
      if (transition cal w.state r.ok r.now).2.isSome ∧ ¬ r.delivers then w.state
      else (transition cal w.state r.ok r.now).1 := by
  have hstate : (w.step cal r).state = ((checkRun cal w.raw r).write).getD w.state := by
    rw [World.state, World.step, readState]
    cases (checkRun cal w.raw r).write <;> rfl
  rw [hstate, write_checkRun]
  split_ifs with hlost hsame
  · rfl
  · rfl
  · exact (not_not.mp hsame).symm

/-- A run makes the move of its transition, or none if a push does not land. -/
theorem move_of_transition {w : World δ} {r : Run} {state : State δ} {push : Option Push}
    (h : transition cal w.state r.ok r.now = (state, push)) (hmove : Move cal w.state r state push)
    (hlost : push ≠ none → w.state.status = .ok → r.ok = false ∧ 1 ≤ w.state.fails) :
    Move cal w.state r (w.step cal r).state ((checkRun cal w.raw r).delivered r) := by
  rw [state_step, Entry.delivered, push_checkRun, h]
  cases push with
  | none => simpa using hmove
  | some push =>
    cases r.delivers with
    | true => simpa using hmove
    | false => simpa using Move.lost (hlost (Option.some_ne_none push))

theorem move_step (w : World δ) (r : Run) :
    Move cal w.state r (w.step cal r).state ((checkRun cal w.raw r).delivered r) := by
  have hstatus : w.state.status ≠ .down → w.state.status = .ok := by
    cases w.state.status <;> simp
  by_cases hok : r.ok = true
  · by_cases hdown : w.state.status = .down
    · refine move_of_transition cal ?_ (.recovered hok hdown) fun _ h => ?_
      · rw [transition, if_pos hok]
        simp only [if_pos hdown]
      · rw [hdown] at h
        cases h
    · refine move_of_transition cal ?_ (.green hok (hstatus hdown)) fun h => absurd rfl h
      rw [transition, if_pos hok]
      simp only [if_neg hdown]
  · have hfailed : r.ok = false := Bool.not_eq_true _ ▸ hok
    by_cases hdown : w.state.status = .down
    · by_cases hremind : cal.localHour r.now = reminderHour ∧
          w.state.reminded ≠ some (cal.localDate r.now)
      · refine move_of_transition cal ?_ (.reminder hfailed hdown hremind.1 hremind.2)
          fun _ h => ?_
        · rw [transition, if_neg hok, if_pos hdown]
          simp only [if_pos hremind]
        · rw [hdown] at h
          cases h
      · refine move_of_transition cal ?_ (.quiet hfailed hdown) fun h => absurd rfl h
        rw [transition, if_neg hok, if_pos hdown]
        simp only [if_neg hremind]
    · by_cases hfails : downAfterFails ≤ w.state.fails + 1
      · have hfails' : 1 ≤ w.state.fails := Nat.le_of_succ_le_succ hfails
        refine move_of_transition cal ?_ (.down hfailed (hstatus hdown) hfails')
          fun _ _ => ⟨hfailed, hfails'⟩
        rw [transition, if_neg hok, if_neg hdown]
        simp only [if_pos hfails]
      · have hfails' : w.state.fails = 0 := by
          rw [downAfterFails] at hfails
          omega
        refine move_of_transition cal ?_ (.failing hfailed (hstatus hdown) hfails')
          fun h => absurd rfl h
        rw [transition, if_neg hok, if_neg hdown]
        simp only [if_neg hfails]

theorem sent_step (w : World δ) (r : Run) :
    (w.step cal r).sent =
      w.sent ++ (((checkRun cal w.raw r).delivered r).map fun push => (push, r.now)).toList := rfl

/-! ### What is stored and what has been delivered -/

open scoped Computability

/-- Down, reminders and recovered, over and over. -/
def episodes : Language Push := ({[.down]} * {[.reminder]}∗ * {[.recovered]})∗

/-- The last push that was not a reminder. -/
def lastChange (sent : List (Push × ℤ)) : Option Push :=
  ((sent.map Prod.fst).filter (· ≠ .reminder)).getLast?

/-- The local dates of the reminders that have landed, in the order of the runs. -/
def reminderDates (sent : List (Push × ℤ)) : List δ :=
  (sent.filter (·.1 = .reminder)).map fun p => cal.localDate p.2

/-- The last run found a failure. There is none before the first run. -/
def LastFailed (runs : List Run) : Prop := ∃ r ∈ runs.getLast?, r.ok = false

instance (runs : List Run) : Decidable (LastFailed runs) :=
  inferInstanceAs (Decidable (∃ r ∈ runs.getLast?, r.ok = false))

/-- How the stored state and the delivered pushes of a check belong together. -/
structure Holds (runs : List Run) (state : State δ) (sent : List (Push × ℤ)) : Prop where
  fails_eq : state.status = .ok → state.fails = if LastFailed runs then 1 else 0
  status_eq : state.status = .down ↔ lastChange sent = some .down
  sent_ok : state.status = .ok → sent.map Prod.fst ∈ episodes
  sent_down : state.status = .down →
    sent.map Prod.fst ∈ episodes * ({[.down]} * {[.reminder]}∗ : Language Push)
  reminded_eq : state.reminded = (reminderDates cal sent).getLast?
  dates_ne : (reminderDates cal sent).IsChain (· ≠ ·)
  sent_sublist : (sent.map Prod.snd).Sublist (runs.map Run.now)

section Concat

variable (runs : List Run) (r : Run) (sent : List (Push × ℤ)) (push : Push) (t : ℤ)

theorem lastFailed_concat : LastFailed (runs ++ [r]) ↔ r.ok = false := by
  simp [LastFailed]

theorem lastChange_concat (h : push ≠ .reminder) : lastChange (sent ++ [(push, t)]) = some push := by
  simp [lastChange, h]

theorem lastChange_concat_reminder : lastChange (sent ++ [(.reminder, t)]) = lastChange sent := by
  simp [lastChange]

omit [DecidableEq δ] in
theorem reminderDates_concat (h : push ≠ .reminder) :
    reminderDates cal (sent ++ [(push, t)]) = reminderDates cal sent := by
  simp [reminderDates, h]

omit [DecidableEq δ] in
theorem reminderDates_concat_reminder :
    reminderDates cal (sent ++ [(.reminder, t)]) = reminderDates cal sent ++ [cal.localDate t] := by
  simp [reminderDates]

end Concat

section Episodes

variable {x : List Push}

theorem mem_kstar_concat {l : Language Push} {x y : List Push} (hx : x ∈ l∗) (hy : y ∈ l) :
    x ++ y ∈ l∗ := by
  obtain ⟨parts, rfl, hparts⟩ := Language.mem_kstar.mp hx
  refine Language.mem_kstar.mpr ⟨parts ++ [y], by simp, ?_⟩
  simpa [or_imp, forall_and] using ⟨hparts, hy⟩

/-- An episode begins. -/
theorem episodes_down (h : x ∈ episodes) :
    x ++ [.down] ∈ episodes * ({[.down]} * {[.reminder]}∗ : Language Push) := by
  have hdown : [Push.down] ++ [] ∈ ({[.down]} * {[.reminder]}∗ : Language Push) :=
    Language.append_mem_mul rfl (Language.nil_mem_kstar _)
  exact Language.append_mem_mul h hdown

/-- A reminder goes on with an episode. -/
theorem episodes_reminder (h : x ∈ episodes * ({[.down]} * {[.reminder]}∗ : Language Push)) :
    x ++ [.reminder] ∈ episodes * ({[.down]} * {[.reminder]}∗ : Language Push) := by
  obtain ⟨a, ha, b, hb, rfl⟩ := Language.mem_mul.mp h
  obtain ⟨c, hc, d, hd, rfl⟩ := Language.mem_mul.mp hb
  rw [List.append_assoc, List.append_assoc]
  exact Language.append_mem_mul ha (Language.append_mem_mul hc (mem_kstar_concat hd rfl))

/-- An episode ends. -/
theorem episodes_recovered (h : x ∈ episodes * ({[.down]} * {[.reminder]}∗ : Language Push)) :
    x ++ [.recovered] ∈ episodes := by
  obtain ⟨a, ha, b, hb, rfl⟩ := Language.mem_mul.mp h
  rw [List.append_assoc]
  exact mem_kstar_concat ha (Language.append_mem_mul hb rfl)

end Episodes

variable {runs : List Run} {state state' : State δ} {sent : List (Push × ℤ)} {r : Run}
  {push : Option Push}

omit [DecidableEq δ] in
/-- A run without a push that lands, and with the status as it was. -/
theorem Holds.silent (h : Holds cal runs state sent) (hstatus : state'.status = state.status)
    (hfails : state.status = .ok → state'.fails = if r.ok then 0 else 1)
    (hreminded : state'.reminded = state.reminded) : Holds cal (runs ++ [r]) state' sent where
  fails_eq hok := by
    rw [hfails (hstatus ▸ hok)]
    simp only [lastFailed_concat]
    cases r.ok <;> rfl
  status_eq := by rw [hstatus, h.status_eq]
  sent_ok hok := h.sent_ok (hstatus ▸ hok)
  sent_down hdown := h.sent_down (hstatus ▸ hdown)
  reminded_eq := by rw [hreminded, h.reminded_eq]
  dates_ne := h.dates_ne
  sent_sublist := by
    rw [List.map_append]
    exact h.sent_sublist.trans (List.sublist_append_left _ _)

omit [DecidableEq δ] in
/-- The times of the pushes are those of runs. -/
theorem Holds.sublist_concat (h : Holds cal runs state sent) (push : Push) :
    ((sent ++ [(push, r.now)]).map Prod.snd).Sublist ((runs ++ [r]).map Run.now) := by
  rw [List.map_append, List.map_append]
  exact h.sent_sublist.append (List.Sublist.refl _)

omit [DecidableEq δ] in
theorem Holds.move (h : Holds cal runs state sent) (hmove : Move cal state r state' push) :
    Holds cal (runs ++ [r]) state' (sent ++ (push.map fun push => (push, r.now)).toList) := by
  cases hmove with
  | lost hlost =>
    rw [Option.map_none, Option.toList_none, List.append_nil]
    refine h.silent cal rfl (fun hok => ?_) rfl
    obtain ⟨hfailed, hfails⟩ := hlost hok
    have hone := h.fails_eq hok
    rw [hfailed]
    split_ifs at hone <;> simp_all
  | green hok hstatus =>
    rw [Option.map_none, Option.toList_none, List.append_nil]
    exact h.silent cal rfl (fun _ => by rw [hok]; rfl) rfl
  | quiet hok hstatus =>
    rw [Option.map_none, Option.toList_none, List.append_nil]
    refine h.silent cal rfl (fun hstatus' => ?_) rfl
    rw [hstatus] at hstatus'
    cases hstatus'
  | failing hok hstatus hfails =>
    rw [Option.map_none, Option.toList_none, List.append_nil]
    refine h.silent cal rfl (fun _ => ?_) rfl
    simp [hok, hfails]
  | recovered hok hstatus =>
    have hsent := episodes_recovered (h.sent_down hstatus)
    constructor
    · simp [lastFailed_concat, hok]
    · simp [lastChange_concat]
    · intro _
      simpa using hsent
    · simp
    · simpa [reminderDates_concat] using h.reminded_eq
    · simpa [reminderDates_concat] using h.dates_ne
    · exact h.sublist_concat cal _
  | down hok hstatus hfails =>
    have hsent := episodes_down (h.sent_ok hstatus)
    constructor
    · simp
    · simp [lastChange_concat]
    · simp
    · intro _
      simpa using hsent
    · simpa [reminderDates_concat] using h.reminded_eq
    · simpa [reminderDates_concat] using h.dates_ne
    · exact h.sublist_concat cal _
  | reminder hok hstatus hhour hdate =>
    have hsent := episodes_reminder (h.sent_down hstatus)
    have hchange := h.status_eq.mp hstatus
    constructor
    · simp [hstatus]
    · simp [lastChange_concat_reminder, hstatus, hchange]
    · simp [hstatus]
    · intro _
      simpa using hsent
    · simp [reminderDates_concat_reminder]
    · have hdates : (reminderDates cal sent ++ [cal.localDate r.now]).IsChain (· ≠ ·) := by
        refine h.dates_ne.append (List.isChain_singleton _) fun date hlast today htoday => ?_
        obtain rfl : cal.localDate r.now = today := Option.some.inj htoday
        rintro rfl
        exact hdate (h.reminded_eq.trans hlast)
      simpa [reminderDates_concat_reminder] using hdates
    · exact h.sublist_concat cal _

/-- What is stored for a check and what has been delivered, after any runs. -/
theorem holds_after (runs : List Run) :
    Holds cal runs (after cal runs).state (after cal runs).sent := by
  induction runs using List.reverseRecOn with
  | nil => constructor <;> simp [after, World.state, readState, lastChange, reminderDates, episodes,
      LastFailed, Language.nil_mem_kstar]
  | append_singleton runs r ih =>
    rw [after_concat, sent_step]
    exact ih.move cal (move_step cal _ r)

/-! ### The notifications of a check -/

omit [DecidableEq δ] in
/-- What has been delivered is the beginning of some episodes. -/
theorem Holds.exists_episodes (h : Holds cal runs state sent) :
    ∃ l ∈ episodes, sent.map Prod.fst <+: l := by
  cases hstatus : state.status with
  | ok => exact ⟨_, h.sent_ok hstatus, List.prefix_rfl⟩
  | down => exact ⟨_, episodes_recovered (h.sent_down hstatus), List.prefix_append _ _⟩

theorem Holds.push_eq_down {w : World δ} (h : Holds cal runs w.state sent)
    (hstatus : w.state.status = .ok) (hlast : LastFailed runs) (hok : r.ok = false) :
    (checkRun cal w.raw r).push = some .down := by
  have hfails := h.fails_eq hstatus
  rw [if_pos hlast] at hfails
  rw [push_checkRun, transition, hok, hstatus, hfails]
  rfl

theorem push_eq_recovered {w : World δ} (hok : r.ok = true) (hstatus : w.state.status = .down) :
    (checkRun cal w.raw r).push = some .recovered := by
  rw [push_checkRun, transition, if_pos hok]
  simp only [if_pos hstatus]

/-- There is a write exactly when another state is read afterwards. -/
theorem write_ne_none_iff (w : World δ) (r : Run) :
    (checkRun cal w.raw r).write ≠ none ↔ (w.step cal r).state ≠ w.state := by
  rw [write_checkRun, state_step]
  split_ifs with hlost hsame <;> simp_all

/-- If the dates of the runs do not go back, there is one reminder for a date. -/
theorem Holds.nodup_reminderDates {δ : Type*} [LinearOrder δ] {cal : Calendar δ} {state : State δ}
    (h : Holds cal runs state sent)
    (hruns : runs.Pairwise fun r r' => cal.localDate r.now ≤ cal.localDate r'.now) :
    (reminderDates cal sent).Nodup := by
  have hle : (reminderDates cal sent).Pairwise (· ≤ ·) := by
    have hsub : (reminderDates cal sent).Sublist ((runs.map Run.now).map cal.localDate) := by
      have hdates := h.sent_sublist.map cal.localDate
      rw [List.map_map] at hdates
      exact (List.filter_sublist.map _).trans hdates
    refine List.Pairwise.sublist hsub ?_
    rw [List.pairwise_map, List.pairwise_map]
    exact hruns
  have hlt : (reminderDates cal sent).IsChain (· < ·) := by
    rw [List.isChain_iff_getElem]
    intro i hi
    exact lt_of_le_of_ne (List.pairwise_iff_getElem.mp hle i (i + 1) _ hi (Nat.lt_succ_self i))
      (List.isChain_iff_getElem.mp h.dates_ne i hi)
  exact (List.isChain_iff_pairwise.mp hlt).imp ne_of_lt

/-- Over any history of runs: the delivered pushes are the beginning of some episodes; down takes
two failed runs in a row, and is sent until it lands; so is recovered from the first run that is
green; reminders are for hour 8 and different dates; the stored status is that of the last delivered
change; nothing is written that is as before. -/
theorem notifications_spec {δ : Type*} [LinearOrder δ] (cal : Calendar δ) {key : String}
    (hkey : key ∈ checkKeys) (rounds : List Round) (round : Round) :
    let runs := rounds.map (Round.check · key)
    let r := round.check key
    let w := after cal runs
    let e := checkRun cal w.raw r
    (rounds.foldl (run cal) ∅).lookup key = w.raw ∧
    (∃ l ∈ episodes, w.sent.map Prod.fst <+: l) ∧
    (e.delivered r = some .down → r.ok = false ∧ LastFailed runs) ∧
    (w.state.status = .ok → LastFailed runs → r.ok = false → e.push = some .down) ∧
    (w.state.status = .down → r.ok = true → e.push = some .recovered) ∧
    (e.delivered r = some .reminder → cal.localHour r.now = 8) ∧
    (reminderDates cal w.sent).IsChain (· ≠ ·) ∧
    (runs.Pairwise (fun r r' => cal.localDate r.now ≤ cal.localDate r'.now) →
      (reminderDates cal w.sent).Nodup) ∧
    (w.state.status = .down ↔ lastChange w.sent = some .down) ∧
    (e.write ≠ none ↔ (w.step cal r).state ≠ w.state) := by
  intro runs r w e
  have h : Holds cal runs w.state w.sent := holds_after cal runs
  have hmove : Move cal w.state r (w.step cal r).state (e.delivered r) := move_step cal w r
  refine ⟨lookup_foldl_run cal hkey rounds, h.exists_episodes, fun hdown => ?_,
    fun hstatus hlast hok => h.push_eq_down cal hstatus hlast hok,
    fun hstatus hok => push_eq_recovered cal hok hstatus, fun hreminder => ?_, h.dates_ne,
    fun hruns => h.nodup_reminderDates hruns, h.status_eq, write_ne_none_iff cal w r⟩
  · rw [hdown] at hmove
    generalize (w.step cal r).state = state' at hmove
    cases hmove with
    | down hok hstatus hfails =>
      refine ⟨hok, ?_⟩
      by_contra hlast
      have hzero := h.fails_eq hstatus
      rw [if_neg hlast] at hzero
      omega
  · rw [hreminder] at hmove
    generalize (w.step cal r).state = state' at hmove
    cases hmove with
    | reminder hok hstatus hhour hdate => exact hhour

/-! ### Two histories -/

/-- The calendar of the time zone in winter, with days counted from 1970. -/
def winter : Calendar ℤ where
  localDate now := (now + 3600000) / 86400000
  localHour now := ((now + 3600000) / 3600000 % 24).toNat

/-- The second failed run in a row says that the check is down. -/
theorem notifications_spec_second_failed :
    (checkRun winter (after winter [⟨false, 0, true⟩]).raw ⟨false, 300000, true⟩).push =
      some .down :=
  (notifications_spec winter (show "parity" ∈ checkKeys by decide)
    [⟨0, fun _ => false, fun _ => true⟩] ⟨300000, fun _ => false, fun _ => true⟩).2.2.2.1
      rfl (by decide) rfl

/-- Failed runs from the fifth of January 2026, the last one with the clock set back by a day. -/
def setBack : List Run :=
  [1767589200000, 1767589500000, 1767596400000, 1767682800000, 1767596700000].map fun now =>
    ⟨false, now, true⟩

/-- A clock that goes back brings a second reminder for a date. -/
theorem reminders_of_setBack :
    reminderDates winter (after winter setBack).sent = [20458, 20459, 20458] := by decide

end Traintime.Monitor
