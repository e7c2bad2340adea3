import Mathlib.Algebra.GroupWithZero.Nat
import Mathlib.Algebra.Order.BigOperators.Group.List
import Mathlib.Algebra.Order.Group.Nat
import Mathlib.Data.List.Dedup
import Traintime.Monitor

/-!
# The writes of the monitor

A run every five minutes has four checks, more than the writes that the store allows in a day. How
many writes a history of runs takes is bounded by what went wrong in it.

## Main definitions

* `puts`: the writes to the store in a history of runs.
* `outages`: how often the failed runs of a check begin.
* `reminderDays`: the dates on which a failing check may be reminded of.

## Main results

* `puts_eq`: the writes are those of the checks.
* `writes_add_credit_le`: what has been written and what may still be written for an outage.
* `puts_le`: three writes for an outage and one for a date with a reminder.
-/

namespace Traintime.Monitor

variable {δ : Type*} [DecidableEq δ] (cal : Calendar δ)

/-! ### Counting writes -/

/-- One check of a run, with the number of writes so far. -/
def putCheck (round : Round) (st : AssocMap String (State δ) × ℕ) (key : String) :
    AssocMap String (State δ) × ℕ :=
  match (checkRun cal (st.1.lookup key) (round.check key)).write with
  | some state => (st.1.insert key state, st.2 + 1)
  | none => st

/-- The writes to the store in a history. -/
def puts (rounds : List Round) : ℕ :=
  (rounds.foldl (fun st round => checkKeys.foldl (putCheck cal round) st) (∅, 0)).2

/-- The writes that a run takes for one check. -/
def writesOf (raw : Option (State δ)) (r : Run) : ℕ := (checkRun cal raw r).write.toList.length

/-- The writes for one check in its runs. -/
def writes (runs : List Run) : ℕ :=
  (runs.foldl (fun st r => (st.1.step cal r, st.2 + writesOf cal st.1.raw r))
    ((⟨none, []⟩ : World δ), 0)).2

theorem foldl_writes (runs : List Run) :
    runs.foldl (fun st r => (st.1.step cal r, st.2 + writesOf cal st.1.raw r))
      ((⟨none, []⟩ : World δ), 0) = (after cal runs, writes cal runs) := by
  refine Prod.ext ?_ rfl
  induction runs using List.reverseRecOn with
  | nil => rfl
  | append_singleton runs r ih => rw [List.foldl_concat, after_concat, ih]

theorem writes_concat (runs : List Run) (r : Run) :
    writes cal (runs ++ [r]) = writes cal runs + writesOf cal (after cal runs).raw r := by
  rw [writes, List.foldl_concat, foldl_writes]

theorem putCheck_eq (round : Round) (st : AssocMap String (State δ) × ℕ) (key : String) :
    putCheck cal round st key =
      (runCheck cal round st.1 key, st.2 + writesOf cal (st.1.lookup key) (round.check key)) := by
  rw [putCheck, runCheck, writesOf]
  cases (checkRun cal (st.1.lookup key) (round.check key)).write <;> rfl

theorem foldl_putCheck (round : Round) {keys : List String} (hkeys : keys.Nodup)
    (st : AssocMap String (State δ) × ℕ) :
    keys.foldl (putCheck cal round) st = (keys.foldl (runCheck cal round) st.1,
      st.2 + (keys.map fun key => writesOf cal (st.1.lookup key) (round.check key)).sum) := by
  induction keys generalizing st with
  | nil => rfl
  | cons k keys ih =>
    obtain ⟨hk, hkeys⟩ := List.nodup_cons.1 hkeys
    have hlookup : ∀ key ∈ keys, (runCheck cal round st.1 k).lookup key = st.1.lookup key := by
      intro key hkey
      rw [lookup_runCheck, if_neg]
      rintro rfl
      exact hk hkey
    have hsum : (keys.map fun key =>
        writesOf cal ((runCheck cal round st.1 k).lookup key) (round.check key)) =
        keys.map fun key => writesOf cal (st.1.lookup key) (round.check key) :=
      List.map_congr_left fun key hkey => by rw [hlookup key hkey]
    rw [List.foldl_cons, List.foldl_cons, ih hkeys, putCheck_eq]
    simp only [hsum, List.map_cons, List.sum_cons, Nat.add_assoc]

theorem foldl_puts (rounds : List Round) :
    rounds.foldl (fun st round => checkKeys.foldl (putCheck cal round) st) (∅, 0) =
      (rounds.foldl (run cal) ∅,
        (checkKeys.map fun key => writes cal (rounds.map (Round.check · key))).sum) := by
  induction rounds using List.reverseRecOn with
  | nil => rfl
  | append_singleton rounds round ih =>
    have hkeys : checkKeys.Nodup := by decide
    have hwrites : (checkKeys.map fun key =>
        writes cal ((rounds ++ [round]).map (Round.check · key))) =
        checkKeys.map fun key => writes cal (rounds.map (Round.check · key)) +
          writesOf cal ((rounds.foldl (run cal) ∅).lookup key) (round.check key) :=
      List.map_congr_left fun key hkey => by
        rw [List.map_append, List.map_singleton, writes_concat, lookup_foldl_run cal hkey]
    rw [List.foldl_concat, List.foldl_concat, ih, foldl_putCheck cal round hkeys, hwrites,
      List.sum_map_add]
    rfl

/-- The writes of a history are those for the checks, each in its own runs. -/
theorem puts_eq (rounds : List Round) :
    puts cal rounds = (checkKeys.map fun key => writes cal (rounds.map (Round.check · key))).sum := by
  rw [puts, foldl_puts]

/-! ### Outages -/

/-- How often failed runs begin, where the last one before was green or not. -/
def outagesFrom : Bool → List Run → ℕ
  | _, [] => 0
  | green, r :: runs => (if green && !r.ok then 1 else 0) + outagesFrom r.ok runs

/-- How often the failed runs of a check begin. -/
def outages (runs : List Run) : ℕ := outagesFrom true runs

theorem outagesFrom_concat (green : Bool) (runs : List Run) (r : Run) :
    outagesFrom green (runs ++ [r]) = outagesFrom green runs +
      if (runs.getLast?.map Run.ok).getD green && !r.ok then 1 else 0 := by
  induction runs generalizing green with
  | nil => simp [outagesFrom]
  | cons r' runs ih =>
    rw [List.cons_append, outagesFrom, ih, outagesFrom, Nat.add_assoc, List.getLast?_cons]
    cases runs.getLast? <;> rfl

theorem outages_concat (runs : List Run) (r : Run) :
    outages (runs ++ [r]) =
      outages runs + if r.ok = false ∧ ¬ LastFailed runs then 1 else 0 := by
  have hbegins : ((runs.getLast?.map Run.ok).getD true && !r.ok) = true ↔
      r.ok = false ∧ ¬ LastFailed runs := by
    rw [LastFailed]
    cases runs.getLast? <;> simp [and_comm]
  rw [outages, outagesFrom_concat, outages]
  simp only [hbegins]

/-! ### What an outage may still cost -/

/-- What may still be written for an outage: that the check is down and that it recovered, or that
it did not fail again. -/
def State.credit (state : State δ) : ℕ :=
  match state.status with
  | .ok => 2 * state.fails
  | .down => 1

omit [DecidableEq δ] in
theorem State.credit_of_ok {state : State δ} (h : state.status = .ok) :
    state.credit = 2 * state.fails := by rw [credit, h]

omit [DecidableEq δ] in
theorem State.credit_of_down {state : State δ} (h : state.status = .down) : state.credit = 1 := by
  rw [credit, h]

section Moves

variable {cal} {runs : List Run} {r : Run} {state state' : State δ} {sent : List (Push × ℤ)}
  {push : Option Push}

/-- A move that writes is paid by what may still be written, by an outage that begins, or by a
reminder. -/
theorem Holds.paid (h : Holds cal runs state sent) (hmove : Move cal state r state' push) :
    (if state' ≠ state then 1 else 0) + state'.credit ≤ state.credit +
      3 * (if r.ok = false ∧ ¬ LastFailed runs then 1 else 0) +
      if push = some .reminder then 1 else 0 := by
  have hwrite : (if state' ≠ state then 1 else 0) ≤ 1 := by split_ifs <;> omega
  cases hmove with
  | lost => simp
  | quiet => simp
  | green hok hstatus =>
    by_cases hfails : state.fails = 0
    · have hsame : ({ state with fails := 0 } : State δ) = state := by rw [← hfails]
      rw [hsame]
      simp
    · have hafter : ({ state with fails := 0 } : State δ).credit = 2 * 0 :=
        State.credit_of_ok hstatus
      rw [State.credit_of_ok hstatus, hafter]
      omega
  | recovered hok hstatus =>
    have hafter : ({ state with fails := 0, status := .ok, since := r.now } : State δ).credit =
        2 * 0 := State.credit_of_ok rfl
    rw [State.credit_of_down hstatus, hafter]
    omega
  | reminder hok hstatus =>
    have hafter : ({ state with reminded := some (cal.localDate r.now) } : State δ).credit = 1 :=
      State.credit_of_down hstatus
    rw [State.credit_of_down hstatus, hafter, if_pos (c := some Push.reminder = _) rfl]
    omega
  | down hok hstatus hfails =>
    have hafter : ({ state with fails := state.fails + 1, status := .down, since := r.now } :
        State δ).credit = 1 := State.credit_of_down rfl
    rw [State.credit_of_ok hstatus, hafter]
    omega
  | failing hok hstatus hfails =>
    have hafter : ({ state with fails := state.fails + 1 } : State δ).credit =
        2 * (state.fails + 1) := State.credit_of_ok hstatus
    have hlast : ¬ LastFailed runs := by
      intro hlast
      have hone := h.fails_eq hstatus
      rw [if_pos hlast, hfails] at hone
      cases hone
    rw [State.credit_of_ok hstatus, hafter, if_pos (c := r.ok = false ∧ _) ⟨hok, hlast⟩]
    omega

end Moves

theorem writesOf_eq (w : World δ) (r : Run) :
    writesOf cal w.raw r = if (w.step cal r).state ≠ w.state then 1 else 0 := by
  simp only [← write_ne_none_iff, writesOf]
  cases (checkRun cal w.raw r).write <;> rfl

omit [DecidableEq δ] in
/-- The dates of the reminders after one more push, or none. -/
theorem reminderDates_append (sent : List (Push × ℤ)) (push : Option Push) (now : ℤ) :
    reminderDates cal (sent ++ (push.map fun push => (push, now)).toList) =
      reminderDates cal sent ++ if push = some .reminder then [cal.localDate now] else [] := by
  cases push with
  | none => simp
  | some push =>
    by_cases h : push = .reminder
    · rw [h, if_pos rfl]
      exact reminderDates_concat_reminder cal sent now
    · rw [if_neg fun heq => h (Option.some.inj heq), List.append_nil]
      exact reminderDates_concat cal sent push now h

/-- What has been written and what may still be written is paid by outages and reminders. -/
theorem writes_add_credit_le (runs : List Run) :
    writes cal runs + (after cal runs).state.credit ≤
      3 * outages runs + (reminderDates cal (after cal runs).sent).length := by
  induction runs using List.reverseRecOn with
  | nil => exact Nat.zero_le _
  | append_singleton runs r ih =>
    have hpaid := (holds_after cal runs).paid (move_step cal (after cal runs) r)
    rw [writes_concat, writesOf_eq, outages_concat, after_concat, sent_step, reminderDates_append,
      List.length_append]
    split_ifs at hpaid ⊢ <;> simp only [List.length_singleton, List.length_nil] <;> omega

/-! ### The dates with reminders -/

/-- The dates on which a failing check may be reminded of. -/
def reminderDays (runs : List Run) : ℕ :=
  ((runs.filter fun r => !r.ok && cal.localHour r.now == reminderHour).map fun r =>
    cal.localDate r.now).dedup.length

theorem mem_reminderDates {runs : List Run} {date : δ}
    (h : date ∈ reminderDates cal (after cal runs).sent) :
    ∃ r ∈ runs, r.ok = false ∧ cal.localHour r.now = reminderHour ∧ cal.localDate r.now = date := by
  induction runs using List.reverseRecOn with
  | nil => cases h
  | append_singleton runs r ih =>
    have hmove := move_step cal (after cal runs) r
    rw [after_concat, sent_step, reminderDates_append, List.mem_append] at h
    rcases h with h | h
    · obtain ⟨r', hr', hdate⟩ := ih h
      exact ⟨r', List.mem_append_left [r] hr', hdate⟩
    · split_ifs at h with hpush
      · obtain rfl := List.mem_singleton.1 h
        rw [hpush] at hmove
        generalize ((after cal runs).step cal r).state = state' at hmove
        cases hmove with
        | reminder hok hstatus hhour =>
          exact ⟨r, List.mem_append_right runs (List.mem_singleton_self r), hok, hhour, rfl⟩
      · cases h

/-- If the clock does not go back by a day, there are not more reminders than such dates. -/
theorem length_reminderDates_le {δ : Type*} [LinearOrder δ] (cal : Calendar δ) {runs : List Run}
    (hclock : runs.Pairwise fun r r' => cal.localDate r.now ≤ cal.localDate r'.now) :
    (reminderDates cal (after cal runs).sent).length ≤ reminderDays cal runs := by
  refine (List.subperm_of_subset ((holds_after cal runs).nodup_reminderDates hclock)
    fun date hdate => ?_).length_le
  obtain ⟨r, hr, hok, hhour, hdate⟩ := mem_reminderDates cal hdate
  refine List.mem_dedup.2 (List.mem_map.2 ⟨r, List.mem_filter.2 ⟨hr, ?_⟩, hdate⟩)
  simp [hok, hhour]

/-! ### The writes of a history -/

/-- **What the store is charged.** However many runs there are, the monitor writes at most three
times for each outage of a check, and once for each date on which it may remind of it. -/
theorem puts_le {δ : Type*} [LinearOrder δ] (cal : Calendar δ) {rounds : List Round}
    (hclock : rounds.Pairwise fun a b => cal.localDate a.now ≤ cal.localDate b.now) :
    puts cal rounds ≤ (checkKeys.map fun key =>
      let runs := rounds.map (Round.check · key)
      3 * outages runs + reminderDays cal runs).sum := by
  rw [puts_eq]
  refine List.sum_le_sum fun key _ => ?_
  have hruns : (rounds.map (Round.check · key)).Pairwise fun r r' =>
      cal.localDate r.now ≤ cal.localDate r'.now := List.pairwise_map.2 hclock
  have hle := writes_add_credit_le cal (rounds.map (Round.check · key))
  have hdates := length_reminderDates_le cal hruns
  exact ((Nat.le_add_right _ _).trans hle).trans (Nat.add_le_add_left hdates _)

/-- Two failed rounds with a reminder on the next day, and a green one. -/
def outageRounds : List Round :=
  [(1767589200000, false), (1767589500000, false), (1767682800000, false),
    (1767683100000, true)].map fun (now, ok) => ⟨now, fun _ => ok, fun _ => true⟩

/-- The four checks of these rounds take as many writes as they may. -/
theorem puts_le_outageRounds : puts winter outageRounds = 16 ∧ puts winter outageRounds ≤ 16 :=
  ⟨by decide +kernel, puts_le winter (by decide +kernel)⟩

end Traintime.Monitor
