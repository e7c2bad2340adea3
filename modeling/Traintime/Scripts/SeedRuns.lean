import Traintime.Lib.Reconcile
import Traintime.Scripts.DiffStations

/-!
# Several seedings at a time

The workflow `seed-d1.yml` starts `scripts/seed_d1.sh` on every push that changes the stations, and by
hand, without waiting for a run that is still under way. Any number of runs for one file read the
table of D1, compute their statements and execute them, statement by statement and mixed in any way,
and each may be cancelled at any time. They are workers that reconcile the table with the file.

## Main definitions

* `SeedRuns.State`, `SeedRuns.Action`, `SeedRuns.step`: the runs and their steps.
* `SeedRuns.Goal`, `SeedRuns.Goal.Met`: what the file asks of the table.
* `SeedRuns.Towards`: a batch that undoes nothing.
* `SeedRuns.Refines`: the runs as workers.

## Main results

* `SeedRuns.covers_commands`: the batches of a run are enough.
* `SeedRuns.mem_rows_iff_of_executed`: what the runs make of the table.
-/

namespace Traintime.SeedRuns

open DiffStations
open DiffStations (Command)
open Function

/-! ### The runs -/

/-- A run, before it has read the table, with the statements that are left, or cancelled. -/
inductive Job
  | waiting
  | executing (rest : List Sql.Statement)
  | cancelled

/-- The table and the runs. -/
structure State (ι : Type*) where
  table : StationsTable
  job : ι → Job

/-- The runs have begun and none has read the table. -/
def State.init {ι : Type*} (table : StationsTable) : State ι := ⟨table, fun _ => .waiting⟩

/-- What happens in a run, or to it. -/
inductive Action (ι : Type*)
  /-- D1 returns the rows and the script is written. -/
  | read (i : ι) (payload : List Row)
  /-- D1 executes the next statement. -/
  | exec (i : ι)
  | cancel (i : ι)

/-- The statements of a script. An empty one is not executed. -/
def statements (payload stations : List Row) : Option (List Sql.Statement) :=
  match main payload stations with
  | [] => some []
  | script => Sql.read script

section Step

variable {ι : Type*} [DecidableEq ι]

/-- The state after an action, if the action is possible. -/
def step (stations : List Row) (s : State ι) : Action ι → Option (State ι)
  | .read i payload =>
    match s.job i with
    | .waiting => (statements payload stations).map fun rest =>
        { s with job := update s.job i (.executing rest) }
    | _ => none
  | .exec i =>
    match s.job i with
    | .executing (st :: rest) => (DiffStations.exec s.table st).map fun t =>
        ⟨t, update s.job i (.executing rest)⟩
    | _ => none
  | .cancel i =>
    match s.job i with
    | .waiting | .executing (_ :: _) => some { s with job := update s.job i .cancelled }
    | _ => none

/-- What is read in this step are the rows of the table. -/
def Honest (s : State ι) (a : Action ι) : Prop :=
  ∀ i payload, a = .read i payload → Returns s.table payload

end Step

/-! ### What the file asks of the table -/

variable {stations payload : List Row} {t : StationsTable} {c : Command}

/-- A row that has to be there, or an id that must not. -/
inductive Goal (stations : List Row)
  | right (row : Row) (h : Wins stations row)
  | gone (id : List Char) (h : ∀ row, Wins stations row → row.id.1 ≠ id)

/-- The table has the row, or it has none with the id. -/
def Goal.Met (t : StationsTable) : Goal stations → Prop
  | right row _ => row.stored ∈ t.rows
  | gone id _ => ∀ r ∈ t.rows, r.id ≠ id

/-- All is as the file asks if the rows of the table are those of the file. -/
theorem forall_met_iff :
    (∀ g : Goal stations, g.Met t) ↔ ∀ r, r ∈ t.rows ↔ ∃ row, Wins stations row ∧ row.stored = r := by
  constructor
  · intro h r
    constructor
    · intro hr
      by_cases hid : ∃ row, Wins stations row ∧ row.id.1 = r.id
      · obtain ⟨row, hrow, hid⟩ := hid
        exact ⟨row, hrow, t.eq_of_key_eq (h (.right row hrow)) hr hid⟩
      · exact absurd rfl (h (.gone r.id fun row hrow heq => hid ⟨row, hrow, heq⟩) r hr)
    · rintro ⟨row, hrow, rfl⟩
      exact h (.right row hrow)
  · intro h g
    cases g with
    | right row hrow => exact (h _).2 ⟨row, hrow, rfl⟩
    | gone id hid =>
      intro r hr heq
      obtain ⟨row, hrow, rfl⟩ := (h r).1 hr
      exact hid row hrow heq

/-- A batch writes rows of the file, each once, or deletes ids that the file does not have. -/
def Towards (stations : List Row) : Command → Prop
  | .upsert batch => (∀ row ∈ batch, Wins stations row) ∧ (batch.map fun row => row.id.1).Nodup
  | .delete batch => ∀ id ∈ batch, ∀ row, Wins stations row → row.id ≠ id

theorem nodup_stored {batch : List Row} (h : (batch.map fun row => row.id.1).Nodup) :
    ((batch.map Row.stored).map D1Row.id).Nodup := by
  rwa [List.map_map]

/-- Such a batch undoes nothing. -/
theorem Towards.keeps (h : Towards stations c) :
    Reconcile.Keeps Command.apply (@Goal.Met stations) c := by
  intro t g hg
  cases c with
  | upsert batch =>
    obtain ⟨hwins, hnodup⟩ := h
    cases g with
    | right row hrow =>
      refine (KeyedTable.mem_replaceAll (nodup_stored hnodup)).2 ?_
      by_cases hid : ∃ row' ∈ batch, row'.id = row.id
      · obtain ⟨row', hmem, hid⟩ := hid
        obtain rfl := (hwins row' hmem).eq_of_id_eq hrow hid
        exact .inl (List.mem_map_of_mem hmem)
      · refine .inr ⟨hg, fun hmem => hid ?_⟩
        rw [List.map_map] at hmem
        obtain ⟨row', hmem, heq⟩ := List.mem_map.1 hmem
        exact ⟨row', hmem, Subtype.ext heq⟩
    | gone id hid =>
      intro r hr
      rcases (KeyedTable.mem_replaceAll (nodup_stored hnodup)).1 hr with hr | ⟨hr, -⟩
      · obtain ⟨row, hmem, rfl⟩ := List.mem_map.1 hr
        exact hid row (hwins row hmem)
      · exact hg r hr
  | delete batch =>
    cases g with
    | right row hrow =>
      refine KeyedTable.mem_remove.2 ⟨hg, fun hmem => ?_⟩
      obtain ⟨id, hid, heq⟩ := List.mem_map.1 hmem
      exact h id hid row hrow (Subtype.ext heq.symm)
    | gone id hid => exact fun r hr => hg r (KeyedTable.mem_remove.1 hr).1

/-- The batches of a script undo nothing. -/
theorem towards_of_mem_commands (hc : c ∈ commands payload stations) : Towards stations c := by
  rcases List.mem_append.1 hc with h | h
  · obtain ⟨batch, hbatch, rfl⟩ := List.mem_map.1 h
    have hsublist : batch.Sublist (upserts (load payload) (load stations)) := by
      rw [← flatten_chunks (upserts _ _)]
      exact List.sublist_flatten_of_mem hbatch
    exact ⟨fun row hrow => wins_of_mem_upserts (hsublist.subset hrow),
      (nodup_ids_upserts _ _).sublist (hsublist.map _)⟩
  · obtain ⟨batch, hbatch, rfl⟩ := List.mem_map.1 h
    intro id hid row hrow
    have hremoved : id ∈ removed (load payload) (load stations) := by
      rw [← flatten_chunks (removed _ _)]
      exact List.mem_flatten.2 ⟨batch, hbatch, hid⟩
    exact id_ne_of_mem_removed hremoved hrow

/-- The batches of a script are enough for the table that it was computed from. -/
theorem covers_commands (hpayload : Returns t payload) :
    Reconcile.Covers Command.apply (@Goal.Met stations) t
      (commands payload stations) := by
  intro g
  cases g with
  | right row hrow =>
    by_cases hsame : row.same ∈ t.rows
    · left
      rw [← stored_eq_same_iff.2 (double_of_same_mem hpayload hsame)] at hsame
      exact hsame
    · right
      have hmem := (mem_upserts_iff hpayload).2 ⟨hrow, hsame⟩
      rw [← flatten_chunks (upserts _ _)] at hmem
      obtain ⟨batch, hbatch, hmem⟩ := List.mem_flatten.1 hmem
      have hc := upsert_mem_commands_iff.2 hbatch
      refine ⟨.upsert batch, hc, fun t' => ?_⟩
      exact (KeyedTable.mem_replaceAll (nodup_stored (towards_of_mem_commands hc).2)).2
        (.inl (List.mem_map_of_mem hmem))
  | gone id hid =>
    by_cases hgone : ∀ r ∈ t.rows, r.id ≠ id
    · exact .inl hgone
    · right
      simp only [not_forall, not_not] at hgone
      obtain ⟨r, hr, rfl⟩ := hgone
      obtain ⟨row, hrow, rfl⟩ := (same_mem_iff hpayload).1 hr
      have hmem := (mem_removed_iff hpayload).2 ⟨⟨row.same, hr, rfl⟩, fun row' hrow' heq =>
        hid row' hrow' (congrArg Subtype.val heq)⟩
      rw [← flatten_chunks (removed _ _)] at hmem
      obtain ⟨batch, hbatch, hmem⟩ := List.mem_flatten.1 hmem
      refine ⟨.delete batch, delete_mem_commands_iff.2 hbatch, fun t' r' hr' heq => ?_⟩
      exact (KeyedTable.mem_remove.1 hr').2 (List.mem_map.2 ⟨row.id, hmem, heq.symm⟩)

/-! ### The runs as workers -/

theorem statements_eq (payload stations : List Row) :
    statements payload stations = some ((commands payload stations).map Command.statement) := by
  have hread := read_main payload stations
  have hnil : Sql.read [] = some [] := rfl
  rw [statements]
  split
  next hmain =>
    rw [hmain, hnil] at hread
    exact hread
  · exact hread

variable {ι : Type*} {s s' : State ι} {a : Action ι}
  {w : Reconcile.State StationsTable Command ι}

/-- A worker has the batches whose statements are left. -/
def Job.Refines : Job → Reconcile.Job Command → Prop
  | .waiting, .waiting => True
  | .executing rest, .working cs => rest = cs.map Command.statement
  | .cancelled, .stopped => True
  | _, _ => False

/-- The workers share the table and have what the runs have left. -/
structure Refines (s : State ι) (w : Reconcile.State StationsTable Command ι) : Prop where
  table : w.shared = s.table
  job : ∀ i, (s.job i).Refines (w.job i)

section Refines

variable (h : Refines s w) {i : ι} {st : Sql.Statement} {rest : List Sql.Statement}

include h

theorem Refines.waiting (hi : s.job i = .waiting) : w.job i = .waiting := by
  have hjob := h.job i
  rw [hi] at hjob
  generalize w.job i = j at hjob
  cases j with
  | waiting => rfl
  | working cs => cases hjob
  | stopped => cases hjob

theorem Refines.executing (hi : s.job i = .executing rest) :
    ∃ cs, w.job i = .working cs ∧ rest = cs.map Command.statement := by
  have hjob := h.job i
  rw [hi] at hjob
  generalize w.job i = j at hjob
  cases j with
  | waiting => cases hjob
  | working cs => exact ⟨cs, rfl, hjob⟩
  | stopped => cases hjob

theorem Refines.executing_cons (hi : s.job i = .executing (st :: rest)) :
    ∃ c cs, w.job i = .working (c :: cs) ∧ st = c.statement ∧ rest = cs.map Command.statement := by
  obtain ⟨cs, hw, hcs⟩ := h.executing hi
  obtain ⟨c, cs, rfl, hst, hrest⟩ := List.map_eq_cons_iff.1 hcs.symm
  exact ⟨c, cs, hw, hst.symm, hrest.symm⟩

variable [DecidableEq ι]

theorem Refines.update (t' : StationsTable) (i : ι) {j : Job} (j' : Reconcile.Job Command)
    (hj : j.Refines j') :
    Refines ⟨t', Function.update s.job i j⟩ ⟨t', Function.update w.job i j'⟩ := by
  refine ⟨rfl, fun k => ?_⟩
  by_cases hk : k = i
  · subst hk
    simpa using hj
  · simpa [hk] using h.job k

/-- Every step of the runs is one of the workers, on a good plan. -/
theorem Refines.step (hhonest : Honest s a) (ha : SeedRuns.step stations s a = some s') :
    ∃ a' w', Reconcile.Planned Command.apply (@Goal.Met stations) w a' ∧
      Reconcile.step Command.apply w a' = some w' ∧ Refines s' w' := by
  cases a with
  | read i payload =>
    simp only [SeedRuns.step] at ha
    split at ha
    next hi =>
      rw [statements_eq, Option.map_some, ← h.table] at ha
      obtain rfl := Option.some.inj ha
      have hpayload : Returns w.shared payload := h.table ▸ hhonest i payload rfl
      refine ⟨.plan i (commands payload stations), _, ?_, ?_,
        h.update _ i (.working (commands payload stations)) rfl⟩
      · rintro _ _ ⟨⟩
        exact ⟨covers_commands hpayload, fun c hc => (towards_of_mem_commands hc).keeps⟩
      · simp only [Reconcile.step, h.waiting hi]
    next => cases ha
  | exec i =>
    simp only [SeedRuns.step] at ha
    split at ha
    next st rest hi =>
      obtain ⟨c, cs, hw, rfl, rfl⟩ := h.executing_cons hi
      rw [Command.exec_statement, ← h.table] at ha
      obtain rfl := Option.some.inj ha
      exact ⟨.fix i, _, fun _ _ heq => (by cases heq),
        by simp only [Reconcile.step, hw], h.update _ i (.working cs) rfl⟩
    next => cases ha
  | cancel i =>
    simp only [SeedRuns.step, ← h.table] at ha
    split at ha
    next hi =>
      cases ha
      exact ⟨.stop i, _, fun _ _ heq => (by cases heq),
        by simp only [Reconcile.step, h.waiting hi], h.update _ i .stopped trivial⟩
    next st rest hi =>
      cases ha
      obtain ⟨c, cs, hw, -⟩ := h.executing_cons hi
      exact ⟨.stop i, _, fun _ _ heq => (by cases heq),
        by simp only [Reconcile.step, hw], h.update _ i .stopped trivial⟩
    next => cases ha

end Refines

variable [DecidableEq ι]

/-- The states of the runs that read what is there. -/
abbrev Reachable (stations : List Row) (t : StationsTable) (s : State ι) : Prop :=
  Transition.ReachableVia (step stations) Honest (State.init t) s

/-- Every run of the runs is one of workers on good plans. -/
theorem Reachable.exists_refines (h : Reachable stations t s) :
    ∃ w, Transition.ReachableVia (Reconcile.step Command.apply)
      (Reconcile.Planned Command.apply (@Goal.Met stations)) (.init t) w ∧
        Refines s w := by
  refine h.invariant (I := fun s => ∃ w, Transition.ReachableVia (Reconcile.step Command.apply)
    (Reconcile.Planned Command.apply (@Goal.Met stations)) (.init t) w ∧
      Refines s w) ⟨.init t, .refl, rfl, fun _ => trivial⟩ ?_
  rintro s a s' - ⟨w, hw, hrefines⟩ hhonest ha
  obtain ⟨a', w', hplanned, ha', hrefines'⟩ := hrefines.step hhonest ha
  exact ⟨w', hw.tail hplanned ha', hrefines'⟩

/-- **Several seedings at a time.** However many runs for one file are mixed, and wherever some of
them are cancelled, from any table: no statement fails, no row that is as the file has it is ever
lost, and once any one run has executed its script the table has exactly the rows of the file. -/
theorem mem_rows_iff_of_executed (h : Reachable stations t s) :
    (∀ i st rest, s.job i = .executing (st :: rest) → (DiffStations.exec s.table st).isSome) ∧
      (∀ row, Wins stations row → row.stored ∈ t.rows → row.stored ∈ s.table.rows) ∧
      ∀ i, s.job i = .executing [] → ∀ r, r ∈ s.table.rows ↔ ∃ row, Wins stations row ∧
        row.stored = r := by
  obtain ⟨w, hw, hrefines⟩ := h.exists_refines
  refine ⟨fun i st rest hi => ?_, fun row hrow hr => ?_, fun i hi => ?_⟩
  · obtain ⟨c, cs, -, rfl, -⟩ := hrefines.executing_cons hi
    rw [Command.exec_statement]
    rfl
  · rw [← hrefines.table]
    exact Reconcile.met_mono hw (g := Goal.right row hrow) hr
  · obtain ⟨cs, hdone, hcs⟩ := hrefines.executing hi
    obtain rfl := List.map_eq_nil_iff.1 hcs.symm
    rw [← hrefines.table]
    exact forall_met_iff.1 (Reconcile.met_of_done (Reconcile.onPlan hw) hdone)

/-- A run can read the table. -/
theorem Reachable.read (h : Reachable stations t s) {i : ι} (hi : s.job i = .waiting)
    (hpayload : Returns s.table payload) :
    Reachable stations t ⟨s.table, update s.job i
      (.executing ((commands payload stations).map Command.statement))⟩ := by
  have hhonest : Honest s (.read i payload) := by
    rintro _ _ ⟨⟩
    exact hpayload
  exact h.tail hhonest (by simp only [step, hi, statements_eq, Option.map_some])

/-- A run that nobody cancels can be carried out. -/
theorem exists_executed (cs : List Command) {i : ι} (h : Reachable stations t s)
    (hi : s.job i = .executing (cs.map Command.statement)) :
    ∃ s', Reachable stations t s' ∧ s'.job i = .executing [] := by
  induction cs generalizing s with
  | nil => exact ⟨s, h, hi⟩
  | cons c cs ih =>
    have hstep : step stations s (.exec i) =
        some ⟨c.apply s.table, update s.job i (.executing (cs.map Command.statement))⟩ := by
      rw [List.map_cons] at hi
      simp only [step, hi, Command.exec_statement, Option.map_some]
    have hhonest : Honest s (.exec i) := by
      rintro _ _ ⟨⟩
    exact ih (h.tail hhonest hstep) (update_self i _ _)

/-- Two runs read the table, and the first is carried out. -/
theorem mem_rows_iff_of_executed_twoRuns : ∃ s : State (Fin 2), s.job 0 = .executing [] ∧
    (∀ i st rest, s.job i = .executing (st :: rest) → (DiffStations.exec s.table st).isSome) ∧
      (∀ row, Wins [bernQuoted] row → row.stored ∈ (bernTable bern).rows →
        row.stored ∈ s.table.rows) ∧
      ∀ i, s.job i = .executing [] → ∀ r, r ∈ s.table.rows ↔ ∃ row, Wins [bernQuoted] row ∧
        row.stored = r := by
  have hreturns := returns_bernTable double_bern
  have hinit : Reachable [bernQuoted] (bernTable bern) (State.init (ι := Fin 2) (bernTable bern)) :=
    .refl
  have hfirst := Reachable.read hinit (i := 0) rfl hreturns
  have hboth := Reachable.read hfirst (i := 1) rfl hreturns
  obtain ⟨s, hs, hdone⟩ := exists_executed (commands [bern] [bernQuoted]) (i := 0) hboth rfl
  exact ⟨s, hdone, mem_rows_iff_of_executed hs⟩

end Traintime.SeedRuns
