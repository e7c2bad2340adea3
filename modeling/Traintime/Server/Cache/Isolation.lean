import Mathlib.Data.List.Induction
import Traintime.Lib.Decimal
import Traintime.Server.Cache

/-!
# Puts and the other keys

The map of the in-pod cache stands behind a mutex. A put that panics under the lock (the expiry or
the end of a stale window overflows the clock) poisons the mutex, and every later access panics.

A put of one key leaves what is read under the others as it is unless it panics or sweeps away an
entry that one of the readers would still return. The sweep looks at the age alone: it drops an
unexpired entry whose TTL is longer than the stale window, and, at the one instant where the
window ends, an entry that `getStale` still serves.

## Main definitions

* `Server.Locked`: the cache behind its mutex, with `get`, `getStale` and `putAt`.
* `Server.Locked.after`: the cache after a list of puts.
* `Server.Locked.Undisturbed`: a put changes nothing that is read under another key.
* `Server.Locked.Harmless`: the state before a put and its arguments that ensure this.

## Main results

* `Server.Locked.undisturbed_iff_harmless`: one put.
* `Server.Locked.after_putFrame`: the puts of a run, and what is read after harmless ones.
-/

namespace Traintime.Server

/-- The arguments of a put, and the instant of its sweep. -/
structure Put where
  key : String
  value : String
  ttlSecs : ℕ
  fetchedAt : ℕ
  now : ℕ

/-- The sweep of a large map adds the stale window to the fetch of every entry; one of the
additions overflows. -/
def Cache.SweepOverflows (c : Cache) : Prop :=
  c.inner.len > sweepThreshold ∧ ∃ e ∈ c.inner.entries, addSecs e.2.fetchedAt 300 = none

instance (c : Cache) : Decidable c.SweepOverflows :=
  inferInstanceAs (Decidable (_ ∧ _))

/-- The cache behind its mutex, which a panic of a put poisons for all that come after it. -/
structure Locked where
  cache : Cache
  poisoned : Bool

namespace Locked

/-- The cache of a pod that has just started. -/
def empty : Locked := ⟨Cache.empty, false⟩

/-- `Cache::get`. Locking a poisoned mutex panics, which leaves no result. -/
def get (m : Locked) (key : String) (now : ℕ) : Option (Option String) :=
  if m.poisoned then none else some (m.cache.get key now)

/-- `Cache::get_stale` with `STALE_MAX_AGE`. Locking a poisoned mutex panics here too. -/
def getStale (m : Locked) (key : String) (now : ℕ) : Option (Option (String × ℕ)) :=
  if m.poisoned then none else some (m.cache.getStale key staleMaxAge now)

/-- `Cache::put_at`. A panic under the lock poisons the mutex. -/
def putAt (m : Locked) (p : Put) : Locked :=
  if m.poisoned then m
  else if m.cache.SweepOverflows then { m with poisoned := true }
  else
    match m.cache.putAt p.key p.value p.ttlSecs p.fetchedAt p.now with
    | some c => { m with cache := c }
    | none => ⟨⟨m.cache.swept p.now⟩, true⟩

/-- The cache after a list of puts. -/
def after (puts : List Put) : Locked :=
  puts.foldl putAt empty

/-- The put changes nothing that is read under another key, then or later. -/
def Undisturbed (m : Locked) (p : Put) : Prop :=
  ∀ k, k ≠ p.key → ∀ t, p.now ≤ t →
    (m.putAt p).get k t = m.get k t ∧ (m.putAt p).getStale k t = m.getStale k t

/-- Nobody can read the cache any more, or the put does not panic and its sweep, if there is one,
meets no entry of another key whose stale window has ended although it is unexpired, or ends
at this instant. -/
def Harmless (m : Locked) (p : Put) : Prop :=
  m.poisoned = true ∨
    ¬ m.cache.SweepOverflows ∧ addSecs p.fetchedAt p.ttlSecs ≠ none ∧
      (m.cache.inner.len > sweepThreshold → ∀ k e, k ≠ p.key → m.cache.inner.lookup k = some e →
        e.fetchedAt + staleMaxAge ≤ p.now → e.expiry ≤ p.now ∧ e.fetchedAt + staleMaxAge ≠ p.now)

/-- Every put of the list is harmless when it is made. -/
def HarmlessRun (puts : List Put) : Prop :=
  ∀ qs p, qs ++ [p] <+: puts → (after qs).Harmless p

/-- The entry that the last put of a key stored, as if there were no other keys. -/
def ownEntry (puts : List Put) (k : String) : Option Entry :=
  (puts.filter fun p => p.key = k).getLast?.map fun p =>
    ⟨p.value, p.fetchedAt + p.ttlSecs * second, p.fetchedAt⟩

variable {m : Locked} {p : Put} {k : String} {t : ℕ}

theorem after_concat (puts : List Put) (p : Put) : after (puts ++ [p]) = (after puts).putAt p := by
  simp [after]

/-! ### One put -/

/-- A put that does not panic replaces the map. -/
theorem exists_putAt (hm : m.poisoned = false) (ho : ¬ m.cache.SweepOverflows)
    (hadd : addSecs p.fetchedAt p.ttlSecs ≠ none) :
    ∃ c, m.cache.putAt p.key p.value p.ttlSecs p.fetchedAt p.now = some c ∧
      m.putAt p = ⟨c, false⟩ := by
  obtain ⟨expiry, he⟩ := Option.ne_none_iff_exists'.1 hadd
  refine ⟨_, by rw [Cache.putAt, he, Option.map_some], ?_⟩
  rw [putAt, if_neg (by simp [hm]), if_neg ho, Cache.putAt, he]
  simp [hm]

/-- The mutex is poisoned after a put exactly if it was before or the put panics. -/
theorem poisoned_putAt :
    (m.putAt p).poisoned = true ↔
      m.poisoned = true ∨ m.cache.SweepOverflows ∨ addSecs p.fetchedAt p.ttlSecs = none := by
  cases hm : m.poisoned with
  | true => simp [putAt, hm]
  | false =>
    by_cases ho : m.cache.SweepOverflows
    · simp [putAt, hm, ho]
    · cases hc : addSecs p.fetchedAt p.ttlSecs <;> simp [putAt, Cache.putAt, hm, ho, hc]

/-- What a sweep keeps of an entry that was fetched long ago. -/
theorem lookup_swept_of_le {c : Cache} {e : Entry} {now : ℕ} (hc : c.inner.len > sweepThreshold)
    (he : c.inner.lookup k = some e) (hold : e.fetchedAt + staleMaxAge ≤ now) :
    (c.swept now).lookup k = none := by
  rw [Cache.swept, if_pos hc, AssocMap.lookup_retain, he]
  simpa using hold

/-- Some other key. -/
theorem exists_key_ne (k : String) : ∃ k' : String, k' ≠ k := by
  by_cases h : k = ""
  · exact ⟨"departures", by simp [h]⟩
  · exact ⟨"", fun he => h he.symm⟩

/-- Maps with the same entry under a key answer alike. -/
theorem reads_eq_of_lookup {m m' : Locked} (hm : m.poisoned = false) (hm' : m'.poisoned = false)
    (h : m'.cache.inner.lookup k = m.cache.inner.lookup k) (t : ℕ) :
    m'.get k t = m.get k t ∧ m'.getStale k t = m.getStale k t := by
  simp [get, getStale, hm, hm', Cache.get, Cache.getStale, h]

/-- A harmless put disturbs no other key. -/
theorem undisturbed_of_harmless (h : m.Harmless p) : m.Undisturbed p := by
  intro k hk t ht
  rcases h with hm | ⟨ho, hadd, hdrop⟩
  · rw [putAt, if_pos hm]
    exact ⟨rfl, rfl⟩
  cases hm : m.poisoned with
  | true => simp [putAt, hm]
  | false =>
    obtain ⟨c, hc, hput⟩ := exists_putAt hm ho hadd
    rw [hput]
    have hl : c.inner.lookup k = (m.cache.swept p.now).lookup k := Cache.lookup_putAt_of_ne hc hk
    rcases Cache.lookup_swept m.cache p.now k with hs | ⟨hs, e, he, hold⟩
    · exact reads_eq_of_lookup hm rfl (hl.trans hs) t
    · -- the entry is gone, but its readers would have refused it from now on
      have hlen : m.cache.inner.len > sweepThreshold := by
        by_contra hlen
        rw [Cache.swept, if_neg hlen, he] at hs
        cases hs
      obtain ⟨hexp, hne⟩ := hdrop hlen k e hk he hold
      have hget : m.cache.get k t = none := by
        refine Cache.get_eq_none_iff.2 fun e' he' => ?_
        obtain rfl : e = e' := Option.some.inj (he.symm.trans he')
        omega
      have hstale : m.cache.getStale k staleMaxAge t = none := by
        refine Cache.getStale_eq_none_iff.2 fun e' he' => ?_
        obtain rfl : e = e' := Option.some.inj (he.symm.trans he')
        omega
      have hgone : c.inner.lookup k = none := hl.trans hs
      have hget' : c.get k t = none := Cache.get_eq_none_iff.2 (by simp [hgone])
      have hstale' : c.getStale k staleMaxAge t = none :=
        Cache.getStale_eq_none_iff.2 (by simp [hgone])
      simp [get, getStale, hm, hget, hstale, hget', hstale']

/-- A put that disturbs no other key is harmless. -/
theorem harmless_of_undisturbed (h : m.Undisturbed p) : m.Harmless p := by
  cases hm : m.poisoned with
  | true => exact Or.inl hm
  | false =>
    right
    -- another key can still be read after the put, so it did not panic
    obtain ⟨k₀, hk₀⟩ := exists_key_ne p.key
    have hp : ¬ (m.putAt p).poisoned = true := by
      intro hp
      have := (h k₀ hk₀ p.now le_rfl).1
      simp [get, hp, hm] at this
    rw [poisoned_putAt, hm] at hp
    push Not at hp
    obtain ⟨-, ho, hadd⟩ := hp
    refine ⟨ho, hadd, fun hlen k e hk he hold => ?_⟩
    obtain ⟨c, hc, hput⟩ := exists_putAt hm ho hadd
    have hl : c.inner.lookup k = none := by
      rw [Cache.lookup_putAt_of_ne hc hk, lookup_swept_of_le hlen he hold]
    obtain ⟨hget, hstale⟩ := h k hk p.now le_rfl
    rw [hput] at hget hstale
    have hget' : m.cache.get k p.now = none := by
      simpa [get, hm, Cache.get, hl] using hget.symm
    have hstale' : m.cache.getStale k staleMaxAge p.now = none := by
      simpa [getStale, hm, Cache.getStale, hl] using hstale.symm
    have hexp := Cache.get_eq_none_iff.1 hget' e he
    have hage := Cache.getStale_eq_none_iff.1 hstale' e he
    exact ⟨hexp, by omega⟩

/-- A put disturbs no other key exactly if it is harmless. -/
theorem undisturbed_iff_harmless : m.Undisturbed p ↔ m.Harmless p :=
  ⟨harmless_of_undisturbed, undisturbed_of_harmless⟩

/-! ### Runs -/

theorem HarmlessRun.of_prefix {puts qs : List Put} (h : HarmlessRun puts) (hq : qs <+: puts) :
    HarmlessRun qs :=
  fun rs p hr => h rs p (hr.trans hq)

theorem harmlessRun_nil : HarmlessRun [] := fun qs p h => by
  simp at h

theorem HarmlessRun.concat {puts : List Put} (h : HarmlessRun puts) (hp : (after puts).Harmless p) :
    HarmlessRun (puts ++ [p]) := by
  intro qs q hq
  rcases List.prefix_concat_iff.1 hq with heq | hpre
  · obtain ⟨rfl, hlast⟩ := List.append_inj' heq rfl
    rwa [List.singleton_inj.1 hlast]
  · exact h qs q hpre

/-- A put into a small map is harmless when its TTL fits the clock. -/
theorem harmless_of_len_le (hlen : m.cache.inner.len ≤ sweepThreshold)
    (hadd : addSecs p.fetchedAt p.ttlSecs ≠ none) : m.Harmless p :=
  Or.inr ⟨fun h => by have := h.1; omega, hadd, fun h => by omega⟩

/-- Nothing panics in a run of harmless puts. -/
theorem HarmlessRun.poisoned_after {puts : List Put} (h : HarmlessRun puts) :
    (after puts).poisoned = false := by
  induction puts using List.reverseRecOn with
  | nil => rfl
  | append_singleton puts p ih =>
    have hm := ih (h.of_prefix (List.prefix_append _ _))
    rcases h puts p (List.prefix_refl _) with hp | ⟨ho, hadd, -⟩
    · rw [hm] at hp
      cases hp
    · obtain ⟨c, -, hput⟩ := exists_putAt hm ho hadd
      rw [after_concat, hput]

/-- The last put of a run is stored under its key. -/
theorem HarmlessRun.lookup_after_concat {puts : List Put} {p : Put}
    (h : HarmlessRun (puts ++ [p])) :
    (after (puts ++ [p])).cache.inner.lookup p.key =
      some ⟨p.value, p.fetchedAt + p.ttlSecs * second, p.fetchedAt⟩ := by
  have hm := (h.of_prefix (List.prefix_append _ _)).poisoned_after
  rcases h puts p (List.prefix_refl _) with hp | ⟨ho, hadd, -⟩
  · rw [hm] at hp
    cases hp
  · obtain ⟨c, hc, hput⟩ := exists_putAt hm ho hadd
    rw [after_concat, hput]
    exact Cache.lookup_putAt_self hc

theorem ownEntry_concat (puts : List Put) (p : Put) (k : String) :
    ownEntry (puts ++ [p]) k =
      if p.key = k then some ⟨p.value, p.fetchedAt + p.ttlSecs * second, p.fetchedAt⟩
      else ownEntry puts k := by
  unfold ownEntry
  split_ifs with hk <;> simp [hk]

/-- After harmless puts a key is read as its own last put left it. -/
theorem HarmlessRun.reads {puts : List Put} (h : HarmlessRun puts) (ht : ∀ p ∈ puts, p.now ≤ t) :
    (after puts).get k t =
        some (((ownEntry puts k).filter fun e => t < e.expiry).map Entry.value) ∧
      (after puts).getStale k t =
        some (((ownEntry puts k).filter fun e => t - e.fetchedAt ≤ staleMaxAge).map fun e =>
          (e.value, (t - e.fetchedAt) / second)) := by
  induction puts using List.reverseRecOn with
  | nil => exact ⟨rfl, rfl⟩
  | append_singleton puts p ih =>
    have hpre := h.of_prefix (List.prefix_append puts [p])
    rw [ownEntry_concat]
    split_ifs with hk
    · subst hk
      simp [get, getStale, h.poisoned_after, Cache.get, Cache.getStale, h.lookup_after_concat,
        Option.filter]
      split_ifs <;> first | rfl | omega
    · have hput := undisturbed_of_harmless (h puts p (List.prefix_refl _)) k (Ne.symm hk) t
        (ht p (by simp))
      rw [after_concat, hput.1, hput.2]
      exact ih hpre fun q hq => ht q (by simp [hq])

/-- A put disturbs no other key exactly if it is harmless, whatever puts came before; after a run
of harmless puts every key is read as its own last put left it. -/
theorem after_putFrame (puts : List Put) :
    (∀ p, (after puts).Undisturbed p ↔ (after puts).Harmless p) ∧
      (HarmlessRun puts → ∀ k t, (∀ p ∈ puts, p.now ≤ t) →
        (after puts).get k t =
            some (((ownEntry puts k).filter fun e => t < e.expiry).map Entry.value) ∧
          (after puts).getStale k t =
            some (((ownEntry puts k).filter fun e => t - e.fetchedAt ≤ staleMaxAge).map fun e =>
              (e.value, (t - e.fetchedAt) / second))) :=
  ⟨fun _ => undisturbed_iff_harmless, fun h _ _ ht => h.reads ht⟩

/-! ### Sweeps of a large map -/

/-- The put of the departures of one of many stations. -/
def stationPut (ttlSecs i : ℕ) : Put :=
  ⟨"departures:" ++ i.repr ++ ":50", "[]", ttlSecs, 0, 0⟩

theorem stationPut_key_inj {ttlSecs i j : ℕ} :
    (stationPut ttlSecs i).key = (stationPut ttlSecs j).key ↔ i = j := by
  simp only [stationPut, String.append_left_inj, String.append_right_inj, Decimal.repr_inj]

/-- Puts of different keys into a map below the threshold only add entries. -/
theorem after_stationPuts {ttlSecs : ℕ} (hadd : addSecs 0 ttlSecs ≠ none) (n : ℕ)
    (hn : n ≤ sweepThreshold + 1) :
    HarmlessRun ((List.range n).map (stationPut ttlSecs)) ∧
      (after ((List.range n).map (stationPut ttlSecs))).cache.inner.len = n ∧
      (∀ i, (after ((List.range n).map (stationPut ttlSecs))).cache.inner.lookup
          (stationPut ttlSecs i).key =
        if i < n then some ⟨"[]", ttlSecs * second, 0⟩ else none) ∧
      ∀ k e, (after ((List.range n).map (stationPut ttlSecs))).cache.inner.lookup k = some e →
        e = ⟨"[]", ttlSecs * second, 0⟩ := by
  induction n with
  | zero => exact ⟨harmlessRun_nil, rfl, fun i => rfl, fun k e h => by cases h⟩
  | succ n ih =>
    obtain ⟨hrun, hlen, hlook, hall⟩ := ih (by omega)
    have hbelow : (after ((List.range n).map (stationPut ttlSecs))).cache.inner.len ≤
        sweepThreshold := by omega
    have hrun' : HarmlessRun ((List.range n).map (stationPut ttlSecs) ++ [stationPut ttlSecs n]) :=
      hrun.concat (harmless_of_len_le hbelow hadd)
    have hm := hrun.poisoned_after
    rw [List.range_succ, List.map_append, List.map_singleton, after_concat]
    refine ⟨hrun', ?_⟩
    generalize after ((List.range n).map (stationPut ttlSecs)) = m at hm hlen hlook hall hbelow ⊢
    obtain ⟨c, hc, hput⟩ := exists_putAt (p := stationPut ttlSecs n) hm
      (fun h => absurd h.1 (not_lt.2 hbelow)) hadd
    obtain ⟨expiry, he, rfl⟩ := Option.map_eq_some_iff.1 hc
    have hswept : m.cache.swept (stationPut ttlSecs n).now = m.cache.inner :=
      if_neg (not_lt.2 hbelow)
    have hnew : m.cache.inner.lookup (stationPut ttlSecs n).key = none := by
      rw [hlook, if_neg (lt_irrefl n)]
    rw [hput]
    refine ⟨?_, fun i => ?_, fun k e hk => ?_⟩
    · rw [hswept, AssocMap.len_insert_of_lookup_eq_none hnew, hlen]
    · rw [Cache.lookup_putAt hc, hswept, hlook]
      simp only [stationPut_key_inj]
      rcases lt_trichotomy i n with h | rfl | h
      · rw [if_neg h.ne, if_pos h, if_pos (by omega)]
      · rw [if_pos rfl, if_pos (by omega)]
        simp [stationPut]
      · rw [if_neg h.ne', if_neg (by omega), if_neg (by omega)]
    · rw [Cache.lookup_putAt hc, hswept] at hk
      split_ifs at hk
      · rw [← Option.some.inj hk]
        simp [stationPut]
      · exact hall k e hk

/-- A put into a map of 4097 entries that were all fetched 301 s ago. -/
def latePut : Put :=
  ⟨"formation:SBBP:2026-01-01:95:all", "{}", 300, 301 * second, 301 * second⟩

/-- A run whose last put sweeps away 4097 expired entries. -/
def sweepPuts : List Put := (List.range (sweepThreshold + 1)).map (stationPut 60) ++ [latePut]

theorem harmlessRun_sweepPuts : HarmlessRun sweepPuts := by
  obtain ⟨hrun, -, -, hall⟩ := after_stationPuts (by decide : addSecs 0 60 ≠ none)
    (sweepThreshold + 1) le_rfl
  refine hrun.concat (.inr ⟨?_, by decide, fun _ k e _ hk _ => ?_⟩)
  · rintro ⟨-, ⟨k, e⟩, hmem, hnone⟩
    have hfits : addSecs 0 300 ≠ none := by decide
    rw [hall k e (AssocMap.lookup_eq_some_iff.2 hmem)] at hnone
    exact hfits hnone
  · rw [hall k e hk]
    exact ⟨by decide, by decide⟩

/-- The stations' entries are gone after the sweep, and none of them could have been read. -/
theorem after_putFrame_sweep :
    (after sweepPuts).cache.inner.lookup (stationPut 60 0).key = none ∧
      (after sweepPuts).getStale latePut.key (302 * second) = some (some ("{}", 1)) ∧
      ∀ k t, (∀ p ∈ sweepPuts, p.now ≤ t) →
        (after sweepPuts).get k t =
            some (((ownEntry sweepPuts k).filter fun e => t < e.expiry).map Entry.value) ∧
          (after sweepPuts).getStale k t =
            some (((ownEntry sweepPuts k).filter fun e => t - e.fetchedAt ≤ staleMaxAge).map
              fun e => (e.value, (t - e.fetchedAt) / second)) := by
  have hreads := (after_putFrame sweepPuts).2 harmlessRun_sweepPuts
  refine ⟨?_, ?_, hreads⟩
  · obtain ⟨hrun, hlen, hlook, -⟩ := after_stationPuts (by decide : addSecs 0 60 ≠ none)
      (sweepThreshold + 1) le_rfl
    have hharmless := harmlessRun_sweepPuts _ latePut (List.prefix_refl _)
    rw [sweepPuts, after_concat]
    have hm := hrun.poisoned_after
    generalize after ((List.range (sweepThreshold + 1)).map (stationPut 60)) = m
      at hm hlen hlook hharmless ⊢
    rcases hharmless with hp | ⟨ho, hadd, -⟩
    · rw [hm] at hp
      cases hp
    · obtain ⟨c, hc, hput⟩ := exists_putAt hm ho hadd
      have hentry : m.cache.inner.lookup (stationPut 60 0).key = some ⟨"[]", 60 * second, 0⟩ := by
        rw [hlook, if_pos (by omega)]
      rw [hput]
      show c.inner.lookup _ = none
      rw [Cache.lookup_putAt_of_ne hc (by decide),
        lookup_swept_of_le (by omega) hentry (by decide)]
  · have hpast : ∀ p ∈ sweepPuts, p.now ≤ 302 * second := by
      intro p hp
      rcases List.mem_append.1 hp with hp | hp
      · obtain ⟨i, -, rfl⟩ := List.mem_map.1 hp
        exact Nat.zero_le _
      · rw [List.mem_singleton.1 hp]
        decide
    have hown : ownEntry sweepPuts latePut.key = some ⟨"{}", 601 * second, 301 * second⟩ := by
      rw [sweepPuts, ownEntry_concat, if_pos rfl]
      decide
    rw [(hreads _ _ hpast).2, hown]
    decide

/-- The departures of a station are read for an hour, unless 4096 other keys are stored as well:
then the put of a formation removes them after five minutes. -/
theorem latePut_disturbs :
    ¬ (after ((List.range (sweepThreshold + 1)).map (stationPut 3600))).Undisturbed latePut := by
  intro h
  obtain ⟨hrun, hlen, hlook, -⟩ := after_stationPuts (by decide : addSecs 0 3600 ≠ none)
    (sweepThreshold + 1) le_rfl
  have hm := hrun.poisoned_after
  generalize after ((List.range (sweepThreshold + 1)).map (stationPut 3600)) = m
    at h hm hlen hlook
  rcases harmless_of_undisturbed h with hp | ⟨-, -, hdrop⟩
  · rw [hm] at hp
    cases hp
  · have hkey : (stationPut 3600 0).key ≠ latePut.key := by decide
    have hentry : m.cache.inner.lookup (stationPut 3600 0).key =
        some ⟨"[]", 3600 * second, 0⟩ := by
      rw [hlook, if_pos (by omega)]
    obtain ⟨hexp, -⟩ := hdrop (by omega) _ _ hkey hentry (by decide)
    exact absurd hexp (by decide)

end Locked

end Traintime.Server
