import Traintime.Server.Memcached.Pool

/-!
# Who reads which reply

Every connection is idle, owned by one call, or lost. An idle connection is clean, and a call reads
on its connection the answer to its own command and nothing else. The invariant is kept by every
step of a call, whether it succeeds, fails, times out or is dropped, and by every step of the server
and the network.

## Main definitions

* `Answered`: the run has a step at which the server answers the command of a call.
* `Linked`: how a call and its connection belong together.
* `Sound`: the invariant.

## Main results

* `Sound.step`: every step keeps the invariant.
* `pool_sound`: idle connections are clean, at most `poolSize` and owned by nobody, and a get reads
  the answer to its own command and returns a value the server held under its key.
-/

namespace Traintime.Server.Memcached

variable {ι : Type} [DecidableEq ι] (op : ι → Op) (items₀ : Items) (as : List (PoolAction ι))

/-- In the run, in the state `t`, the server takes and answers the command that the call `r` has
written on its connection `c`. -/
def Answered (r : ι) (c : ℕ) (own : Option (List UInt8)) (t : Pool ι) : Prop :=
  (∀ l ∈ own, Reader.nl ∉ l) ∧ t.pc r = .reading c ∧ (t.conns c).sent = (op r).request ∧
    ∃ bs, bs ++ [.conn c (.answer own)] <+: as ∧
      Transition.run (poolStep op) bs (Pool.init items₀) = some t

/-- The server holds a value under the key when it answers the command of the call. -/
def Held (r : ι) (key v : String) : Prop :=
  ∃ c t flags, Answered op items₀ as r c none t ∧
    t.items.lookup (Utf8.encode key) = some ⟨flags, Utf8.encode v⟩

/-- The bytes on the connection of a call that awaits its reply: its whole request, or what is left
of the answer to it. -/
def Reads (r : ι) (c : ℕ) (x : Conn) : Prop :=
  (x.sent = (op r).request ∧ x.arrived = [] ∧ x.underway = []) ∨
    (x.sent = [] ∧ ∃ own t, Answered op items₀ as r c own t ∧
      x.arrived ++ x.underway <+: answerBytes t.items (op r).command own ∧
      (x.closed = false → x.arrived ++ x.underway = answerBytes t.items (op r).command own))

/-- A value is one the server held. -/
def Returns (r : ι) (out : Output) : Prop :=
  ∀ v, out = .got (some v) → ∃ key, op r = .get key ∧ Held op items₀ as r key v

/-- How a call and its connection belong together. -/
def Linked (r : ι) (conns : ℕ → Conn) : Pc → Prop
  | .picking | .connecting => (op r).allowed = true
  | .writing c rest => (op r).allowed = true ∧ rest ≠ [] ∧
      (conns c).sent ++ rest = (op r).request ∧ (conns c).arrived = [] ∧ (conns c).underway = []
  | .reading c => (op r).allowed = true ∧ Reads op items₀ as r c (conns c)
  | .releasing c out => (conns c).Clean ∧ Returns op items₀ as r out
  | .done (some out) => Returns op items₀ as r out
  | .ready | .done none | .dropped => True

/-- The invariant of the idle connections, the connections, their number and the calls. -/
structure Sound (idle : List ℕ) (conns : ℕ → Conn) (made : ℕ) (pc : ι → Pc) : Prop where
  length_le : idle.length ≤ poolSize
  nodup : idle.Nodup
  idle_lt : ∀ c ∈ idle, c < made
  clean : ∀ c ∈ idle, (conns c).Clean
  owned_lt : ∀ r c, (pc r).conn? = some c → c < made
  not_idle : ∀ r c, (pc r).conn? = some c → c ∉ idle
  unique : ∀ r r' c, (pc r).conn? = some c → (pc r').conn? = some c → r = r'
  closed : ∀ c, (conns c).closed = true → (conns c).underway = []
  linked : ∀ r, Linked op items₀ as r conns (pc r)

variable {op items₀ as}

/-! ### Longer runs -/

theorem Answered.mono {r : ι} {c : ℕ} {own : Option (List UInt8)} {t : Pool ι}
    (h : Answered op items₀ as r c own t) (as' : List (PoolAction ι)) :
    Answered op items₀ (as ++ as') r c own t := by
  obtain ⟨hown, hpc, hsent, bs, hbs, hrun⟩ := h
  exact ⟨hown, hpc, hsent, bs, hbs.trans (List.prefix_append _ _), hrun⟩

theorem Returns.mono {r : ι} {out : Output} (h : Returns op items₀ as r out)
    (as' : List (PoolAction ι)) : Returns op items₀ (as ++ as') r out := by
  intro v hv
  obtain ⟨key, hkey, c, t, flags, hans, hitem⟩ := h v hv
  exact ⟨key, hkey, c, t, flags, hans.mono as', hitem⟩

theorem Reads.mono {r : ι} {c : ℕ} {x : Conn} (h : Reads op items₀ as r c x)
    (as' : List (PoolAction ι)) : Reads op items₀ (as ++ as') r c x := by
  rcases h with h | ⟨hsent, own, t, hans, hbytes⟩
  · exact .inl h
  · exact .inr ⟨hsent, own, t, hans.mono as', hbytes⟩

theorem Linked.mono {r : ι} {conns : ℕ → Conn} {pc : Pc} (h : Linked op items₀ as r conns pc)
    (as' : List (PoolAction ι)) : Linked op items₀ (as ++ as') r conns pc := by
  match pc, h with
  | .picking, h => exact h
  | .connecting, h => exact h
  | .writing c rest, h => exact h
  | .reading c, h => exact ⟨h.1, h.2.mono as'⟩
  | .releasing c out, h => exact ⟨h.1, h.2.mono as'⟩
  | .done (some out), h => exact Returns.mono h as'
  | .ready, h => exact h
  | .done none, h => exact h
  | .dropped, h => exact h

/-- Only the connection of a call matters to it. -/
theorem Linked.congr {r : ι} {conns conns' : ℕ → Conn} {pc : Pc}
    (h : Linked op items₀ as r conns pc) (hc : ∀ c, pc.conn? = some c → conns' c = conns c) :
    Linked op items₀ as r conns' pc := by
  match pc, h with
  | .picking, h => exact h
  | .connecting, h => exact h
  | .writing c rest, h => simpa only [Linked, hc c rfl] using h
  | .reading c, h => simpa only [Linked, hc c rfl] using h
  | .releasing c out, h => simpa only [Linked, hc c rfl] using h
  | .done (some out), h => exact h
  | .ready, h => exact h
  | .done none, h => exact h
  | .dropped, h => exact h

theorem Sound.init : Sound op items₀ [] [] (fun _ => .new) 0 (fun _ : ι => Pc.ready) where
  length_le := by decide
  nodup := List.nodup_nil
  idle_lt _ h := by cases h
  clean _ h := by cases h
  owned_lt _ _ h := by cases h
  not_idle _ _ h := by cases h
  unique _ _ _ h := by cases h
  closed _ h := by cases h
  linked _ := trivial

/-! ### Steps of calls -/

section Moves

variable {idle idle' : List ℕ} {conns conns' : ℕ → Conn} {made made' : ℕ} {pc : ι → Pc} {r : ι}
  {pc' : Pc} {a : PoolAction ι} {c : ℕ} {x : Conn}

/-- One call moves; the idle connections and those of the other calls are as good as before. -/
theorem Sound.move (h : Sound op items₀ as idle conns made pc) (hmade : made ≤ made')
    (hlength : idle'.length ≤ poolSize) (hnodup : idle'.Nodup)
    (hidle : ∀ c ∈ idle', c < made' ∧ (conns' c).Clean)
    (howned : ∀ c, pc'.conn? = some c →
      c < made' ∧ c ∉ idle' ∧ ∀ r', r' ≠ r → (pc r').conn? ≠ some c)
    (hframe : ∀ r', r' ≠ r → ∀ c, (pc r').conn? = some c → c ∉ idle' ∧ conns' c = conns c)
    (hclosed : ∀ c, (conns' c).closed = true → (conns' c).underway = [])
    (hlinked : Linked op items₀ (as ++ [a]) r conns' pc') :
    Sound op items₀ (as ++ [a]) idle' conns' made' (Function.update pc r pc') where
  length_le := hlength
  nodup := hnodup
  idle_lt c hc := (hidle c hc).1
  clean c hc := (hidle c hc).2
  owned_lt r' c hc := by
    by_cases hr : r' = r
    · subst hr
      rw [Function.update_self] at hc
      exact (howned c hc).1
    · rw [Function.update_of_ne hr] at hc
      exact (h.owned_lt r' c hc).trans_le hmade
  not_idle r' c hc := by
    by_cases hr : r' = r
    · subst hr
      rw [Function.update_self] at hc
      exact (howned c hc).2.1
    · rw [Function.update_of_ne hr] at hc
      exact (hframe r' hr c hc).1
  unique r₁ r₂ c h₁ h₂ := by
    by_cases hr₁ : r₁ = r <;> by_cases hr₂ : r₂ = r
    · exact hr₁.trans hr₂.symm
    · subst hr₁
      rw [Function.update_self] at h₁
      rw [Function.update_of_ne hr₂] at h₂
      exact absurd h₂ ((howned c h₁).2.2 r₂ hr₂)
    · subst hr₂
      rw [Function.update_self] at h₂
      rw [Function.update_of_ne hr₁] at h₁
      exact absurd h₁ ((howned c h₂).2.2 r₁ hr₁)
    · rw [Function.update_of_ne hr₁] at h₁
      rw [Function.update_of_ne hr₂] at h₂
      exact h.unique r₁ r₂ c h₁ h₂
  closed := hclosed
  linked r' := by
    by_cases hr : r' = r
    · subst hr
      rwa [Function.update_self]
    · rw [Function.update_of_ne hr]
      exact ((h.linked r').mono [a]).congr fun c hc => (hframe r' hr c hc).2

theorem Sound.closed_update (h : Sound op items₀ as idle conns made pc)
    (hx : x.closed = true → x.underway = []) (c' : ℕ) :
    (Function.update conns c x c').closed = true → (Function.update conns c x c').underway = [] := by
  by_cases heq : c' = c
  · subst heq
    rwa [Function.update_self]
  · rw [Function.update_of_ne heq]
    exact h.closed c'

/-- A call that owns no connection after the step. -/
theorem Sound.leave (h : Sound op items₀ as idle conns made pc) (hconn : pc'.conn? = none)
    (hlinked : Linked op items₀ (as ++ [a]) r conns pc') :
    Sound op items₀ (as ++ [a]) idle conns made (Function.update pc r pc') := by
  refine h.move le_rfl h.length_le h.nodup (fun c hc => ⟨h.idle_lt c hc, h.clean c hc⟩)
    (fun c hc => ?_) (fun r' _ c hc => ⟨h.not_idle r' c hc, rfl⟩) h.closed hlinked
  rw [hconn] at hc
  cases hc

/-- A call that keeps its connection, on which something happens. -/
theorem Sound.keep (h : Sound op items₀ as idle conns made pc) (hc : (pc r).conn? = some c)
    (hconn : pc'.conn? = some c) (hx : x.closed = true → x.underway = [])
    (hlinked : Linked op items₀ (as ++ [a]) r (Function.update conns c x) pc') :
    Sound op items₀ (as ++ [a]) idle (Function.update conns c x) made (Function.update pc r pc') := by
  have hother : ∀ r', r' ≠ r → (pc r').conn? ≠ some c := fun r' hr hc' =>
    hr (h.unique r' r c hc' hc)
  refine h.move le_rfl h.length_le h.nodup (fun c' hc' => ⟨h.idle_lt c' hc', ?_⟩)
    (fun c' hc' => ?_) (fun r' hr c' hc' => ⟨h.not_idle r' c' hc', ?_⟩) (h.closed_update hx) hlinked
  · have hne : c' ≠ c := by
      rintro rfl
      exact h.not_idle r c' hc hc'
    rw [Function.update_of_ne hne]
    exact h.clean c' hc'
  · obtain rfl := Option.some.inj (hconn.symm.trans hc')
    exact ⟨h.owned_lt r c hc, h.not_idle r c hc, hother⟩
  · have hne : c' ≠ c := by
      rintro rfl
      exact hother r' hr hc'
    rw [Function.update_of_ne hne]

/-- A call takes the last idle connection. -/
theorem Sound.take (h : Sound op items₀ as (c :: idle) conns made pc)
    (hconn : pc'.conn? = some c) (hlinked : Linked op items₀ (as ++ [a]) r conns pc') :
    Sound op items₀ (as ++ [a]) idle conns made (Function.update pc r pc') := by
  obtain ⟨hc, hnodup⟩ := List.nodup_cons.1 h.nodup
  refine h.move le_rfl ((Nat.le_succ _).trans h.length_le) hnodup
    (fun c' hc' => ⟨h.idle_lt c' (List.mem_cons_of_mem _ hc'),
      h.clean c' (List.mem_cons_of_mem _ hc')⟩)
    (fun c' hc' => ?_)
    (fun r' _ c' hc' => ⟨fun hmem => h.not_idle r' c' hc' (List.mem_cons_of_mem _ hmem), rfl⟩)
    h.closed hlinked
  obtain rfl := Option.some.inj (hconn.symm.trans hc')
  exact ⟨h.idle_lt c List.mem_cons_self, hc, fun r' _ hc' =>
    h.not_idle r' c hc' List.mem_cons_self⟩

/-- A call makes a connection. -/
theorem Sound.make (h : Sound op items₀ as idle conns made pc)
    (hconn : pc'.conn? = some made)
    (hlinked : Linked op items₀ (as ++ [a]) r (Function.update conns made .new) pc') :
    Sound op items₀ (as ++ [a]) idle (Function.update conns made .new) (made + 1)
      (Function.update pc r pc') := by
  have hold : ∀ c, c < made → Function.update conns made .new c = conns c := fun c hc =>
    Function.update_of_ne hc.ne _ _
  refine h.move (Nat.le_succ _) h.length_le h.nodup
    (fun c hc => ⟨(h.idle_lt c hc).trans (Nat.lt_succ_self _), ?_⟩) (fun c hc => ?_)
    (fun r' _ c hc => ⟨h.not_idle r' c hc, hold c (h.owned_lt r' c hc)⟩)
    (h.closed_update fun _ => rfl) hlinked
  · rw [hold c (h.idle_lt c hc)]
    exact h.clean c hc
  · obtain rfl := Option.some.inj (hconn.symm.trans hc)
    exact ⟨Nat.lt_succ_self _, fun hc => lt_irrefl _ (h.idle_lt _ hc),
      fun r' _ hc => lt_irrefl _ (h.owned_lt r' _ hc)⟩

/-- A call gives its clean connection back. -/
theorem Sound.giveBack (h : Sound op items₀ as idle conns made pc) (hc : (pc r).conn? = some c)
    (hclean : (conns c).Clean) (hroom : idle.length < poolSize) (hconn : pc'.conn? = none)
    (hlinked : Linked op items₀ (as ++ [a]) r conns pc') :
    Sound op items₀ (as ++ [a]) (c :: idle) conns made (Function.update pc r pc') := by
  refine h.move le_rfl hroom (List.nodup_cons.2 ⟨h.not_idle r c hc, h.nodup⟩) (fun c' hc' => ?_)
    (fun c' hc' => ?_) (fun r' hr c' hc' => ⟨fun hmem => ?_, rfl⟩) h.closed hlinked
  · rcases List.mem_cons.1 hc' with rfl | hc'
    · exact ⟨h.owned_lt r c' hc, hclean⟩
    · exact ⟨h.idle_lt c' hc', h.clean c' hc'⟩
  · rw [hconn] at hc'
    cases hc'
  · rcases List.mem_cons.1 hmem with rfl | hmem
    · exact hr (h.unique r' r c' hc' hc)
    · exact h.not_idle r' c' hc' hmem

/-- Something happens on a connection, while no call moves. -/
theorem Sound.setConn (h : Sound op items₀ as idle conns made pc)
    (hx : x.closed = true → x.underway = []) (hidle : c ∈ idle → x.Clean)
    (hlinked : ∀ r, (pc r).conn? = some c →
      Linked op items₀ (as ++ [a]) r (Function.update conns c x) (pc r)) :
    Sound op items₀ (as ++ [a]) idle (Function.update conns c x) made pc where
  length_le := h.length_le
  nodup := h.nodup
  idle_lt := h.idle_lt
  clean c' hc' := by
    by_cases heq : c' = c
    · subst heq
      rw [Function.update_self]
      exact hidle hc'
    · rw [Function.update_of_ne heq]
      exact h.clean c' hc'
  owned_lt := h.owned_lt
  not_idle := h.not_idle
  unique := h.unique
  closed := h.closed_update hx
  linked r := by
    by_cases hc : (pc r).conn? = some c
    · exact hlinked r hc
    · refine ((h.linked r).mono [a]).congr fun c' hc' => Function.update_of_ne ?_ _ _
      rintro rfl
      exact hc hc'

/-- Nothing happens to the connections. -/
theorem Sound.idleStep (h : Sound op items₀ as idle conns made pc) (a : PoolAction ι) :
    Sound op items₀ (as ++ [a]) idle conns made pc :=
  { h with linked := fun r => (h.linked r).mono [a] }

end Moves

section CallSteps

variable {s s' : Pool ι} {r : ι} {a : PoolAction ι} {c : ℕ}

/-- Writing some bytes of the request keeps the call and its connection together. -/
theorem Linked.write {rest : List UInt8} {n : ℕ}
    (h : Linked op items₀ as r s.conns (.writing c rest)) :
    Linked op items₀ (as ++ [a]) r
      (Function.update s.conns c { s.conns c with sent := (s.conns c).sent ++ rest.take n })
      (if rest.drop n = [] then .reading c else .writing c (rest.drop n)) := by
  obtain ⟨hop, -, hsent, harrived, hunderway⟩ := h
  have hwritten : (s.conns c).sent ++ rest.take n ++ rest.drop n = (op r).request := by
    rw [List.append_assoc, List.take_append_drop, hsent]
  split_ifs with hdrop
  · refine ⟨hop, .inl ?_⟩
    rw [hdrop, List.append_nil] at hwritten
    rw [Function.update_self]
    exact ⟨hwritten, harrived, hunderway⟩
  · refine ⟨hop, hdrop, ?_⟩
    rw [Function.update_self]
    exact ⟨hwritten, harrived, hunderway⟩

/-- A call that ends its reading has read the answer to its command, all of it. -/
theorem Linked.receive {out : Output} {rest : List UInt8}
    (h : Linked op items₀ as r s.conns (.reading c))
    (hclosed : (s.conns c).closed = true → (s.conns c).underway = [])
    (hread : (op r).reply (s.conns c).arrived (s.conns c).closed = .done out rest) :
    Linked op items₀ (as ++ [a]) r
      (Function.update s.conns c { s.conns c with arrived := rest }) (.releasing c out) := by
  obtain ⟨hop, ⟨-, harrived, -⟩ | ⟨hsent, own, t, hans, hprefix, hwhole⟩⟩ := h
  · rw [harrived] at hread
    exact absurd hread Op.reply_nil
  · obtain ⟨rfl, hend, hvalue⟩ := Op.reply_of_answer hop hans.1
      ((List.prefix_append _ _).trans hprefix) hread
    have hunderway : (s.conns c).underway = [] := by
      cases heof : (s.conns c).closed with
      | true => exact hclosed heof
      | false =>
        have hall := hwhole heof
        rw [hend.resolve_left (by rw [heof]; decide)] at hall
        exact List.append_right_eq_self.1 hall
    refine ⟨?_, fun v hv => ?_⟩
    · rw [Function.update_self]
      exact ⟨hsent, rfl, hunderway⟩
    · obtain ⟨rfl, key, flags, hkey, hitem⟩ := hvalue v hv
      exact ⟨key, hkey, c, t, flags, hans.mono [a], hitem⟩

theorem Sound.callStep {b : CallAction} (h : Sound op items₀ as s.idle s.conns s.made s.pc)
    (hs : callStep op s r b = some s') :
    Sound op items₀ (as ++ [.call r b]) s'.idle s'.conns s'.made s'.pc := by
  have hlinked := h.linked r
  cases b with
  | begin =>
    simp only [Memcached.callStep] at hs
    split at hs
    · split_ifs at hs with hskip
      · obtain rfl := Option.some.inj hs
        exact h.leave rfl trivial
      · obtain rfl := Option.some.inj hs
        have hop : (op r).allowed = true := by
          rw [not_or] at hskip
          exact Bool.eq_true_of_not_eq_false hskip.1
        exact h.leave rfl hop
    · cases hs
  | pick =>
    simp only [Memcached.callStep] at hs
    split at hs
    · rename_i hpc
      rw [hpc] at hlinked
      split at hs
      · rename_i c idle hidle
        obtain rfl := Option.some.inj hs
        rw [hidle] at h
        obtain ⟨hsent, harrived, hunderway⟩ := h.clean c List.mem_cons_self
        refine h.take rfl ⟨hlinked, Op.request_ne_nil hlinked, ?_, harrived, hunderway⟩
        rw [hsent, List.nil_append]
      · obtain rfl := Option.some.inj hs
        exact h.leave rfl hlinked
    · cases hs
  | connect =>
    simp only [Memcached.callStep] at hs
    split at hs
    · rename_i hpc
      rw [hpc] at hlinked
      obtain rfl := Option.some.inj hs
      refine h.make rfl ⟨hlinked, Op.request_ne_nil hlinked, ?_⟩
      rw [Function.update_self]
      exact ⟨rfl, rfl, rfl⟩
    · cases hs
  | write n =>
    simp only [Memcached.callStep] at hs
    split at hs
    · rename_i c rest hpc
      rw [hpc] at hlinked
      split_ifs at hs with hn hdrop
      all_goals
        obtain rfl := Option.some.inj hs
        have hwrite := hlinked.write (a := .call r (.write n)) (n := n)
        simp only [hdrop, if_true, if_false] at hwrite
        exact h.keep (by rw [hpc]; rfl) rfl (h.closed c) hwrite
    · cases hs
  | receive =>
    simp only [Memcached.callStep] at hs
    split at hs
    · rename_i c hpc
      rw [hpc] at hlinked
      split at hs
      · cases hs
      · obtain rfl := Option.some.inj hs
        exact h.leave rfl trivial
      · obtain rfl := Option.some.inj hs
        exact h.leave rfl trivial
      · rename_i out rest hread
        obtain rfl := Option.some.inj hs
        exact h.keep (by rw [hpc]; rfl) rfl (h.closed c) (hlinked.receive (h.closed c) hread)
    · cases hs
  | release =>
    simp only [Memcached.callStep] at hs
    split at hs
    · rename_i c out hpc
      rw [hpc] at hlinked
      obtain rfl := Option.some.inj hs
      by_cases hroom : s.idle.length < poolSize
      · simp only [Pool.setPc, hroom, if_true]
        exact h.giveBack (by rw [hpc]; rfl) hlinked.1 hroom rfl (hlinked.2.mono _)
      · simp only [Pool.setPc, hroom, if_false]
        exact h.leave rfl (hlinked.2.mono _)
    · cases hs
  | fail =>
    simp only [Memcached.callStep] at hs
    split_ifs at hs
    obtain rfl := Option.some.inj hs
    exact h.leave rfl trivial
  | timeout =>
    simp only [Memcached.callStep] at hs
    split_ifs at hs
    obtain rfl := Option.some.inj hs
    exact h.leave rfl trivial
  | drop =>
    simp only [Memcached.callStep] at hs
    split_ifs at hs
    obtain rfl := Option.some.inj hs
    exact h.leave rfl trivial

end CallSteps

/-! ### Steps of the server and the network -/

section ConnSteps

variable {s : Pool ι} {items : Items} {x : Conn} {c : ℕ}

/-- The server finds a command only on the connection of a call that has written all of its own. -/
theorem Sound.eq_reading (h : Sound op items₀ as s.idle s.conns s.made s.pc) {r : ι}
    (hc : (s.pc r).conn? = some c) {cmd : Command} {rest : List UInt8}
    (htake : takeCommand (s.conns c).sent = some (cmd, rest)) :
    (op r).allowed = true ∧ s.pc r = .reading c ∧ (s.conns c).sent = (op r).request ∧
      (s.conns c).arrived = [] ∧ (s.conns c).underway = [] := by
  have hlinked := h.linked r
  have hnil : (s.conns c).sent ≠ [] := by
    intro hsent
    rw [hsent] at htake
    cases htake
  cases hpc : s.pc r with
  | writing c' rest' =>
    rw [hpc] at hc hlinked
    obtain rfl : c' = c := Option.some.inj hc
    obtain ⟨hop, hrest, hsent, -⟩ := hlinked
    have hnone := takeCommand_of_isPrefix hop ⟨rest', hsent⟩ fun heq => hrest (by
      rw [heq] at hsent
      exact List.append_right_eq_self.1 hsent)
    rw [hnone] at htake
    cases htake
  | reading c' =>
    rw [hpc] at hc hlinked
    obtain rfl : c' = c := Option.some.inj hc
    obtain ⟨hop, hreads | ⟨hsent, -⟩⟩ := hlinked
    · exact ⟨hop, rfl, hreads⟩
    · exact absurd hsent hnil
  | releasing c' out =>
    rw [hpc] at hc hlinked
    obtain rfl : c' = c := Option.some.inj hc
    exact absurd hlinked.1.1 hnil
  | _ =>
    rw [hpc] at hc
    cases hc

theorem Sound.answer (h : Sound op items₀ as s.idle s.conns s.made s.pc)
    (hrun : Transition.run (poolStep op) as (Pool.init items₀) = some s)
    {own : Option (List UInt8)} (hs : connStep s.items (s.conns c) (.answer own) = some (items, x)) :
    Sound op items₀ (as ++ [.conn c (.answer own)]) s.idle (Function.update s.conns c x) s.made
      s.pc := by
  obtain ⟨⟨hopen, hown⟩, hs⟩ := Option.ite_none_right_eq_some.1 hs
  cases htake : takeCommand (s.conns c).sent with
  | none =>
    rw [htake] at hs
    cases hs
  | some taken =>
    obtain ⟨cmd, rest⟩ := taken
    simp only [htake, Option.some.injEq, Prod.mk.injEq] at hs
    obtain ⟨-, rfl⟩ := hs
    refine h.setConn (fun hclosed => ?_) (fun hc => ?_) fun r hc => ?_
    · rw [hopen] at hclosed
      cases hclosed
    · rw [(h.clean c hc).1] at htake
      cases htake
    · obtain ⟨hop, hpc, hsent, harrived, hunderway⟩ := h.eq_reading hc htake
      rw [hsent, takeCommand_request hop] at htake
      obtain ⟨rfl, rfl⟩ := Prod.mk.inj (Option.some.inj htake)
      rw [hpc]
      refine ⟨hop, .inr ?_⟩
      rw [Function.update_self]
      refine ⟨rfl, own, s, ⟨hown, hpc, hsent, as, List.prefix_refl _, hrun⟩, ?_, fun _ => ?_⟩
      · simp [harrived, hunderway]
      · simp [harrived, hunderway]

/-- What happens to bytes under way or still to be read leaves a call its answer. -/
theorem Linked.of_bytes {a : PoolAction ι} {conns : ℕ → Conn} {r : ι} {pc : Pc}
    (h : Linked op items₀ as r conns pc) (hc : pc.conn? = some c) (hsent : x.sent = (conns c).sent)
    (hbytes : x.arrived ++ x.underway <+: (conns c).arrived ++ (conns c).underway)
    (hopen : x.closed = false →
      (conns c).closed = false ∧
        x.arrived ++ x.underway = (conns c).arrived ++ (conns c).underway) :
    Linked op items₀ (as ++ [a]) r (Function.update conns c x) pc := by
  have hnil : (conns c).arrived = [] → (conns c).underway = [] →
      x.arrived = [] ∧ x.underway = [] := by
    intro harrived hunderway
    rw [harrived, hunderway] at hbytes
    exact List.append_eq_nil_iff.1 (List.prefix_nil.1 hbytes)
  match pc, h, hc with
  | .writing c rest, ⟨hop, hrest, hwritten, harrived, hunderway⟩, rfl =>
    refine ⟨hop, hrest, ?_⟩
    rw [Function.update_self, hsent]
    exact ⟨hwritten, hnil harrived hunderway⟩
  | .reading c, ⟨hop, hreads⟩, rfl =>
    refine ⟨hop, ?_⟩
    rw [Function.update_self]
    rcases hreads with ⟨hreq, harrived, hunderway⟩ | ⟨htaken, own, t, hans, hprefix, hwhole⟩
    · exact .inl ⟨hsent.trans hreq, hnil harrived hunderway⟩
    · refine .inr ⟨hsent.trans htaken, own, t, hans.mono [a], hbytes.trans hprefix, fun hx => ?_⟩
      rw [(hopen hx).2, hwhole (hopen hx).1]
  | .releasing c out, ⟨⟨htaken, harrived, hunderway⟩, hout⟩, rfl =>
    refine ⟨?_, hout.mono [a]⟩
    rw [Function.update_self]
    exact ⟨hsent.trans htaken, hnil harrived hunderway⟩

/-- Bytes that are delivered or lost. -/
theorem Sound.bytes (h : Sound op items₀ as s.idle s.conns s.made s.pc) (a : PoolAction ι)
    (hsent : x.sent = (s.conns c).sent)
    (hbytes : x.arrived ++ x.underway <+: (s.conns c).arrived ++ (s.conns c).underway)
    (hopen : x.closed = false →
      (s.conns c).closed = false ∧
        x.arrived ++ x.underway = (s.conns c).arrived ++ (s.conns c).underway)
    (hclosed : x.closed = true → x.underway = []) :
    Sound op items₀ (as ++ [a]) s.idle (Function.update s.conns c x) s.made s.pc := by
  refine h.setConn hclosed (fun hc => ?_) fun r hc => (h.linked r).of_bytes hc hsent hbytes hopen
  obtain ⟨htaken, harrived, hunderway⟩ := h.clean c hc
  rw [harrived, hunderway] at hbytes
  exact ⟨hsent.trans htaken, List.append_eq_nil_iff.1 (List.prefix_nil.1 hbytes)⟩

theorem Sound.connStep (h : Sound op items₀ as s.idle s.conns s.made s.pc)
    (hrun : Transition.run (poolStep op) as (Pool.init items₀) = some s) {b : ConnAction}
    (hs : connStep s.items (s.conns c) b = some (items, x)) :
    Sound op items₀ (as ++ [.conn c b]) s.idle (Function.update s.conns c x) s.made s.pc := by
  cases b with
  | answer own => exact h.answer hrun hs
  | deliver n =>
    simp only [Memcached.connStep, Option.some.injEq, Prod.mk.injEq] at hs
    obtain ⟨-, rfl⟩ := hs
    have hall : (s.conns c).arrived ++ (s.conns c).underway.take n ++
        (s.conns c).underway.drop n = (s.conns c).arrived ++ (s.conns c).underway := by
      rw [List.append_assoc, List.take_append_drop]
    refine h.bytes _ rfl ?_ (fun hopen => ⟨hopen, hall⟩) fun hclosed => ?_
    · exact hall ▸ List.prefix_refl _
    · simp only [h.closed c hclosed, List.drop_nil]
  | close =>
    simp only [Memcached.connStep, Option.some.injEq, Prod.mk.injEq] at hs
    obtain ⟨-, rfl⟩ := hs
    refine h.bytes _ rfl ?_ (fun hopen => by cases hopen) fun _ => rfl
    rw [List.append_nil]
    exact List.prefix_append _ _

end ConnSteps

/-! ### Runs -/

/-- Every step keeps the invariant. -/
theorem Sound.step {s s' : Pool ι} {a : PoolAction ι}
    (h : Sound op items₀ as s.idle s.conns s.made s.pc)
    (hrun : Transition.run (poolStep op) as (Pool.init items₀) = some s)
    (hs : poolStep op s a = some s') :
    Sound op items₀ (as ++ [a]) s'.idle s'.conns s'.made s'.pc := by
  cases a with
  | call r b => exact h.callStep hs
  | conn c b =>
    simp only [poolStep] at hs
    cases hconn : Memcached.connStep s.items (s.conns c) b with
    | none =>
      rw [hconn] at hs
      cases hs
    | some next =>
      obtain ⟨items, x⟩ := next
      rw [hconn] at hs
      obtain rfl := Option.some.inj hs
      exact h.connStep hrun hconn
  | alter key item =>
    obtain rfl := Option.some.inj hs
    exact h.idleStep _
  | tick d =>
    obtain rfl := Option.some.inj hs
    exact h.idleStep _

/-- The invariant holds after every run. -/
theorem sound_of_run {s : Pool ι}
    (h : Transition.run (poolStep op) as (Pool.init items₀) = some s) :
    Sound op items₀ as s.idle s.conns s.made s.pc :=
  Transition.run_invariant (I := fun as s => Sound op items₀ as s.idle s.conns s.made s.pc)
    Sound.init (fun _ _ _ _ hrun hI hs => hI.step hrun hs) h

/-- **The connection pool.** After every run, the idle connections are at most `poolSize` and clean,
every connection is idle or has at most one owner, a call that awaits its reply has on its
connection its own request or what is left of the answer to it, and a get returns nothing or a value
that the server held under its key when it answered it. -/
theorem pool_sound {s : Pool ι}
    (h : Transition.run (poolStep op) as (Pool.init items₀) = some s) :
    (s.idle.length ≤ poolSize ∧ s.idle.Nodup ∧ ∀ c ∈ s.idle, (s.conns c).Clean) ∧
    (∀ r c, (s.pc r).conn? = some c →
      c ∉ s.idle ∧ ∀ r', (s.pc r').conn? = some c → r' = r) ∧
    (∀ r c, s.pc r = .reading c → Reads op items₀ as r c (s.conns c)) ∧
    ∀ r key, op r = .get key → ∀ v, (s.pc r).got = some v → Held op items₀ as r key v := by
  have hsound := sound_of_run h
  refine ⟨⟨hsound.length_le, hsound.nodup, hsound.clean⟩, fun r c hc => ?_, fun r c hpc => ?_,
    fun r key hkey v hv => ?_⟩
  · exact ⟨hsound.not_idle r c hc, fun r' hc' => hsound.unique r' r c hc' hc⟩
  · have hlinked := hsound.linked r
    rw [hpc] at hlinked
    exact hlinked.2
  · have hlinked := hsound.linked r
    cases hpc : s.pc r with
    | done out =>
      rw [hpc] at hv hlinked
      match out, hv, hlinked with
      | some (.got (some _)), rfl, hlinked =>
        obtain ⟨key', hkey', hheld⟩ := hlinked v rfl
        obtain rfl := Op.get.inj (hkey.symm.trans hkey')
        exact hheld
    | _ =>
      rw [hpc] at hv
      cases hv

/-- Three gets: the first is dropped, the last takes the connection of the second. -/
def reusedOps : Fin 3 → Op
  | 0 => .get "i"
  | 1 => .get "k"
  | 2 => .get "j"

/-- The items under `"j"` and `"k"`. -/
def reusedItems : Items :=
  ((∅ : Items).insert (Utf8.encode "j") ⟨0, Utf8.encode "w"⟩).insert (Utf8.encode "k")
    ⟨3, Utf8.encode "v"⟩

/-- The first call is dropped in the middle of its request. -/
def reusedRun : List (PoolAction (Fin 3)) :=
  [.call 0 .begin, .call 0 .pick, .call 0 .connect, .call 0 (.write 3), .call 1 .begin,
    .call 1 .pick, .call 0 .drop, .call 1 .connect, .call 1 (.write 7), .conn 1 (.answer none),
    .conn 1 (.deliver 22), .call 1 .receive, .call 1 .release, .call 2 .begin, .call 2 .pick,
    .call 2 (.write 7), .conn 1 (.answer none), .conn 1 (.deliver 22), .call 2 .receive,
    .call 2 .release]

theorem pool_sound_reusedRun :
    ∃ s, Transition.run (poolStep reusedOps) reusedRun (Pool.init reusedItems) = some s ∧
      ((s.pc 1).got = some "v" ∧ (s.pc 2).got = some "w" ∧ s.idle = [1]) ∧
      (s.conns 1).Clean ∧ Held reusedOps reusedItems reusedRun 2 "j" "w" := by
  obtain ⟨s, hs, hgot⟩ :
      ∃ s, Transition.run (poolStep reusedOps) reusedRun (Pool.init reusedItems) = some s ∧
        ((s.pc 1).got = some "v" ∧ (s.pc 2).got = some "w" ∧ s.idle = [1]) :=
    Transition.exists_run_of_any (by decide)
  have hsound := pool_sound hs
  refine ⟨s, hs, hgot, hsound.1.2.2 1 (by simp [hgot.2.2]), hsound.2.2.2 2 "j" rfl "w" hgot.2.1⟩

end Traintime.Server.Memcached
