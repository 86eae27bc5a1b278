import Bridgework.Proofs.Memo.Lease
import Bridgework.Proofs.Memo.Row

/-!
# Rows along every run

Claims, signs of life, the three ways to end computing, and removal write overlapping parts of a row, and
an owner whose row was taken over goes on writing. Still the parts of every row fit its status, and the
number of attempts that a row has is the number of computations that callers have started since the row
was created.

- `Memo.Row.Consistent` : the parts of a row fit its status
- `Memo.Scene.Reachable.consistent` : all rows are consistent along every run
- `Memo.Scene.Event`, `Memo.Scene.History` : runs with what has happened in them
- `Memo.Scene.startsSince` : the computations started since the row of a key was created
- `Memo.Scene.rows_consistent` : rows, look-ups and attempts along every run
-/

namespace Bridgework
namespace Memo

/-! ## Consistent rows -/

/-- A complete row has a payload and no owner, a row in progress has an owner and a sign of life and no
payload yet, and a failed row has neither payload nor owner. There are no other rows. -/
def Row.Consistent (r : Row) : Prop :=
  match r.status with
  | .complete => r.payload.isSome ∧ r.owner = none
  | .inProgress => r.owner.isSome ∧ r.heartbeat.isSome ∧ r.payload = none
  | .failed => r.payload = none ∧ r.owner = none
  | .other _ => False

namespace Row

variable {r : Row}

theorem Consistent.started (old : Option Row) (owner : Owner) (now : Int) :
    (Row.started old owner now).Consistent := ⟨rfl, rfl, rfl⟩

/-- A sign of life changes nothing else about a row in progress. -/
theorem Consistent.beat (h : r.Consistent) (hstatus : r.status = .inProgress) (now : Int) :
    { r with heartbeat := some now }.Consistent := by
  simp only [Consistent, hstatus] at h ⊢
  exact ⟨h.1, rfl, h.2.2⟩

/-- Whoever ends computing writes everything that the new status asks for, whatever the row was. -/
theorem Consistent.settled (r : Row) (result : Computed) : (r.settled result).Consistent := by
  cases result with
  | payload text => exact ⟨rfl, rfl⟩
  | failed e => exact ⟨rfl, rfl⟩
  | aborted => exact ⟨rfl, rfl⟩

/-- A complete row has a result to give. -/
theorem Consistent.isSome_payload (h : r.Consistent) (hstatus : r.status = .complete) :
    r.payload.isSome := by
  simp only [Consistent, hstatus] at h
  exact h.1

end Row

namespace Table

variable {t : Table} {k : Key}

def Consistent (t : Table) : Prop := ∀ k r, t.get? k = some r → r.Consistent

theorem Consistent.empty : Consistent .empty := by
  intro k r hr
  have hnone : (SortedMap.empty : Table).get? k = none := rfl
  rw [hnone] at hr
  cases hr

/-- A key is complete exactly if its row is. -/
theorem status?_eq_complete_iff :
    t.status? k = some .complete ↔ ∃ r, t.get? k = some r ∧ r.status = .complete := by
  rw [status?, Option.bind_eq_some_iff]
  constructor
  · rintro ⟨r, hr, hknown⟩
    split at hknown
    next => exact ⟨r, hr, Option.some.inj hknown⟩
    next => cases hknown
  · rintro ⟨r, hr, hstatus⟩
    refine ⟨r, hr, ?_⟩
    rw [hstatus]
    rfl

/-- A payload is found exactly for complete rows. -/
theorem Consistent.isSome_lookup?_iff (h : t.Consistent) :
    (t.lookup? k).isSome ↔ t.status? k = some .complete := by
  rw [status?_eq_complete_iff]
  constructor
  · intro hsome
    unfold lookup? at hsome
    split at hsome
    next r hr =>
      split at hsome
      next hstatus => exact ⟨r, hr, hstatus⟩
      next => cases hsome
    next => cases hsome
  · rintro ⟨r, hr, hstatus⟩
    -- The row alone does not say that there is a payload; that it is consistent does.
    obtain ⟨p, hp⟩ := Option.isSome_iff_exists.1 ((h k r hr).isSome_payload hstatus)
    rw [lookup?_eq_some hr hstatus hp]
    rfl

theorem attempts_of_some {r : Row} (hr : t.get? k = some r) : t.attempts k = r.attempts := by
  rw [attempts, hr]

theorem attempts_of_none (hnone : t.get? k = none) : t.attempts k = 0 := by
  rw [attempts, hnone]

/-- Starting raises the number of attempts by one, whether there was a row or not. -/
theorem attempts_started (t : Table) (k : Key) (o : Owner) (now : Int) :
    (Row.started (t.get? k) o now).attempts = t.attempts k + 1 := by
  unfold Row.started attempts
  cases t.get? k with
  | none => rfl
  | some r => rfl

end Table

namespace Scene

variable {lease : Nat → Nat} {s t u : Scene} {a : Action} {k : Key} {n : Nat}

/-! ## Consistency along runs -/

/-- One change of a row keeps it consistent. -/
theorem RowTurn.consistent {row : Option Row} {r' : Row} (h : RowTurn s k a row (some r'))
    (hrow : ∀ r, row = some r → r.Consistent) : r'.Consistent := by
  cases h with
  | keep => exact hrow r' rfl
  | start _ _ _ _ => exact .started row _ _
  | beat _ _ _ _ hstatus => exact (hrow _ rfl).beat hstatus s.now
  | settle _ _ _ _ result => exact .settled _ result

/-- A step keeps all rows consistent, since it changes one of them at most. -/
theorem Step.consistent (h : Step lease s a t) (hs : s.table.Consistent) : t.table.Consistent := by
  intro k r' hr'
  have hturn : RowTurn s k a (s.table.get? k) (t.table.get? k) := h.rowTurn k
  rw [hr'] at hturn
  exact hturn.consistent fun r hr => hs k r hr

/-- Rows stay consistent in every run. -/
theorem Reachable.consistent (h : s.Reachable lease t) (hs : s.table.Consistent) :
    t.table.Consistent := by
  induction h with
  | refl => exact hs
  | step _ h ih => exact (act?_eq_some_iff.1 h).consistent ih

/-! ## Runs with their events -/

/-- What has happened: an action, with the scenes before and after it. -/
structure Event where
  before : Scene
  action : Action
  after : Scene

/-- A run from one scene to another with its events, the last one first. -/
inductive History (lease : Nat → Nat) (s : Scene) : List Event → Scene → Prop where
  | nil : History lease s [] s
  | cons {log : List Event} {t u : Scene} {a : Action} (r : History lease s log t)
      (h : t.act? lease a = some u) : History lease s (⟨t, a, u⟩ :: log) u

theorem History.reachable {log : List Event} (h : s.History lease log t) : s.Reachable lease t := by
  induction h with
  | nil => exact .refl
  | cons _ h ih => exact .step ih h

theorem History.tail {log : List Event} (h : s.History lease log t) (hstep : Step lease t a u) :
    s.History lease (⟨t, a, u⟩ :: log) u :=
  .cons h (act?_eq_some_iff.2 hstep)

end Scene

def Phase.isComputing : Phase → Bool
  | .computing => true
  | _ => false

namespace Scene

namespace Event

/-- Whether a caller has started to compute the key: it has claimed the key and computes now. -/
def starts (k : Key) (e : Event) : Bool :=
  match e.action with
  | .claim n =>
    match e.after.callers n with
    | some c => c.key == k && c.phase.isComputing
    | none => false
  | _ => false

def leavesRow (k : Key) (e : Event) : Bool := (e.after.table.get? k).isSome

end Event

/-- How often computing of the key was started since its row was created. The events are gone through from
the last one backward, as long as the key had a row after them; if it has none now, there are none. -/
def startsSince (k : Key) (log : List Event) : Nat :=
  (log.takeWhile (Event.leavesRow k)).countP (Event.starts k)

variable {lease : Nat → Nat} {s t u : Scene} {a : Action} {k : Key} {n : Nat} {c : Caller}

theorem starts_claim_eq (hn : t.callers n = some c) :
    Event.starts k ⟨s, .claim n, t⟩ = (c.key == k && c.phase.isComputing) := by
  simp only [Event.starts, hn]

/-- A caller of the key computes that did not compute before. -/
def Event.Begins (k : Key) (e : Event) : Prop :=
  ∃ n c, e.after.callers n = some c ∧ c.key = k ∧ c.phase = .computing ∧ e.before.callers n ≠ some c

/-- A claim that is granted is where computing begins, and it begins nowhere else. -/
theorem Step.starts_iff (h : Step lease s a t) :
    Event.starts k ⟨s, a, t⟩ = true ↔ Event.Begins k ⟨s, a, t⟩ := by
  constructor
  · intro hstarts
    cases h with
    | @adopt n c p table _ _ _ =>
      rw [starts_claim_eq callers_move_self, Bool.and_eq_true] at hstarts
      cases hstarts.2
    | @own n c b table hn hphase _ =>
      rw [starts_claim_eq callers_move_self, Bool.and_eq_true] at hstarts
      refine ⟨n, _, callers_move_self, eq_of_beq hstarts.1, rfl, ?_⟩
      intro hold
      have hcomputing : c.phase = .computing := congrArg Caller.phase (Option.some.inj (hn.symm.trans hold))
      rw [hphase] at hcomputing
      cases hcomputing
    | @busy n c table hn hphase _ =>
      have hn' : (s.setTable table).callers n = some c := hn
      rw [starts_claim_eq hn', hphase, Bool.and_eq_true] at hstarts
      cases hstarts.2
    | _ => cases hstarts
  · rintro ⟨j, d, hj, hkey, hphase, hnew⟩
    -- Only a claim that is granted moves a caller to computing.
    have hmove : ∀ {r : Scene} {n : Nat} {c : Caller} {p : Phase}, r.callers = s.callers →
        (r.move n c p).callers j = some d → p = .computing := by
      intro r n c p hr hj
      rcases eq_or_of_callers_move hj with ⟨_, rfl⟩ | ⟨_, hj⟩
      · exact hphase
      · exact absurd (hr ▸ hj) hnew
    cases h with
    | @own n c b table _ _ _ =>
      rcases eq_or_of_callers_move hj with ⟨_, rfl⟩ | ⟨_, hj⟩
      · rw [starts_claim_eq callers_move_self, Bool.and_eq_true]
        exact ⟨beq_iff_eq.2 hkey, rfl⟩
      · exact absurd hj hnew
    | busy _ _ _ => exact absurd hj hnew
    | beat _ _ => exact absurd hj hnew
    | invalidate _ => exact absurd hj hnew
    | wait _ => exact absurd hj hnew
    | _ => cases hmove rfl hj

/-- What counts as a start in a run is that a caller begins to compute. -/
theorem History.starts_iff {log : List Event} (h : s.History lease log t) {e : Event} (he : e ∈ log) :
    e.starts k = true ↔ e.Begins k := by
  induction h with
  | nil => cases he
  | cons _ h ih =>
    rcases List.mem_cons.1 he with rfl | he
    · exact (act?_eq_some_iff.1 h).starts_iff
    · exact ih he

/-- As long as the key has a row, its starts are counted on. -/
theorem startsSince_of_row {log : List Event} {e : Event} (h : e.leavesRow k = true) :
    startsSince k (e :: log) = startsSince k log + if e.starts k then 1 else 0 := by
  rw [startsSince, List.takeWhile_cons_of_pos h, List.countP_cons]
  rfl

/-- Where the key has no row, counting begins anew. -/
theorem startsSince_of_no_row {log : List Event} {e : Event} (h : e.leavesRow k = false) :
    startsSince k (e :: log) = 0 := by
  rw [startsSince, List.takeWhile_cons_of_neg (by rw [h]; exact Bool.false_ne_true)]
  rfl

/-! ## Attempts -/

/-- A turn that is no claim keeps the number of attempts. -/
theorem RowTurn.attempts_eq {row : Option Row} {r' : Row} (h : RowTurn s k a row (some r'))
    (ha : ∀ n, a ≠ .claim n) : ∃ r, row = some r ∧ r'.attempts = r.attempts := by
  cases h with
  | keep => exact ⟨r', rfl, rfl⟩
  | @start n _ _ _ _ _ => exact absurd rfl (ha n)
  | @beat _ _ r _ _ _ _ _ => exact ⟨r, rfl, rfl⟩
  | @settle _ _ r _ _ _ _ result =>
    refine ⟨r, rfl, ?_⟩
    cases result with
    | payload text => rfl
    | failed e => rfl
    | aborted => rfl

/-- A step adds one attempt to the row of a key if a caller starts to compute the key with it, and none
otherwise. -/
theorem Step.attempts_eq (h : Step lease s a t) {r' : Row} (hr' : t.table.get? k = some r') :
    r'.attempts = s.table.attempts k + if Event.starts k ⟨s, a, t⟩ then 1 else 0 := by
  -- Where the row stays, nobody may have started.
  have hkeep : t.table.get? k = s.table.get? k → Event.starts k ⟨s, a, t⟩ = false →
      r'.attempts = s.table.attempts k + if Event.starts k ⟨s, a, t⟩ then 1 else 0 := by
    intro hrow hstarts
    rw [hstarts, Table.attempts_of_some (hrow.symm.trans hr')]
    simp
  -- Other actions than claims start nothing.
  have hother : (∀ n, a ≠ .claim n) → Event.starts k ⟨s, a, t⟩ = false →
      r'.attempts = s.table.attempts k + if Event.starts k ⟨s, a, t⟩ then 1 else 0 := by
    intro ha hstarts
    have hturn : RowTurn s k a (s.table.get? k) (t.table.get? k) := h.rowTurn k
    rw [hr'] at hturn
    obtain ⟨r, hr, hattempts⟩ := hturn.attempts_eq ha
    rw [hstarts, Table.attempts_of_some hr, hattempts]
    simp
  cases h with
  | @adopt n c p table hn hphase hclaim =>
    rcases Table.claim_cases hclaim with ⟨⟨_, hx⟩, _⟩ | ⟨_, rfl⟩
    · cases hx
    · refine hkeep rfl ?_
      rw [starts_claim_eq callers_move_self]
      exact Bool.and_false _
  | @own n c b table hn hphase hclaim =>
    have hstarts : Event.starts k ⟨s, .claim n, (s.setTable table).move n c .computing⟩ = (c.key == k) := by
      rw [starts_claim_eq callers_move_self]
      exact Bool.and_true _
    by_cases hkey : k = c.key
    · subst hkey
      rcases Table.claim_cases hclaim with ⟨_, rfl⟩ | ⟨hx, _⟩
      · have hrow : (s.table.start c.key (.manager c.manager) s.now).get? c.key =
            some (.started (s.table.get? c.key) (.manager c.manager) s.now) :=
          SortedMap.get?_insert_self
        obtain rfl := Option.some.inj (hrow.symm.trans hr')
        rw [hstarts, Table.attempts_started]
        simp
      · exact absurd rfl (hx b)
    · refine hkeep (Table.get?_claim_of_ne hclaim hkey) ?_
      rw [hstarts]
      exact beq_false_of_ne (Ne.symm hkey)
  | @busy n c table hn hphase hclaim =>
    rcases Table.claim_cases hclaim with ⟨⟨_, hx⟩, _⟩ | ⟨_, rfl⟩
    · cases hx
    · refine hkeep rfl ?_
      have hn' : (s.setTable s.table).callers n = some c := hn
      rw [starts_claim_eq hn', hphase]
      exact Bool.and_false _
  | _ => exact hother nofun rfl

/-- The attempts of a key are the computations started since its row was created. -/
theorem History.attempts_eq {log : List Event} (h : s.History lease log t)
    (hs : s.table.get? k = none) : t.table.attempts k = startsSince k log := by
  induction h with
  | nil => exact Table.attempts_of_none hs
  | @cons log t u a _ h ih =>
    -- Without a row nothing was started since it was removed; with one, the last event may have
    -- started it once more.
    cases hrow : u.table.get? k with
    | none =>
      have hgone : Event.leavesRow k ⟨t, a, u⟩ = false := by rw [Event.leavesRow, hrow]; rfl
      rw [Table.attempts_of_none hrow, startsSince_of_no_row hgone]
      rfl
    | some r =>
      have hthere : Event.leavesRow k ⟨t, a, u⟩ = true := by rw [Event.leavesRow, hrow]; rfl
      calc u.table.attempts k
          = r.attempts := Table.attempts_of_some hrow
        _ = t.table.attempts k + if Event.starts k ⟨t, a, u⟩ then 1 else 0 :=
            (act?_eq_some_iff.1 h).attempts_eq hrow
        _ = startsSince k log + if Event.starts k ⟨t, a, u⟩ then 1 else 0 := by rw [ih]
        _ = startsSince k (⟨t, a, u⟩ :: log) := by
            rw [startsSince_of_row hthere]
            split
            next => rfl
            next => rfl

/-! ## Main result -/

/-- Along any run that begins without rows, by any number of callers and managers: the parts of each row
fit its status, a payload is found exactly for keys with a complete row, and the attempts of a key are the
computations started since its row was created, none if it has no row. What is counted as a start are the
events with which a caller of the key begins to compute. -/
theorem rows_consistent (lease : Nat → Nat) (now : Int) (log : List Event) (s : Scene)
    (h : (start now).History lease log s) :
    (∀ k r, s.table.get? k = some r → r.Consistent) ∧
    (∀ k, (s.table.lookup? k).isSome ↔ s.table.status? k = some .complete) ∧
    (∀ k, s.table.attempts k = startsSince k log) ∧
    (∀ k, s.table.get? k = none → s.table.attempts k = 0) ∧
    ∀ k, ∀ e ∈ log, e.starts k = true ↔ e.Begins k := by
  have hconsistent : s.table.Consistent := h.reachable.consistent Table.Consistent.empty
  refine ⟨hconsistent, fun k => hconsistent.isSome_lookup?_iff, fun k => h.attempts_eq rfl, ?_, ?_⟩
  · exact fun k hnone => Table.attempts_of_none hnone
  · exact fun k e he => h.starts_iff he

/-- A caller of a manager without a flight for the key calls, and its claim is granted. -/
theorem History.begin {log : List Event} {m : Nat} {b : Bool} {table : Table}
    (h : s.History lease log t) (hn : t.callers n = none) (hflight : t.flights m k = none)
    (hclaim : t.table.claim k (.manager m) t.now (lease m) = (.owned b, table)) :
    ∃ log' u, s.History lease (log' ++ log) u ∧ u.table = table ∧ u.now = t.now ∧
      u.callers n = some ⟨m, k, .computing⟩ ∧ (∀ j, j ≠ n → u.callers j = t.callers j) ∧
      ∀ i, i ≠ m → u.flights i k = t.flights i k := by
  have hmiss : t.table.lookup? k = none := Table.lookup?_eq_none_of_claim hclaim
  have hlead := ((h.tail (.call hn)).tail (.miss callers_move_self rfl hmiss)).tail
    (.lead callers_move_self rfl hflight)
  have hown := hlead.tail (.own callers_move_self rfl hclaim)
  refine ⟨[_, _, _, _], _, hown, rfl, rfl, callers_move_self, ?_, ?_⟩
  · intro j hj
    -- Each of the four moves is one of the caller itself.
    have hkept {r : Scene} {c : Caller} {p : Phase} : (r.move n c p).callers j = r.callers j :=
      callers_move_of_ne hj
    exact hkept.trans (hkept.trans (hkept.trans hkept))
  · intro i hi
    exact if_neg fun hsame => hi hsame.1

/-- A row is taken over, its first owner ends too late, and the second one stores a result: these were two
attempts. When the row has been removed, counting begins again. -/
theorem rows_consistent_taken_over :
    ∃ (k : Key) (log log' : List Event) (s s' : Scene),
      (start 0).History (fun _ => 10) log s ∧ (s.table.lookup? k).isSome ∧
      s.table.attempts k = 2 ∧ startsSince k log = 2 ∧
      (start 0).History (fun _ => 10) (log' ++ log) s' ∧
      s'.table.attempts k = 1 ∧ startsSince k (log' ++ log) = 1 := by
  let k : Key := ⟨.nativeGraph, ⟨"numpy", "2.0"⟩, "analysis"⟩
  let row : Table := Table.start .empty k (.manager 0) 0
  let taken : Table := row.start k (.manager 1) 10
  have hrow : row.get? k = some (.started none (.manager 0) 0) := SortedMap.get?_insert_self
  have htaken : taken.get? k = some (.started (row.get? k) (.manager 1) 10) := SortedMap.get?_insert_self
  have hclaim : row.claim k (.manager 1) 10 10 = (.owned true, taken) := by
    have hother : Owner.manager 0 ≠ .manager 1 := by decide
    rw [Table.claim_of_other hrow rfl rfl hother rfl, if_neg (by decide)]
  -- The first caller computes until its lease has expired, the second is of another manager.
  obtain ⟨log₁, s₁, h₁, htable₁, hnow₁, hfirst, hothers₁, hflights₁⟩ :=
    (History.nil : (start 0).History (fun _ => 10) [] _).begin (n := 0) (m := 0) (k := k) rfl rfl rfl
  have hclaim₁ : s₁.table.claim k (.manager 1) (s₁.now + 10) 10 = (.owned true, taken) := by
    rw [htable₁, hnow₁]
    exact hclaim
  obtain ⟨log₂, s₂, h₂, htable₂, _, hsecond, hothers₂, hflights₂⟩ :=
    (h₁.tail (.wait 10)).begin (n := 1) (m := 1) (k := k) (hothers₁ 1 (by decide))
      (hflights₁ 1 (by decide)) hclaim₁
  -- The first caller ends when its row is no longer its own.
  let s₃ : Scene := s₂.settle 0 ⟨0, k, .computing⟩ (.payload "late")
  let s₄ : Scene := s₃.settle 1 ⟨1, k, .computing⟩ (.payload "stored")
  have h₃ : (start 0).History (fun _ => 10) _ s₃ :=
    h₂.tail (.settle ((hothers₂ 0 (by decide)).trans hfirst) rfl)
  have h₄ : (start 0).History (fun _ => 10) _ s₄ :=
    h₃.tail (.settle ((callers_move_of_ne (by decide)).trans hsecond) rfl)
  have hlate : s₃.table = taken := by
    show s₂.table.settle k (.manager 0) (.payload "late") = taken
    rw [htable₂]
    apply Table.settle_of_not_owner
    intro r hr
    obtain rfl := Option.some.inj (htaken.symm.trans hr)
    decide
  have hstored : s₄.table.get? k =
      some ((Row.started (row.get? k) (.manager 1) 10).settled (.payload "stored")) :=
    Table.get?_settle_self (hlate ▸ htaken) rfl
  have htwo : s₄.table.attempts k = 2 := by
    rw [Table.attempts_of_some hstored, hrow]
    rfl
  -- The row is removed, and a third caller computes.
  have hremoved : (s₄.table.invalidate k).get? k = none := Table.get?_invalidate_self hstored nofun
  have hfree : (s₄.table.invalidate k).claim k (.manager 2) s₄.now 10 =
      (.owned false, (s₄.table.invalidate k).start k (.manager 2) s₄.now) := by
    unfold Table.claim
    rw [hremoved]
  have hthird : s₄.callers 2 = none :=
    calc s₄.callers 2
        = s₃.callers 2 := callers_move_of_ne (by decide)
      _ = s₂.callers 2 := callers_move_of_ne (by decide)
      _ = s₁.callers 2 := hothers₂ 2 (by decide)
      _ = none := hothers₁ 2 (by decide)
  have hflight : s₄.flights 2 k = none := (hflights₂ 2 (by decide)).trans (hflights₁ 2 (by decide))
  obtain ⟨log₅, s₅, h₅, htable₅, _⟩ :=
    (h₄.tail (.invalidate k)).begin (n := 2) (m := 2) (k := k) hthird hflight hfree
  have hone : s₅.table.attempts k = 1 := by
    have hagain : s₅.table.get? k = some (.started none (.manager 2) s₄.now) := by
      rw [htable₅, ← hremoved]
      exact SortedMap.get?_insert_self
    rw [Table.attempts_of_some hagain]
    rfl
  obtain ⟨_, hlookup, hcount, _⟩ := rows_consistent _ _ _ _ h₄
  rw [List.append_cons log₅] at h₅
  obtain ⟨_, _, hcount', _⟩ := rows_consistent _ _ _ _ h₅
  have hcomplete : s₄.table.status? k = some .complete :=
    Table.status?_eq_complete_iff.2 ⟨_, hstored, rfl⟩
  exact ⟨k, _, _, s₄, s₅, h₄, (hlookup k).2 hcomplete, htwo,
    Int.ofNat.inj ((hcount k).symm.trans htwo), h₅, hone, Int.ofNat.inj ((hcount' k).symm.trans hone)⟩

end Scene
end Memo
end Bridgework
