import Bridgework.Proofs.Memo.Failure

/-!
# What the counters of a manager say

One thread asks a manager for results and for their removal, one request after another, over any table. It
never waits for a flight, since it has none under way when it asks. So each call is a hit, or it computes
and is counted by what the computation gives, unless the computation is aborted. A call that computes
reclaims exactly when the row of its key was in progress and not its own.

- `Memo.Table.claim_granted` : when a claim that is granted takes a row from someone
- `Memo.Store.getOrCompute_of_miss` : a call that computes, with its counters
- `Memo.Request`, `Memo.Store.handleAll` : requests, and what becomes of a list of them
- `Memo.Handled.Accounted` : what a request does to the counters
- `Memo.Store.calls_counted` : the counters after any requests
-/

namespace Bridgework
namespace Memo

/-! ## Claims that take a row from someone -/

namespace Table

variable {t u : Table} {k : Key} {o : Owner} {now : Int} {lease : Nat}

/-- The row of the key is in progress and does not belong to the owner. -/
def IsForeign (t : Table) (k : Key) (o : Owner) : Prop :=
  ∃ r, t.get? k = some r ∧ r.status = .inProgress ∧ r.owner ≠ some o

/-- While someone else computes there is no result. -/
theorem IsForeign.lookup?_eq_none (h : t.IsForeign k o) : t.lookup? k = none := by
  obtain ⟨r, hr, hstatus, _⟩ := h
  simp [lookup?, hr, hstatus]

theorem not_isForeign_of_status {r : Row} (hr : t.get? k = some r) (hstatus : r.status ≠ .inProgress) :
    ¬ t.IsForeign k o := by
  rintro ⟨r', hr', hprogress, _⟩
  obtain rfl : r = r' := Option.some.inj (hr.symm.trans hr')
  exact hstatus hprogress

/-- A claim that is granted takes the row from someone exactly if it was in progress and not the owner's
own, and then its last sign of life is as old as the lease, as leases are compared. -/
theorem claim_granted {b : Bool} (h : t.claim k o now lease = (.owned b, u)) :
    (b = true ↔ t.IsForeign k o) ∧
    ∀ r, b = true → t.get? k = some r → leaseWord lease ≤ now - r.heartbeat.getD 0 := by
  unfold claim at h
  split at h
  -- No row: nothing is taken over from anybody.
  next hnone =>
    cases h
    refine ⟨iff_of_false nofun ?_, nofun⟩
    rintro ⟨r, hr, _⟩
    rw [hnone] at hr
    cases hr
  next r hr =>
    split at h
    next => cases h
    next hstatus =>
      split at h
      next => cases h
      -- A row in progress that is not held any more. It counts as taken over if its owner was
      -- another one.
      next hheld =>
        cases h
        refine ⟨?_, fun r' hforeign hr' => ?_⟩
        · rw [bne_iff_ne]
          constructor
          · exact fun howner => ⟨r, hr, hstatus, howner⟩
          · rintro ⟨r', hr', _, howner⟩
            obtain rfl : r = r' := Option.some.inj (hr.symm.trans hr')
            exact howner
        · obtain rfl : r = r' := Option.some.inj (hr.symm.trans hr')
          rw [Row.isHeld, hforeign, Bool.true_and, decide_eq_true_eq] at hheld
          omega
    -- A row that is over is not in progress for anybody.
    next hprogress _ =>
      cases h
      refine ⟨iff_of_false nofun (not_isForeign_of_status hr ?_), nofun⟩
      exact hprogress

end Table

namespace Store

variable {σ : Type} {s s' : Store} {m : Nat} {k : Key}

/-! ## Counters -/

/-- A change of a manager changes its counters accordingly. -/
theorem stats?_changeManager {f : Manager → Manager} {g : Stats → Stats}
    (h : ∀ x, (f x).stats = g x.stats) : (s.changeManager m f).stats? m = (s.stats? m).map g := by
  rw [stats?, stats?, getElem?_changeManager, Option.map_map, Option.map_map]
  exact congrArg (Option.map · s.managers[m]?) (funext h)

@[simp]
theorem stats?_count {f : Stats → Stats} : (s.count m f).stats? m = (s.stats? m).map f :=
  stats?_changeManager fun _ => rfl

theorem stats?_changeManager_self {f : Manager → Manager} (h : ∀ x, (f x).stats = x.stats) :
    (s.changeManager m f).stats? m = s.stats? m :=
  (stats?_changeManager (g := fun x => x) h).trans Option.map_id'

@[simp]
theorem stats?_depart : (s.depart m k).stats? m = s.stats? m := stats?_changeManager_self fun _ => rfl

@[simp]
theorem stats?_land : (s.land m k).stats? m = s.stats? m := stats?_changeManager_self fun _ => rfl

/-- Counts a claim that took the row from someone. -/
def reclaim (s : Store) (m : Nat) (reclaimed : Bool) : Store :=
  if reclaimed then s.count m fun x => { x with reclaimed := x.reclaimed + 1 } else s

/-- Taking a row from someone is counted. -/
theorem stats?_reclaim {b : Bool} :
    (s.reclaim m b).stats? m =
      (s.stats? m).map fun x => { x with reclaimed := x.reclaimed + b.toNat } := by
  cases b with
  | false => exact Option.map_id'.symm
  | true =>
    rw [reclaim, if_pos rfl]
    exact stats?_count

/-! ## Calls that compute -/

/-- Claiming a key is a claim on the table at some time, which the store shows afterwards. -/
theorem exists_claim_eq (s : Store) (m : Nat) (k : Key) :
    ∃ now, s.claim m k =
      ((s.table.claim k (.manager m) now (s.leaseOf m)).1,
        { s with table := (s.table.claim k (.manager m) now (s.leaseOf m)).2, now }) := by
  unfold claim
  simp only
  split
  next => exact ⟨_, rfl⟩
  next c table _ hclaim => exact ⟨s.now, by rw [hclaim]⟩

theorem leaseOf_depart : (s.depart m k).leaseOf m = s.leaseOf m := by
  unfold leaseOf
  rw [depart, getElem?_changeManager]
  cases s.managers[m]? with
  | none => rfl
  | some x => rfl

/-- Without a result and without a call under way, a claim is granted after the time that it takes, and the call
goes on to compute. -/
theorem begin_of_miss (hmiss : s.table.lookup? k = none) (hfree : s.inFlight m k = false) :
    ∃ b now, s.table.claim k (.manager m) now (s.leaseOf m) =
        (.owned b, s.table.start k (.manager m) now) ∧
      s.begin m k =
        (.leading, { s.depart m k with table := s.table.start k (.manager m) now, now }.reclaim m b) := by
  have hmiss' : (s.depart m k).table.lookup? k = none := hmiss
  obtain ⟨now, hclaim⟩ := exists_claim_eq (s.depart m k) m k
  obtain ⟨b, _, howned⟩ := claim_of_miss (m := m) hmiss'
  rw [leaseOf_depart] at hclaim
  -- The claim is answered at the time when it was made, whatever became of the waiting before.
  have hanswer : (s.table.claim k (.manager m) now (s.leaseOf m)).1 = .owned b :=
    congrArg Prod.fst (hclaim.symm.trans howned)
  rcases Table.claim_of_miss hmiss (.manager m) now (s.leaseOf m) with hbusy | ⟨b', hgranted⟩
  · rw [hbusy] at hanswer
    cases hanswer
  · refine ⟨b', now, hgranted, ?_⟩
    have htable : (s.depart m k).table = s.table := rfl
    rw [htable, hgranted] at hclaim
    unfold begin
    rw [hmiss, hfree, hclaim]
    rfl

/-- What a call that computes does to the rows and the counters. -/
structure Computes (s : Store) (m : Nat) (k : Key) (c : Computed) (b : Bool) (s' : Store) : Prop where
  led : Led s m k c s'
  claim : s.table.claim k (.manager m) s'.now (s.leaseOf m) =
    (.owned b, s.table.start k (.manager m) s'.now)
  table : s'.table = (s.table.start k (.manager m) s'.now).settle k (.manager m) c
  stats : s'.stats? m =
    (s.stats? m).map fun x => c.tally { x with reclaimed := x.reclaimed + b.toNat }

/-- A call without a result computes once. -/
theorem getOrCompute_of_miss (hmiss : s.table.lookup? k = none) (hfree : s.inFlight m k = false)
    (compute : σ → Computed × σ) (w : σ) :
    ∃ b s', s.getOrCompute m k compute w = (some ((compute w).1.outcome k), s', (compute w).2) ∧
      Computes s m k (compute w).1 b s' := by
  obtain ⟨s', hcall, hled⟩ := led_getOrCompute hmiss hfree compute w
  obtain ⟨b, now, hclaim, hbegin⟩ := begin_of_miss hmiss hfree
  refine ⟨b, s', hcall, ?_⟩
  simp only [getOrCompute, hbegin, Prod.mk.injEq] at hcall
  obtain ⟨_, rfl, _⟩ := hcall
  -- The row is started before the counters are touched, and neither depends on the other.
  let started : Store := { s.depart m k with table := s.table.start k (.manager m) now, now }
  have hstarted : started.reclaim m b = { started.reclaim m b with table := started.table, now } := by
    cases b with
    | false => rfl
    | true => rfl
  have hnow : ((started.reclaim m b).settle m k (compute w).1).2.now = now := congrArg Store.now hstarted
  refine ⟨hled, ?_, ?_, ?_⟩
  · rw [hnow]
    exact hclaim
  · rw [hnow]
    exact congrArg (·.table.settle k (.manager m) (compute w).1) hstarted
  · have hdepart : started.stats? m = s.stats? m := stats?_depart
    have hsettle : ((started.reclaim m b).settle m k (compute w).1).2.stats? m =
        ((started.reclaim m b).stats? m).map (compute w).1.tally := stats?_land.trans stats?_count
    rw [hsettle, stats?_reclaim, hdepart, Option.map_map]
    rfl

end Store

/-! ## Requests of one thread -/

/-- What a thread asks of a manager. -/
inductive Request (σ : Type) where
  /-- A result, while the clock shows a time. -/
  | call (now : Int) (key : Key) (compute : σ → Computed × σ)
  /-- The removal of a result. -/
  | invalidate (key : Key)

variable {σ : Type}

/-- The request with a meter that each run of its computation moves on by one. -/
def Request.metered : Request σ → Request (σ × Nat)
  | .call now key compute => .call now key fun w => ((compute w.1).1, (compute w.1).2, w.2 + 1)
  | .invalidate key => .invalidate key

/-- A request with the stores before and after it, and the outcome if it is a call that ends. -/
structure Handled (σ : Type) where
  request : Request σ
  before : Store
  outcome : Option Outcome
  after : Store

/-- Whether the request is a call whose computation was aborted. -/
def Handled.isAborted (h : Handled σ) : Bool := h.outcome = some .aborted

namespace Store

/-- Handles one request. -/
def handle (s : Store) (m : Nat) (w : σ) : Request σ → Option Outcome × Store × σ
  | .call now key compute => { s with now }.getOrCompute m key compute w
  | .invalidate key => (none, { s with table := s.table.invalidate key }, w)

/-- Handles requests one after another. -/
def handleAll (m : Nat) : List (Request σ) → Store → σ → List (Handled σ) × Store × σ
  | [], s, w => ([], s, w)
  | r :: rs, s, w =>
    let step := s.handle m w r
    let rest := handleAll m rs step.2.1 step.2.2
    (⟨r, s, step.1, step.2.1⟩ :: rest.1, rest.2)

/-- A row in progress that was not the manager's own, and whose last sign of life was at least the lease
ago, was started anew by the manager. The age is told for leases below 2^63 milliseconds. -/
structure TakesOver (s : Store) (m : Nat) (k : Key) (s' : Store) : Prop where
  expired : ∃ r, s.table.get? k = some r ∧ r.status = .inProgress ∧ r.owner ≠ some (.manager m) ∧
    (2 * s.leaseOf m < UInt64.size → s.leaseOf m ≤ s'.now - r.heartbeat.getD 0)
  started : ∃ c, s'.table = (s.table.start k (.manager m) s'.now).settle k (.manager m) c

end Store

/-- A computation is counted once, unless it is aborted. -/
theorem Computed.tally_total (c : Computed) (k : Key) (b : Stats) :
    (c.tally b).computed + (c.tally b).failures + (if c.outcome k = .aborted then 1 else 0) =
      b.computed + b.failures + 1 := by
  cases c with
  | payload text => exact Nat.add_right_comm b.computed 1 b.failures
  | failed e => rfl
  | aborted => rfl

/-- Exactly one of the counters of results has been raised, by one. -/
def Stats.RaisesOne (b a : Stats) : Prop :=
  (a.hits = b.hits + 1 ∧ a.computed = b.computed ∧ a.failures = b.failures) ∨
  (a.hits = b.hits ∧ a.computed = b.computed + 1 ∧ a.failures = b.failures) ∨
  (a.hits = b.hits ∧ a.computed = b.computed ∧ a.failures = b.failures + 1)

/-- What a call with an outcome does to the counters `b`, which are `a` afterwards. -/
structure Store.Counts (s : Store) (m : Nat) (k : Key) (o : Outcome) (s' : Store) (b a : Stats) : Prop where
  returned : o ≠ .aborted → b.RaisesOne a
  aborted : o = .aborted → a.hits = b.hits ∧ a.computed = b.computed ∧ a.failures = b.failures
  waited : a.waited = b.waited
  reclaimed : (a.reclaimed = b.reclaimed ∧ ¬ s.table.IsForeign k (.manager m)) ∨
    (a.reclaimed = b.reclaimed + 1 ∧ s.TakesOver m k s')

/-- A call ends and counts; the removal of a result counts nothing. -/
def Handled.Accounted (m : Nat) (h : Handled σ) : Prop :=
  ∃ b a, h.before.stats? m = some b ∧ h.after.stats? m = some a ∧
    match h.request with
    | .call now key _ =>
      ∃ o, h.outcome = some o ∧ { h.before with now }.Counts m key o h.after b a
    | .invalidate _ => a = b

namespace Store

variable {s s' : Store} {m : Nat} {k : Key}

/-! ## One request -/

/-- A call that finds a result counts a hit. -/
theorem counts_hit {p : String} {b : Stats} (hrow : s.table.lookup? k = some p) :
    s.Counts m k (.payload p) (s.hit m) b { b with hits := b.hits + 1 } where
  returned _ := .inl ⟨rfl, rfl, rfl⟩
  aborted := nofun
  waited := rfl
  reclaimed := by
    refine .inl ⟨rfl, fun hforeign => ?_⟩
    rw [hforeign.lookup?_eq_none] at hrow
    cases hrow

/-- A claim that took the row from someone was granted for a row in progress whose lease had expired. -/
theorem Computes.takesOver {c : Computed} (h : Computes s m k c true s') : s.TakesOver m k s' where
  expired := by
    obtain ⟨hforeign, hage⟩ := Table.claim_granted h.claim
    obtain ⟨r, hr, hstatus, howner⟩ := hforeign.1 rfl
    refine ⟨r, hr, hstatus, howner, fun hlease => ?_⟩
    rw [← leaseWord_eq hlease]
    exact hage r rfl hr
  started := ⟨c, h.table⟩

/-- A call that computes counts one result or one failure, and a takeover if there was one. -/
theorem Computes.counts {c : Computed} {reclaimed : Bool} (h : Computes s m k c reclaimed s') (b : Stats) :
    s.Counts m k (c.outcome k) s' b (c.tally { b with reclaimed := b.reclaimed + reclaimed.toNat }) := by
  have hreclaimed : (b.reclaimed + reclaimed.toNat = b.reclaimed ∧ ¬ s.table.IsForeign k (.manager m)) ∨
      (b.reclaimed + reclaimed.toNat = b.reclaimed + 1 ∧ s.TakesOver m k s') := by
    cases reclaimed with
    | false => exact .inl ⟨rfl, fun hforeign => nomatch (Table.claim_granted h.claim).1.2 hforeign⟩
    | true => exact .inr ⟨rfl, h.takesOver⟩
  cases c with
  | payload text => exact ⟨fun _ => .inr (.inl ⟨rfl, rfl, rfl⟩), nofun, rfl, hreclaimed⟩
  | failed e => exact ⟨fun _ => .inr (.inr ⟨rfl, rfl, rfl⟩), nofun, rfl, hreclaimed⟩
  | aborted => exact ⟨fun h => absurd rfl h, fun _ => ⟨rfl, rfl, rfl⟩, rfl, hreclaimed⟩

/-- What a request can do, if no call of the manager is under way. -/
inductive Turn (s : Store) (m : Nat) (w : σ) : Request σ → Option Outcome × Store × σ → Prop where
  | hit {p : String} (now : Int) (k : Key) (compute : σ → Computed × σ)
      (hrow : s.table.lookup? k = some p) :
      Turn s m w (.call now k compute) (some (.payload p), { s with now }.hit m, w)
  | computed {reclaimed : Bool} {s' : Store} (now : Int) (k : Key) (compute : σ → Computed × σ)
      (h : Computes { s with now } m k (compute w).1 reclaimed s') :
      Turn s m w (.call now k compute) (some ((compute w).1.outcome k), s', (compute w).2)
  | removed (k : Key) :
      Turn s m w (.invalidate k) (none, { s with table := s.table.invalidate k }, w)

/-- A request does one of three things if no call of the manager is under way. -/
theorem turn_handle (hfree : ∀ k, s.inFlight m k = false) (w : σ) (r : Request σ) :
    Turn s m w r (s.handle m w r) := by
  cases r with
  | invalidate k => exact .removed k
  | call now k compute =>
    cases hrow : s.table.lookup? k with
    | some p =>
      have hbegin : { s with now }.begin m k = (.hit p, { s with now }.hit m) := begin_eq_hit hrow
      simp only [handle, getOrCompute, hbegin]
      exact .hit now k compute hrow
    | none =>
      have hmiss : { s with now }.table.lookup? k = none := hrow
      have hfree' : { s with now }.inFlight m k = false := hfree k
      obtain ⟨reclaimed, s', hcall, h⟩ := getOrCompute_of_miss hmiss hfree' compute w
      rw [handle, hcall]
      exact .computed now k compute h

namespace Turn

variable {w : σ} {r : Request σ} {x : Option Outcome × Store × σ}

/-- Every request is accounted for. -/
theorem accounted {b : Stats} (h : Turn s m w r x) (hstats : s.stats? m = some b) :
    Handled.Accounted m ⟨r, s, x.1, x.2.1⟩ := by
  cases h with
  | hit now k compute hrow =>
    have hafter : ({ s with now }.hit m).stats? m = some { b with hits := b.hits + 1 } := by
      have hcount : ({ s with now }.hit m).stats? m = (s.stats? m).map _ := stats?_count
      rw [hcount, hstats]
      rfl
    exact ⟨b, _, hstats, hafter, _, rfl, counts_hit hrow⟩
  | computed now k compute h =>
    have hafter := h.stats
    have hbefore : { s with now }.stats? m = some b := hstats
    rw [hbefore] at hafter
    exact ⟨b, _, hstats, hafter, _, rfl, h.counts b⟩
  | removed k => exact ⟨b, b, hstats, hstats, rfl⟩

theorem exists_stats {b : Stats} (h : Turn s m w r x) (hstats : s.stats? m = some b) :
    ∃ a, x.2.1.stats? m = some a := by
  obtain ⟨_, a, _, ha, _⟩ := h.accounted hstats
  exact ⟨a, ha⟩

/-- A request leaves no call of the manager under way. -/
theorem inFlight_eq (h : Turn s m w r x) (hfree : ∀ k, s.inFlight m k = false) (k : Key) :
    x.2.1.inFlight m k = false := by
  cases h with
  | hit now j compute hrow => exact inFlight_count.trans (hfree k)
  | computed now j compute h =>
    by_cases hk : k = j
    · rw [hk]
      exact h.led.landed
    · exact (h.led.flights m k (.inr hk)).trans (hfree k)
  | removed j => exact hfree k

/-- The meter moves on with the counters of computations, and with each computation that is aborted. -/
theorem meter {w : σ × Nat} {b a : Stats} {x : Option Outcome × Store × σ × Nat}
    (h : Turn s m w r.metered x) (hb : s.stats? m = some b) (ha : x.2.1.stats? m = some a) :
    x.2.2.2 + b.computed + b.failures =
      w.2 + a.computed + a.failures + (if x.1 = some .aborted then 1 else 0) := by
  cases r with
  | invalidate k =>
    cases h with
    -- A removal runs nothing and counts nothing.
    | removed k =>
      obtain rfl : b = a := Option.some.inj (hb.symm.trans ha)
      rfl
  | call now k compute =>
    cases h with
    -- A hit runs nothing; the counter of hits is not in the sum.
    | hit _ _ _ hrow =>
      have hcount : ({ s with now }.hit m).stats? m = (s.stats? m).map _ := stats?_count
      rw [hcount, hb] at ha
      obtain rfl := Option.some.inj ha
      rfl
    -- A computation ran once, and was counted as computed or failed, unless it was aborted.
    | @computed reclaimed _ _ _ _ h =>
      have hbefore : { s with now }.stats? m = some b := hb
      rw [h.stats, hbefore] at ha
      obtain rfl := Option.some.inj ha
      have htally := (compute w.1).1.tally_total k { b with reclaimed := b.reclaimed + reclaimed.toNat }
      dsimp only at htally
      simp only [Option.some.injEq]
      omega

end Turn

/-! ## All requests -/

theorem map_request_handleAll (rs : List (Request σ)) (s : Store) (w : σ) :
    (handleAll m rs s w).1.map (·.request) = rs := by
  induction rs generalizing s w with
  | nil => rfl
  | cons r rs ih => simp [handleAll, ih]

/-- All of some requests are accounted for. -/
theorem accounted_handleAll (rs : List (Request σ)) {s : Store} {b : Stats} (hstats : s.stats? m = some b)
    (hfree : ∀ k, s.inFlight m k = false) (w : σ) :
    ∀ h ∈ (handleAll m rs s w).1, h.Accounted m := by
  induction rs generalizing s b w with
  | nil => exact fun h hh => absurd hh List.not_mem_nil
  | cons r rs ih =>
    have hturn := turn_handle hfree w r
    obtain ⟨a, hafter⟩ := hturn.exists_stats hstats
    intro h hh
    rcases List.mem_cons.1 hh with rfl | hh
    · exact hturn.accounted hstats
    · exact ih hafter (hturn.inFlight_eq hfree) _ h hh

/-- The meter of the computations and the counters move on together, but for computations that are aborted. -/
theorem meter_handleAll (rs : List (Request σ)) {s : Store} {b : Stats} (hstats : s.stats? m = some b)
    (hfree : ∀ k, s.inFlight m k = false) (w : σ × Nat) :
    ∃ a, (handleAll m (rs.map .metered) s w).2.1.stats? m = some a ∧
      (handleAll m (rs.map .metered) s w).2.2.2 + b.computed + b.failures =
        w.2 + a.computed + a.failures + (handleAll m (rs.map .metered) s w).1.countP Handled.isAborted := by
  induction rs generalizing s b w with
  | nil => exact ⟨b, hstats, rfl⟩
  | cons r rs ih =>
    have hturn := turn_handle hfree w r.metered
    obtain ⟨c, hafter⟩ := hturn.exists_stats hstats
    have hfirst := hturn.meter hstats hafter
    obtain ⟨a, hlast, hrest⟩ := ih hafter (hturn.inFlight_eq hfree) (s.handle m w r.metered).2.2
    refine ⟨a, hlast, ?_⟩
    have haborted : ∀ h : Handled (σ × Nat), h.isAborted = true ↔ h.outcome = some .aborted :=
      fun h => decide_eq_true_iff
    simp only [List.map_cons, handleAll, List.countP_cons, haborted]
    omega

/-- Any requests of one thread, over any table. Each of them ends. A call that returns raises exactly one of
the counters of hits, computations and failures, by one, and a call whose computation is aborted raises none.
None counts as waiting. A call raises the counter of reclaimed rows by one if it takes over a row in
progress that was not its own, and else leaves it alone. The number of runs of computations is that of
those counted as computed or failed and of those aborted. -/
theorem calls_counted (s : Store) (m : Nat) {b : Stats} (hstats : s.stats? m = some b)
    (hfree : ∀ k, s.inFlight m k = false) (rs : List (Request σ)) (w : σ) :
    ∃ handled last w' runs a,
      handleAll m (rs.map .metered) s (w, 0) = (handled, last, w', runs) ∧
      handled.map (·.request) = rs.map .metered ∧
      (∀ h ∈ handled, h.Accounted m) ∧
      last.stats? m = some a ∧
      runs + b.computed + b.failures = a.computed + a.failures + handled.countP Handled.isAborted := by
  obtain ⟨a, hlast, hruns⟩ := meter_handleAll rs hstats hfree (w, 0)
  refine ⟨_, _, _, _, a, rfl, ?_, ?_, hlast, ?_⟩
  · exact map_request_handleAll _ s (w, 0)
  · exact accounted_handleAll _ hstats hfree (w, 0)
  · rwa [Nat.zero_add] at hruns

/-- A row that a stranger has left is taken over by a computation that is aborted. The next one fails, the
third gives a result, which is found, removed and computed again. -/
def troubledRequests (k : Key) : List (Request Unit) :=
  [.call 1400 k fun w => (.aborted, w), .call 1500 k fun w => (.failed .unexpectedForm, w),
    .call 1600 k fun w => (.payload "first", w), .call 1700 k fun w => (.payload "unused", w),
    .invalidate k, .call 1800 k fun w => (.payload "second", w)]

theorem calls_counted_troubled :
    let k : Key := ⟨.nativeGraph, ⟨"numpy", "2.0"⟩, "analysis"⟩
    (abandoned k).stats? 0 = some .zero ∧ (∀ j, (abandoned k).inFlight 0 j = false) ∧
      ∃ handled last runs,
        handleAll 0 ((troubledRequests k).map .metered) (abandoned k) ((), 0) = (handled, last, (), runs) ∧
        (∀ h ∈ handled, h.Accounted 0) ∧
        last.stats? 0 = some ⟨1, 2, 0, 1, 1⟩ ∧ handled.countP Handled.isAborted = 1 ∧ runs = 4 := by
  intro k
  have hfree : ∀ j, (abandoned k).inFlight 0 j = false := fun _ => rfl
  obtain ⟨handled, last, _, runs, a, hall, _, haccounted, hlast, hruns⟩ :=
    calls_counted (abandoned k) 0 rfl hfree (troubledRequests k) ()
  -- The requests can be run, and say what the counters must be.
  have hstats : (handleAll 0 ((troubledRequests k).map .metered) (abandoned k) ((), 0)).2.1.stats? 0 =
      some ⟨1, 2, 0, 1, 1⟩ := by decide +kernel
  have haborted : (handleAll 0 ((troubledRequests k).map .metered) (abandoned k)
      ((), 0)).1.countP Handled.isAborted = 1 := by decide +kernel
  rw [hall] at hstats haborted
  obtain rfl : a = ⟨1, 2, 0, 1, 1⟩ := Option.some.inj (hlast.symm.trans hstats)
  refine ⟨rfl, hfree, handled, last, runs, hall, haccounted, hlast, haborted, ?_⟩
  simpa [haborted, Stats.zero] using hruns

/-- A row in progress that names no owner, two minutes after its last sign of life. -/
def unowned (k : Key) : Store where
  table := SortedMap.empty.insert k ⟨.inProgress, none, none, some 0, none, 1⟩
  managers := [⟨60000, [], .zero⟩]
  now := 120000

/-- A stranger who has just begun, and a manager whose lease has 2^63 milliseconds. -/
def endless (k : Key) : Store where
  table := SortedMap.empty.insert k (.started none (.stranger "elsewhere") 0)
  managers := [⟨9223372036854775808, [], .zero⟩]
  now := 0

/-- A call counts a row as reclaimed that was no one's, and with a lease of 2^63 milliseconds one whose
owner gave a sign of life in the same millisecond. -/
theorem reclaimed_without_expired_claim :
    let k : Key := ⟨.nativeGraph, ⟨"p", "1"⟩, "c"⟩
    let compute : Unit → Computed × Unit := fun w => (.payload "x", w)
    ((unowned k).stats? 0 = some .zero ∧
      ((unowned k).getOrCompute 0 k compute ()).2.1.stats? 0 = some ⟨0, 1, 0, 0, 1⟩ ∧
      ∀ r, (unowned k).table.get? k = some r → r.owner = none) ∧
    ((endless k).stats? 0 = some .zero ∧
      ((endless k).getOrCompute 0 k compute ()).2.1.stats? 0 = some ⟨0, 1, 0, 0, 1⟩ ∧
      ∀ r, (endless k).table.get? k = some r →
        ((endless k).getOrCompute 0 k compute ()).2.1.now - r.heartbeat.getD 0 < (endless k).leaseOf 0) := by
  intro k compute
  refine ⟨⟨rfl, by decide +kernel, fun r hr => ?_⟩, ⟨rfl, by decide +kernel, fun r hr => ?_⟩⟩
  -- The row has no owner who could have lost it.
  · have hrow : (unowned k).table.get? k = _ := SortedMap.get?_insert_self
    obtain rfl := Option.some.inj (hrow.symm.trans hr)
    rfl
  -- As a number the lease has just begun; as a signed word it is negative, and has run out.
  · have hrow : (endless k).table.get? k = _ := SortedMap.get?_insert_self
    obtain rfl := Option.some.inj (hrow.symm.trans hr)
    decide +kernel

end Store
end Memo
end Bridgework
