import Bridgework.Proofs.Memo.Row

/-!
# Calls while nothing else is under way

A manager that is the only one to use a table, and that has no call under way, finds every row settled. A
call of it is answered from the table, or computes and settles, and afterwards all rows are settled again.

- `Memo.Computed.payload?` : what is kept of a computation
- `Memo.Store.Idle` : nothing is under way
- `Memo.Store.Answered` : the two ways in which a call is answered
- `Memo.Store.answered_getOrCompute` : there are no others
-/

namespace Bridgework
namespace Memo

/-- The text that is kept of a computation. -/
def Computed.payload? : Computed → Option String
  | .payload text => some text
  | .failed _ => none
  | .aborted => none

/-! ## Settled tables -/

namespace Table

variable {t : Table} {k j : Key} {o : Owner} {now : Int} {lease : Nat}

/-- No row is in progress. -/
def Settled (t : Table) : Prop := ∀ k r, t.get? k = some r → r.status ≠ .inProgress

/-- Where no row is in progress, a claim on a key without a result is granted at once. -/
theorem Settled.claim_eq (h : t.Settled) (hmiss : t.lookup? k = none) :
    t.claim k o now lease = (.owned false, t.start k o now) := by
  cases hrow : t.get? k with
  | none => simp [claim, hrow]
  | some r =>
    have hstatus : r.status ≠ .inProgress := h k r hrow
    unfold claim
    rw [hrow]
    simp only
    split
    next p hcomplete hpayload =>
      rw [lookup?_eq_some hrow hcomplete hpayload] at hmiss
      cases hmiss
    next hprogress => exact absurd hprogress hstatus
    next => rfl

/-- After a computation the row of the key is settled. -/
theorem get?_settle_start_self {c : Computed} :
    ((t.start k o now).settle k o c).get? k = some ((Row.started (t.get? k) o now).settled c) :=
  get?_settle_self SortedMap.get?_insert_self rfl

/-- A computation touches no other row. -/
theorem get?_settle_start_of_ne {c : Computed} (hne : j ≠ k) :
    ((t.start k o now).settle k o c).get? j = t.get? j :=
  (get?_settle_of_ne hne).trans (get?_start_of_ne hne)

/-- A lookup after a computation finds what is kept of it. -/
theorem lookup?_settle_start_self {c : Computed} :
    ((t.start k o now).settle k o c).lookup? k = c.payload? := by
  rw [lookup?, get?_settle_start_self]
  cases c with
  | payload text => rfl
  | failed e => rfl
  | aborted => rfl

theorem lookup?_settle_start_of_ne {c : Computed} (hne : j ≠ k) :
    ((t.start k o now).settle k o c).lookup? j = t.lookup? j := by
  rw [lookup?, lookup?, get?_settle_start_of_ne hne]

/-- No row is in progress after a computation, if none was before. -/
theorem Settled.settle_start {c : Computed} (h : t.Settled) : ((t.start k o now).settle k o c).Settled := by
  intro j r hr
  by_cases hj : j = k
  · subst hj
    rw [get?_settle_start_self] at hr
    obtain rfl := Option.some.inj hr
    cases c with
    | payload text => simp [Row.settled]
    | failed e => simp [Row.settled]
    | aborted => simp [Row.settled]
  · rw [get?_settle_start_of_ne hj] at hr
    exact h j r hr

end Table

/-! ## Calls -/

namespace Store

variable {σ : Type} {s : Store} {m : Nat} {k : Key}

/-- No row is in progress, and the manager has no call under way. -/
structure Idle (s : Store) (m : Nat) : Prop where
  settled : s.table.Settled
  landed : ∀ x, s.managers[m]? = some x → x.flights = []

theorem Idle.start (lease : Nat) (now : Int) : (Store.start lease now).Idle 0 where
  settled k r hr := by
    have hnone : (Store.start lease now).table.get? k = none := rfl
    rw [hnone] at hr
    cases hr
  landed x hx := by
    cases hx
    rfl

theorem Idle.inFlight_eq (h : s.Idle m) (k : Key) : s.inFlight m k = false := by
  unfold inFlight
  split
  next x hx =>
    rw [h.landed x hx]
    rfl
  next => rfl

theorem getElem?_changeManager {f : Manager → Manager} :
    (s.changeManager m f).managers[m]? = (s.managers[m]?).map f :=
  List.getElem?_modify_eq f m s.managers

/-- Counting is no flight. -/
theorem Idle.count {f : Stats → Stats} (h : s.Idle m) : (s.count m f).Idle m where
  settled := h.settled
  landed x hx := by
    rw [Store.count, getElem?_changeManager, Option.map_eq_some_iff] at hx
    obtain ⟨y, hy, rfl⟩ := hx
    exact h.landed y hy

/-- How a call is answered: from the table, which stays as it is, or by computing, after which the table
has what is kept of the result. -/
inductive Answered (s : Store) (k : Key) (compute : σ → Computed × σ) (w : σ) :
    Option Outcome × Store × σ → Prop where
  | hit {p : String} {s' : Store} (hrow : s.table.lookup? k = some p) (htable : s'.table = s.table) :
      Answered s k compute w (some (.payload p), s', w)
  | computed {s' : Store} (hmiss : s.table.lookup? k = none)
      (hkept : s'.table.lookup? k = (compute w).1.payload?)
      (hother : ∀ j, j ≠ k → s'.table.lookup? j = s.table.lookup? j) :
      Answered s k compute w (some ((compute w).1.outcome k), s', (compute w).2)

/-- A result that is there is given at once. -/
theorem begin_eq_hit {p : String} (hrow : s.table.lookup? k = some p) :
    s.begin m k = (.hit p, s.hit m) := by
  unfold begin
  rw [hrow]

/-- Without a result and without others, a call goes on to compute. -/
theorem Idle.begin_eq_leading (h : s.Idle m) (hmiss : s.table.lookup? k = none) :
    s.begin m k =
      (.leading, { s.depart m k with table := s.table.start k (.manager m) s.now }) := by
  have hclaim : (s.depart m k).claim m k =
      (.owned false, { s.depart m k with table := s.table.start k (.manager m) s.now }) := by
    have hgranted : (s.depart m k).table.claim k (.manager m) (s.depart m k).now
        ((s.depart m k).leaseOf m) = (.owned false, s.table.start k (.manager m) s.now) :=
      h.settled.claim_eq hmiss
    simp only [claim, hgranted]
  unfold begin
  rw [hmiss, h.inFlight_eq k, hclaim]
  rfl

/-- A flight that has departed and landed leaves nothing under way. -/
theorem Idle.settle_leading (h : s.Idle m) (c : Computed) :
    ({ s.depart m k with table := s.table.start k (.manager m) s.now }.settle m k c).2.Idle m where
  settled := h.settled.settle_start
  landed x hx := by
    rw [settle, land, getElem?_changeManager, Option.map_eq_some_iff] at hx
    obtain ⟨y, hy, rfl⟩ := hx
    rw [Store.count, getElem?_changeManager, Option.map_eq_some_iff] at hy
    obtain ⟨z, hz, rfl⟩ := hy
    have hdepart : (s.depart m k).managers[m]? = some z := hz
    rw [depart, getElem?_changeManager, Option.map_eq_some_iff] at hdepart
    obtain ⟨u, hu, rfl⟩ := hdepart
    simp [h.landed u hu]

/-- A call while nothing else is under way is answered, and nothing is under way after it. -/
theorem answered_getOrCompute (h : s.Idle m) (k : Key) (compute : σ → Computed × σ) (w : σ) :
    Answered s k compute w (s.getOrCompute m k compute w) ∧ (s.getOrCompute m k compute w).2.1.Idle m := by
  cases hrow : s.table.lookup? k with
  | some p =>
    simp only [getOrCompute, begin_eq_hit hrow]
    exact ⟨.hit hrow rfl, h.count⟩
  | none =>
    simp only [getOrCompute, h.begin_eq_leading hrow]
    refine ⟨.computed hrow ?_ ?_, h.settle_leading _⟩
    · exact Table.lookup?_settle_start_self
    · exact fun j hj => Table.lookup?_settle_start_of_ne hj

end Store
end Memo
end Bridgework
