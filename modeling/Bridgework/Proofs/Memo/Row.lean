import Bridgework.Proofs.Memo.Flight

/-!
# What an action does to a row

Everything that one atomic change can do to the row of a key, with who does it. A row changes when a claim
on its key is granted, when its own owner beats or settles, and when it is removed; whatever else happens
leaves it exactly as it is.

- `Memo.Row.settled` : the row of an owner who has ended computing
- `Memo.Scene.RowTurn` : the cases
- `Memo.Scene.Step.rowTurn` : there are no others
- `Memo.Scene.Step.heldBy_of_begins` : who begins to compute holds the row
-/

namespace Bridgework
namespace Memo

/-- The row of an owner who has ended computing. -/
def Row.settled (r : Row) : Computed → Row
  | .payload text => { r with status := .complete, payload := some text, owner := none, error := none }
  | .failed e => { r with status := .failed, payload := none, owner := none, error := some e.message }
  | .aborted => { r with status := .failed, payload := none, owner := none, error := some abortReason }

theorem Row.owner_settled (r : Row) (result : Computed) : (r.settled result).owner = none := by
  cases result with
  | payload text => rfl
  | failed e => rfl
  | aborted => rfl

namespace Table

variable {t u : Table} {k : Key} {o : Owner} {now : Int} {lease : Nat}

/-! ## Owners' changes -/

/-- An owner changes nothing about a row that is not its own. -/
theorem changeOwned_of_not_owner {f : Row → Row} (h : ∀ r, t.get? k = some r → r.owner ≠ some o) :
    t.changeOwned k o f = t := by
  unfold changeOwned
  split
  next => rfl
  next r hr => exact if_neg (h r hr)

theorem get?_changeOwned_self {f : Row → Row} {r : Row} (hr : t.get? k = some r)
    (ho : r.owner = some o) : (t.changeOwned k o f).get? k = some (f r) := by
  simp [changeOwned, hr, ho]

/-- Only the owner gives signs of life. -/
theorem beat_of_not_owner (h : ∀ r, t.get? k = some r → r.owner ≠ some o) : t.beat k o now = t :=
  changeOwned_of_not_owner h

/-- Only the owner settles a row. -/
theorem settle_of_not_owner {result : Computed} (h : ∀ r, t.get? k = some r → r.owner ≠ some o) :
    t.settle k o result = t := by
  cases result with
  | payload text => exact changeOwned_of_not_owner h
  | failed e => exact changeOwned_of_not_owner h
  | aborted => exact changeOwned_of_not_owner h

/-- The row that its owner settles is settled by the result. -/
theorem get?_settle_self {result : Computed} {r : Row} (hr : t.get? k = some r)
    (ho : r.owner = some o) : (t.settle k o result).get? k = some (r.settled result) := by
  cases result with
  | payload text => exact get?_changeOwned_self hr ho
  | failed e => exact get?_changeOwned_self hr ho
  | aborted => exact get?_changeOwned_self hr ho

/-! ## Claims and removal -/

/-- A result that is there is given to whoever claims the key. -/
theorem claim_eq_complete {p : String} (h : t.lookup? k = some p) :
    t.claim k o now lease = (.complete p, t) := by
  unfold lookup? at h
  split at h
  next r hr =>
    split at h
    next hstatus => simp [claim, hr, hstatus, h]
    next => cases h
  next => cases h

/-- A claim is granted only where there is no result. -/
theorem lookup?_eq_none_of_claim {b : Bool} (h : t.claim k o now lease = (.owned b, u)) :
    t.lookup? k = none := by
  match hp : t.lookup? k with
  | none => rfl
  | some p =>
    rw [claim_eq_complete hp] at h
    cases h

theorem lookup?_eq_some {r : Row} {p : String} (hr : t.get? k = some r)
    (hstatus : r.status = .complete) (hp : r.payload = some p) : t.lookup? k = some p := by
  simp [lookup?, hr, hstatus, hp]

theorem get?_invalidate_self {r : Row} (hr : t.get? k = some r) (hstatus : r.status ≠ .inProgress) :
    (t.invalidate k).get? k = none := by
  have hremovable : t.isRemovable k = true := by simp [isRemovable, hr, hstatus]
  simp [invalidate, hremovable, SortedMap.get?_erase]

end Table

namespace Scene

variable {lease : Nat → Nat} {s t : Scene} {a : Action} {k : Key}

/-! ## Cases -/

/-- What becomes of the row of a key. -/
inductive RowTurn (s : Scene) (k : Key) : Action → Option Row → Option Row → Prop where
  | keep {a : Action} (row : Option Row) : RowTurn s k a row row
  | start {n : Nat} {c : Caller} (hn : s.callers n = some c) (hphase : c.phase = .claiming)
      (hkey : c.key = k) (hmiss : s.table.lookup? k = none) (row : Option Row) :
      RowTurn s k (.claim n) row (some (.started row (.manager c.manager) s.now))
  | beat {n : Nat} {c : Caller} {r : Row} (hn : s.callers n = some c) (hphase : c.phase = .computing)
      (hkey : c.key = k) (howner : r.owner = some (.manager c.manager))
      (hstatus : r.status = .inProgress) :
      RowTurn s k (.beat n) (some r) (some { r with heartbeat := some s.now })
  | settle {n : Nat} {c : Caller} {r : Row} (hn : s.callers n = some c)
      (hphase : c.phase = .computing) (hkey : c.key = k) (howner : r.owner = some (.manager c.manager))
      (result : Computed) : RowTurn s k (.settle n result) (some r) (some (r.settled result))
  | remove {r : Row} (hstatus : r.status ≠ .inProgress) : RowTurn s k (.invalidate k) (some r) none

theorem rowTurn_of_eq {row row' : Option Row} (h : row' = row) : RowTurn s k a row row' := by
  subst h
  exact .keep row'

/-- An owner's change reaches only its own row, and only of its own key. -/
theorem rowTurn_of_changeOwned {c : Caller} {f : Row → Row}
    (hturn : ∀ r, c.key = k → r.owner = some (.manager c.manager) → RowTurn s k a (some r) (some (f r))) :
    RowTurn s k a (s.table.get? k)
      ((s.table.changeOwned c.key (.manager c.manager) f).get? k) := by
  -- Only the row of the own key is changed, and only while the caller owns it.
  by_cases hkey : k = c.key
  · subst hkey
    match hr : s.table.get? c.key with
    | none =>
      rw [Table.changeOwned_of_not_owner (by rw [hr]; nofun), hr]
      exact .keep none
    | some r =>
      by_cases ho : r.owner = some (.manager c.manager)
      · rw [Table.get?_changeOwned_self hr ho]
        exact hturn r rfl ho
      · have hother : ∀ r', s.table.get? c.key = some r' → r'.owner ≠ some (.manager c.manager) := by
          intro r' hr'
          obtain rfl : r = r' := Option.some.inj (hr.symm.trans hr')
          exact ho
        rw [Table.changeOwned_of_not_owner hother, hr]
        exact .keep (some r)
  · exact rowTurn_of_eq (Table.get?_changeOwned_of_ne hkey)

namespace Step

/-! ## There are no other cases -/

/-- A step does to the row of a key what its action says, and nothing to any other row. -/
theorem rowTurn (h : Step lease s a t) (k : Key) :
    RowTurn s k a (s.table.get? k) (t.table.get? k) := by
  cases h with
  -- A claim that finds a result changes nothing in the table.
  | @adopt n c p table hn hphase hclaim =>
    rcases Table.claim_cases hclaim with ⟨⟨_, hx⟩, _⟩ | ⟨_, rfl⟩
    · cases hx
    · exact .keep _
  | @own n c b table hn hphase hclaim =>
    by_cases hkey : k = c.key
    · subst hkey
      -- Claims are granted for the own key only; the row is started anew for the claimer.
      have hmiss : s.table.lookup? c.key = none := Table.lookup?_eq_none_of_claim hclaim
      rcases Table.claim_cases hclaim with ⟨_, rfl⟩ | ⟨hx, _⟩
      · have hrow : (s.table.start c.key (.manager c.manager) s.now).get? c.key =
            some (.started (s.table.get? c.key) (.manager c.manager) s.now) :=
          SortedMap.get?_insert_self
        show RowTurn s c.key (.claim n) _ ((s.table.start c.key (.manager c.manager) s.now).get? c.key)
        rw [hrow]
        exact .start hn hphase rfl hmiss _
      · exact absurd rfl (hx b)
    · exact rowTurn_of_eq (Table.get?_claim_of_ne hclaim hkey)
  | @busy n c table hn hphase hclaim =>
    rcases Table.claim_cases hclaim with ⟨⟨_, hx⟩, _⟩ | ⟨_, rfl⟩
    · cases hx
    · exact .keep _
  -- A beat is written into the row only while the caller owns it.
  | @beat n c hn hphase =>
    refine rowTurn_of_changeOwned ?_
    intro r hkey ho
    by_cases hstatus : r.status = .inProgress
    · simpa [hstatus] using RowTurn.beat hn hphase hkey ho hstatus
    · simpa [hstatus] using RowTurn.keep (some r)
  | @settle n c result hn hphase =>
    cases result with
    | payload text =>
      exact rowTurn_of_changeOwned fun r hkey ho => .settle hn hphase hkey ho (.payload text)
    | failed e => exact rowTurn_of_changeOwned fun r hkey ho => .settle hn hphase hkey ho (.failed e)
    | aborted => exact rowTurn_of_changeOwned fun r hkey ho => .settle hn hphase hkey ho .aborted
  -- Invalidating removes a row that is over, and leaves one in progress.
  | invalidate j =>
    show RowTurn s k (.invalidate j) _ ((s.table.invalidate j).get? k)
    unfold Table.invalidate
    split
    next hremovable =>
      by_cases hkey : k = j
      · subst hkey
        unfold Table.isRemovable at hremovable
        split at hremovable
        next r hr =>
          have hstatus : r.status ≠ .inProgress := by simpa using hremovable
          rw [hr, SortedMap.get?_erase, if_pos Std.ReflCmp.compare_self]
          exact .remove hstatus
        next => cases hremovable
      · exact rowTurn_of_eq (SortedMap.get?_erase_of_ne hkey)
    next => exact .keep _
  -- No other action writes to the table.
  | _ => exact .keep _

/-- Who begins to compute with this step holds the row of its key. -/
theorem heldBy_of_begins (h : Step lease s a t) {j : Nat} {d : Caller} (hj : t.callers j = some d)
    (hphase : d.phase = .computing) (hnew : s.callers j ≠ some d) :
    t.table.HeldBy d.key (.manager d.manager) := by
  -- A caller that is moved to another phase than computing is none that begins to compute.
  have hmove : ∀ {r : Scene} {n : Nat} {c : Caller} {p : Phase}, r.callers = s.callers →
      (r.move n c p).callers j = some d → p = .computing := by
    intro r n c p hr hj
    rcases eq_or_of_callers_move hj with ⟨_, rfl⟩ | ⟨_, hj⟩
    · exact hphase
    · exact absurd (hr ▸ hj) hnew
  cases h with
  | @own n c b table hn hclaiming hclaim =>
    rcases eq_or_of_callers_move hj with ⟨_, rfl⟩ | ⟨_, hj⟩
    · exact Table.heldBy_of_claim hclaim
    · exact absurd hj hnew
  | busy _ _ _ => exact absurd hj hnew
  | beat _ _ => exact absurd hj hnew
  | invalidate _ => exact absurd hj hnew
  | wait _ => exact absurd hj hnew
  | _ => cases hmove rfl hj

end Step
end Scene
end Memo
end Bridgework
