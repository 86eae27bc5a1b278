import Bridgework.Memo.Store

/-!
# Rows that belong to an owner

What the operations on the table do to a row in progress. An owner keeps its row as long as no one claims
the key after the lease has expired and the owner itself does not settle.

- `Memo.Table.HeldBy` : the row of a key is in progress and belongs to an owner
- `Memo.Table.HeldBy.claim_eq_busy` : within the lease, others are kept out
- `Memo.Table.heldBy_of_claim` : who is granted the right holds the row
-/

namespace Bridgework
namespace Memo

/-- Leases below half the range of a word, which is 2^63 milliseconds, are compared as they are. -/
theorem leaseWord_eq {lease : Nat} (h : 2 * lease < UInt64.size) : leaseWord lease = lease := by
  have hlease : 2 * lease < 18446744073709551616 := h
  have hmod : Int.bmod lease 18446744073709551616 = lease := by
    rw [Int.bmod_def]
    omega
  exact hmod

namespace Table

/-- The row of the key is in progress and belongs to the owner. -/
def HeldBy (t : Table) (k : Key) (o : Owner) : Prop :=
  ∃ r, t.get? k = some r ∧ r.status = .inProgress ∧ r.owner = some o

variable {t u : Table} {k j : Key} {o asking : Owner} {now : Int} {lease : Nat}

/-- A row has one owner. -/
theorem HeldBy.unique {o' : Owner} (h : t.HeldBy k o) (h' : t.HeldBy k o') : o = o' := by
  rcases h with ⟨r, hr, _, ho⟩
  rcases h' with ⟨r', hr', _, ho'⟩
  obtain rfl : r = r' := Option.some.inj (hr.symm.trans hr')
  exact Option.some.inj (ho.symm.trans ho')

/-! ## Rows of other keys -/

theorem get?_start_of_ne (h : j ≠ k) : (t.start k o now).get? j = t.get? j :=
  SortedMap.get?_insert_of_ne h

theorem get?_changeOwned_of_ne {f : Row → Row} (h : j ≠ k) :
    (t.changeOwned k o f).get? j = t.get? j := by
  unfold changeOwned
  split
  next => rfl
  next =>
    split
    next => exact SortedMap.get?_insert_of_ne h
    next => rfl

/-- A claim that is granted starts the row of its key; any other leaves the table alone. -/
theorem claim_cases {x : Claim} (h : t.claim k o now lease = (x, u)) :
    (∃ b, x = .owned b) ∧ u = t.start k o now ∨ (∀ b, x ≠ .owned b) ∧ u = t := by
  unfold claim at h
  split at h
  -- No row yet.
  next =>
    cases h
    exact .inl ⟨⟨_, rfl⟩, rfl⟩
  next =>
    split at h
    -- A result is there.
    next =>
      cases h
      exact .inr ⟨nofun, rfl⟩
    next =>
      split at h
      -- The row is held by somebody else.
      next =>
        cases h
        exact .inr ⟨nofun, rfl⟩
      -- The row in progress may be taken over.
      next =>
        cases h
        exact .inl ⟨⟨_, rfl⟩, rfl⟩
    -- A row without a result is started anew.
    next =>
      cases h
      exact .inl ⟨⟨_, rfl⟩, rfl⟩

/-- A claim touches no other row than that of its key. -/
theorem get?_claim_of_ne {x : Claim} (h : t.claim k o now lease = (x, u)) (hne : j ≠ k) :
    u.get? j = t.get? j := by
  rcases claim_cases h with ⟨_, rfl⟩ | ⟨_, rfl⟩
  · exact get?_start_of_ne hne
  · rfl

theorem get?_settle_of_ne {c : Computed} (h : j ≠ k) : (t.settle k o c).get? j = t.get? j := by
  cases c with
  | payload text => exact get?_changeOwned_of_ne h
  | failed e => exact get?_changeOwned_of_ne h
  | aborted => exact get?_changeOwned_of_ne h

/-! ## The row of the key -/

theorem heldBy_start : (t.start k o now).HeldBy k o :=
  ⟨.started (t.get? k) o now, SortedMap.get?_insert_self, rfl, rfl⟩

/-- Whoever is granted a claim holds the row. -/
theorem heldBy_of_claim {b : Bool} (h : t.claim k o now lease = (.owned b, u)) : u.HeldBy k o := by
  rcases claim_cases h with ⟨_, rfl⟩ | ⟨hx, _⟩
  · exact heldBy_start
  · exact absurd rfl (hx b)

/-- A row that gives signs of life is not given to anyone else. -/
theorem HeldBy.claim_eq_busy (h : t.HeldBy k o) (hne : o ≠ asking)
    (hfresh : ∀ r, t.get? k = some r → now - r.heartbeat.getD 0 < leaseWord lease) :
    t.claim k asking now lease = (.busy, t) := by
  rcases h with ⟨r, hr, hstatus, howner⟩
  have hheld : r.isHeld asking now lease = true := by
    simp [Row.isHeld, howner, hne, hfresh r hr]
  simp [claim, hr, hstatus, hheld]

/-- Once the lease has expired, a claim finds the result or is granted. -/
theorem claim_ne_busy
    (hstale : ∀ r, t.get? k = some r → leaseWord lease ≤ now - r.heartbeat.getD 0) :
    t.claim k o now lease ≠ (.busy, u) := by
  unfold claim
  split
  next => nofun
  next r hr =>
    have hheld : r.isHeld o now lease = false := by
      have hage := hstale r hr
      simp only [Row.isHeld, Bool.and_eq_false_imp, decide_eq_false_iff_not]
      omega
    split
    next => nofun
    next =>
      rw [hheld]
      nofun
    next => nofun

/-- Every lease on the row of a key expires. -/
theorem exists_stale (t : Table) (k : Key) (now : Int) (lease : Nat) :
    ∃ millis : Nat, ∀ r, t.get? k = some r →
      leaseWord lease ≤ now + millis - r.heartbeat.getD 0 := by
  cases hrow : t.get? k with
  | none => exact ⟨0, nofun⟩
  | some r =>
    refine ⟨(leaseWord lease + r.heartbeat.getD 0 - now).toNat, ?_⟩
    intro r' hr'
    obtain rfl : r = r' := Option.some.inj hr'
    omega

/-- A sign of life takes a row from nobody. -/
theorem HeldBy.beat (h : t.HeldBy k o) : (t.beat j asking now).HeldBy k o := by
  rcases h with ⟨r, hr, hstatus, howner⟩
  by_cases hk : k = j
  · subst hk
    by_cases ho : r.owner = some asking
    · refine ⟨{ r with heartbeat := some now }, ?_, hstatus, howner⟩
      simp [Table.beat, changeOwned, hr, ho, hstatus]
    · refine ⟨r, ?_, hstatus, howner⟩
      simp [Table.beat, changeOwned, hr, ho]
  · exact ⟨r, (get?_changeOwned_of_ne hk).trans hr, hstatus, howner⟩

/-- Rows in progress are not removed. -/
theorem HeldBy.invalidate (h : t.HeldBy k o) : (t.invalidate j).HeldBy k o := by
  rcases h with ⟨r, hr, hstatus, howner⟩
  unfold Table.invalidate
  split
  next hremovable =>
    have hk : k ≠ j := by
      rintro rfl
      simp [isRemovable, hr, hstatus] at hremovable
    exact ⟨r, (SortedMap.get?_erase_of_ne hk).trans hr, hstatus, howner⟩
  next => exact ⟨r, hr, hstatus, howner⟩

end Table
end Memo
end Bridgework
