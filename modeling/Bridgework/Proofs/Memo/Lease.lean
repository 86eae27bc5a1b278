import Bridgework.Proofs.Memo.Table
import Bridgework.Settings.Basic

/-!
# How long a lease keeps others out

A claim on a row of another owner compares the age of the last sign of life with the lease. The lease is
compared as a signed word of 64 bits, which is never more than the lease itself, so a row is never kept for
too long. From 2^63 milliseconds on the word is less than the lease, and a row is given away while its owner
is alive.

- `Memo.leaseWord_le`, `Memo.two_mul_leaseWord_lt` : the word for a lease
- `Memo.Table.claim_of_other` : the answer to someone who is not the owner
- `Memo.Table.lease_kept_iff` : for which settings the lease is kept
-/

namespace Bridgework
namespace Memo

variable {lease : Nat}

/-! ## Words for leases -/

/-- A lease is never compared as a greater one. -/
theorem leaseWord_le (lease : Nat) : leaseWord lease ≤ lease := by
  have hmod : Int.bmod lease 18446744073709551616 ≤ lease := by
    rw [Int.bmod_def]
    omega
  exact hmod

theorem two_mul_leaseWord_lt (lease : Nat) : 2 * leaseWord lease < UInt64.size := by
  have hmod : 2 * Int.bmod lease 18446744073709551616 < 18446744073709551616 := by
    rw [Int.bmod_def]
    omega
  exact hmod

/-- A lease of `2 ^ 63` milliseconds or more is compared as a lesser one. -/
theorem leaseWord_lt (h : UInt64.size ≤ 2 * lease) : leaseWord lease < lease := by
  have hword := two_mul_leaseWord_lt lease
  omega

/-- The longest lease in whole seconds that is compared as it is. -/
def longestLeaseSeconds : Nat := 9223372036854775

theorem two_mul_leaseMillis_lt_iff {c : CacheSettings} :
    2 * c.leaseMillis < UInt64.size ↔ c.leaseSeconds ≤ longestLeaseSeconds := by
  have hmillis : c.leaseMillis = max c.leaseSeconds 5 * 1000 := rfl
  have hsize : UInt64.size = 18446744073709551616 := rfl
  rw [hmillis, hsize, longestLeaseSeconds]
  omega

namespace Table

variable {t : Table} {k : Key} {r : Row} {o asking : Owner} {beat now : Int}

/-! ## Claims on the row of another owner -/

theorem claim_of_other (hr : t.get? k = some r) (hstatus : r.status = .inProgress)
    (howner : r.owner = some o) (hother : o ≠ asking) (hbeat : r.heartbeat = some beat) :
    t.claim k asking now lease =
      if now - beat < leaseWord lease then (.busy, t) else (.owned true, t.start k asking now) := by
  have hreclaimed : (r.owner != some asking) = true := by
    rw [howner, bne_iff_ne]
    exact fun h => hother (Option.some.inj h)
  have hheld : r.isHeld asking now lease = decide (now - beat < leaseWord lease) := by
    rw [Row.isHeld, hreclaimed, hbeat, Bool.true_and, Option.getD_some]
  simp only [claim, hr, hstatus, hheld, hreclaimed, decide_eq_true_eq]

/-- A row of another owner keeps a claim out as long as its last sign of life is younger than the lease. -/
theorem busy_iff_of_other (hr : t.get? k = some r) (hstatus : r.status = .inProgress)
    (howner : r.owner = some o) (hother : o ≠ asking) (hbeat : r.heartbeat = some beat) :
    t.claim k asking now lease = (.busy, t) ↔ now - beat < leaseWord lease := by
  rw [claim_of_other hr hstatus howner hother hbeat]
  split
  next hfresh => exact iff_of_true rfl hfresh
  next hstale => exact iff_of_false nofun hstale

/-- Someone else is told that a row in progress is busy, and the table stays as it is, exactly while the
sign of life is younger than the lease, if the lease has at most `longestLeaseSeconds`. If it has more,
there is an age below the lease at which the row is given away. -/
theorem lease_kept_iff (c : CacheSettings) (hr : t.get? k = some r) (hstatus : r.status = .inProgress)
    (howner : r.owner = some o) (hother : o ≠ asking) (hbeat : r.heartbeat = some beat) :
    (∀ now, t.claim k asking now c.leaseMillis =
      if now - beat < leaseWord c.leaseMillis then (.busy, t)
      else (.owned true, t.start k asking now)) ∧
    (∀ now, t.claim k asking now c.leaseMillis = (.busy, t) → now - beat < c.leaseMillis) ∧
    ((∀ now, t.claim k asking now c.leaseMillis = (.busy, t) ↔ now - beat < c.leaseMillis) ↔
      c.leaseSeconds ≤ longestLeaseSeconds) ∧
    (longestLeaseSeconds < c.leaseSeconds → ∃ now, beat ≤ now ∧ now - beat < c.leaseMillis ∧
      t.claim k asking now c.leaseMillis = (.owned true, t.start k asking now)) := by
  have hclaim (now : Int) : t.claim k asking now c.leaseMillis = _ :=
    claim_of_other hr hstatus howner hother hbeat
  have hbusy (now : Int) : t.claim k asking now c.leaseMillis = (.busy, t) ↔ _ :=
    busy_iff_of_other hr hstatus howner hother hbeat
  have hgiven : longestLeaseSeconds < c.leaseSeconds → ∃ now, beat ≤ now ∧ now - beat < c.leaseMillis ∧
      t.claim k asking now c.leaseMillis = (.owned true, t.start k asking now) := by
    intro hlong
    have hsize : UInt64.size ≤ 2 * c.leaseMillis :=
      Nat.le_of_not_lt fun h => Nat.not_le_of_lt hlong (two_mul_leaseMillis_lt_iff.1 h)
    have hword := leaseWord_lt hsize
    have hpos : 0 < UInt64.size := by decide
    -- The least age that the word does not cover; for a negative word the owner has just begun.
    refine ⟨beat + max 0 (leaseWord c.leaseMillis), by omega, by omega, ?_⟩
    rw [hclaim, if_neg (by omega)]
  refine ⟨hclaim, fun now h => ?_, ⟨fun hkept => ?_, fun hshort now => ?_⟩, hgiven⟩
  · exact Int.lt_of_lt_of_le ((hbusy now).1 h) (leaseWord_le c.leaseMillis)
  · refine Nat.le_of_not_lt fun hlong => ?_
    obtain ⟨now, _, hage, howned⟩ := hgiven hlong
    rw [(hkept now).2 hage] at howned
    cases howned
  · rw [hbusy, leaseWord_eq (two_mul_leaseMillis_lt_iff.2 hshort)]

/-- A lease of a minute on a row that someone else has started. -/
theorem lease_kept_minute :
    let k : Key := ⟨.nativeGraph, ⟨"p", "1"⟩, "c"⟩
    let t := Table.start .empty k (.stranger "elsewhere") 0
    60 ≤ longestLeaseSeconds ∧
      ∀ now, t.claim k (.manager 0) now (CacheSettings.leaseMillis ⟨"", 60, 1⟩) = (.busy, t) ↔
        now - 0 < (CacheSettings.leaseMillis ⟨"", 60, 1⟩) := by
  intro k t
  have hr : t.get? k = some (.started none (.stranger "elsewhere") 0) := SortedMap.get?_insert_self
  have hother : Owner.stranger "elsewhere" ≠ .manager 0 := nofun
  exact ⟨by decide, (lease_kept_iff ⟨"", 60, 1⟩ hr rfl rfl hother rfl).2.2.1.2 (by decide)⟩

/-- With one second more than the longest lease, a row is given away in the millisecond in which its owner
starts. -/
theorem lease_lost_at_once :
    let k : Key := ⟨.nativeGraph, ⟨"p", "1"⟩, "c"⟩
    let t := Table.start .empty k (.stranger "elsewhere") 0
    (0 : Int) - 0 < CacheSettings.leaseMillis ⟨"", 9223372036854776, 1⟩ ∧
      t.claim k (.manager 0) 0 (CacheSettings.leaseMillis ⟨"", 9223372036854776, 1⟩) =
        (.owned true, t.start k (.manager 0) 0) := by
  intro k t
  have hr : t.get? k = some (.started none (.stranger "elsewhere") 0) := SortedMap.get?_insert_self
  have hother : Owner.stranger "elsewhere" ≠ .manager 0 := nofun
  refine ⟨by decide, ?_⟩
  rw [claim_of_other hr rfl rfl hother rfl, if_neg (by decide)]

end Table
end Memo
end Bridgework
