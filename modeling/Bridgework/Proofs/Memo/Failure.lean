import Bridgework.Proofs.Memo.Call

/-!
# Calls whose computation gives no result

A call that finds no result and has no flight to join computes, whatever the row of its key says: a row
that someone else holds is waited for until its lease has expired. It starts the row, settles it with what
the computation gave, and lands. A computation that fails or is aborted therefore leaves a row that keeps
no one out and a key without a flight, and the next call computes again.

- `Memo.Store.Led` : what a call that has computed leaves behind
- `Memo.Store.led_getOrCompute` : a call that finds no result computes
- `Memo.Store.Reopened` : a key that is free again, with nothing else touched
- `Memo.Store.reopened_of_failure` : a call without a result leaves its key free
-/

namespace Bridgework
namespace Memo

/-! ## Claims without a result -/

namespace Table

variable {t u : Table} {k : Key} {o : Owner} {now : Int} {lease : Nat}

/-- A claim is given only a result that is there. -/
theorem lookup?_eq_some_of_claim {p : String} (h : t.claim k o now lease = (.complete p, u)) :
    t.lookup? k = some p := by
  unfold claim at h
  split at h
  next => cases h
  next r hr =>
    split at h
    next hstatus hpayload =>
      cases h
      exact lookup?_eq_some hr hstatus hpayload
    next =>
      split at h
      next => cases h
      next => cases h
    next => cases h

/-- Where there is no result, a claim is refused or starts the row. -/
theorem claim_of_miss (hmiss : t.lookup? k = none) (o : Owner) (now : Int) (lease : Nat) :
    t.claim k o now lease = (.busy, t) ∨ ∃ b, t.claim k o now lease = (.owned b, t.start k o now) := by
  cases hclaim : t.claim k o now lease with
  | mk x u =>
    rcases claim_cases hclaim with ⟨⟨b, rfl⟩, rfl⟩ | ⟨hx, rfl⟩
    · exact .inr ⟨b, rfl⟩
    · cases x with
      | busy => exact .inl rfl
      | owned b => exact absurd rfl (hx b)
      | complete p =>
        rw [lookup?_eq_some_of_claim hclaim] at hmiss
        cases hmiss

/-- A row whose owner has ended without a result is failed, empty and no one's. -/
theorem get?_settle_start_of_payload?_eq_none {c : Computed} (hfails : c.payload? = none) :
    ∃ r, ((t.start k o now).settle k o c).get? k = some r ∧
      r.status = .failed ∧ r.payload = none ∧ r.owner = none := by
  refine ⟨_, get?_settle_start_self, ?_⟩
  cases c with
  | payload text => cases hfails
  | failed e => exact ⟨rfl, rfl, rfl⟩
  | aborted => exact ⟨rfl, rfl, rfl⟩

end Table

namespace Store

variable {σ : Type} {s s' : Store} {m n : Nat} {k j : Key}

/-- A claim on a key without a result is granted in the end: time passes until the lease has expired. -/
theorem claim_of_miss (hmiss : s.table.lookup? k = none) :
    ∃ b now, s.claim m k = (.owned b, { s with table := s.table.start k (.manager m) now, now }) := by
  unfold claim
  rcases Table.claim_of_miss hmiss (.manager m) s.now (s.leaseOf m) with hbusy | ⟨b, hgranted⟩
  · -- The second claim is made when the lease has just expired, so that it cannot be refused.
    let expiry := ((s.table.get? k).bind (·.heartbeat)).getD 0 + leaseWord (s.leaseOf m)
    have hstale : ∀ r, s.table.get? k = some r →
        leaseWord (s.leaseOf m) ≤ expiry - r.heartbeat.getD 0 := by
      intro r hr
      simp only [expiry, hr, Option.bind_some]
      omega
    rcases Table.claim_of_miss hmiss (.manager m) expiry (s.leaseOf m) with hagain | ⟨b, hgranted⟩
    · exact absurd hagain (Table.claim_ne_busy hstale)
    · refine ⟨b, expiry, ?_⟩
      simp only [hbusy]
      rw [hgranted]
  · refine ⟨b, s.now, ?_⟩
    simp only [hgranted]

/-! ## Flights -/

/-- A flight is the concern of its own manager and key. -/
theorem inFlight_changeManager {f : Manager → Manager}
    (hf : n = m → ∀ x, (f x).flights.contains j = x.flights.contains j) :
    (s.changeManager m f).inFlight n j = s.inFlight n j := by
  by_cases hn : n = m
  · subst hn
    unfold inFlight
    rw [getElem?_changeManager]
    cases s.managers[n]? with
    | none => rfl
    | some x => exact hf rfl x
  · have hother : (s.changeManager m f).managers[n]? = s.managers[n]? :=
      List.getElem?_modify_ne f s.managers (Ne.symm hn)
    unfold inFlight
    rw [hother]

@[simp]
theorem inFlight_count {f : Stats → Stats} : (s.count m f).inFlight n j = s.inFlight n j :=
  inFlight_changeManager fun _ _ => rfl

theorem inFlight_depart_of_ne (h : n ≠ m ∨ j ≠ k) : (s.depart m k).inFlight n j = s.inFlight n j := by
  apply inFlight_changeManager
  intro hn x
  have hj : j ≠ k := h.resolve_left (not_not_intro hn)
  simp [hj]

theorem inFlight_land_of_ne (h : n ≠ m ∨ j ≠ k) : (s.land m k).inFlight n j = s.inFlight n j := by
  apply inFlight_changeManager
  intro hn x
  have hj : j ≠ k := h.resolve_left (not_not_intro hn)
  simp [hj]

theorem inFlight_land_self : (s.land m k).inFlight m k = false := by
  unfold inFlight land
  rw [getElem?_changeManager]
  cases s.managers[m]? with
  | none => rfl
  | some x => simp

/-! ## Calls that compute -/

/-- What a call that has computed leaves behind: it has started the row of its key and settled it, its
flight has landed, and no other flight is touched. -/
structure Led (s : Store) (m : Nat) (k : Key) (c : Computed) (s' : Store) : Prop where
  table : ∃ now, s'.table = (s.table.start k (.manager m) now).settle k (.manager m) c
  landed : s'.inFlight m k = false
  flights : ∀ n j, n ≠ m ∨ j ≠ k → s'.inFlight n j = s.inFlight n j

/-- A call without a result, and without a flight that it could join, leads one. -/
theorem begin_eq_leading_of_miss (hmiss : s.table.lookup? k = none) (hfree : s.inFlight m k = false) :
    ∃ s₁ now, s.begin m k = (.leading, s₁) ∧ s₁.table = s.table.start k (.manager m) now ∧
      ∀ n j, s₁.inFlight n j = (s.depart m k).inFlight n j := by
  have hmiss' : (s.depart m k).table.lookup? k = none := hmiss
  obtain ⟨b, now, hclaim⟩ := claim_of_miss (m := m) hmiss'
  unfold begin
  rw [hmiss, hfree, hclaim]
  cases b with
  | false => exact ⟨_, now, rfl, rfl, fun _ _ => rfl⟩
  | true =>
    refine ⟨_, now, rfl, rfl, ?_⟩
    intro n j
    rw [if_pos rfl, inFlight_count]
    rfl

/-- A call that finds no result and has no flight to join computes. -/
theorem led_getOrCompute (hmiss : s.table.lookup? k = none) (hfree : s.inFlight m k = false)
    (compute : σ → Computed × σ) (w : σ) :
    ∃ s', s.getOrCompute m k compute w = (some ((compute w).1.outcome k), s', (compute w).2) ∧
      Led s m k (compute w).1 s' := by
  obtain ⟨s₁, now, hbegin, htable, hflights⟩ := begin_eq_leading_of_miss hmiss hfree
  refine ⟨(s₁.settle m k (compute w).1).2, ?_, ?_, inFlight_land_self, ?_⟩
  · simp only [getOrCompute, hbegin]
    rfl
  · exact ⟨now, congrArg (·.settle k (.manager m) (compute w).1) htable⟩
  · intro n j hne
    calc (s₁.settle m k (compute w).1).2.inFlight n j
        = s₁.inFlight n j := (inFlight_land_of_ne hne).trans inFlight_count
      _ = (s.depart m k).inFlight n j := hflights n j
      _ = s.inFlight n j := inFlight_depart_of_ne hne

namespace Led

variable {c : Computed}

theorem get?_of_ne (h : Led s m k c s') (hj : j ≠ k) : s'.table.get? j = s.table.get? j := by
  obtain ⟨now, htable⟩ := h.table
  rw [htable]
  exact Table.get?_settle_start_of_ne hj

/-- The table has what is kept of the computation. -/
theorem lookup?_eq (h : Led s m k c s') : s'.table.lookup? k = c.payload? := by
  obtain ⟨now, htable⟩ := h.table
  rw [htable]
  exact Table.lookup?_settle_start_self

/-- A computation that gives no result leaves a failed row without an owner. -/
theorem row_of_failure (h : Led s m k c s') (hfails : c.payload? = none) :
    ∃ r, s'.table.get? k = some r ∧ r.status = .failed ∧ r.payload = none ∧ r.owner = none := by
  obtain ⟨now, htable⟩ := h.table
  rw [htable]
  exact Table.get?_settle_start_of_payload?_eq_none hfails

end Led

/-! ## Calls without a result -/

/-- The key is free again, and nothing else is touched: its row is failed, empty and no one's, no call
for it is under way, and a call for it, made at any time and by any manager that has none under way,
computes, and stores and gives what it computes. -/
structure Reopened (s : Store) (m : Nat) (k : Key) (s' : Store) : Prop where
  row : ∃ r, s'.table.get? k = some r ∧ r.status = .failed ∧ r.payload = none ∧ r.owner = none
  landed : s'.inFlight m k = false
  others : ∀ j, j ≠ k → s'.table.get? j = s.table.get? j
  flights : ∀ n j, n ≠ m ∨ j ≠ k → s'.inFlight n j = s.inFlight n j
  retry : ∀ {τ : Type} (now : Int) (n : Nat) (compute : τ → Computed × τ) (v : τ),
    s'.inFlight n k = false →
      ∃ s'', { s' with now }.getOrCompute n k compute v =
          (some ((compute v).1.outcome k), s'', (compute v).2) ∧
        ∀ text, (compute v).1 = .payload text →
          (compute v).1.outcome k = .payload text ∧ s''.table.lookup? k = some text

/-- After a computation without a result the key is free again. -/
theorem Led.reopened {c : Computed} (h : Led s m k c s') (hfails : c.payload? = none) :
    Reopened s m k s' where
  row := h.row_of_failure hfails
  landed := h.landed
  others _ hj := h.get?_of_ne hj
  flights := h.flights
  retry := by
    intro τ now n compute v hfree
    -- What is kept of a computation without a result is nothing, so that the next call misses too.
    have hmiss : { s' with now }.table.lookup? k = none := h.lookup?_eq.trans hfails
    obtain ⟨s'', hcall, hled⟩ := led_getOrCompute hmiss hfree compute v
    refine ⟨s'', hcall, ?_⟩
    intro text htext
    refine ⟨by rw [htext]; rfl, ?_⟩
    calc s''.table.lookup? k
        = (compute v).1.payload? := hled.lookup?_eq
      _ = some text := by rw [htext]; rfl

/-- A call that finds no result for its key, and whose computation fails or is aborted. While another call
of the same manager is under way for the key, it waits for that one and does not compute. Otherwise it
computes, tells its caller why there is no result, and leaves the key free. -/
theorem reopened_of_failure (s : Store) (m : Nat) (k : Key) (compute : σ → Computed × σ) (w : σ)
    (hmiss : s.table.lookup? k = none)
    (hfails : (∃ e, (compute w).1 = .failed e) ∨ (compute w).1 = .aborted) :
    (s.inFlight m k = true → s.getOrCompute m k compute w = (none, s.join m, w)) ∧
    (s.inFlight m k = false →
      ∃ outcome s', s.getOrCompute m k compute w = (some outcome, s', (compute w).2) ∧
        (∀ e, (compute w).1 = .failed e →
          outcome = .failed (.computationFailed k.display e.message)) ∧
        ((compute w).1 = .aborted → outcome = .aborted) ∧
        Reopened s m k s') := by
  have hnone : (compute w).1.payload? = none := by
    rcases hfails with ⟨e, he⟩ | habort
    · rw [he]; rfl
    · rw [habort]; rfl
  constructor
  -- Somebody else in the same manager is at it: the caller waits.
  · intro hflight
    simp [getOrCompute, begin, hmiss, hflight]
  -- The call leads, runs the computation, and clears what it had put up.
  · intro hfree
    obtain ⟨s', hcall, hled⟩ := led_getOrCompute hmiss hfree compute w
    refine ⟨_, s', hcall, ?_, ?_, hled.reopened hnone⟩
    · intro e he
      rw [he]; rfl
    · intro habort
      rw [habort]; rfl

/-- A manager finds the row of a stranger whose lease has expired. -/
def abandoned (k : Key) : Store where
  table := SortedMap.empty.insert k (.started none (.stranger "elsewhere") 0)
  managers := [⟨1000, [], .zero⟩]
  now := 1400

/-- A computation that is aborted the first time and gives a result from then on. -/
def secondTry : Nat → Computed × Nat
  | 0 => (.aborted, 1)
  | n + 1 => (.payload "done", n + 2)

/-- The row of a stranger is taken over, the computation is aborted, and the next call computes. -/
theorem reopened_of_failure_abandoned :
    let k : Key := ⟨.nativeGraph, ⟨"numpy", "2.0"⟩, "analysis"⟩
    (abandoned k).table.lookup? k = none ∧ (secondTry 0).1 = .aborted ∧
      (abandoned k).inFlight 0 k = false ∧
      ∃ s', (abandoned k).getOrCompute 0 k secondTry 0 = (some .aborted, s', 1) ∧
        Reopened (abandoned k) 0 k s' ∧
        ∃ s'', { s' with now := 2000 }.getOrCompute 0 k secondTry 1 =
            (some (.payload "done"), s'', 2) ∧
          s''.table.lookup? k = some "done" := by
  intro k
  have hmiss : (abandoned k).table.lookup? k = none := by decide +kernel
  have hfree : (abandoned k).inFlight 0 k = false := rfl
  obtain ⟨outcome, s', hcall, _, habort, hopen⟩ :=
    (reopened_of_failure (abandoned k) 0 k secondTry 0 hmiss (.inr rfl)).2 hfree
  obtain rfl : outcome = .aborted := habort rfl
  obtain ⟨s'', hagain, hkept⟩ := hopen.retry 2000 0 secondTry 1 hopen.landed
  exact ⟨hmiss, rfl, hfree, s', hcall, hopen, s'', hagain, (hkept "done" rfl).2⟩

end Store
end Memo
end Bridgework
