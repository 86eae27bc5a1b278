import Bridgework.Proofs.Memo.Row

/-!
# Results that stay, and claims that are lost

Leases may expire at any time, and an owner whose row was taken over goes on computing. Still a result that
is in the table stays there until its row is removed, and everyone who asks or claims meanwhile gets it; and
whatever a caller does after its row was taken over leaves the table alone.

- `Memo.Scene.SparingRun` : runs in which the row of a key is not removed
- `Memo.Scene.Claimed` : an owner that computes has its row in progress
- `Memo.Scene.Holds.of_sparingRun` : a result stays
- `Memo.Scene.TakesOver`, `Memo.Scene.Lost` : how a caller loses its row, and that it has lost it
- `Memo.Scene.result_stays_and_lost_claims_idle` : both together
-/

namespace Bridgework
namespace Memo
namespace Scene

/-- What a run can lead to in which nobody removes the row of the key. -/
inductive SparingRun (lease : Nat → Nat) (k : Key) (s : Scene) : Scene → Prop where
  | refl : SparingRun lease k s s
  | step {t u : Scene} {a : Action} (r : SparingRun lease k s t) (h : t.act? lease a = some u)
      (hspare : a ≠ .invalidate k) : SparingRun lease k s u

variable {lease : Nat → Nat} {s t u : Scene} {a : Action} {k : Key} {n : Nat} {c : Caller}

theorem SparingRun.reachable (h : s.SparingRun lease k t) : s.Reachable lease t := by
  induction h with
  | refl => exact .refl
  | step _ h _ ih => exact .step ih h

/-! ## Results stay -/

/-- Whoever computes and is the owner of the row of its key has it in progress. -/
def Claimed (s : Scene) : Prop :=
  ∀ n c r, s.callers n = some c → c.phase = .computing → s.table.get? c.key = some r →
    r.owner = some (.manager c.manager) → r.status = .inProgress

theorem Claimed.opened (table : Table) (now : Int) : (Scene.opened table now).Claimed := by
  intro n c r hn
  cases hn

/-- Whoever claims a row has it in progress, and nobody settles it for another owner. -/
theorem Claimed.step (hs : s.Claimed) (h : Step lease s a t) : t.Claimed := by
  intro j d r hj hphase hr howner
  by_cases hold : s.callers j = some d
  · -- It computed before, so its row was in progress if it was its own.
    have hturn : RowTurn s d.key a (s.table.get? d.key) (t.table.get? d.key) := h.rowTurn d.key
    rw [hr] at hturn
    generalize hrow : s.table.get? d.key = row at hturn
    cases hturn with
    | keep => exact hs j d r hold hphase hrow howner
    | start _ _ _ _ => rfl
    | beat _ _ _ _ hstatus => exact hstatus
    | settle _ _ _ _ result =>
      rw [Row.owner_settled] at howner
      cases howner
  · rcases h.heldBy_of_begins hj hphase hold with ⟨r', hr', hstatus, _⟩
    obtain rfl : r = r' := Option.some.inj (hr.symm.trans hr')
    exact hstatus

/-- In every run, owners that compute have their rows in progress. -/
theorem Claimed.of_reachable (hs : s.Claimed) (h : s.Reachable lease t) : t.Claimed := by
  induction h with
  | refl => exact hs
  | step _ h ih => exact ih.step (act?_eq_some_iff.1 h)

/-- The row of the key is complete with the payload. -/
structure Holds (s : Scene) (k : Key) (r : Row) (p : String) : Prop where
  row : s.table.get? k = some r
  status : r.status = .complete
  payload : r.payload = some p

theorem Holds.lookup? {r : Row} {p : String} (h : s.Holds k r p) : s.table.lookup? k = some p :=
  Table.lookup?_eq_some h.row h.status h.payload

/-- A complete row stays as it is unless it is removed. -/
theorem Holds.step {r : Row} {p : String} (h : s.Holds k r p) (hs : s.Claimed)
    (hstep : Step lease s a t) (hspare : a ≠ .invalidate k) : t.Holds k r p := by
  refine ⟨?_, h.status, h.payload⟩
  have hturn : RowTurn s k a (s.table.get? k) (t.table.get? k) := hstep.rowTurn k
  -- A row that is complete is not in progress, so no caller that computes is its owner.
  have hfree : ∀ {n : Nat} {c : Caller}, s.callers n = some c → c.phase = .computing → c.key = k →
      r.owner ≠ some (.manager c.manager) := by
    intro n c hn hphase hkey howner
    have hprogress : r.status = .inProgress := hs n c r hn hphase (hkey ▸ h.row) howner
    rw [h.status] at hprogress
    cases hprogress
  rw [h.row] at hturn
  generalize t.table.get? k = row at hturn
  cases hturn with
  | keep => rfl
  | start _ _ _ hmiss =>
    rw [h.lookup?] at hmiss
    cases hmiss
  | beat hn hphase hkey howner _ => exact absurd howner (hfree hn hphase hkey)
  | settle hn hphase hkey howner _ => exact absurd howner (hfree hn hphase hkey)
  | remove _ => exact absurd rfl hspare

/-- A result that is kept stays in a run that does not remove it. -/
theorem Holds.of_sparingRun {r : Row} {p : String} (h : s.Holds k r p) (hs : s.Claimed)
    (hrun : s.SparingRun lease k t) : t.Holds k r p := by
  induction hrun with
  | refl => exact h
  | step hrun hact hspare ih =>
    exact ih.step (hs.of_reachable hrun.reachable) (act?_eq_some_iff.1 hact) hspare

/-! ## Who asks or claims meanwhile -/

/-- A call that has returned does not change any more. -/
theorem Reachable.callers_of_isOver (h : s.Reachable lease t) (hn : s.callers n = some c)
    (hover : c.phase.isOver = true) : t.callers n = some c := by
  induction h with
  | refl => exact hn
  | step _ h ih => exact (act?_eq_some_iff.1 h).callers_of_isOver ih hover

/-- Who has an outcome keeps it until it has returned it, and keeps what it has returned. -/
theorem Reachable.callers_of_settled {o : Outcome} (h : s.Reachable lease t)
    (hn : s.callers n = some c) (hphase : c.phase = .settled o) :
    t.callers n = some c ∨ t.callers n = some { c with phase := .landed o } := by
  induction h with
  | refl => exact .inl hn
  | step _ h ih =>
    have hstep := act?_eq_some_iff.1 h
    rcases ih with ih | ih
    · exact hstep.callers_of_settled ih hphase
    · exact .inr (hstep.callers_of_isOver ih rfl)

/-- A call that began after the result was there has not looked yet, or has the result. -/
theorem SparingRun.callers_of_new {r : Row} {p : String} (hrun : s.SparingRun lease k t)
    (h : s.Holds k r p) (hs : s.Claimed) (hnew : s.callers n = none) (hn : t.callers n = some c)
    (hkey : c.key = k) : c.phase = .asking ∨ c.phase = .answered (.ok p) := by
  induction hrun generalizing c with
  | refl =>
    rw [hnew] at hn
    cases hn
  | @step t u a hrun hact _ ih =>
    have hstep := act?_eq_some_iff.1 hact
    have hlookup : t.table.lookup? c.key = some p := hkey ▸ (h.of_sparingRun hs hrun).lookup?
    -- The caller is new, or did not move, or made a move of its own.
    rcases hstep.origin hn with hasking | hold | ⟨d, hd, _, hc⟩
    · exact .inl hasking
    · exact ih hold hkey
    · have hdkey : d.key = c.key := by rw [hc]
      rcases ih hd (hdkey.trans hkey) with hasking | hanswered
      -- It asked and found the result, which is there all the time.
      · rcases hstep.callers_of_asking hd hasking (hdkey ▸ hlookup) with hu | hu
        · obtain rfl := Option.some.inj (hn.symm.trans hu)
          exact .inl hasking
        · obtain rfl := Option.some.inj (hn.symm.trans hu)
          exact .inr rfl
      · have hu := hstep.callers_of_isOver hd (by rw [hanswered]; rfl)
        obtain rfl := Option.some.inj (hn.symm.trans hu)
        exact .inr hanswered

/-- Who looks while the result is there returns it. -/
theorem exists_lookUp {p : String} (hp : s.table.lookup? c.key = some p) (hn : s.callers n = some c)
    (hphase : c.phase = .asking) :
    ∃ t, s.act? lease (.lookUp n) = some t ∧
      ∀ u, t.Reachable lease u → u.callers n = some { c with phase := .answered (.ok p) } := by
  refine ⟨s.move n c (.answered (.ok p)), act?_eq_some_iff.2 (.hit hn hphase hp), ?_⟩
  intro u hu
  exact hu.callers_of_isOver callers_move_self rfl

/-- Who claims while the result is there does not compute: it has the result, which it can return at any
time, and returns nothing else. -/
theorem exists_claim {p : String} (hp : s.table.lookup? c.key = some p) (hn : s.callers n = some c)
    (hphase : c.phase = .claiming) :
    ∃ t, s.act? lease (.claim n) = some t ∧ t.table = s.table ∧
      ∀ u, t.Reachable lease u → u.callers n = some { c with phase := .landed (.payload p) } ∨
        u.callers n = some { c with phase := .settled (.payload p) } ∧
          ∃ v, u.act? lease (.publish n) = some v ∧
            v.callers n = some { c with phase := .landed (.payload p) } := by
  have hclaim : s.table.claim c.key (.manager c.manager) s.now (lease c.manager) = (.complete p, s.table) :=
    Table.claim_eq_complete hp
  refine ⟨_, act?_eq_some_iff.2 (.adopt hn hphase hclaim), rfl, ?_⟩
  intro u hu
  rcases hu.callers_of_settled callers_move_self rfl with hsettled | hlanded
  · exact .inr ⟨hsettled, _, act?_eq_some_iff.2 (.publish hsettled rfl), callers_move_self⟩
  · exact .inl hlanded

/-! ## Lost claims -/

/-- The caller computes, and a caller of another manager is granted a claim on the same key. -/
structure TakesOver (lease : Nat → Nat) (s : Scene) (j n : Nat) (c : Caller) (t : Scene) : Prop where
  victim : s.callers n = some c
  computing : c.phase = .computing
  granted : s.act? lease (.claim j) = some t
  owner : ∃ d, t.callers j = some d ∧ d.phase = .computing ∧ d.key = c.key ∧ d.manager ≠ c.manager

/-- The caller computes, but the row of its key is not its own. -/
structure Lost (s : Scene) (n : Nat) (c : Caller) : Prop where
  caller : s.callers n = some c
  computing : c.phase = .computing
  row : ∀ r, s.table.get? c.key = some r → r.owner ≠ some (.manager c.manager)

/-- The caller has ended computing. -/
def IsDone (s : Scene) (n : Nat) : Prop :=
  ∃ c o, s.callers n = some c ∧ (c.phase = .settled o ∨ c.phase = .landed o)

/-- Whoever has ended computing does not compute again. -/
theorem IsDone.step (h : s.IsDone n) (hstep : Step lease s a t) : t.IsDone n := by
  rcases h with ⟨c, o, hn, hphase | hphase⟩
  · rcases hstep.callers_of_settled hn hphase with ht | ht
    · exact ⟨c, o, ht, .inl hphase⟩
    · exact ⟨_, o, ht, .inr rfl⟩
  · exact ⟨c, o, hstep.callers_of_isOver hn (by rw [hphase]; rfl), .inr hphase⟩

/-- After a takeover the row belongs to someone else. -/
theorem TakesOver.lost {j : Nat} (h : s.TakesOver lease j n c t) : t.Lost n c := by
  rcases h.owner with ⟨d, hj, hphase, hkey, hmanager⟩
  have hstep := act?_eq_some_iff.1 h.granted
  have hnew : s.callers j ≠ some d := by
    intro hold
    have hnone : s.act? lease (.claim j) = none := by simp [act?, actor?, hold, hphase, actIn?]
    rw [h.granted] at hnone
    cases hnone
  have hjn : n ≠ j := by
    rintro rfl
    rcases hstep.callers_of_some h.victim with ht | ⟨p, _, ht⟩
    · obtain rfl := Option.some.inj (hj.symm.trans ht)
      exact hmanager rfl
    · obtain rfl := Option.some.inj (hj.symm.trans ht)
      exact hmanager rfl
  have hheld : t.table.HeldBy c.key (.manager d.manager) := hkey ▸ hstep.heldBy_of_begins hj hphase hnew
  refine ⟨?_, h.computing, ?_⟩
  · -- Only the caller that claims goes on with this step.
    cases hstep with
    | adopt _ _ _ => exact (callers_move_of_ne hjn).trans h.victim
    | own _ _ _ => exact (callers_move_of_ne hjn).trans h.victim
    | busy _ _ _ => exact h.victim
  · intro r hr howner
    rcases hheld with ⟨r', hr', _, howner'⟩
    obtain rfl : r = r' := Option.some.inj (hr.symm.trans hr')
    exact hmanager (Owner.manager.inj (Option.some.inj (howner'.symm.trans howner)))

/-- No caller of the same manager can claim the key again before the caller is done, since it leads their
flight; so the row stays with others. -/
theorem Lost.step (h : s.Lost n c) (hs : s.Orderly) (hstep : Step lease s a t) :
    t.Lost n c ∨ t.IsDone n := by
  rcases hstep.callers_of_some h.caller with ht | ⟨p, hturn, ht⟩
  -- The caller itself does not move. Whatever happens to the row, it does not come back to this
  -- caller.
  · refine .inl ⟨ht, h.computing, ?_⟩
    intro r hr
    have hturn : RowTurn s c.key a (s.table.get? c.key) (t.table.get? c.key) := hstep.rowTurn c.key
    rw [hr] at hturn
    generalize hrow : s.table.get? c.key = row at hturn
    cases hturn with
    | keep => exact h.row r hrow
    -- A new owner of the same manager would be a second leader of the flight.
    | @start m d hm hclaiming hkey _ =>
      intro howner
      have hmanager : d.manager = c.manager := Owner.manager.inj (Option.some.inj howner)
      have hlead : s.Leads m c.manager c.key := (leads_iff hm).2 ⟨hmanager, hkey, by rw [hclaiming]; rfl⟩
      have hlead' : s.Leads n c.manager c.key :=
        (leads_iff h.caller).2 ⟨rfl, rfl, by rw [h.computing]; rfl⟩
      obtain rfl : m = n := hs.leader_unique hlead hlead'
      obtain rfl : d = c := Option.some.inj (hm.symm.trans h.caller)
      rw [h.computing] at hclaiming
      cases hclaiming
    | @beat _ _ r' _ _ _ _ _ => exact h.row r' hrow
    | settle _ _ _ _ result =>
      rw [Row.owner_settled]
      nofun
  -- The caller moves: all that it can do is to settle.
  · rw [h.computing] at hturn
    cases hturn with
    | settle result => exact .inr ⟨_, _, ht, .inl rfl⟩

/-- Whoever has lost its row does not get it back before it has ended. -/
theorem Lost.of_reachable (h : s.Lost n c) (hs : s.Orderly) (hrun : s.Reachable lease t) :
    t.Lost n c ∨ t.IsDone n := by
  induction hrun with
  | refl => exact .inl h
  | step hrun hact ih =>
    have hstep := act?_eq_some_iff.1 hact
    rcases ih with hlost | hdone
    · exact hlost.step (hs.of_reachable hrun) hstep
    · exact .inr (hdone.step hstep)

/-- Signs of life and the end of computing. -/
def IsOwnersAction (n : Nat) (a : Action) : Prop := a = .beat n ∨ ∃ result, a = .settle n result

/-- Signs of life and the end of computing come from callers that compute. -/
theorem IsOwnersAction.computing (ha : IsOwnersAction n a) (h : Step lease s a t) :
    ∃ c, s.callers n = some c ∧ c.phase = .computing := by
  rcases ha with rfl | ⟨result, rfl⟩
  · cases h with
    | beat hn hphase => exact ⟨_, hn, hphase⟩
  · cases h with
    | settle hn hphase => exact ⟨_, hn, hphase⟩

/-- Who has lost its row changes nothing. -/
theorem Lost.table_eq (h : s.Lost n c) (ha : IsOwnersAction n a) (hstep : Step lease s a t) :
    t.table = s.table := by
  rcases ha with rfl | ⟨result, rfl⟩
  · cases hstep with
    | @beat _ d hn _ =>
      obtain rfl : d = c := Option.some.inj (hn.symm.trans h.caller)
      exact Table.beat_of_not_owner h.row
  · cases hstep with
    | @settle _ d _ hn _ =>
      obtain rfl : d = c := Option.some.inj (hn.symm.trans h.caller)
      exact Table.settle_of_not_owner h.row

theorem IsDone.not_computing (h : s.IsDone n) (hn : s.callers n = some c) : c.phase ≠ .computing := by
  rcases h with ⟨d, o, hd, hphase⟩
  obtain rfl : c = d := Option.some.inj (hn.symm.trans hd)
  rcases hphase with hphase | hphase
  · rw [hphase]
    nofun
  · rw [hphase]
    nofun

/-! ## Main result -/

/-- Along any run: a result that is there stays as it is until its row is removed, every call that begins
meanwhile and every leader that claims meanwhile returns it and does not compute; and once a caller of
another manager has taken over the row of a caller that computes, that caller's signs of life and its end of
computing leave the table as it is, whatever has happened since. -/
theorem result_stays_and_lost_claims_idle (lease : Nat → Nat) (table : Table) (now : Int) (s : Scene)
    (hs : (opened table now).Reachable lease s) :
    (∀ k r p t, s.table.get? k = some r → r.status = .complete → r.payload = some p →
      s.SparingRun lease k t →
        t.table.get? k = some r ∧
        (∀ u, t.act? lease (.invalidate k) = some u → u.table.get? k = none) ∧
        (∀ n c, s.callers n = none → t.callers n = some c → c.key = k →
          c.phase = .asking ∨ c.phase = .answered (.ok p)) ∧
        (∀ n c, t.callers n = some c → c.key = k → c.phase = .asking →
          ∃ u, t.act? lease (.lookUp n) = some u ∧
            ∀ v, u.Reachable lease v → v.callers n = some { c with phase := .answered (.ok p) }) ∧
        (∀ n c, t.callers n = some c → c.key = k → c.phase = .claiming →
          ∃ u, t.act? lease (.claim n) = some u ∧ u.table = t.table ∧
            ∀ v, u.Reachable lease v → v.callers n = some { c with phase := .landed (.payload p) } ∨
              v.callers n = some { c with phase := .settled (.payload p) } ∧
                ∃ w, v.act? lease (.publish n) = some w ∧
                  w.callers n = some { c with phase := .landed (.payload p) })) ∧
    ∀ j n c t, s.TakesOver lease j n c t → ∀ u, t.Reachable lease u →
      ∀ a v, IsOwnersAction n a → u.act? lease a = some v → v.table = u.table := by
  -- Rows in progress belong to callers that claimed them.
  have hclaimed : s.Claimed := (Claimed.opened table now).of_reachable hs
  constructor
  -- A result stays: nothing but its removal touches the row, and who asks later gets it.
  · intro k r p t hr hstatus hp hrun
    have hholds : s.Holds k r p := ⟨hr, hstatus, hp⟩
    have hkept : t.Holds k r p := hholds.of_sparingRun hclaimed hrun
    refine ⟨hkept.row, ?_, ?_, ?_, ?_⟩
    · intro u hact
      obtain rfl := Option.some.inj hact
      have hover : r.status ≠ .inProgress := by
        rw [hstatus]
        nofun
      exact Table.get?_invalidate_self hkept.row hover
    · intro n c hnew hn hkey
      exact hrun.callers_of_new hholds hclaimed hnew hn hkey
    · intro n c hn hkey hphase
      exact exists_lookUp (hkey ▸ hkept.lookup?) hn hphase
    · intro n c hn hkey hphase
      exact exists_claim (hkey ▸ hkept.lookup?) hn hphase
  -- A claim that was taken over stays lost, so that the old owner writes nothing into the table.
  · intro j n c t htake u hrun a v ha hact
    have hstep := act?_eq_some_iff.1 hact
    have horderly : t.Orderly :=
      ((Orderly.opened table now).of_reachable hs).step htake.granted
    rcases htake.lost.of_reachable horderly hrun with hlost | hdone
    · exact hlost.table_eq ha hstep
    · rcases ha.computing hstep with ⟨d, hd, hphase⟩
      exact absurd hphase (hdone.not_computing hd)

theorem Reachable.tail (h : s.Reachable lease t) (hstep : Step lease t a u) : s.Reachable lease u :=
  .step h (act?_eq_some_iff.2 hstep)

/-- A caller of a manager without a flight for the key comes as far as claiming it. -/
theorem Reachable.lead {m : Nat} (h : s.Reachable lease t) (hn : t.callers n = none)
    (hmiss : t.table.lookup? k = none) (hflight : t.flights m k = none) :
    s.Reachable lease ((((t.move n ⟨m, k, .asking⟩ .asking).move n ⟨m, k, .asking⟩ .missed).setFlight m k
      (some n)).move n ⟨m, k, .missed⟩ .claiming) :=
  ((h.tail (.call hn)).tail (.miss callers_move_self rfl hmiss)).tail
    (.lead callers_move_self rfl hflight)

/-- The row of the first caller is taken over after its lease, and the new owner stores a result. The first
caller ends later with a result of its own, which changes nothing; who calls then gets the stored one. -/
theorem result_stays_and_lost_claims_idle_late :
    ∃ (k : Key) (r : Row) (s t u v w : Scene),
      (opened .empty 0).Reachable (fun _ => 10) s ∧
      s.TakesOver (fun _ => 10) 1 0 ⟨0, k, .computing⟩ t ∧
      t.act? (fun _ => 10) (.settle 1 (.payload "stored")) = some u ∧
      u.table.get? k = some r ∧ r.status = .complete ∧ r.payload = some "stored" ∧
      u.act? (fun _ => 10) (.settle 0 (.payload "late")) = some v ∧ v.table = u.table ∧
      v.act? (fun _ => 10) (.call 2 0 k) = some w ∧
      ∃ x, w.act? (fun _ => 10) (.lookUp 2) = some x ∧
        x.callers 2 = some ⟨0, k, .answered (.ok "stored")⟩ := by
  let k : Key := ⟨.nativeGraph, ⟨"numpy", "2.0"⟩, "analysis"⟩
  let row : Table := Table.start .empty k (.manager 0) 0
  let taken : Table := row.start k (.manager 1) 10
  have hrow : row.get? k = some (.started none (.manager 0) 0) := SortedMap.get?_insert_self
  have htaken : taken.get? k = some (.started (row.get? k) (.manager 1) 10) := SortedMap.get?_insert_self
  have hmiss : row.lookup? k = none := by
    unfold Table.lookup?
    rw [hrow]
    rfl
  have hclaim : row.claim k (.manager 1) 10 10 = (.owned true, taken) := by
    have hfree : Row.isHeld (.started none (.manager 0) 0) (.manager 1) 10 10 = false := by decide
    unfold Table.claim
    rw [hrow]
    show (if Row.isHeld (.started none (.manager 0) 0) (.manager 1) 10 10 then _ else _) = _
    rw [hfree]
    rfl
  -- The first caller computes until its lease has expired, and the second is of another manager.
  obtain ⟨s, hs, h0, h1, h2, htable, hnow⟩ : ∃ s : Scene, (opened .empty 0).Reachable (fun _ => 10) s ∧
      s.callers 0 = some ⟨0, k, .computing⟩ ∧ s.callers 1 = some ⟨1, k, .claiming⟩ ∧
      s.callers 2 = none ∧ s.table = row ∧ s.now = 10 := by
    have hfirst : (opened .empty 0).Reachable (fun _ => 10) _ :=
      Reachable.refl.lead (n := 0) (m := 0) (k := k) rfl rfl rfl
    have hexpired := (hfirst.tail (.own callers_move_self rfl rfl)).tail (.wait 10)
    exact ⟨_, hexpired.lead (n := 1) (m := 1) (k := k) rfl hmiss rfl, rfl, rfl, rfl, rfl, rfl⟩
  rw [← htable, ← hnow] at hclaim
  let t : Scene := (s.setTable taken).move 1 ⟨1, k, .claiming⟩ .computing
  let u : Scene := t.settle 1 ⟨1, k, .computing⟩ (.payload "stored")
  let v : Scene := u.settle 0 ⟨0, k, .computing⟩ (.payload "late")
  have hown : Step (fun _ => 10) s (.claim 1) t := .own h1 rfl hclaim
  have htake : s.TakesOver (fun _ => 10) 1 0 ⟨0, k, .computing⟩ t :=
    ⟨h0, rfl, act?_eq_some_iff.2 hown, _, callers_move_self, rfl, rfl, by decide⟩
  have hstore : Step (fun _ => 10) t (.settle 1 (.payload "stored")) u := .settle callers_move_self rfl
  have hstored : u.table.get? k = some (Row.settled _ (.payload "stored")) :=
    Table.get?_settle_self htaken rfl
  have hlate : u.act? (fun _ => 10) (.settle 0 (.payload "late")) = some v :=
    act?_eq_some_iff.2 (.settle h0 rfl)
  have hu : (opened .empty 0).Reachable (fun _ => 10) u := (hs.tail hown).tail hstore
  have hv : (opened .empty 0).Reachable (fun _ => 10) v := .step hu hlate
  have hsame : v.table = u.table :=
    (result_stays_and_lost_claims_idle _ _ _ s hs).2 1 0 _ t htake u (Reachable.refl.tail hstore) _ v
      (.inr ⟨_, rfl⟩) hlate
  -- The third caller comes when both are done.
  let w : Scene := v.move 2 ⟨0, k, .asking⟩ .asking
  have hcall : v.act? (fun _ => 10) (.call 2 0 k) = some w := act?_eq_some_iff.2 (.call h2)
  have hrun : v.SparingRun (fun _ => 10) k w := .step .refl hcall nofun
  have hmeanwhile := (result_stays_and_lost_claims_idle _ _ _ v hv).1 k _ "stored" w
    (hsame ▸ hstored) rfl rfl hrun
  obtain ⟨x, hlook, hanswer⟩ := hmeanwhile.2.2.2.1 2 ⟨0, k, .asking⟩ callers_move_self rfl rfl
  exact ⟨k, _, s, t, u, v, w, hs, htake, act?_eq_some_iff.2 hstore, hstored, rfl, rfl, hlate, hsame, hcall,
    x, hlook, hanswer x .refl⟩

end Scene
end Memo
end Bridgework
