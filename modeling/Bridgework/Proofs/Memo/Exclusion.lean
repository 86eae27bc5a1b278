import Bridgework.Proofs.Memo.Flight

/-!
# One computation at a time

Two layers keep computations of one key apart: flights among the callers of one manager, and the owner of
the row among managers. Along a run in which nobody tries to claim a key whose owner is computing and has
let the lease expire, they leave at most one caller computing, and every caller that waits can still be
given what its leader returns.

- `Memo.Scene.TimelyRun` : runs without claims on the row of a late owner
- `Memo.Scene.Guarded` : who computes holds the row
- `Memo.Scene.returns_of_serves` : who waits can return
- `Memo.Scene.exclusive_and_shared` : at most one computes, and those who wait get the leader's result
-/

namespace Bridgework
namespace Memo
namespace Scene

/-! ## Timely runs -/

/-- Some caller of the manager computes the key. -/
def Computes (s : Scene) (m : Nat) (k : Key) : Prop :=
  ∃ n c, s.callers n = some c ∧ c.manager = m ∧ c.key = k ∧ c.phase = .computing

/-- A claim is timely unless the row of its key belongs to a manager that is computing and whose last sign
of life is as old as the lease of the caller's manager. -/
def Timely (lease : Nat → Nat) (s : Scene) : Action → Prop
  | .claim n => ∀ c r m, s.callers n = some c → s.table.get? c.key = some r →
      r.owner = some (.manager m) → s.Computes m c.key → s.now - r.heartbeat.getD 0 < lease c.manager
  | _ => True

/-- What a run can lead to in which all claims are timely. -/
inductive TimelyRun (lease : Nat → Nat) (s : Scene) : Scene → Prop where
  | refl : TimelyRun lease s s
  | step {t u : Scene} {a : Action} (r : TimelyRun lease s t) (h : t.act? lease a = some u)
      (htimely : t.Timely lease a) : TimelyRun lease s u

variable {lease : Nat → Nat} {s t u : Scene} {a : Action}

/-- A run with timely claims is a run. -/
theorem TimelyRun.reachable (h : s.TimelyRun lease t) : s.Reachable lease t := by
  induction h with
  | refl => exact .refl
  | step _ h _ ih => exact .step ih h

/-! ## Owners -/

/-- Everyone who computes holds the row of the key for the manager. -/
def Guarded (s : Scene) : Prop :=
  ∀ n c, s.callers n = some c → c.phase = .computing → s.table.HeldBy c.key (.manager c.manager)

/-- Two callers that compute one key are of one manager, since the row has one owner, and then they lead
one flight. -/
theorem Guarded.unique (hg : s.Guarded) (hs : s.Orderly) {n n' : Nat} {c c' : Caller}
    (hn : s.callers n = some c) (hn' : s.callers n' = some c') (hphase : c.phase = .computing)
    (hphase' : c'.phase = .computing) (hkey : c.key = c'.key) : n = n' := by
  have hheld : s.table.HeldBy c.key (.manager c.manager) := hg n c hn hphase
  have hheld' : s.table.HeldBy c.key (.manager c'.manager) := hkey ▸ hg n' c' hn' hphase'
  have hmanager : c.manager = c'.manager := Owner.manager.inj (hheld.unique hheld')
  have hlead : s.Leads n c.manager c.key := (leads_iff hn).2 ⟨rfl, rfl, by rw [hphase]; rfl⟩
  have hlead' : s.Leads n' c.manager c.key :=
    (leads_iff hn').2 ⟨hmanager.symm, hkey.symm, by rw [hphase']; rfl⟩
  exact hs.leader_unique hlead hlead'

/-- While someone computes the key, a timely claim is turned away. -/
theorem Guarded.claim_eq_busy (hg : s.Guarded) (hs : s.Orderly) (hlease : ∀ m, 2 * lease m < UInt64.size)
    {n j : Nat} {c d : Caller} (hn : s.callers n = some c) (hclaiming : c.phase = .claiming)
    (htimely : s.Timely lease (.claim n)) (hj : s.callers j = some d) (hcomputing : d.phase = .computing)
    (hkey : d.key = c.key) :
    s.table.claim c.key (.manager c.manager) s.now (lease c.manager) = (.busy, s.table) := by
  have hheld : s.table.HeldBy c.key (.manager d.manager) := hkey ▸ hg j d hj hcomputing
  have hmanager : d.manager ≠ c.manager := by
    intro hm
    have hleadj : s.Leads j c.manager c.key := (leads_iff hj).2 ⟨hm, hkey, by rw [hcomputing]; rfl⟩
    have hleadn : s.Leads n c.manager c.key := (leads_iff hn).2 ⟨rfl, rfl, by rw [hclaiming]; rfl⟩
    obtain rfl : j = n := hs.leader_unique hleadj hleadn
    obtain rfl : d = c := Option.some.inj (hj.symm.trans hn)
    rw [hcomputing] at hclaiming
    cases hclaiming
  refine hheld.claim_eq_busy (fun h => hmanager (Owner.manager.inj h)) ?_
  -- The row is the owner's, so its last sign of life is what the claim is timely for.
  intro r hr
  rw [leaseWord_eq (hlease c.manager)]
  rcases hheld with ⟨r', hr', _, howner⟩
  obtain rfl : r = r' := Option.some.inj (hr.symm.trans hr')
  exact htimely c r d.manager hn hr howner ⟨j, d, hj, rfl, hkey, hcomputing⟩

theorem Guarded.opened (table : Table) (now : Int) : (Scene.opened table now).Guarded := by
  intro n c hn
  cases hn

/-- A step with a timely claim takes the row from nobody who computes. -/
theorem Guarded.step (hg : s.Guarded) (hs : s.Orderly) (hlease : ∀ m, 2 * lease m < UInt64.size)
    (htimely : s.Timely lease a) (h : Step lease s a t) : t.Guarded := by
  intro j d hj hphase
  -- Who does not begin to compute with this step has computed before.
  have hstay : ∀ {r : Scene} {n : Nat} {c : Caller} {p : Phase}, (r.move n c p).callers j = some d →
      p ≠ .computing → r.callers j = some d := by
    intro r n c p hj hp
    rcases eq_or_of_callers_move hj with ⟨_, rfl⟩ | ⟨_, hj⟩
    · exact absurd hphase hp
    · exact hj
  cases h with
  | call _ => exact hg j d (hstay hj nofun) hphase
  | hit _ _ _ => exact hg j d (hstay hj nofun) hphase
  | miss _ _ _ => exact hg j d (hstay hj nofun) hphase
  | follow _ _ _ => exact hg j d (hstay hj nofun) hphase
  | lead _ _ _ => exact hg j d (hstay hj nofun) hphase
  | adopt _ _ hclaim =>
    rcases Table.claim_cases hclaim with ⟨⟨_, hx⟩, _⟩ | ⟨_, rfl⟩
    · cases hx
    · exact hg j d (hstay hj nofun) hphase
  | @own n c b table hn hclaiming hclaim =>
    rcases eq_or_of_callers_move hj with ⟨rfl, rfl⟩ | ⟨_, hj⟩
    · exact Table.heldBy_of_claim hclaim
    · by_cases hkey : d.key = c.key
      -- A claim on a key that someone computes is not granted.
      · have hbusy := hg.claim_eq_busy hs hlease hn hclaiming htimely hj hphase hkey
        rw [hclaim] at hbusy
        cases hbusy
      · rcases hg j d hj hphase with ⟨r, hr, hrow⟩
        exact ⟨r, (Table.get?_claim_of_ne hclaim hkey).trans hr, hrow⟩
  | busy _ _ hclaim =>
    rcases Table.claim_cases hclaim with ⟨⟨_, hx⟩, _⟩ | ⟨_, rfl⟩
    · cases hx
    · exact hg j d hj hphase
  | beat _ _ => exact (hg j d hj hphase).beat
  | @settle n c result hn hcomputing =>
    have hold : s.callers j = some d := hstay hj nofun
    -- The only row that changes is that of the caller who is done.
    have hkey : d.key ≠ c.key := by
      intro hkey
      obtain rfl : j = n := hg.unique hs hold hn hphase hcomputing hkey
      have hd : { c with phase := .settled (result.outcome c.key) } = d :=
        Option.some.inj (callers_move_self.symm.trans hj)
      rw [← hd] at hphase
      cases hphase
    rcases hg j d hold hphase with ⟨r, hr, hrow⟩
    exact ⟨r, (Table.get?_settle_of_ne hkey).trans hr, hrow⟩
  | publish _ _ => exact hg j d (hstay hj nofun) hphase
  | wake _ _ _ _ => exact hg j d (hstay hj nofun) hphase
  | invalidate _ => exact (hg j d hj hphase).invalidate
  | wait _ => exact hg j d hj hphase

/-- In a run with timely claims everyone who computes holds the row. -/
theorem Guarded.of_timelyRun (hg : s.Guarded) (hs : s.Orderly) (hlease : ∀ m, 2 * lease m < UInt64.size)
    (h : s.TimelyRun lease t) : t.Guarded := by
  induction h with
  | refl => exact hg
  | step r h htimely ih =>
    exact ih.step (hs.of_reachable r.reachable) hlease htimely (act?_eq_some_iff.1 h)

/-! ## Those who wait can return -/

/-- Some timely run leads the caller to its answer. -/
def Returns (lease : Nat → Nat) (s : Scene) (n : Nat) (c : Caller) : Prop :=
  ∃ u r, s.TimelyRun lease u ∧ u.callers n = some { c with phase := .answered r }

theorem TimelyRun.tail (hrun : s.TimelyRun lease t) (h : Step lease t a u)
    (htimely : t.Timely lease a) : s.TimelyRun lease u :=
  .step hrun (act?_eq_some_iff.2 h) htimely

theorem TimelyRun.head (h : Step lease s a t) (htimely : s.Timely lease a)
    (hrun : t.TimelyRun lease u) : s.TimelyRun lease u := by
  induction hrun with
  | refl => exact TimelyRun.refl.tail h htimely
  | step _ h' htimely' ih => exact .step ih h' htimely'

/-- Whoever returns from a later scene returns from an earlier one. -/
theorem Returns.of_step {n : Nat} {c : Caller} (hreturns : t.Returns lease n c)
    (h : Step lease s a t) (htimely : s.Timely lease a) : s.Returns lease n c := by
  rcases hreturns with ⟨u, r, hrun, hu⟩
  exact ⟨u, r, hrun.head h htimely, hu⟩

section Leader

-- A caller that waits, and the caller that it waits for.
variable {n l : Nat} {c d : Caller}

theorem ne_of_phase_ne (hn : s.callers n = some c) (hl : s.callers l = some d)
    (hphase : c.phase ≠ d.phase) : n ≠ l := by
  rintro rfl
  obtain rfl : c = d := Option.some.inj (hn.symm.trans hl)
  exact hphase rfl

variable (hn : s.callers n = some c) (hphase : c.phase = .waiting l) (hl : s.callers l = some d)

include hn hphase hl

/-- A flight that has landed answers those who wait. -/
theorem returns_of_landed {o : Outcome} (ho : d.phase = .landed o) : s.Returns lease n c :=
  ⟨_, _, TimelyRun.refl.tail (.wake hn hphase hl ho) trivial, callers_move_self⟩

/-- A leader that has settled lands next. -/
theorem returns_of_settled {o : Outcome} (ho : d.phase = .settled o) : s.Returns lease n c := by
  have hnl : n ≠ l := ne_of_phase_ne hn hl (by rw [hphase, ho]; nofun)
  have hlanded : ((s.setFlight d.manager d.key none).move l d (.landed o)).Returns lease n c :=
    returns_of_landed ((callers_move_of_ne hnl).trans hn) hphase callers_move_self rfl
  exact hlanded.of_step (.publish hl ho) trivial

/-- A leader that computes settles and then lands. -/
theorem returns_of_computing (ho : d.phase = .computing) : s.Returns lease n c := by
  have hnl : n ≠ l := ne_of_phase_ne hn hl (by rw [hphase, ho]; nofun)
  have hsettled : (s.settle l d .aborted).Returns lease n c :=
    returns_of_settled ((callers_move_of_ne hnl).trans hn) hphase callers_move_self rfl
  exact hsettled.of_step (.settle hl ho) trivial

/-- A leader whose claim is granted computes, settles and lands. -/
theorem returns_of_claim (ho : d.phase = .claiming) (htimely : s.Timely lease (.claim l))
    (hgranted : ∀ table,
      s.table.claim d.key (.manager d.manager) s.now (lease d.manager) ≠ (.busy, table)) :
    s.Returns lease n c := by
  have hnl : n ≠ l := ne_of_phase_ne hn hl (by rw [hphase, ho]; nofun)
  match hclaim : s.table.claim d.key (.manager d.manager) s.now (lease d.manager) with
  | (.complete p, table) =>
    have hsettled : ((s.setTable table).move l d (.settled (.payload p))).Returns lease n c :=
      returns_of_settled ((callers_move_of_ne hnl).trans hn) hphase callers_move_self rfl
    exact hsettled.of_step (.adopt hl ho hclaim) htimely
  | (.owned b, table) =>
    have hcomputing : ((s.setTable table).move l d .computing).Returns lease n c :=
      returns_of_computing ((callers_move_of_ne hnl).trans hn) hphase callers_move_self rfl
    exact hcomputing.of_step (.own hl ho hclaim) htimely
  | (.busy, table) => exact absurd hclaim (hgranted table)

/-- If nobody computes the key, time can pass until no lease keeps the leader out. -/
theorem returns_of_claiming (ho : d.phase = .claiming) (hfree : ∀ m, ¬ s.Computes m d.key) :
    s.Returns lease n c := by
  obtain ⟨millis, hstale⟩ := s.table.exists_stale d.key s.now (lease d.manager)
  have hlater : ({ s with now := s.now + millis } : Scene).Returns lease n c := by
    refine returns_of_claim hn hphase hl ho ?_ fun table => Table.claim_ne_busy hstale
    intro d' r m hl' _ _ hcomputes
    obtain rfl : d = d' := Option.some.inj (hl.symm.trans hl')
    exact absurd hcomputes (hfree m)
  exact hlater.of_step (.wait millis) trivial

/-- Whoever computes the key can be done before the leader claims it. -/
theorem returns_of_serves (hg : s.Guarded) (hs : s.Orderly)
    (ho : d.phase.isLeading = true ∨ ∃ o, d.phase = .landed o) : s.Returns lease n c := by
  rcases ho with hlead | ⟨o, ho⟩
  · match ho : d.phase with
    | .settled o => exact returns_of_settled hn hphase hl ho
    | .computing => exact returns_of_computing hn hphase hl ho
    | .claiming =>
      by_cases hfree : ∀ m, ¬ s.Computes m d.key
      · exact returns_of_claiming hn hphase hl ho hfree
      · simp only [Classical.not_forall, Classical.not_not] at hfree
        rcases hfree with ⟨m, j, e, hj, rfl, hkey, hcomputing⟩
        have hnj : n ≠ j := ne_of_phase_ne hn hj (by rw [hphase, hcomputing]; nofun)
        have hlj : l ≠ j := ne_of_phase_ne hl hj (by rw [ho, hcomputing]; nofun)
        -- When the only one who computes the key is done, nobody does.
        have hfree' : ∀ m, ¬ (s.settle j e .aborted).Computes m d.key := by
          rintro m ⟨i, e', hi, _, hkey', hcomputing'⟩
          rcases eq_or_of_callers_move hi with ⟨_, rfl⟩ | ⟨hij, hi⟩
          · cases hcomputing'
          · exact hij (hg.unique hs hi hj hcomputing' hcomputing (hkey'.trans hkey.symm))
        have hsettled : (s.settle j e .aborted).Returns lease n c :=
          returns_of_claiming ((callers_move_of_ne hnj).trans hn) hphase
            ((callers_move_of_ne hlj).trans hl) ho hfree'
        exact hsettled.of_step (.settle hj hcomputing) trivial
    | .asking | .missed | .waiting _ | .landed _ | .answered _ =>
      rw [ho] at hlead
      cases hlead
  · exact returns_of_landed hn hphase hl ho

end Leader

/-! ## Main result -/

/-- In every scene that a timely run leads to, at most one caller computes a key, and a caller that waits
can still return. When it has returned, in whatever further run, its leader has returned too: the caller
has the leader's payload, or the report that the computation failed if the leader failed or was aborted. -/
theorem exclusive_and_shared (lease : Nat → Nat) (hlease : ∀ m, 2 * lease m < UInt64.size) (table : Table)
    (now : Int) (s : Scene) (hs : (opened table now).TimelyRun lease s) :
    (∀ n n' c c', s.callers n = some c → s.callers n' = some c' → c.phase = .computing →
      c'.phase = .computing → c.key = c'.key → n = n') ∧
    ∀ n c l, s.callers n = some c → c.phase = .waiting l →
      (∃ u r, s.TimelyRun lease u ∧ u.callers n = some { c with phase := .answered r }) ∧
      ∀ u r, s.Reachable lease u → u.callers n = some { c with phase := .answered r } →
        ∃ d o, u.callers l = some d ∧ d.manager = c.manager ∧ d.key = c.key ∧ d.phase = .landed o ∧
          match o with
          | .payload p => r = .ok p
          | .failed e => r = .error (.computationFailed c.key.display e.message)
          | .aborted => r = .error (.computationFailed c.key.display abortReason) := by
  -- Two invariants carry the theorem: callers and flights are in order, and rows in progress are
  -- guarded by leases that do not run out while runs are timely.
  have horderly : s.Orderly := (Orderly.opened table now).of_reachable hs.reachable
  have hguarded : s.Guarded :=
    (Guarded.opened table now).of_timelyRun (Orderly.opened table now) hlease hs
  constructor
  · intro n n' c c' hn hn' hphase hphase' hkey
    exact hguarded.unique horderly hn hn' hphase hphase' hkey
  · intro n c l hn hphase
    constructor
    -- The leader that is waited for can still come to its end.
    · rcases horderly.waiting n c l hn hphase with ⟨d, hl, _, _, ho⟩
      exact returns_of_serves hn hphase hl hguarded horderly ho
    · intro u r hu hanswered
      rcases hu.waited horderly hn hphase with hwaiting | ⟨d, o, hl, hm, hk, ho, hu⟩
      -- A caller that still waits has no answer yet.
      · have hc : c = { c with phase := .answered r } := Option.some.inj (hwaiting.symm.trans hanswered)
        rw [hc] at hphase
        cases hphase
      -- A caller that was woken has what its leader landed with.
      · have hr : Phase.answered (o.shared c.key) = .answered r :=
          congrArg Caller.phase (Option.some.inj (hu.symm.trans hanswered))
        refine ⟨d, o, hl, hm, hk, ho, ?_⟩
        cases o with
        | payload p => exact (Phase.answered.inj hr).symm
        | failed e => exact (Phase.answered.inj hr).symm
        | aborted => exact (Phase.answered.inj hr).symm

theorem TimelyRun.ask (h : s.TimelyRun lease t) {n m : Nat} {k : Key} (hn : t.callers n = none)
    (hmiss : t.table.lookup? k = none) :
    s.TimelyRun lease ((t.move n ⟨m, k, .asking⟩ .asking).move n ⟨m, k, .asking⟩ .missed) :=
  (h.tail (.call hn) trivial).tail (.miss callers_move_self rfl hmiss) trivial

/-- One caller computes, another one of its manager waits for it, and the claim of a caller of another
manager is turned away. The caller that waits can return. -/
theorem exclusive_and_shared_contested :
    ∃ s : Scene, ∃ k : Key,
      (opened .empty 0).TimelyRun (fun _ => 60000) s ∧
      s.callers 0 = some ⟨0, k, .computing⟩ ∧
      s.callers 1 = some ⟨0, k, .waiting 0⟩ ∧
      s.callers 2 = some ⟨1, k, .claiming⟩ ∧
      ∃ u r, s.TimelyRun (fun _ => 60000) u ∧ u.callers 1 = some ⟨0, k, .answered r⟩ := by
  let k : Key := ⟨.nativeGraph, ⟨"numpy", "2.0"⟩, "analysis"⟩
  let row : Table := Table.start .empty k (.manager 0) 0
  have hget : ∀ r, row.get? k = some r → r = .started none (.manager 0) 0 := by
    intro r hr
    exact (Option.some.inj (SortedMap.get?_insert_self.symm.trans hr)).symm
  have hmiss : row.lookup? k = none := by
    simp [row, Table.lookup?, Table.start, Row.started]
  have hbusy : row.claim k (.manager 1) 0 60000 = (.busy, row) := by
    have hne : Owner.manager 0 ≠ .manager 1 := by decide
    refine Table.heldBy_start.claim_eq_busy hne ?_
    intro r hr
    rw [hget r hr]
    decide
  -- The first caller computes.
  have h0 : (opened .empty 0).TimelyRun (fun _ => 60000) _ :=
    TimelyRun.refl.ask (n := 0) (m := 0) (k := k) rfl rfl
  have h1 := h0.tail (.lead callers_move_self rfl rfl) trivial
  have h2 := h1.tail (.own callers_move_self rfl rfl) (by
    intro c r m _ hr
    cases hr)
  -- The second one waits for it.
  have h3 := h2.ask (n := 1) (m := 0) (k := k) rfl hmiss
  have hflight : (if 0 = 0 ∧ k = k then some 0 else none) = some 0 := if_pos ⟨rfl, rfl⟩
  have h4 := h3.tail (.follow callers_move_self rfl hflight) trivial
  -- The third one is of another manager and finds the row held.
  have h5 := h4.ask (n := 2) (m := 1) (k := k) rfl hmiss
  have h6 := h5.tail (.lead callers_move_self rfl rfl) trivial
  have h7 := h6.tail (.busy callers_move_self rfl hbusy) (by
    intro c r m hc hr _ _
    obtain rfl := Option.some.inj (callers_move_self.symm.trans hc)
    rw [hget r hr]
    decide)
  exact ⟨_, k, h7, rfl, rfl, rfl,
    ((exclusive_and_shared _ (fun _ => by decide) _ _ _ h7).2 1 _ 0 rfl rfl).1⟩

end Scene
end Memo
end Bridgework
