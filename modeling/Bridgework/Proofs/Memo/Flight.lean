import Bridgework.Proofs.Memo.Step

/-!
# Flights along every run

Whatever the order of actions, the flight of a manager for a key is registered exactly while one caller
leads it, and those who wait on it wait for a caller of the same manager and key that leads it or has
landed. So nobody waits for a flight that is lost, and what a waiting caller takes over is what its
leader has returned.

- `Memo.Scene.Orderly` : the invariant
- `Memo.Scene.Orderly.of_reachable` : it holds along every run
- `Memo.Scene.Reachable.waited` : what a caller that has waited returns
-/

namespace Bridgework
namespace Memo
namespace Scene

/-- The caller leads the flight of the manager for the key. -/
def Leads (s : Scene) (n m : Nat) (k : Key) : Prop :=
  ∃ c, s.callers n = some c ∧ c.manager = m ∧ c.key = k ∧ c.phase.isLeading = true

/-- The caller leads the flight of the manager for the key or has led it to its end. -/
def Serves (s : Scene) (n m : Nat) (k : Key) : Prop :=
  ∃ c, s.callers n = some c ∧ c.manager = m ∧ c.key = k ∧
    (c.phase.isLeading = true ∨ ∃ o, c.phase = .landed o)

/-- Flights are known by their leaders, and nobody waits in vain. -/
structure Orderly (s : Scene) : Prop where
  flights : ∀ m k n, s.flights m k = some n ↔ s.Leads n m k
  waiting : ∀ n c l, s.callers n = some c → c.phase = .waiting l → s.Serves l c.manager c.key

variable {lease : Nat → Nat} {s t u : Scene} {a : Action}

/-! ## Leaders -/

/-- A caller leads while its phase says so. -/
theorem leads_iff {n m : Nat} {k : Key} {c : Caller} (hn : s.callers n = some c) :
    s.Leads n m k ↔ c.manager = m ∧ c.key = k ∧ c.phase.isLeading = true := by
  constructor
  · intro h
    rcases h with ⟨d, hd, hlead⟩
    obtain rfl : c = d := Option.some.inj (hn.symm.trans hd)
    exact hlead
  · intro h
    exact ⟨c, hn, h⟩

theorem leads_congr {j m : Nat} {k : Key} (h : t.callers j = s.callers j) :
    t.Leads j m k ↔ s.Leads j m k := by
  rw [Leads, Leads, h]

/-- A move between phases that lead keeps the leaders. -/
theorem leads_move {n j m : Nat} {k : Key} {c : Caller} {p : Phase} (hn : s.callers n = some c)
    (hlead : p.isLeading = c.phase.isLeading) : (s.move n c p).Leads j m k ↔ s.Leads j m k := by
  by_cases hj : j = n
  · subst hj
    rw [leads_iff callers_move_self, leads_iff hn, hlead]
  · exact leads_congr (callers_move_of_ne hj)

/-- A flight has one leader, since it is registered for one. -/
theorem Orderly.leader_unique (hs : s.Orderly) {n n' m : Nat} {k : Key} (h : s.Leads n m k)
    (h' : s.Leads n' m k) : n = n' :=
  Option.some.inj (((hs.flights m k n).2 h).symm.trans ((hs.flights m k n').2 h'))

/-- A caller that starts a flight or ends its own flight is registered as its phase says. -/
theorem Orderly.flights_setFlight (hs : s.Orderly) {n : Nat} {c : Caller} {p : Phase}
    {leader : Option Nat} (hn : s.callers n = some c)
    (hbefore : ∀ j, s.flights c.manager c.key = some j → j = n)
    (hafter : ∀ j, leader = some j ↔ j = n ∧ p.isLeading = true) (m : Nat) (k : Key) (j : Nat) :
    ((s.setFlight c.manager c.key leader).move n c p).flights m k = some j ↔
      ((s.setFlight c.manager c.key leader).move n c p).Leads j m k := by
  have hflights : ((s.setFlight c.manager c.key leader).move n c p).flights m k =
      if m = c.manager ∧ k = c.key then leader else s.flights m k := rfl
  have hself : ((s.setFlight c.manager c.key leader).move n c p).Leads n m k ↔
      c.manager = m ∧ c.key = k ∧ p.isLeading = true := leads_iff callers_move_self
  have hother : j ≠ n → (((s.setFlight c.manager c.key leader).move n c p).Leads j m k ↔
      s.flights m k = some j) :=
    fun hj => (leads_congr (callers_move_of_ne hj)).trans (hs.flights m k j).symm
  rw [hflights]
  by_cases hj : j = n
  · subst hj
    rw [hself]
    split
    next hmk => simp [hmk, hafter]
    next hmk =>
      -- The caller leads no flight but that of its own manager and key.
      have hmk' : ¬ (c.manager = m ∧ c.key = k) := fun h => hmk ⟨h.1.symm, h.2.symm⟩
      refine iff_of_false ?_ fun h => hmk' ⟨h.1, h.2.1⟩
      intro hflight
      have hlead := (leads_iff hn).1 ((hs.flights m k j).1 hflight)
      exact hmk' ⟨hlead.1, hlead.2.1⟩
  · rw [hother hj]
    split
    next hmk =>
      rw [hmk.1, hmk.2]
      exact iff_of_false (fun h => hj ((hafter j).1 h).1) fun h => hj (hbefore j h)
    next => rfl

/-- A step keeps the leaders known: flights start and land together with the phases of their callers. -/
theorem Orderly.flights_step (hs : s.Orderly) (h : Step lease s a t) (m : Nat) (k : Key) (j : Nat) :
    t.flights m k = some j ↔ t.Leads j m k := by
  -- Most turns neither start nor end a flight.
  have hmove : ∀ {n : Nat} {c : Caller} {p p' : Phase}, s.callers n = some c → c.phase = p →
      p'.isLeading = p.isLeading → (s.flights m k = some j ↔ (s.move n c p').Leads j m k) := by
    intro n c p p' hn hphase hlead
    rw [leads_move hn (hphase ▸ hlead)]
    exact hs.flights m k j
  cases h with
  | @call n m' k' hn =>
    by_cases hj : j = n
    · subst hj
      refine iff_of_false ?_ ?_
      · intro hflight
        rcases (hs.flights m k j).1 hflight with ⟨c, hc, _⟩
        rw [hn] at hc
        cases hc
      · intro hlead
        exact Bool.false_ne_true ((leads_iff callers_move_self).1 hlead).2.2
    · exact (hs.flights m k j).trans (leads_congr (callers_move_of_ne hj)).symm
  | hit hn hphase _ => exact hmove hn hphase rfl
  | miss hn hphase _ => exact hmove hn hphase rfl
  | follow hn hphase _ => exact hmove hn hphase rfl
  | @lead n c hn hphase hnone =>
    refine hs.flights_setFlight hn ?_ ?_ m k j
    · intro i hi
      rw [hnone] at hi
      cases hi
    · intro i
      simp [Phase.isLeading, eq_comm]
  | adopt hn hphase _ => exact hmove hn hphase rfl
  | own hn hphase _ => exact hmove hn hphase rfl
  | busy _ _ _ => exact hs.flights m k j
  | beat _ _ => exact hs.flights m k j
  | settle hn hphase => exact hmove hn hphase rfl
  | @publish n c o hn hphase =>
    refine hs.flights_setFlight hn ?_ ?_ m k j
    · intro i hi
      have hlead : s.Leads n c.manager c.key := (leads_iff hn).2 ⟨rfl, rfl, by rw [hphase]; rfl⟩
      exact hs.leader_unique ((hs.flights _ _ i).1 hi) hlead
    · intro i
      simp [Phase.isLeading]
  | wake hn hphase _ _ => exact hmove hn hphase rfl
  | invalidate _ => exact hs.flights m k j
  | wait _ => exact hs.flights m k j

/-! ## Those who wait -/

theorem Leads.serves {n m : Nat} {k : Key} (h : s.Leads n m k) : s.Serves n m k := by
  rcases h with ⟨c, hc, hm, hk, hlead⟩
  exact ⟨c, hc, hm, hk, .inl hlead⟩

/-- A leader goes on to lead until it lands. -/
theorem Serves.step {n m : Nat} {k : Key} (h : s.Serves n m k) (hstep : Step lease s a t) :
    t.Serves n m k := by
  rcases h with ⟨c, hc, hm, hk, hphase⟩
  rcases hstep.callers_of_some hc with ht | ⟨p, hturn, ht⟩
  · exact ⟨c, ht, hm, hk, hphase⟩
  · refine ⟨_, ht, hm, hk, ?_⟩
    show p.isLeading = true ∨ ∃ o, p = .landed o
    generalize c.phase = phase at hphase hturn
    cases hturn with
    | adopt _ => exact .inl rfl
    | own => exact .inl rfl
    | settle _ => exact .inl rfl
    | publish o => exact .inr ⟨o, rfl⟩
    | _ => simp [Phase.isLeading] at hphase

/-- A step keeps the leaders of those who wait. -/
theorem Orderly.waiting_step (hs : s.Orderly) (h : Step lease s a t) {n l : Nat} {c : Caller}
    (hn : t.callers n = some c) (hphase : c.phase = .waiting l) : t.Serves l c.manager c.key := by
  -- It waited before, or it has just joined the flight that was registered.
  have hserves : s.Serves l c.manager c.key := by
    rcases h.origin hn with hasking | hn | ⟨d, hd, hturn, hc⟩
    · rw [hphase] at hasking
      cases hasking
    · exact hs.waiting n c l hn hphase
    · rw [hphase] at hturn hc
      have hflight : s.flights d.manager d.key = some l := by
        generalize d.phase = phase at hturn
        cases hturn with
        | follow hl => exact hl
      rw [hc]
      exact ((hs.flights _ _ l).1 hflight).serves
  exact hserves.step h

/-! ## Runs -/

theorem Orderly.opened (table : Table) (now : Int) : (Scene.opened table now).Orderly where
  flights m k n := by
    refine iff_of_false (fun h => by cases h) ?_
    rintro ⟨c, hc, _⟩
    cases hc
  waiting n c l hn _ := by cases hn

theorem Orderly.step (hs : s.Orderly) (h : s.act? lease a = some t) : t.Orderly where
  flights := hs.flights_step (act?_eq_some_iff.1 h)
  waiting _ _ _ := hs.waiting_step (act?_eq_some_iff.1 h)

/-- In every run flights are known by their leaders. -/
theorem Orderly.of_reachable (hs : s.Orderly) (h : s.Reachable lease t) : t.Orderly := by
  induction h with
  | refl => exact hs
  | step _ h ih => exact ih.step h

/-- A caller that waits for a leader in one scene still waits for it in any later one, or the leader has
landed and the caller has returned what the leader's outcome gives to others. -/
theorem Reachable.waited (hs : s.Orderly) (h : s.Reachable lease t) {n l : Nat} {c : Caller}
    (hn : s.callers n = some c) (hphase : c.phase = .waiting l) :
    t.callers n = some c ∨
      ∃ d o, t.callers l = some d ∧ d.manager = c.manager ∧ d.key = c.key ∧ d.phase = .landed o ∧
        t.callers n = some { c with phase := .answered (o.shared c.key) } := by
  induction h with
  | refl => exact .inl hn
  | @step t u a hrun h ih =>
    have hstep := act?_eq_some_iff.1 h
    rcases ih with hwaiting | ⟨d, o, hl, hm, hk, ho, hanswered⟩
    · rcases hstep.callers_of_waiting hwaiting hphase with hu | ⟨d, o, hl, ho, hu⟩
      · exact .inl hu
      · rcases (hs.of_reachable hrun).waiting n c l hwaiting hphase with ⟨d', hl', hm, hk, _⟩
        obtain rfl : d = d' := Option.some.inj (hl.symm.trans hl')
        exact .inr ⟨d, o, hstep.callers_of_isOver hl (by rw [ho]; rfl), hm, hk, ho, hu⟩
    · exact .inr ⟨d, o, hstep.callers_of_isOver hl (by rw [ho]; rfl), hm, hk, ho,
        hstep.callers_of_isOver hanswered rfl⟩

end Scene
end Memo
end Bridgework
