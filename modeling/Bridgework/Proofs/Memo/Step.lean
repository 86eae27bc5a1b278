import Bridgework.Memo.Protocol
import Bridgework.Proofs.Memo.Table

/-!
# What an action does

All that one atomic change can do, case by case and with its conditions, so that what holds along every
run is shown by looking at these cases.

- `Memo.Scene.Step` : the cases
- `Memo.Scene.act?_eq_some_iff` : there are no others
- `Memo.Scene.Step.callers_of_isOver` : who has returned stays as it is
- `Memo.Scene.Step.callers_of_waiting` : who waits goes on waiting, or takes over what the flight gave
- `Memo.Scene.Step.callers_of_asking`, `Memo.Scene.Step.callers_of_settled` : who looks, who has an outcome
-/

namespace Bridgework
namespace Memo

/-! ## Phases -/

def Phase.isLeading : Phase → Bool
  | .claiming => true
  | .computing => true
  | .settled _ => true
  | _ => false

def Phase.isOver : Phase → Bool
  | .landed _ => true
  | .answered _ => true
  | _ => false

namespace Scene

variable {lease : Nat → Nat} {s t : Scene} {a : Action}

/-! ## Fields after a change -/

theorem callers_move_self {n : Nat} {c : Caller} {p : Phase} :
    (s.move n c p).callers n = some { c with phase := p } := if_pos rfl

theorem callers_move_of_ne {n j : Nat} {c : Caller} {p : Phase} (h : j ≠ n) :
    (s.move n c p).callers j = s.callers j := if_neg h

/-- A caller of the scene after a move is the one that moved, or one of before. -/
theorem eq_or_of_callers_move {n j : Nat} {c d : Caller} {p : Phase}
    (h : (s.move n c p).callers j = some d) :
    j = n ∧ d = { c with phase := p } ∨ j ≠ n ∧ s.callers j = some d := by
  by_cases hj : j = n
  · subst hj
    rw [callers_move_self] at h
    exact .inl ⟨rfl, (Option.some.inj h).symm⟩
  · rw [callers_move_of_ne hj] at h
    exact .inr ⟨hj, h⟩

/-! ## Cases -/

/-- One atomic change. -/
inductive Step (lease : Nat → Nat) (s : Scene) : Action → Scene → Prop where
  -- A caller comes with its question, and looks for the answer.
  | call {n m : Nat} {k : Key} (hn : s.callers n = none) :
      Step lease s (.call n m k) (s.move n ⟨m, k, .asking⟩ .asking)
  | hit {n : Nat} {c : Caller} {p : String} (hn : s.callers n = some c) (hphase : c.phase = .asking)
      (hp : s.table.lookup? c.key = some p) :
      Step lease s (.lookUp n) (s.move n c (.answered (.ok p)))
  | miss {n : Nat} {c : Caller} (hn : s.callers n = some c) (hphase : c.phase = .asking)
      (hp : s.table.lookup? c.key = none) : Step lease s (.lookUp n) (s.move n c .missed)
  -- A miss joins the flight of its manager, or becomes the leader of a new one.
  | follow {n l : Nat} {c : Caller} (hn : s.callers n = some c) (hphase : c.phase = .missed)
      (hl : s.flights c.manager c.key = some l) : Step lease s (.join n) (s.move n c (.waiting l))
  | lead {n : Nat} {c : Caller} (hn : s.callers n = some c) (hphase : c.phase = .missed)
      (hl : s.flights c.manager c.key = none) :
      Step lease s (.join n) ((s.setFlight c.manager c.key (some n)).move n c .claiming)
  -- The leader claims the row: it may find a result, be granted the row, or have to wait.
  | adopt {n : Nat} {c : Caller} {p : String} {table : Table} (hn : s.callers n = some c)
      (hphase : c.phase = .claiming)
      (hclaim : s.table.claim c.key (.manager c.manager) s.now (lease c.manager) = (.complete p, table)) :
      Step lease s (.claim n) ((s.setTable table).move n c (.settled (.payload p)))
  | own {n : Nat} {c : Caller} {b : Bool} {table : Table} (hn : s.callers n = some c)
      (hphase : c.phase = .claiming)
      (hclaim : s.table.claim c.key (.manager c.manager) s.now (lease c.manager) = (.owned b, table)) :
      Step lease s (.claim n) ((s.setTable table).move n c .computing)
  | busy {n : Nat} {c : Caller} {table : Table} (hn : s.callers n = some c)
      (hphase : c.phase = .claiming)
      (hclaim : s.table.claim c.key (.manager c.manager) s.now (lease c.manager) = (.busy, table)) :
      Step lease s (.claim n) (s.setTable table)
  -- Whoever computes keeps the row alive by beats, until the result is written.
  | beat {n : Nat} {c : Caller} (hn : s.callers n = some c) (hphase : c.phase = .computing) :
      Step lease s (.beat n) (s.setTable (s.table.beat c.key (.manager c.manager) s.now))
  | settle {n : Nat} {c : Caller} {result : Computed} (hn : s.callers n = some c)
      (hphase : c.phase = .computing) : Step lease s (.settle n result) (s.settle n c result)
  -- The result is shown to those who wait, and each of them wakes on its own.
  | publish {n : Nat} {c : Caller} {o : Outcome} (hn : s.callers n = some c)
      (hphase : c.phase = .settled o) :
      Step lease s (.publish n) ((s.setFlight c.manager c.key none).move n c (.landed o))
  | wake {n l : Nat} {c d : Caller} {o : Outcome} (hn : s.callers n = some c)
      (hphase : c.phase = .waiting l) (hl : s.callers l = some d) (ho : d.phase = .landed o) :
      Step lease s (.wake n) (s.move n c (.answered (o.shared c.key)))
  -- Rows are removed and time passes without any caller.
  | invalidate (k : Key) : Step lease s (.invalidate k) (s.setTable (s.table.invalidate k))
  | wait (millis : Nat) : Step lease s (.wait millis) { s with now := s.now + millis }

/-! ## There are no other cases -/

/-- A caller that has not looked yet can look. -/
theorem step_lookUp {n : Nat} {c : Caller} (hn : s.callers n = some c) (hphase : c.phase = .asking) :
    Step lease s (.lookUp n) (s.lookUp n c) := by
  unfold lookUp
  split
  next p hp => exact .hit hn hphase hp
  next hp => exact .miss hn hphase hp

/-- A caller that has found nothing can join or start a flight. -/
theorem step_join {n : Nat} {c : Caller} (hn : s.callers n = some c) (hphase : c.phase = .missed) :
    Step lease s (.join n) (s.join n c) := by
  unfold join
  split
  next l hl => exact .follow hn hphase hl
  next hl => exact .lead hn hphase hl

/-- A leader can claim. -/
theorem step_claim {n : Nat} {c : Caller} (hn : s.callers n = some c) (hphase : c.phase = .claiming) :
    Step lease s (.claim n) (s.claim lease n c) := by
  unfold claim
  split
  next p table hclaim => exact .adopt hn hphase hclaim
  next b table hclaim => exact .own hn hphase hclaim
  next table hclaim => exact .busy hn hphase hclaim

/-- What a caller can do in its phase is a step. -/
theorem step_of_actIn? {n : Nat} {c : Caller} (hn : s.callers n = some c) (ha : actor? a = some n)
    (h : s.actIn? lease n c c.phase a = some t) : Step lease s a t := by
  generalize hphase : c.phase = phase at h
  unfold actIn? at h
  -- One case for each phase together with the action that it allows.
  split at h
  next =>
    cases ha
    cases h
    exact step_lookUp hn hphase
  next =>
    cases ha
    cases h
    exact step_join hn hphase
  next =>
    cases ha
    cases h
    exact step_claim hn hphase
  next =>
    cases ha
    cases h
    exact .beat hn hphase
  next =>
    cases ha
    cases h
    exact .settle hn hphase
  next =>
    cases ha
    cases h
    exact .publish hn hphase
  -- A caller can wake only after its leader has landed.
  next =>
    cases ha
    split at h
    next hl =>
      cases h
      exact .wake hn hphase hl rfl
    next => cases h
  next => cases h

/-- Every atomic change is a step of the relation. -/
theorem step_of_act? (h : s.act? lease a = some t) : Step lease s a t := by
  unfold act? at h
  split at h
  next n m k =>
    split at h
    next hn =>
      cases h
      exact .call hn
    next => cases h
  next k =>
    cases h
    exact .invalidate k
  next millis =>
    cases h
    exact .wait millis
  -- All other actions belong to a caller that is there.
  next =>
    split at h
    next => cases h
    next n ha =>
      split at h
      next => cases h
      next c hn => exact step_of_actIn? hn ha h

/-- Every step of the relation is an atomic change. -/
theorem Step.act?_eq (h : Step lease s a t) : s.act? lease a = some t := by
  cases h with
  | call hn => simp [act?, hn]
  | hit hn hphase hp => simp [act?, actor?, hn, hphase, actIn?, lookUp, hp]
  | miss hn hphase hp => simp [act?, actor?, hn, hphase, actIn?, lookUp, hp]
  | follow hn hphase hl => simp [act?, actor?, hn, hphase, actIn?, join, hl]
  | lead hn hphase hl => simp [act?, actor?, hn, hphase, actIn?, join, hl]
  | adopt hn hphase hclaim => simp [act?, actor?, hn, hphase, actIn?, claim, hclaim]
  | own hn hphase hclaim => simp [act?, actor?, hn, hphase, actIn?, claim, hclaim]
  | busy hn hphase hclaim => simp [act?, actor?, hn, hphase, actIn?, claim, hclaim]
  | beat hn hphase => simp [act?, actor?, hn, hphase, actIn?]
  | settle hn hphase => simp [act?, actor?, hn, hphase, actIn?]
  | publish hn hphase => simp [act?, actor?, hn, hphase, actIn?]
  -- The leader has landed, which is all that is known of it.
  | @wake n l c d o hn hphase hl ho =>
    obtain ⟨m, k, phase⟩ := d
    obtain rfl : phase = .landed o := ho
    simp [act?, actor?, hn, hphase, actIn?, hl]
  | invalidate k => rfl
  | wait millis => rfl

theorem act?_eq_some_iff : s.act? lease a = some t ↔ Step lease s a t :=
  ⟨step_of_act?, Step.act?_eq⟩

/-! ## Callers from one scene to the next -/

/-- How a call goes on. -/
inductive Turn (s : Scene) (c : Caller) : Phase → Phase → Prop where
  | hit {p : String} (hp : s.table.lookup? c.key = some p) : Turn s c .asking (.answered (.ok p))
  | miss (hp : s.table.lookup? c.key = none) : Turn s c .asking .missed
  | follow {l : Nat} (hl : s.flights c.manager c.key = some l) : Turn s c .missed (.waiting l)
  | lead : Turn s c .missed .claiming
  | adopt (p : String) : Turn s c .claiming (.settled (.payload p))
  | own : Turn s c .claiming .computing
  | settle (result : Computed) : Turn s c .computing (.settled (result.outcome c.key))
  | publish (o : Outcome) : Turn s c (.settled o) (.landed o)
  | wake {l : Nat} {d : Caller} {o : Outcome} (hl : s.callers l = some d) (ho : d.phase = .landed o) :
      Turn s c (.waiting l) (.answered (o.shared c.key))

namespace Step

/-- A step leaves all callers alone, or brings in one, or one of them takes a turn. -/
theorem callers_cases (h : Step lease s a t) :
    t.callers = s.callers ∨
      (∃ n m k, s.callers n = none ∧ t.callers = (s.move n ⟨m, k, .asking⟩ .asking).callers) ∨
      ∃ n c p, s.callers n = some c ∧ Turn s c c.phase p ∧ t.callers = (s.move n c p).callers := by
  -- What is moved is one caller, and from the phase that it was in.
  have hturn : ∀ {n : Nat} {c : Caller} {p p' : Phase}, s.callers n = some c → c.phase = p →
      Turn s c p p' → t.callers = (s.move n c p').callers → ∃ n c p,
        s.callers n = some c ∧ Turn s c c.phase p ∧ t.callers = (s.move n c p).callers := by
    intro n c p p' hn hphase hturn ht
    subst hphase
    exact ⟨n, c, p', hn, hturn, ht⟩
  cases h with
  | @call n m k hn => exact .inr (.inl ⟨n, m, k, hn, rfl⟩)
  | hit hn hphase hp => exact .inr (.inr (hturn hn hphase (.hit hp) rfl))
  | miss hn hphase hp => exact .inr (.inr (hturn hn hphase (.miss hp) rfl))
  | follow hn hphase hl => exact .inr (.inr (hturn hn hphase (.follow hl) rfl))
  | lead hn hphase _ => exact .inr (.inr (hturn hn hphase .lead rfl))
  | @adopt n c p table hn hphase _ => exact .inr (.inr (hturn hn hphase (.adopt p) rfl))
  | own hn hphase _ => exact .inr (.inr (hturn hn hphase .own rfl))
  | busy _ _ _ => exact .inl rfl
  | beat _ _ => exact .inl rfl
  | @settle n c result hn hphase => exact .inr (.inr (hturn hn hphase (.settle result) rfl))
  | @publish n c o hn hphase => exact .inr (.inr (hturn hn hphase (.publish o) rfl))
  | wake hn hphase hl ho => exact .inr (.inr (hturn hn hphase (.wake hl ho) rfl))
  | invalidate _ => exact .inl rfl
  | wait _ => exact .inl rfl

/-- What becomes of a caller. -/
theorem callers_of_some (h : Step lease s a t) {j : Nat} {d : Caller} (hj : s.callers j = some d) :
    t.callers j = some d ∨ ∃ p, Turn s d d.phase p ∧ t.callers j = some { d with phase := p } := by
  rcases h.callers_cases with ht | ⟨n, m, k, hn, ht⟩ | ⟨n, c, p, hn, hturn, ht⟩
  · exact .inl (ht ▸ hj)
  · have hjn : j ≠ n := by
      rintro rfl
      rw [hj] at hn
      cases hn
    exact .inl (ht ▸ (callers_move_of_ne hjn).trans hj)
  · by_cases hjn : j = n
    · subst hjn
      obtain rfl : d = c := Option.some.inj (hj.symm.trans hn)
      exact .inr ⟨p, hturn, ht ▸ callers_move_self⟩
    · exact .inl (ht ▸ (callers_move_of_ne hjn).trans hj)

/-- Where a caller comes from. -/
theorem origin (h : Step lease s a t) {j : Nat} {d : Caller} (hj : t.callers j = some d) :
    d.phase = .asking ∨ s.callers j = some d ∨
      ∃ c, s.callers j = some c ∧ Turn s c c.phase d.phase ∧ d = { c with phase := d.phase } := by
  rcases h.callers_cases with ht | ⟨n, m, k, hn, ht⟩ | ⟨n, c, p, hn, hturn, ht⟩
  · exact .inr (.inl (ht ▸ hj))
  · rw [ht] at hj
    rcases eq_or_of_callers_move hj with ⟨rfl, rfl⟩ | ⟨_, hj⟩
    · exact .inl rfl
    · exact .inr (.inl hj)
  · rw [ht] at hj
    rcases eq_or_of_callers_move hj with ⟨rfl, rfl⟩ | ⟨_, hj⟩
    · exact .inr (.inr ⟨c, hn, hturn, rfl⟩)
    · exact .inr (.inl hj)

/-- Who has returned stays as it is. -/
theorem callers_of_isOver (h : Step lease s a t) {j : Nat} {d : Caller} (hj : s.callers j = some d)
    (hover : d.phase.isOver = true) : t.callers j = some d := by
  rcases h.callers_of_some hj with ht | ⟨p, hturn, _⟩
  · exact ht
  · generalize d.phase = phase at hover hturn
    cases hturn <;> cases hover

/-- Who waits goes on waiting, or takes over what the flight has given. -/
theorem callers_of_waiting (h : Step lease s a t) {j l : Nat} {d : Caller} (hj : s.callers j = some d)
    (hphase : d.phase = .waiting l) :
    t.callers j = some d ∨
      ∃ e o, s.callers l = some e ∧ e.phase = .landed o ∧
        t.callers j = some { d with phase := .answered (o.shared d.key) } := by
  rcases h.callers_of_some hj with ht | ⟨p, hturn, ht⟩
  · exact .inl ht
  · rw [hphase] at hturn
    cases hturn with
    | @wake l e o hl ho => exact .inr ⟨e, o, hl, ho, ht⟩

/-- Who has not looked yet gets a result that is there as soon as it looks. -/
theorem callers_of_asking (h : Step lease s a t) {j : Nat} {d : Caller} {p : String}
    (hj : s.callers j = some d) (hphase : d.phase = .asking) (hp : s.table.lookup? d.key = some p) :
    t.callers j = some d ∨ t.callers j = some { d with phase := .answered (.ok p) } := by
  rcases h.callers_of_some hj with ht | ⟨phase, hturn, ht⟩
  · exact .inl ht
  · rw [hphase] at hturn
    cases hturn with
    | hit hp' =>
      obtain rfl := Option.some.inj (hp.symm.trans hp')
      exact .inr ht
    | miss hnone =>
      rw [hp] at hnone
      cases hnone

/-- Who has an outcome returns it. -/
theorem callers_of_settled (h : Step lease s a t) {j : Nat} {d : Caller} {o : Outcome}
    (hj : s.callers j = some d) (hphase : d.phase = .settled o) :
    t.callers j = some d ∨ t.callers j = some { d with phase := .landed o } := by
  rcases h.callers_of_some hj with ht | ⟨p, hturn, ht⟩
  · exact .inl ht
  · rw [hphase] at hturn
    cases hturn with
    | publish o => exact .inr ht

end Step
end Scene
end Memo
end Bridgework
