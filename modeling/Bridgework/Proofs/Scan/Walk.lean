import Bridgework.Proofs.Scan.Path

/-!
# What a walk does

All that the visit of one attribute can do, and how what each visit keeps is kept by a whole walk. A walk
ends because nothing waits any more, or because there is no more room: its fuel is never what ends it.

- `Scan.Walk.Visit`, `Scan.Walk.visit_visit` : the cases of one visit, and that there are no others
- `Scan.Walk.turn`, `Scan.Walk.turn_invariant` : the visits of one object's attributes
- `Scan.Walk.advance_invariant` : the turns of one object after another
- `Scan.Walk.fromModule_invariant`, `Scan.Walk.fromModule_keeps` : the walk from a module
- `Scan.foldl_enter_invariant`, `Scan.foldl_enter_keeps` : the walks from entry modules
-/

namespace Bridgework
namespace Scan

theorem Found.entry_offer (f : Found) (name : String) : (f.offer name).entry = f.entry := by
  unfold Found.offer
  split
  next => rfl
  next => rfl

/-- Of two names one is kept. -/
theorem Found.name_offer (f : Found) (name : String) :
    (f.offer name).name = f.name ∨ (f.offer name).name = name := by
  unfold Found.offer
  split
  next => exact .inr rfl
  next => exact .inl rfl

namespace Walk

variable {g : Ground} {origin name key : String} {owner : Waiting} {w : Walk} {queue : List Waiting}
  {id : ObjectId}

/-! ## Fields after a change -/

@[simp] theorem seen_offer : (w.offer id name).seen = w.seen := rfl

@[simp] theorem seen_meet : (w.meet id).seen = id :: w.seen := rfl

@[simp] theorem seen_examine : (w.examine g id name origin).seen = w.seen := rfl

/-- An offer changes at most the names of one object. -/
theorem mem_found_offer {p : ObjectId × Found} (h : p ∈ (w.offer id name).found) :
    ∃ q ∈ w.found, p.1 = q.1 ∧ p.2.entry = q.2.entry ∧ (p.2.name = q.2.name ∨ p.1 = id ∧ p.2.name = name) := by
  rcases List.mem_map.1 h with ⟨q, hq, rfl⟩
  refine ⟨q, hq, ?_⟩
  split
  next hid => exact ⟨rfl, q.2.entry_offer name, (q.2.name_offer name).imp_right fun hname => ⟨hid, hname⟩⟩
  next => exact ⟨rfl, rfl, .inl rfl⟩

/-- What was found stays found, with its entry. -/
theorem exists_mem_found_offer {q : ObjectId × Found} (h : q ∈ w.found) :
    ∃ p ∈ (w.offer id name).found, p.1 = q.1 ∧ p.2.entry = q.2.entry := by
  refine ⟨_, List.mem_map_of_mem h, ?_⟩
  split
  next => exact ⟨rfl, q.2.entry_offer name⟩
  next => exact ⟨rfl, rfl⟩

/-- Examining an object finds it if it enters native code. -/
theorem mem_found_examine {p : ObjectId × Found} :
    p ∈ (w.examine g id name origin).found ↔
      p ∈ w.found ∨ ∃ e, g.native? id = some e ∧ p = (id, ⟨e, name, origin⟩) := by
  unfold examine Ground.native?
  dsimp only
  cases Verdict.entry? (g.model.classify id g.settings.maxUnwrapDepth) with
  | none => simp
  | some e => simp

/-! ## One visit -/

/-- The visit of one attribute. -/
inductive Visit (g : Ground) (origin : String) (owner : Waiting) (w : Walk) (queue : List Waiting)
    (key : String) (id : ObjectId) : Walk × List Waiting → Prop where
  -- Nothing more is looked at.
  | halted (hw : w.exhausted = true) : Visit g origin owner w queue key id (w, queue)
  -- The name counts although the object is not entered: it was met, or lies too deep.
  | passed (hw : w.exhausted = false) (h : g.settings.maxDepth ≤ owner.depth ∨ id ∈ w.seen) :
      Visit g origin owner w queue key id (w.offer id (owner.name ++ "." ++ key), queue)
  -- There is no room for another object, and the walk ends here.
  | full (hw : w.exhausted = false) (hnew : id ∉ w.seen) (hfull : g.settings.maxObjects ≤ w.seen.length) :
      Visit g origin owner w queue key id
        ({ w.offer id (owner.name ++ "." ++ key) with exhausted := true }, queue)
  -- The object has no shape: it counts as met.
  | unknown (hw : w.exhausted = false) (hnew : id ∉ w.seen)
      (hroom : w.seen.length < g.settings.maxObjects) {err : Error} (hshape : g.model.shape id = .error err) :
      Visit g origin owner w queue key id ((w.offer id (owner.name ++ "." ++ key)).meet id, queue)
  -- A module of another package is passed by.
  | outside (hw : w.exhausted = false) (h : ¬ g.Allows id) :
      Visit g origin owner w queue key id (w.offer id (owner.name ++ "." ++ key), queue)
  -- A new object: it is examined, and waits for its own turn.
  | fresh (hw : w.exhausted = false) (hdepth : owner.depth < g.settings.maxDepth) (hnew : id ∉ w.seen)
      (hroom : w.seen.length < g.settings.maxObjects) (hallows : g.Allows id) :
      Visit g origin owner w queue key id
        (((w.offer id (owner.name ++ "." ++ key)).meet id).examine g id (owner.name ++ "." ++ key) origin,
          queue ++ [⟨id, owner.name ++ "." ++ key, owner.depth + 1⟩])

/-- Every visit is one of the cases. -/
theorem visit_visit (g : Ground) (origin : String) (owner : Waiting) (w : Walk) (queue : List Waiting)
    (key : String) (id : ObjectId) :
    Visit g origin owner w queue key id (visit g origin owner (w, queue) (key, id)) := by
  -- The cases are those of the definition, one after another.
  simp only [visit]
  split
  next hw => exact .halted hw
  next hw =>
    have hw : w.exhausted = false := by simpa using hw
    -- Too deep, or met before: only the name is offered.
    split
    next h =>
      refine .passed hw ?_
      simp only [Bool.or_eq_true, decide_eq_true_eq, List.contains_iff_mem, seen_offer] at h
      exact h.imp_left Nat.le_of_lt_succ
    next h =>
      simp only [Bool.or_eq_true, decide_eq_true_eq, List.contains_iff_mem, seen_offer, not_or,
        Nat.not_lt] at h
      split
      next hfull => exact .full hw h.2 hfull
      next hroom =>
        have hroom : w.seen.length < g.settings.maxObjects := Nat.not_le.1 hroom
        split
        next err hshape => exact .unknown hw h.2 hroom hshape
        next shape hshape =>
          -- A module outside of the package is not entered.
          split
          next hmodule =>
            refine .outside hw ?_
            rintro ⟨shape', hshape', hinside⟩
            obtain rfl := Except.ok.inj (hshape.symm.trans hshape')
            simp only [Bool.and_eq_true, Option.isNone_iff_eq_none] at hmodule
            exact hinside hmodule.1 hmodule.2
          next hinside =>
            refine .fresh hw h.1 h.2 hroom ⟨shape, hshape, ?_⟩
            intro hmodule houtside
            simp [hmodule, houtside] at hinside

/-! ## One turn -/

/-- The turn of an object: the visits of its attributes. -/
def turn (g : Ground) (origin : String) (owner : Waiting) (state : Walk × List Waiting) :
    Walk × List Waiting :=
  (attributesOf g owner.id).foldl (visit g origin owner) state

/-- What every visit preserves is preserved by the visits of all attributes. -/
theorem foldl_visit_invariant {I : List (String × ObjectId) → Walk × List Waiting → Prop}
    {past members : List (String × ObjectId)} {state : Walk × List Waiting} (h : I past state)
    (hvisit : ∀ past w queue key id, (key, id) ∈ members → I past (w, queue) →
      ∀ state', Visit g origin owner w queue key id state' → I (past ++ [(key, id)]) state') :
    I (past ++ members) (members.foldl (visit g origin owner) state) := by
  induction members generalizing past state with
  | nil => simpa using h
  | cons m members ih =>
    obtain ⟨key, id⟩ := m
    obtain ⟨w, queue⟩ := state
    have hnext := hvisit past w queue key id List.mem_cons_self h _ (visit_visit g origin owner w queue key id)
    have hrest := ih hnext fun past w queue key id hmem => hvisit past w queue key id (List.mem_cons_of_mem _ hmem)
    simpa using hrest

/-- What every visit keeps, as the visited attributes become more, a turn keeps. -/
theorem turn_invariant {I : List (String × ObjectId) → Walk × List Waiting → Prop}
    {state : Walk × List Waiting} (h : I [] state)
    (hvisit : ∀ past w queue key id, g.HasAttribute owner.id key id → I past (w, queue) →
      ∀ state', Visit g origin owner w queue key id state' → I (past ++ [(key, id)]) state') :
    I (attributesOf g owner.id) (turn g origin owner state) :=
  foldl_visit_invariant h fun past w queue key id hmem =>
    hvisit past w queue key id (Ground.mem_attributesOf_iff.1 hmem)

/-! ## All turns -/

/-- How many turns there can be at most: those of the objects that wait, and one for each object for which
there is still room. -/
def load (g : Ground) (w : Walk) (queue : List Waiting) : Nat :=
  queue.length + (g.settings.maxObjects - w.seen.length)

/-- A visit does not raise the number of turns that there can be. -/
theorem load_visit_le {state : Walk × List Waiting} (h : Visit g origin owner w queue key id state) :
    load g state.1 state.2 ≤ load g w queue := by
  unfold load
  cases h with
  | halted _ => exact Nat.le_refl _
  | passed _ _ => exact Nat.le_refl _
  | full _ _ _ => exact Nat.le_refl _
  | outside _ _ => exact Nat.le_refl _
  | unknown _ _ hroom _ =>
    simp only [seen_meet, seen_offer, List.length_cons]
    omega
  | fresh _ _ _ hroom _ =>
    simp only [seen_examine, seen_meet, seen_offer, List.length_cons, List.length_append, List.length_nil]
    omega

/-- A turn takes one from the number of turns that there can be. -/
theorem load_turn_le (g : Ground) (origin : String) (owner : Waiting) (state : Walk × List Waiting) :
    load g (turn g origin owner state).1 (turn g origin owner state).2 ≤ load g state.1 state.2 := by
  refine turn_invariant (I := fun _ state' => load g state'.1 state'.2 ≤ load g state.1 state.2)
    (Nat.le_refl _) ?_
  intro past w queue key id _ h state' hvisit
  exact Nat.le_trans (load_visit_le hvisit) h

theorem advance_cons (fuel : Nat) :
    advance g origin (fuel + 1) w (owner :: queue) =
      if (turn g origin owner (w, queue)).1.exhausted then (turn g origin owner (w, queue)).1
      else advance g origin fuel (turn g origin owner (w, queue)).1 (turn g origin owner (w, queue)).2 := rfl

/-- What every turn keeps, all turns keep; and when they end with room left, nothing waits. -/
theorem advance_invariant {I : Walk → List Waiting → Prop}
    (hturn : ∀ w owner queue, I w (owner :: queue) →
      I (turn g origin owner (w, queue)).1 (turn g origin owner (w, queue)).2)
    {fuel : Nat} (h : I w queue) (hload : load g w queue ≤ fuel) :
    ∃ rest, I (advance g origin fuel w queue) rest ∧
      ((advance g origin fuel w queue).exhausted = false → rest = []) := by
  -- Each turn spends one of the load, so that the fuel suffices for all of them.
  induction fuel generalizing w queue with
  | zero =>
    have hnone : queue = [] := by
      unfold load at hload
      exact List.eq_nil_of_length_eq_zero (by omega)
    exact ⟨queue, h, fun _ => hnone⟩
  | succ fuel ih =>
    cases queue with
    | nil => exact ⟨[], h, fun _ => rfl⟩
    | cons owner queue =>
      rw [advance_cons]
      have hnext := hturn w owner queue h
      split
      -- Out of room: the queue is given up as it is.
      next hfull =>
        refine ⟨_, hnext, ?_⟩
        intro hroom
        rw [hfull] at hroom
        cases hroom
      next =>
        refine ih hnext ?_
        have hle : load g _ _ ≤ load g w queue := load_turn_le g origin owner (w, queue)
        have hpop : load g w (owner :: queue) = load g w queue + 1 := by
          unfold load
          simp only [List.length_cons]
          omega
        omega

theorem fromModule_of_mem {m : ObjectId} (h : m ∈ w.seen) : w.fromModule g name m = w :=
  if_pos (by simpa using h)

/-- What all turns of the walk from a module keep, for a module that was not met before. -/
theorem fromModule_invariant {I : Walk → List Waiting → Prop} {m : ObjectId} (hnew : m ∉ w.seen)
    (h : I (w.meet m) [⟨m, name, 0⟩])
    (hturn : ∀ w owner queue, I w (owner :: queue) →
      I (turn g name owner (w, queue)).1 (turn g name owner (w, queue)).2) :
    ∃ rest, I (w.fromModule g name m) rest ∧ ((w.fromModule g name m).exhausted = false → rest = []) := by
  unfold fromModule
  rw [if_neg (by simpa using hnew)]
  refine advance_invariant hturn h ?_
  unfold load
  simp only [seen_meet, List.length_cons, List.length_nil]
  omega

/-- What meeting the module and every visit keep, whatever waits, the walk from the module keeps. -/
theorem fromModule_keeps {P : Walk → Prop} {m : ObjectId} (h : P w) (hmeet : m ∉ w.seen → P (w.meet m))
    (hvisit : ∀ owner w queue key id state, g.HasAttribute owner.id key id → P w →
      Visit g name owner w queue key id state → P state.1) : P (w.fromModule g name m) := by
  by_cases hold : m ∈ w.seen
  · rw [fromModule_of_mem hold]
    exact h
  · have hturn : ∀ w owner queue, P w → P (turn g name owner (w, queue)).1 := by
      intro w owner queue hw
      refine turn_invariant (I := fun _ state => P state.1) hw ?_
      intro past w queue key id hkey hw state hstate
      exact hvisit owner w queue key id state hkey hw hstate
    rcases fromModule_invariant (I := fun w _ => P w) hold (hmeet hold) hturn with ⟨_, hend, _⟩
    exact hend

end Walk

/-! ## Entry modules -/

variable {g : Ground} {e : Entries} {name : String}

/-- Walking from one more module passes it over, or it is an entry module and is walked from. -/
theorem enter_cases (g : Ground) (e : Entries) (name : String) :
    ((enter g e name).walk = e.walk ∧ (enter g e name).paths = e.paths ∧
      (e.walk.exhausted = true ∨ ∀ m path, ¬ g.Entry name m path)) ∨
    ∃ m path, e.walk.exhausted = false ∧ g.Entry name m path ∧
      (enter g e name).paths = e.paths.insert name path ∧
      (enter g e name).walk = e.walk.fromModule g name m := by
  unfold enter
  dsimp only
  split
  next hfull => exact .inl ⟨rfl, rfl, .inl hfull⟩
  next hroom =>
    have hroom : e.walk.exhausted = false := by simpa using hroom
    split
    -- The module cannot be imported.
    next err himport =>
      refine .inl ⟨rfl, rfl, .inr ?_⟩
      intro m path hentry
      rw [hentry.imported] at himport
      cases himport
    next m himport =>
      split
      -- The module lies outside of the package.
      next hnone =>
        refine .inl ⟨rfl, rfl, .inr ?_⟩
        intro m' path hentry
        obtain rfl := Except.ok.inj (himport.symm.trans hentry.imported)
        rcases hentry.below with ⟨file, hshape, hbelow⟩
        simp [hshape, Ground.modulePath?, hbelow] at hnone
      next path hsome =>
        refine .inr ⟨m, path, hroom, ⟨himport, ?_⟩, rfl, rfl⟩
        split at hsome
        next shape hshape =>
          unfold Ground.modulePath? at hsome
          split at hsome
          next file => exact ⟨file, hshape, hsome⟩
          next => cases hsome
        next => cases hsome

/-- What walking from one more entry module keeps, walking from all of them keeps. -/
theorem foldl_enter_invariant {I : Entries → Prop} {names : List String} (h : I e)
    (hskip : ∀ e e', e'.walk = e.walk → e'.paths = e.paths → I e → I e')
    (hwalk : ∀ e name m path e', name ∈ names → g.Entry name m path → e'.paths = e.paths.insert name path →
      e'.walk = e.walk.fromModule g name m → I e → I e') :
    I (names.foldl (enter g) e) := by
  induction names generalizing e with
  | nil => exact h
  | cons name names ih =>
    have hnext : I (enter g e name) := by
      rcases enter_cases g e name with ⟨hsame, hpaths, _⟩ | ⟨m, path, _, hentry, hpaths, hfrom⟩
      · exact hskip e _ hsame hpaths h
      · exact hwalk e name m path _ List.mem_cons_self hentry hpaths hfrom h
    apply ih hnext
    intro e name m path e' hname
    exact hwalk e name m path e' (List.mem_cons_of_mem _ hname)

/-- What the walk from any module keeps, walking from all of them keeps. -/
theorem foldl_enter_keeps {P : Walk → Prop} {names : List String} (h : P e.walk)
    (hfrom : ∀ w name m path, g.Entry name m path → P w → P (w.fromModule g name m)) :
    P (names.foldl (enter g) e).walk := by
  refine foldl_enter_invariant (I := fun e => P e.walk) h ?_ ?_
  · intro e e' hsame _ hkept
    rw [hsame]
    exact hkept
  · intro e name m path e' _ hentry _ hwalk hkept
    rw [hwalk]
    exact hfrom e.walk name m path hentry hkept

end Scan
end Bridgework
