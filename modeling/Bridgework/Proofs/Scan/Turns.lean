import Bridgework.Proofs.Scan.Walk

/-!
# The turns of a scan

What a scan did, turn by turn. The turns of a walk are listed as the walk goes, each with the walk at its
beginning; a walk is a loop over those who wait, and it ends after a bounded number of turns.

- `Scan.Turn` : one turn, `Scan.Turn.examined` : the objects that are examined in it
- `Scan.Walk.turns`, `Scan.turns` : the turns of a walk and of a scan, in their order
- `Scan.Walk.Loop`, `Scan.Walk.loop_fromModule` : the loop without fuel, and that every walk is one
- `Scan.turns_invariant` : what every turn keeps, as the turns become more, a scan keeps
- `Scan.pairwise_depth_turns` : in the walk from one module depths increase
-/

namespace Bridgework
namespace Scan

/-- The turn of an object in the walk from a module. -/
structure Turn where
  /-- The walk when the turn begins. -/
  before : Walk
  /-- The module that is walked from. -/
  origin : String
  owner : Waiting

namespace Walk

variable {g : Ground} {origin name : String} {owner : Waiting} {w w' : Walk} {queue : List Waiting}
  {m : ObjectId} {fuel : Nat}

/-! ## Those who wait -/

/-- A visit does not look at those who wait, and only adds to them. -/
theorem visit_eq (g : Ground) (origin : String) (owner : Waiting) (w : Walk) (queue : List Waiting)
    (member : String × ObjectId) :
    visit g origin owner (w, queue) member =
      ((visit g origin owner (w, []) member).1, queue ++ (visit g origin owner (w, []) member).2) := by
  -- In every case the queue stays in front.
  simp only [visit]
  split
  next => rw [List.append_nil]
  next =>
    split
    next => rw [List.append_nil]
    next =>
      split
      next => rw [List.append_nil]
      next =>
        split
        next => rw [List.append_nil]
        next =>
          split
          next => rw [List.append_nil]
          next => rfl

/-- The rest of the queue does not matter for a turn. -/
theorem turn_eq (g : Ground) (origin : String) (owner : Waiting) (w : Walk) (queue : List Waiting) :
    turn g origin owner (w, queue) =
      ((turn g origin owner (w, [])).1, queue ++ (turn g origin owner (w, [])).2) := by
  unfold turn
  generalize attributesOf g owner.id = members
  induction members generalizing w queue with
  | nil => simp
  | cons member members ih =>
    -- The first visit adds to those who wait, and the others add to what it has left.
    let first := visit g origin owner (w, []) member
    let rest := members.foldl (visit g origin owner) (first.1, [])
    calc
      members.foldl (visit g origin owner) (visit g origin owner (w, queue) member)
        = members.foldl (visit g origin owner) (first.1, queue ++ first.2) := by rw [visit_eq]
      _ = (rest.1, queue ++ first.2 ++ rest.2) := ih first.1 (queue ++ first.2)
      _ = (rest.1, queue ++ (first.2 ++ rest.2)) := by rw [List.append_assoc]
      _ = ((members.foldl (visit g origin owner) first).1,
            queue ++ (members.foldl (visit g origin owner) first).2) := by
          rw [show members.foldl (visit g origin owner) first = (rest.1, first.2 ++ rest.2) from
            ih first.1 first.2]

/-! ## The turns of a walk -/

/-- The turns that `advance` takes. -/
def turns (g : Ground) (origin : String) : Nat → Walk → List Waiting → List Turn
  | 0, _, _ => []
  | _ + 1, _, [] => []
  | fuel + 1, w, owner :: queue =>
    let (after, queue) := turn g origin owner (w, queue)
    ⟨w, origin, owner⟩ :: if after.exhausted then [] else turns g origin fuel after queue

/-- The turns of the walk from a module, unless it was met before. -/
def turnsFrom (g : Ground) (name : String) (m : ObjectId) (w : Walk) : List Turn :=
  if w.seen.contains m then [] else turns g name (g.settings.maxObjects + 1) (w.meet m) [⟨m, name, 0⟩]

theorem turns_cons (fuel : Nat) :
    turns g origin (fuel + 1) w (owner :: queue) =
      ⟨w, origin, owner⟩ :: if (turn g origin owner (w, queue)).1.exhausted then []
        else turns g origin fuel (turn g origin owner (w, queue)).1 (turn g origin owner (w, queue)).2 := rfl

theorem length_turns_le (g : Ground) (origin : String) (fuel : Nat) (w : Walk) (queue : List Waiting) :
    (turns g origin fuel w queue).length ≤ fuel := by
  induction fuel generalizing w queue with
  | zero => exact Nat.le_refl 0
  | succ fuel ih =>
    cases queue with
    | nil => exact Nat.zero_le _
    | cons owner queue =>
      rw [turns_cons, List.length_cons]
      split
      next => exact Nat.succ_le_succ (Nat.zero_le fuel)
      next => exact Nat.succ_le_succ (ih _ _)

/-- The loop of a walk: the first of those who wait has its turn, until nobody waits or there is no more room.
The list has the turns that were taken. -/
inductive Loop (g : Ground) (origin : String) : Walk → List Waiting → List Turn → Walk → Prop where
  | done (w : Walk) : Loop g origin w [] [] w
  | full {w : Walk} {owner : Waiting} {queue : List Waiting}
      (hfull : (turn g origin owner (w, queue)).1.exhausted = true) :
      Loop g origin w (owner :: queue) [⟨w, origin, owner⟩] (turn g origin owner (w, queue)).1
  | next {w w' : Walk} {owner : Waiting} {queue : List Waiting} {log : List Turn}
      (hroom : (turn g origin owner (w, queue)).1.exhausted = false)
      (rest : Loop g origin (turn g origin owner (w, queue)).1 (turn g origin owner (w, queue)).2 log w') :
      Loop g origin w (owner :: queue) (⟨w, origin, owner⟩ :: log) w'

/-- With as much fuel as there can be turns, what is taken for the loop is the loop. -/
theorem loop_advance (hload : load g w queue ≤ fuel) :
    Loop g origin w queue (turns g origin fuel w queue) (advance g origin fuel w queue) := by
  -- The fuel counts the turns that there can be, so that it lasts until the queue is empty.
  induction fuel generalizing w queue with
  | zero =>
    have hnone : queue = [] := by
      unfold load at hload
      exact List.eq_nil_of_length_eq_zero (by omega)
    subst hnone
    exact .done w
  | succ fuel ih =>
    cases queue with
    | nil => exact .done w
    | cons owner queue =>
      have hle : load g _ _ ≤ load g w queue := load_turn_le g origin owner (w, queue)
      have hpop : load g w (owner :: queue) = load g w queue + 1 := by
        unfold load
        simp only [List.length_cons]
        omega
      rw [turns_cons, advance_cons]
      cases hfull : (turn g origin owner (w, queue)).1.exhausted with
      | true => exact .full hfull
      | false => exact .next hfull (ih (by omega))

/-- The walk from a module is a loop of turns. -/
theorem loop_fromModule (hnew : m ∉ w.seen) :
    Loop g name (w.meet m) [⟨m, name, 0⟩] (w.turnsFrom g name m) (w.fromModule g name m) := by
  unfold turnsFrom fromModule
  rw [if_neg (by simpa using hnew), if_neg (by simpa using hnew)]
  apply loop_advance
  unfold load
  simp only [seen_meet, List.length_cons, List.length_nil]
  omega

/-- In a walk there are at most as many turns as objects that there is room for, and that of the module. -/
theorem length_turnsFrom_le (g : Ground) (name : String) (m : ObjectId) (w : Walk) :
    (w.turnsFrom g name m).length ≤ g.settings.maxObjects + 1 := by
  unfold turnsFrom
  split
  next => exact Nat.zero_le _
  next => exact length_turns_le _ _ _ _ _

/-- What every turn keeps, as the turns become more, a loop keeps. -/
theorem Loop.invariant {I : List Turn → Walk → Prop} {log past : List Turn} (h : Loop g origin w queue log w')
    (hstart : I past w)
    (hturn : ∀ past w owner, I past w → I (past ++ [⟨w, origin, owner⟩]) (turn g origin owner (w, [])).1) :
    I (past ++ log) w' := by
  induction h generalizing past with
  | done w => simpa using hstart
  | @full w owner queue _ =>
    have hnext := hturn past w owner hstart
    rw [turn_eq]
    exact hnext
  | @next w w' owner queue log _ _ ih =>
    have hnext := hturn past w owner hstart
    rw [turn_eq] at ih
    have hrest := ih hnext
    simpa using hrest

/-! ## Depths -/

/-- What comes to wait in a turn lies one step deeper. -/
theorem depth_turn (g : Ground) (origin : String) (owner : Waiting) (w : Walk) :
    ∀ o ∈ (turn g origin owner (w, [])).2, o.depth = owner.depth + 1 := by
  refine turn_invariant (I := fun _ state => ∀ o ∈ state.2, o.depth = owner.depth + 1) ?_ ?_
  · intro o ho
    cases ho
  · intro past w queue key id _ hqueue state hvisit
    cases hvisit with
    | halted _ => exact hqueue
    | passed _ _ => exact hqueue
    | full _ _ _ => exact hqueue
    | unknown _ _ _ _ => exact hqueue
    | outside _ _ => exact hqueue
    | fresh _ _ _ _ _ =>
      intro o ho
      rcases List.mem_append.1 ho with ho | ho
      · exact hqueue o ho
      · rw [List.mem_singleton.1 ho]

/-- Depths increase among those who wait, by one step at most. -/
structure Layered (queue : List Waiting) : Prop where
  sorted : queue.Pairwise fun a b => a.depth ≤ b.depth
  span : ∀ a ∈ queue, ∀ b ∈ queue, b.depth ≤ a.depth + 1

theorem layered_singleton (owner : Waiting) : Layered [owner] where
  sorted := List.pairwise_singleton _ owner
  span a ha b hb := by
    rw [List.mem_singleton.1 ha, List.mem_singleton.1 hb]
    exact Nat.le_succ _

/-- Those who wait after a turn lie as deep as the one who had it, or one step deeper. -/
theorem Layered.depth_turn_mem (h : Layered (owner :: queue)) (g : Ground) (origin : String) (w : Walk) :
    ∀ a ∈ queue ++ (turn g origin owner (w, [])).2, owner.depth ≤ a.depth ∧ a.depth ≤ owner.depth + 1 := by
  intro a ha
  rcases List.mem_append.1 ha with ha | ha
  · exact ⟨(List.pairwise_cons.1 h.sorted).1 a ha, h.span owner List.mem_cons_self a (List.mem_cons_of_mem _ ha)⟩
  · have hdeeper : a.depth = owner.depth + 1 := depth_turn g origin owner w a ha
    omega

/-- Objects that come to wait in a turn lie one step deeper than the one whose turn it is. -/
theorem Layered.turn (h : Layered (owner :: queue)) : Layered (queue ++ (turn g origin owner (w, [])).2) where
  sorted := by
    have hnew := depth_turn g origin owner w
    refine List.pairwise_append.2 ⟨(List.pairwise_cons.1 h.sorted).2, ?_, ?_⟩
    · apply List.pairwise_of_forall_mem_list
      intro a ha b hb
      exact Nat.le_of_eq ((hnew a ha).trans (hnew b hb).symm)
    · intro a ha b hb
      calc
        a.depth ≤ owner.depth + 1 := (h.depth_turn_mem g origin w a (List.mem_append_left _ ha)).2
        _ = b.depth := (hnew b hb).symm
  span a ha b hb :=
    Nat.le_trans (h.depth_turn_mem g origin w b hb).2 (Nat.succ_le_succ (h.depth_turn_mem g origin w a ha).1)

/-- From turn to turn depths increase, from the least of those who wait on. -/
theorem Loop.pairwise_depth {log : List Turn} (h : Loop g origin w queue log w') (hqueue : Layered queue) :
    (log.Pairwise fun t t' => t.owner.depth ≤ t'.owner.depth) ∧
      ∀ d, (∀ a ∈ queue, d ≤ a.depth) → ∀ t ∈ log, d ≤ t.owner.depth := by
  induction h with
  | done w => exact ⟨List.Pairwise.nil, fun _ _ _ ht => by cases ht⟩
  | @full w owner queue _ =>
    refine ⟨List.pairwise_singleton _ _, ?_⟩
    intro d hd t ht
    rw [List.mem_singleton.1 ht]
    exact hd owner List.mem_cons_self
  | @next w w' owner queue log _ _ ih =>
    rw [turn_eq] at ih
    obtain ⟨hlog, hbound⟩ := ih hqueue.turn
    -- Whoever waits lies at the level of the owner, or one below it.
    have hlater : ∀ t ∈ log, owner.depth ≤ t.owner.depth :=
      hbound owner.depth fun a ha => (hqueue.depth_turn_mem g origin w a ha).1
    refine ⟨List.pairwise_cons.2 ⟨hlater, hlog⟩, ?_⟩
    intro d hd t ht
    rcases List.mem_cons.1 ht with rfl | ht
    · exact hd owner List.mem_cons_self
    · exact Nat.le_trans (hd owner List.mem_cons_self) (hlater t ht)

end Walk

/-! ## The turns of a scan -/

variable {g : Ground} {name : String}

/-- The module of a name, if it can be imported and lies below the root. -/
def Ground.entryModule? (g : Ground) (name : String) : Option ObjectId :=
  match g.model.importModule name with
  | .error _ => none
  | .ok m =>
    match g.model.shape m with
    | .error _ => none
    | .ok shape => (g.modulePath? shape).map fun _ => m

/-- The turns in the walks from the modules of some names, one after another. -/
def turnsAll (g : Ground) : Walk → List String → List Turn
  | _, [] => []
  | w, name :: names =>
    if w.exhausted then []
    else
      match g.entryModule? name with
      | none => turnsAll g w names
      | some m => w.turnsFrom g name m ++ turnsAll g (w.fromModule g name m) names

/-- The turns in the walks from all entry modules, in their order. -/
def turns (g : Ground) (entries : List String) : List Turn :=
  turnsAll g .start (SortedSet.ofList entries).toList

/-- The objects that are examined in a turn: they come to wait for turns of their own. -/
def Turn.examined (g : Ground) (t : Turn) : List ObjectId :=
  (Walk.turn g t.origin t.owner (t.before, [])).2.map (·.id)

/-- The module of a name is an entry module. -/
theorem entryModule?_eq_some_iff {m : ObjectId} : g.entryModule? name = some m ↔ ∃ path, g.Entry name m path := by
  unfold Ground.entryModule?
  constructor
  · intro h
    split at h
    next => cases h
    next m' himport =>
      split at h
      next => cases h
      next shape hshape =>
        rcases Option.map_eq_some_iff.1 h with ⟨path, hpath, rfl⟩
        refine ⟨path, himport, ?_⟩
        unfold Ground.modulePath? at hpath
        split at hpath
        next file => exact ⟨file, hshape, hpath⟩
        next => cases hpath
  · rintro ⟨path, himport, file, hshape, hbelow⟩
    simp [himport, hshape, Ground.modulePath?, hbelow]

/-- A walk that is out of room takes no more turns. -/
theorem turnsAll_of_exhausted {w : Walk} (hfull : w.exhausted = true) (names : List String) :
    turnsAll g w names = [] := by
  cases names with
  | nil => rfl
  | cons name names => exact if_pos hfull

/-- What every meeting and every turn preserves is preserved by the whole scan. -/
theorem turnsAll_invariant {I : List Turn → Walk → Prop} {names : List String} {e : Entries} {past : List Turn}
    (h : I past e.walk)
    (hmeet : ∀ past w m name path, g.Entry name m path → m ∉ w.seen → I past w → I past (w.meet m))
    (hturn : ∀ past w origin owner, I past w →
      I (past ++ [⟨w, origin, owner⟩]) (Walk.turn g origin owner (w, [])).1) :
    I (past ++ turnsAll g e.walk names) (names.foldl (enter g) e).walk := by
  induction names generalizing e past with
  | nil => simpa [turnsAll] using h
  | cons name names ih =>
    rw [List.foldl_cons]
    rcases enter_cases g e name with ⟨hsame, _, hskip⟩ | ⟨m, path, hroom, hentry, _, hwalk⟩
    · -- Nothing happens, and the turns are those of the other names, if there is room for any.
      have hrest : turnsAll g e.walk (name :: names) = turnsAll g (enter g e name).walk names := by
        rw [hsame]
        rcases hskip with hfull | hnone
        · rw [turnsAll_of_exhausted hfull, turnsAll_of_exhausted hfull]
        · have hmodule : g.entryModule? name = none := by
            rw [Option.eq_none_iff_forall_ne_some]
            intro m hm
            rcases entryModule?_eq_some_iff.1 hm with ⟨path, hentry⟩
            exact hnone m path hentry
          rw [turnsAll, hmodule]
          split
          next hfull => rw [turnsAll_of_exhausted hfull]
          next => rfl
      rw [hrest]
      exact ih (hsame ▸ h)
    · have hrest : turnsAll g e.walk (name :: names) =
          e.walk.turnsFrom g name m ++ turnsAll g (enter g e name).walk names := by
        rw [hwalk, turnsAll, entryModule?_eq_some_iff.2 ⟨path, hentry⟩, hroom]
        rfl
      have hnext : I (past ++ e.walk.turnsFrom g name m) (enter g e name).walk := by
        rw [hwalk]
        by_cases hold : m ∈ e.walk.seen
        · rw [Walk.fromModule_of_mem hold, Walk.turnsFrom, if_pos (by simpa using hold), List.append_nil]
          exact h
        · exact (Walk.loop_fromModule hold).invariant (hmeet past e.walk m name path hentry hold h)
            fun past w owner => hturn past w name owner
      rw [hrest, ← List.append_assoc]
      exact ih hnext

/-- What meeting a module and every turn keep, as the turns become more, a scan keeps. -/
theorem turns_invariant {I : List Turn → Walk → Prop} (entries : List String) (hstart : I [] .start)
    (hmeet : ∀ past w m name path, g.Entry name m path → m ∉ w.seen → I past w → I past (w.meet m))
    (hturn : ∀ past w origin owner, I past w →
      I (past ++ [⟨w, origin, owner⟩]) (Walk.turn g origin owner (w, [])).1) :
    I (turns g entries) (enterAll g entries).walk := by
  have hscan : I ([] ++ turnsAll g Walk.start (SortedSet.ofList entries).toList) (enterAll g entries).walk :=
    turnsAll_invariant (e := ⟨.start, .empty, []⟩) hstart hmeet hturn
  exact hscan

/-- In the walk from a single module depths increase from turn to turn. -/
theorem pairwise_depth_turns {entries : List String} (hone : ∀ a ∈ entries, ∀ b ∈ entries, a = b) :
    (turns g entries).Pairwise fun t t' => t.owner.depth ≤ t'.owner.depth := by
  have hnames : ∀ a ∈ (SortedSet.ofList entries).toList, ∀ b ∈ (SortedSet.ofList entries).toList, a = b :=
    fun a ha b hb => hone a (SortedSet.mem_ofList.1 ha) b (SortedSet.mem_ofList.1 hb)
  have hincreasing := (SortedSet.ofList entries).increasing
  unfold turns
  cases hlist : (SortedSet.ofList entries).toList with
  | nil => exact List.Pairwise.nil
  | cons name names =>
    rw [hlist] at hnames hincreasing
    -- Names that are all the same are one name.
    have hnone : names = [] := by
      rw [List.eq_nil_iff_forall_not_mem]
      intro b hb
      have hlt : compare name b = .lt := (List.pairwise_cons.1 hincreasing).1 b hb
      exact SortedSet.ne_of_lt hlt (hnames name List.mem_cons_self b (List.mem_cons_of_mem _ hb))
    subst hnone
    simp only [turnsAll]
    split
    next => exact List.Pairwise.nil
    next =>
      split
      next => exact List.Pairwise.nil
      -- What remains is a single walk, which goes level by level.
      next m _ =>
        rw [List.append_nil]
        have hloop : Walk.Loop g name (Walk.start.meet m) [⟨m, name, 0⟩] _ _ :=
          Walk.loop_fromModule List.not_mem_nil
        exact (hloop.pairwise_depth (Walk.layered_singleton ⟨m, name, 0⟩)).1

end Scan
end Bridgework
