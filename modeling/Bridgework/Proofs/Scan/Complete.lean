import Bridgework.Proofs.Collection.Increasing
import Bridgework.Proofs.Scan.Sound

/-!
# What a scan does not miss

Walks from several modules share what they have met, and depth is counted from the module that met an object
first. So an object within the depth bound of a module is met if the objects on the way to it were not met
before from modules that come first; and what is met and enters native code is found. Whatever is mentioned
takes room, known or not.

- `Scan.Walk.Confined` : there is room as long as not too many objects are mentioned
- `Scan.Walk.Recorded` : what is met and enters native code is found
- `Scan.Walk.Wave` : breadth first, with what is owed to the objects that wait
- `Scan.Walk.mem_seen_fromModule` : what a walk from one module meets
- `Scan.bridges_complete` : the bridges that a report has
- `Scan.bridges_incomplete` : those that it can miss
-/

namespace Bridgework

/-- The objects that a snapshot records, and those that it only refers to as attributes. -/
def Snapshot.mentioned (s : Snapshot) : SortedSet ObjectId :=
  .ofList (s.objects.keys ++ s.objects.values.flatMap fun o => o.attributes.values)

namespace Scan
namespace Walk

variable {g : Ground} {origin name key : String} {owner : Waiting} {w : Walk} {queue : List Waiting}
  {id m : ObjectId} {state : Walk × List Waiting}

/-! ## What was met stays met -/

/-- A visit forgets nothing that was met. -/
theorem Visit.subset (h : Visit g origin owner w queue key id state) : w.seen ⊆ state.1.seen := by
  cases h with
  | halted _ => exact List.Subset.refl _
  | passed _ _ => exact List.Subset.refl _
  | full _ _ _ => exact List.Subset.refl _
  | unknown _ _ _ _ => exact List.subset_cons_self _ _
  | outside _ _ => exact List.Subset.refl _
  | fresh _ _ _ _ _ => exact List.subset_cons_self _ _

theorem subset_fromModule (g : Ground) (name : String) (m : ObjectId) (w : Walk) :
    w.seen ⊆ (w.fromModule g name m).seen := by
  refine fromModule_keeps (P := fun w' => w.seen ⊆ w'.seen) (List.Subset.refl _) ?_ ?_
  · intro _
    exact List.subset_cons_self _ _
  · intro owner w' queue key id state _ hsub hvisit
    exact List.Subset.trans hsub hvisit.subset

/-! ## Room -/

/-- Only the given objects were met, each once, and there was room for them. -/
structure Confined (ids : List ObjectId) (w : Walk) : Prop where
  room : w.exhausted = false
  nodup : w.seen.Nodup
  subset : w.seen ⊆ ids

theorem Confined.start (ids : List ObjectId) : Walk.start.Confined ids :=
  ⟨rfl, List.nodup_nil, List.nil_subset _⟩

theorem Confined.meet {ids : List ObjectId} (h : w.Confined ids) (hnew : id ∉ w.seen) (hid : id ∈ ids) :
    (w.meet id).Confined ids :=
  ⟨h.room, List.nodup_cons.2 ⟨hnew, h.nodup⟩, List.cons_subset.2 ⟨hid, h.subset⟩⟩

/-- A visit meets objects of the snapshot only, for which there is room. -/
theorem Confined.visit {ids : List ObjectId} (h : w.Confined ids) (hid : id ∈ ids)
    (hroom : ids.length ≤ g.settings.maxObjects) (hvisit : Visit g origin owner w queue key id state) :
    state.1.Confined ids := by
  cases hvisit with
  | halted hw =>
    rw [h.room] at hw
    cases hw
  | passed _ _ => exact ⟨h.room, h.nodup, h.subset⟩
  | full _ hnew hfull =>
    -- One more object that was not met, and yet no more objects than there is room for.
    have hlength : (id :: w.seen).length ≤ ids.length :=
      (h.meet hnew hid).nodup.length_le_of_subset (h.meet hnew hid).subset
    simp only [List.length_cons] at hlength
    omega
  | unknown _ hnew _ _ => exact ⟨h.room, (h.meet hnew hid).nodup, (h.meet hnew hid).subset⟩
  | outside _ _ => exact ⟨h.room, h.nodup, h.subset⟩
  | fresh _ _ hnew _ _ => exact ⟨h.room, (h.meet hnew hid).nodup, (h.meet hnew hid).subset⟩

/-! ## What is met and enters native code is found -/

/-- What was met and enters native code was found. -/
def Recorded (g : Ground) (w : Walk) : Prop :=
  ∀ x ∈ w.seen, ∀ e, g.native? x = some e → ∃ p ∈ w.found, p.1 = x ∧ p.2.entry = e

theorem Recorded.offer {text : String} (h : w.Recorded g) : (w.offer id text).Recorded g := by
  intro x hx e he
  rcases h x hx e he with ⟨q, hq, hid, hentry⟩
  obtain ⟨p, hp, hid', hentry'⟩ : ∃ p ∈ (w.offer id text).found, p.1 = q.1 ∧ p.2.entry = q.2.entry :=
    exists_mem_found_offer hq
  exact ⟨p, hp, hid'.trans hid, hentry'.trans hentry⟩

/-- Meeting an object that does not enter native code leaves nothing to record. -/
theorem Recorded.meet (h : w.Recorded g) (hid : g.native? id = none) :
    (w.meet id).Recorded g := by
  intro x hx e he
  rcases List.mem_cons.1 hx with rfl | hx
  · rw [hid] at he
    cases he
  · exact h x hx e he

/-- A visit finds what it meets, if that enters native code. -/
theorem Recorded.visit (h : w.Recorded g) (hvisit : Visit g origin owner w queue key id state) :
    state.1.Recorded g := by
  cases hvisit with
  | halted _ => exact h
  | passed _ _ => exact h.offer
  | full _ _ _ => exact h.offer
  | @unknown _ _ _ err hshape =>
    -- An object without a shape enters no native code, so that nothing is lost by not recording it.
    refine h.offer.meet ?_
    match hentry : g.native? id with
    | none => rfl
    | some e =>
      rcases Ground.exists_shape_of_native hentry with ⟨shape, hshape', _⟩
      rw [hshape] at hshape'
      cases hshape'
  | outside _ _ => exact h.offer
  | fresh _ _ _ _ _ =>
    intro x hx e he
    -- The object is met just now, and found if it enters native code.
    rcases List.mem_cons.1 hx with rfl | hx
    · exact ⟨_, mem_found_examine.2 (.inr ⟨e, he, rfl⟩), rfl, rfl⟩
    · rcases h.offer x hx e he with ⟨p, hp, hid, hentry⟩
      exact ⟨p, mem_found_examine.2 (.inl hp), hid, hentry⟩

/-- A walk from a module finds what it meets, if that enters native code. -/
theorem Recorded.fromModule {path : String} (h : w.Recorded g) (hentry : g.Entry name m path) :
    (w.fromModule g name m).Recorded g := by
  refine fromModule_keeps (P := fun w => w.Recorded g) h ?_ ?_
  · intro _
    exact h.meet hentry.native?_eq_none
  · intro owner w queue key id state _ h hvisit
    exact h.visit hvisit

/-! ## Breadth first -/

/-- The object was met before the walk, or by it within the depth. -/
def Reached (old : List ObjectId) (met : List Waiting) (x : ObjectId) (depth : Nat) : Prop :=
  x ∈ old ∨ ∃ o ∈ met, o.id = x ∧ o.depth ≤ depth

/-- Whatever the object refers to was reached one step deeper, unless it lies too deep. -/
def Served (g : Ground) (old : List ObjectId) (met : List Waiting) (o : Waiting) : Prop :=
  ∀ key y, g.HasAttribute o.id key y → g.Allows y → o.depth < g.settings.maxDepth →
    Reached old met y (o.depth + 1)

theorem Reached.mono {old : List ObjectId} {met met' : List Waiting} {x : ObjectId} {depth : Nat}
    (h : Reached old met x depth) (hsub : met ⊆ met') : Reached old met' x depth := by
  rcases h with h | ⟨o, ho, hx, hdepth⟩
  · exact .inl h
  · exact .inr ⟨o, hsub ho, hx, hdepth⟩

/-- The state of a walk from a module: everything met was met before or has waited, what no longer waits has
been served, and depths differ by at most one from those that wait, in whose order they increase. -/
structure Wave (g : Ground) (old : List ObjectId) (m : ObjectId) (met : List Waiting) (seen : List ObjectId)
    (queue : List Waiting) : Prop where
  seen_cases : ∀ x ∈ seen, g.Allows x → x ∈ old ∨ ∃ o ∈ met, o.id = x
  old_seen : old ⊆ seen
  met_seen : ∀ o ∈ met, o.id ∈ seen
  start : ∃ o ∈ met, o.id = m ∧ o.depth = 0
  waiting : queue ⊆ met
  served : ∀ o ∈ met, o ∈ queue ∨ Served g old met o
  ordered : queue.Pairwise fun a b => a.depth ≤ b.depth
  level : ∀ o ∈ met, ∀ o' ∈ queue, o.depth ≤ o'.depth + 1

variable {old seen : List ObjectId} {met : List Waiting}

/-- At the beginning only the module waits. -/
theorem Wave.begin (g : Ground) (old : List ObjectId) (m : ObjectId) (name : String) :
    Wave g old m [⟨m, name, 0⟩] (m :: old) [⟨m, name, 0⟩] where
  seen_cases := by
    intro x hx _
    rcases List.mem_cons.1 hx with rfl | hx
    · exact .inr ⟨_, List.mem_singleton_self _, rfl⟩
    · exact .inl hx
  old_seen := List.subset_cons_self _ _
  met_seen := by
    intro o ho
    obtain rfl := List.mem_singleton.1 ho
    exact List.mem_cons_self
  start := ⟨_, List.mem_singleton_self _, rfl, rfl⟩
  waiting := List.Subset.refl _
  served := fun o ho => .inl ho
  ordered := List.pairwise_singleton _ _
  level := by
    intro o ho o' ho'
    obtain rfl := List.mem_singleton.1 ho
    obtain rfl := List.mem_singleton.1 ho'
    exact Nat.le_succ _

/-- What an object refers to and was met already was reached in time, since depths increase in the order in
which objects wait. -/
theorem Wave.reached_of_seen (h : Wave g old m met seen (owner :: queue)) {x : ObjectId} (hx : x ∈ seen)
    (hallows : g.Allows x) : Reached old met x (owner.depth + 1) := by
  rcases h.seen_cases x hx hallows with hx | ⟨o, ho, hx⟩
  · exact .inl hx
  · exact .inr ⟨o, ho, hx, h.level o ho owner List.mem_cons_self⟩

/-- An object that is not known, or lies outside, changes nothing of the wave. -/
theorem Wave.unknown (h : Wave g old m met seen queue) (hid : ¬ g.Allows id) :
    Wave g old m met (id :: seen) queue where
  seen_cases := by
    intro x hx hallows
    rcases List.mem_cons.1 hx with rfl | hx
    · exact absurd hallows hid
    · exact h.seen_cases x hx hallows
  old_seen := List.Subset.trans h.old_seen (List.subset_cons_self _ _)
  met_seen := fun o ho => List.mem_cons_of_mem _ (h.met_seen o ho)
  start := h.start
  waiting := h.waiting
  served := h.served
  ordered := h.ordered
  level := h.level

/-- An object that is met while another one has its turn comes to wait behind all others. -/
theorem Wave.fresh {text : String} (h : Wave g old m met seen (owner :: queue)) :
    Wave g old m (met ++ [⟨id, text, owner.depth + 1⟩]) (id :: seen)
      (owner :: (queue ++ [⟨id, text, owner.depth + 1⟩])) := by
  -- The wave is two levels deep at most: the one whose turn it is and the next.
  have hlow : ∀ o ∈ met, o.depth ≤ owner.depth + 1 := fun o ho => h.level o ho owner List.mem_cons_self
  have hhigh : ∀ o ∈ owner :: queue, owner.depth ≤ o.depth := by
    intro o ho
    rcases List.mem_cons.1 ho with rfl | ho
    · exact Nat.le_refl _
    · exact (List.pairwise_cons.1 h.ordered).1 o ho
  have hmore : met ⊆ met ++ [⟨id, text, owner.depth + 1⟩] := List.subset_append_left _ _
  constructor
  · intro x hx hallows
    rcases List.mem_cons.1 hx with rfl | hx
    · exact .inr ⟨_, List.mem_append_right _ (List.mem_singleton_self _), rfl⟩
    · rcases h.seen_cases x hx hallows with hx | ⟨o, ho, hx⟩
      · exact .inl hx
      · exact .inr ⟨o, hmore ho, hx⟩
  · exact List.Subset.trans h.old_seen (List.subset_cons_self _ _)
  · intro o ho
    rcases List.mem_append.1 ho with ho | ho
    · exact List.mem_cons_of_mem _ (h.met_seen o ho)
    · obtain rfl := List.mem_singleton.1 ho
      exact List.mem_cons_self
  · rcases h.start with ⟨o, ho, hm, hdepth⟩
    exact ⟨o, hmore ho, hm, hdepth⟩
  · intro o ho
    rw [← List.cons_append] at ho
    rcases List.mem_append.1 ho with ho | ho
    · exact hmore (h.waiting ho)
    · exact List.mem_append_right _ ho
  · intro o ho
    rw [← List.cons_append]
    rcases List.mem_append.1 ho with ho | ho
    · rcases h.served o ho with hwaits | hserved
      · exact .inl (List.mem_append_left _ hwaits)
      · refine .inr ?_
        intro key y hkey hy hdepth
        exact (hserved key y hkey hy hdepth).mono hmore
    · exact .inl (List.mem_append_right _ ho)
  -- The new object lies at the next level, and no one who waits lies deeper.
  · rw [← List.cons_append, List.pairwise_append]
    refine ⟨h.ordered, List.pairwise_singleton _ _, ?_⟩
    intro a ha b hb
    obtain rfl := List.mem_singleton.1 hb
    exact hlow a (h.waiting ha)
  -- All levels that were met lie one below those that wait, or at them, at most.
  · intro o ho o' ho'
    rw [← List.cons_append] at ho'
    rcases List.mem_append.1 ho' with ho' | ho'
    · rcases List.mem_append.1 ho with ho | ho
      · exact h.level o ho o' ho'
      · obtain rfl := List.mem_singleton.1 ho
        exact Nat.succ_le_succ (hhigh o' ho')
    · obtain rfl := List.mem_singleton.1 ho'
      rcases List.mem_append.1 ho with ho | ho
      · exact Nat.le_succ_of_le (hlow o ho)
      · obtain rfl := List.mem_singleton.1 ho
        exact Nat.le_succ _

/-- An object that has been served waits no more. -/
theorem Wave.pop (h : Wave g old m met seen (owner :: queue)) (hserved : Served g old met owner) :
    Wave g old m met seen queue where
  seen_cases := h.seen_cases
  old_seen := h.old_seen
  met_seen := h.met_seen
  start := h.start
  waiting := fun _ ho => h.waiting (List.mem_cons_of_mem _ ho)
  served := by
    intro o ho
    rcases h.served o ho with hwaits | hdone
    · rcases List.mem_cons.1 hwaits with rfl | hwaits
      · exact .inr hserved
      · exact .inl hwaits
    · exact .inr hdone
  ordered := (List.pairwise_cons.1 h.ordered).2
  level := fun o ho o' ho' => h.level o ho o' (List.mem_cons_of_mem _ ho')

/-- The wave after the visits of some attributes of an object: they have been reached. -/
def Rolls (g : Ground) (old : List ObjectId) (m : ObjectId) (owner : Waiting)
    (past : List (String × ObjectId)) (state : Walk × List Waiting) : Prop :=
  state.1.exhausted = false → ∃ met, Wave g old m met state.1.seen (owner :: state.2) ∧
    ∀ member ∈ past, g.Allows member.2 → owner.depth < g.settings.maxDepth →
      Reached old met member.2 (owner.depth + 1)

/-- A visit reaches the object one step deeper than the one that refers to it. -/
theorem Rolls.visit {past : List (String × ObjectId)} (h : Rolls g old m owner past (w, queue))
    (hvisit : Visit g origin owner w queue key id state) :
    Rolls g old m owner (past ++ [(key, id)]) state := by
  intro hroom
  -- What is still to show is that the attribute visited last was reached.
  have hlast : ∀ {met : List Waiting} {seen : List ObjectId} {queue : List Waiting},
      Wave g old m met seen (owner :: queue) →
      (∀ member ∈ past, g.Allows member.2 → owner.depth < g.settings.maxDepth →
        Reached old met member.2 (owner.depth + 1)) →
      (g.Allows id → owner.depth < g.settings.maxDepth → Reached old met id (owner.depth + 1)) →
      ∃ met, Wave g old m met seen (owner :: queue) ∧
        ∀ member ∈ past ++ [(key, id)], g.Allows member.2 → owner.depth < g.settings.maxDepth →
          Reached old met member.2 (owner.depth + 1) := by
    intro met seen queue hwave hpast hid
    refine ⟨met, hwave, ?_⟩
    intro member hmember
    rcases List.mem_append.1 hmember with hmember | hmember
    · exact hpast member hmember
    · obtain rfl := List.mem_singleton.1 hmember
      exact hid
  cases hvisit with
  | halted hw =>
    rw [hw] at hroom
    cases hroom
  | passed hw hpassed =>
    obtain ⟨met, hwave, hpast⟩ := h hw
    refine hlast hwave hpast ?_
    intro hallows hdepth
    rcases hpassed with hdeep | hseen
    · exact absurd hdepth (Nat.not_lt.2 hdeep)
    · exact hwave.reached_of_seen hseen hallows
  | full _ _ _ => cases hroom
  | unknown hw _ _ hshape =>
    obtain ⟨met, hwave, hpast⟩ := h hw
    have hid : ¬ g.Allows id := by
      rintro ⟨shape, hshape', _⟩
      rw [hshape] at hshape'
      cases hshape'
    exact hlast (hwave.unknown hid) hpast fun hallows => absurd hallows hid
  | outside hw hid =>
    obtain ⟨met, hwave, hpast⟩ := h hw
    exact hlast hwave hpast fun hallows => absurd hallows hid
  | fresh hw _ _ _ _ =>
    obtain ⟨met, hwave, hpast⟩ := h hw
    refine hlast hwave.fresh ?_ ?_
    · intro member hmember hallows hdepth
      exact (hpast member hmember hallows hdepth).mono (List.subset_append_left _ _)
    · intro _ _
      exact .inr ⟨_, List.mem_append_right _ (List.mem_singleton_self _), rfl, Nat.le_refl _⟩

/-- After its turn an object has been served. -/
theorem Wave.turn (h : w.exhausted = false → ∃ met, Wave g old m met w.seen (owner :: queue))
    (hroom : (turn g origin owner (w, queue)).1.exhausted = false) :
    ∃ met, Wave g old m met (turn g origin owner (w, queue)).1.seen (turn g origin owner (w, queue)).2 := by
  have hrolls : Rolls g old m owner (attributesOf g owner.id) (Walk.turn g origin owner (w, queue)) := by
    refine turn_invariant ?_ ?_
    · intro hw
      obtain ⟨met, hwave⟩ := h hw
      exact ⟨met, hwave, nofun⟩
    · intro past w queue key id _ hrolls state hvisit
      exact hrolls.visit hvisit
  obtain ⟨met, hwave, hreached⟩ := hrolls hroom
  refine ⟨met, hwave.pop ?_⟩
  intro key y hkey hy hdepth
  exact hreached (key, y) (Ground.mem_attributesOf_iff.2 hkey) hy hdepth

/-- When nothing waits, every path within the depth bound that passes only what was not met before leads to
what was reached. -/
theorem Wave.reached_of_path (h : Wave g old m met seen []) {keys : List String} {through : List ObjectId}
    {x : ObjectId} (hpath : g.Path m keys through x) (hdepth : keys.length ≤ g.settings.maxDepth)
    (hfirst : ∀ y ∈ through, y ∉ old) : Reached old met x keys.length := by
  -- Induction over the path: an owner that was met before its depth was used up has had its turn,
  -- and shows its attributes.
  induction hpath with
  | nil =>
    rcases h.start with ⟨o, ho, hm, hzero⟩
    exact .inr ⟨o, ho, hm, Nat.le_of_eq hzero⟩
  | @snoc keys through x y key hpath hkey hy ih =>
    rw [List.length_append, List.length_singleton] at hdepth ⊢
    have hx : x ∉ old := hfirst x (List.mem_append_right _ (List.mem_singleton_self _))
    have hbefore : Reached old met x keys.length :=
      ih (Nat.le_of_succ_le hdepth) fun z hz => hfirst z (List.mem_append_left _ hz)
    -- The owner was not met in an earlier walk, which would have to be looked at instead.
    rcases hbefore with hold | ⟨o, ho, rfl, hle⟩
    · exact absurd hold hx
    · rcases h.served o ho with hwaits | hserved
      · cases hwaits
      · rcases hserved key y hkey hy (Nat.lt_of_le_of_lt hle hdepth) with hold | ⟨o', ho', hy', hle'⟩
        · exact .inl hold
        · exact .inr ⟨o', ho', hy', Nat.le_trans hle' (Nat.succ_le_succ hle)⟩

/-- A walk from a module that ends with room left has met the end of every path within the depth bound that
passes only what was not met before. -/
theorem mem_seen_fromModule (hroom : (w.fromModule g name m).exhausted = false) {keys : List String}
    {through : List ObjectId} {x : ObjectId} (hpath : g.Path m keys through x)
    (hdepth : keys.length ≤ g.settings.maxDepth) (hfirst : ∀ y ∈ through, y ∉ w.seen) :
    x ∈ (w.fromModule g name m).seen := by
  by_cases hnew : m ∈ w.seen
  · -- A module that was met before is not walked from, and the path cannot pass it.
    rw [fromModule_of_mem hnew]
    cases hpath with
    | nil => exact hnew
    | snoc hpath _ _ => exact absurd hnew (hfirst m hpath.start_mem_append)
  · let I (w' : Walk) (queue : List Waiting) : Prop :=
      w'.exhausted = false → ∃ met, Wave g w.seen m met w'.seen queue
    have hbegin : I (w.meet m) [⟨m, name, 0⟩] := fun _ => ⟨_, Wave.begin g w.seen m name⟩
    obtain ⟨rest, hend, hrest⟩ := fromModule_invariant hnew hbegin fun _ _ _ h => Wave.turn h
    obtain ⟨met, hwave⟩ := hend hroom
    rw [hrest hroom] at hwave
    rcases hwave.reached_of_path hpath hdepth hfirst with hold | ⟨o, ho, rfl, _⟩
    · exact hwave.old_seen hold
    · exact hwave.met_seen o ho

end Walk

/-! ## All entry modules -/

section Snapshot

variable {s : Snapshot} {root name path key : String} {settings : ScanSettings} {x y m : ObjectId}

/-- Whatever is an attribute of a recorded object is mentioned. -/
theorem Ground.HasAttribute.mem_mentioned (h : (Ground.mk s.model root settings).HasAttribute x key y) :
    y ∈ s.mentioned := by
  rcases h with ⟨l, hl, hmem⟩
  unfold Snapshot.model Snapshot.object at hl
  dsimp only at hl
  split at hl
  next o ho =>
    obtain rfl := Except.ok.inj hl
    have hvalue : o ∈ s.objects.values :=
      List.mem_map.2 ⟨(x, o), SortedMap.get?_eq_some_iff.1 ho, rfl⟩
    have htarget : y ∈ o.attributes.values := List.mem_map.2 ⟨(key, y), hmem, rfl⟩
    exact SortedSet.mem_ofList.2 (List.mem_append_right _ (List.mem_flatMap.2 ⟨o, hvalue, htarget⟩))
  next => cases hl

theorem Ground.Entry.mem_mentioned (h : (Ground.mk s.model root settings).Entry name x path) :
    x ∈ s.mentioned := by
  rcases h.below with ⟨file, hshape, _⟩
  unfold Snapshot.model Snapshot.object at hshape
  dsimp only at hshape
  split at hshape
  next o ho =>
    have hkey : x ∈ s.objects.keys := List.mem_map.2 ⟨(x, o), SortedMap.get?_eq_some_iff.1 ho, rfl⟩
    exact SortedSet.mem_ofList.2 (List.mem_append_left _ hkey)
  next => cases hshape

variable (hroom : s.mentioned.size ≤ settings.maxObjects)

include hroom

/-- A walk from a module stays among the objects that the snapshot mentions. -/
theorem Walk.Confined.fromModule {w : Walk} (h : w.Confined s.mentioned.toList)
    (hentry : (Ground.mk s.model root settings).Entry name m path) :
    (w.fromModule ⟨s.model, root, settings⟩ name m).Confined s.mentioned.toList := by
  refine fromModule_keeps h ?_ ?_
  · intro hnew
    exact h.meet hnew hentry.mem_mentioned
  · intro owner w queue key id state hkey h hvisit
    refine h.visit hkey.mem_mentioned ?_ hvisit
    exact hroom

/-- The whole scan stays among the objects that the snapshot mentions. -/
theorem confined_enterAll (root : String) (names : List String) :
    (enterAll ⟨s.model, root, settings⟩ names).walk.Confined s.mentioned.toList := by
  refine foldl_enter_keeps (P := fun w => w.Confined s.mentioned.toList) (Walk.Confined.start _) ?_
  intro w name m path hentry h
  exact h.fromModule hroom hentry

end Snapshot

/-- The whole scan finds what it meets, if that enters native code. -/
theorem recorded_enterAll (g : Ground) (names : List String) : (enterAll g names).walk.Recorded g := by
  refine foldl_enter_keeps (P := fun w => w.Recorded g) ?_ ?_
  · intro x hx
    cases hx
  · intro w name m path hentry h
    exact h.fromModule hentry

theorem subset_foldl_enter (g : Ground) (names : List String) (e : Entries) :
    e.walk.seen ⊆ (names.foldl (enter g) e).walk.seen := by
  refine foldl_enter_keeps (P := fun w => e.walk.seen ⊆ w.seen) (List.Subset.refl _) ?_
  intro w name m path _ hsub
  exact List.Subset.trans hsub (Walk.subset_fromModule g name m w)

/-- What the walks from the entry modules before a name have met. -/
def metBefore (g : Ground) (entries : List String) (name : String) : List ObjectId :=
  (enterAll g (entries.filter fun n => compare n name == .lt)).walk.seen

/-- With room for all objects, whatever is in reach of an entry module is met. -/
theorem mem_seen_enterAll {s : Snapshot} {root name path : String} {settings : ScanSettings}
    {entries keys : List String} {through : List ObjectId} {m x : ObjectId}
    (hroom : s.mentioned.size ≤ settings.maxObjects) (hname : name ∈ entries)
    (hentry : (Ground.mk s.model root settings).Entry name m path)
    (hpath : (Ground.mk s.model root settings).Path m keys through x)
    (hdepth : keys.length ≤ settings.maxDepth)
    (hfirst : ∀ y ∈ through, y ∉ metBefore ⟨s.model, root, settings⟩ entries name) :
    x ∈ (enterAll ⟨s.model, root, settings⟩ entries).walk.seen := by
  let g : Ground := ⟨s.model, root, settings⟩
  let e₀ : Entries := enterAll g (entries.filter fun n => compare n name == .lt)
  -- The walks are those from the modules before, that from the module, and those from the modules after.
  obtain ⟨post, hsplit⟩ : ∃ post, (SortedSet.ofList entries).toList =
      (SortedSet.ofList entries).toList.filter (fun n => compare n name == .lt) ++ name :: post :=
    (SortedSet.ofList entries).increasing.exists_eq_filter_append (SortedSet.mem_ofList.2 hname)
  have hwalks : enterAll g entries = post.foldl (enter g) (enter g e₀ name) := by
    unfold enterAll
    rw [hsplit, List.foldl_append, List.foldl_cons, ← SortedSet.toList_ofList_filter]
    rfl
  have hconfined : e₀.walk.Confined s.mentioned.toList := confined_enterAll hroom root _
  have hwalk : (enter g e₀ name).walk = e₀.walk.fromModule g name m := by
    rcases enter_cases g e₀ name with ⟨_, _, hskip⟩ | ⟨m', path', _, hentry', _, hwalk⟩
    · rcases hskip with hfull | hnone
      · rw [hconfined.room] at hfull
        cases hfull
      · exact absurd hentry (hnone m path)
    · obtain rfl : m = m' := Except.ok.inj (hentry.imported.symm.trans hentry'.imported)
      exact hwalk
  have hmet : x ∈ (enter g e₀ name).walk.seen := by
    rw [hwalk]
    exact Walk.mem_seen_fromModule (hconfined.fromModule hroom hentry).room hpath hdepth hfirst
  rw [hwalks]
  exact subset_foldl_enter g post _ hmet

/-! ## Main result -/

/-- The object is the end of an attribute path from an entry module, no longer than the depth bound, which
passes the given objects. -/
structure Ground.InBounds (g : Ground) (entries : List String) (name : String) (through : List ObjectId)
    (o : ObjectId) : Prop where
  entry : name ∈ entries
  path : ∃ m path keys, g.Entry name m path ∧ g.Path m keys through o ∧ 1 ≤ keys.length ∧
    keys.length ≤ g.settings.maxDepth

/-- One of the addresses where the object enters native code is that of the symbol in the library. -/
def Ground.Lands (g : Ground) (r : Resolver) (o : ObjectId) (library : Library) (symbol : String) : Prop :=
  ∃ e, g.native? o = some e ∧ ∃ a ∈ e.addresses, r.resolve a = .resolved library symbol

/-- If there is room for everything that the snapshot mentions, and no object of the path before its end was
met from the modules that come before, the report has a bridge to the symbol. -/
theorem bridges_complete (s : Snapshot) (root : String) (settings : ScanSettings) (r : Resolver)
    (package : Package) (entries : List String) (name : String) (through : List ObjectId) (o : ObjectId)
    (library : Library) (symbol : String) (hroom : s.mentioned.size ≤ settings.maxObjects)
    (hbounds : (Ground.mk s.model root settings).InBounds entries name through o)
    (hfirst : ∀ x ∈ through, x ∉ metBefore ⟨s.model, root, settings⟩ entries name)
    (hlands : (Ground.mk s.model root settings).Lands r o library symbol) :
    ∃ b ∈ (recover ⟨s.model, root, settings⟩ r package entries).bridges,
      b.symbol = symbol ∧ b.library = Path.normalize library.path := by
  rcases hbounds.path with ⟨m, path, keys, hentry, hpath, _, hdepth⟩
  rcases hlands with ⟨e, hnative, haddress⟩
  have hseen : o ∈ (enterAll ⟨s.model, root, settings⟩ entries).walk.seen :=
    mem_seen_enterAll hroom hbounds.entry hentry hpath hdepth hfirst
  rcases recorded_enterAll _ entries o hseen e hnative with ⟨p, hp, _, hpentry⟩
  have hleads : Leads r p.2.entry library symbol := by
    rw [hpentry]
    exact .inl haddress
  exact ⟨_, mem_bridges_recover_iff.2 (.inl ⟨p, hp, library, symbol, hleads, rfl⟩), rfl, rfl⟩

theorem nestedGround_lands (depth : Nat) :
    (nestedGround depth).Lands nestedResolver 3 nestedLibrary "add_numbers" :=
  ⟨⟨.builtinFunction, [4096], none⟩, rfl, 4096, List.mem_singleton_self _, by decide +kernel⟩

/-- From `a` the function is met at depth two. -/
theorem bridges_complete_nested :
    nested.mentioned.size ≤ 10 ∧ (nestedGround 2).InBounds ["b", "a"] "a" [1, 2] 3 ∧
      (∀ x ∈ [1, 2], x ∉ metBefore (nestedGround 2) ["b", "a"] "a") ∧
      (nestedGround 2).Lands nestedResolver 3 nestedLibrary "add_numbers" ∧
      ∃ b ∈ (recover (nestedGround 2) nestedResolver ⟨"pkg", "1.0"⟩ ["b", "a"]).bridges,
        b.symbol = "add_numbers" ∧ b.library = Path.normalize nestedLibrary.path := by
  have hroom : nested.mentioned.size ≤ 10 := by decide +kernel
  have hentry : (nestedGround 2).Entry "a" 1 "a.py" := ⟨rfl, _, rfl, by decide +kernel⟩
  -- The module that is imported inside of another is met there first.
  have hmodule : (nestedGround 2).Path 1 ["b"] [1] 2 :=
    .snoc .nil ⟨_, rfl, List.mem_singleton_self _⟩ ⟨_, rfl, fun _ => by decide +kernel⟩
  have hpath : (nestedGround 2).Path 1 ["b", "f"] [1, 2] 3 :=
    .snoc hmodule ⟨_, rfl, List.mem_singleton_self _⟩ ⟨_, rfl, fun hmodule => by cases hmodule⟩
  have hbounds : (nestedGround 2).InBounds ["b", "a"] "a" [1, 2] 3 :=
    ⟨by decide, 1, "a.py", ["b", "f"], hentry, hpath, by decide, by decide⟩
  have hnone : metBefore (nestedGround 2) ["b", "a"] "a" = [] := by decide +kernel
  have hfirst : ∀ x ∈ [1, 2], x ∉ metBefore (nestedGround 2) ["b", "a"] "a" := by
    intro x _
    rw [hnone]
    exact List.not_mem_nil
  have hlands := nestedGround_lands 2
  exact ⟨hroom, hbounds, hfirst, hlands,
    bridges_complete nested "/site" _ nestedResolver _ _ _ _ _ _ _ hroom hbounds hfirst hlands⟩

/-! ## What is missed -/

/-- Three modules. All that is known of what the first two have as attributes is that it is there. -/
def crowded : Snapshot :=
  ((((((Snapshot.empty.addModule "a" 1 (.module (some "/site/a.py"))).addModule "b" 2
    (.module (some "/site/b.py"))).addModule "c" 3 (.module (some "/site/c.py"))).insert 4
    (.native .builtinFunction [4096] none)).setAttribute 1 "p" 8).setAttribute 2 "q" 9).setAttribute 3 "z" 4

def crowdedGround : Ground := ⟨crowded.model, "/site", ⟨1, 5, 8, .exact, false⟩⟩

/-- Of two modules the first meets the second at the depth bound, and the function of the second is missed;
and there is room for more objects than are known, but not for those that are only mentioned. -/
theorem bridges_incomplete :
    (nested.objects.size < (nestedGround 1).settings.maxObjects ∧
      (nestedGround 1).InBounds ["a", "b"] "b" [2] 3 ∧
      (nestedGround 1).Lands nestedResolver 3 nestedLibrary "add_numbers" ∧
      (recover (nestedGround 1) nestedResolver ⟨"pkg", "1.0"⟩ ["a", "b"]).bridges = []) ∧
    crowded.objects.size < crowdedGround.settings.maxObjects ∧
      crowdedGround.InBounds ["a", "b", "c"] "c" [3] 4 ∧
      crowdedGround.Lands nestedResolver 4 nestedLibrary "add_numbers" ∧
      (recover crowdedGround nestedResolver ⟨"pkg", "1.0"⟩ ["a", "b", "c"]).bridges = [] := by
  -- One step would do from the module itself, but it was met before, one step deeper.
  have hnested : (nestedGround 1).InBounds ["a", "b"] "b" [2] 3 := by
    refine ⟨by decide, 2, "b.py", ["f"], ⟨rfl, _, rfl, by decide +kernel⟩, ?_, by decide, by decide⟩
    exact .snoc .nil ⟨_, rfl, List.mem_singleton_self _⟩ ⟨_, rfl, fun hmodule => by cases hmodule⟩
  -- There would be room for all objects, were not others met that the recording does not hold.
  have hcrowded : crowdedGround.InBounds ["a", "b", "c"] "c" [3] 4 := by
    refine ⟨by decide, 3, "c.py", ["z"], ⟨rfl, _, rfl, by decide +kernel⟩, ?_, by decide, by decide⟩
    exact .snoc .nil ⟨_, rfl, List.mem_singleton_self _⟩ ⟨_, rfl, fun hmodule => by cases hmodule⟩
  have hlands : crowdedGround.Lands nestedResolver 4 nestedLibrary "add_numbers" :=
    ⟨⟨.builtinFunction, [4096], none⟩, rfl, 4096, List.mem_singleton_self _, by decide +kernel⟩
  exact ⟨⟨by decide +kernel, hnested, nestedGround_lands 1, by decide +kernel⟩, by decide +kernel, hcrowded,
    hlands, by decide +kernel⟩

end Scan
end Bridgework
