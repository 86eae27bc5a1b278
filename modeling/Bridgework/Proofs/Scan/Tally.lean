import Bridgework.Proofs.Collection.Increasing
import Bridgework.Proofs.Scan.Sound
import Bridgework.Proofs.Scan.Turns

/-!
# What a report counts

A scan ends, whatever the objects refer to: an object comes to wait only when it is met for the first time and
while there is room. So every object is examined at most once, and all counts of a report are bounded by the
room for objects.

- `Scan.Walk.Tallied` : the counts of a walk, from the objects that were examined
- `Scan.tallied_enterAll` : the objects that were examined are those of the turns
- `Scan.mem_modules_recover` : the modules of a report
- `Scan.libraries_recover` : the libraries of a report, where paths are in their stored form
- `Scan.report_bounded` : what holds of every report
-/

namespace Bridgework
namespace Scan

/-! ## Counts -/

/-- Whether the object can be called, by its verdict within the bound of the settings. -/
def Ground.isCallable (g : Ground) (x : ObjectId) : Bool :=
  Verdict.isCallable (g.model.classify x g.settings.maxUnwrapDepth)

namespace Walk

variable {g : Ground} {origin key text : String} {owner : Waiting} {w : Walk} {queue : List Waiting}
  {id : ObjectId} {ids : List ObjectId} {state : Walk × List Waiting}

/-- Offering a name does not change which objects were found. -/
theorem map_fst_found_offer : (w.offer id text).found.map Prod.fst = w.found.map Prod.fst := by
  unfold offer
  rw [List.map_map]
  refine List.map_congr_left fun p _ => ?_
  simp only [Function.comp_apply]
  split
  next => rfl
  next => rfl

/-- The given objects were examined, each once and while there was room, and were counted by their verdicts. -/
structure Tallied (g : Ground) (ids : List ObjectId) (w : Walk) : Prop where
  nodup : ids.Nodup
  met : ids ⊆ w.seen
  room : ids.length ≤ g.settings.maxObjects
  examined : w.examined = ids.length
  callable : w.callable = (ids.filter g.isCallable).length
  found : w.found.map Prod.fst = ids.filter fun x => (g.native? x).isSome

theorem Tallied.start (g : Ground) : Walk.start.Tallied g [] :=
  ⟨List.nodup_nil, List.nil_subset _, Nat.zero_le _, rfl, rfl, rfl⟩

theorem Tallied.offer (h : w.Tallied g ids) : (w.offer id text).Tallied g ids :=
  ⟨h.nodup, h.met, h.room, h.examined, h.callable, map_fst_found_offer.trans h.found⟩

theorem Tallied.meet (h : w.Tallied g ids) : (w.meet id).Tallied g ids :=
  ⟨h.nodup, List.subset_cons_of_subset id h.met, h.room, h.examined, h.callable, h.found⟩

/-- One more object is examined. It was not met before, so it was not examined before, and so there is room for
one more among those that were. -/
theorem Tallied.examine (h : w.Tallied g ids) (hnew : id ∉ w.seen)
    (hroom : w.seen.length < g.settings.maxObjects) :
    ((w.meet id).examine g id text origin).Tallied g (ids ++ [id]) where
  nodup := by
    refine List.nodup_append.2 ⟨h.nodup, List.pairwise_singleton _ id, ?_⟩
    intro a ha b hb hab
    rw [hab, List.mem_singleton.1 hb] at ha
    exact hnew (h.met ha)
  met := by
    intro x hx
    rcases List.mem_append.1 hx with hx | hx
    · exact List.mem_cons_of_mem id (h.met hx)
    · rw [List.mem_singleton.1 hx]
      exact List.mem_cons_self
  -- All objects that were examined were met, and there is still room for one more.
  room := by
    have hle : ids.length ≤ w.seen.length := h.nodup.length_le_of_subset h.met
    rw [List.length_append, List.length_singleton]
    omega
  examined := by
    calc
      w.examined + 1 = ids.length + 1 := by rw [h.examined]
      _ = (ids ++ [id]).length := by rw [List.length_append, List.length_singleton]
  callable := by
    have hcount : ((w.meet id).examine g id text origin).callable =
        if g.isCallable id then w.callable + 1 else w.callable := rfl
    rw [hcount, h.callable, List.filter_append, List.length_append]
    cases hcallable : g.isCallable id with
    | true => simp [hcallable]
    | false => simp [hcallable]
  -- The verdict that decides on finding is the one that `native?` gives.
  found := by
    have hverdict : Verdict.entry? (g.model.classify id g.settings.maxUnwrapDepth) = g.native? id := rfl
    rw [List.filter_append, ← h.found]
    unfold Walk.examine
    dsimp only
    rw [hverdict]
    cases hnative : g.native? id with
    | none => simp [hnative, Walk.meet]
    | some e => simp [hnative, Walk.meet]

/-- The objects that come to wait are those that are examined. -/
theorem Tallied.visit {past : List ObjectId} (h : w.Tallied g (past ++ queue.map (·.id)))
    (hvisit : Visit g origin owner w queue key id state) :
    state.1.Tallied g (past ++ state.2.map (·.id)) := by
  cases hvisit with
  | halted _ => exact h
  | passed _ _ => exact h.offer
  | full _ _ _ =>
    have hoffer : (w.offer id (owner.name ++ "." ++ key)).Tallied g _ := h.offer
    exact ⟨hoffer.nodup, hoffer.met, hoffer.room, hoffer.examined, hoffer.callable, hoffer.found⟩
  | unknown _ _ _ _ => exact h.offer.meet
  | outside _ _ => exact h.offer
  | fresh _ _ hnew hroom _ =>
    rw [List.map_append, ← List.append_assoc]
    exact h.offer.examine hnew hroom

/-- A turn examines the objects that come to wait, and counts each. -/
theorem Tallied.turn (h : w.Tallied g ids) (origin : String) (owner : Waiting) :
    (turn g origin owner (w, [])).1.Tallied g (ids ++ Turn.examined g ⟨w, origin, owner⟩) := by
  refine turn_invariant (I := fun _ state => state.1.Tallied g (ids ++ state.2.map (·.id))) ?_ ?_
  · rw [List.map_nil, List.append_nil]
    exact h
  · intro past w queue key id _ h state hvisit
    exact h.visit hvisit

/-- What was found was found once. -/
theorem Tallied.nodup_found (h : w.Tallied g ids) : (w.found.map Prod.fst).Nodup := by
  rw [h.found]
  exact h.nodup.filter _

end Walk

/-- The objects that a scan examines, in their order. -/
def examined (g : Ground) (entries : List String) : List ObjectId :=
  (turns g entries).flatMap (Turn.examined g)

/-- The whole scan counts each object that it examines. -/
theorem tallied_enterAll (g : Ground) (entries : List String) :
    (enterAll g entries).walk.Tallied g (examined g entries) := by
  refine turns_invariant (I := fun past w => w.Tallied g (past.flatMap (Turn.examined g))) entries
    (.start g) ?_ ?_
  · intro past w m name path _ _ h
    exact h.meet
  · intro past w origin owner h
    rw [List.flatMap_append, List.flatMap_singleton]
    exact h.turn origin owner

/-! ## Modules and libraries -/

variable {g : Ground} {r : Resolver} {package : Package} {entries : List String}

/-- A record of a module is that of an entry module. -/
theorem mem_modules_recover {record : ModuleRecord} (h : record ∈ (recover g r package entries).modules) :
    record.importName ∈ entries ∧ ∃ m, g.Entry record.importName m record.path := by
  rw [recover_eq_collect] at h
  rcases List.mem_filterMap.1 h with ⟨name, _, hname⟩
  rcases Option.map_eq_some_iff.1 hname with ⟨path, hpath, rfl⟩
  exact (sound_enterAll g entries).2 name path (SortedMap.get?_eq_some_iff.1 hpath)

/-- What a native entry leads to is a library of the resolver. -/
theorem Leads.exists_mapped {e : NativeEntry} {library : Library} {symbol : String}
    (h : Leads r e library symbol) : ∃ l ∈ r.libraries, l.library = library := by
  rcases h with ⟨a, _, hresolve⟩ | ⟨_, _, hname⟩
  · unfold Resolver.resolve at hresolve
    split at hresolve
    next => cases hresolve
    next l hl =>
      split at hresolve
      next =>
        cases hresolve
        exact ⟨l, List.mem_of_find?_eq_some hl, rfl⟩
      next => cases hresolve
  · have hmem : library ∈ SortedSet.ofList ((r.libraries.filter (·.exportsName symbol)).map (·.library)) :=
      ((SortedSet.leastIfAny_min? _).eq_some_iff.1 hname).1
    rcases List.mem_map.1 (SortedSet.mem_ofList.1 hmem) with ⟨l, hl, hlibrary⟩
    exact ⟨l, (List.mem_filter.1 hl).1, hlibrary⟩

/-- Where all paths are in their stored form, the libraries of a report are those of its bridges. -/
theorem libraries_recover (hlibraries : ∀ l ∈ r.libraries, Path.normalize l.library.path = l.library.path)
    (hmodules : ∀ name ∈ entries, ∀ m path, g.Entry name m path → Path.normalize path = path) :
    (recover g r package entries).libraries =
      (SortedSet.ofList ((recover g r package entries).bridges.map (·.library))).toList := by
  let landings := ((enterAll g entries).walk.found.map Prod.snd).flatMap (bridgesOf r) ++
    importLandings g (enterAll g entries).paths
  -- The library of a bridge is normalized; where the paths are normal, that changes nothing.
  have hstored : ∀ l ∈ landings, l.bridge.library = l.path := by
    intro l hl
    rcases List.mem_append.1 hl with hl | hl
    · rcases List.mem_flatMap.1 hl with ⟨f, _, hf⟩
      rcases mem_bridgesOf_iff.1 hf with ⟨library, symbol, hleads, rfl⟩
      rcases hleads.exists_mapped with ⟨mapped, hmapped, rfl⟩
      exact hlibraries mapped hmapped
    -- Imported modules keep the paths that they were entered with.
    · unfold importLandings at hl
      split at hl
      next =>
        rcases List.mem_filterMap.1 hl with ⟨⟨name, path⟩, hmem, hlanding⟩
        rcases (sound_enterAll g entries).2 name path hmem with ⟨hname, m, hentry⟩
        unfold importLanding? at hlanding
        split at hlanding
        next =>
          obtain rfl := Option.some.inj hlanding
          exact hmodules name hname m path hentry
        next => cases hlanding
      next => cases hl
  -- The libraries are gathered from the landings, but the bridges have them all.
  have hsets : SortedSet.ofList (landings.map (·.path)) =
      SortedSet.ofList ((SortedSet.ofList (landings.map (·.bridge))).toList.map (·.library)) := by
    ext path
    simp only [SortedSet.mem_ofList, List.mem_map]
    constructor
    · rintro ⟨l, hl, rfl⟩
      exact ⟨l.bridge, SortedSet.mem_ofList.2 (List.mem_map_of_mem hl), hstored l hl⟩
    · rintro ⟨b, hb, rfl⟩
      rcases List.mem_map.1 (SortedSet.mem_ofList.1 hb) with ⟨l, hl, rfl⟩
      exact ⟨l, hl, (hstored l hl).symm⟩
  rw [recover_eq_collect]
  exact congrArg SortedSet.toList hsets

/-! ## Main result -/

/-- Every walk ends after a bounded number of turns. No object is examined twice, and there is room for all that
are; the other counts are no greater. Bridges increase and are counted, modules are entry modules, and where
all paths are in their stored form, libraries are those of the bridges. -/
theorem report_bounded (g : Ground) (r : Resolver) (package : Package) (entries : List String) :
    let report := recover g r package entries
    (∀ (w : Walk) (name : String) (m : ObjectId), m ∉ w.seen →
      Walk.Loop g name (w.meet m) [⟨m, name, 0⟩] (w.turnsFrom g name m) (w.fromModule g name m) ∧
        (w.turnsFrom g name m).length ≤ g.settings.maxObjects + 1) ∧
      (examined g entries).Nodup ∧ report.objectsExamined = (examined g entries).length ∧
      report.objectsExamined ≤ g.settings.maxObjects ∧
      report.callableObjects ≤ report.objectsExamined ∧ report.foreignObjects ≤ report.objectsExamined ∧
      report.unresolvedForeign ≤ report.foreignObjects ∧
      Increasing report.bridges ∧ report.count = report.bridges.length ∧
      (∀ record ∈ report.modules, record.importName ∈ entries ∧ ∃ m, g.Entry record.importName m record.path) ∧
      ((∀ l ∈ r.libraries, Path.normalize l.library.path = l.library.path) →
        (∀ name ∈ entries, ∀ m path, g.Entry name m path → Path.normalize path = path) →
        report.libraries = (SortedSet.ofList (report.bridges.map (·.library))).toList) := by
  intro report
  have htally : (enterAll g entries).walk.Tallied g (examined g entries) := tallied_enterAll g entries
  have hexamined : report.objectsExamined = (examined g entries).length := htally.examined
  -- All counters count some of the objects that were examined.
  have hcallable : report.callableObjects ≤ report.objectsExamined := by
    calc
      report.callableObjects = ((examined g entries).filter g.isCallable).length := htally.callable
      _ ≤ (examined g entries).length := List.length_filter_le _ _
      _ = report.objectsExamined := hexamined.symm
  have hforeign : report.foreignObjects ≤ report.objectsExamined := by
    calc
      report.foreignObjects = ((enterAll g entries).walk.found.map Prod.snd).length :=
        congrArg BridgeReport.foreignObjects (recover_eq_collect g r package entries)
      _ = (enterAll g entries).walk.found.length := List.length_map _
      _ = ((enterAll g entries).walk.found.map Prod.fst).length := (List.length_map _).symm
      _ ≤ (examined g entries).length := htally.found ▸ List.length_filter_le _ _
      _ = report.objectsExamined := hexamined.symm
  refine ⟨?_, htally.nodup, hexamined, hexamined ▸ htally.room, hcallable, hforeign, Nat.sub_le _ _,
    SortedSet.increasing _, rfl, fun record => mem_modules_recover, libraries_recover⟩
  intro w name m hnew
  exact ⟨Walk.loop_fromModule hnew, w.length_turnsFrom_le g name m⟩

end Scan
end Bridgework
