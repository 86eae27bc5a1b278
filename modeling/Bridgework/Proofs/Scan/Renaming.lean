import Bridgework.Proofs.Collection.Increasing
import Bridgework.Proofs.Heap.Renaming
import Bridgework.Proofs.Scan.Order
import Bridgework.Proofs.Scan.Walk

/-!
# Scans do not depend on identities

Two scans of the same objects under other identities go through the same states, up to identities: a walk
asks whether it has met an object, never which of two comes first. Attributes are visited in the order of
their names and modules in the order of theirs, so it does not matter in which order either are listed. What
is found may be listed in an order that the identities decide; the report does not show it.

- `Scan.Walk.rename` : a walk under other identities
- `Scan.Walk.visit_rename`, `Scan.Walk.fromModule_rename`, `Scan.enterAll_rename` : the steps agree
- `Scan.recover_rename` : so do the reports
-/

namespace Bridgework
namespace Scan

variable {ρ : ObjectId → ObjectId} {g g' : Ground}

/-- The two grounds differ by the identities of objects. -/
structure Ground.Renames (ρ : ObjectId → ObjectId) (g g' : Ground) : Prop where
  model : g.model.Renames ρ g'.model
  root : g'.root = g.root
  settings : g'.settings = g.settings

theorem Ground.Renames.modulePath? (h : g.Renames ρ g') (shape : Shape) :
    g'.modulePath? (shape.rename ρ) = g.modulePath? shape := by
  match shape with
  | .module (some file) => exact congrArg (Path.below? file) h.root
  | .module none | .interpretedFunction | .interpretedClass | .native _ _ _ | .wrapper _ _
  | .callableInstance _ | .instance _ | .data => rfl

/-! ## Attributes by name -/

namespace Walk

/-- Renamed objects have renamed attributes, in the order of their names. -/
theorem attributesOf_rename (h : g.Renames ρ g') (x : ObjectId) :
    attributesOf g' (ρ x) = (attributesOf g x).map fun a => (a.1, ρ a.2) := by
  unfold attributesOf
  cases hx : g.model.attributes x with
  | error e =>
    rcases h.model.noAttributes x e hx with ⟨e', he'⟩
    rw [he']
    rfl
  | ok l =>
    rcases h.model.attributes x l hx with ⟨hkeys, l', hl', hperm⟩
    have hkeys' : ((l.map fun a => (a.1, ρ a.2)).map Prod.fst).Nodup := by
      rw [List.map_map]
      exact hkeys
    rw [hl']
    dsimp only
    rw [mergeSort_eq_of_perm hkeys' hperm]
    exact (List.map_mergeSort (f := fun a : String × ObjectId => (a.1, ρ a.2)) fun a _ b _ => rfl).symm

/-! ## One visit -/

def rename (ρ : ObjectId → ObjectId) (w : Walk) : Walk :=
  { w with seen := w.seen.map ρ, found := w.found.map fun p => (ρ p.1, p.2) }

/-- The walk and what waits under other identities. -/
def renameState (ρ : ObjectId → ObjectId) (state : Walk × List Waiting) : Walk × List Waiting :=
  (state.1.rename ρ, state.2.map fun o => { o with id := ρ o.id })

/-- Offering a name is the same under other identities. -/
theorem offer_rename (hρ : Function.Injective ρ) (w : Walk) (id : ObjectId) (name : String) :
    (w.rename ρ).offer (ρ id) name = (w.offer id name).rename ρ := by
  unfold offer rename
  dsimp only
  rw [List.map_map, List.map_map]
  congr 1
  apply List.map_congr_left
  intro p _
  by_cases hp : p.1 = id
  · simp [hp]
  · have hp' : ρ p.1 ≠ ρ id := hρ.ne hp
    simp [hp, hp']

theorem examine_rename (h : g.Renames ρ g') (w : Walk) (id : ObjectId) (name origin : String) :
    (w.rename ρ).examine g' (ρ id) name origin = (w.examine g id name origin).rename ρ := by
  unfold examine rename
  dsimp only
  rw [h.settings, h.model.classify]
  cases Verdict.entry? (g.model.classify id g.settings.maxUnwrapDepth) with
  | none => rfl
  | some e => simp

/-- A visit does the same under other identities. -/
theorem visit_rename (h : g.Renames ρ g') (origin : String) (owner : Waiting)
    (state : Walk × List Waiting) (member : String × ObjectId) :
    visit g' origin { owner with id := ρ owner.id } (renameState ρ state) (member.1, ρ member.2) =
      renameState ρ (visit g origin owner state member) := by
  obtain ⟨w, queue⟩ := state
  obtain ⟨key, id⟩ := member
  have hexhausted : (w.rename ρ).exhausted = w.exhausted := rfl
  have hmet (w : Walk) : (w.rename ρ).seen.contains (ρ id) = w.seen.contains id :=
    ObjectModel.contains_map h.model.injective w.seen id
  have hlength (w : Walk) : (w.rename ρ).seen.length = w.seen.length := List.length_map ρ
  -- The guards have the same answers on both sides, so both visits end in the same case.
  unfold visit renameState
  dsimp only
  rw [hexhausted, offer_rename h.model.injective, hmet, hlength, h.settings]
  split
  next => rfl
  next =>
    split
    next => rfl
    next =>
      split
      next => rfl
      next =>
        cases hid : g.model.shape id with
        | error e =>
          rcases h.model.noShape id e hid with ⟨e', he'⟩
          rw [he']
          rfl
        | ok shape =>
          rw [h.model.shape id shape hid]
          dsimp only
          rw [Shape.isModule_rename, h.modulePath?]
          split
          next => rfl
          next =>
            have hexamine := examine_rename h ((w.offer id (owner.name ++ "." ++ key)).meet id) id
              (owner.name ++ "." ++ key) origin
            rw [List.map_append]
            exact Prod.ext hexamine rfl

/-! ## Walks -/

/-- A turn does the same under other identities. -/
theorem turn_rename (h : g.Renames ρ g') (origin : String) (owner : Waiting) (state : Walk × List Waiting) :
    turn g' origin { owner with id := ρ owner.id } (renameState ρ state) =
      renameState ρ (turn g origin owner state) := by
  unfold turn
  dsimp only
  rw [attributesOf_rename h, List.foldl_map]
  exact List.foldl_hom (renameState ρ) fun state member => visit_rename h origin owner state member

/-- The loop of a walk does the same under other identities. -/
theorem advance_rename (h : g.Renames ρ g') (origin : String) (fuel : Nat) (w : Walk)
    (queue : List Waiting) :
    advance g' origin fuel (w.rename ρ) (queue.map fun o => { o with id := ρ o.id }) =
      (advance g origin fuel w queue).rename ρ := by
  -- On the fuel: objects get their turns in the same order.
  induction fuel generalizing w queue with
  | zero => rfl
  | succ fuel ih =>
    cases queue with
    | nil => rfl
    | cons owner queue =>
      have hturn : turn g' origin { owner with id := ρ owner.id }
          (w.rename ρ, queue.map fun o => { o with id := ρ o.id }) =
            renameState ρ (turn g origin owner (w, queue)) := turn_rename h origin owner (w, queue)
      have hexhausted (state : Walk × List Waiting) :
          (renameState ρ state).1.exhausted = state.1.exhausted := rfl
      rw [List.map_cons, advance_cons, advance_cons, hturn, hexhausted]
      split
      next => rfl
      next => exact ih _ _

theorem fromModule_rename (h : g.Renames ρ g') (name : String) (m : ObjectId) (w : Walk) :
    (w.rename ρ).fromModule g' name (ρ m) = (w.fromModule g name m).rename ρ := by
  have hmet : (w.rename ρ).seen.contains (ρ m) = w.seen.contains m :=
    ObjectModel.contains_map h.model.injective w.seen m
  unfold fromModule
  rw [hmet, h.settings]
  split
  next => rfl
  next => exact advance_rename h name _ (w.meet m) [⟨m, name, 0⟩]

end Walk

/-! ## Entry modules -/

def Entries.rename (ρ : ObjectId → ObjectId) (e : Entries) : Entries :=
  { e with walk := e.walk.rename ρ }

/-- Entering a module does the same under other identities. -/
theorem enter_rename (h : g.Renames ρ g') (e : Entries) (name : String) :
    enter g' (e.rename ρ) name = (enter g e name).rename ρ := by
  have hexhausted : (e.rename ρ).walk.exhausted = e.walk.exhausted := rfl
  unfold enter
  dsimp only
  rw [hexhausted, h.model.importModule]
  -- Renaming changes nothing of the conditions: whether there is room, whether the module is
  -- imported, whether it lies in the package.
  split
  next => rfl
  next =>
    cases g.model.importModule name with
    | error err => rfl
    | ok m =>
      dsimp only [Except.map]
      cases hm : g.model.shape m with
      | error err =>
        rcases h.model.noShape m err hm with ⟨err', herr'⟩
        rw [herr']
        rfl
      | ok shape =>
        rw [h.model.shape m shape hm]
        dsimp only
        rw [h.modulePath?]
        cases g.modulePath? shape with
        | none => rfl
        | some path =>
          have hwalk := Walk.fromModule_rename h name m e.walk
          dsimp only [Entries.rename]
          rw [hwalk]

/-- The whole scan does the same under other identities, in whatever order the entry modules are given. -/
theorem enterAll_rename (h : g.Renames ρ g') {entries entries' : List String}
    (hentries : ∀ name, name ∈ entries' ↔ name ∈ entries) :
    enterAll g' entries' = (enterAll g entries).rename ρ := by
  have hnames : SortedSet.ofList entries' = SortedSet.ofList entries := by
    ext name
    rw [SortedSet.mem_ofList, SortedSet.mem_ofList]
    exact hentries name
  unfold enterAll
  rw [hnames]
  show List.foldl (enter g') (Entries.rename ρ ⟨.start, .empty, []⟩) _ = _
  exact List.foldl_hom (Entries.rename ρ) fun e name => enter_rename h e name

/-! ## Main result -/

/-- Scans of the same objects give the same report, whatever the identities of the objects, the order in
which their attributes are listed, the order and repetition of the entry modules, and the orders in which
the two tables list the objects that were found. -/
theorem recover_rename (s : Snapshot) (ρ : ObjectId → ObjectId) (hρ : Function.Injective ρ)
    (m m' : ObjectModel) (hm : m.Presents s) (hm' : m'.Presents (s.rename ρ)) (root : String)
    (settings : ScanSettings) (r : Resolver) (package : Package) (entries entries' : List String)
    (hentries : ∀ name, name ∈ entries' ↔ name ∈ entries) (listed listed' : List Found)
    (hlisted : listed.Perm ((enterAll ⟨m, root, settings⟩ entries).walk.found.map Prod.snd))
    (hlisted' : listed'.Perm ((enterAll ⟨m', root, settings⟩ entries').walk.found.map Prod.snd)) :
    reportOn ⟨m', root, settings⟩ r package (enterAll ⟨m', root, settings⟩ entries') listed' =
        reportOn ⟨m, root, settings⟩ r package (enterAll ⟨m, root, settings⟩ entries) listed ∧
      reportOn ⟨m, root, settings⟩ r package (enterAll ⟨m, root, settings⟩ entries) listed =
        recover ⟨m, root, settings⟩ r package entries := by
  let g : Ground := ⟨m, root, settings⟩
  let g' : Ground := ⟨m', root, settings⟩
  have hground : g.Renames ρ g' := ⟨hm.renames hm' hρ, rfl, rfl⟩
  have henter : enterAll g' entries' = (enterAll g entries).rename ρ := enterAll_rename hground hentries
  -- The report reads of what was found all but the identities.
  have hfound : (enterAll g' entries').walk.found.map Prod.snd =
      (enterAll g entries).walk.found.map Prod.snd := by
    rw [henter]
    show ((enterAll g entries).walk.found.map fun p => (ρ p.1, p.2)).map Prod.snd = _
    rw [List.map_map]
    rfl
  have hperm : listed'.Perm listed := by
    refine hlisted'.trans ?_
    show List.Perm ((enterAll g' entries').walk.found.map Prod.snd) listed
    rw [hfound]
    exact hlisted.symm
  refine ⟨?_, reportOn_eq_of_perm hlisted⟩
  calc
    reportOn g' r package (enterAll g' entries') listed'
        = reportOn g r package (enterAll g entries) listed' := by
          rw [henter]
          rfl
    _ = reportOn g r package (enterAll g entries) listed := reportOn_eq_of_perm hperm

/-- Two functions under one name: an attribute of a module has the name of another module. -/
def namesakes : Snapshot :=
  ((((((Snapshot.empty.addModule "a" 1 (.module (some "/site/a.py"))).addModule "a.b" 2
    (.module (some "/site/a/b.py"))).insert 3 .interpretedClass).insert 4
    (.native .builtinFunction [4096] none)).insert 5 (.native .builtinFunction [4112] none)).setAttribute 1 "b"
    3 |>.setAttribute 3 "f" 4).setAttribute 2 "f" 5

def namesakesGround : Ground := ⟨namesakes.model, "/site", (nestedGround 2).settings⟩

/-- The same functions under other identities, their attributes listed the other way round. -/
def namesakesGround' : Ground :=
  ⟨(namesakes.rename (6 - ·)).model.reversed, "/site", (nestedGround 2).settings⟩

def namesakesResolver : Resolver :=
  .of [.of nestedLibrary 4096 8192 [("add_numbers", 4096), ("scale_numbers", 4112)]] .exact

/-- The two functions, which sorting by names leaves in the order of the table. -/
def namesakesFound : List Found :=
  [⟨⟨.builtinFunction, [4096], none⟩, "a.b.f", "a"⟩, ⟨⟨.builtinFunction, [4112], none⟩, "a.b.f", "a.b"⟩]

theorem recover_rename_namesakes :
    byName namesakesFound ≠ byName namesakesFound.reverse ∧
    namesakesFound.Perm ((enterAll namesakesGround ["a", "a.b"]).walk.found.map Prod.snd) ∧
    namesakesFound.reverse.Perm ((enterAll namesakesGround' ["a.b", "a", "a.b"]).walk.found.map Prod.snd) ∧
    reportOn namesakesGround' namesakesResolver ⟨"pkg", "1.0"⟩
        (enterAll namesakesGround' ["a.b", "a", "a.b"]) namesakesFound.reverse =
      reportOn namesakesGround namesakesResolver ⟨"pkg", "1.0"⟩ (enterAll namesakesGround ["a", "a.b"])
        namesakesFound := by
  have hinjective : Function.Injective (fun x : ObjectId => 6 - x) := fun _ _ => (UInt64.sub_right_inj 6).1
  have hm := ObjectModel.presents_model namesakes
  have hm' := ObjectModel.presents_reversed_model (namesakes.rename (6 - ·))
  have hfound : (enterAll namesakesGround ["a", "a.b"]).walk.found.map Prod.snd = namesakesFound := by
    decide +kernel
  have hfound' : (enterAll namesakesGround' ["a.b", "a", "a.b"]).walk.found.map Prod.snd = namesakesFound := by
    decide +kernel
  have hlisted : namesakesFound.Perm ((enterAll namesakesGround ["a", "a.b"]).walk.found.map Prod.snd) := by
    rw [hfound]
  have hlisted' : namesakesFound.reverse.Perm
      ((enterAll namesakesGround' ["a.b", "a", "a.b"]).walk.found.map Prod.snd) := by
    rw [hfound']
    exact List.reverse_perm _
  -- Both lists are in order already, since the names are equal and the sort is stable.
  have hkept : byName namesakesFound = namesakesFound := List.mergeSort_of_pairwise (by decide +kernel)
  have hkept' : byName namesakesFound.reverse = namesakesFound.reverse :=
    List.mergeSort_of_pairwise (by decide +kernel)
  refine ⟨?_, hlisted, hlisted', ?_⟩
  · rw [hkept, hkept']
    decide
  · exact (recover_rename namesakes _ hinjective _ _ hm hm' _ _ _ _ _ _ (by simp) _ _
      hlisted hlisted').1

end Scan
end Bridgework
