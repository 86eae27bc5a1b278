import Bridgework.Proofs.Scan.Order
import Bridgework.Proofs.Scan.Walk

/-!
# No bridge is made up

Every bridge of a report can be traced back: to an entry module in a shared object, or to one object with an
attribute path to it that spells the bridge's name, whose own native entry leads to the bridge's symbol and
library.

- `Scan.Leads` : the symbols and libraries that a native entry leads to
- `Scan.mem_bridges_recover_iff` : the bridges of a report, from what the walk has found
- `Scan.Walk.Sound` : what the walk has found is there under its name
- `Scan.bridges_traced` : where bridges come from
-/

namespace Bridgework
namespace Scan

/-! ## The bridges of a report -/

/-- The entry leads to the symbol in the library: by one of its addresses, or by its declared name if none of
its addresses is that of a symbol. -/
def Leads (r : Resolver) (e : NativeEntry) (library : Library) (symbol : String) : Prop :=
  (∃ a ∈ e.addresses, r.resolve a = .resolved library symbol) ∨
    (∀ a ∈ e.addresses, ∀ library symbol, r.resolve a ≠ .resolved library symbol) ∧
      e.declaredName = some symbol ∧ r.resolveName? symbol = some library

/-- An object lands where one of its addresses is that of a symbol. -/
theorem mem_addressLandings_iff {r : Resolver} {f : Found} {l : Landing} :
    l ∈ addressLandings r f ↔ ∃ a ∈ f.entry.addresses, ∃ library symbol,
      r.resolve a = .resolved library symbol ∧ l = .of f.name symbol library := by
  unfold addressLandings
  rw [List.mem_filterMap]
  refine exists_congr fun a => and_congr_right fun _ => ?_
  cases r.resolve a with
  | resolved library symbol =>
    constructor
    · intro hl
      exact ⟨library, symbol, rfl, (Option.some.inj hl).symm⟩
    · rintro ⟨library', symbol', hresolved, rfl⟩
      cases hresolved
      rfl
  | outside => simp
  | noSymbol library => simp

/-- An object lands nowhere exactly if none of its addresses is that of a symbol. -/
theorem addressLandings_eq_nil_iff {r : Resolver} {f : Found} :
    addressLandings r f = [] ↔
      ∀ a ∈ f.entry.addresses, ∀ library symbol, r.resolve a ≠ .resolved library symbol := by
  rw [List.eq_nil_iff_forall_not_mem]
  constructor
  · intro h a ha library symbol hresolve
    exact h _ (mem_addressLandings_iff.2 ⟨a, ha, library, symbol, hresolve, rfl⟩)
  · intro h l hl
    rcases mem_addressLandings_iff.1 hl with ⟨a, ha, library, symbol, hresolve, _⟩
    exact h a ha library symbol hresolve

/-- An object lands where its entry leads. -/
theorem mem_bridgesOf_iff {r : Resolver} {f : Found} {l : Landing} :
    l ∈ bridgesOf r f ↔
      ∃ library symbol, Leads r f.entry library symbol ∧ l = .of f.name symbol library := by
  unfold bridgesOf
  -- Names are looked up only if no address leads anywhere.
  split
  next hnil =>
    have hnone := addressLandings_eq_nil_iff.1 hnil
    constructor
    · intro hl
      split at hl
      next => cases hl
      next name hname =>
        split at hl
        next => cases hl
        next library hlibrary =>
          exact ⟨library, name, .inr ⟨hnone, hname, hlibrary⟩, List.mem_singleton.1 hl⟩
    · rintro ⟨library, symbol, ⟨a, ha, hresolve⟩ | ⟨_, hname, hlibrary⟩, rfl⟩
      · exact absurd hresolve (hnone a ha library symbol)
      · simp [hname, hlibrary]
  next hsome =>
    rw [mem_addressLandings_iff]
    constructor
    · rintro ⟨a, ha, library, symbol, hresolve, rfl⟩
      exact ⟨library, symbol, .inl ⟨a, ha, hresolve⟩, rfl⟩
    · rintro ⟨library, symbol, ⟨a, ha, hresolve⟩ | ⟨hnone, _, _⟩, rfl⟩
      · exact ⟨a, ha, library, symbol, hresolve, rfl⟩
      · exact absurd (addressLandings_eq_nil_iff.2 hnone) hsome

/-- The bridges of a report are those of the objects found, and those of imports. -/
theorem mem_bridges_recover_iff {g : Ground} {r : Resolver} {package : Package} {entries : List String}
    {b : Bridge} :
    b ∈ (recover g r package entries).bridges ↔
      (∃ p ∈ (enterAll g entries).walk.found, ∃ library symbol, Leads r p.2.entry library symbol ∧
        b = .of p.2.name symbol library.path) ∨
      g.settings.importBridges = true ∧ ∃ name path, (name, path) ∈ (enterAll g entries).paths.toList ∧
        Install.isSharedObject (Path.fileName path) = true ∧
        b = .of Bridge.importName (Bridge.loaderStem ++ Text.lastPart name) path := by
  have hbridges : b ∈ (recover g r package entries).bridges ↔
      b ∈ ((((enterAll g entries).walk.found.map Prod.snd).flatMap (bridgesOf r) ++
        importLandings g (enterAll g entries).paths).map (·.bridge)) := by
    rw [recover_eq_collect]
    exact SortedSet.mem_ofList
  -- A bridge comes from an object that was found, or from an imported module.
  rw [hbridges, List.map_append, List.mem_append]
  refine or_congr ?_ ?_
  · simp only [List.mem_map, List.mem_flatMap, mem_bridgesOf_iff]
    constructor
    · rintro ⟨l, ⟨f, ⟨p, hp, rfl⟩, library, symbol, hleads, rfl⟩, rfl⟩
      exact ⟨p, hp, library, symbol, hleads, rfl⟩
    · rintro ⟨p, hp, library, symbol, hleads, rfl⟩
      exact ⟨_, ⟨p.2, ⟨p, hp, rfl⟩, library, symbol, hleads, rfl⟩, rfl⟩
  · unfold importLandings
    split
    next hon =>
      simp only [List.mem_map, List.mem_filterMap, Prod.exists, hon, true_and]
      constructor
      · rintro ⟨l, ⟨name, path, hmem, hl⟩, rfl⟩
        unfold importLanding? at hl
        split at hl
        next hshared =>
          obtain rfl := Option.some.inj hl
          exact ⟨name, path, hmem, hshared, rfl⟩
        next => cases hl
      · rintro ⟨name, path, hmem, hshared, rfl⟩
        exact ⟨_, ⟨name, path, hmem, if_pos hshared⟩, rfl⟩
    next hoff => simp [hoff]

/-! ## What the walk has found -/

variable {g : Ground} {names entries : List String} {w : Walk} {queue : List Waiting}

namespace Walk

/-- What was found has the entry of its verdict, and like everything that waits it is there under its
name. -/
structure Sound (g : Ground) (names : List String) (w : Walk) (queue : List Waiting) : Prop where
  entries : ∀ p ∈ w.found, g.native? p.1 = some p.2.entry
  named : ∀ p ∈ w.found, g.Placed names p.1 p.2.name
  waiting : ∀ o ∈ queue, g.Placed names o.id o.name

/-- Offering a name that leads to the object keeps what was found sound. -/
theorem Sound.offer {id : ObjectId} {text : String} (h : w.Sound g names queue)
    (hplaced : g.Allows id → g.Placed names id text) : (w.offer id text).Sound g names queue where
  entries := by
    intro p hp
    rcases mem_found_offer hp with ⟨q, hq, hid, hentry, _⟩
    rw [hid, hentry]
    exact h.entries q hq
  named := by
    intro p hp
    rcases mem_found_offer hp with ⟨q, hq, hid, hentry, hname | ⟨hid', hname⟩⟩
    · rw [hid, hname]
      exact h.named q hq
    · -- What was found is no module, so the offered name is that of a path.
      have hallows : g.Allows q.1 := Ground.allows_of_native (h.entries q hq)
      rw [hid', hname]
      exact hplaced (hid' ▸ hid ▸ hallows)
  waiting := h.waiting

/-- A visit keeps what was found sound: the new name is that of the owner with an attribute. -/
theorem Sound.visit {origin key : String} {owner : Waiting} {id : ObjectId} {state : Walk × List Waiting}
    (h : w.Sound g names queue) (howner : g.Placed names owner.id owner.name)
    (hkey : g.HasAttribute owner.id key id) (hvisit : Visit g origin owner w queue key id state) :
    state.1.Sound g names state.2 := by
  -- The attribute lies at its owner's place, one name further.
  have hplaced : g.Allows id → g.Placed names id (owner.name ++ "." ++ key) := howner.attribute hkey
  cases hvisit with
  | halted _ => exact h
  | passed _ _ => exact h.offer hplaced
  | full _ _ _ => exact ⟨(h.offer hplaced).entries, (h.offer hplaced).named, h.waiting⟩
  | unknown _ _ _ _ => exact ⟨(h.offer hplaced).entries, (h.offer hplaced).named, h.waiting⟩
  | outside _ _ => exact h.offer hplaced
  -- Only here something new is found and comes to wait.
  | fresh _ _ _ _ hallows =>
    refine ⟨?_, ?_, ?_⟩
    · intro p hp
      rcases mem_found_examine.1 hp with hold | ⟨e, he, rfl⟩
      · exact (h.offer hplaced).entries p hold
      · exact he
    · intro p hp
      rcases mem_found_examine.1 hp with hold | ⟨e, he, rfl⟩
      · exact (h.offer hplaced).named p hold
      · exact hplaced hallows
    · intro o ho
      rcases List.mem_append.1 ho with ho | ho
      · exact h.waiting o ho
      · obtain rfl := List.mem_singleton.1 ho
        exact hplaced hallows

/-- A turn keeps what was found sound. -/
theorem Sound.turn {origin : String} {owner : Waiting} (h : w.Sound g names (owner :: queue)) :
    (turn g origin owner (w, queue)).1.Sound g names (turn g origin owner (w, queue)).2 := by
  have howner : g.Placed names owner.id owner.name := h.waiting owner List.mem_cons_self
  refine turn_invariant (I := fun _ state => state.1.Sound g names state.2) ?_ ?_
  · exact ⟨h.entries, h.named, fun o ho => h.waiting o (List.mem_cons_of_mem _ ho)⟩
  · intro past w queue key id hkey h state hvisit
    exact h.visit howner hkey hvisit

/-- A walk from an entry module keeps what was found sound. -/
theorem Sound.fromModule {name path : String} {m : ObjectId} (h : w.Sound g names [])
    (hname : name ∈ names) (hentry : g.Entry name m path) :
    (w.fromModule g name m).Sound g names [] := by
  by_cases hnew : m ∈ w.seen
  · rw [fromModule_of_mem hnew]
    exact h
  · have hplaced : g.Placed names m name :=
      ⟨name, hname, m, path, [], [], hentry, .nil, String.intercalate_singleton.symm⟩
    have hstart : (w.meet m).Sound g names [⟨m, name, 0⟩] := by
      refine ⟨h.entries, h.named, ?_⟩
      intro o ho
      obtain rfl := List.mem_singleton.1 ho
      exact hplaced
    rcases fromModule_invariant hnew hstart (fun w owner queue h => h.turn) with ⟨rest, hend, _⟩
    exact ⟨hend.entries, hend.named, by simp⟩

end Walk

/-- After walking from all entry modules: what was found is there under its name, and the paths of modules
are those of entry modules. -/
theorem sound_enterAll (g : Ground) (entries : List String) :
    (enterAll g entries).walk.Sound g entries [] ∧
      ∀ name path, (name, path) ∈ (enterAll g entries).paths.toList → name ∈ entries ∧
        ∃ m, g.Entry name m path := by
  -- Modules are entered one after another: a walk from each, and a path for each.
  refine foldl_enter_invariant (I := fun e => e.walk.Sound g entries [] ∧
    ∀ name path, (name, path) ∈ e.paths.toList → name ∈ entries ∧ ∃ m, g.Entry name m path) ?_ ?_ ?_
  · exact ⟨⟨nofun, nofun, nofun⟩, nofun⟩
  · intro e e' hwalk hpaths h
    rw [hwalk, hpaths]
    exact h
  · intro e name m path e' hname hentry hpaths hwalk h
    have hname : name ∈ entries := SortedSet.mem_ofList.1 hname
    rw [hwalk, hpaths]
    refine ⟨h.1.fromModule hname hentry, ?_⟩
    intro name' path' hmem
    rcases SortedMap.mem_of_mem_insertInto hmem with heq | hold
    · obtain ⟨rfl, rfl⟩ := Prod.mk.inj heq
      exact ⟨hname, m, hentry⟩
    · exact h.2 name' path' hold

/-! ## Main result -/

/-- The bridge is that of the import of an entry module in a shared object. -/
def IsImportBridge (g : Ground) (entries : List String) (b : Bridge) : Prop :=
  g.settings.importBridges = true ∧ ∃ name ∈ entries, ∃ m path, g.Entry name m path ∧
    Install.isSharedObject (Path.fileName path) = true ∧ b.callable = "___IMPORT___" ∧
    b.symbol = "PyInit_" ++ Text.lastPart name ∧ b.library = Path.normalize path

/-- The bridge is that of an object at the end of an attribute path from an entry module. -/
def IsObjectBridge (g : Ground) (r : Resolver) (entries : List String) (b : Bridge) : Prop :=
  ∃ name ∈ entries, ∃ m path keys through o e library, g.Entry name m path ∧ g.Path m keys through o ∧
    b.callable = ".".intercalate (name :: keys) ∧
    g.native? o = some e ∧ Leads r e library b.symbol ∧ b.library = Path.normalize library.path

/-- Every bridge of a report is that of an import or that of an object. -/
theorem bridges_traced (g : Ground) (r : Resolver) (package : Package) (entries : List String) (b : Bridge)
    (hb : b ∈ (recover g r package entries).bridges) :
    IsImportBridge g entries b ∨ IsObjectBridge g r entries b := by
  obtain ⟨hsound, hpaths⟩ := sound_enterAll g entries
  rcases mem_bridges_recover_iff.1 hb with ⟨p, hp, library, symbol, hleads, rfl⟩ | ⟨hon, name, path, hmem,
    hshared, rfl⟩
  · right
    rcases hsound.named p hp with ⟨name, hname, m, path, keys, through, hentry, hpath, htext⟩
    exact ⟨name, hname, m, path, keys, through, p.1, p.2.entry, library, hentry, hpath, htext,
      hsound.entries p hp, hleads, rfl⟩
  · left
    obtain ⟨hname, m, hentry⟩ := hpaths name path hmem
    exact ⟨hon, name, hname, m, path, hentry, hshared, rfl, rfl, rfl⟩

theorem bridges_traced_nested :
    ⟨"a.b.f", "add_numbers", "pkg/_native.so"⟩ ∈
        (recover (nestedGround 2) nestedResolver ⟨"pkg", "1.0"⟩ ["b", "a"]).bridges ∧
      IsObjectBridge (nestedGround 2) nestedResolver ["b", "a"] ⟨"a.b.f", "add_numbers", "pkg/_native.so"⟩ := by
  have hb : ⟨"a.b.f", "add_numbers", "pkg/_native.so"⟩ ∈
      (recover (nestedGround 2) nestedResolver ⟨"pkg", "1.0"⟩ ["b", "a"]).bridges := by decide +kernel
  refine ⟨hb, ?_⟩
  rcases bridges_traced _ _ _ _ _ hb with ⟨himport, _⟩ | hobject
  · cases himport
  · exact hobject

end Scan
end Bridgework
