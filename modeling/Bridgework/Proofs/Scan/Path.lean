import Bridgework.Scan.Recovery

/-!
# Attribute paths

How an object can be reached from a module, said without the walk: from attribute to attribute, through
objects that an inspection knows and that are no modules outside the root.

- `Scan.Ground.Allows` : the objects that a path may pass
- `Scan.Ground.Path` : attribute paths, with their keys and the objects that they pass
- `Scan.Ground.Entry` : modules that can be imported and lie below the root
- `Scan.Ground.Placed` : a dotted name that leads from an entry module to an object
- `Scan.nested` : a package of three objects
-/

namespace Bridgework
namespace Scan
namespace Ground

variable {g : Ground}

/-! ## Objects -/

/-- The object has an attribute of this name that refers to another object. -/
def HasAttribute (g : Ground) (x : ObjectId) (key : String) (y : ObjectId) : Prop :=
  ∃ l, g.model.attributes x = .ok l ∧ (key, y) ∈ l

/-- The object is known and is no module outside the root. -/
def Allows (g : Ground) (x : ObjectId) : Prop :=
  ∃ shape, g.model.shape x = .ok shape ∧ (shape.isModule = true → g.modulePath? shape ≠ none)

/-- A module that can be imported by the name and lies below the root at the path. -/
structure Entry (g : Ground) (name : String) (x : ObjectId) (path : String) : Prop where
  imported : g.model.importModule name = .ok x
  below : ∃ file, g.model.shape x = .ok (.module (some file)) ∧ Path.below? file g.root = some path

/-- Where an object enters native code, by its verdict within the bound of the settings. -/
def native? (g : Ground) (x : ObjectId) : Option NativeEntry :=
  Verdict.entry? (g.model.classify x g.settings.maxUnwrapDepth)

/-- The attributes of an object, by what the model answers. -/
theorem mem_attributesOf_iff {x y : ObjectId} {key : String} :
    (key, y) ∈ Walk.attributesOf g x ↔ g.HasAttribute x key y := by
  unfold Walk.attributesOf HasAttribute
  cases g.model.attributes x with
  | ok l => simp
  | error e => simp

/-- What enters native code is known and is no module. -/
theorem exists_shape_of_native {x : ObjectId} {e : NativeEntry} (h : g.native? x = some e) :
    ∃ shape, g.model.shape x = .ok shape ∧ shape.isModule = false := by
  unfold native? ObjectModel.classify ObjectModel.classifyFrom at h
  split at h
  next => cases h
  next shape hshape =>
    refine ⟨shape, hshape, ?_⟩
    cases shape with
    | module file => cases h
    | _ => rfl

theorem allows_of_native {x : ObjectId} {e : NativeEntry} (h : g.native? x = some e) :
    g.Allows x := by
  rcases exists_shape_of_native h with ⟨shape, hshape, hmodule⟩
  refine ⟨shape, hshape, ?_⟩
  intro htrue
  rw [hmodule] at htrue
  cases htrue

/-- A module enters no native code. -/
theorem Entry.native?_eq_none {name path : String} {x : ObjectId} (h : g.Entry name x path) :
    g.native? x = none := by
  rcases h.below with ⟨file, hshape, _⟩
  match hnative : g.native? x with
  | none => rfl
  | some e =>
    rcases exists_shape_of_native hnative with ⟨shape, hshape', hmodule⟩
    obtain rfl := Except.ok.inj (hshape.symm.trans hshape')
    cases hmodule

/-! ## Paths -/

/-- An attribute path, with its keys and the objects before its end. -/
inductive Path (g : Ground) (start : ObjectId) : List String → List ObjectId → ObjectId → Prop where
  | nil : Path g start [] [] start
  | snoc {keys : List String} {through : List ObjectId} {x y : ObjectId} {key : String}
      (p : Path g start keys through x) (hkey : g.HasAttribute x key y) (hy : g.Allows y) :
      Path g start (keys ++ [key]) (through ++ [x]) y

/-- A path passes where it starts, unless it ends there. -/
theorem Path.start_mem_append {start x : ObjectId} {keys : List String} {through : List ObjectId}
    (h : g.Path start keys through x) : start ∈ through ++ [x] := by
  induction h with
  | nil => exact List.mem_singleton_self _
  | snoc _ _ _ ih => exact List.mem_append_left _ ih

/-- The dotted name leads from an entry module to the object. -/
def Placed (g : Ground) (names : List String) (x : ObjectId) (text : String) : Prop :=
  ∃ name ∈ names, ∃ m path keys through, g.Entry name m path ∧ g.Path m keys through x ∧
    text = ".".intercalate (name :: keys)

/-- An attribute of an object that has a name has the longer name. -/
theorem Placed.attribute {names : List String} {x y : ObjectId} {text key : String}
    (h : g.Placed names x text) (hkey : g.HasAttribute x key y) (hy : g.Allows y) :
    g.Placed names y (text ++ "." ++ key) := by
  rcases h with ⟨name, hname, m, path, keys, through, hentry, hpath, rfl⟩
  refine ⟨name, hname, m, path, keys ++ [key], through ++ [x], hentry, hpath.snoc hkey hy, ?_⟩
  have happend : ".".intercalate ((name :: keys) ++ [key]) =
      ".".intercalate (name :: keys) ++ "." ++ ".".intercalate [key] :=
    String.intercalate_append_of_ne_nil (List.cons_ne_nil _ _) (List.cons_ne_nil _ _)
  rw [String.intercalate_singleton] at happend
  exact happend.symm

end Ground

/-! ## A small package

Module `a` has module `b` as an attribute, and `b` has a native function `f`. -/

def nested : Snapshot :=
  ((((Snapshot.empty.addModule "a" 1 (.module (some "/site/a.py"))).addModule "b" 2
    (.module (some "/site/b.py"))).insert 3 (.native .builtinFunction [4096] none)).setAttribute 1 "b"
    2).setAttribute 2 "f" 3

def nestedLibrary : Library := .ofPath ⟨"pkg", "1.0"⟩ "pkg/_native.so"

def nestedResolver : Resolver := .of [.of nestedLibrary 4096 8192 [("add_numbers", 4096)]] .exact

/-- Room for ten objects, up to the given depth. -/
def nestedGround (depth : Nat) : Ground := ⟨nested.model, "/site", ⟨depth, 10, 8, .exact, false⟩⟩

end Scan
end Bridgework
