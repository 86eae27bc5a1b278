import Bridgework.Package

/-!
# Nodes of the unified call graph

A node is a function of a package, by its dotted name, or a symbol of a library. The same name in two
packages or libraries is two nodes.

- `Node` : the two kinds, interpreted nodes before native ones
- `Edge` : a call from one node to another, ordered by caller and then by callee
-/

namespace Bridgework

/-! ## Nodes -/

/-- A function in the unified call graph. -/
inductive Node where
  /-- A function of a package, by its dotted name. -/
  | interpreted (package : Package) (name : String)
  /-- A symbol of a library. -/
  | native (library : Library) (symbol : String)
  deriving DecidableEq, Repr, Inhabited

namespace Node

/-- The order of names within their scopes: by scope, then by name. -/
def compareScoped {α : Type} [Ord α] : α × String → α × String → Ordering :=
  compareLex (compareOn Prod.fst) (compareOn Prod.snd)

instance {α : Type} [Ord α] [Std.TransOrd α] : Std.TransCmp (@compareScoped α _) :=
  inferInstanceAs (Std.TransCmp (compareLex (compareOn Prod.fst) (compareOn Prod.snd)))

theorem eq_of_compareScoped {α : Type} [Ord α] [Std.LawfulEqOrd α] {a b : α × String}
    (h : compareScoped a b = .eq) : a = b := by
  simp only [compareScoped, compareLex, compareOn, Ordering.then_eq_eq] at h
  exact Prod.ext (Std.LawfulEqOrd.eq_of_compare h.1) (Std.LawfulEqOrd.eq_of_compare h.2)

instance : Ord Node where
  compare
    | .interpreted p n, .interpreted q m => compareScoped (p, n) (q, m)
    | .interpreted .., .native .. => .lt
    | .native .., .interpreted .. => .gt
    | .native l s, .native k t => compareScoped (l, s) (k, t)

instance : Std.TransOrd Node where
  eq_swap {a b} := by
    cases a <;> cases b
    · exact @Std.OrientedCmp.eq_swap _ compareScoped _ _ _
    · rfl
    · rfl
    · exact @Std.OrientedCmp.eq_swap _ compareScoped _ _ _
  isLE_trans {a b c} hab hbc := by
    cases a <;> cases b <;> cases c
    · exact @Std.TransCmp.isLE_trans _ compareScoped _ _ _ _ hab hbc
    · rfl
    · cases hbc
    · rfl
    · cases hab
    · cases hab
    · cases hbc
    · exact @Std.TransCmp.isLE_trans _ compareScoped _ _ _ _ hab hbc

instance : Std.LawfulEqOrd Node where
  eq_of_compare {a b} h := by
    cases a <;> cases b
    · have := eq_of_compareScoped h
      simp only [Prod.mk.injEq] at this
      rw [this.1, this.2]
    · cases h
    · cases h
    · have := eq_of_compareScoped h
      simp only [Prod.mk.injEq] at this
      rw [this.1, this.2]

def name : Node → String
  | .interpreted _ n => n
  | .native _ s => s

/-- The package that defines the function or installs the library. -/
def package : Node → Package
  | .interpreted p _ => p
  | .native l _ => l.package

def library? : Node → Option Library
  | .interpreted _ _ => none
  | .native l _ => some l

def isNative : Node → Bool
  | .interpreted _ _ => false
  | .native _ _ => true

def isOwnOf (p : Package) : Node → Bool
  | .interpreted q _ => q == p
  | .native _ _ => false

/-- The node as its scope, two colons and its name. -/
def display : Node → String
  | .interpreted p n => p.display ++ "::" ++ n
  | .native l s => l.display ++ "::" ++ s

def toJson : Node → Json
  | .interpreted p n =>
    .object [("kind", .text "interpreted"), ("package", p.toJson), ("name", .text n)]
  | .native l s => .object [("kind", .text "native"), ("library", l.toJson), ("symbol", .text s)]

def ofJson? (j : Json) : Option Node := do
  let (kind, rest) ← j.tagged "kind"
  match kind with
  | "interpreted" =>
    let r ← rest.record ["package", "name"]
    return .interpreted (← r.required "package" Package.ofJson?) (← r.required "name" Json.asString)
  | "native" =>
    let r ← rest.record ["library", "symbol"]
    return .native (← r.required "library" Library.ofJson?) (← r.required "symbol" Json.asString)
  | _ => none

end Node

/-! ## Edges -/

structure Edge where
  source : Node
  target : Node
  deriving DecidableEq, Repr, Inhabited

namespace Edge

instance : Ord Edge where
  compare := compareLex (compareOn Edge.source) (compareOn Edge.target)

instance : Std.TransOrd Edge :=
  inferInstanceAs (Std.TransCmp (compareLex (compareOn Edge.source) (compareOn Edge.target)))

instance : Std.LawfulEqOrd Edge where
  eq_of_compare {a b} h := by
    have h : ((compareOn Edge.source a b).then (compareOn Edge.target a b)) = .eq := h
    rw [Ordering.then_eq_eq] at h
    cases a
    cases b
    simp only [Edge.mk.injEq]
    exact ⟨Std.LawfulEqOrd.eq_of_compare h.1, Std.LawfulEqOrd.eq_of_compare h.2⟩

end Edge
end Bridgework
