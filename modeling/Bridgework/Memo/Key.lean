import Bridgework.Error
import Bridgework.Package
import Bridgework.Text.Quoted

/-!
# Keys of cached results

- `Memo.Kind` : what kind of result is cached
- `Memo.Key` : a result, by its kind, its package and the context in which it was computed
-/

namespace Bridgework
namespace Memo

/-! ## Kinds -/

inductive Kind where
  | bridgeReport
  | interpretedGraph
  | nativeGraph
  | unifiedGraph
  deriving DecidableEq, Repr

namespace Kind

def name : Kind → String
  | .bridgeReport => "bridge-report"
  | .interpretedGraph => "interpreted-graph"
  | .nativeGraph => "native-graph"
  | .unifiedGraph => "unified-graph"

def ofName? : String → Option Kind
  | "bridge-report" => some .bridgeReport
  | "interpreted-graph" => some .interpretedGraph
  | "native-graph" => some .nativeGraph
  | "unified-graph" => some .unifiedGraph
  | _ => none

def rank : Kind → Nat
  | .bridgeReport => 0
  | .interpretedGraph => 1
  | .nativeGraph => 2
  | .unifiedGraph => 3

theorem rank_inj {a b : Kind} (h : a.rank = b.rank) : a = b := by
  revert h
  cases a <;> cases b <;> decide

def ofJson? (j : Json) : Option Kind := j.variant.bind ofName?

end Kind

/-! ## Keys -/

/-- What identifies a cached result. -/
structure Key where
  kind : Kind
  package : Package
  /-- What else the result depends on. -/
  context : String
  deriving DecidableEq, Repr

namespace Key

def kindRank (k : Key) : Nat := k.kind.rank

instance : Ord Key where
  compare :=
    compareLex (compareOn Key.kindRank) (compareLex (compareOn Key.package) (compareOn Key.context))

instance : Std.TransOrd Key :=
  inferInstanceAs (Std.TransCmp (compareLex (compareOn Key.kindRank)
    (compareLex (compareOn Key.package) (compareOn Key.context))))

instance : Std.LawfulEqOrd Key where
  eq_of_compare {a b} h := by
    have h : ((compareOn Key.kindRank a b).then
      ((compareOn Key.package a b).then (compareOn Key.context a b))) = .eq := h
    rw [Ordering.then_eq_eq, Ordering.then_eq_eq] at h
    have hk : a.kindRank = b.kindRank := Std.LawfulEqOrd.eq_of_compare h.1
    cases a
    cases b
    simp only [Key.mk.injEq]
    exact ⟨Kind.rank_inj hk, Std.LawfulEqOrd.eq_of_compare h.2.1, Std.LawfulEqOrd.eq_of_compare h.2.2⟩

def ofParts (kind : String) (package : Package) (context : String) : Except Error Key :=
  match Kind.ofName? kind with
  | some k => .ok ⟨k, package, context⟩
  | none => .error (.config ("unknown cache kind " ++ Text.quoted kind))

def display (k : Key) : String := k.kind.name ++ "/" ++ k.package.display ++ "/" ++ k.context

def toJson (k : Key) : Json :=
  .object [("kind", .text k.kind.name), ("package", k.package.toJson), ("context", .text k.context)]

def ofJson? (j : Json) : Option Key := do
  let r ← j.record ["kind", "package", "context"]
  return ⟨← r.required "kind" Kind.ofJson?, ← r.required "package" Package.ofJson?,
    ← r.required "context" Json.asString⟩

end Key
end Memo
end Bridgework
