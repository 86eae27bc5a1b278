import Bridgework.CallGraph.Native

/-!
# Consistent call graphs

A call graph of interpreted code is consistent if it declares both names of each call and the caller of
each external call; a call graph of native code, if it defines or imports both symbols of each call.
These are the graphs without a complaint.

- `InterpretedGraph.Consistent`, `NativeGraph.Consistent`
- `InterpretedGraph.validate_eq_ok_iff`, `NativeGraph.validate_eq_ok_iff` : what is accepted
-/

namespace Bridgework

/-- The graph declares every name that it has to. -/
structure InterpretedGraph.Consistent (g : InterpretedGraph) : Prop where
  calls : ∀ c ∈ g.calls, c.caller ∈ g.functions ∧ c.callee ∈ g.functions
  externalCalls : ∀ c ∈ g.externalCalls, c.caller ∈ g.functions

/-- The symbol is defined or imported. -/
def NativeGraph.HasSymbol (g : NativeGraph) (symbol : String) : Prop :=
  symbol ∈ g.functions ∨ symbol ∈ g.imports

/-- The graph has both symbols of each of its calls. -/
def NativeGraph.Consistent (g : NativeGraph) : Prop :=
  ∀ c ∈ g.calls, g.HasSymbol c.caller ∧ g.HasSymbol c.callee

/-- There is no complaint about a call exactly if both of its names are declared. -/
theorem Call.complaint?_eq_none_iff {declared : String → Bool} {c : Call} :
    c.complaint? declared = none ↔ declared c.caller = true ∧ declared c.callee = true := by
  rw [complaint?, Option.map_eq_none_iff, undeclared?]
  cases hcaller : declared c.caller with
  | false => simp
  | true =>
    cases hcallee : declared c.callee with
    | false => simp
    | true => simp

theorem InterpretedGraph.externalComplaint?_eq_none_iff {g : InterpretedGraph} {c : Call} :
    g.externalComplaint? c = none ↔ c.caller ∈ g.functions := by
  rw [externalComplaint?, ← SortedSet.contains_iff]
  cases g.functions.contains c.caller with
  | false => simp
  | true => simp

/-- There is no complaint about a graph exactly if it declares every name that it has to. -/
theorem InterpretedGraph.complaint?_eq_none_iff {g : InterpretedGraph} :
    g.complaint? = none ↔ g.Consistent := by
  rw [complaint?, Option.or_eq_none_iff, List.findSome?_eq_none_iff, List.findSome?_eq_none_iff]
  simp only [Call.complaint?_eq_none_iff, externalComplaint?_eq_none_iff, SortedSet.contains_iff]
  exact ⟨fun h => ⟨h.1, h.2⟩, fun h => ⟨h.calls, h.externalCalls⟩⟩

theorem InterpretedGraph.validate_eq_ok_iff {g : InterpretedGraph} :
    g.validate = .ok () ↔ g.Consistent := by
  rw [← complaint?_eq_none_iff, validate]
  cases g.complaint? with
  | none => simp
  | some detail => simp

theorem NativeGraph.declares_iff {g : NativeGraph} {symbol : String} :
    g.declares symbol = true ↔ g.HasSymbol symbol := by
  rw [declares, Bool.or_eq_true, SortedSet.contains_iff, SortedSet.contains_iff, HasSymbol]

/-- Validation accepts the graphs that have both symbols of each call, and no others. -/
theorem NativeGraph.validate_eq_ok_iff {g : NativeGraph} : g.validate = .ok () ↔ g.Consistent := by
  have hnone : g.calls.findSome? (Call.complaint? g.declares) = none ↔ g.Consistent := by
    rw [List.findSome?_eq_none_iff]
    simp only [Call.complaint?_eq_none_iff, declares_iff]
    rfl
  rw [← hnone, validate]
  cases g.calls.findSome? (Call.complaint? g.declares) with
  | none => simp
  | some detail => simp

end Bridgework
