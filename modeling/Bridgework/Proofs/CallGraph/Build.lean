import Bridgework.Proofs.Unified.Stitch

/-!
# Graphs built step by step

A call graph that is built from nothing, one addition after another, has each name that an addition
mentions, whatever the order of the additions and however often a name comes again. An import takes its
symbol out of the defined ones and puts it among the imported ones, so no symbol is lost. Hence a graph so
built is consistent, and is never the reason why inputs are not stitched.

- `InterpretedGraph.Edit`, `NativeGraph.Edit` : the additions
- `InterpretedGraph.build`, `NativeGraph.build` : the graph that some additions make
- `InterpretedGraph.mem_functions_build_iff`, `NativeGraph.hasSymbol_build_iff` : what it declares
- `build_accepted` : it is accepted
-/

namespace Bridgework

/-! ## Runs of additions -/

section Runs

variable {σ ε α : Type} {step : σ → ε → σ}

/-- What each step adds to a property, a run adds. -/
theorem foldl_iff_of_step {P : σ → Prop} {A : ε → Prop} (hstep : ∀ s e, P (step s e) ↔ A e ∨ P s)
    (es : List ε) (s : σ) : P (es.foldl step s) ↔ (∃ e ∈ es, A e) ∨ P s := by
  induction es generalizing s with
  | nil => simp
  | cons e es ih =>
    rw [List.foldl_cons, ih, hstep]
    simp only [List.mem_cons, exists_eq_or_imp]
    exact or_left_comm.trans or_assoc.symm

/-- What each step puts at the end of a list, a run puts there in order. -/
theorem foldl_append_of_step {f : σ → List α} {added : ε → Option α}
    (hstep : ∀ s e, f (step s e) = f s ++ (added e).toList) (es : List ε) (s : σ) :
    f (es.foldl step s) = f s ++ es.filterMap added := by
  induction es generalizing s with
  | nil => simp
  | cons e es ih =>
    rw [List.foldl_cons, ih, hstep, List.append_assoc, List.filterMap_cons]
    cases added e with
    | none => rfl
    | some a => rfl

end Runs

/-! ## Interpreted code -/

namespace InterpretedGraph

/-- An addition to the call graph of a package. -/
inductive Edit where
  | function (name : String)
  | call (c : Call)
  | externalCall (c : Call)
  deriving DecidableEq, Repr

namespace Edit

def apply (g : InterpretedGraph) : Edit → InterpretedGraph
  | function name => g.addFunction name
  | call c => g.addCall c
  | externalCall c => g.addExternalCall c

/-- The names that the addition declares. -/
def names : Edit → List String
  | function name => [name]
  | call c => [c.caller, c.callee]
  | externalCall c => [c.caller]

def call? : Edit → Option Call
  | call c => some c
  | _ => none

/-- The call to a name of elsewhere that is added. -/
def externalCall? : Edit → Option Call
  | externalCall c => some c
  | _ => none

/-- An addition declares its names and no others. -/
theorem mem_functions_apply_iff (g : InterpretedGraph) (e : Edit) {name : String} :
    name ∈ (apply g e).functions ↔ name ∈ e.names ∨ name ∈ g.functions := by
  cases e with
  | function n => simp [apply, addFunction, names]
  | call c =>
    simp only [apply, addCall, names, SortedSet.mem_insert, List.mem_cons, List.not_mem_nil, or_false]
    exact or_left_comm.trans or_assoc.symm
  | externalCall c => simp [apply, addExternalCall, names]

theorem calls_apply (g : InterpretedGraph) (e : Edit) : (apply g e).calls = g.calls ++ e.call?.toList := by
  cases e <;> simp [apply, addFunction, addCall, addExternalCall, call?]

theorem externalCalls_apply (g : InterpretedGraph) (e : Edit) :
    (apply g e).externalCalls = g.externalCalls ++ e.externalCall?.toList := by
  cases e <;> simp [apply, addFunction, addCall, addExternalCall, externalCall?]

theorem mem_filterMap_call?_iff {es : List Edit} {c : Call} : c ∈ es.filterMap call? ↔ .call c ∈ es := by
  have hcall (e : Edit) : e.call? = some c ↔ e = .call c := by
    cases e <;> simp [call?]
  simp [hcall]

theorem mem_filterMap_externalCall?_iff {es : List Edit} {c : Call} :
    c ∈ es.filterMap externalCall? ↔ .externalCall c ∈ es := by
  have hcall (e : Edit) : e.externalCall? = some c ↔ e = .externalCall c := by
    cases e <;> simp [externalCall?]
  simp [hcall]

end Edit

def build (package : Package) (es : List Edit) : InterpretedGraph := es.foldl Edit.apply (.empty package)

def Built (g : InterpretedGraph) : Prop := ∃ package es, g = build package es

variable {package : Package} {es : List Edit}

/-- The declared names are those of the additions. -/
theorem mem_functions_build_iff {name : String} :
    name ∈ (build package es).functions ↔ ∃ e ∈ es, name ∈ e.names := by
  have hrun : name ∈ (build package es).functions ↔
      (∃ e ∈ es, name ∈ e.names) ∨ name ∈ (empty package).functions :=
    foldl_iff_of_step (P := fun g => name ∈ g.functions) (fun g e => Edit.mem_functions_apply_iff g e) es _
  rw [hrun]
  exact or_iff_left SortedSet.not_mem_empty

theorem calls_build : (build package es).calls = es.filterMap Edit.call? :=
  foldl_append_of_step Edit.calls_apply es (.empty package)

theorem externalCalls_build : (build package es).externalCalls = es.filterMap Edit.externalCall? :=
  foldl_append_of_step Edit.externalCalls_apply es (.empty package)

/-- Every call is added together with its names. -/
theorem consistent_build (package : Package) (es : List Edit) : (build package es).Consistent := by
  constructor
  · intro c hc
    rw [calls_build, Edit.mem_filterMap_call?_iff] at hc
    exact ⟨mem_functions_build_iff.2 ⟨_, hc, by simp [Edit.names]⟩,
      mem_functions_build_iff.2 ⟨_, hc, by simp [Edit.names]⟩⟩
  · intro c hc
    rw [externalCalls_build, Edit.mem_filterMap_externalCall?_iff] at hc
    exact mem_functions_build_iff.2 ⟨_, hc, by simp [Edit.names]⟩

theorem Built.consistent {g : InterpretedGraph} (hg : g.Built) : g.Consistent := by
  obtain ⟨package, es, rfl⟩ := hg
  exact consistent_build package es

end InterpretedGraph

/-! ## Native code -/

namespace NativeGraph

/-- A call defines its caller, and its callee unless that is imported. -/
theorem mem_functions_addCall_iff {g : NativeGraph} {c : Call} {s : String} :
    s ∈ (g.addCall c).functions ↔
      s = c.caller ∨ (s = c.callee ∧ ¬ c.callee ∈ g.imports) ∨ s ∈ g.functions := by
  by_cases himport : c.callee ∈ g.imports
  · simp [addCall, SortedSet.contains_iff.2 himport, himport]
  · have hcontains : g.imports.contains c.callee = false := by
      rw [Bool.eq_false_iff, ne_eq, SortedSet.contains_iff]
      exact himport
    simp [addCall, hcontains, himport, or_left_comm]

/-- An addition to the call graph of a library. -/
inductive Edit where
  | call (c : Call)
  | exported (x : Export)
  | imported (name : String)
  deriving DecidableEq, Repr

namespace Edit

def apply (g : NativeGraph) : Edit → NativeGraph
  | call c => g.addCall c
  | exported x => g.addExport x
  | imported name => g.addImport name

/-- The symbols that the addition mentions. -/
def symbols : Edit → List String
  | call c => [c.caller, c.callee]
  | exported x => [x.name]
  | imported name => [name]

def call? : Edit → Option Call
  | call c => some c
  | _ => none

def export? : Edit → Option Export
  | exported x => some x
  | _ => none

/-- No addition takes a symbol away: an import only moves it from the defined to the imported ones, and the
callee of a call is not defined only where it is imported already. -/
theorem hasSymbol_apply_iff (g : NativeGraph) (e : Edit) {s : String} :
    (apply g e).HasSymbol s ↔ s ∈ e.symbols ∨ g.HasSymbol s := by
  cases e with
  | call c =>
    have happly : (apply g (.call c)).HasSymbol s ↔
        (s = c.caller ∨ (s = c.callee ∧ ¬ c.callee ∈ g.imports) ∨ s ∈ g.functions) ∨ s ∈ g.imports :=
      or_congr_left mem_functions_addCall_iff
    rw [happly, HasSymbol, symbols]
    by_cases hs : s = c.callee
    · -- The callee is imported, or else it becomes defined.
      by_cases himport : s ∈ g.imports
      · simp [himport]
      · simp [hs, hs ▸ himport]
    · simp [hs, or_assoc]
  | exported x => simp [apply, addExport, HasSymbol, symbols, or_assoc]
  | imported name =>
    have happly : (apply g (.imported name)).HasSymbol s ↔
        (s ∈ g.functions ∧ s ≠ name) ∨ s = name ∨ s ∈ g.imports :=
      or_congr SortedSet.mem_erase SortedSet.mem_insert
    rw [happly, HasSymbol, symbols, List.mem_singleton]
    by_cases hs : s = name
    · simp [hs]
    · simp [hs]

theorem calls_apply (g : NativeGraph) (e : Edit) : (apply g e).calls = g.calls ++ e.call?.toList := by
  cases e <;> simp [apply, addCall, addExport, addImport, call?]

theorem exports_apply (g : NativeGraph) (e : Edit) : (apply g e).exports = g.exports ++ e.export?.toList := by
  cases e <;> simp [apply, addCall, addExport, addImport, export?]

theorem mem_filterMap_call?_iff {es : List Edit} {c : Call} : c ∈ es.filterMap call? ↔ .call c ∈ es := by
  have hcall (e : Edit) : e.call? = some c ↔ e = .call c := by
    cases e <;> simp [call?]
  simp [hcall]

theorem mem_filterMap_export?_iff {es : List Edit} {x : Export} :
    x ∈ es.filterMap export? ↔ .exported x ∈ es := by
  have hexport (e : Edit) : e.export? = some x ↔ e = .exported x := by
    cases e <;> simp [export?]
  simp [hexport]

end Edit

def build (library : Library) (es : List Edit) : NativeGraph := es.foldl Edit.apply (.empty library)

def Built (g : NativeGraph) : Prop := ∃ library es, g = build library es

variable {library : Library} {es : List Edit}

/-- The symbols of the graph are those of the additions. -/
theorem hasSymbol_build_iff {s : String} :
    (build library es).HasSymbol s ↔ ∃ e ∈ es, s ∈ e.symbols := by
  have hrun : (build library es).HasSymbol s ↔
      (∃ e ∈ es, s ∈ e.symbols) ∨ (empty library).HasSymbol s :=
    foldl_iff_of_step (P := fun g => g.HasSymbol s) (fun g e => Edit.hasSymbol_apply_iff g e) es _
  rw [hrun]
  exact or_iff_left (not_or.2 ⟨SortedSet.not_mem_empty, SortedSet.not_mem_empty⟩)

theorem calls_build : (build library es).calls = es.filterMap Edit.call? :=
  foldl_append_of_step Edit.calls_apply es (.empty library)

theorem exports_build : (build library es).exports = es.filterMap Edit.export? :=
  foldl_append_of_step Edit.exports_apply es (.empty library)

/-- Symbols stay defined or imported once they are mentioned. -/
theorem consistent_build (library : Library) (es : List Edit) : (build library es).Consistent := by
  intro c hc
  rw [calls_build, Edit.mem_filterMap_call?_iff] at hc
  exact ⟨hasSymbol_build_iff.2 ⟨_, hc, by simp [Edit.symbols]⟩,
    hasSymbol_build_iff.2 ⟨_, hc, by simp [Edit.symbols]⟩⟩

theorem hasSymbol_export {x : Export} (hx : x ∈ (build library es).exports) :
    (build library es).HasSymbol x.name := by
  rw [exports_build, Edit.mem_filterMap_export?_iff] at hx
  exact hasSymbol_build_iff.2 ⟨_, hx, by simp [Edit.symbols]⟩

theorem Built.consistent {g : NativeGraph} (hg : g.Built) : g.Consistent := by
  obtain ⟨library, es, rfl⟩ := hg
  exact consistent_build library es

end NativeGraph

/-! ## Stitching -/

/-- Whether inputs are stitched depends only on the graphs that are not built by additions. -/
theorem exists_stitch_iff_of_not_built {i : StitchInputs} :
    (∃ r, stitch i = .ok r) ↔
      (∀ g ∈ i.interpreted, g.Built ∨ g.validate = .ok ()) ∧
        ∀ g ∈ i.native, g.Built ∨ g.validate = .ok () := by
  have hok : (∃ r, stitch i = .ok r) ↔ i.Consistent := by
    simp only [StitchInputs.stitch_eq_ok_iff, exists_and_left, exists_eq, and_true]
  rw [hok]
  constructor
  · intro hi
    exact ⟨fun g hg => .inr (InterpretedGraph.validate_eq_ok_iff.2 (hi.interpreted g hg)),
      fun g hg => .inr (NativeGraph.validate_eq_ok_iff.2 (hi.native g hg))⟩
  · rintro ⟨hinterpreted, hnative⟩
    refine ⟨fun g hg => ?_, fun g hg => ?_⟩
    · exact (hinterpreted g hg).elim (·.consistent) InterpretedGraph.validate_eq_ok_iff.1
    · exact (hnative g hg).elim (·.consistent) NativeGraph.validate_eq_ok_iff.1

/-- A graph that additions make has every call, external call and export that was added, in order, and it is
accepted. All symbols that a graph of native code exports are defined or imported. Inputs are stitched
whatever graphs so built they have: only a graph that is not built by additions can be refused. -/
theorem build_accepted (package : Package) (es : List InterpretedGraph.Edit) (library : Library)
    (ns : List NativeGraph.Edit) (i : StitchInputs) :
    let g := InterpretedGraph.build package es
    let h := NativeGraph.build library ns
    (g.calls = es.filterMap (·.call?) ∧ g.externalCalls = es.filterMap (·.externalCall?) ∧
      g.validate = .ok ()) ∧
    (h.calls = ns.filterMap (·.call?) ∧ h.exports = ns.filterMap (·.export?) ∧ h.validate = .ok () ∧
      ∀ x ∈ h.exports, x.name ∈ h.functions ∨ x.name ∈ h.imports) ∧
    ((∃ r, stitch i = .ok r) ↔
      (∀ g ∈ i.interpreted, g.Built ∨ g.validate = .ok ()) ∧
        ∀ g ∈ i.native, g.Built ∨ g.validate = .ok ()) := by
  intro g h
  refine ⟨⟨InterpretedGraph.calls_build, InterpretedGraph.externalCalls_build, ?_⟩,
    ⟨NativeGraph.calls_build, NativeGraph.exports_build, ?_, fun x hx => NativeGraph.hasSymbol_export hx⟩,
    exists_stitch_iff_of_not_built⟩
  · exact InterpretedGraph.validate_eq_ok_iff.2 (InterpretedGraph.consistent_build package es)
  · exact NativeGraph.validate_eq_ok_iff.2 (NativeGraph.consistent_build library ns)

end Bridgework
