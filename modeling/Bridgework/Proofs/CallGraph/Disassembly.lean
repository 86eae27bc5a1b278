import Bridgework.CallGraph.Disassembly
import Bridgework.Proofs.CallGraph.Consistent
import Bridgework.Proofs.Json.Settled

/-!
# The call graph of a disassembler's report

A report lists symbols under keys, calls between keys, exports and imports. The end of a call may be
written as a number, which counts as the key with its digits. A symbol may be listed, imported and
exported at once; whichever it is, the call graph defines or imports it, so that only an end that is no
key can be wrong.

- `Disassembly.Listing`, `Disassembly.Listing.ShownIn` : what a report lists, and how it is written
- `Disassembly.ofJson?_of_shownIn` : a report is read as what it lists
- `Disassembly.resolveCalls_eq` : the first end that is no key is the error
- `Disassembly.Listing.Draws` : the call graph of a listing
- `NativeGraph.ofDisassembly_exact` : when there is a call graph, and which
-/

namespace Bridgework
namespace Disassembly

/-! ## Listings -/

/-- The end of a call, by number or by key. -/
inductive CallEnd where
  | number (n : UInt64)
  | key (k : String)
  deriving DecidableEq, Repr

/-- The key of the symbol: a number counts as its digits. -/
def CallEnd.toKey : CallEnd → String
  | .number n => toString n.toNat
  | .key k => k

def keys (c : CallEnd × CallEnd) : String × String := (c.1.toKey, c.2.toKey)

/-- What a report lists. -/
structure Listing where
  /-- The keys and names of the symbols. -/
  symbols : List (String × String)
  calls : List (CallEnd × CallEnd)
  exports : List Export
  imports : List String
  deriving DecidableEq, Repr

inductive ShowsEnd : Json → CallEnd → Prop
  | number {n : UInt64} {m : Json.Numeral} (h : m.number? = some (.natural n.toNat)) :
      ShowsEnd (.num m) (.number n)
  | key (k : String) : ShowsEnd (.text k) (.key k)

/-- The document of a call is an array of two ends. -/
def ShowsCall (j : Json) (c : CallEnd × CallEnd) : Prop :=
  ∃ a b, j = .arr [a, b] ∧ ShowsEnd a c.1 ∧ ShowsEnd b c.2

/-- A symbol has a member with its key and an object with its name. -/
def ShowsSymbol (m : String × Json) (s : String × String) : Prop :=
  m.1 = s.1 ∧ ∃ fields, m.2 = .object fields ∧ ("name", .text s.2) ∈ fields

def ShowsSymbols (j : Json) (symbols : List (String × String)) : Prop :=
  ∃ ms, j = .object ms ∧ List.Forall₂ ShowsSymbol ms symbols

/-- The document of an export is an object with its name and offset. -/
def ShowsExport (j : Json) (e : Export) : Prop :=
  ∃ fields m, j = .object fields ∧ ("name", .text e.name) ∈ fields ∧ ("offset", .num m) ∈ fields ∧
    m.number? = some (.natural e.offset.toNat)

/-- The listing is what the members of a report show; a part that is left out is empty. Other members are
passed over. -/
structure Listing.ShownIn (r : Listing) (ms : List (String × Json)) : Prop where
  symbols : Json.Under ShowsSymbols "nodes" [] ms r.symbols
  calls : Json.Under (Json.ShowsList ShowsCall) "edges" [] ms r.calls
  exports : Json.Under (Json.ShowsList ShowsExport) "exports" [] ms r.exports
  imports : Json.Under (Json.ShowsList fun j name => j = .text name) "imports" [] ms r.imports

/-- The report of a listing, with all ends by their keys. -/
def Listing.report (r : Listing) : Disassembly where
  symbols := .ofList r.symbols
  calls := r.calls.map keys
  exports := r.exports
  imports := r.imports

/-! ## Reading a report -/

/-- An end that is a number is read as its digits. -/
theorem ShowsEnd.asString_asEnd {j : Json} {e : CallEnd} (h : ShowsEnd j e) :
    (asEnd j).asString = some e.toKey := by
  cases h with
  | @number n m h =>
    have hnat : (Json.num m).asNat = some n.toNat := by
      rw [Json.asNat, h]
    rw [asEnd, hnat]
    rfl
  | key k => rfl

theorem ShowsCall.asPair_asEnds {j : Json} {c : CallEnd × CallEnd} (h : ShowsCall j c) :
    (asEnds j).asPair Json.asString Json.asString = some (keys c) := by
  obtain ⟨a, b, rfl, ha, hb⟩ := h
  simp only [asEnds, List.map_cons, List.map_nil, Json.asPair, ha.asString_asEnd, hb.asString_asEnd, keys]

/-- The calls of a report are read as pairs of keys. -/
theorem asList_asCalls {j : Json} {calls : List (CallEnd × CallEnd)} (h : Json.ShowsList ShowsCall j calls) :
    (asCalls j).asList (Json.asPair Json.asString Json.asString) = some (calls.map keys) := by
  obtain ⟨items, rfl, hitems⟩ := h
  apply Json.mapM_eq_some_of_forall₂
  rw [List.forall₂_map_left_iff, List.forall₂_map_right_iff]
  exact hitems.imp fun _ _ hc => hc.asPair_asEnds

theorem symbolOfJson?_object {fields : List (String × Json)} {name : String}
    (hfields : (fields.map Prod.fst).Nodup) (hname : ("name", .text name) ∈ fields) :
    symbolOfJson? (.object fields) = some name := by
  have hrecord := Json.record_object_of_nodup hfields ["name"]
  rw [symbolOfJson?, hrecord]
  exact Json.required_record hfields (by decide) hrecord hname

/-- The symbols of a report are read as a map by their keys. -/
theorem asMap_symbols {j : Json} {symbols : List (String × String)} (h : ShowsSymbols j symbols)
    (hj : j.Settled) : j.asMap symbolOfJson? = some (.ofList symbols) := by
  obtain ⟨ms, rfl, hms⟩ := h
  have hmembers : (Json.object ms).asMembers symbolOfJson? = some symbols := by
    apply Json.mapM_eq_some_of_forall₂
    rw [List.forall₂_map_left_iff]
    have hsettled := (Json.settled_object_iff.1 hj).2
    refine ((List.forall₂_and_left _ _).2 ⟨hsettled, hms⟩).imp ?_
    -- The object of a symbol is settled too: it has one name.
    rintro ⟨k, v⟩ ⟨k', name⟩ ⟨hv, rfl, fields, rfl, hname⟩
    have hsymbol := symbolOfJson?_object (Json.settled_object_iff.1 hv).1 hname
    simp only [Json.Literal.ofString, hsymbol]
  rw [Json.asMap, hmembers, Option.map_some]

theorem ShowsExport.ofJson? {j : Json} {e : Export} (h : ShowsExport j e) (hj : j.Settled) :
    Export.ofJson? j = some e := by
  obtain ⟨fields, m, rfl, hname, hoffset, hm⟩ := h
  have hfields := (Json.settled_object_iff.1 hj).1
  have hrecord := Json.record_object_of_nodup hfields ["name", "offset"]
  have hword : (Json.num m).asWord = some e.offset := by
    rw [Json.asWord, Json.asNat, hm]
    simp
  rw [Export.ofJson?, hrecord]
  simp only [bind, Option.bind_some, Json.required_record hfields (by decide) hrecord hname,
    Json.required_record hfields (by decide) hrecord hoffset, hword]
  rfl

/-- The members of a report with the ends of its calls as keys. -/
def withKeys (ms : List (String × Json)) : List (String × Json) :=
  ms.map fun m => (m.1, if m.1 = "edges" then asCalls m.2 else m.2)

/-- Only the calls of a report are changed when ends are made texts. -/
theorem normalizeEnds_object (ms : List (String × Json)) : normalizeEnds (.object ms) = .object (withKeys ms) := by
  simp only [normalizeEnds, Json.object, withKeys, List.map_map]
  congr 2
  funext m
  by_cases hm : m.1 = "edges"
  · simp [Json.Literal.ofString, hm]
  · simp [Json.Literal.ofString, hm]

section Members

variable {ms : List (String × Json)}

theorem map_fst_withKeys (ms : List (String × Json)) : (withKeys ms).map Prod.fst = ms.map Prod.fst := by
  rw [withKeys, List.map_map]
  rfl

theorem under_withKeys {α : Type} {shows : Json → α → Prop} {name : String} {default a : α}
    (hms : ∀ m ∈ ms, m.2.Settled) (hname : name ≠ "edges") (h : Json.Under shows name default ms a) :
    Json.Under (fun j a => j.Settled ∧ shows j a) name default (withKeys ms) a := by
  refine h.map (f := fun name j => if name = "edges" then asCalls j else j) fun j hj hshows => ?_
  -- Only the calls are written anew, so that this part is as settled as it was.
  rw [if_neg hname]
  exact ⟨hms _ hj, hshows⟩

theorem under_withKeys_calls {calls : List (CallEnd × CallEnd)}
    (h : Json.Under (Json.ShowsList ShowsCall) "edges" [] ms calls) :
    Json.Under (fun j calls => ∃ i, j = asCalls i ∧ Json.ShowsList ShowsCall i calls) "edges" []
      (withKeys ms) calls :=
  h.map (f := fun name j => if name = "edges" then asCalls j else j) fun j _ hshows => ⟨j, if_pos rfl, hshows⟩

/-- A report is read as what it lists. -/
theorem ofJson?_of_shownIn {r : Listing} (hms : (Json.object ms).Settled) (h : r.ShownIn ms) :
    ofJson? (.object ms) = some r.report := by
  obtain ⟨hnames, hsettled⟩ := Json.settled_object_iff.1 hms
  have hnodup : ((withKeys ms).map Prod.fst).Nodup := by
    rwa [map_fst_withKeys]
  -- No name is repeated, so there are fields, and each of the four is read on its own.
  obtain ⟨f, hf⟩ : ∃ f, (Json.object (withKeys ms)).record ["nodes", "edges", "exports", "imports"] = some f :=
    ⟨_, Json.record_object_of_nodup hnodup _⟩
  have hsymbols : f.withDefault "nodes" .empty (Json.asMap symbolOfJson?) = some (.ofList r.symbols) :=
    (under_withKeys hsettled (by decide) h.symbols).withDefault_record hnodup (by decide) hf
      SortedMap.ofList fun j hj => asMap_symbols hj.2 hj.1
  have hcalls : f.withDefault "edges" [] (Json.asList (Json.asPair Json.asString Json.asString)) =
      some (r.calls.map keys) :=
    (under_withKeys_calls h.calls).withDefault_record hnodup (by decide) hf
      (List.map keys) fun j ⟨_, hj, hshows⟩ => hj ▸ asList_asCalls hshows
  have hexports : f.withDefault "exports" [] (Json.asList Export.ofJson?) = some r.exports :=
    (under_withKeys hsettled (by decide) h.exports).withDefault_record hnodup (by decide) hf
      id fun j hj => (hj.2.and_settled hj.1).asList fun _ _ he => he.2.ofJson? he.1
  have himports : f.withDefault "imports" [] (Json.asList Json.asString) = some r.imports :=
    (under_withKeys hsettled (by decide) h.imports).withDefault_record hnodup (by decide) hf
      id fun j hj => hj.2.asList fun _ _ hname => hname ▸ rfl
  rw [ofJson?, normalizeEnds_object, hf]
  simp only [bind, Option.bind_some, hsymbols, hcalls, hexports, himports]
  rfl

/-- A document that is settled has no member twice, so that no key is listed twice. -/
theorem nodup_keys_of_shownIn {r : Listing} (hms : (Json.object ms).Settled) (h : r.ShownIn ms) :
    (r.symbols.map Prod.fst).Nodup := by
  rcases h.symbols with ⟨j, hj, members, rfl, hsymbols⟩ | ⟨hnone, _⟩
  · have hkeys : members.map Prod.fst = r.symbols.map Prod.fst := by
      rw [← List.forall₂_eq_eq_eq, List.forall₂_map_left_iff, List.forall₂_map_right_iff]
      exact hsymbols.imp fun _ _ hs => hs.1
    have hsettled := (Json.settled_object_iff.1 hms).2 _ hj
    exact hkeys ▸ (Json.settled_object_iff.1 hsettled).1
  · rw [hnone]
    exact .nil

end Members

/-! ## Calls by name -/

/-- A call is resolved exactly if both of its keys are listed. -/
theorem call?_eq_some_iff {d : Disassembly} {c : String × String} {k : Call} :
    d.call? c = some k ↔ d.symbols.get? c.1 = some k.caller ∧ d.symbols.get? c.2 = some k.callee := by
  obtain ⟨caller, callee⟩ := k
  rw [call?]
  cases d.symbols.get? c.1 with
  | none => simp
  | some a =>
    cases d.symbols.get? c.2 with
    | none => simp
    | some b => simp

/-- The error of a call with an end that is no key. -/
def undeclared (library : Library) (c : String × String) : Error :=
  .graphInconsistency (NativeGraph.sourceName library)
    ("edge [" ++ c.1 ++ ", " ++ c.2 ++ "] references an undeclared node")

/-- Calls are named one after another, up to the first that has no names. -/
theorem resolveCalls_eq (library : Library) (d : Disassembly) (cs : List (String × String)) :
    resolveCalls library d cs =
      (cs.find? fun c => (d.call? c).isNone).elim (.ok (cs.filterMap d.call?))
        fun c => .error (undeclared library c) := by
  induction cs with
  | nil => rfl
  | cons c cs ih =>
    rw [resolveCalls, List.find?_cons]
    cases hc : d.call? c with
    | none => rfl
    | some k =>
      rw [ih, List.filterMap_cons_some hc, Option.isNone_some]
      cases cs.find? fun c => (d.call? c).isNone with
      | none => rfl
      | some c => rfl

namespace Listing

variable {r : Listing} {library : Library} {c : CallEnd × CallEnd}

/-- Both ends of the call are keys. -/
def Keyed (r : Listing) (c : CallEnd × CallEnd) : Prop :=
  c.1.toKey ∈ r.symbols.map Prod.fst ∧ c.2.toKey ∈ r.symbols.map Prod.fst

instance decidableKeyed (r : Listing) (c : CallEnd × CallEnd) : Decidable (r.Keyed c) :=
  inferInstanceAs (Decidable (_ ∧ _))

/-- Under a key the name that is listed for it is found. -/
theorem get?_report (hkeys : (r.symbols.map Prod.fst).Nodup) {k name : String} :
    r.report.symbols.get? k = some name ↔ (k, name) ∈ r.symbols := by
  constructor
  · intro h
    exact (SortedMap.get?_insertMany_cases h).resolve_right nofun
  · exact SortedMap.get?_insertMany_of_mem hkeys

theorem call?_report_eq_some_iff (hkeys : (r.symbols.map Prod.fst).Nodup) {k : Call} :
    r.report.call? (keys c) = some k ↔
      (c.1.toKey, k.caller) ∈ r.symbols ∧ (c.2.toKey, k.callee) ∈ r.symbols := by
  rw [call?_eq_some_iff, keys, get?_report hkeys, get?_report hkeys]

/-- A call cannot be resolved exactly if one of its ends is no key. -/
theorem isNone_call?_report_iff (hkeys : (r.symbols.map Prod.fst).Nodup) :
    (r.report.call? (keys c)).isNone = true ↔ ¬ r.Keyed c := by
  rw [Option.isNone_iff_eq_none, Option.eq_none_iff_forall_ne_some]
  simp only [ne_eq, call?_report_eq_some_iff hkeys]
  constructor
  · rintro h ⟨hcaller, hcallee⟩
    obtain ⟨a, ha, hcaller⟩ := List.mem_map.1 hcaller
    obtain ⟨b, hb, hcallee⟩ := List.mem_map.1 hcallee
    exact h ⟨a.2, b.2⟩ ⟨hcaller ▸ ha, hcallee ▸ hb⟩
  · rintro h k ⟨hcaller, hcallee⟩
    exact h ⟨List.mem_map_of_mem hcaller, List.mem_map_of_mem hcallee⟩

/-- The first call with an end that is no key is the error; without one, all calls are resolved. -/
theorem resolveCalls_report (library : Library) (hkeys : (r.symbols.map Prod.fst).Nodup) :
    resolveCalls library r.report r.report.calls =
      (r.calls.find? fun c => ¬ r.Keyed c).elim (.ok (r.report.calls.filterMap r.report.call?))
        fun c => .error (undeclared library (keys c)) := by
  have hfind : (r.report.calls.find? fun c => (r.report.call? c).isNone) =
      (r.calls.find? fun c => ¬ r.Keyed c).map keys := by
    rw [report, List.find?_map]
    congr 2
    funext c
    rw [Bool.eq_iff_iff, decide_eq_true_eq]
    exact isNone_call?_report_iff hkeys
  rw [resolveCalls_eq, hfind]
  cases r.calls.find? fun c => ¬ r.Keyed c with
  | none => rfl
  | some c => rfl

/-! ## The graph -/

/-- The call graph of a listing. -/
structure Draws (r : Listing) (library : Library) (g : NativeGraph) : Prop where
  library : g.library = library
  /-- Listed symbols are defined unless they are imported, and exported ones in any case. -/
  functions (f : String) : f ∈ g.functions ↔
    (f ∈ r.symbols.map Prod.snd ∧ f ∉ r.imports) ∨ f ∈ r.exports.map Export.name
  imports (f : String) : f ∈ g.imports ↔ f ∈ r.imports
  /-- The calls stay in order, and their ends have the names that are listed under their keys. -/
  calls : List.Forall₂ (fun c k => (c.1.toKey, k.caller) ∈ r.symbols ∧ (c.2.toKey, k.callee) ∈ r.symbols)
    r.calls g.calls
  increasing : Increasing g.exports
  exports (e : Export) : e ∈ g.exports ↔ e ∈ r.exports

/-- Every listed symbol is defined or imported. -/
theorem Draws.hasSymbol {g : NativeGraph} (h : r.Draws library g) {k f : String} (hf : (k, f) ∈ r.symbols) :
    g.HasSymbol f := by
  -- Whatever is left out of the functions is left out because it is imported.
  by_cases himport : f ∈ r.imports
  · exact .inr ((h.imports f).2 himport)
  · exact .inl ((h.functions f).2 (.inl ⟨List.mem_map_of_mem hf, himport⟩))

/-- The graph of a listing has the symbols of its calls. -/
theorem Draws.consistent {g : NativeGraph} (h : r.Draws library g) : g.Consistent := by
  have hcalls : List.Forall₂ (fun k c => (g.HasSymbol k.caller ∧ g.HasSymbol k.callee) ∧ True)
      g.calls r.calls :=
    h.calls.flip.imp fun k c hc => ⟨⟨h.hasSymbol hc.1, h.hasSymbol hc.2⟩, trivial⟩
  exact ((List.forall₂_and_left _ _).1 hcalls).1

theorem Draws.declares_export {g : NativeGraph} (h : r.Draws library g) {e : Export} (he : e ∈ g.exports) :
    g.declares e.name = true := by
  rw [NativeGraph.declares_iff]
  exact .inl ((h.functions e.name).2 (.inr (List.mem_map_of_mem ((h.exports e).1 he))))

/-- The names of a report are those that are listed. -/
theorem mem_values_report (hkeys : (r.symbols.map Prod.fst).Nodup) {f : String} :
    f ∈ r.report.symbols.values ↔ f ∈ r.symbols.map Prod.snd := by
  rw [SortedMap.values, List.mem_map, List.mem_map]
  refine exists_congr fun s => and_congr_left fun _ => ?_
  rw [← SortedMap.get?_eq_some_iff (k := s.1) (v := s.2), get?_report hkeys]

/-- Resolved calls stand in the order of the report. -/
theorem forall₂_calls (hkeys : (r.symbols.map Prod.fst).Nodup) {cs : List (CallEnd × CallEnd)}
    (h : ∀ c ∈ cs, r.Keyed c) :
    List.Forall₂ (fun c k => (c.1.toKey, k.caller) ∈ r.symbols ∧ (c.2.toKey, k.callee) ∈ r.symbols)
      cs ((cs.map keys).filterMap r.report.call?) := by
  induction cs with
  | nil => exact .nil
  | cons c cs ih =>
    rw [List.forall_mem_cons] at h
    cases hc : r.report.call? (keys c) with
    -- No call is dropped: two keys have two names.
    | none => exact absurd h.1 ((isNone_call?_report_iff hkeys).1 (Option.isNone_iff_eq_none.2 hc))
    | some k =>
      rw [List.map_cons, List.filterMap_cons_some hc]
      exact .cons ((call?_report_eq_some_iff hkeys).1 hc) (ih h.2)

/-- The first call with an end that is no key is reported. -/
theorem toGraph_report_of_find? (library : Library) (hkeys : (r.symbols.map Prod.fst).Nodup)
    (h : r.calls.find? (fun c => ¬ r.Keyed c) = some c) :
    r.report.toGraph library = .error (undeclared library (keys c)) := by
  rw [toGraph, resolveCalls_report library hkeys, h]
  rfl

/-- If all ends are keys there is a graph, which is the one of the listing. -/
theorem exists_toGraph_report (library : Library) (hkeys : (r.symbols.map Prod.fst).Nodup)
    (h : ∀ c ∈ r.calls, r.Keyed c) : ∃ g, r.report.toGraph library = .ok g ∧ r.Draws library g := by
  have hfind : r.calls.find? (fun c => ¬ r.Keyed c) = none := by
    rw [List.find?_eq_none]
    intro c hc
    simpa using h c hc
  rw [toGraph, resolveCalls_report library hkeys, hfind]
  refine ⟨_, rfl, rfl, fun f => ?_, fun f => SortedSet.mem_ofList, forall₂_calls hkeys h,
    SortedSet.increasing _, fun e => SortedSet.mem_ofList⟩
  rw [SortedSet.mem_insertMany, SortedSet.mem_ofList, List.mem_filter, mem_values_report hkeys,
    Bool.not_eq_true', ← Bool.not_eq_true, SortedSet.contains_iff, SortedSet.mem_ofList]
  rfl

end Listing

/-- Either a first call with an end that is no key is the error, or there is the call graph. -/
theorem Listing.toGraph_report_cases {r : Listing} (library : Library)
    (hkeys : (r.symbols.map Prod.fst).Nodup) :
    (∃ c, r.calls.find? (fun c => ¬ r.Keyed c) = some c ∧
      r.report.toGraph library = .error (undeclared library (keys c))) ∨
    (∀ c ∈ r.calls, r.Keyed c) ∧ ∃ g, r.report.toGraph library = .ok g ∧ r.Draws library g := by
  cases hfind : r.calls.find? fun c => ¬ r.Keyed c with
  | some c => exact .inl ⟨c, rfl, toGraph_report_of_find? library hkeys hfind⟩
  | none =>
    have hall : ∀ c ∈ r.calls, r.Keyed c := by
      intro c hc
      simpa using List.find?_eq_none.1 hfind c hc
    exact .inr ⟨hall, exists_toGraph_report library hkeys hall⟩

/-- What the text of a report gives is the graph of the listing that it shows. -/
theorem ofDisassembly_eq {text : String} {ms : List (String × Json)} {r : Listing} (library : Library)
    (htext : (Json.parse? text).bind Json.settled? = some (.object ms)) (hr : r.ShownIn ms) :
    NativeGraph.ofDisassembly library text = r.report.toGraph library ∧ (r.symbols.map Prod.fst).Nodup := by
  obtain ⟨j, _, hj⟩ := Option.bind_eq_some_iff.1 htext
  have hsettled := Json.settled_of_settled? hj
  refine ⟨?_, nodup_keys_of_shownIn hsettled hr⟩
  rw [NativeGraph.ofDisassembly, htext]
  simp only [ofJson?_of_shownIn hsettled hr]

/-- For a report that lists what it should, the keys are distinct, and the only error is that an end of a
call is no key; the first such call is named. Otherwise there is a call graph: it is the one of the listing,
it is valid, and it declares its exports. A number and the key of its digits are interchangeable as ends. -/
theorem ofDisassembly_exact {text : String} {ms : List (String × Json)} {r : Listing} (library : Library)
    (htext : (Json.parse? text).bind Json.settled? = some (.object ms)) (hr : r.ShownIn ms) :
    (r.symbols.map Prod.fst).Nodup ∧
    ((∃ source detail, NativeGraph.ofDisassembly library text = .error (.graphInconsistency source detail)) ↔
      ∃ c ∈ r.calls, ¬ r.Keyed c) ∧
    (∀ e, NativeGraph.ofDisassembly library text = .error e →
      ∃ c, r.calls.find? (fun c => ¬ r.Keyed c) = some c ∧ e = undeclared library (keys c)) ∧
    ((∀ c ∈ r.calls, r.Keyed c) → ∃ g, NativeGraph.ofDisassembly library text = .ok g) ∧
    (∀ g, NativeGraph.ofDisassembly library text = .ok g →
      r.Draws library g ∧ g.validate = .ok () ∧ ∀ e ∈ g.exports, g.declares e.name = true) ∧
    ∀ text' ms' calls, (Json.parse? text').bind Json.settled? = some (.object ms') →
      ({ r with calls } : Listing).ShownIn ms' → calls.map keys = r.calls.map keys →
      NativeGraph.ofDisassembly library text' = NativeGraph.ofDisassembly library text := by
  obtain ⟨heq, hkeys⟩ := ofDisassembly_eq library htext hr
  have hsame : ∀ text' ms' calls, (Json.parse? text').bind Json.settled? = some (.object ms') →
      ({ r with calls } : Listing).ShownIn ms' → calls.map keys = r.calls.map keys →
      NativeGraph.ofDisassembly library text' = r.report.toGraph library := by
    intro text' ms' calls htext' hr' hcalls
    rw [(ofDisassembly_eq library htext' hr').1, Listing.report, Listing.report, hcalls]
  rw [heq]
  -- Which of the two cases it is decides all statements but the last one.
  rcases Listing.toGraph_report_cases library hkeys with ⟨c, hfind, herror⟩ | ⟨hall, g, hok, hdraws⟩
  · have hloose : ∃ c ∈ r.calls, ¬ r.Keyed c :=
      ⟨c, List.mem_of_find?_eq_some hfind, by simpa using List.find?_some hfind⟩
    refine ⟨hkeys, iff_of_true ⟨_, _, herror⟩ hloose, fun e he => ⟨c, hfind, ?_⟩, fun hall => ?_,
      fun g hg => ?_, hsame⟩
    · exact Except.error.inj (he.symm.trans herror)
    · obtain ⟨c, hc, hnot⟩ := hloose
      exact absurd (hall c hc) hnot
    · cases herror.symm.trans hg
  · refine ⟨hkeys, iff_of_false ?_ ?_, fun e he => ?_, fun _ => ⟨g, hok⟩, fun g' hg' => ?_, hsame⟩
    · rintro ⟨source, detail, he⟩
      cases hok.symm.trans he
    · rintro ⟨c, hc, hnot⟩
      exact hnot (hall c hc)
    · cases hok.symm.trans he
    · obtain rfl : g = g' := Except.ok.inj (hok.symm.trans hg')
      exact ⟨hdraws, NativeGraph.validate_eq_ok_iff.2 hdraws.consistent, fun e he => hdraws.declares_export he⟩

/-- A report with a symbol that is listed, imported and exported. -/
def overlapMembers : List (String × Json) :=
  [("nodes", .object [("0", .object [("name", .text "add")]), ("1", .object [("name", .text "malloc")])]),
    ("edges", .arr [.arr [.nat 0, .text "1"]]),
    ("exports", .arr [.object [("name", .text "malloc"), ("offset", .nat 8)]]),
    ("imports", .arr [.text "malloc"])]

def overlap : Listing where
  symbols := [("0", "add"), ("1", "malloc")]
  calls := [(.number 0, .key "1")]
  exports := [⟨"malloc", 8⟩]
  imports := ["malloc"]

theorem shownIn_overlap : overlap.ShownIn overlapMembers where
  symbols := by
    refine .inl ⟨_, List.mem_cons_self, _, rfl, ?_⟩
    exact .cons ⟨rfl, _, rfl, List.mem_cons_self⟩ (.cons ⟨rfl, _, rfl, List.mem_cons_self⟩ .nil)
  calls := by
    have hnumber : (Json.Numeral.ofNat 0).number? = some (.natural (0 : UInt64).toNat) := by decide
    refine .inl ⟨_, List.mem_cons_of_mem _ List.mem_cons_self, _, rfl, ?_⟩
    exact .cons ⟨_, _, rfl, .number hnumber, .key "1"⟩ .nil
  exports := by
    have hoffset : (Json.Numeral.ofNat 8).number? = some (.natural (8 : UInt64).toNat) := by decide
    refine .inl ⟨_, List.mem_cons_of_mem _ (List.mem_cons_of_mem _ List.mem_cons_self), _, rfl, ?_⟩
    exact .cons ⟨_, _, rfl, List.mem_cons_self, List.mem_cons_of_mem _ List.mem_cons_self, hoffset⟩ .nil
  imports := by
    refine .inl ⟨_, List.mem_cons_of_mem _ (List.mem_cons_of_mem _ (List.mem_cons_of_mem _ List.mem_cons_self)),
      _, rfl, ?_⟩
    exact .cons rfl .nil

theorem regular_overlap : (Json.object overlapMembers).Regular := by
  have hnat {n : Nat} (hn : n < 9) : (Json.nat n).Regular := .nat (Nat.lt_trans hn (by decide))
  have hname (name : String) : (Json.object [("name", .text name)]).Regular :=
    .object (List.forall_mem_singleton.2 (.text name))
  apply Json.Regular.object
  simp only [overlapMembers, List.forall_mem_cons]
  refine ⟨.object ?_, .arr ?_, .arr ?_, .arr ?_, List.forall_mem_nil _⟩
  · exact List.forall_mem_cons.2 ⟨hname "add", List.forall_mem_singleton.2 (hname "malloc")⟩
  · refine List.forall_mem_singleton.2 (.arr ?_)
    exact List.forall_mem_cons.2 ⟨hnat (by decide), List.forall_mem_singleton.2 (.text "1")⟩
  · refine List.forall_mem_singleton.2 (.object ?_)
    exact List.forall_mem_cons.2 ⟨.text "malloc", List.forall_mem_singleton.2 (hnat (by decide))⟩
  · exact List.forall_mem_singleton.2 (.text "malloc")

theorem ofDisassembly_exact_overlap :
    ∃ g, NativeGraph.ofDisassembly ⟨⟨"app", "1"⟩, "core.so"⟩ (Json.object overlapMembers).render = .ok g ∧
      "malloc" ∈ g.functions ∧ "malloc" ∈ g.imports ∧ g.validate = .ok () := by
  have htext : (Json.parse? (Json.object overlapMembers).render).bind Json.settled? =
      some (.object overlapMembers) := by
    rw [regular_overlap.parse?_render]
    rfl
  obtain ⟨_, _, _, hexists, hgraph, _⟩ :=
    ofDisassembly_exact ⟨⟨"app", "1"⟩, "core.so"⟩ htext shownIn_overlap
  obtain ⟨g, hg⟩ := hexists (by decide)
  obtain ⟨hdraws, hvalid, _⟩ := hgraph g hg
  exact ⟨g, hg, (hdraws.functions "malloc").2 (.inr List.mem_cons_self),
    (hdraws.imports "malloc").2 List.mem_cons_self, hvalid⟩

end Disassembly
end Bridgework
