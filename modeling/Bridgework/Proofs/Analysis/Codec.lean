import Bridgework.Proofs.Analysis.Stage
import Bridgework.Proofs.Json.Decode
import Bridgework.Analysis.Client

/-!
# Results that are read back

What goes through the cache is written and read again. Call graphs come back as they were. So do bridge reports
whose numbers have 64 bits and that took no time; of a unified graph the document comes back.

- `Codec.readBack_eq` : what is read of a document that is read as it was written
- `readBack_interpretedGraph`, `readBack_nativeGraph`, `readBack_bridgeReport` : what comes back
- `readBack_stitchReport` : documents of unified graphs are read as they were written
-/

namespace Bridgework

open Json (Faithful)

/-- A result whose document can be printed is read back through the document alone; no text is involved. -/
theorem Codec.readBack_eq {α : Type} (c : Codec α) {a : α} (h : (c.toJson a).Printed) :
    c.readBack a = c.ofJson (c.toJson a) := by
  rw [readBack, render, parse, h.parse?_render]

/-- What is encoded faithfully is read back unchanged. -/
theorem Json.Faithful.readBack {α : Type} {encode : α → Json} {decode : Json → Option α}
    (h : Faithful encode decode) (a : α) : (Codec.ofOption encode decode).readBack a = .ok a := by
  rw [Codec.readBack_eq _ (h.regular a).printed]
  simp only [Codec.ofOption, h.decode_encode]

/-! ## Packages and calls -/

theorem Package.faithful : Faithful toJson ofJson? where
  regular p := .object (by simp [Json.Regular.text])
  decode_encode p := by
    have hrecord : p.toJson.record ["name", "version"] =
        some ⟨true, [("name", some (.text p.name)), ("version", some (.text p.version))]⟩ :=
      Json.record_object (by simp)
    simp [ofJson?, hrecord, Json.Fields.required, Json.Fields.value?, Json.faithful_text.decode_encode]

theorem Library.faithful : Faithful toJson ofJson? where
  regular l := .object (by simp [Json.Regular.text, Package.faithful.regular])
  decode_encode l := by
    have hrecord : l.toJson.record ["package", "path"] =
        some ⟨true, [("package", some l.package.toJson), ("path", some (.text l.path))]⟩ :=
      Json.record_object (by simp)
    simp [ofJson?, hrecord, Json.Fields.required, Json.Fields.value?, Json.faithful_text.decode_encode,
      Package.faithful.decode_encode]

theorem Call.faithful : Faithful toJson ofJson? where
  regular c := .arr (by simp [Json.Regular.text])
  decode_encode _ := rfl

/-! ## Call graphs -/

/-- A call graph is a list of names and lists of pairs of names, which are all told apart in its document. -/
theorem InterpretedGraph.faithful : Faithful toJson ofJson? where
  regular g := .object (by
    simp [Package.faithful.regular, Json.faithful_text.list.regular, Call.faithful.list.regular])
  decode_encode g := by
    have hrecord : g.toJson.record ["package", "functions", "edges", "external_calls"] =
        some ⟨true, [("package", some g.package.toJson),
          ("functions", some (.list .text g.functions.toList)),
          ("edges", some (.list Call.toJson g.calls)),
          ("external_calls", some (.list Call.toJson g.externalCalls))]⟩ := Json.record_object (by simp)
    simp [ofJson?, hrecord, Json.Fields.required, Json.Fields.withDefault, Json.Fields.value?,
      Package.faithful.decode_encode, Json.faithful_text.list.decode_encode, Call.faithful.list.decode_encode,
      SortedSet.ofList_toList]

theorem Export.faithful : Faithful toJson ofJson? where
  regular e := .object (by simp [Json.Regular.text, Json.faithful_word.regular])
  decode_encode e := by
    have hrecord : e.toJson.record ["name", "offset"] =
        some ⟨true, [("name", some (.text e.name)), ("offset", some (.nat e.offset.toNat))]⟩ :=
      Json.record_object (by simp)
    simp [ofJson?, hrecord, Json.Fields.required, Json.Fields.value?, Json.faithful_text.decode_encode,
      Json.faithful_word.decode_encode]

theorem NativeGraph.faithful : Faithful toJson ofJson? where
  regular g := .object (by
    simp [Library.faithful.regular, Json.faithful_text.list.regular, Call.faithful.list.regular,
      Export.faithful.list.regular])
  decode_encode g := by
    have hrecord : g.toJson.record ["library", "functions", "edges", "exports", "imports"] =
        some ⟨true, [("library", some g.library.toJson), ("functions", some (.list .text g.functions.toList)),
          ("edges", some (.list Call.toJson g.calls)), ("exports", some (.list Export.toJson g.exports)),
          ("imports", some (.list .text g.imports.toList))]⟩ := Json.record_object (by simp)
    simp [ofJson?, hrecord, Json.Fields.required, Json.Fields.withDefault, Json.Fields.value?,
      Library.faithful.decode_encode, Json.faithful_text.list.decode_encode, Call.faithful.list.decode_encode,
      Export.faithful.list.decode_encode, SortedSet.ofList_toList]

theorem readBack_interpretedGraph (g : InterpretedGraph) : interpretedCodec.readBack g = .ok g :=
  InterpretedGraph.faithful.readBack g

theorem readBack_nativeGraph (g : NativeGraph) : nativeCodec.readBack g = .ok g := NativeGraph.faithful.readBack g

/-! ## Bridge reports -/

theorem Bridge.faithful : Faithful toJson ofJson? where
  regular b := .object (by simp [Json.Regular.text])
  decode_encode b := by
    have hrecord : b.toJson.record ["pyname", "cfunc", "library"] =
        some ⟨true, [("pyname", some (.text b.callable)), ("cfunc", some (.text b.symbol)),
          ("library", some (.text b.library))]⟩ := Json.record_object (by simp)
    simp [ofJson?, hrecord, Json.Fields.required, Json.Fields.value?, Json.faithful_text.decode_encode]

theorem ModuleRecord.faithful : Faithful toJson ofJson? where
  regular m := .object (by simp [Json.Regular.text])
  decode_encode m := by
    have hrecord : m.toJson.record ["path", "import_name"] =
        some ⟨true, [("path", some (.text m.path)), ("import_name", some (.text m.importName))]⟩ :=
      Json.record_object (by simp)
    simp [ofJson?, hrecord, Json.Fields.required, Json.Fields.value?, Json.faithful_text.decode_encode]

theorem SkippedModule.faithful : Faithful toJson ofJson? where
  regular m := .object (by simp [Json.Regular.text])
  decode_encode m := by
    have hrecord : m.toJson.record ["import_name", "reason"] =
        some ⟨true, [("import_name", some (.text m.importName)), ("reason", some (.text m.reason))]⟩ :=
      Json.record_object (by simp)
    simp [ofJson?, hrecord, Json.Fields.required, Json.Fields.value?, Json.faithful_text.decode_encode]

namespace BridgeReport

/-- The numbers of the report have 64 bits, and it took no time. -/
structure Plain (r : BridgeReport) : Prop where
  objectsExamined : r.objectsExamined < UInt64.size
  callableObjects : r.callableObjects < UInt64.size
  foreignObjects : r.foreignObjects < UInt64.size
  count : r.count < UInt64.size
  unresolvedForeign : r.unresolvedForeign < UInt64.size
  duration : r.duration = .zero false

theorem printed_of_plain {r : BridgeReport} (h : r.Plain) : r.toJson.Printed := by
  apply Json.Printed.object
  simp only [members, h.duration, List.cons_append, List.nil_append, List.forall_mem_cons]
  exact ⟨(Package.faithful.regular _).printed, .nat _, .nat _, .nat _, .zero, .nat _,
    (ModuleRecord.faithful.list.regular _).printed, (Json.faithful_text.list.regular _).printed,
    (Bridge.faithful.list.regular _).printed, .nat _, (SkippedModule.faithful.list.regular _).printed, by simp⟩

/-- A plain report is told by its document, its duration being zero. -/
theorem ofJson?_toJson {r : BridgeReport} (h : r.Plain) : ofJson? r.toJson = some r := by
  have hrecord : r.toJson.record ["package", "objects_examined", "callable_objects",
      "foreign_callable_objects", "duration_sec", "count", "modules", "jump_libs", "bridges",
      "unresolved_foreign", "skipped_modules"] = some ⟨true, (r.members.1 ++
        ("duration_sec", .double r.duration) :: r.members.2).map fun m => (m.1, some m.2)⟩ :=
    Json.record_object (by simp [members])
  have hduration : (Json.double r.duration).asDouble = some r.duration := by
    rw [h.duration]
    decide +kernel
  simp [ofJson?, hrecord, members, Json.Fields.required, Json.Fields.withDefault, Json.Fields.value?,
    Package.faithful.decode_encode, ModuleRecord.faithful.list.decode_encode,
    Json.faithful_text.list.decode_encode, Bridge.faithful.list.decode_encode,
    SkippedModule.faithful.list.decode_encode, Json.asNat_nat h.objectsExamined,
    Json.asNat_nat h.callableObjects, Json.asNat_nat h.foreignObjects, Json.asNat_nat h.count,
    Json.asNat_nat h.unresolvedForeign, hduration]

end BridgeReport

theorem readBack_bridgeReport {r : BridgeReport} (h : r.Plain) : bridgeCodec.readBack r = .ok r := by
  rw [Codec.readBack_eq _ (BridgeReport.printed_of_plain h)]
  simp only [bridgeCodec, Codec.ofOption, BridgeReport.ofJson?_toJson h]

/-- The report of a package without native code is plain. -/
theorem readBack_emptyReport (p : Package) : bridgeCodec.readBack (.empty p) = .ok (.empty p) := by
  have hnone : 0 < UInt64.size := by decide
  exact readBack_bridgeReport ⟨hnone, hnone, hnone, hnone, hnone, rfl⟩

/-! ## Unified graphs -/

theorem Graph.printed (g : Graph) : g.toJson.Printed := by
  have hnode (n : IndexedNode) : n.toJson.Printed := by
    apply Json.Printed.object
    have hpackage := (Package.faithful.regular n.package).printed
    cases n.library <;> simp [hpackage, Json.Printed.text]
  have hedge (e : Nat × Nat) : (Json.arr [.nat e.1, .nat e.2]).Printed := .arr (by simp [Json.Printed.nat])
  apply Json.Printed.object
  simp only [List.forall_mem_cons]
  refine ⟨.object fun m hm => ?_, .arr fun j hj => ?_, by simp⟩
  · obtain ⟨n, _, rfl⟩ := List.mem_map.1 hm
    exact hnode n.2
  · obtain ⟨e, _, rfl⟩ := List.mem_map.1 hj
    exact hedge e

/-- The document of a stitched graph has names and counts only. -/
theorem StitchReport.printed (r : StitchReport) : r.toJson.Printed := by
  have hlist {α : Type} {f : α → Json} (hf : ∀ a, (f a).Printed) (l : List α) : (Json.list f l).Printed :=
    .arr fun j hj => by
      obtain ⟨a, _, rfl⟩ := List.mem_map.1 hj
      exact hf a
  have hpackage := fun p => (Package.faithful.regular p).printed
  have hplaced (b : PlacedBridge) : b.toJson.Printed :=
    .object (by simp [hpackage, (Bridge.faithful.regular b.bridge).printed])
  have hexternal (m : ExternalMiss) : m.toJson.Printed := .object (by simp [hpackage, Json.Printed.text])
  have himport (m : ImportMiss) : m.toJson.Printed :=
    .object (by simp [(Library.faithful.regular m.library).printed, Json.Printed.text])
  apply Json.Printed.object
  simp only [List.forall_mem_cons]
  exact ⟨r.graph.printed, .nat _, hlist hplaced _, hlist hplaced _, .nat _, hlist hexternal _, .nat _,
    hlist himport _, by simp⟩

/-- A unified graph is read from its document, not from its text. -/
theorem readBack_stitchReport (r : StitchReport) : stitchCodec.readBack r = StitchReport.ofJson r.toJson :=
  stitchCodec.readBack_eq r.printed

end Bridgework
