import Bridgework.Heap.Callable
import Bridgework.Proofs.Json.Decode
import Bridgework.Scan.Recovery

/-!
# Snapshots read back from their text

The text of a snapshot holds all of it: whatever objects and names were recorded, the text is read as the
snapshot that it was written from, so a scan of recorded objects can be repeated from the text.

- `Shape.word`, `Shape.fields` : the name under which a shape is written, and what is written beside it
- `Shape.faithful`, `SnapshotObject.faithful`, `Snapshot.faithful` : their documents are decoded again
- `Snapshot.replay` : reading the text of a snapshot, and asking the snapshot that was read
-/

namespace Bridgework

open Json (Faithful)

/-! ## Shapes -/

theorem NativeKind.ofName?_name (k : NativeKind) : ofName? k.name = some k := by cases k <;> rfl

theorem WrapperKind.ofName?_name (k : WrapperKind) : ofName? k.name = some k := by cases k <;> rfl

theorem NativeKind.faithful : Faithful (fun k : NativeKind => .text k.name) ofJson? where
  regular k := .text k.name
  decode_encode k := k.ofName?_name

theorem WrapperKind.faithful : Faithful (fun k : WrapperKind => .text k.name) ofJson? where
  regular k := .text k.name
  decode_encode k := k.ofName?_name

theorem faithful_optionalText : Faithful (Json.orNull Json.text) (Json.asOption Json.asString) :=
  Json.faithful_text.orNull fun _ h => by cases h

theorem faithful_words :
    Faithful (Json.list fun a : UInt64 => .nat a.toNat) (Json.asList Json.asWord) :=
  Json.faithful_word.list

namespace Shape

def word : Shape → String
  | .module _ => "module"
  | .interpretedFunction => "interpreted_function"
  | .interpretedClass => "interpreted_class"
  | .native _ _ _ => "native"
  | .wrapper _ _ => "wrapper"
  | .callableInstance _ => "callable_instance"
  | .instance _ => "instance"
  | .data => "data"

def fields : Shape → List (String × Json)
  | .module file => [("file", .orNull Json.text file)]
  | .native kind entries declaredName =>
    [("kind", .text kind.name), ("entries", .list (fun a : UInt64 => .nat a.toNat) entries),
      ("declared_name", .orNull Json.text declaredName)]
  | .wrapper kind inner => [("kind", .text kind.name), ("inner", .nat inner.toNat)]
  | .callableInstance c => [("class", .nat c.toNat)]
  | .instance c => [("class", .nat c.toNat)]
  | _ => []

theorem toJson_eq (s : Shape) : s.toJson = .object (("shape", .text s.word) :: s.fields) := by
  cases s <;> rfl

/-- The names of the fields differ from each other and from that of the shape itself. -/
theorem fields_spec (s : Shape) :
    (s.fields.map Prod.fst).Nodup ∧ ∀ m ∈ s.fields, m.1 ≠ "shape" ∧ m.2.Regular := by
  have hword := Json.faithful_word.regular
  have hwords := faithful_words.regular
  have htext := faithful_optionalText.regular
  cases s <;> simp [fields, Json.Regular.text, hword, hwords, htext]

theorem classOfJson?_object (c : ObjectId) : classOfJson? (.object [("class", .nat c.toNat)]) = some c := by
  have hrecord : (Json.object [("class", .nat c.toNat)]).record ["class"] =
      some ⟨true, [("class", some (.nat c.toNat))]⟩ := Json.record_object (by simp)
  simp [classOfJson?, hrecord, Json.Fields.required, Json.Fields.value?, Json.faithful_word.decode_encode]

/-- Every shape is told by its document. -/
theorem faithful : Faithful toJson ofJson? where
  regular s := by
    rw [toJson_eq]
    apply Json.Regular.object
    rw [List.forall_mem_cons]
    exact ⟨.text s.word, fun m hm => (s.fields_spec.2 m hm).2⟩
  decode_encode s := by
    have hrecord := Json.record_object s.fields_spec.1
    rw [ofJson?, toJson_eq, Json.tagged_object s.fields_spec.2]
    -- The fields of a record are found by their keys: what is left are the codes of the single
    -- values.
    cases s with
    | module file =>
      have hfile := faithful_optionalText.decode_encode file
      simp only [fields, List.map_cons, List.map_nil] at hrecord
      simp [word, fields, hrecord, Json.Fields.nullable, Json.Fields.value?, hfile]
    | native kind entries declaredName =>
      have hkind := NativeKind.faithful.decode_encode kind
      have hentries := faithful_words.decode_encode entries
      have hname := faithful_optionalText.decode_encode declaredName
      simp only [fields, List.map_cons, List.map_nil] at hrecord
      simp [word, fields, hrecord, Json.Fields.required, Json.Fields.withDefault, Json.Fields.value?,
        hkind, hentries, hname]
    | wrapper kind inner =>
      have hkind := WrapperKind.faithful.decode_encode kind
      simp only [fields, List.map_cons, List.map_nil] at hrecord
      simp [word, fields, hrecord, Json.Fields.required, Json.Fields.value?, hkind,
        Json.faithful_word.decode_encode]
    | callableInstance c => simp [word, fields, classOfJson?_object]
    | «instance» c => simp [word, fields, classOfJson?_object]
    | interpretedFunction | interpretedClass | data => rfl

end Shape

/-! ## Snapshots -/

theorem SnapshotObject.faithful : Faithful toJson ofJson? where
  regular o := by
    apply Json.Regular.object
    simp only [List.forall_mem_cons]
    exact ⟨Shape.faithful.regular o.shape, Json.faithful_word.map.regular o.attributes, by simp⟩
  decode_encode o := by
    have hshape := Shape.faithful.decode_encode o.shape
    have hattributes := Json.faithful_word.map.decode_encode o.attributes
    have hrecord : o.toJson.record ["shape", "attributes"] = some ⟨true, [("shape", some o.shape.toJson),
        ("attributes", some (.object (o.attributes.toList.map fun a => (a.1, .nat a.2.toNat))))]⟩ :=
      Json.record_object (by simp)
    simp [ofJson?, hrecord, Json.Fields.required, Json.Fields.withDefault, Json.Fields.value?, hshape,
      hattributes]

namespace Snapshot

/-- Objects are written under their numbers, which are read back. -/
theorem asNumbered_objects (s : Snapshot) :
    (Json.object (s.objects.toList.map fun o => (toString o.1.toNat, o.2.toJson))).asNumbered
      SnapshotObject.ofJson? = some (s.objects.toList.map fun o => (o.1.toNat, o.2)) := by
  have hread := Json.asNumbered_object SnapshotObject.faithful
    (l := s.objects.toList.map fun o => (o.1.toNat, o.2)) (by
      intro e he
      rcases List.mem_map.1 he with ⟨o, _, rfl⟩
      exact o.1.toNat_lt)
  rwa [List.map_map] at hread

/-- A snapshot is told by its document. -/
theorem faithful : Faithful toJson ofJson? where
  regular s := by
    apply Json.Regular.object
    simp only [List.forall_mem_cons]
    exact ⟨Json.faithful_word.map.regular s.modules,
      SnapshotObject.faithful.regular_object (fun id : ObjectId => toString id.toNat) s.objects.toList,
      by simp⟩
  decode_encode s := by
    let r : Json.Fields := ⟨true,
      [("modules", some (.object (s.modules.toList.map fun m => (m.1, .nat m.2.toNat)))),
        ("objects", some (.object (s.objects.toList.map fun o => (toString o.1.toNat, o.2.toJson))))]⟩
    have hrecord : s.toJson.record ["modules", "objects"] = some r := Json.record_object (by simp)
    have hmodules : r.withDefault "modules" .empty (Json.asMap Json.asWord) = some s.modules :=
      Json.faithful_word.map.decode_encode s.modules
    have hobjects : r.withDefault "objects" [] (Json.asNumbered SnapshotObject.ofJson?) =
        some (s.objects.toList.map fun o => (o.1.toNat, o.2)) := s.asNumbered_objects
    -- Numbers are written as texts, and are words again when they are read.
    have hwords : ((s.objects.toList.map fun o => (o.1.toNat, o.2)).map
        fun o => (UInt64.ofNat o.1, o.2)) = s.objects.toList := by
      simp [Function.comp_def]
    rw [ofJson?, hrecord]
    simp [hmodules, hobjects, hwords, SortedMap.ofList_toList]

/-- The text of every snapshot is read as the same snapshot, so that every question has the same answer there,
and every scan the same report. -/
theorem replay (s : Snapshot) :
    ∃ t, Snapshot.parse s.render = .ok t ∧ t = s ∧
      (∀ id bound, t.model.classify id bound = s.model.classify id bound) ∧
      ∀ root settings resolver package entries,
        Scan.recover ⟨t.model, root, settings⟩ resolver package entries =
          Scan.recover ⟨s.model, root, settings⟩ resolver package entries := by
  have hparse : Snapshot.parse s.render = .ok s := by
    rw [Snapshot.parse, Snapshot.render, faithful.parse? s]
  exact ⟨s, hparse, rfl, fun _ _ => rfl, fun _ _ _ _ _ => rfl⟩

end Snapshot
end Bridgework
