import Bridgework.Heap.Callable

/-!
# Other identities for the same objects

The identities of objects are those of one run of a program. Another run gives the same objects other
identities, and may list their attributes in another order.

- `Snapshot.rename` : a snapshot with other identities
- `ObjectModel.Presents` : a model that answers from a snapshot, with attributes in some order
- `ObjectModel.Renames` : the answers of two models are the same, up to identities and order
- `ObjectModel.Renames.classify` : then the verdicts are the same
-/

namespace Bridgework

variable {ρ : ObjectId → ObjectId} {s : Snapshot} {m m' : ObjectModel}

/-! ## Snapshots -/

def Shape.rename (ρ : ObjectId → ObjectId) : Shape → Shape
  | .wrapper kind inner => .wrapper kind (ρ inner)
  | .callableInstance c => .callableInstance (ρ c)
  | .instance c => .instance (ρ c)
  | shape => shape

def SnapshotObject.rename (ρ : ObjectId → ObjectId) (o : SnapshotObject) : SnapshotObject :=
  ⟨o.shape.rename ρ, o.attributes.mapValues fun _ x => ρ x⟩

/-- The snapshot with other identities: of modules, of objects, and of all that they refer to. -/
def Snapshot.rename (ρ : ObjectId → ObjectId) (s : Snapshot) : Snapshot where
  modules := s.modules.mapValues fun _ x => ρ x
  objects := .ofList (s.objects.toList.map fun e => (ρ e.1, e.2.rename ρ))

theorem Shape.isModule_rename (shape : Shape) : (shape.rename ρ).isModule = shape.isModule := by
  cases shape <;> rfl

/-- Whom a renamed shape delegates to is renamed. -/
theorem Shape.delegate?_rename (shape : Shape) :
    (shape.rename ρ).delegate? = shape.delegate?.map ρ := by
  cases shape <;> rfl

namespace Snapshot

/-- Under different identities the same objects are recorded. -/
theorem get?_objects_rename (hρ : Function.Injective ρ) (x : ObjectId) :
    (s.rename ρ).objects.get? (ρ x) = (s.objects.get? x).map (·.rename ρ) := by
  let entries := s.objects.toList.map fun e => (ρ e.1, e.2.rename ρ)
  have hkeys : entries.map Prod.fst = s.objects.keys.map ρ := by
    unfold entries SortedMap.keys
    rw [List.map_map, List.map_map]
    rfl
  match hx : s.objects.get? x with
  | some o =>
    -- Different objects keep different numbers, so that no entry replaces another.
    have hnodup : (entries.map Prod.fst).Nodup := by
      rw [hkeys]
      refine List.pairwise_map.2 (s.objects.increasing_keys.imp ?_)
      intro y z hlt
      exact hρ.ne (SortedSet.ne_of_lt hlt)
    have hmem : (ρ x, o.rename ρ) ∈ entries :=
      List.mem_map.2 ⟨(x, o), SortedMap.get?_eq_some_iff.1 hx, rfl⟩
    exact SortedMap.get?_insertMany_of_mem hnodup hmem
  | none =>
    -- No other object can have got the number of one that is not there.
    have hnew : ρ x ∉ entries.map Prod.fst := by
      rw [hkeys]
      intro hmem
      rcases List.mem_map.1 hmem with ⟨y, hy, hxy⟩
      obtain rfl := hρ hxy
      rcases List.mem_map.1 hy with ⟨e, he, rfl⟩
      rw [SortedMap.get?_eq_some_iff.2 he] at hx
      cases hx
    exact SortedMap.get?_insertMany_of_not_mem hnew

/-- What is recorded of an object is recorded of it under its new identity. -/
theorem object_rename (hρ : Function.Injective ρ) {x : ObjectId} {o : SnapshotObject}
    (hx : s.object x = .ok o) : (s.rename ρ).object (ρ x) = .ok (o.rename ρ) := by
  unfold object at hx ⊢
  rw [get?_objects_rename hρ]
  split at hx
  next o' ho =>
    cases hx
    rw [ho]
    rfl
  next => cases hx

/-- What is not known is not known by another identity either. -/
theorem object_rename_error (hρ : Function.Injective ρ) {x : ObjectId} {e : Error}
    (hx : s.object x = .error e) : ∃ e', (s.rename ρ).object (ρ x) = .error e' := by
  unfold object at hx ⊢
  rw [get?_objects_rename hρ]
  split at hx
  next => cases hx
  next hnone =>
    rw [hnone]
    exact ⟨_, rfl⟩

section

variable {x : ObjectId} {o : SnapshotObject} {e : Error}

theorem shape_of_ok (hx : s.object x = .ok o) : s.model.shape x = .ok o.shape := congrArg (·.map (·.shape)) hx

theorem shape_of_error (hx : s.object x = .error e) : s.model.shape x = .error e :=
  congrArg (·.map (·.shape)) hx

theorem attributes_of_ok (hx : s.object x = .ok o) : s.model.attributes x = .ok o.attributes.toList :=
  congrArg (·.map (·.attributes.toList)) hx

theorem attributes_of_error (hx : s.object x = .error e) : s.model.attributes x = .error e :=
  congrArg (·.map (·.attributes.toList)) hx

end

end Snapshot

/-! ## Models -/

namespace ObjectModel

/-- The model answers from the snapshot. It may list the attributes of an object in any order. -/
structure Presents (m : ObjectModel) (s : Snapshot) : Prop where
  importModule : ∀ name, m.importModule name = s.model.importModule name
  shape : ∀ x, m.shape x = s.model.shape x
  attributes : ∀ x l, s.model.attributes x = .ok l → ∃ l', m.attributes x = .ok l' ∧ l'.Perm l
  noAttributes : ∀ x e, s.model.attributes x = .error e → ∃ e', m.attributes x = .error e'

/-- The model that lists attributes in the opposite order. -/
def reversed (m : ObjectModel) : ObjectModel :=
  { m with attributes := fun x => (m.attributes x).map List.reverse }

theorem presents_model (s : Snapshot) : s.model.Presents s where
  importModule _ := rfl
  shape _ := rfl
  attributes _ l hl := ⟨l, hl, List.Perm.refl l⟩
  noAttributes _ e he := ⟨e, he⟩

/-- A model that lists attributes backward answers from the same snapshot. -/
theorem presents_reversed_model (s : Snapshot) : s.model.reversed.Presents s where
  importModule _ := rfl
  shape _ := rfl
  attributes _ l hl := ⟨l.reverse, congrArg (·.map List.reverse) hl, List.reverse_perm l⟩
  noAttributes _ e he := ⟨e, congrArg (·.map List.reverse) he⟩

/-- The second model answers for the new identities what the first answers for the old ones. No object has
two attributes of one name. -/
structure Renames (ρ : ObjectId → ObjectId) (m m' : ObjectModel) : Prop where
  injective : Function.Injective ρ
  importModule : ∀ name, m'.importModule name = (m.importModule name).map ρ
  shape : ∀ x shape, m.shape x = .ok shape → m'.shape (ρ x) = .ok (shape.rename ρ)
  noShape : ∀ x e, m.shape x = .error e → ∃ e', m'.shape (ρ x) = .error e'
  attributes : ∀ x l, m.attributes x = .ok l → (l.map Prod.fst).Nodup ∧
    ∃ l', m'.attributes (ρ x) = .ok l' ∧ l'.Perm (l.map fun a => (a.1, ρ a.2))
  noAttributes : ∀ x e, m.attributes x = .error e → ∃ e', m'.attributes (ρ x) = .error e'

theorem Presents.importModule_rename (h : m.Presents s) (h' : m'.Presents (s.rename ρ)) (name : String) :
    m'.importModule name = (m.importModule name).map ρ := by
  rw [h.importModule, h'.importModule]
  have hmodule : (s.rename ρ).modules.get? name = (s.modules.get? name).map ρ := SortedMap.get?_mapValues
  unfold Snapshot.model
  dsimp only
  rw [hmodule]
  cases s.modules.get? name with
  | none => rfl
  | some x => rfl

theorem Presents.shape_rename (h : m.Presents s) (h' : m'.Presents (s.rename ρ)) (hρ : Function.Injective ρ)
    {x : ObjectId} {shape : Shape} (hx : m.shape x = .ok shape) : m'.shape (ρ x) = .ok (shape.rename ρ) := by
  rw [h.shape] at hx
  cases ho : s.object x with
  | error e =>
    rw [Snapshot.shape_of_error ho] at hx
    cases hx
  | ok o =>
    rw [Snapshot.shape_of_ok ho] at hx
    cases hx
    rw [h'.shape, Snapshot.shape_of_ok (Snapshot.object_rename hρ ho)]
    rfl

/-- Both models list the attributes of the snapshot, each in an order of its own. -/
theorem Presents.attributes_rename (h : m.Presents s) (h' : m'.Presents (s.rename ρ)) (hρ : Function.Injective ρ)
    {x : ObjectId} {l : List (String × ObjectId)} (hl : m.attributes x = .ok l) :
    (l.map Prod.fst).Nodup ∧ ∃ l', m'.attributes (ρ x) = .ok l' ∧ l'.Perm (l.map fun a => (a.1, ρ a.2)) := by
  cases ho : s.object x with
  | error e =>
    rcases h.noAttributes x e (Snapshot.attributes_of_error ho) with ⟨e', he'⟩
    rw [he'] at hl
    cases hl
  | ok o =>
    rcases h.attributes x _ (Snapshot.attributes_of_ok ho) with ⟨l₀, hl₀, hperm⟩
    rcases h'.attributes (ρ x) _ (Snapshot.attributes_of_ok (Snapshot.object_rename hρ ho)) with ⟨l', hl', hperm'⟩
    obtain rfl : l₀ = l := Except.ok.inj (hl₀.symm.trans hl)
    refine ⟨?_, l', hl', ?_⟩
    -- The snapshot has its attributes by name, so that no name is there twice.
    · have hkeys : o.attributes.keys.Nodup := o.attributes.increasing_keys.imp SortedSet.ne_of_lt
      exact (hperm.map Prod.fst).nodup_iff.2 hkeys
    · have hmapped : (o.rename ρ).attributes.toList.Perm (l₀.map fun a => (a.1, ρ a.2)) :=
        hperm.symm.map fun a : String × ObjectId => (a.1, ρ a.2)
      exact hperm'.trans hmapped

/-- Two models of a snapshot, one of them under other identities, answer alike whatever order they list
attributes in. -/
theorem Presents.renames (h : m.Presents s) (h' : m'.Presents (s.rename ρ)) (hρ : Function.Injective ρ) :
    Renames ρ m m' where
  injective := hρ
  importModule := h.importModule_rename h'
  shape _ _ hx := h.shape_rename h' hρ hx
  noShape x e hx := by
    rw [h.shape] at hx
    cases ho : s.object x with
    | error e₀ =>
      rcases Snapshot.object_rename_error hρ ho with ⟨e', he'⟩
      exact ⟨e', (h'.shape (ρ x)).trans (Snapshot.shape_of_error he')⟩
    | ok o =>
      rw [Snapshot.shape_of_ok ho] at hx
      cases hx
  attributes _ _ hl := h.attributes_rename h' hρ hl
  noAttributes x e he := by
    cases ho : s.object x with
    | error e₀ =>
      rcases Snapshot.object_rename_error hρ ho with ⟨e', he'⟩
      exact h'.noAttributes (ρ x) e' (Snapshot.attributes_of_error he')
    | ok o =>
      rcases h.attributes x _ (Snapshot.attributes_of_ok ho) with ⟨l, hl, _⟩
      rw [hl] at he
      cases he

/-! ## Verdicts -/

/-- The class of an object is judged alike. -/
theorem Renames.instanceVerdict (h : Renames ρ m m') (c : ObjectId) :
    m'.instanceVerdict (ρ c) = m.instanceVerdict c := by
  unfold ObjectModel.instanceVerdict
  cases hc : m.shape c with
  | error e =>
    rcases h.noShape c e hc with ⟨e', he'⟩
    rw [he']
  | ok shape =>
    rw [h.shape c shape hc]
    cases shape <;> rfl

theorem Renames.ownVerdict (h : Renames ρ m m') (shape : Shape) :
    m'.ownVerdict (shape.rename ρ) = m.ownVerdict shape := by
  match shape with
  | .instance c => exact h.instanceVerdict c
  | .module _ | .interpretedFunction | .interpretedClass | .native _ _ _ | .wrapper _ _
  | .callableInstance _ | .data => rfl

theorem contains_map (hρ : Function.Injective ρ) (met : List ObjectId) (x : ObjectId) :
    (met.map ρ).contains (ρ x) = met.contains x := by
  rw [List.contains_eq_mem, List.contains_eq_mem, decide_eq_decide]
  constructor
  · intro hmem
    rcases List.mem_map.1 hmem with ⟨y, hy, hxy⟩
    exact hρ hxy ▸ hy
  · exact List.mem_map_of_mem

/-- One step of delegation is the same under other identities. -/
theorem Renames.classifyFrom_of_delegate (h : Renames ρ m m') {bound : Nat} {met : List ObjectId}
    {x next : ObjectId} {shape : Shape} (hx : m.shape x = .ok shape) (hnext : shape.delegate? = some next) :
    m'.classifyFrom bound (met.map ρ) (ρ x) =
      if met.contains x then .notCallable
      else
        match bound with
        | 0 => .notCallable
        | n + 1 => m'.classifyFrom n ((x :: met).map ρ) (ρ next) := by
  have hnext' : (shape.rename ρ).delegate? = some (ρ next) := by
    rw [Shape.delegate?_rename, hnext]
    rfl
  rw [ObjectModel.classifyFrom, h.shape x shape hx]
  dsimp only
  rw [hnext', contains_map h.injective]
  rfl

/-- Following delegation meets the same objects under other identities, so that cycles end it at the same place.
-/
theorem Renames.classifyFrom (h : Renames ρ m m') (bound : Nat) (met : List ObjectId) (x : ObjectId) :
    m'.classifyFrom bound (met.map ρ) (ρ x) = m.classifyFrom bound met x := by
  fun_induction ObjectModel.classifyFrom m bound met x with
  | case1 bound met x e hx =>
    rcases h.noShape x e hx with ⟨e', he'⟩
    rw [ObjectModel.classifyFrom, he']
  | case2 bound met x shape hx hnone =>
    have hnone' : (shape.rename ρ).delegate? = none := by
      rw [Shape.delegate?_rename, hnone]
      rfl
    rw [ObjectModel.classifyFrom, h.shape x shape hx]
    dsimp only
    rw [hnone']
    exact h.ownVerdict shape
  | case3 bound met x shape hx next hnext hmet =>
    -- A cycle of delegation is one under any identities.
    rw [h.classifyFrom_of_delegate hx hnext, if_pos hmet]
  | case4 met x shape hx next hnext hmet =>
    rw [h.classifyFrom_of_delegate hx hnext, if_neg hmet]
  | case5 met x shape hx next hnext hmet n ih =>
    rw [h.classifyFrom_of_delegate hx hnext, if_neg hmet]
    exact ih

/-- The verdict on an object does not depend on identities. -/
theorem Renames.classify (h : Renames ρ m m') (x : ObjectId) (bound : Nat) :
    m'.classify (ρ x) bound = m.classify x bound :=
  h.classifyFrom bound [] x

end ObjectModel
end Bridgework
