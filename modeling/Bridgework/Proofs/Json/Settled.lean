import Bridgework.Proofs.Json.Decode
import Mathlib.Data.List.Forall2

/-!
# Settled documents

Settling a document reads its strings and numbers and leaves one member of each name. In what is left, a
name has one value, so the fields of a structure can be found by asking which members there are.

- `Json.Settled`, `Json.settled_of_settle?` : what every settled document is like
- `Json.record_object_of_nodup` : the fields of a structure in an object without repeated names
- `Json.Under`, `Json.ShowsList` : values shown by a member that may be left out, and by an array
-/

namespace Bridgework
namespace Json

/-! ## Distinct names -/

/-- Strings and numbers are read, and no object repeats a name. -/
inductive Settled : Json → Prop
  | null : Settled .null
  | bool (b : Bool) : Settled (.bool b)
  | num {n : Numeral} (h : n.number?.isSome) : Settled (.num n)
  | text (s : String) : Settled (.text s)
  | arr {items : List Json} (h : ∀ j ∈ items, Settled j) : Settled (.arr items)
  | object {members : List (String × Json)} (hnames : (members.map Prod.fst).Nodup)
      (h : ∀ m ∈ members, Settled m.2) : Settled (.object members)

theorem keepLast_sublist (ms : List (String × Json)) : (keepLast ms).Sublist ms := by
  induction ms with
  | nil => exact .slnil
  | cons m ms ih =>
    rw [keepLast]
    split
    next => exact ih.cons m
    next => exact ih.cons_cons m

/-- Of repeated members one is kept. -/
theorem nodup_keepLast (ms : List (String × Json)) : ((keepLast ms).map Prod.fst).Nodup := by
  induction ms with
  | nil => exact .nil
  | cons m ms ih =>
    rw [keepLast]
    split
    next => exact ih
    next hlast =>
      rw [List.map_cons, List.nodup_cons]
      refine ⟨?_, ih⟩
      -- A later member of this name would have replaced it.
      intro hmem
      obtain ⟨n, hn, hname⟩ := List.mem_map.1 hmem
      refine hlast (List.any_eq_true.2 ⟨n, (keepLast_sublist ms).subset hn, ?_⟩)
      rw [beq_iff_eq, hname]

mutual

/-- Settling reads every string and number, and leaves no name twice. -/
theorem settled_of_settle? : ∀ {j k : Json}, j.settle? = some k → k.Settled
  | .null, k, h => by
    obtain rfl : Json.null = k := Option.some.inj h
    exact .null
  | .bool b, k, h => by
    obtain rfl : Json.bool b = k := Option.some.inj h
    exact .bool b
  | .num n, k, h => by
    obtain ⟨v, hv, rfl⟩ := Option.map_eq_some_iff.1 h
    exact .num (Option.isSome_of_eq_some hv)
  | .str s, k, h => by
    obtain ⟨t, _, rfl⟩ := Option.map_eq_some_iff.1 h
    exact .text t
  | .arr items, k, h => by
    obtain ⟨js, hjs, rfl⟩ := Option.map_eq_some_iff.1 h
    exact .arr (settled_of_settleItems? hjs)
  | .obj members, k, h => by
    obtain ⟨ms, hms, rfl⟩ := Option.map_eq_some_iff.1 h
    exact .object (nodup_keepLast ms) fun m hm =>
      settled_of_settleMembers? hms m ((keepLast_sublist ms).subset hm)

theorem settled_of_settleItems? : ∀ {items js : List Json}, settleItems? items = some js →
    ∀ k ∈ js, k.Settled
  | [], js, h => by
    obtain rfl : [] = js := Option.some.inj h
    nofun
  | j :: items, js, h => by
    rw [settleItems?] at h
    split at h
    next k ks hk hks =>
      obtain rfl := Option.some.inj h
      rw [List.forall_mem_cons]
      exact ⟨settled_of_settle? hk, settled_of_settleItems? hks⟩
    next => cases h

theorem settled_of_settleMembers? : ∀ {members : List (Literal × Json)} {ms : List (String × Json)},
    settleMembers? members = some ms → ∀ m ∈ ms, m.2.Settled
  | [], ms, h => by
    obtain rfl : [] = ms := Option.some.inj h
    nofun
  | (k, j) :: members, ms, h => by
    rw [settleMembers?] at h
    split at h
    next name v rest _ hv hrest =>
      obtain rfl := Option.some.inj h
      rw [List.forall_mem_cons]
      exact ⟨settled_of_settle? hv, settled_of_settleMembers? hrest⟩
    next => cases h

end

theorem settled_of_settled? {j k : Json} (h : j.settled? = some k) : k.Settled := by
  rw [settled?] at h
  split at h
  next => exact settled_of_settle? h
  next => cases h

theorem object_injective : Function.Injective object := by
  intro ms ms' h
  refine List.map_injective_iff.2 ?_ (obj.inj h)
  rintro ⟨a, j⟩ ⟨b, k⟩ hm
  obtain ⟨hname, rfl⟩ := Prod.mk.inj hm
  obtain rfl : a = b := Option.some.inj (congrArg Literal.value hname)
  rfl

/-- An object is settled if its names differ and its values are settled. -/
theorem settled_object_iff {ms : List (String × Json)} :
    (object ms).Settled ↔ (ms.map Prod.fst).Nodup ∧ ∀ m ∈ ms, m.2.Settled := by
  constructor
  · intro h
    -- The members can be read off the document, as each name is that of one string.
    generalize hj : object ms = j at h
    cases h with
    | object hnames hms =>
      obtain rfl := object_injective hj
      exact ⟨hnames, hms⟩
    | _ => cases hj
  · intro h
    exact .object h.1 h.2

/-! ## Fields -/

section Fields

variable {α : Type} {names : List String} {name : String} {ms : List (String × Json)} {j : Json} {r : Fields}

theorem valuesOf_of_not_mem (hname : name ∉ ms.map Prod.fst) : valuesOf name (written ms) = [] := by
  apply valuesOf_of_forall_ne
  rintro m hm rfl
  exact hname (List.mem_map_of_mem hm)

/-- In an object without repeated names, the fields of a structure are the members of their names. -/
theorem record_object_of_nodup (hms : (ms.map Prod.fst).Nodup) (names : List String) :
    (object ms).record names =
      some ⟨true, names.map fun name => (name, (valuesOf name (written ms)).head?)⟩ := by
  have hread : (written ms).all (fun m => m.1.value.isSome) = true := by
    simp [written]
  have hfields : fieldsByName names (written ms) =
      some (names.map fun name => (name, (valuesOf name (written ms)).head?)) := by
    rw [fieldsByName, ← List.map_id names, mapM_map_eq_some, List.map_id]
    intro name _
    -- A name has one value or none, and is never refused as repeated.
    by_cases hname : name ∈ ms.map Prod.fst
    · obtain ⟨m, hm, rfl⟩ := List.mem_map.1 hname
      rw [id, valuesOf_of_mem hms hm]
      rfl
    · rw [id, valuesOf_of_not_mem hname]
      rfl
  rw [object_eq, record, if_pos hread, hfields, Option.map_some]

theorem find?_map_of_mem {f : String → Option Json} (hname : name ∈ names) :
    (names.map fun n => (n, f n)).find? (fun v => v.1 == name) = some (name, f name) := by
  induction names with
  | nil => cases hname
  | cons n names ih =>
    rw [List.map_cons, List.find?_cons]
    by_cases hn : n = name
    · rw [hn, beq_self_eq_true]
    · rw [beq_false_of_ne hn]
      exact ih ((List.mem_cons.1 hname).resolve_left (Ne.symm hn))

/-- A field of a structure that is written by name has the value under the name. -/
theorem value?_record (hms : (ms.map Prod.fst).Nodup) (hname : name ∈ names)
    (hr : (object ms).record names = some r) : r.value? name = (valuesOf name (written ms)).head? := by
  rw [record_object_of_nodup hms] at hr
  obtain rfl := Option.some.inj hr
  rw [Fields.value?, find?_map_of_mem hname, Option.bind_some]

/-- A field that has to be there is decoded from the value under its name. -/
theorem required_record {f : Json → Option α} (hms : (ms.map Prod.fst).Nodup) (hname : name ∈ names)
    (hr : (object ms).record names = some r) (hj : (name, j) ∈ ms) : r.required name f = f j := by
  rw [Fields.required, value?_record hms hname hr, valuesOf_of_mem hms hj]
  rfl

/-- A value is shown under a name, or is the default and the name is left out. -/
def Under (shows : Json → α → Prop) (name : String) (default : α) (ms : List (String × Json)) (a : α) : Prop :=
  (∃ j, (name, j) ∈ ms ∧ shows j a) ∨ (a = default ∧ name ∉ ms.map Prod.fst)

variable {shows shows' : Json → α → Prop} {default a : α}

/-- What is shown under a name is shown there after a change that keeps it. -/
theorem Under.map {f : String → Json → Json} (h : Under shows name default ms a)
    (hf : ∀ j, (name, j) ∈ ms → shows j a → shows' (f name j) a) :
    Under shows' name default (ms.map fun m => (m.1, f m.1 m.2)) a := by
  rcases h with ⟨j, hj, hshows⟩ | ⟨hdefault, hnone⟩
  · exact .inl ⟨f name j, List.mem_map_of_mem hj, hf j hj hshows⟩
  · refine .inr ⟨hdefault, ?_⟩
    rwa [List.map_map]

/-- What a field with a default is read as, if each document of it is read as a function of what it shows. -/
theorem Under.withDefault_record {β : Type} {f : Json → Option β} (h : Under shows name default ms a)
    (hms : (ms.map Prod.fst).Nodup) (hname : name ∈ names) (hr : (object ms).record names = some r)
    (k : α → β) (hf : ∀ j, shows j a → f j = some (k a)) : r.withDefault name (k default) f = some (k a) := by
  rw [Fields.withDefault, value?_record hms hname hr]
  rcases h with ⟨j, hj, hshows⟩ | ⟨rfl, hnone⟩
  · rw [valuesOf_of_mem hms hj]
    exact hf j hshows
  · rw [valuesOf_of_not_mem hnone]
    rfl

end Fields

/-! ## Lists -/

section Lists

variable {α : Type} {shows : Json → α → Prop} {j : Json} {l : List α} {f : Json → Option α}

/-- An array shows a list, item by item. -/
def ShowsList (shows : Json → α → Prop) (j : Json) (l : List α) : Prop :=
  ∃ items, j = .arr items ∧ List.Forall₂ shows items l

/-- Decoding a list item by item. -/
theorem mapM_eq_some_of_forall₂ {β : Type} {f : β → Option α} {items : List β}
    (h : List.Forall₂ (fun i a => f i = some a) items l) : items.mapM f = some l := by
  induction h with
  | nil => rfl
  | cons hi _ ih => simp [hi, ih]

/-- A list that is shown is decoded. -/
theorem ShowsList.asList (h : ShowsList shows j l) (hf : ∀ i a, shows i a → f i = some a) :
    asList f j = some l := by
  obtain ⟨items, rfl, hitems⟩ := h
  exact mapM_eq_some_of_forall₂ (hitems.imp hf)

theorem ShowsList.and_settled (h : ShowsList shows j l) (hj : j.Settled) :
    ShowsList (fun i a => i.Settled ∧ shows i a) j l := by
  obtain ⟨items, rfl, hitems⟩ := h
  cases hj with
  | arr hsettled => exact ⟨items, rfl, (List.forall₂_and_left _ _).2 ⟨hsettled, hitems⟩⟩

end Lists

end Json
end Bridgework
