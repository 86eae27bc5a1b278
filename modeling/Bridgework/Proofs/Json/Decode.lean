import Bridgework.Json.Decode
import Bridgework.Proofs.Collection.Increasing
import Bridgework.Proofs.Json.RoundTrip

/-!
# Decoding an encoded value

Encodings are put together from those of their parts, and so are decoders. Each way of putting them
together keeps that the decoder undoes the encoding and that the documents are regular, so that they can
be printed and read as well.

- `Json.Faithful` : a regular encoding with a decoder that undoes it
- `Json.Faithful.list`, `Json.Faithful.orNull`, `Json.Faithful.map` : encodings of lists, options and maps
- `Json.asNumbered_object` : members whose names are numbers
- `Json.record_object`, `Json.tagged_object` : structures, and choices between them
- `Json.Faithful.parse?` : decoding what is read from a printed encoding
-/

namespace Bridgework
namespace Json

/-- Values are encoded as regular documents, from which they are decoded. -/
structure Faithful {α : Type} (encode : α → Json) (decode : Json → Option α) : Prop where
  regular (a : α) : (encode a).Regular
  decode_encode (a : α) : decode (encode a) = some a

variable {α : Type} {encode : α → Json} {decode : Json → Option α}

/-- What is encoded, printed and parsed is decoded. -/
theorem Faithful.parse? (h : Faithful encode decode) (a : α) :
    (Json.parse? (encode a).render).bind decode = some a := by
  rw [(h.regular a).parse?_render, Option.bind_some, h.decode_encode]

/-! ## Simple values -/

theorem asNat_nat {n : Nat} (h : n < UInt64.size) : (nat n).asNat = some n := by
  simp [nat, asNat, number?_ofNat h]

theorem faithful_text : Faithful text asString where
  regular := .text
  decode_encode _ := rfl

theorem faithful_word : Faithful (fun a : UInt64 => nat a.toNat) asWord where
  regular a := .nat a.toNat_lt
  decode_encode a := by simp [asWord, asNat_nat a.toNat_lt]

/-- A value that may be missing is told by its document, unless it is itself written as null. -/
theorem Faithful.orNull (h : Faithful encode decode) (hnull : ∀ a, encode a ≠ .null) :
    Faithful (Json.orNull encode) (asOption decode) where
  regular
    | none => .null
    | some a => h.regular a
  decode_encode
    | none => rfl
    | some a => by
      -- A value written as null would be taken for none.
      have hsome := h.decode_encode a
      cases hencode : encode a with
      | null => exact absurd hencode (hnull a)
      | _ =>
        rw [hencode] at hsome
        simp [Json.orNull, asOption, hencode, hsome]

/-! ## Lists and maps -/

theorem mapM_map_eq_some {β γ : Type} {f : α → β} {g : β → Option γ} {k : α → γ} {l : List α}
    (h : ∀ a ∈ l, g (f a) = some (k a)) : (l.map f).mapM g = some (l.map k) := by
  induction l with
  | nil => rfl
  | cons a l ih =>
    have hl := ih fun b hb => h b (List.mem_cons_of_mem a hb)
    simp [h a List.mem_cons_self, hl]

/-- Lists are told by their documents if their members are. -/
theorem Faithful.list (h : Faithful encode decode) : Faithful (Json.list encode) (asList decode) where
  regular l := .arr fun j hj => by
    rcases List.mem_map.1 hj with ⟨a, _, rfl⟩
    exact h.regular a
  decode_encode l := by
    rw [Json.list, asList, mapM_map_eq_some (k := id) fun a _ => h.decode_encode a, List.map_id]

theorem Faithful.regular_object (h : Faithful encode decode) {ι : Type} (name : ι → String)
    (l : List (ι × α)) : Regular (object (l.map fun e => (name e.1, encode e.2))) := by
  apply Regular.object
  intro m hm
  rcases List.mem_map.1 hm with ⟨e, _, rfl⟩
  exact h.regular e.2

/-- Maps are told by their documents if their values are. -/
theorem Faithful.map (h : Faithful encode decode) :
    Faithful (fun m : SortedMap String α => object (m.toList.map fun e => (e.1, encode e.2)))
      (asMap decode) where
  regular m := h.regular_object id m.toList
  decode_encode m := by
    have hmembers : (object (m.toList.map fun e => (e.1, encode e.2))).asMembers decode =
        some m.toList := by
      rw [object, asMembers, List.map_map, mapM_map_eq_some (k := id), List.map_id]
      intro e _
      simp [h.decode_encode]
    rw [asMap, hmembers, Option.map_some, SortedMap.ofList_toList]

theorem mustEscape_of_isDigit {c : Char} (h : c.isDigit = true) : mustEscape c = false := by
  have hrange : c.val ≥ '0'.val ∧ c.val ≤ '9'.val := by simpa [Char.isDigit] using h
  have hcode : 0x20 ≤ c.toNat := Nat.le_trans (by decide) (UInt32.le_iff_toNat_le.1 hrange.1)
  simpa [mustEscape, Text.ne_of_class h] using hcode

/-- Decimal digits need no escape and have no zeros in front, so that they are taken for a number. -/
theorem numberKey?_toString {n : Nat} (h : n < UInt64.size) :
    numberKey? (.ofString (toString n)) = some n := by
  have hplain : (Nat.toDigits 10 n).any mustEscape = false := by
    rw [List.any_eq_false]
    intro c hc
    simp [mustEscape_of_isDigit (Nat.isDigit_of_mem_toDigits (by decide) (by decide) hc)]
  have hfirst : ((Nat.toDigits 10 n).length ≤ 1 || (Nat.toDigits 10 n).head? != some '0') = true := by
    by_cases hn : n = 0
    · subst hn
      rfl
    · simp [Text.head?_toDigits_ne_zero (by decide : 1 < 10) hn]
  simp [numberKey?, Literal.ofString, hplain, hfirst, Text.natOfDecimal?_toDigits, h]

/-- Members under numbers are read with their numbers. -/
theorem asNumbered_object (h : Faithful encode decode) {l : List (Nat × α)}
    (hl : ∀ e ∈ l, e.1 < UInt64.size) :
    (object (l.map fun e => (toString e.1, encode e.2))).asNumbered decode = some l := by
  rw [object, asNumbered, List.map_map, mapM_map_eq_some (k := id), List.map_id]
  intro e he
  simp only [Function.comp_apply, numberKey?_toString (hl e he), h.decode_encode, id]

/-! ## Structures -/

theorem valuesOf_cons (name : String) (m : String × Json) (ms : List (String × Json)) :
    valuesOf name (written (m :: ms)) =
      if m.1 = name then m.2 :: valuesOf name (written ms) else valuesOf name (written ms) := by
  by_cases hname : m.1 = name
  · simp [written_cons, valuesOf, hname]
  · simp [written_cons, valuesOf, hname]

/-- A name that no member has has no values. -/
theorem valuesOf_of_forall_ne {name : String} {ms : List (String × Json)} (h : ∀ m ∈ ms, m.1 ≠ name) :
    valuesOf name (written ms) = [] := by
  induction ms with
  | nil => rfl
  | cons m ms ih =>
    rw [valuesOf_cons, if_neg (h m List.mem_cons_self), ih fun n hn => h n (List.mem_cons_of_mem m hn)]

/-- A name that is not repeated has one value. -/
theorem valuesOf_of_mem {ms : List (String × Json)} (h : (ms.map Prod.fst).Nodup) {m : String × Json}
    (hm : m ∈ ms) : valuesOf m.1 (written ms) = [m.2] := by
  induction ms with
  | nil => cases hm
  | cons n ms ih =>
    rw [List.map_cons, List.nodup_cons] at h
    have hfresh : ∀ k ∈ ms, k.1 ≠ n.1 := by
      intro k hk hname
      exact h.1 (hname ▸ List.mem_map_of_mem hk)
    rw [valuesOf_cons]
    rcases List.mem_cons.1 hm with rfl | hm
    · rw [if_pos rfl, valuesOf_of_forall_ne hfresh]
    · rw [if_neg (hfresh m hm).symm, ih h.2 hm]

/-- An object with exactly the declared names is read as its own fields. -/
theorem record_object {ms : List (String × Json)} (h : (ms.map Prod.fst).Nodup) :
    (object ms).record (ms.map Prod.fst) = some ⟨true, ms.map fun m => (m.1, some m.2)⟩ := by
  have hnames : (written ms).all (fun m => m.1.value.isSome) = true := by
    simp [written]
  have hfields : fieldsByName (ms.map Prod.fst) (written ms) =
      some (ms.map fun m => (m.1, some m.2)) := by
    apply mapM_map_eq_some
    intro m hm
    rw [valuesOf_of_mem h hm]
  simp only [object_eq, record, hnames, hfields, if_true, Option.map_some]

/-- The name under the tag is taken out, and the rest of the members is left. -/
theorem tagged_object {tag name : String} {ms : List (String × Json)}
    (hms : ∀ m ∈ ms, m.1 ≠ tag ∧ m.2.Regular) :
    (object ((tag, text name) :: ms)).tagged tag = some (name, object ms) := by
  have hregular : Regular (object ((tag, text name) :: ms)) := by
    apply Regular.object
    rw [List.forall_mem_cons]
    exact ⟨.text name, fun m hm => (hms m hm).2⟩
  -- The tag stands there once, and all other members stay.
  have hvalues : valuesOf tag (written ((tag, text name) :: ms)) = [text name] := by
    rw [valuesOf_cons, if_pos rfl, valuesOf_of_forall_ne fun m hm => (hms m hm).1]
  have hrest : (written ((tag, text name) :: ms)).filter (fun m => m.1.value ≠ some tag) = written ms := by
    rw [written_cons, List.filter_cons_of_neg (by simp), List.filter_eq_self]
    intro m hm
    rcases List.mem_map.1 hm with ⟨n, hn, rfl⟩
    simpa using (hms n hn).1
  have hsettled := hregular.isSome_settle?
  rw [object_eq] at hsettled ⊢
  simp only [tagged, Option.isNone_eq_false_iff.2 hsettled, hvalues, hrest]
  rfl

end Json
end Bridgework
