import Bridgework.Proofs.Text.Split
import Bridgework.Proofs.Toml.Scalar

/-!
# Written documents

Of all that the reader accepts, a plain form is enough to write texts and numbers: sections with headers,
and in each a line for each key.

- `Toml.Section`, `Toml.written` : sections of texts and numbers, and how a document of them is written
- `Toml.Leads` : what reading a part of a document does to the builder
- `Toml.leads_entry`, `Toml.leads_section` : one line, and one section
- `Toml.parse?_written` : a document of sections is read as it is written
-/

namespace Bridgework
namespace Toml

/-! ## Writing -/

/-- A key that needs no marks. -/
structure IsBareKey (key : String) : Prop where
  ne_empty : key ≠ ""
  all : ∀ c ∈ key.toList, isBare c = true

theorem isBareKey_iff {key : String} : IsBareKey key ↔ key ≠ "" ∧ key.toList.all isBare = true := by
  rw [List.all_eq_true]
  exact ⟨fun h => ⟨h.ne_empty, h.all⟩, fun h => ⟨h.1, h.2⟩⟩

instance decidableIsBareKey (key : String) : Decidable (IsBareKey key) := decidable_of_iff _ isBareKey_iff.symm

/-- A key with its value on a line of its own. -/
def writeEntry (entry : String × Scalar) : List Char :=
  entry.1.toList ++ ' ' :: '=' :: ' ' :: (entry.2.write ++ ['\n'])

/-- A table with a header of its own that holds texts and numbers. -/
structure Section where
  name : String
  entries : List (String × Scalar)
  deriving DecidableEq, Repr

namespace Section

def write (s : Section) : List Char := '[' :: (s.name.toList ++ ']' :: '\n' :: s.entries.flatMap writeEntry)

def member (s : Section) : String × Toml :=
  (s.name, .table .header (s.entries.map fun entry => (entry.1, entry.2.value)))

/-- Can be written: keys need no marks and are distinct, and numbers fit. -/
structure IsPlain (s : Section) : Prop where
  name : IsBareKey s.name
  keys : ∀ key ∈ s.entries.map Prod.fst, IsBareKey key
  nodup : (s.entries.map Prod.fst).Nodup
  fits : ∀ entry ∈ s.entries, entry.2.Fits

end Section

def written (sections : List Section) : String := String.ofList (sections.flatMap Section.write)

/-! ## Keys -/

theorem IsBareKey.exists_cons {key : String} (h : IsBareKey key) :
    ∃ c s, isBare c = true ∧ key.toList = c :: s := by
  rcases hcons : key.toList with _ | ⟨c, s⟩
  · exact absurd (String.toList_eq_nil_iff.1 hcons) h.ne_empty
  · exact ⟨c, s, h.all c (hcons ▸ List.mem_cons_self), rfl⟩

/-- A bare key is read up to what cannot belong to it. -/
theorem simpleKey?_bare {key : String} (hkey : IsBareKey key) {t : List Char}
    (ht : ∀ c ∈ t.head?, isBare c = false) : simpleKey? (key.toList ++ t) = some (key, t) := by
  have hspan := Text.span_append hkey.all ht
  obtain ⟨c, s, hc, hcons⟩ := hkey.exists_cons
  have hkeep : String.ofList (c :: s) = key := by rw [← hcons, String.ofList_toList]
  rw [hcons, List.cons_append] at hspan ⊢
  unfold simpleKey?
  split
  · next heq => exact absurd (List.cons.inj heq).1 (Text.ne_of_class hc (by decide))
  · next heq => exact absurd (List.cons.inj heq).1 (Text.ne_of_class hc (by decide))
  · rw [hspan]
    exact congrArg (fun part => some (part, t)) hkeep

/-- A key of one part is read, and blanks after it are left out. -/
theorem key?_bare (n : Nat) {key : String} (hkey : IsBareKey key) {t : List Char}
    (ht : ∀ c ∈ t.head?, isBare c = false) (hdot : (skipBlanks t).head? ≠ some '.') :
    key? (n + 1) (key.toList ++ t) = some ([key], skipBlanks t) := by
  have hpart := simpleKey?_bare hkey ht
  have hskip : skipBlanks (key.toList ++ t) = key.toList ++ t := by
    obtain ⟨c, s, hc, hcons⟩ := hkey.exists_cons
    simp [skipBlanks, hcons, isBlank_of_class hc (by decide) (by decide)]
  rw [key?, hskip, hpart]
  cases hrest : skipBlanks t with
  | nil => simp [hrest]
  | cons c r =>
    have hc : c ≠ '.' := by simpa [hrest] using hdot
    simp [hrest, hc]

/-! ## Members -/

namespace Members

theorem get?_eq_none_iff {m : Members} {key : String} : m.get? key = none ↔ ¬ key ∈ m.map Prod.fst := by
  rw [get?, Option.map_eq_none_iff, List.find?_eq_none]
  constructor
  · intro h hkey
    obtain ⟨p, hp, rfl⟩ := List.mem_map.1 hkey
    exact h p hp (beq_self_eq_true p.1)
  · intro h p hp hbeq
    exact h (List.mem_map.2 ⟨p, hp, eq_of_beq hbeq⟩)

/-- A key that comes after different ones is not there yet. -/
theorem get?_eq_none_of_nodup {m : Members} {key : String} {keys : List String}
    (h : (m.map Prod.fst ++ key :: keys).Nodup) : m.get? key = none := by
  rw [get?_eq_none_iff]
  intro hmem
  exact (List.nodup_append.1 h).2.2 key hmem key List.mem_cons_self rfl

/-- A new member comes last. -/
theorem set_of_get?_eq_none {m : Members} {key : String} (h : m.get? key = none) (v : Toml) :
    m.set key v = m ++ [(key, v)] := by
  rw [get?_eq_none_iff] at h
  induction m with
  | nil => rfl
  | cons p m ih =>
    rw [List.map_cons, List.mem_cons, not_or] at h
    have hp : p.1 ≠ key := fun hp => h.1 hp.symm
    simp [set, hp, ih h.2]

end Members

/-! ## Lines -/

section

variable {b : Builder} {root : Members} {name key : String} {v : Scalar} {r : List Char}

theorem lineEnd?_newline (r : List Char) : lineEnd? ('\n' :: r) = some r := by
  simp [lineEnd?, skipBlanks, skipComment, newline?, isBlank]

/-- The header of a section is read as one bare name. -/
theorem header?_bare (hname : IsBareKey name) (r : List Char) :
    header? ('[' :: (name.toList ++ ']' :: r)) = some ([name], false, r) := by
  have hclose : ∀ c ∈ (']' :: r).head?, isBare c = false := by
    rintro c ⟨rfl⟩
    decide
  have hkey : key? (maxKeyParts - 1) (name.toList ++ ']' :: r) = some ([name], ']' :: r) :=
    key?_bare 78 hname hclose (by simp [skipBlanks, isBlank])
  obtain ⟨c, s, hc, hcons⟩ := hname.exists_cons
  rw [hcons, List.cons_append] at hkey ⊢
  have hopen : c ≠ '[' := Text.ne_of_class hc (by decide)
  simp [header?, hopen, hkey, take?]

theorem Builder.openTable?_bare (h : root.get? name = none) :
    openTable? root [name] = some ⟨root, [name], false, []⟩ := by
  simp [openTable?, descend?, tableAt, h]

/-- The header of a section opens a new table. -/
theorem line?_header (hname : IsBareKey name) (hb : b.finish? = some root) (h : root.get? name = none)
    (r : List Char) :
    line? b ('[' :: (name.toList ++ ']' :: '\n' :: r)) = some (⟨root, [name], false, []⟩, r) := by
  simp [line?, header?_bare hname, lineEnd?_newline, hb, Builder.openTable?_bare h]

theorem Builder.add?_bare (h : b.current.get? key = none) (v : Toml) :
    b.add? [key] v = some { b with current := b.current ++ [(key, v)] } := by
  simp [add?, definePath?, define?, descend?, h, Members.set_of_get?_eq_none h]

/-- An entry is read as its key and its value. -/
theorem keyValue?_entry (hkey : IsBareKey key) (hv : v.Fits) (nesting : Nat) (r : List Char) :
    keyValue? (value? nesting) (writeEntry (key, v) ++ r) = some (([key], v.value), '\n' :: r) := by
  have htext : writeEntry (key, v) ++ r = key.toList ++ ' ' :: '=' :: ' ' :: (v.write ++ '\n' :: r) := by
    simp [writeEntry]
  have hspace : ∀ c ∈ (' ' :: '=' :: ' ' :: (v.write ++ '\n' :: r)).head?, isBare c = false := by
    rintro c ⟨rfl⟩
    decide
  have hpart : key? (maxKeyParts - 1) (key.toList ++ ' ' :: '=' :: ' ' :: (v.write ++ '\n' :: r)) =
      some ([key], '=' :: ' ' :: (v.write ++ '\n' :: r)) :=
    key?_bare 78 hkey hspace (by simp [skipBlanks, isBlank])
  have hvalue := value?_write hv nesting r
  rw [htext, keyValue?, hpart]
  simp [take?, v.skipBlanks_write, hvalue]

/-- An entry is added to the table that is open. -/
theorem line?_entry (hkey : IsBareKey key) (hv : v.Fits) (h : b.current.get? key = none) (r : List Char) :
    line? b (writeEntry (key, v) ++ r) = some ({ b with current := b.current ++ [(key, v.value)] }, r) := by
  have hread := keyValue?_entry hkey hv maxNesting r
  obtain ⟨c, s, hc, hcons⟩ := hkey.exists_cons
  have hopen : c ≠ '[' := Text.ne_of_class hc (by decide)
  unfold line?
  split
  · next heq =>
    rw [writeEntry, hcons] at heq
    exact absurd (List.cons.inj heq).1 hopen
  · simp [hread, lineEnd?_newline, Builder.add?_bare h]

/-- With more fuel than characters, reading on from one builder and text comes to reading on from another. -/
def Leads (b : Builder) (s : List Char) (b' : Builder) (s' : List Char) : Prop :=
  ∀ fuel, s.length < fuel → ∃ fuel', s'.length < fuel' ∧ lines? fuel b s = lines? fuel' b' s'

theorem Leads.refl (b : Builder) (s : List Char) : Leads b s b s := fun fuel h => ⟨fuel, h, rfl⟩

/-- What leads somewhere, and from there further, leads further. -/
theorem Leads.trans {b₁ b₂ b₃ : Builder} {s₁ s₂ s₃ : List Char} (h : Leads b₁ s₁ b₂ s₂) (h' : Leads b₂ s₂ b₃ s₃) :
    Leads b₁ s₁ b₃ s₃ := by
  intro fuel hfuel
  obtain ⟨fuel₂, hfuel₂, heq⟩ := h fuel hfuel
  obtain ⟨fuel₃, hfuel₃, heq'⟩ := h' fuel₂ hfuel₂
  exact ⟨fuel₃, hfuel₃, heq.trans heq'⟩

/-- A line that begins with a bracket or a key is read as a line. -/
theorem Leads.of_line? {b' : Builder} {c : Char} {s s' : List Char} (hc : c = '[' ∨ isBare c = true)
    (hlength : s'.length ≤ s.length) (h : line? b (c :: s) = some (b', s')) : Leads b (c :: s) b' s' := by
  intro fuel hfuel
  -- A line that begins so is neither blank nor a comment.
  have hne : ∀ d ∈ [' ', '\t', '#', '\n', '\r'], c ≠ d := by
    intro d hd
    simp only [List.mem_cons, List.not_mem_nil, or_false] at hd
    rcases hc with rfl | hc
    · rcases hd with rfl | rfl | rfl | rfl | rfl <;> decide
    · rcases hd with rfl | rfl | rfl | rfl | rfl <;> exact Text.ne_of_class hc (by decide)
  have hskip : skipBlanks (c :: s) = c :: s := by
    simp [skipBlanks, isBlank, hne ' ' (by simp), hne '\t' (by simp)]
  obtain _ | fuel := fuel
  · exact absurd hfuel (Nat.not_lt_zero _)
  · refine ⟨fuel, by simp at hfuel; omega, ?_⟩
    rw [lines?, hskip]
    split
    · next heq => cases heq
    · next heq => exact absurd (List.cons.inj heq).1 (hne '#' (by simp))
    · next heq => exact absurd (List.cons.inj heq).1 (hne '\n' (by simp))
    · next heq => exact absurd (List.cons.inj heq).1 (hne '\r' (by simp))
    · rw [h]
      rfl

theorem leads_header (hname : IsBareKey name) (hb : b.finish? = some root) (h : root.get? name = none)
    (r : List Char) :
    Leads b ('[' :: (name.toList ++ ']' :: '\n' :: r)) ⟨root, [name], false, []⟩ r := by
  refine .of_line? (.inl rfl) ?_ (line?_header hname hb h r)
  simp only [List.length_append, List.length_cons]
  omega

theorem leads_entry (hkey : IsBareKey key) (hv : v.Fits) (h : b.current.get? key = none) (r : List Char) :
    Leads b (writeEntry (key, v) ++ r) { b with current := b.current ++ [(key, v.value)] } r := by
  have hline := line?_entry hkey hv h r
  obtain ⟨c, s, hc, hcons⟩ := hkey.exists_cons
  have htext : writeEntry (key, v) ++ r = c :: (s ++ ' ' :: '=' :: ' ' :: (v.write ++ '\n' :: r)) := by
    simp [writeEntry, hcons]
  rw [htext] at hline ⊢
  refine .of_line? (.inr hc) ?_ hline
  simp only [List.length_append, List.length_cons]
  omega

/-- The lines of a section add its entries one after another. -/
theorem leads_entries {entries : List (String × Scalar)} (hkeys : ∀ entry ∈ entries, IsBareKey entry.1)
    (hfits : ∀ entry ∈ entries, entry.2.Fits) (hnodup : (b.current.map Prod.fst ++ entries.map Prod.fst).Nodup)
    (r : List Char) :
    Leads b (entries.flatMap writeEntry ++ r)
      { b with current := b.current ++ entries.map fun entry => (entry.1, entry.2.value) } r := by
  -- What the builder holds so far stands before the new entries, so each line adds a key that is not there.
  induction entries generalizing b with
  | nil => simpa using Leads.refl b r
  | cons entry entries ih =>
    rw [List.map_cons] at hnodup
    have hnew : b.current.get? entry.1 = none := Members.get?_eq_none_of_nodup hnodup
    have hstep := leads_entry (hkeys entry List.mem_cons_self) (hfits entry List.mem_cons_self) hnew
      (entries.flatMap writeEntry ++ r)
    have hrest := ih (b := { b with current := b.current ++ [(entry.1, entry.2.value)] })
      (fun e he => hkeys e (List.mem_cons_of_mem _ he)) (fun e he => hfits e (List.mem_cons_of_mem _ he))
      (by simpa using hnodup)
    rw [List.flatMap_cons, List.append_assoc]
    simpa using hstep.trans hrest

end

/-! ## Sections -/

/-- At the next header the table that was open is put under its name. -/
theorem Builder.finish?_table {root current : Members} {name : String} (h : root.get? name = none) :
    finish? ⟨root, [name], false, current⟩ = some (root ++ [(name, .table .header current)]) := by
  simp [finish?, descend?, h, Members.set_of_get?_eq_none h]

/-- A section that is written is read as a table of its own. -/
theorem leads_section {b : Builder} {root : Members} {s : Section} (hs : s.IsPlain) (hb : b.finish? = some root)
    (h : root.get? s.name = none) (r : List Char) :
    ∃ b', Leads b (s.write ++ r) b' r ∧ b'.finish? = some (root ++ [s.member]) := by
  refine ⟨⟨root, [s.name], false, s.entries.map fun entry => (entry.1, entry.2.value)⟩, ?_,
    Builder.finish?_table h⟩
  have hheader := leads_header hs.name hb h (s.entries.flatMap writeEntry ++ r)
  have hentries := leads_entries (b := ⟨root, [s.name], false, []⟩) (List.forall_mem_map.1 hs.keys) hs.fits
    hs.nodup r
  simpa [Section.write] using hheader.trans hentries

/-- Sections with different names are read one after another. -/
theorem leads_sections {b : Builder} {root : Members} {sections : List Section} (hplain : ∀ s ∈ sections, s.IsPlain)
    (hb : b.finish? = some root) (hnodup : (root.map Prod.fst ++ sections.map Section.name).Nodup) :
    ∃ b', Leads b (sections.flatMap Section.write) b' [] ∧ b'.finish? = some (root ++ sections.map Section.member) := by
  -- The builder still holds the last section open. What it would be if it ended here is what grows by one.
  induction sections generalizing b root with
  | nil => exact ⟨b, Leads.refl b [], by simpa using hb⟩
  | cons s sections ih =>
    rw [List.map_cons] at hnodup
    have hnew : root.get? s.name = none := Members.get?_eq_none_of_nodup hnodup
    obtain ⟨b₁, hfirst, hb₁⟩ := leads_section (hplain s List.mem_cons_self) hb hnew (sections.flatMap Section.write)
    obtain ⟨b₂, hrest, hb₂⟩ := ih (fun t ht => hplain t (List.mem_cons_of_mem _ ht)) hb₁
      (by simpa [Section.member] using hnodup)
    exact ⟨b₂, hfirst.trans hrest, by simpa using hb₂⟩

/-- A document of plain sections with distinct names is read as it is written. -/
theorem parse?_written {sections : List Section} (hplain : ∀ s ∈ sections, s.IsPlain)
    (hnodup : (sections.map Section.name).Nodup) :
    parse? (written sections) = some (sections.map Section.member) := by
  have hstart : Builder.start.finish? = some [] := rfl
  obtain ⟨b, hleads, hb⟩ := leads_sections hplain hstart hnodup
  obtain ⟨fuel, hfuel, hlines⟩ := hleads _ (Nat.lt_succ_self _)
  have hend : lines? fuel b [] = some b := by
    obtain _ | fuel := fuel
    · cases hfuel
    · rfl
  -- A document that begins with a bracket has no byte order mark to leave out.
  have hmark : ∀ t, sections.flatMap Section.write ≠ '\uFEFF' :: t := by
    intro t
    cases sections with
    | nil => simp
    | cons s sections => simp [Section.write]
  rw [parse?, written, String.toList_ofList]
  split
  · next heq => exact absurd heq (hmark _)
  · rw [hlines, hend]
    exact hb

end Toml
end Bridgework
