import Bridgework.Image.Mapped
import Bridgework.Proofs.Collection.Increasing

/-!
# Libraries as they are listed

A library is listed with its exports in any order, several names at one address allowed. Its table keeps
one name for each address. Here the symbol that the table gives for an address is said in terms of the
list.

- `Listing` : a library with its list of exports
- `Listing.Names` : the symbol of an address, by match mode
- `Listing.tabulates` : the table has the least name of each address
- `Listing.symbolAt?_eq_some_iff`, `Listing.symbolAt?_eq_none_iff` : what the table gives for an address
- `Listing.exportsName_iff` : which names are in the table
-/

namespace Bridgework

open MappedLibrary (offsetAddress)

/-! ## Listings -/

/-- Exports with their addresses, or with their offsets to the start of the library. -/
inductive ExportList where
  | addresses (exports : List (String × UInt64))
  | offsets (exports : List Export)

/-- A library with the range of its addresses and the exports that are listed for it. -/
structure Listing where
  library : Library
  start : UInt64
  stop : UInt64
  exports : ExportList

namespace Listing

def mapped (l : Listing) : MappedLibrary :=
  match l.exports with
  | .addresses es => .of l.library l.start l.stop es
  | .offsets es => .ofOffsets l.library l.start l.stop es

def addressed (l : Listing) : List (String × UInt64) :=
  match l.exports with
  | .addresses es => es
  | .offsets es => es.map fun e => (e.name, offsetAddress l.start e.offset)

/-- A name is listed for an address. -/
def Exports (l : Listing) (name : String) (a : UInt64) : Prop := (name, a) ∈ l.addressed

/-- The range is half open. -/
def Contains (l : Listing) (a : UInt64) : Prop := l.start ≤ a ∧ a < l.stop

/-- An export that a mode can match to an address. -/
def Matches (l : Listing) (a : UInt64) : MatchMode → Prop
  | .exact => ∃ name, l.Exports name a
  | .nearest => ∃ name b, l.Exports name b ∧ b ≤ a

/-- The greatest address of an export that is not above an address. -/
def IsNearest (l : Listing) (a b : UInt64) : Prop :=
  ((∃ name, l.Exports name b) ∧ b ≤ a) ∧ ∀ name c, l.Exports name c → c ≤ a → c ≤ b

/-- The symbol of an address: the least name at the address itself, or at the nearest one. -/
def Names (l : Listing) (a : UInt64) : MatchMode → String → Prop
  | .exact, symbol => Least (l.Exports · a) symbol
  | .nearest, symbol => ∃ b, l.IsNearest a b ∧ Least (l.Exports · b) symbol

/-- Whether offsets or addresses are listed, the table is made from addresses. -/
theorem mapped_eq (l : Listing) : l.mapped = .of l.library l.start l.stop l.addressed := by
  unfold mapped addressed
  cases l.exports with
  | addresses es => rfl
  | offsets es => rfl

theorem library_mapped (l : Listing) : l.mapped.library = l.library := by
  rw [mapped_eq]
  rfl

theorem start_mapped (l : Listing) : l.mapped.start = l.start := by
  rw [mapped_eq]
  rfl

theorem contains_mapped {l : Listing} {a : UInt64} : l.mapped.contains a = true ↔ l.Contains a := by
  rw [mapped_eq, MappedLibrary.contains, Bool.and_eq_true, decide_eq_true_iff, decide_eq_true_iff]
  exact Iff.rfl

end Listing

/-! ## Tables -/

/-- A table has for each address the least of the names that are listed for it. -/
def Tabulates (m : SortedMap UInt64 String) (exports : List (String × UInt64)) : Prop :=
  ∀ a, LeastIfAny (fun name => (name, a) ∈ exports) (m.get? a)

theorem tabulates_empty : Tabulates .empty [] := by
  intro a name hname
  cases hname

/-- What adding one export does. -/
theorem Tabulates.addExport {m : SortedMap UInt64 String} {exports : List (String × UInt64)}
    (h : Tabulates m exports) (name : String) (b : UInt64) :
    Tabulates (MappedLibrary.addExport m name b) (exports ++ [(name, b)]) := by
  intro a
  unfold MappedLibrary.addExport SortedMap.alter
  -- At the address itself the new name is held against the one in the table; no other address is touched.
  by_cases ha : a = b
  · subst ha
    rw [SortedMap.get?_insert_self]
    have hmem : ∀ s, (s, a) ∈ exports ++ [(name, a)] ↔ (s, a) ∈ exports ∨ s = name := by
      simp
    rw [leastIfAny_congr hmem]
    have hget : LeastIfAny (fun s => (s, a) ∈ exports) (m.get? a) := h a
    cases hm : m.get? a with
    | none =>
      rw [hm] at hget
      refine ⟨.inr rfl, ?_⟩
      rintro s (hs | rfl)
      · exact absurd hs (hget s)
      · exact Std.ReflCmp.isLE_rfl
    | some old =>
      rw [hm] at hget
      have hold : Least (fun s => (s, a) ∈ exports) old := hget
      exact hold.or_eq name
  · rw [SortedMap.get?_insert_of_ne ha]
    have hmem : ∀ s, (s, a) ∈ exports ++ [(name, b)] ↔ (s, a) ∈ exports := by
      simp [ha]
    exact (leastIfAny_congr hmem).2 (h a)

/-- The table of some exports, extended by more, is the table of all. -/
theorem Tabulates.foldl {m : SortedMap UInt64 String} {seen : List (String × UInt64)} (h : Tabulates m seen)
    (exports : List (String × UInt64)) :
    Tabulates (exports.foldl (fun m e => MappedLibrary.addExport m e.1 e.2) m) (seen ++ exports) := by
  -- By induction on the exports that are still to come; those that were seen are in the table.
  induction exports generalizing m seen with
  | nil =>
    rw [List.append_nil]
    exact h
  | cons e exports ih =>
    have hstep : Tabulates (MappedLibrary.addExport m e.1 e.2) (seen ++ [e]) := h.addExport e.1 e.2
    simpa using ih hstep

/-- The table of a library has the least name at each address. -/
theorem Listing.tabulates (l : Listing) : Tabulates l.mapped.exports l.addressed := by
  rw [l.mapped_eq]
  exact tabulates_empty.foldl l.addressed

/-! ## Symbols -/

/-- The entries of a test that fails from some place on stand in front. -/
theorem takeWhile_eq_filter {α : Type} {p : α → Bool} {l : List α}
    (h : l.Pairwise fun a b => p b = true → p a = true) : l.takeWhile p = l.filter p := by
  induction l with
  | nil => rfl
  | cons a l ih =>
    obtain ⟨ha, hl⟩ := List.pairwise_cons.1 h
    by_cases hp : p a = true
    · rw [List.takeWhile_cons_of_pos hp, List.filter_cons_of_pos hp, ih hl]
    · rw [List.takeWhile_cons_of_neg hp, List.filter_cons_of_neg hp]
      symm
      rw [List.filter_eq_nil_iff]
      intro b hb hpb
      exact hp (ha b hb hpb)

/-- In increasing order of keys the last entry is the one with the greatest key. -/
theorem getLast?_eq_some_iff_greatest {l : List (UInt64 × String)}
    (h : l.Pairwise fun a b => compare a.1 b.1 = .lt) {e : UInt64 × String} :
    l.getLast? = some e ↔ e ∈ l ∧ ∀ f ∈ l, f.1 ≤ e.1 := by
  rw [List.getLast?_eq_some_iff]
  constructor
  · rintro ⟨front, rfl⟩
    refine ⟨List.mem_append_right front List.mem_cons_self, fun f hf => ?_⟩
    rcases List.mem_append.1 hf with hf | hf
    · have hlt : compare f.1 e.1 = .lt := (List.pairwise_append.1 h).2.2 f hf e List.mem_cons_self
      exact Std.isLE_compare.1 (by rw [hlt]; rfl)
    · rw [List.mem_singleton.1 hf]
      exact Std.le_refl e.1
  · rintro ⟨he, hgreatest⟩
    obtain ⟨front, back, rfl⟩ := List.append_of_mem he
    cases back with
    | nil => exact ⟨front, rfl⟩
    | cons f back =>
      -- Nothing stands behind the entry, since it would have a greater key.
      have hlt : compare e.1 f.1 = .lt :=
        (List.pairwise_cons.1 (List.pairwise_append.1 h).2.1).1 f List.mem_cons_self
      have hle : f.1 ≤ e.1 := hgreatest f (by simp)
      exact absurd hle (Std.not_le.2 (Std.compare_eq_lt.1 hlt))

/-- The addresses up to a bound are the first ones of a table. -/
theorem takeWhile_toList_eq_filter (m : SortedMap UInt64 String) (a : UInt64) :
    (m.toList.takeWhile fun e => e.1 ≤ a) = m.toList.filter fun e => e.1 ≤ a := by
  apply takeWhile_eq_filter
  refine m.increasing.imp fun {e f} hlt hf => ?_
  have hle : e.1 ≤ f.1 := Std.isLE_compare.1 (by rw [hlt]; rfl)
  exact decide_eq_true (Std.le_trans hle (of_decide_eq_true hf))

/-- The entry in front of an address, or at it, has the greatest key that is not above. -/
theorem getLast?_takeWhile_eq_some_iff {m : SortedMap UInt64 String} {a b : UInt64} {s : String} :
    (m.toList.takeWhile fun e => e.1 ≤ a).getLast? = some (b, s) ↔
      (m.get? b = some s ∧ b ≤ a) ∧ ∀ c t, m.get? c = some t → c ≤ a → c ≤ b := by
  rw [takeWhile_toList_eq_filter, getLast?_eq_some_iff_greatest (m.increasing.filter _)]
  simp only [List.mem_filter, decide_eq_true_iff, SortedMap.get?_eq_some_iff, and_imp, Prod.forall]

namespace Listing

variable {l : Listing} {a : UInt64}

theorem get?_mapped_eq_some_iff {s : String} :
    l.mapped.exports.get? a = some s ↔ Least (l.Exports · a) s :=
  (l.tabulates a).eq_some_iff

theorem exists_get?_mapped_iff : (∃ s, l.mapped.exports.get? a = some s) ↔ ∃ name, l.Exports name a := by
  rw [← Option.isSome_iff_exists, ← Option.ne_none_iff_isSome, ne_eq, (l.tabulates a).eq_none_iff]
  exact Classical.not_forall_not

/-- The symbol that is found is the one of the address, in either mode. -/
theorem symbolAt?_eq_some_iff {mode : MatchMode} {s : String} :
    l.mapped.symbolAt? a mode = some s ↔ l.Names a mode s := by
  cases mode with
  | exact => exact get?_mapped_eq_some_iff
  | nearest =>
    -- The table has its keys at the listed addresses, so the greatest key is the nearest address.
    unfold MappedLibrary.symbolAt? Names IsNearest
    rw [Option.map_eq_some_iff]
    constructor
    · rintro ⟨⟨b, t⟩, hlast, rfl⟩
      obtain ⟨⟨hget, hb⟩, hgreatest⟩ := getLast?_takeWhile_eq_some_iff.1 hlast
      refine ⟨b, ⟨⟨exists_get?_mapped_iff.1 ⟨t, hget⟩, hb⟩, fun name c hc hca => ?_⟩,
        get?_mapped_eq_some_iff.1 hget⟩
      obtain ⟨u, hu⟩ := exists_get?_mapped_iff.2 ⟨name, hc⟩
      exact hgreatest c u hu hca
    · rintro ⟨b, ⟨⟨_, hb⟩, hgreatest⟩, hleast⟩
      refine ⟨(b, s), getLast?_takeWhile_eq_some_iff.2 ⟨⟨get?_mapped_eq_some_iff.2 hleast, hb⟩, ?_⟩, rfl⟩
      intro c t hc hca
      obtain ⟨name, hname⟩ := exists_get?_mapped_iff.1 ⟨t, hc⟩
      exact hgreatest name c hname hca

/-- No symbol is found exactly if no export can be matched. -/
theorem symbolAt?_eq_none_iff {mode : MatchMode} :
    l.mapped.symbolAt? a mode = none ↔ ¬ l.Matches a mode := by
  cases mode with
  | exact =>
    unfold MappedLibrary.symbolAt? Matches
    rw [← exists_get?_mapped_iff, ← Option.isSome_iff_exists, Option.not_isSome_iff_eq_none]
  | nearest =>
    unfold MappedLibrary.symbolAt? Matches
    rw [Option.map_eq_none_iff, List.getLast?_eq_none_iff, takeWhile_toList_eq_filter, List.filter_eq_nil_iff]
    constructor
    · rintro hnone ⟨name, b, hb, hba⟩
      obtain ⟨s, hs⟩ := exists_get?_mapped_iff.2 ⟨name, hb⟩
      exact hnone (b, s) (SortedMap.get?_eq_some_iff.1 hs) (decide_eq_true hba)
    · rintro hnone ⟨b, s⟩ hs hba
      obtain ⟨name, hname⟩ := exists_get?_mapped_iff.1 ⟨s, SortedMap.get?_eq_some_iff.2 hs⟩
      exact hnone ⟨name, b, hname, of_decide_eq_true hba⟩

/-- Only the least name of each address is in the table. -/
theorem exportsName_iff {name : String} :
    l.mapped.exportsName name = true ↔ ∃ a, Least (l.Exports · a) name := by
  unfold MappedLibrary.exportsName SortedMap.values
  simp only [List.contains_iff_mem, List.mem_map, Prod.exists, exists_eq_right]
  exact exists_congr fun a => SortedMap.get?_eq_some_iff.symm.trans get?_mapped_eq_some_iff

end Listing

end Bridgework
