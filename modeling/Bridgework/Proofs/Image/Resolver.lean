import Bridgework.Image.Resolver
import Bridgework.Proofs.Image.Listing
import Mathlib.Data.List.Nodup

/-!
# Resolving addresses and names

A resolver is given libraries as they are listed, in any order and with ranges that may overlap. Which of
them decides about an address, and which name the address gets, is said here in terms of the lists.

- `Listing.Decides`, `ResolvesTo` : the library that decides, and what it decides
- `Resolver.resolve_decided_by_first` : what an address resolves to, for any order of libraries and exports
- `Resolver.resolveName?_least_showing` : which library is found for a name
- `Resolver.resolveName?_alias_lost` : a name that shares its address with a lesser one is not found
-/

namespace Bridgework

/-! ## The deciding library -/

namespace Listing

def order (l l' : Listing) : Ordering := (compare l.start l'.start).then (compare l.library l'.library)

instance : Std.TransCmp order :=
  inferInstanceAs (Std.TransCmp (compareLex (compareOn Listing.start) (compareOn Listing.library)))

/-- The first library that contains an address decides about it. -/
def Decides (ls : List Listing) (a : UInt64) (l : Listing) : Prop := FirstLeast order (·.Contains a) ls l

/-- Two listings that differ only in the order of their exports. -/
structure Reordered (l l' : Listing) : Prop where
  library : l.library = l'.library
  start : l.start = l'.start
  stop : l.stop = l'.stop
  exports : l.addressed.Perm l'.addressed

/-- The order of exports does not matter for the table of a library. -/
theorem Reordered.mapped_eq {l l' : Listing} (h : l.Reordered l') : l.mapped = l'.mapped := by
  have hexports : l.mapped.exports = l'.mapped.exports := by
    apply SortedMap.ext_get?
    intro a
    have hmem : ∀ name, (name, a) ∈ l.addressed ↔ (name, a) ∈ l'.addressed := fun _ => h.exports.mem_iff
    exact ((leastIfAny_congr hmem).1 (l.tabulates a)).eq (l'.tabulates a)
  rw [l.mapped_eq, l'.mapped_eq] at hexports ⊢
  unfold MappedLibrary.of at hexports ⊢
  rw [h.library, h.start, h.stop]
  exact congrArg (MappedLibrary.mk l'.library l'.start l'.stop) hexports

end Listing

/-- What an address resolves to. -/
inductive ResolvesTo (ls : List Listing) (mode : MatchMode) (a : UInt64) : Resolution → Prop
  | resolved {l : Listing} {symbol : String} (decides : Listing.Decides ls a l)
      (names : l.Names a mode symbol) : ResolvesTo ls mode a (.resolved l.library symbol)
  | noSymbol {l : Listing} (decides : Listing.Decides ls a l) (unmatched : ¬ l.Matches a mode) :
      ResolvesTo ls mode a (.noSymbol l.library)
  | outside (uncontained : ∀ l ∈ ls, ¬ l.Contains a) : ResolvesTo ls mode a .outside

namespace Resolver

def ofListings (ls : List Listing) (mode : MatchMode) : Resolver := .of (ls.map Listing.mapped) mode

variable {ls ls' : List Listing} {mode : MatchMode} {a : UInt64}

/-- Libraries are asked in the order of their starts and names. -/
theorem libraries_ofListings (ls : List Listing) (mode : MatchMode) :
    (ofListings ls mode).libraries = (ls.mergeSort fun l l' => (l.order l').isLE).map Listing.mapped := by
  unfold ofListings Resolver.of
  symm
  apply List.map_mergeSort
  intro l _ l' _
  -- Sorting looks at the start and the library only, and the table leaves both as they are listed.
  unfold before
  rw [l.library_mapped, l'.library_mapped, l.start_mapped, l'.start_mapped]
  rfl

/-- The first library that contains the address is the one that is asked. -/
theorem find?_contains_of_decides {l : Listing} (h : Listing.Decides ls a l) :
    (ofListings ls mode).libraries.find? (·.contains a) = some l.mapped := by
  have hfirst : FirstLeast Listing.order (fun l => l.mapped.contains a = true) ls l := by
    rw [show (fun l : Listing => l.mapped.contains a = true) = (·.Contains a) from
      funext fun l => propext Listing.contains_mapped]
    exact h
  rw [libraries_ofListings, List.find?_map]
  exact congrArg (Option.map Listing.mapped) hfirst.find?_mergeSort

theorem find?_contains_of_uncontained (h : ∀ l ∈ ls, ¬ l.Contains a) :
    (ofListings ls mode).libraries.find? (·.contains a) = none := by
  rw [libraries_ofListings, List.find?_eq_none]
  intro m hm
  obtain ⟨l, hl, rfl⟩ := List.mem_map.1 hm
  rw [Listing.contains_mapped]
  exact h l (List.mem_mergeSort.1 hl)

/-- What is told by the rules is what is resolved. -/
theorem resolve_of_resolvesTo {r : Resolution} (h : ResolvesTo ls mode a r) :
    (ofListings ls mode).resolve a = r := by
  cases h with
  -- The listing decides, and names a symbol.
  | @resolved l symbol hl hnames =>
    have hsymbol : l.mapped.symbolAt? a (ofListings ls mode).mode = some symbol :=
      Listing.symbolAt?_eq_some_iff.2 hnames
    unfold resolve
    rw [find?_contains_of_decides hl]
    simp only [hsymbol, l.library_mapped]
  -- The listing decides, and has no symbol there.
  | @noSymbol l hl hunmatched =>
    have hsymbol : l.mapped.symbolAt? a (ofListings ls mode).mode = none :=
      Listing.symbolAt?_eq_none_iff.2 hunmatched
    unfold resolve
    rw [find?_contains_of_decides hl]
    simp only [hsymbol, l.library_mapped]
  -- No listing contains the address.
  | outside hnone =>
    unfold resolve
    rw [find?_contains_of_uncontained hnone]

/-- The rules tell something of every address. -/
theorem exists_resolvesTo (ls : List Listing) (mode : MatchMode) (a : UInt64) :
    ∃ r, ResolvesTo ls mode a r := by
  by_cases h : ∃ l ∈ ls, l.Contains a
  · obtain ⟨l, hl⟩ : ∃ l, Listing.Decides ls a l := exists_firstLeast h
    cases hsymbol : l.mapped.symbolAt? a mode with
    | some symbol => exact ⟨_, .resolved hl (Listing.symbolAt?_eq_some_iff.1 hsymbol)⟩
    | none => exact ⟨_, .noSymbol hl (Listing.symbolAt?_eq_none_iff.1 hsymbol)⟩
  · exact ⟨_, .outside fun l hl hcontains => h ⟨l, hl, hcontains⟩⟩

theorem resolve_eq_iff {r : Resolution} : (ofListings ls mode).resolve a = r ↔ ResolvesTo ls mode a r := by
  refine ⟨?_, resolve_of_resolvesTo⟩
  rintro rfl
  -- Some answer is right, and the right one is given.
  obtain ⟨r, hr⟩ := exists_resolvesTo ls mode a
  rw [resolve_of_resolvesTo hr]
  exact hr

theorem ofListings_eq_of_reordered (h : List.Forall₂ Listing.Reordered ls' ls) :
    ofListings ls' mode = ofListings ls mode := by
  have hmapped : ls'.map Listing.mapped = ls.map Listing.mapped := by
    induction h with
    | nil => rfl
    | cons hl _ ih => rw [List.map_cons, List.map_cons, hl.mapped_eq, ih]
  unfold ofListings
  rw [hmapped]

/-- With different starts or names, libraries are in a strict order. -/
theorem eq_of_order_eq (hkeys : (ls.map fun l => (l.start, l.library)).Nodup) {l l' : Listing} (hl : l ∈ ls)
    (hl' : l' ∈ ls) (h : l.order l' = .eq) : l = l' := by
  obtain ⟨hstart, hlibrary⟩ := Ordering.then_eq_eq.1 h
  have hkey : (l.start, l.library) = (l'.start, l'.library) := by
    rw [Std.LawfulEqOrd.eq_of_compare hstart, Std.LawfulEqOrd.eq_of_compare hlibrary]
  exact List.inj_on_of_nodup_map hkeys hl hl' hkey

/-- The order in which libraries are given does not matter if no two have the same start and name. -/
theorem libraries_eq_of_perm (hkeys : (ls.map fun l => (l.start, l.library)).Nodup) (h : ls'.Perm ls) :
    (ofListings ls' mode).libraries = (ofListings ls mode).libraries := by
  rw [libraries_ofListings, libraries_ofListings]
  apply congrArg (List.map Listing.mapped)
  exact mergeSort_eq_of_cmp (fun _ hl _ hl' => eq_of_order_eq hkeys hl hl') h

/-- The first library that contains an address decides what it resolves to, and neither the order of the
exports nor that of libraries with distinct starts and names plays a part. -/
theorem resolve_decided_by_first (ls : List Listing) (mode : MatchMode) (a : UInt64) :
    (∀ r, (ofListings ls mode).resolve a = r ↔ ResolvesTo ls mode a r) ∧
      (∀ ls', List.Forall₂ Listing.Reordered ls' ls →
        (ofListings ls' mode).resolve a = (ofListings ls mode).resolve a) ∧
      ∀ ls', ls'.Perm ls → (ls.map fun l => (l.start, l.library)).Nodup →
        (ofListings ls' mode).resolve a = (ofListings ls mode).resolve a := by
  refine ⟨fun r => resolve_eq_iff, fun ls' h => ?_, fun ls' hperm hkeys => ?_⟩
  · rw [ofListings_eq_of_reordered h]
  · unfold resolve
    rw [libraries_eq_of_perm hkeys hperm]
    rfl

end Resolver

/-! ## Names -/

namespace Listing

/-- A name is listed at some address. -/
def Lists (l : Listing) (name : String) : Prop := ∃ a, l.Exports name a

/-- A name is the least at some address. -/
def Shows (l : Listing) (name : String) : Prop := ∃ a, Least (l.Exports · a) name

/-- No address has two names. -/
def Unaliased (l : Listing) : Prop := ∀ name name' a, l.Exports name a → l.Exports name' a → name = name'

theorem Shows.lists {l : Listing} {name : String} (h : l.Shows name) : l.Lists name := by
  obtain ⟨a, ha⟩ := h
  exact ⟨a, ha.1⟩

/-- A name without an alias is the least at its address. -/
theorem Lists.shows {l : Listing} {name : String} (h : l.Lists name) (hl : l.Unaliased) : l.Shows name := by
  obtain ⟨a, ha⟩ := h
  refine ⟨a, ha, fun name' ha' => ?_⟩
  rw [hl name name' a ha ha']
  exact Std.ReflCmp.isLE_rfl

/-- A library that lists a name. -/
def ListedBy (ls : List Listing) (name : String) (L : Library) : Prop := ∃ l ∈ ls, l.library = L ∧ l.Lists name

/-- A library that shows a name. -/
def ShownBy (ls : List Listing) (name : String) (L : Library) : Prop := ∃ l ∈ ls, l.library = L ∧ l.Shows name

theorem ShownBy.listedBy {ls : List Listing} {name : String} {L : Library} (h : ShownBy ls name L) :
    ListedBy ls name L := by
  obtain ⟨l, hl, hlibrary, hname⟩ := h
  exact ⟨l, hl, hlibrary, hname.lists⟩

/-- Of the libraries that list a name one is the least. -/
theorem ListedBy.exists_least {ls : List Listing} {name : String} {L : Library} (h : ListedBy ls name L) :
    ∃ K, Least (ListedBy ls name) K := by
  obtain ⟨l, hl, _, hname⟩ := h
  obtain ⟨k, hk⟩ : ∃ k, FirstLeast (compareOn library) (·.Lists name) ls k := exists_firstLeast ⟨l, hl, hname⟩
  refine ⟨k.library, ⟨k, hk.mem.1, rfl, hk.mem.2⟩, ?_⟩
  rintro _ ⟨l', hl', rfl, hname'⟩
  exact hk.isLE hl' hname'

/-- What is least among the libraries that show a name is least among those that list it if and only if the
least of these shows it. -/
theorem leastIfAny_listedBy_iff {ls : List Listing} {name : String} {o : Option Library}
    (ho : LeastIfAny (ShownBy ls name) o) :
    LeastIfAny (ListedBy ls name) o ↔ ∀ L, Least (ListedBy ls name) L → ShownBy ls name L := by
  constructor
  · intro hlisted L hL
    have hfound : o = some L := hlisted.eq_some_iff.2 hL
    exact (ho.eq_some_iff.1 hfound).1
  · intro hshown
    cases o with
    | none =>
      intro L hL
      obtain ⟨K, hK⟩ := hL.exists_least
      exact ho K (hshown K hK)
    | some L =>
      have hL : ListedBy ls name L := ho.1.listedBy
      obtain ⟨K, hK⟩ := hL.exists_least
      -- The least library that lists the name also shows it, so it does not come before the given one.
      have hLK : (compare L K).isLE := ho.2 K (hshown K hK)
      exact ⟨hL, fun M hM => Std.TransCmp.isLE_trans hLK (hK.2 M hM)⟩

end Listing

namespace Resolver

open Listing (ListedBy ShownBy)

/-- A name is found in the least library that shows it. -/
theorem leastIfAny_resolveName? (ls : List Listing) (mode : MatchMode) (name : String) :
    LeastIfAny (ShownBy ls name) ((ofListings ls mode).resolveName? name) := by
  have hmem : ∀ L, L ∈ SortedSet.ofList
      (((ofListings ls mode).libraries.filter (·.exportsName name)).map (·.library)) ↔ ShownBy ls name L := by
    intro L
    simp only [SortedSet.mem_ofList, libraries_ofListings, List.mem_map, List.mem_filter, List.mem_mergeSort]
    constructor
    · rintro ⟨_, ⟨⟨l, hl, rfl⟩, hname⟩, rfl⟩
      exact ⟨l, hl, l.library_mapped.symm, Listing.exportsName_iff.1 hname⟩
    · rintro ⟨l, hl, rfl, hname⟩
      exact ⟨l.mapped, ⟨⟨l, hl, rfl⟩, Listing.exportsName_iff.2 hname⟩, l.library_mapped⟩
  exact (leastIfAny_congr hmem).1 (SortedSet.leastIfAny_min? _)

/-- The least library that shows a name is found for it. It is the least that lists the name exactly if that
one shows it, as it does where no address has two names. -/
theorem resolveName?_least_showing (ls : List Listing) (mode : MatchMode) (name : String) :
    LeastIfAny (ShownBy ls name) ((ofListings ls mode).resolveName? name) ∧
      (LeastIfAny (ListedBy ls name) ((ofListings ls mode).resolveName? name) ↔
        ∀ L, Least (ListedBy ls name) L → ShownBy ls name L) ∧
      ((∀ l ∈ ls, l.Unaliased) → LeastIfAny (ListedBy ls name) ((ofListings ls mode).resolveName? name)) := by
  have hfound : LeastIfAny (ShownBy ls name) ((ofListings ls mode).resolveName? name) :=
    leastIfAny_resolveName? ls mode name
  refine ⟨hfound, Listing.leastIfAny_listedBy_iff hfound, fun hplain => ?_⟩
  apply (Listing.leastIfAny_listedBy_iff hfound).2
  intro L hL
  obtain ⟨l, hl, hlibrary, hname⟩ := hL.1
  exact ⟨l, hl, hlibrary, hname.shows (hplain l hl)⟩

/-- A library that lists two names for one address. -/
def aliased : Listing := ⟨⟨⟨"pkg", "1.0"⟩, "a.so"⟩, 0, 256, .addresses [("zeta", 16), ("alpha", 16)]⟩

/-- A name that shares its address with a lesser one is listed, and no library is found for it. -/
theorem resolveName?_alias_lost :
    ListedBy [aliased] "zeta" aliased.library ∧ (ofListings [aliased] .exact).resolveName? "zeta" = none ∧
      ¬ LeastIfAny (ListedBy [aliased] "zeta") ((ofListings [aliased] .exact).resolveName? "zeta") := by
  have hlisted : ListedBy [aliased] "zeta" aliased.library :=
    ⟨aliased, List.mem_cons_self, rfl, 16, List.mem_cons_self⟩
  have hnone : (ofListings [aliased] .exact).resolveName? "zeta" = none := by
    decide +kernel
  refine ⟨hlisted, hnone, ?_⟩
  rw [hnone]
  exact fun hnever => hnever aliased.library hlisted

end Resolver
end Bridgework
