import Bridgework.Image.MemoryMap
import Bridgework.Proofs.Collection.Increasing
import Bridgework.Proofs.Path.Below

/-!
# Load ranges

The regions of one file may stand anywhere in a listing and anywhere in memory. The range of the file
reaches from the lowest start among them to the highest stop, whatever the order.

- `LoadRange.Bounds` : a range that fits around regions and touches them at both ends
- `MemoryMap.boundsIfAny_libraryRanges` : each file below a directory has such a range, and nothing else
- `MemoryMap.libraryRanges_tight` : the same with the order of the regions and the resolver over the ranges
- `MemoryMap.base_at_file_start_iff` : when the base is where the start of the file is mapped
-/

namespace Bridgework

/-! ## Ranges around regions -/

/-- The first, in an order, among the values that regions with a property have. -/
def FirstOf (le : UInt64 → UInt64 → Prop) (value : Region → UInt64) (P : Region → Prop) (x : UInt64) : Prop :=
  (∃ r, P r ∧ value r = x) ∧ ∀ r, P r → le x (value r)

/-- The lowest start of the regions with a property. -/
abbrev IsLowestStart : (Region → Prop) → UInt64 → Prop := FirstOf (· ≤ ·) Region.start

/-- The highest stop of the regions with a property. -/
abbrev IsHighestStop : (Region → Prop) → UInt64 → Prop := FirstOf (· ≥ ·) Region.stop

/-- A range that bounds the regions with a property, and both of whose ends are ends of such regions. -/
structure LoadRange.Bounds (range : LoadRange) (P : Region → Prop) : Prop where
  base : IsLowestStart P range.base
  stop : IsHighestStop P range.stop

/-- The range that bounds the regions with a property, if there are any. -/
def BoundsIfAny (P : Region → Prop) : Option LoadRange → Prop
  | none => ∀ r, ¬ P r
  | some range => range.Bounds P

section

variable {le : UInt64 → UInt64 → Prop} {value : Region → UInt64} {P Q : Region → Prop} {x y : UInt64}

theorem FirstOf.eq (hanti : ∀ a b, le a b → le b a → a = b) (hx : FirstOf le value P x)
    (hy : FirstOf le value P y) : x = y := by
  obtain ⟨⟨r, hr, rfl⟩, hfirst⟩ := hx
  obtain ⟨⟨r', hr', rfl⟩, hfirst'⟩ := hy
  exact hanti _ _ (hfirst r' hr') (hfirst' r hr)

/-- With one more region, the first of the two values. -/
theorem FirstOf.or_eq (htrans : ∀ a b c, le a b → le b c → le a c) (h : FirstOf le value P x) {r : Region}
    (hx : le y x) (hr : le y (value r)) (hy : y = x ∨ y = value r) :
    FirstOf le value (fun s => P s ∨ s = r) y := by
  obtain ⟨⟨t, ht, htx⟩, hfirst⟩ := h
  constructor
  · rcases hy with rfl | rfl
    · exact ⟨t, .inl ht, htx⟩
    · exact ⟨r, .inr rfl, rfl⟩
  · rintro s (hs | rfl)
    · exact htrans y x (value s) hx (hfirst s hs)
    · exact hr

theorem boundsIfAny_congr (h : ∀ r, P r ↔ Q r) {o : Option LoadRange} : BoundsIfAny P o ↔ BoundsIfAny Q o := by
  rw [show P = Q from funext fun r => propext (h r)]

/-- There is no range where there is no region. -/
theorem BoundsIfAny.eq_none_iff {o : Option LoadRange} (h : BoundsIfAny P o) : o = none ↔ ∀ r, ¬ P r := by
  cases o with
  | none => exact iff_of_true rfl h
  | some range =>
    obtain ⟨r, hr, _⟩ := h.base.1
    exact iff_of_false (Option.some_ne_none range) fun hnone => hnone r hr

/-- The regions determine their range. -/
theorem LoadRange.Bounds.eq {range range' : LoadRange} (h : range.Bounds P) (h' : range'.Bounds P) :
    range = range' := by
  have hbase : range.base = range'.base := h.base.eq (fun _ _ => Std.le_antisymm) h'.base
  have hstop : range.stop = range'.stop := h.stop.eq (fun _ _ hab hba => Std.le_antisymm hba hab) h'.stop
  cases range
  cases range'
  cases hbase
  cases hstop
  rfl

theorem BoundsIfAny.eq {o o' : Option LoadRange} (h : BoundsIfAny P o) (h' : BoundsIfAny P o') : o = o' := by
  cases o with
  | none => exact (h'.eq_none_iff.2 h).symm
  | some range =>
    cases o' with
    | none => exact h.eq_none_iff.2 h'
    | some range' => exact congrArg some (LoadRange.Bounds.eq h h')

/-! ## Widening -/

/-- The greater of two words. -/
theorem max_spec (a b : UInt64) : (a ≤ max a b ∧ b ≤ max a b) ∧ (max a b = a ∨ max a b = b) := by
  have hmax : max a b = if a ≤ b then b else a := rfl
  by_cases hab : a ≤ b
  · rw [hmax, if_pos hab]
    exact ⟨⟨hab, Std.le_refl b⟩, .inr rfl⟩
  · have hba : b ≤ a := Std.le_total.resolve_left hab
    rw [hmax, if_neg hab]
    exact ⟨⟨Std.le_refl a, hba⟩, .inl rfl⟩

/-- A range that is widened by a region bounds that region too. -/
theorem BoundsIfAny.widen {o : Option LoadRange} (h : BoundsIfAny P o) (r : Region) :
    (MemoryMap.widen r o).Bounds fun s => P s ∨ s = r := by
  cases o with
  | none =>
    -- The region is the only one, and its ends are the ends of the range.
    have honly : ∀ s, P s ∨ s = r → s = r := fun s hs => hs.resolve_left (h s)
    refine ⟨⟨⟨r, .inr rfl, rfl⟩, fun s hs => ?_⟩, ⟨⟨r, .inr rfl, rfl⟩, fun s hs => ?_⟩⟩
    · rw [honly s hs]
      exact Std.le_refl r.start
    · rw [honly s hs]
      exact Std.le_refl r.stop
  | some range =>
    have hle : ∀ a b c : UInt64, a ≤ b → b ≤ c → a ≤ c := fun _ _ _ => Std.le_trans
    have hge : ∀ a b c : UInt64, a ≥ b → b ≥ c → a ≥ c := fun _ _ _ hab hbc => Std.le_trans hbc hab
    obtain ⟨⟨hstop, hr⟩, hmax⟩ := max_spec range.stop r.stop
    constructor
    · exact h.base.or_eq hle Std.min_le_left Std.min_le_right Std.min_eq_or
    · exact h.stop.or_eq hge hstop hr hmax

end

/-! ## Listings -/

namespace MemoryMap

/-- The regions of the file at a path below a directory. -/
def OfFile (regions : List Region) (root key : String) (r : Region) : Prop :=
  r ∈ regions ∧ pathBelow? root r = some key

def addRegion (root : String) (m : SortedMap String LoadRange) (r : Region) : SortedMap String LoadRange :=
  match pathBelow? root r with
  | none => m
  | some path => m.alter path (widen r)

theorem libraryRanges_eq_foldl (regions : List Region) (root : String) :
    libraryRanges regions root = regions.foldl (addRegion root) .empty := rfl

/-- A map has for each path the range of the regions of the file there. -/
def Ranges (root : String) (seen : List Region) (m : SortedMap String LoadRange) : Prop :=
  ∀ key, BoundsIfAny (OfFile seen root key) (m.get? key)

theorem ranges_empty (root : String) : Ranges root [] .empty := by
  intro key r hr
  exact absurd hr.1 List.not_mem_nil

variable {root key : String} {seen regions : List Region} {m : SortedMap String LoadRange}

/-- A further region of the file counts for its range. -/
theorem ofFile_append_of_eq {r : Region} (h : pathBelow? root r = some key) (s : Region) :
    OfFile (seen ++ [r]) root key s ↔ OfFile seen root key s ∨ s = r := by
  simp only [OfFile, List.mem_append, List.mem_singleton]
  grind

/-- A region of another file does not count. -/
theorem ofFile_append_of_ne {r : Region} (h : pathBelow? root r ≠ some key) (s : Region) :
    OfFile (seen ++ [r]) root key s ↔ OfFile seen root key s := by
  simp only [OfFile, List.mem_append, List.mem_singleton]
  grind

/-- What taking in one region does. -/
theorem Ranges.addRegion (h : Ranges root seen m) (r : Region) :
    Ranges root (seen ++ [r]) (addRegion root m r) := by
  intro key
  unfold MemoryMap.addRegion
  cases hpath : pathBelow? root r with
  | none =>
    -- The region is of no file below the directory.
    have hother : pathBelow? root r ≠ some key := by simp [hpath]
    exact (boundsIfAny_congr (ofFile_append_of_ne hother)).2 (h key)
  | some path =>
    by_cases hkey : key = path
    · subst hkey
      simp only [SortedMap.alter, SortedMap.get?_insert_self]
      exact (boundsIfAny_congr (ofFile_append_of_eq hpath)).2 ((h key).widen r)
    · have hother : pathBelow? root r ≠ some key := by simpa [hpath] using Ne.symm hkey
      simp only [SortedMap.alter, SortedMap.get?_insert_of_ne hkey]
      exact (boundsIfAny_congr (ofFile_append_of_ne hother)).2 (h key)

/-- Taking regions in one after another gives the ranges of all. -/
theorem Ranges.foldl (h : Ranges root seen m) (regions : List Region) :
    Ranges root (seen ++ regions) (regions.foldl (MemoryMap.addRegion root) m) := by
  -- By induction on the regions that are still to come; the map has the ranges of those seen.
  induction regions generalizing m seen with
  | nil => simpa using h
  | cons r regions ih => simpa using ih (h.addRegion r)

/-- The range of a file bounds its regions. -/
theorem boundsIfAny_libraryRanges (regions : List Region) (root key : String) :
    BoundsIfAny (OfFile regions root key) ((libraryRanges regions root).get? key) := by
  have hranges := (ranges_empty root).foldl regions
  rw [← libraryRanges_eq_foldl] at hranges
  exact hranges key

/-- A file has the range that bounds its regions. -/
theorem get?_eq_some_iff_bounds {range : LoadRange} :
    (libraryRanges regions root).get? key = some range ↔ range.Bounds (OfFile regions root key) := by
  have hbounds := boundsIfAny_libraryRanges regions root key
  constructor
  · intro hrange
    rwa [hrange] at hbounds
  · intro hrange
    exact hbounds.eq hrange

/-- A file has a range exactly if it has a region. -/
theorem mem_keys_libraryRanges_iff :
    key ∈ (libraryRanges regions root).keys ↔ ∃ r ∈ regions, pathBelow? root r = some key := by
  have hbounds := boundsIfAny_libraryRanges regions root key
  calc
    key ∈ (libraryRanges regions root).keys
        ↔ ∃ range, (libraryRanges regions root).get? key = some range := by
          simp [SortedMap.keys, SortedMap.get?_eq_some_iff]
    _ ↔ (libraryRanges regions root).get? key ≠ none := Option.ne_none_iff_exists'.symm
    _ ↔ ∃ r ∈ regions, pathBelow? root r = some key := by
          rw [ne_eq, hbounds.eq_none_iff]
          simp [OfFile]

/-- The order and the repetitions of regions do not matter for ranges. -/
theorem libraryRanges_eq_of_mem_iff {regions' : List Region} (h : ∀ r, r ∈ regions' ↔ r ∈ regions) :
    libraryRanges regions' root = libraryRanges regions root := by
  apply SortedMap.ext_get?
  intro key
  have hsame : ∀ r, OfFile regions' root key r ↔ OfFile regions root key r := fun r =>
    and_congr_left fun _ => h r
  exact ((boundsIfAny_congr hsame).1 (boundsIfAny_libraryRanges regions' root key)).eq
    (boundsIfAny_libraryRanges regions root key)

end MemoryMap

/-! ## Resolvers over ranges -/

namespace Resolver

theorem mem_libraries_ofRanges {ranges : SortedMap String LoadRange} {key : String} {range : LoadRange}
    (h : ranges.get? key = some range) (package : Package) (exports : SortedMap String (List Export))
    (mode : MatchMode) :
    MappedLibrary.ofOffsets (.ofPath package key) range.base range.stop ((exports.get? key).getD []) ∈
      (ofRanges package ranges exports mode).libraries := by
  unfold ofRanges Resolver.of
  rw [List.mem_mergeSort]
  exact List.mem_map.2 ⟨(key, range), SortedMap.get?_eq_some_iff.1 h, rfl⟩

/-- An address in a library is not outside. -/
theorem resolve_ne_outside {r : Resolver} {l : MappedLibrary} {a : UInt64} (hl : l ∈ r.libraries)
    (ha : l.contains a = true) : r.resolve a ≠ .outside := by
  unfold resolve
  cases hfind : r.libraries.find? (·.contains a) with
  | none => exact absurd ha (List.find?_eq_none.1 hfind l hl)
  | some l' =>
    cases hsymbol : l'.symbolAt? a r.mode with
    | none => simp [hsymbol]
    | some symbol => simp [hsymbol]

end Resolver

namespace MemoryMap

open Bridgework.Path (parts Remains)

/-- The path of a region begins, part by part, with a directory. -/
def LiesBelow (root : String) (r : Region) : Prop :=
  ∃ path : String, r.path = some path ∧ parts root.toList <+: parts path.toList

variable {root key : String} {r : Region}

/-- A region lies below a directory exactly if its path has the parts of the directory in front. -/
theorem exists_pathBelow?_iff : (∃ key, pathBelow? root r = some key) ↔ LiesBelow root r := by
  unfold pathBelow? LiesBelow
  cases r.path with
  | none => simp
  | some path => simpa using Path.exists_below?_iff

/-- What remains of a path below a directory is brought to its stored form. -/
theorem exists_remains_of_pathBelow? (h : pathBelow? root r = some key) :
    ∃ path rest : String, r.path = some path ∧ Remains path.toList root.toList rest.toList ∧
      key = Path.normalize rest := by
  unfold pathBelow? at h
  cases hpath : r.path with
  | none => simp [hpath] at h
  | some path =>
    obtain ⟨rest, hremains, hkey⟩ := Path.exists_remains_of_below? (by simpa [hpath] using h)
    exact ⟨path, rest, rfl, hremains, hkey⟩

/-- Each file below a directory has one range, under the stored form of what is left of its path, and
nothing else has one. It is the range that its regions fill, in whatever order they come. So no address
in a region of such a file is outside. -/
theorem libraryRanges_tight (regions : List Region) (root : String) :
    ((libraryRanges regions root).keys.Nodup ∧
      (∀ key, key ∈ (libraryRanges regions root).keys ↔ ∃ r ∈ regions, pathBelow? root r = some key) ∧
      (∀ r, (∃ key, pathBelow? root r = some key) ↔ LiesBelow root r) ∧
      ∀ r key, pathBelow? root r = some key → ∃ path rest : String, r.path = some path ∧
        Remains path.toList root.toList rest.toList ∧ key = Path.normalize rest) ∧
    (∀ regions', regions'.Perm regions → libraryRanges regions' root = libraryRanges regions root) ∧
    (∀ key range, (libraryRanges regions root).get? key = some range →
      range.Bounds fun r => r ∈ regions ∧ pathBelow? root r = some key) ∧
    ∀ package exports mode, ∀ r ∈ regions, LiesBelow root r → ∀ a, r.start ≤ a → a < r.stop →
      (Resolver.ofRanges package (libraryRanges regions root) exports mode).resolve a ≠ .outside := by
  refine ⟨⟨?_, fun key => mem_keys_libraryRanges_iff, fun r => exists_pathBelow?_iff, fun r key =>
    exists_remains_of_pathBelow?⟩, ?_, ?_, ?_⟩
  · exact (libraryRanges regions root).increasing_keys.nodup
  · intro regions' hperm
    exact libraryRanges_eq_of_mem_iff fun r => hperm.mem_iff
  · intro key range hrange
    exact get?_eq_some_iff_bounds.1 hrange
  · intro package exports mode r hr hbelow a hstart hstop
    obtain ⟨key, hkey⟩ := exists_pathBelow?_iff.2 hbelow
    -- The file has a range, and the region is one of those that the range bounds.
    cases hrange : (libraryRanges regions root).get? key with
    | none =>
      have hbounds := boundsIfAny_libraryRanges regions root key
      exact absurd ⟨hr, hkey⟩ (hbounds.eq_none_iff.1 hrange r)
    | some range =>
      have hbounds : range.Bounds (OfFile regions root key) := get?_eq_some_iff_bounds.1 hrange
      have hbase : range.base ≤ a := Std.le_trans (hbounds.base.2 r ⟨hr, hkey⟩) hstart
      have hend : a < range.stop := Std.lt_of_lt_of_le hstop (hbounds.stop.2 r ⟨hr, hkey⟩)
      refine Resolver.resolve_ne_outside (Resolver.mem_libraries_ofRanges hrange package exports mode) ?_
      exact Bool.and_eq_true_iff.2 ⟨decide_eq_true hbase, decide_eq_true hend⟩

/-- Two files whose regions are mixed; the path of one region of the first is written with a dot and a
slash too many, as is the directory, and the last region is of no file. -/
def mixed : List Region :=
  [⟨0x3000, 0x4000, 0x2000, some "/site/pkg/a.so"⟩, ⟨0x2000, 0x8000, 0, some "/site/pkg/b.so"⟩,
    ⟨0x1000, 0x2000, 0, some "/site/.//pkg/a.so"⟩, ⟨0x9000, 0xa000, 0, none⟩]

/-- The first file has a gap in which the second lies, and an address in a region of either is not outside. -/
theorem libraryRanges_tight_mixed :
    libraryRanges mixed "//site/." = .ofList [("pkg/a.so", ⟨0x1000, 0x4000⟩), ("pkg/b.so", ⟨0x2000, 0x8000⟩)] ∧
      libraryRanges mixed.reverse "//site/." = libraryRanges mixed "//site/." ∧
      (Resolver.ofRanges ⟨"pkg", "1.0"⟩ (libraryRanges mixed "//site/.") .empty .exact).resolve 0x7fff ≠
        .outside := by
  obtain ⟨_, horder, _, hinside⟩ := libraryRanges_tight mixed "//site/."
  refine ⟨by decide +kernel, horder _ (List.reverse_perm mixed), ?_⟩
  have hbelow : LiesBelow "//site/." ⟨0x2000, 0x8000, 0, some "/site/pkg/b.so"⟩ :=
    ⟨"/site/pkg/b.so", rfl, by decide⟩
  exact hinside _ _ _ _ (by decide) hbelow 0x7fff (by decide) (by decide)

/-! ## The base and the start of the file

A library lies in memory from where the start of its file is mapped, and offsets count from there. The base
is the lowest start of all regions of the file instead, so it is too low where another region of the file
comes first in memory. -/

/-- A region at the start of the file. -/
def AtFileStart (regions : List Region) (root key : String) (r : Region) : Prop :=
  OfFile regions root key r ∧ r.offset = 0

/-- The base is the lowest start of the regions at the start of the file exactly if no other region of the
file lies before all of these. It is the base from which the offsets of the exports are counted. -/
theorem base_at_file_start_iff (regions : List Region) (root key : String) (range : LoadRange)
    (h : (libraryRanges regions root).get? key = some range) :
    (IsLowestStart (AtFileStart regions root key) range.base ↔
      ∀ r, OfFile regions root key r → ∃ s, AtFileStart regions root key s ∧ s.start ≤ r.start) ∧
    (∀ base, IsLowestStart (AtFileStart regions root key) base → range.base ≤ base) ∧
    ∀ package exports mode,
      MappedLibrary.ofOffsets (.ofPath package key) range.base range.stop ((exports.get? key).getD []) ∈
        (Resolver.ofRanges package (libraryRanges regions root) exports mode).libraries := by
  have hbounds : range.Bounds (OfFile regions root key) := get?_eq_some_iff_bounds.1 h
  obtain ⟨⟨first, hfirst, hstart⟩, hlowest⟩ := hbounds.base
  refine ⟨⟨?_, ?_⟩, ?_, Resolver.mem_libraries_ofRanges h⟩
  · rintro ⟨⟨s, hs, hsbase⟩, _⟩ r hr
    exact ⟨s, hs, hsbase ▸ hlowest r hr⟩
  · intro hbefore
    -- The first region of all is at the start of the file, or has one there that is no later.
    obtain ⟨s, hs, hle⟩ := hbefore first hfirst
    have hsbase : s.start = range.base := Std.le_antisymm (hstart ▸ hle) (hlowest s hs.1)
    exact ⟨⟨s, hs, hsbase⟩, fun r hr => hlowest r hr.1⟩
  · rintro base ⟨⟨s, hs, rfl⟩, _⟩
    exact hlowest s hs.1

/-- The start of the first of the mixed files comes first in memory, though not in the listing. -/
theorem base_at_file_start_mixed :
    (libraryRanges mixed "/site").get? "pkg/a.so" = some ⟨0x1000, 0x4000⟩ ∧
      IsLowestStart (AtFileStart mixed "/site" "pkg/a.so") 0x1000 := by
  have hrange : (libraryRanges mixed "/site").get? "pkg/a.so" = some ⟨0x1000, 0x4000⟩ := by decide +kernel
  obtain ⟨hiff, _⟩ := base_at_file_start_iff mixed "/site" "pkg/a.so" _ hrange
  refine ⟨hrange, hiff.2 fun r hr => ?_⟩
  have hstart : AtFileStart mixed "/site" "pkg/a.so" ⟨0x1000, 0x2000, 0, some "/site/.//pkg/a.so"⟩ :=
    ⟨⟨by decide, by decide⟩, rfl⟩
  exact ⟨_, hstart, (get?_eq_some_iff_bounds.1 hrange).base.2 r hr⟩

/-- A file whose second page is mapped below its first. -/
def swapped : List Region :=
  [⟨0x1000, 0x2000, 0x1000, some "/site/a.so"⟩, ⟨0x5000, 0x6000, 0, some "/site/a.so"⟩]

/-- A resolver for the file, with one export in its first page. -/
def swappedResolver : Resolver :=
  .ofRanges ⟨"pkg", "1.0"⟩ (libraryRanges swapped "/site") (.ofList [("a.so", [⟨"f", 0x10⟩])]) .exact

/-- The start of the file is mapped at `0x5000`, but the base is `0x1000`, and the export is found there. -/
theorem base_below_file_start :
    (libraryRanges swapped "/site").get? "a.so" = some ⟨0x1000, 0x6000⟩ ∧
      IsLowestStart (AtFileStart swapped "/site" "a.so") 0x5000 ∧
      ¬ IsLowestStart (AtFileStart swapped "/site" "a.so") 0x1000 ∧
      swappedResolver.resolve 0x5010 = .noSymbol ⟨⟨"pkg", "1.0"⟩, "a.so"⟩ ∧
      swappedResolver.resolve 0x1010 = .resolved ⟨⟨"pkg", "1.0"⟩, "a.so"⟩ "f" := by
  -- The mapping of the start of the file is the higher one of the two.
  have hstart : ∀ r, AtFileStart swapped "/site" "a.so" r ↔ r = ⟨0x5000, 0x6000, 0, some "/site/a.so"⟩ := by
    intro r
    constructor
    · rintro ⟨⟨hr, _⟩, hoffset⟩
      rcases List.mem_cons.1 hr with rfl | hr
      · exact absurd hoffset (by decide)
      · exact List.mem_singleton.1 hr
    · rintro rfl
      exact ⟨⟨by decide, by decide⟩, rfl⟩
  have hlowest : IsLowestStart (AtFileStart swapped "/site" "a.so") 0x5000 := by
    refine ⟨⟨_, (hstart _).2 rfl, rfl⟩, fun r hr => ?_⟩
    rw [(hstart r).1 hr]
    exact Std.le_refl _
  refine ⟨by decide +kernel, hlowest, ?_, by decide +kernel, by decide +kernel⟩
  rintro ⟨⟨r, hr, hbase⟩, _⟩
  rw [(hstart r).1 hr] at hbase
  exact absurd hbase (by decide)

end MemoryMap
end Bridgework
