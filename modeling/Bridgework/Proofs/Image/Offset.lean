import Bridgework.Proofs.Image.Resolver

/-!
# Exports at offsets

The address of an export is the start of its library plus an offset, and a sum beyond the last word is
cut to the last word. Several exports can end up there. No library contains the last word, since its
range is half open, so whatever a library is asked about is answered as if sums had no bound.

- `MappedLibrary.offsetAddress_eq_iff`, `MappedLibrary.offsetAddress_le_iff` : below the last word a cut
  sum is compared as the sum itself
- `TrueSymbol` : the symbol of an address, by sums of natural numbers
- `Resolver.resolve_by_true_sums` : the answers of every resolver that asks the library
-/

namespace Bridgework

/-! ## Sums -/

namespace MappedLibrary

variable {start offset a : UInt64}

/-- The sum of start and offset, cut at the last word. -/
theorem toNat_offsetAddress (start offset : UInt64) :
    (offsetAddress start offset).toNat = min (start.toNat + offset.toNat) (UInt64.size - 1) := by
  have hlt : min (start.toNat + offset.toNat) (UInt64.size - 1) < UInt64.size := by
    have hsize : 0 < UInt64.size := by decide
    omega
  exact UInt64.toNat_ofNat_of_lt hlt

/-- Below the last word an address tells the true sum. -/
theorem offsetAddress_eq_iff (ha : a.toNat < UInt64.size - 1) :
    offsetAddress start offset = a ↔ start.toNat + offset.toNat = a.toNat := by
  have hsum := toNat_offsetAddress start offset
  rw [← UInt64.toNat_inj]
  omega

/-- Below the last word addresses compare like the true sums. -/
theorem offsetAddress_le_iff (ha : a.toNat < UInt64.size - 1) :
    offsetAddress start offset ≤ a ↔ start.toNat + offset.toNat ≤ a.toNat := by
  have hsum := toNat_offsetAddress start offset
  rw [UInt64.le_iff_toNat_le]
  omega

/-- A stop is a word, and what lies before it is not the last one. -/
theorem toNat_lt_of_contains {l : MappedLibrary} (h : l.contains a = true) : a.toNat < UInt64.size - 1 := by
  have hstop : l.stop.toNat < UInt64.size := l.stop.toNat_lt_size
  have hlt : a < l.stop := by
    simpa using (Bool.and_eq_true_iff.1 h).2
  have hnat : a.toNat < l.stop.toNat := UInt64.lt_iff_toNat_lt.1 hlt
  omega

end MappedLibrary

/-! ## True addresses -/

/-- An export has the name, and its true address is the number. -/
def NamedAt (start : UInt64) (exports : List Export) (n : Nat) (name : String) : Prop :=
  ∃ e ∈ exports, e.name = name ∧ start.toNat + e.offset.toNat = n

/-- The greatest true address of an export that is not above a number. -/
def IsNearestBelow (start : UInt64) (exports : List Export) (a n : Nat) : Prop :=
  ((∃ name, NamedAt start exports n name) ∧ n ≤ a) ∧
    ∀ name m, NamedAt start exports m name → m ≤ a → m ≤ n

/-- The symbol of a number: the least name at this true address, or at the nearest one below. -/
def TrueSymbol (start : UInt64) (exports : List Export) (a : Nat) : MatchMode → String → Prop
  | .exact, symbol => Least (NamedAt start exports a) symbol
  | .nearest, symbol => ∃ n, IsNearestBelow start exports a n ∧ Least (NamedAt start exports n) symbol

/-- Whether a mode can match an export at the true address `n` to `a`. -/
def MatchMode.Admits (n a : Nat) : MatchMode → Prop
  | .exact => n = a
  | .nearest => n ≤ a

namespace Listing

/-- A library that is listed with offsets. -/
abbrev ofOffsets (library : Library) (start stop : UInt64) (exports : List Export) : Listing :=
  ⟨library, start, stop, .offsets exports⟩

variable {library : Library} {start stop a b : UInt64} {exports : List Export} {name symbol : String}

/-- Below the last word an export is listed for its true address. -/
theorem exports_ofOffsets_iff (hb : b.toNat < UInt64.size - 1) :
    (ofOffsets library start stop exports).Exports name b ↔ NamedAt start exports b.toNat name := by
  simp only [Exports, addressed, NamedAt, List.mem_map, Prod.mk.injEq]
  refine exists_congr fun e => and_congr_right fun _ => and_congr_right fun _ => ?_
  exact MappedLibrary.offsetAddress_eq_iff hb

/-- Below the last word the nearest export is the one with the nearest true address. -/
theorem isNearest_ofOffsets_iff (ha : a.toNat < UInt64.size - 1) :
    (ofOffsets library start stop exports).IsNearest a b ↔ IsNearestBelow start exports a.toNat b.toNat := by
  -- Up to `a` no sum is cut, so the true addresses there are the listed ones.
  have hexports : ∀ {c : UInt64}, c ≤ a → ∀ name,
      ((ofOffsets library start stop exports).Exports name c ↔ NamedAt start exports c.toNat name) := by
    intro c hc name
    have hle : c.toNat ≤ a.toNat := UInt64.le_iff_toNat_le.1 hc
    exact exports_ofOffsets_iff (by omega)
  constructor
  · rintro ⟨⟨⟨name, hname⟩, hb⟩, hgreatest⟩
    refine ⟨⟨⟨name, (hexports hb name).1 hname⟩, UInt64.le_iff_toNat_le.1 hb⟩, ?_⟩
    intro name m hm hma
    have hword : (UInt64.ofNat m).toNat = m := UInt64.toNat_ofNat_of_lt (by omega)
    have hle : UInt64.ofNat m ≤ a := UInt64.le_iff_toNat_le.2 (by omega)
    have hlisted := (hexports hle name).2 (by rwa [hword])
    have hmb := UInt64.le_iff_toNat_le.1 (hgreatest name _ hlisted hle)
    omega
  · rintro ⟨⟨⟨name, hname⟩, hb⟩, hgreatest⟩
    have hba : b ≤ a := UInt64.le_iff_toNat_le.2 hb
    refine ⟨⟨⟨name, (hexports hba name).2 hname⟩, hba⟩, ?_⟩
    intro name c hc hca
    exact UInt64.le_iff_toNat_le.2
      (hgreatest name c.toNat ((hexports hca name).1 hc) (UInt64.le_iff_toNat_le.1 hca))

/-- Below the last word the symbol is that of the true addresses. -/
theorem names_ofOffsets_iff (ha : a.toNat < UInt64.size - 1) {mode : MatchMode} :
    (ofOffsets library start stop exports).Names a mode symbol ↔
      TrueSymbol start exports a.toNat mode symbol := by
  cases mode with
  | exact =>
    unfold Names TrueSymbol
    exact least_congr fun name => exports_ofOffsets_iff ha
  -- The last word is out of reach, so that addresses are compared as numbers.
  | nearest =>
    constructor
    · rintro ⟨b, hb, hleast⟩
      have hnear := (isNearest_ofOffsets_iff ha).1 hb
      have hlt : b.toNat < UInt64.size - 1 := by
        have := hnear.1.2
        omega
      exact ⟨b.toNat, hnear, (least_congr fun name => exports_ofOffsets_iff hlt).1 hleast⟩
    · rintro ⟨n, hn, hleast⟩
      have hna : n ≤ a.toNat := hn.1.2
      have hword : (UInt64.ofNat n).toNat = n := UInt64.toNat_ofNat_of_lt (by omega)
      rw [← hword] at hn hleast
      have hlt : (UInt64.ofNat n).toNat < UInt64.size - 1 := by omega
      exact ⟨UInt64.ofNat n, (isNearest_ofOffsets_iff ha).2 hn,
        (least_congr fun name => exports_ofOffsets_iff hlt).2 hleast⟩

/-- Below the last word an export matches by its true address. -/
theorem matches_ofOffsets_iff (ha : a.toNat < UInt64.size - 1) {mode : MatchMode} :
    (ofOffsets library start stop exports).Matches a mode ↔
      ∃ e ∈ exports, mode.Admits (start.toNat + e.offset.toNat) a.toNat := by
  cases mode with
  | exact =>
    constructor
    · rintro ⟨name, hname⟩
      obtain ⟨e, he, _, hsum⟩ := (exports_ofOffsets_iff ha).1 hname
      exact ⟨e, he, hsum⟩
    · rintro ⟨e, he, hsum⟩
      exact ⟨e.name, (exports_ofOffsets_iff ha).2 ⟨e, he, rfl, hsum⟩⟩
  -- A nearest match needs some export at or below the address.
  | nearest =>
    constructor
    · rintro ⟨name, b, hb, hba⟩
      have hle : b.toNat ≤ a.toNat := UInt64.le_iff_toNat_le.1 hba
      obtain ⟨e, he, _, hsum⟩ := (exports_ofOffsets_iff (by omega)).1 hb
      exact ⟨e, he, by unfold MatchMode.Admits; omega⟩
    · rintro ⟨e, he, hsum⟩
      refine ⟨e.name, MappedLibrary.offsetAddress start e.offset, ?_,
        (MappedLibrary.offsetAddress_le_iff ha).2 hsum⟩
      exact List.mem_map.2 ⟨e, he, rfl⟩

end Listing

namespace Resolver

open MappedLibrary (ofOffsets)

variable {r : Resolver} {l : MappedLibrary} {a : UInt64}

theorem resolve_eq_resolved_iff (h : r.libraries.find? (·.contains a) = some l) {symbol : String} :
    r.resolve a = .resolved l.library symbol ↔ l.symbolAt? a r.mode = some symbol := by
  unfold resolve
  simp only [h]
  cases l.symbolAt? a r.mode with
  | none => simp
  | some s => simp

theorem resolve_eq_noSymbol_iff (h : r.libraries.find? (·.contains a) = some l) :
    r.resolve a = .noSymbol l.library ↔ l.symbolAt? a r.mode = none := by
  unfold resolve
  simp only [h]
  cases l.symbolAt? a r.mode with
  | none => simp
  | some s => simp

/-- The library that contains an address answers for it, alone or among others, by its true addresses: with
the least name at the true address that the mode picks, and with no symbol only if no true address fits. -/
theorem resolve_by_true_sums (library : Library) (start stop : UInt64) (exports : List Export) (a : UInt64)
    (h : start ≤ a ∧ a < stop) :
    (∀ mode, (Resolver.of [ofOffsets library start stop exports] mode).libraries.find? (·.contains a) =
      some (ofOffsets library start stop exports)) ∧
    ∀ r : Resolver, r.libraries.find? (·.contains a) = some (ofOffsets library start stop exports) →
      (∀ symbol, r.resolve a = .resolved library symbol ↔ TrueSymbol start exports a.toNat r.mode symbol) ∧
      ((∃ symbol, r.resolve a = .resolved library symbol) ↔
        ∃ e ∈ exports, r.mode.Admits (start.toNat + e.offset.toNat) a.toNat) ∧
      (r.resolve a = .noSymbol library ↔
        ¬ ∃ e ∈ exports, r.mode.Admits (start.toNat + e.offset.toNat) a.toNat) := by
  let listing := Listing.ofOffsets library start stop exports
  have hmapped : listing.mapped = ofOffsets library start stop exports := rfl
  have hcontains : listing.mapped.contains a = true := Listing.contains_mapped.2 h
  -- The stop is a word too, so the address is not the last word, where cut sums are collected.
  have ha : a.toNat < UInt64.size - 1 := MappedLibrary.toNat_lt_of_contains hcontains
  rw [← hmapped]
  constructor
  · intro mode
    simp [Resolver.of, hcontains]
  · intro r hr
    have hsymbol : ∀ symbol, listing.mapped.symbolAt? a r.mode = some symbol ↔
        TrueSymbol start exports a.toNat r.mode symbol := fun symbol =>
      Listing.symbolAt?_eq_some_iff.trans (Listing.names_ofOffsets_iff ha)
    have hnone : listing.mapped.symbolAt? a r.mode = none ↔
        ¬ ∃ e ∈ exports, r.mode.Admits (start.toNat + e.offset.toNat) a.toNat :=
      Listing.symbolAt?_eq_none_iff.trans (not_congr (Listing.matches_ofOffsets_iff ha))
    have hresolved : ∀ symbol, r.resolve a = .resolved library symbol ↔
        listing.mapped.symbolAt? a r.mode = some symbol := fun symbol => resolve_eq_resolved_iff hr
    refine ⟨fun symbol => (hresolved symbol).trans (hsymbol symbol), ?_, (resolve_eq_noSymbol_iff hr).trans hnone⟩
    calc
      (∃ symbol, r.resolve a = .resolved library symbol)
          ↔ ∃ symbol, listing.mapped.symbolAt? a r.mode = some symbol := exists_congr hresolved
      _ ↔ listing.mapped.symbolAt? a r.mode ≠ none := Option.ne_none_iff_exists'.symm
      _ ↔ ∃ e ∈ exports, r.mode.Admits (start.toNat + e.offset.toNat) a.toNat := by
          rw [ne_eq, hnone, Classical.not_not]

/-- Of these exports the first lies inside the last sixteen words, and the sums of the others are cut there. -/
def topmostExports : List Export := [⟨"inside", 4⟩, ⟨"far", 0x8000000000000000⟩, ⟨"near", 100⟩]

def topmostLibrary : Library := ⟨⟨"pkg", "1.0"⟩, "a.so"⟩

def topmost : Resolver :=
  .of [ofOffsets topmostLibrary 0xfffffffffffffff0 0xffffffffffffffff topmostExports] .nearest

/-- The word before the last one is nearest to the export inside, although two cut sums lie beside it. -/
theorem resolve_by_true_sums_topmost :
    ((0xfffffffffffffff0 : UInt64) ≤ 0xfffffffffffffffe ∧ (0xfffffffffffffffe : UInt64) < 0xffffffffffffffff) ∧
      topmost.resolve 0xfffffffffffffffe = .resolved topmostLibrary "inside" ∧
      TrueSymbol 0xfffffffffffffff0 topmostExports 0xfffffffffffffffe .nearest "inside" := by
  have hinside : (0xfffffffffffffff0 : UInt64) ≤ 0xfffffffffffffffe ∧
      (0xfffffffffffffffe : UInt64) < 0xffffffffffffffff := by decide
  have hresolved : topmost.resolve 0xfffffffffffffffe = .resolved topmostLibrary "inside" := by
    decide +kernel
  obtain ⟨halone, hasked⟩ := resolve_by_true_sums topmostLibrary _ _ topmostExports _ hinside
  exact ⟨hinside, hresolved, ((hasked topmost (halone .nearest)).1 "inside").1 hresolved⟩

end Resolver
end Bridgework
