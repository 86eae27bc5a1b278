import Bridgework.Package
import Bridgework.Proofs.Text.Split

/-!
# Packages read from texts

A package is read from a text exactly if the text, up to blanks at its ends, is how the package is
displayed and the package can be told from what is displayed: its name ends at the first colon, neither
part is empty, and there is no blank at the ends that trimming would take away.

- `Package.IsLegible` : the packages that are read back
- `Package.parse?_eq_some_iff` : the texts from which a package is read
- `Package.parse?_display_exact` : what reading and displaying are to each other
-/

namespace Bridgework
namespace Package

variable {s : String} {p : Package}

/-! ## Cutting at the first colon -/

theorem toList_display (p : Package) : p.display.toList = p.name.toList ++ ':' :: p.version.toList := by
  simp [display]

/-- A text without a colon names no package. -/
theorem parse?_of_not_mem (h : ¬ ':' ∈ Text.trimChars s.toList) : parse? s = none := by
  have hspan : (Text.trimChars s.toList).span (· != ':') = (Text.trimChars s.toList, []) := by
    simpa using Text.span_ne_append h (t := []) (by simp)
  simp only [parse?, hspan]

/-- The first colon divides the name from the version. -/
theorem parse?_of_eq_append {name version : List Char} (hname : ¬ ':' ∈ name)
    (h : Text.trimChars s.toList = name ++ ':' :: version) :
    parse? s =
      if name.isEmpty || version.isEmpty then none
      else some ⟨String.ofList name, String.ofList version⟩ := by
  have hspan := Text.span_ne_append hname (t := ':' :: version) (by simp)
  simp only [parse?, h, hspan]

/-- A package whose parts are separated by the first colon of what is displayed. -/
structure IsSplit (p : Package) : Prop where
  name_ne : p.name ≠ ""
  no_colon : ¬ ':' ∈ p.name.toList
  version_ne : p.version ≠ ""

/-- A text is read as the package that is displayed as the text without blanks at its ends. -/
theorem parse?_eq_some_iff_isSplit : parse? s = some p ↔ p.IsSplit ∧ p.display = Text.trim s := by
  constructor
  · intro h
    by_cases hcolon : ':' ∈ Text.trimChars s.toList
    -- The first colon is the one with none before it.
    · obtain ⟨name, version, hs, hname⟩ := List.eq_append_cons_of_mem hcolon
      rw [parse?_of_eq_append hname hs] at h
      split at h
      · cases h
      · next hparts =>
        obtain rfl := Option.some.inj h
        simp only [Bool.or_eq_true, not_or, List.isEmpty_iff] at hparts
        refine ⟨⟨by simpa using hparts.1, by simpa using hname, by simpa using hparts.2⟩, ?_⟩
        rw [← String.toList_inj, toList_display, Text.trim, hs]
        simp
    · rw [parse?_of_not_mem hcolon] at h
      cases h
  · rintro ⟨hp, hdisplay⟩
    have hs : Text.trimChars s.toList = p.name.toList ++ ':' :: p.version.toList := by
      rw [← toList_display, hdisplay, Text.trim, String.toList_ofList]
    rw [parse?_of_eq_append hp.no_colon hs]
    simp [hp.name_ne, hp.version_ne]

/-! ## Blanks at the ends -/

/-- A package that is read back: its parts are separated by the first colon, and no blank stands at the ends
of what is displayed. -/
structure IsLegible (p : Package) : Prop extends IsSplit p where
  name_head : ∀ c ∈ p.name.toList.head?, Text.isBlank c = false
  version_last : ∀ c ∈ p.version.toList.getLast?, Text.isBlank c = false

theorem IsSplit.head?_display (h : p.IsSplit) : p.display.toList.head? = p.name.toList.head? := by
  rw [toList_display]
  cases hname : p.name.toList with
  | nil => exact absurd (String.toList_eq_nil_iff.1 hname) h.name_ne
  | cons c name => rfl

theorem IsSplit.getLast?_display (h : p.IsSplit) : p.display.toList.getLast? = p.version.toList.getLast? := by
  rw [toList_display]
  rcases List.eq_nil_or_concat p.version.toList with hversion | ⟨version, c, hversion⟩
  · exact absurd (String.toList_eq_nil_iff.1 hversion) h.version_ne
  · rw [hversion, List.concat_eq_append, ← List.cons_append, ← List.append_assoc, List.getLast?_concat,
      List.getLast?_concat]

/-- Blanks at the ends of the display are blanks at the ends of the parts. -/
theorem IsSplit.isLegible_iff (h : p.IsSplit) : p.IsLegible ↔ Text.IsTrimmed p.display.toList := by
  constructor
  · intro hp
    exact ⟨h.head?_display ▸ hp.name_head, h.getLast?_display ▸ hp.version_last⟩
  · intro ht
    exact ⟨h, h.head?_display ▸ ht.head, h.getLast?_display ▸ ht.last⟩

/-- A text is read exactly as the packages that can be read back. -/
theorem parse?_eq_some_iff : parse? s = some p ↔ p.IsLegible ∧ p.display = Text.trim s := by
  rw [parse?_eq_some_iff_isSplit]
  constructor
  · rintro ⟨hp, hdisplay⟩
    -- A text that was trimmed has no blanks at its ends, so neither has what is read from it.
    refine ⟨hp.isLegible_iff.2 ?_, hdisplay⟩
    rw [hdisplay, Text.trim, String.toList_ofList]
    exact Text.isTrimmed_trimChars s.toList
  · rintro ⟨hp, hdisplay⟩
    exact ⟨hp.toIsSplit, hdisplay⟩

theorem IsLegible.trim_display (h : p.IsLegible) : Text.trim p.display = p.display := by
  rw [Text.trim, (h.toIsSplit.isLegible_iff.1 h).trimChars_eq, String.ofList_toList]

/-- A package is read from a text exactly if it is legible and displayed as the text is, up to blanks at the
ends of the text; and what a package is displayed as is read as that package exactly if it is legible. -/
theorem parse?_display_exact :
    (∀ s p, parse? s = some p ↔ p.IsLegible ∧ p.display = Text.trim s) ∧
    ∀ p, parse? p.display = some p ↔ p.IsLegible := by
  refine ⟨fun s p => parse?_eq_some_iff, fun p => parse?_eq_some_iff.trans ?_⟩
  exact ⟨fun h => h.1, fun h => ⟨h, h.trim_display.symm⟩⟩

end Package
end Bridgework
