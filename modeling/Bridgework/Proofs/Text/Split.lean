import Bridgework.Text.Whitespace
import Mathlib.Data.List.TakeDrop

/-!
# Cutting, joining and trimming

Cutting a text at a character and joining the pieces with it undo each other. Blanks at the end of a text
go first or last without a difference.

- `Text.intercalate_splitOnChar` : the pieces of a text, joined
- `Text.splitOnChar_intercalate` : pieces without the character, joined and cut again
- `Text.intercalate_split`, `Text.split_intercalate` : the same for texts
- `Text.eq_of_intercalate_eq` : pieces that are joined to one text
- `Text.span_append` : a text is cut where a class of characters ends
- `Text.trimEnd_append`, `Text.trimChars_trimEnd` : trimming a part of a text, and trimming twice
- `Text.IsTrimmed`, `Text.isTrimmed_trimChars` : texts without blanks at their ends
- `Text.filterMap_lines_intercalate` : what is read from lines, whatever their ends
-/

namespace Bridgework
namespace Text

variable {sep : Char}

theorem splitOnChar_eq_splitOn (sep : Char) (s : List Char) : splitOnChar sep s = s.splitOn sep := by
  induction s with
  | nil => rfl
  | cons c s ih =>
    rw [splitOnChar, List.splitOn_cons_eq_if_modifyHead, ih]
    by_cases hc : c = sep
    · simp [hc]
    · cases hs : s.splitOn sep with
      | nil => exact absurd hs (List.splitOn_ne_nil sep s)
      | cons p ps => simp [hc]

/-- The parts of a text, joined again, are the text. -/
theorem intercalate_splitOnChar (sep : Char) (s : List Char) :
    List.intercalate [sep] (splitOnChar sep s) = s := by
  rw [splitOnChar_eq_splitOn]
  exact List.intercalate_splitOn sep

/-- Parts without the separator are split again where they were joined. -/
theorem splitOnChar_intercalate {ps : List (List Char)} (hps : ps ≠ []) (h : ∀ p ∈ ps, ¬ sep ∈ p) :
    splitOnChar sep (List.intercalate [sep] ps) = ps := by
  rw [splitOnChar_eq_splitOn]
  exact List.splitOn_intercalate sep h hps

/-- No part of a split holds the separator. -/
theorem not_mem_of_mem_splitOnChar {s p : List Char} (hp : p ∈ splitOnChar sep s) : ¬ sep ∈ p := by
  induction s generalizing p with
  | nil =>
    obtain rfl := List.mem_singleton.1 hp
    exact List.not_mem_nil
  | cons c s ih =>
    rw [splitOnChar] at hp
    by_cases hc : c = sep
    · rw [if_pos hc] at hp
      rcases List.mem_cons.1 hp with rfl | hp
      · exact List.not_mem_nil
      · exact ih hp
    · rw [if_neg hc] at hp
      cases hs : splitOnChar sep s with
      | nil => exact absurd hs (splitOnChar_ne_nil sep s)
      | cons q qs =>
        rw [hs] at hp ih
        -- Only the first piece grows, by a character that is not the separator.
        rcases List.mem_cons.1 hp with rfl | hp
        · simp only [List.mem_cons, not_or]
          exact ⟨fun h => hc h.symm, ih List.mem_cons_self⟩
        · exact ih (List.mem_cons_of_mem q hp)

/-- The parts of a string, joined again, are the string. -/
theorem intercalate_split {t : String} (ht : t.toList = [sep]) (s : String) :
    t.intercalate (split s sep) = s := by
  have hpieces : (split s sep).map String.toList = splitOnChar sep s.toList := by
    simp [split, Function.comp_def]
  rw [← String.toList_inj, String.toList_intercalate, ht, hpieces, intercalate_splitOnChar]

/-- Strings without the separator are split again where they were joined. -/
theorem split_intercalate {t : String} (ht : t.toList = [sep]) {ps : List String} (hps : ps ≠ [])
    (h : ∀ p ∈ ps, ¬ sep ∈ p.toList) : split (t.intercalate ps) sep = ps := by
  have hpieces : ∀ p ∈ ps.map String.toList, ¬ sep ∈ p := List.forall_mem_map.2 h
  rw [split, String.toList_intercalate, ht, splitOnChar_intercalate (by simpa using hps) hpieces]
  simp [Function.comp_def]

/-- A joined string holds no character that neither its parts nor what joins them have. -/
theorem not_mem_intercalate {t : String} {c : Char} (ht : ¬ c ∈ t.toList) {ps : List String}
    (h : ∀ p ∈ ps, ¬ c ∈ p.toList) : ¬ c ∈ (t.intercalate ps).toList := by
  induction ps with
  | nil => simp
  | cons p ps ih =>
    have hp : ¬ c ∈ p.toList := h p List.mem_cons_self
    cases ps with
    | nil => rwa [String.intercalate_singleton]
    | cons q ps =>
      have hrest := ih fun r hr => h r (List.mem_cons_of_mem p hr)
      rw [String.intercalate_cons_of_ne_nil (List.cons_ne_nil q ps), String.toList_append,
        String.toList_append, List.mem_append, List.mem_append, not_or, not_or]
      exact ⟨⟨hp, ht⟩, hrest⟩

theorem eq_nil_of_intercalate_eq_empty {t : String} {ps : List String} (hps : ¬ "" ∈ ps)
    (h : t.intercalate ps = "") : ps = [] := by
  cases ps with
  | nil => rfl
  | cons p ps =>
    refine absurd (List.mem_cons.2 (.inl ?_)) hps
    cases ps with
    | nil => rw [← h, String.intercalate_singleton]
    | cons q ps =>
      rw [String.intercalate_cons_of_ne_nil (List.cons_ne_nil q ps), ← String.toList_inj] at h
      simp only [String.toList_append, String.toList_empty, List.append_eq_nil_iff] at h
      exact (String.toList_eq_nil_iff.1 h.1.1).symm

/-- Pieces that are not empty are known from what they are joined to. -/
theorem eq_of_intercalate_eq {t : String} (ht : t.toList = [sep]) {ps qs : List String}
    (hps : ∀ p ∈ ps, ¬ sep ∈ p.toList) (hqs : ∀ q ∈ qs, ¬ sep ∈ q.toList) (hps' : ¬ "" ∈ ps) (hqs' : ¬ "" ∈ qs)
    (h : t.intercalate ps = t.intercalate qs) : ps = qs := by
  by_cases hp : ps = []
  · rw [hp, String.intercalate_nil] at h
    rw [hp, eq_nil_of_intercalate_eq_empty hqs' h.symm]
  · by_cases hq : qs = []
    · rw [hq, String.intercalate_nil] at h
      exact absurd (eq_nil_of_intercalate_eq_empty hps' h) hp
    · rw [← split_intercalate ht hp hps, h, split_intercalate ht hq hqs]

theorem not_mem_of_mem_split {s p : String} (hp : p ∈ split s sep) : ¬ sep ∈ p.toList := by
  obtain ⟨q, hq, rfl⟩ := List.mem_map.1 hp
  rw [String.toList_ofList]
  exact not_mem_of_mem_splitOnChar hq

theorem split_ne_nil (s : String) : split s sep ≠ [] := by
  simpa [split] using splitOnChar_ne_nil sep s.toList

theorem intercalate_concat_append (sep c tail : String) (dirs : List String) :
    sep.intercalate (dirs ++ [c ++ tail]) = sep.intercalate (dirs ++ [c]) ++ tail := by
  cases dirs with
  | nil => simp only [List.nil_append, String.intercalate_singleton]
  | cons d dirs =>
    rw [String.intercalate_append_of_ne_nil (List.cons_ne_nil d dirs) (List.cons_ne_nil _ []),
      String.intercalate_append_of_ne_nil (List.cons_ne_nil d dirs) (List.cons_ne_nil _ []),
      String.intercalate_singleton, String.intercalate_singleton]
    simp only [String.append_assoc]

/-! ## Where a class of characters ends -/

theorem span_append {p : Char → Bool} {s t : List Char} (hs : ∀ c ∈ s, p c = true)
    (ht : ∀ c ∈ t.head?, p c = false) : (s ++ t).span p = (s, t) := by
  have hnone : t.takeWhile p = [] ∧ t.dropWhile p = t := by
    cases t with
    | nil => exact ⟨rfl, rfl⟩
    | cons c t => simp [ht c rfl]
  rw [List.span_eq_takeWhile_dropWhile, List.takeWhile_append_of_pos hs, List.dropWhile_append_of_pos hs,
    hnone.1, hnone.2, List.append_nil]

theorem span_ne_append {s t : List Char} (hs : ¬ sep ∈ s) (ht : ∀ c ∈ t.head?, c = sep) :
    (s ++ t).span (· != sep) = (s, t) := by
  refine span_append (fun c hc => bne_iff_ne.2 ?_) fun c hc => by simp [ht c hc]
  rintro rfl
  exact hs hc

/-! ## Trimming -/

/-- A text that ends in no blank stays in front of what is cut. -/
theorem trimEnd_append {s : List Char} (hs : trimEnd s = s) (t : List Char) :
    trimEnd (s ++ t) = s ++ trimEnd t := by
  have hreverse : s.reverse.dropWhile isBlank = s.reverse := by
    simpa [trimEnd] using congrArg List.reverse hs
  unfold trimEnd
  rw [List.reverse_append, List.dropWhile_append]
  by_cases ht : t.reverse.dropWhile isBlank = []
  · simp [ht, hreverse]
  · simp [ht]

theorem trimEnd_append_of_ne_nil {t : List Char} (ht : trimEnd t ≠ []) (s : List Char) :
    trimEnd (s ++ t) = s ++ trimEnd t := by
  have hreverse : t.reverse.dropWhile isBlank ≠ [] := by simpa [trimEnd] using ht
  unfold trimEnd
  rw [List.reverse_append, List.dropWhile_append]
  simp [hreverse]

theorem trimEnd_eq_self {s : List Char} (h : ∀ c ∈ s, isBlank c = false) : trimEnd s = s := by
  have hreverse : s.reverse.dropWhile isBlank = s.reverse := by
    cases hs : s.reverse with
    | nil => rfl
    | cons c t =>
      have hc : c ∈ s := List.mem_reverse.1 (hs ▸ List.mem_cons_self)
      simp [h c hc]
  rw [trimEnd, hreverse, List.reverse_reverse]

theorem trimEnd_append_blanks (s : List Char) {t : List Char} (ht : ∀ c ∈ t, isBlank c = true) :
    trimEnd (s ++ t) = trimEnd s := by
  have hreverse : ∀ c ∈ t.reverse, isBlank c = true := fun c hc => ht c (List.mem_reverse.1 hc)
  unfold trimEnd
  rw [List.reverse_append, List.dropWhile_append_of_pos hreverse]

/-- What is cut at the end are blanks. -/
theorem exists_eq_trimEnd_append (s : List Char) :
    ∃ t, (∀ c ∈ t, isBlank c = true) ∧ s = trimEnd s ++ t := by
  refine ⟨(s.reverse.takeWhile isBlank).reverse, fun c hc => ?_, ?_⟩
  · exact List.all_eq_true.1 List.all_takeWhile c (List.mem_reverse.1 hc)
  · unfold trimEnd
    rw [← List.reverse_append, List.takeWhile_append_dropWhile, List.reverse_reverse]

/-- Blanks at the end make no difference for the trimmed text. -/
theorem trimChars_append_blanks (s : List Char) {t : List Char} (ht : ∀ c ∈ t, isBlank c = true) :
    trimChars (s ++ t) = trimChars s := by
  unfold trimChars trimStart
  rw [List.dropWhile_append]
  by_cases hs : s.dropWhile isBlank = []
  · have ht' : t.dropWhile isBlank = [] := by
      have happend : (t ++ []).dropWhile isBlank = [].dropWhile isBlank := List.dropWhile_append_of_pos ht
      simpa using happend
    simp [hs, ht']
  · simp [hs, trimEnd_append_blanks _ ht]

/-- Blanks at the beginning make no difference for the trimmed text. -/
theorem trimChars_blanks_append {s : List Char} (hs : ∀ c ∈ s, isBlank c = true) (t : List Char) :
    trimChars (s ++ t) = trimChars t := by
  unfold trimChars trimStart
  rw [List.dropWhile_append_of_pos hs]

theorem trimChars_trimEnd (s : List Char) : trimChars (trimEnd s) = trimChars s := by
  obtain ⟨t, ht, hs⟩ := exists_eq_trimEnd_append s
  calc
    trimChars (trimEnd s) = trimChars (trimEnd s ++ t) := (trimChars_append_blanks _ ht).symm
    _ = trimChars s := by rw [← hs]

/-- Neither begins nor ends with a blank. -/
structure IsTrimmed (s : List Char) : Prop where
  head : ∀ c ∈ s.head?, isBlank c = false
  last : ∀ c ∈ s.getLast?, isBlank c = false

theorem head?_trimStart {s : List Char} {c : Char} (hc : c ∈ (trimStart s).head?) : isBlank c = false := by
  have hhead := List.head?_dropWhile_not isBlank s
  rw [← trimStart, Option.mem_def.1 hc] at hhead
  simpa using hhead

theorem trimStart_eq_self {s : List Char} (h : ∀ c ∈ s.head?, isBlank c = false) : trimStart s = s := by
  cases s with
  | nil => rfl
  | cons c s => exact List.dropWhile_cons_of_neg (by simp [h c rfl])

theorem trimEnd_eq_reverse (s : List Char) : trimEnd s = (trimStart s.reverse).reverse := rfl

/-- A trimmed text stays as it is. -/
theorem IsTrimmed.trimChars_eq {s : List Char} (h : IsTrimmed s) : trimChars s = s := by
  have hend : trimStart s.reverse = s.reverse :=
    trimStart_eq_self fun c hc => h.last c (by rwa [List.head?_reverse] at hc)
  rw [trimChars, trimStart_eq_self h.head, trimEnd_eq_reverse, hend, List.reverse_reverse]

theorem isTrimmed_toDigits (n : Nat) : IsTrimmed (Nat.toDigits 10 n) := by
  have hblank : ∀ c ∈ Nat.toDigits 10 n, isBlank c = false := by
    intro c hc
    have hdigit : 48 ≤ c.toNat ∧ c.toNat ≤ 57 :=
      Char.isDigit_iff_toNat.1 (Nat.isDigit_of_mem_toDigits (by decide) (by decide) hc)
    simp only [isBlank, Bool.or_eq_false_iff, Bool.and_eq_false_iff, decide_eq_false_iff_not,
      beq_eq_false_iff_ne]
    omega
  exact ⟨fun c hc => hblank c (List.mem_of_head? hc), fun c hc => hblank c (List.mem_of_getLast? hc)⟩

/-- Trimming leaves a trimmed text. -/
theorem isTrimmed_trimChars (s : List Char) : IsTrimmed (trimChars s) where
  head c hc := by
    obtain ⟨t, _, hs⟩ := exists_eq_trimEnd_append (trimStart s)
    -- What is left begins as it did before its end was trimmed.
    have hfirst : (trimEnd (trimStart s)).head? = some c := hc
    refine head?_trimStart (s := s) ?_
    rw [hs, List.head?_append, hfirst]
    rfl
  last c hc := by
    rw [trimChars, trimEnd_eq_reverse, List.getLast?_reverse] at hc
    exact head?_trimStart hc

/-! ## Lines -/

/-- A carriage return at the end of a line is cut with the other blanks. -/
theorem trimEnd_dropCarriageReturn (l : List Char) : trimEnd (dropCarriageReturn l) = trimEnd l := by
  unfold dropCarriageReturn
  by_cases hl : l.getLast? = some '\r'
  · obtain ⟨front, rfl⟩ := List.getLast?_eq_some_iff.1 hl
    have hreturn : ∀ c ∈ ['\r'], isBlank c = true := by
      intro c hc
      rw [List.mem_singleton.1 hc]
      decide
    simp [trimEnd_append_blanks front hreturn]
  · rw [if_neg hl]

/-- A reader that gets nothing from an empty line and does not see a carriage return at the end gets from a
text what it gets from its lines. -/
theorem filterMap_lines_intercalate {α : Type} {f : List Char → Option α} {ls : List (List Char)}
    (hls : ∀ l ∈ ls, ¬ '\n' ∈ l) (hnil : f [] = none) (hreturn : ∀ l, f (dropCarriageReturn l) = f l) :
    (lines (List.intercalate ['\n'] ls)).filterMap f = ls.filterMap f := by
  rcases List.eq_nil_or_concat ls with rfl | ⟨front, last, rfl⟩
  · rfl
  · have hsplit := splitOnChar_intercalate (by simp) hls
    have hended : (front.map dropCarriageReturn).filterMap f = front.filterMap f := by
      rw [List.filterMap_map, show f ∘ dropCarriageReturn = f from funext hreturn]
    unfold lines
    rw [hsplit]
    -- An empty last line is left out, and nothing would be read from it.
    cases last with
    | nil => simp [hended, hnil]
    | cons c last => simp [hended]

end Text
end Bridgework
