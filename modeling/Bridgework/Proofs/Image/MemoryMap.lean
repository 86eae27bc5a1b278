import Bridgework.Image.MemoryMap
import Bridgework.Proofs.Text.Digit
import Bridgework.Proofs.Text.Split
import Mathlib.Data.List.TakeDrop

/-!
# Lines of a memory map

A line has the form `start-end permissions offset device inode path`. The form is said here as a way to cut
a line, with no word on how the cuts are found. The fields up to the inode are the same in every cut, and
only the inode can be cut short, since a path may stand behind it without a blank.

- `MemoryMap.Cut` : a line cut into its fields
- `MemoryMap.Cut.greedy` : the cut with the longest inode, which gives the region
- `MemoryMap.Cut.region?_eq` : the region of a line that can be cut
- `MemoryMap.exists_cut_of_region?` : a line with a region can be cut
- `MemoryMap.Written` : the fields with which a region is written
- `MemoryMap.Line` : a line with a region, with a number that is too great, or of another form
- `MemoryMap.parse_lines` : a listing is read as the regions that are written in it
-/

namespace Bridgework
namespace MemoryMap

/-! ## Runs of characters -/

/-- At least one character, and all of a class. -/
structure Run (p : Char → Bool) (s : List Char) : Prop where
  ne_nil : s ≠ []
  all : ∀ c ∈ s, p c = true

theorem run_iff {p : Char → Bool} {s : List Char} : Run p s ↔ s ≠ [] ∧ s.all p = true := by
  rw [List.all_eq_true]
  exact ⟨fun h => ⟨h.ne_nil, h.all⟩, fun h => ⟨h.1, h.2⟩⟩

instance decidableRun (p : Char → Bool) (s : List Char) : Decidable (Run p s) := decidable_of_iff _ run_iff.symm

/-- The text does not go on with a character of a class. -/
def Stops (p : Char → Bool) (s : List Char) : Prop := ∀ c ∈ s.head?, p c = false

section

variable {p q : Char → Bool} {s t : List Char}

theorem Run.stops_append (h : Run p s) (hpq : ∀ c, p c = true → q c = false) (t : List Char) :
    Stops q (s ++ t) := by
  cases s with
  | nil => exact absurd rfl h.ne_nil
  | cons c s =>
    intro d hd
    obtain rfl : c = d := by simpa using hd
    exact hpq c (h.all c List.mem_cons_self)

theorem Stops.of_append (h : Stops p (s ++ t)) : Stops p s := by
  cases s with
  | nil => exact fun c hc => absurd hc (by simp)
  | cons c s => exact h

/-- A run that stops is taken as a whole. -/
theorem many1?_append (hs : Run p s) (ht : Stops p t) : many1? p (s ++ t) = some (s, t) := by
  unfold many1?
  rw [Text.span_append hs.all ht]
  cases s with
  | nil => exact absurd rfl hs.ne_nil
  | cons c s => rfl

/-- What is taken is a run. -/
theorem run_of_many1? {r : List Char × List Char} (h : many1? p s = some r) : Run p r.1 ∧ s = r.1 ++ r.2 := by
  unfold many1? at h
  rw [List.span_eq_takeWhile_dropWhile] at h
  cases htake : s.takeWhile p with
  | nil => simp [htake] at h
  | cons c front =>
    rw [htake] at h
    obtain rfl := Option.some.inj h
    refine ⟨⟨List.cons_ne_nil c front, ?_⟩, ?_⟩
    · intro d hd
      rw [← htake] at hd
      exact List.all_eq_true.1 List.all_takeWhile d hd
    · rw [← htake, List.takeWhile_append_dropWhile]

end

/-! ## Classes of characters -/

/-- The code points of the blanks. -/
def blankPoints : List Nat :=
  [9, 10, 11, 12, 13, 0x20, 0x85, 0xa0, 0x1680, 0x2000, 0x2001, 0x2002, 0x2003, 0x2004, 0x2005, 0x2006, 0x2007,
    0x2008, 0x2009, 0x200a, 0x2028, 0x2029, 0x202f, 0x205f, 0x3000]

/-- There are few code points of blanks. -/
theorem toNat_mem_blankPoints {c : Char} (h : Text.isBlank c = true) : c.toNat ∈ blankPoints := by
  simp only [Text.isBlank, Bool.or_eq_true, Bool.and_eq_true, decide_eq_true_eq, beq_iff_eq] at h
  simp only [blankPoints, List.mem_cons, List.not_mem_nil, or_false]
  omega

/-- A blank is a digit of neither kind. -/
theorem not_digit_of_isBlank {c : Char} (h : Text.isBlank c = true) :
    isHex c = false ∧ Text.isDecimal c = false := by
  have hpoints : blankPoints.all (fun n => !isHex (Char.ofNat n) && !Text.isDecimal (Char.ofNat n)) = true := by
    decide +kernel
  have hc := List.all_eq_true.1 hpoints c.toNat (toNat_mem_blankPoints h)
  simpa using hc

theorem not_isBlank_of_isHex {c : Char} (h : isHex c = true) : Text.isBlank c = false := by
  cases hblank : Text.isBlank c with
  | false => rfl
  | true => exact absurd h (by simp [(not_digit_of_isBlank hblank).1])

theorem not_isBlank_of_isDecimal {c : Char} (h : Text.isDecimal c = true) : Text.isBlank c = false := by
  cases hblank : Text.isBlank c with
  | false => rfl
  | true => exact absurd h (by simp [(not_digit_of_isBlank hblank).2])

/-! ## Cuts -/

/-- The fields of a region, as they stand on a line with gaps between them. -/
structure Cut where
  (start stop permissions offset device inode rest : List Char)
  (gap₁ gap₂ gap₃ gap₄ gap₅ : List Char)
  start_run : Run isHex start
  stop_run : Run isHex stop
  gap₁_run : Run Text.isBlank gap₁
  permissions_run : Run (fun c => !Text.isBlank c) permissions
  gap₂_run : Run Text.isBlank gap₂
  offset_run : Run isHex offset
  gap₃_run : Run Text.isBlank gap₃
  device_run : Run (fun c => !Text.isBlank c) device
  gap₄_run : Run Text.isBlank gap₄
  inode_run : Run Text.isDecimal inode
  gap₅_blank : ∀ c ∈ gap₅, Text.isBlank c = true

/-- The path that stands in the rest of a line. -/
def pathIn (rest : List Char) : Option String :=
  if (Text.trimChars rest).isEmpty then none else some (String.ofList (Text.trimChars rest))

theorem blanks?_append {s t : List Char} (hs : Run Text.isBlank s) (ht : Stops Text.isBlank t) :
    blanks? (s ++ t) = some t := by
  simp [blanks?, many1?_append hs ht]

theorem field?_append {s t u : List Char} (hs : Run (fun c => !Text.isBlank c) s) (ht : Run Text.isBlank t)
    (hu : Stops Text.isBlank u) : field? (s ++ (t ++ u)) = some u := by
  have hstops : Stops (fun c => !Text.isBlank c) (t ++ u) := ht.stops_append (fun c hc => by simp [hc]) u
  simp [field?, many1?_append hs hstops, blanks?_append ht hu]

namespace Cut

/-- The fields up to the inode, and what follows it. -/
def lineWith (c : Cut) (tail : List Char) : List Char :=
  c.start ++ '-' :: (c.stop ++ (c.gap₁ ++ (c.permissions ++ (c.gap₂ ++ (c.offset ++ (c.gap₃ ++ (c.device ++
    (c.gap₄ ++ (c.inode ++ tail)))))))))

def line (c : Cut) : List Char := c.lineWith (c.gap₅ ++ c.rest)

def region? (c : Cut) : Option Region := do
  return ⟨← word? c.start, ← word? c.stop, ← word? c.offset, pathIn c.rest⟩

/-- The inode has no blanks, so nothing in front of it is trimmed. -/
theorem trimEnd_lineWith (c : Cut) (tail : List Char) :
    Text.trimEnd (c.lineWith tail) = c.lineWith (Text.trimEnd tail) := by
  let front := c.start ++ '-' :: (c.stop ++ (c.gap₁ ++ (c.permissions ++ (c.gap₂ ++ (c.offset ++ (c.gap₃ ++
    (c.device ++ c.gap₄)))))))
  have hline : ∀ t, c.lineWith t = front ++ (c.inode ++ t) := fun t => by simp [lineWith, front]
  have hinode : Text.trimEnd c.inode = c.inode :=
    Text.trimEnd_eq_self fun d hd => not_isBlank_of_isDecimal (c.inode_run.all d hd)
  have htail := Text.trimEnd_append hinode tail
  have hne : Text.trimEnd (c.inode ++ tail) ≠ [] := by
    simp [htail, c.inode_run.ne_nil]
  calc
    Text.trimEnd (c.lineWith tail) = front ++ Text.trimEnd (c.inode ++ tail) := by
      rw [hline, Text.trimEnd_append_of_ne_nil hne front]
    _ = c.lineWith (Text.trimEnd tail) := by rw [htail, hline]

/-- Where the inode is not cut short, the line is read as it is cut. -/
theorem region?_line (c : Cut) (h : Stops Text.isDecimal (c.gap₅ ++ c.rest)) :
    MemoryMap.region? c.line = c.region? := by
  have hrest : Stops Text.isDecimal (Text.trimEnd (c.gap₅ ++ c.rest)) := by
    obtain ⟨blanks, _, htrim⟩ := Text.exists_eq_trimEnd_append (c.gap₅ ++ c.rest)
    rw [htrim] at h
    exact h.of_append
  have hpath : Text.trimChars (Text.trimEnd (c.gap₅ ++ c.rest)) = Text.trimChars c.rest := by
    rw [Text.trimChars_trimEnd, Text.trimChars_blanks_append c.gap₅_blank]
  -- Each field ends where the next one begins, since their classes have no character in common.
  have hdash : ∀ t, Stops isHex ('-' :: t) := by
    rintro t d ⟨⟩
    decide
  have hblank : ∀ {gap t : List Char}, Run Text.isBlank gap → Stops isHex (gap ++ t) := fun hgap =>
    hgap.stops_append (fun _ hc => (not_digit_of_isBlank hc).1) _
  have hhex : ∀ {digits t : List Char}, Run isHex digits → Stops Text.isBlank (digits ++ t) := fun hdigits =>
    hdigits.stops_append (fun _ => not_isBlank_of_isHex) _
  have hword : ∀ {word t : List Char}, Run (fun c => !Text.isBlank c) word → Stops Text.isBlank (word ++ t) :=
    fun hword => hword.stops_append (fun _ hc => by simpa using hc) _
  have hinode : ∀ t, Stops Text.isBlank (c.inode ++ t) :=
    c.inode_run.stops_append fun _ => not_isBlank_of_isDecimal
  unfold MemoryMap.region? line
  rw [c.trimEnd_lineWith, lineWith]
  simp [many1?_append c.start_run (hdash _), many1?_append c.stop_run (hblank c.gap₁_run),
    blanks?_append c.gap₁_run (hword c.permissions_run),
    field?_append c.permissions_run c.gap₂_run (hhex c.offset_run),
    many1?_append c.offset_run (hblank c.gap₃_run), blanks?_append c.gap₃_run (hword c.device_run),
    field?_append c.device_run c.gap₄_run (hinode _), many1?_append c.inode_run hrest, hpath, region?, pathIn]

/-- The cut with the longest inode. -/
def greedy (c : Cut) : Cut :=
  { c with
    inode := c.inode ++ (c.gap₅ ++ c.rest).takeWhile Text.isDecimal
    gap₅ := []
    rest := (c.gap₅ ++ c.rest).dropWhile Text.isDecimal
    inode_run :=
      { ne_nil := by simp [c.inode_run.ne_nil]
        all := by
          intro d hd
          rcases List.mem_append.1 hd with hd | hd
          · exact c.inode_run.all d hd
          · exact List.all_eq_true.1 List.all_takeWhile d hd }
    gap₅_blank := fun d hd => absurd hd List.not_mem_nil }

/-- Cutting at the longest inode does not change the line. -/
theorem line_greedy (c : Cut) : c.greedy.line = c.line := by
  have hjoin : (c.gap₅ ++ c.rest).takeWhile Text.isDecimal ++ (c.gap₅ ++ c.rest).dropWhile Text.isDecimal =
      c.gap₅ ++ c.rest := List.takeWhile_append_dropWhile
  simp [line, lineWith, greedy, hjoin]

/-- The region of a line that is cut in any way is the one of the longest inode. -/
theorem region?_eq (c : Cut) : MemoryMap.region? c.line = c.greedy.region? := by
  have hstops : Stops Text.isDecimal (c.greedy.gap₅ ++ c.greedy.rest) := by
    intro d hd
    have hhead := List.head?_dropWhile_not Text.isDecimal (c.gap₅ ++ c.rest)
    have hd' : ((c.gap₅ ++ c.rest).dropWhile Text.isDecimal).head? = some d := hd
    simpa [hd'] using hhead
  rw [← c.line_greedy, c.greedy.region?_line hstops]

end Cut

/-- Blanks that were left out stood in front. -/
theorem exists_of_blanks? {s t : List Char} (h : blanks? s = some t) :
    ∃ gap, Run Text.isBlank gap ∧ s = gap ++ t := by
  obtain ⟨⟨gap, t'⟩, hgap, rfl⟩ := Option.map_eq_some_iff.1 h
  exact ⟨gap, run_of_many1? hgap⟩

/-- A field that was left out stood in front, with the blanks behind it. -/
theorem exists_of_field? {s t : List Char} (h : field? s = some t) :
    ∃ word gap, Run (fun c => !Text.isBlank c) word ∧ Run Text.isBlank gap ∧ s = word ++ (gap ++ t) := by
  obtain ⟨⟨word, u⟩, hword, hu⟩ := Option.bind_eq_some_iff.1 h
  obtain ⟨hrun, rfl⟩ := run_of_many1? hword
  obtain ⟨gap, hgap, rfl⟩ := exists_of_blanks? hu
  exact ⟨word, gap, hrun, hgap, rfl⟩

/-- A line with a region can be cut. -/
theorem exists_cut_of_region? {line : List Char} {r : Region} (h : region? line = some r) :
    ∃ c : Cut, c.line = line := by
  obtain ⟨blanks, _, hline⟩ := Text.exists_eq_trimEnd_append line
  unfold region? at h
  obtain ⟨⟨start, s⟩, hstart, h⟩ := Option.bind_eq_some_iff.1 h
  obtain ⟨start_run, hs⟩ := run_of_many1? hstart
  dsimp only at h hs
  split at h
  next s' =>
    obtain ⟨⟨stop, s⟩, hstop, h⟩ := Option.bind_eq_some_iff.1 h
    obtain ⟨s, hgap₁, h⟩ := Option.bind_eq_some_iff.1 h
    obtain ⟨s, hpermissions, h⟩ := Option.bind_eq_some_iff.1 h
    obtain ⟨⟨offset, s⟩, hoffset, h⟩ := Option.bind_eq_some_iff.1 h
    obtain ⟨s, hgap₃, h⟩ := Option.bind_eq_some_iff.1 h
    obtain ⟨s, hdevice, h⟩ := Option.bind_eq_some_iff.1 h
    obtain ⟨⟨inode, rest⟩, hinode, h⟩ := Option.bind_eq_some_iff.1 h
    obtain ⟨stop_run, rfl⟩ := run_of_many1? hstop
    obtain ⟨gap₁, gap₁_run, rfl⟩ := exists_of_blanks? hgap₁
    obtain ⟨permissions, gap₂, permissions_run, gap₂_run, rfl⟩ := exists_of_field? hpermissions
    obtain ⟨offset_run, rfl⟩ := run_of_many1? hoffset
    obtain ⟨gap₃, gap₃_run, rfl⟩ := exists_of_blanks? hgap₃
    obtain ⟨device, gap₄, device_run, gap₄_run, rfl⟩ := exists_of_field? hdevice
    obtain ⟨inode_run, rfl⟩ := run_of_many1? hinode
    -- The blanks at the end of the line, which were trimmed, go to the rest.
    let c : Cut :=
      { start, stop, permissions, offset, device, inode, gap₁, gap₂, gap₃, gap₄, start_run, stop_run, gap₁_run,
        permissions_run, gap₂_run, offset_run, gap₃_run, device_run, gap₄_run, inode_run
        rest := rest ++ blanks
        gap₅ := []
        gap₅_blank := fun d hd => absurd hd List.not_mem_nil }
    refine ⟨c, ?_⟩
    rw [hline, hs]
    simp [c, Cut.line, Cut.lineWith]
  next => cases h

/-! ## Written regions -/

/-- Spaces and tabs. -/
def isSpacing (c : Char) : Bool := c == ' ' || c == '\t'

/-- Blanks that may stand at the end of a line. -/
def Trailing (s : List Char) : Prop := ∀ c ∈ s, Text.isBlank c = true ∧ c ≠ '\n'

/-- What stands behind the inode for a path: the path in its trimmed form after a gap, or nothing but blanks
for no path. -/
def WritesPath : Option String → List Char → Prop
  | none, tail => Trailing tail
  | some path, tail =>
    (path ≠ "" ∧ Text.trim path = path ∧ ¬ '\n' ∈ path.toList) ∧
      ∃ gap after, Run isSpacing gap ∧ Trailing after ∧ tail = gap ++ path.toList ++ after

/-- A region as it is written on a line. The numbers have digits of either case behind any number of zeros. -/
structure Written (r : Region) where
  (start stop permissions offset device inode : List Char)
  (gap₁ gap₂ gap₃ gap₄ tail : List Char)
  start_hex : Text.IsHexText start r.start.toNat
  stop_hex : Text.IsHexText stop r.stop.toNat
  offset_hex : Text.IsHexText offset r.offset.toNat
  permissions_run : Run (fun c => !Text.isBlank c) permissions
  device_run : Run (fun c => !Text.isBlank c) device
  inode_run : Run Text.isDecimal inode
  gap₁_run : Run isSpacing gap₁
  gap₂_run : Run isSpacing gap₂
  gap₃_run : Run isSpacing gap₃
  gap₄_run : Run isSpacing gap₄
  tail_path : WritesPath r.path tail

theorem isBlank_of_isSpacing {c : Char} (h : isSpacing c = true) : Text.isBlank c = true := by
  simp only [isSpacing, Bool.or_eq_true, beq_iff_eq] at h
  rcases h with rfl | rfl
  · decide
  · decide

theorem Run.blank {s : List Char} (h : Run isSpacing s) : Run Text.isBlank s :=
  ⟨h.ne_nil, fun c hc => isBlank_of_isSpacing (h.all c hc)⟩

theorem Run.not_mem {p : Char → Bool} {s : List Char} (h : Run p s) {c : Char} (hc : p c = false) : ¬ c ∈ s := by
  intro hmem
  simpa [hc] using h.all c hmem

/-- No digit follows the inode directly. -/
theorem stops_of_writesPath {path : Option String} {tail : List Char} (h : WritesPath path tail) :
    Stops Text.isDecimal tail := by
  cases path with
  | none =>
    intro c hc
    exact (not_digit_of_isBlank (h c (List.mem_of_mem_head? hc)).1).2
  | some path =>
    obtain ⟨_, gap, after, hgap, _, rfl⟩ := h
    rw [List.append_assoc]
    exact hgap.blank.stops_append (fun c hc => (not_digit_of_isBlank hc).2) _

/-- The path that is written is the one that is read. -/
theorem pathIn_of_writesPath {path : Option String} {tail : List Char} (h : WritesPath path tail) :
    pathIn tail = path := by
  cases path with
  -- Blanks only: no path.
  | none =>
    have hblank : Text.trimChars (tail ++ []) = Text.trimChars [] :=
      Text.trimChars_blanks_append (fun c hc => (h c hc).1) []
    have hnil : Text.trimChars tail = [] := by
      rw [List.append_nil] at hblank
      exact hblank
    simp [pathIn, hnil]
  -- A path stands between blanks, and has none at its own ends.
  | some path =>
    obtain ⟨⟨hne, htrim, _⟩, gap, after, hgap, hafter, rfl⟩ := h
    have hpath : Text.trimChars (gap ++ path.toList ++ after) = path.toList := by
      calc
        Text.trimChars (gap ++ path.toList ++ after) = Text.trimChars (gap ++ path.toList) :=
          Text.trimChars_append_blanks _ fun c hc => (hafter c hc).1
        _ = Text.trimChars path.toList := Text.trimChars_blanks_append hgap.blank.all _
        _ = path.toList := by
          have hlist := congrArg String.toList htrim
          simpa [Text.trim] using hlist
    rw [pathIn, hpath]
    simp [hne]

theorem not_mem_of_writesPath {path : Option String} {tail : List Char} (h : WritesPath path tail) :
    ¬ '\n' ∈ tail := by
  cases path with
  | none => exact fun hmem => (h '\n' hmem).2 rfl
  | some path =>
    obtain ⟨⟨_, _, hpath⟩, gap, after, hgap, hafter, rfl⟩ := h
    have hgap' : ¬ '\n' ∈ gap := hgap.not_mem (by decide)
    have hafter' : ¬ '\n' ∈ after := fun hmem => (hafter '\n' hmem).2 rfl
    simp [hgap', hpath, hafter']

theorem run_of_isHexText {digits : List Char} {n : Nat} (h : Text.IsHexText digits n) : Run isHex digits := by
  have hread := Text.natOfHex?_of_isHexText h
  cases digits with
  | nil => cases hread
  | cons c s => exact ⟨List.cons_ne_nil c s, Text.isSome_of_readDigits hread⟩

/-- A number with more than 64 bits is no word. -/
theorem word?_of_isHexText {digits : List Char} {n : Nat} (h : Text.IsHexText digits n) :
    word? digits = if n < UInt64.size then some (UInt64.ofNat n) else none := by
  simp [word?, Text.natOfHex?_of_isHexText h]

theorem word?_toNat {digits : List Char} {a : UInt64} (h : Text.IsHexText digits a.toNat) :
    word? digits = some a := by
  rw [word?_of_isHexText h, if_pos a.toNat_lt_size, UInt64.ofNat_toNat]

namespace Written

variable {r : Region}

def line (w : Written r) : List Char :=
  w.start ++ ['-'] ++ w.stop ++ w.gap₁ ++ w.permissions ++ w.gap₂ ++ w.offset ++ w.gap₃ ++ w.device ++ w.gap₄ ++
    w.inode ++ w.tail

def cut (w : Written r) : Cut :=
  { w with
    rest := w.tail
    gap₅ := []
    start_run := run_of_isHexText w.start_hex
    stop_run := run_of_isHexText w.stop_hex
    offset_run := run_of_isHexText w.offset_hex
    gap₁_run := w.gap₁_run.blank
    gap₂_run := w.gap₂_run.blank
    gap₃_run := w.gap₃_run.blank
    gap₄_run := w.gap₄_run.blank
    gap₅_blank := fun _ hd => absurd hd List.not_mem_nil }

theorem line_cut (w : Written r) : w.cut.line = w.line := by
  simp [cut, line, Cut.line, Cut.lineWith]

/-- The line on which a region is written is read as that region. -/
theorem region?_line (w : Written r) : region? w.line = some r := by
  have hstops : Stops Text.isDecimal (w.cut.gap₅ ++ w.cut.rest) := stops_of_writesPath w.tail_path
  have hstart : word? w.cut.start = some r.start := word?_toNat w.start_hex
  have hstop : word? w.cut.stop = some r.stop := word?_toNat w.stop_hex
  have hoffset : word? w.cut.offset = some r.offset := word?_toNat w.offset_hex
  have hpath : pathIn w.cut.rest = r.path := pathIn_of_writesPath w.tail_path
  rw [← w.line_cut, w.cut.region?_line hstops]
  simp [Cut.region?, hstart, hstop, hoffset, hpath]

theorem not_mem_line (w : Written r) : ¬ '\n' ∈ w.line := by
  have hex : isHex '\n' = false := by decide
  have hblank : (fun c => !Text.isBlank c) '\n' = false := by decide
  have hspacing : isSpacing '\n' = false := by decide
  have hdecimal : Text.isDecimal '\n' = false := by decide
  have htail := not_mem_of_writesPath w.tail_path
  simp [line, (run_of_isHexText w.start_hex).not_mem hex, (run_of_isHexText w.stop_hex).not_mem hex,
    (run_of_isHexText w.offset_hex).not_mem hex, w.permissions_run.not_mem hblank, w.device_run.not_mem hblank,
    w.inode_run.not_mem hdecimal, w.gap₁_run.not_mem hspacing, w.gap₂_run.not_mem hspacing,
    w.gap₃_run.not_mem hspacing, w.gap₄_run.not_mem hspacing, htail]

end Written

/-! ## Listings -/

/-- A number that takes more than a word. -/
def IsWide (digits : List Char) : Prop := ∃ n, UInt64.size ≤ n ∧ Text.IsHexText digits n

theorem word?_of_isWide {digits : List Char} (h : IsWide digits) : word? digits = none := by
  obtain ⟨n, hn, hdigits⟩ := h
  rw [word?_of_isHexText hdigits, if_neg (by omega)]

/-- A line with a number that is too wide for a word has no region. -/
theorem Cut.region?_of_isWide (c : Cut) (h : IsWide c.start ∨ IsWide c.stop ∨ IsWide c.offset) :
    MemoryMap.region? c.line = none := by
  -- All cuts of a line have the same numbers, so it does not matter where the inode ends.
  have hstart : c.greedy.start = c.start := rfl
  have hstop : c.greedy.stop = c.stop := rfl
  have hoffset : c.greedy.offset = c.offset := rfl
  rw [c.region?_eq]
  rcases h with h | h | h
  · simp [region?, hstart, word?_of_isWide h]
  · simp [region?, hstop, word?_of_isWide h]
  · simp [region?, hoffset, word?_of_isWide h]

/-- A line of a listing. -/
inductive Line where
  /-- A line on which a region is written. -/
  | region (r : Region) (w : Written r)
  /-- A line with the form of a region, but with a number that takes more than a word. -/
  | wide (c : Cut) (hline : ¬ '\n' ∈ c.line) (h : IsWide c.start ∨ IsWide c.stop ∨ IsWide c.offset)
  /-- A line without the form of a region. -/
  | other (text : List Char) (hline : ¬ '\n' ∈ text) (h : ∀ c : Cut, c.line ≠ text)

namespace Line

def text : Line → List Char
  | region _ w => w.line
  | wide c _ _ => c.line
  | other text _ _ => text

def region? : Line → Option Region
  | region r _ => some r
  | wide _ _ _ => none
  | other _ _ _ => none

/-- Each line of a listing gives its region or none. -/
theorem region?_text (l : Line) : MemoryMap.region? l.text = l.region? := by
  cases l with
  | region r w => exact w.region?_line
  | wide c _ h => exact c.region?_of_isWide h
  | other text _ h =>
    cases hregion : MemoryMap.region? text with
    | none => exact hregion
    | some r =>
      obtain ⟨c, hc⟩ := exists_cut_of_region? hregion
      exact absurd hc (h c)

theorem not_mem_text (l : Line) : ¬ '\n' ∈ l.text := by
  cases l with
  | region r w => exact w.not_mem_line
  | wide c hline _ => exact hline
  | other text hline _ => exact hline

end Line

theorem region?_nil : region? [] = none := rfl

/-- A carriage return at the end of a line makes no difference. -/
theorem region?_dropCarriageReturn (l : List Char) : region? (Text.dropCarriageReturn l) = region? l := by
  unfold region?
  rw [Text.trimEnd_dropCarriageReturn]

/-- A listing is read line by line. -/
theorem parse_intercalate {ls : List String} (h : ∀ l ∈ ls, ¬ '\n' ∈ l.toList) :
    parse ("\n".intercalate ls) = ls.filterMap fun l => region? l.toList := by
  have hlines : ∀ l ∈ ls.map String.toList, ¬ '\n' ∈ l := by simpa using h
  calc
    parse ("\n".intercalate ls)
        = (Text.lines (List.intercalate ['\n'] (ls.map String.toList))).filterMap region? := by
          rw [parse, String.toList_intercalate]
          rfl
    _ = (ls.map String.toList).filterMap region? :=
          Text.filterMap_lines_intercalate hlines region?_nil region?_dropCarriageReturn
    _ = ls.filterMap fun l => region? l.toList := List.filterMap_map

/-- A line feed at the end adds an empty line at most, and there is no region on it. -/
theorem parse_intercalate_append {ls : List String} (h : ∀ l ∈ ls, ¬ '\n' ∈ l.toList) :
    parse ("\n".intercalate ls ++ "\n") = ls.filterMap fun l => region? l.toList := by
  cases ls with
  | nil => rfl
  | cons l ls =>
    have hjoin : "\n".intercalate (l :: ls) ++ "\n" = "\n".intercalate ((l :: ls) ++ [""]) := by
      rw [String.intercalate_append_of_ne_nil (List.cons_ne_nil l ls) (List.cons_ne_nil "" []),
        String.intercalate_singleton, String.append_empty]
    have hlines : ∀ k ∈ (l :: ls) ++ [""], ¬ '\n' ∈ k.toList := by
      intro k hk
      rcases List.mem_append.1 hk with hk | hk
      · exact h k hk
      · simp [List.mem_singleton.1 hk]
    rw [hjoin, parse_intercalate hlines, List.filterMap_append]
    exact List.append_nil _

/-- A listing is read as the regions that are written in it, in their order, with or without a line feed at its
end. -/
theorem parse_lines (ls : List Line) :
    parse ("\n".intercalate (ls.map fun l => String.ofList l.text)) = ls.filterMap Line.region? ∧
      parse ("\n".intercalate (ls.map fun l => String.ofList l.text) ++ "\n") = ls.filterMap Line.region? := by
  have hlines : ∀ l ∈ ls.map (fun l => String.ofList l.text), ¬ '\n' ∈ l.toList := by
    intro l hl
    obtain ⟨l, _, rfl⟩ := List.mem_map.1 hl
    simpa using l.not_mem_text
  have hregions : (ls.map fun l => String.ofList l.text).filterMap (fun l => region? l.toList) =
      ls.filterMap Line.region? := by
    rw [List.filterMap_map]
    refine congrArg (List.filterMap · ls) (funext fun l => ?_)
    rw [Function.comp_apply, String.toList_ofList, l.region?_text]
  exact ⟨(parse_intercalate hlines).trans hregions, (parse_intercalate_append hlines).trans hregions⟩

/-- A region of a file with blanks, digits and a dash in its path. -/
def spaced : Region := ⟨0x7f00, 0x8000, 0, some "/site/my-lib 42 7f.so"⟩

def spacedWritten : Written spaced where
  start := "00007F00".toList
  stop := "8000".toList
  permissions := "r--p".toList
  offset := "0".toList
  device := "08:01".toList
  inode := "42".toList
  gap₁ := [' ']
  gap₂ := ['\t', ' ']
  gap₃ := [' ']
  gap₄ := [' ']
  tail := "   /site/my-lib 42 7f.so".toList
  start_hex := ⟨4, by decide⟩
  stop_hex := ⟨0, by decide⟩
  offset_hex := ⟨0, by decide⟩
  permissions_run := by decide
  device_run := by decide
  inode_run := by decide
  gap₁_run := by decide
  gap₂_run := by decide
  gap₃_run := by decide
  gap₄_run := by decide
  tail_path :=
    ⟨⟨by decide, by decide, by decide⟩, "   ".toList, [], by decide, fun _ hc => absurd hc List.not_mem_nil,
      by decide⟩

/-- The same fields with a start of seventeen digits. -/
def wideCut : Cut := { spacedWritten.cut with start := "10000000000000000".toList, start_run := by decide }

/-- The form of a region has a dash. -/
theorem Cut.dash_mem_line (c : Cut) : '-' ∈ c.line := by
  simp [line, lineWith]

/-- Between a line without a dash and one with a number that is too great, the region is read. -/
theorem parse_lines_spaced :
    parse ("\n".intercalate ["garbage", "00007F00-8000 r--p\t 0 08:01 42   /site/my-lib 42 7f.so",
      "10000000000000000-8000 r--p\t 0 08:01 42   /site/my-lib 42 7f.so"] ++ "\n") = [spaced] := by
  have hwide : ¬ '\n' ∈ wideCut.line := by decide
  have hdigits : IsWide wideCut.start := ⟨0x10000000000000000, by decide, 0, by decide⟩
  have hother : ∀ c : Cut, c.line ≠ "garbage".toList := by
    intro c hc
    have hdash := c.dash_mem_line
    rw [hc] at hdash
    exact absurd hdash (by decide)
  exact (parse_lines [.other "garbage".toList (by decide) hother, .region spaced spacedWritten,
    .wide wideCut hwide (.inl hdigits)]).2

end MemoryMap
end Bridgework
