import Bridgework.Path
import Bridgework.Proofs.Text.Split

/-!
# Paths below a directory

A path lies below a directory if its parts begin with those of the directory. What remains of it is
written in the path, and its parts are the others.

- `Path.Remains` : what is left of a path below a directory
- `Path.exists_below?_iff` : when a path lies below a directory
- `Path.exists_remains_of_below?` : what is stored for it is what is left
-/

namespace Bridgework
namespace Path

/-! ## Pieces -/

def names (ps : List (List Char)) : List Part := (ps.filter isName).map .name

theorem parts_eq (s : List Char) : parts s = (pieces s).1.toList ++ names (pieces s).2 := rfl

theorem names_cons_of_isName {p : List Char} (hp : isName p = true) (ps : List (List Char)) :
    names (p :: ps) = .name p :: names ps := by
  simp [names, hp]

theorem names_cons_of_not_isName {p : List Char} (hp : ¬ isName p = true) (ps : List (List Char)) :
    names (p :: ps) = names ps := by
  simp [names, hp]

/-- Dropping the first names drops the first parts. -/
theorem names_dropNames (n : Nat) (ps : List (List Char)) : names (dropNames n ps) = (names ps).drop n := by
  fun_induction dropNames n ps with
  | case1 ps => rfl
  | case2 n => rfl
  | case3 n p ps hp ih => rw [ih, names_cons_of_isName hp, List.drop_succ_cons]
  | case4 n p ps hp ih => rw [ih, names_cons_of_not_isName hp]

theorem dropNames_suffix_self (n : Nat) (ps : List (List Char)) : dropNames n ps <:+ ps := by
  fun_induction dropNames n ps with
  | case1 ps => exact List.suffix_rfl
  | case2 n => exact List.suffix_rfl
  | case3 n p ps hp ih => exact ih.trans (List.suffix_cons p ps)
  | case4 n p ps hp ih => exact ih.trans (List.suffix_cons p ps)

theorem names_dropWhile (ps : List (List Char)) :
    names (ps.dropWhile fun p => !isName p) = names ps := by
  induction ps with
  | nil => rfl
  | cons p ps ih =>
    by_cases hp : isName p = true
    · simp [hp]
    · rw [List.dropWhile_cons_of_pos (by simp [hp]), ih, names_cons_of_not_isName hp]

theorem names_reverse (ps : List (List Char)) : names ps.reverse = (names ps).reverse := by
  simp [names]

theorem names_trimPiecesEnd (ps : List (List Char)) : names (trimPiecesEnd ps) = names ps := by
  rw [trimPiecesEnd, names_reverse, names_dropWhile, names_reverse, List.reverse_reverse]

/-- Trimming leaves all parts. -/
theorem names_trimPieces (ps : List (List Char)) : names (trimPieces ps) = names ps := by
  rw [trimPieces, names_trimPiecesEnd, names_dropWhile]

theorem trimPiecesEnd_prefix_self (ps : List (List Char)) : trimPiecesEnd ps <+: ps := by
  have hsuffix : ps.reverse.dropWhile (fun p => !isName p) <:+ ps.reverse := List.dropWhile_suffix _
  simpa [trimPiecesEnd] using List.reverse_prefix.2 hsuffix

theorem trimPieces_infix_self (ps : List (List Char)) : trimPieces ps <:+: ps :=
  (trimPiecesEnd_prefix_self _).isInfix.trans (List.dropWhile_suffix _).isInfix

/-- The first piece after trimming is a name. -/
theorem isName_of_head_trimPieces {ps qs : List (List Char)} {q : List Char} (h : trimPieces ps = q :: qs) :
    isName q = true := by
  obtain ⟨rest, hrest⟩ := trimPiecesEnd_prefix_self (ps.dropWhile fun p => !isName p)
  rw [← trimPieces, h] at hrest
  have hhead := List.head?_dropWhile_not (fun p => !isName p) ps
  rw [← hrest] at hhead
  simpa using hhead

/-! ## Joined pieces -/

/-- What is joined from the first pieces comes first. -/
theorem joinPieces_prefix_append (ps qs : List (List Char)) : joinPieces ps <+: joinPieces (ps ++ qs) := by
  induction ps with
  | nil => exact List.nil_prefix
  | cons p ps ih =>
    cases ps with
    | nil =>
      cases qs with
      | nil => exact List.prefix_rfl
      | cons q qs =>
        refine ⟨['/'] ++ joinPieces (q :: qs), ?_⟩
        simp [joinPieces]
    | cons p' ps =>
      obtain ⟨rest, hrest⟩ := ih
      refine ⟨rest, ?_⟩
      simp only [joinPieces, List.cons_append, List.intercalate_cons_cons, List.append_assoc] at hrest ⊢
      rw [hrest]

theorem joinPieces_suffix_append (ps qs : List (List Char)) : joinPieces qs <:+ joinPieces (ps ++ qs) := by
  induction ps with
  | nil => exact List.suffix_rfl
  | cons p ps ih =>
    refine ih.trans ?_
    rw [List.cons_append]
    cases ps ++ qs with
    | nil => exact List.nil_suffix
    | cons q rest => exact ⟨p ++ ['/'], by simp [joinPieces]⟩

/-- Consecutive pieces are consecutive in the text. -/
theorem joinPieces_infix_of {ps qs : List (List Char)} (h : qs <:+: ps) : joinPieces qs <:+: joinPieces ps := by
  obtain ⟨front, back, rfl⟩ := h
  exact (joinPieces_suffix_append front qs).isInfix.trans (joinPieces_prefix_append (front ++ qs) back).isInfix

/-! ## The pieces of a path -/

theorem not_slash_mem_of_mem_pieces {s p : List Char} (hp : p ∈ (pieces s).2) : ¬ '/' ∈ p := by
  revert hp
  fun_cases pieces s with
  | case1 r => exact Text.not_mem_of_mem_splitOnChar
  | case2 => exact fun hp => absurd hp List.not_mem_nil
  | case3 r => exact Text.not_mem_of_mem_splitOnChar
  | case4 r => exact Text.not_mem_of_mem_splitOnChar

def startText : Option Part → List Char
  | none => []
  | some .here => ['.']
  | some _ => ['/']

/-- A path is its start and its pieces. -/
theorem startText_append_pieces (s : List Char) : startText (pieces s).1 ++ joinPieces (pieces s).2 = s := by
  fun_cases pieces s with
  | case1 r => simp [startText, joinPieces, Text.intercalate_splitOnChar]
  | case2 => rfl
  | case3 r => simp [startText, joinPieces, Text.intercalate_splitOnChar]
  | case4 r => simp [startText, joinPieces, Text.intercalate_splitOnChar]

/-- A text whose first piece is a name starts with neither a slash nor a dot that stands for itself. -/
theorem pieces_of_isName {s q : List Char} {qs : List (List Char)} (hs : Text.splitOnChar '/' s = q :: qs)
    (hq : isName q = true) : pieces s = (none, q :: qs) := by
  fun_cases pieces s with
  | case1 r =>
    obtain ⟨rfl, -⟩ := List.cons.inj hs
    exact absurd hq (by decide)
  | case2 =>
    obtain ⟨rfl, -⟩ := List.cons.inj hs
    exact absurd hq (by decide)
  | case3 r =>
    obtain ⟨rfl, -⟩ := List.cons.inj hs
    exact absurd hq (by decide)
  | case4 r => rw [hs]

/-- The parts of joined pieces are the names among them, if they begin with a name. -/
theorem parts_joinPieces {ps : List (List Char)} (hslash : ∀ p ∈ ps, ¬ '/' ∈ p)
    (hhead : ∀ q ∈ ps.head?, isName q = true) : parts (joinPieces ps) = names ps := by
  cases ps with
  | nil => rfl
  | cons q qs =>
    have hsplit : Text.splitOnChar '/' (joinPieces (q :: qs)) = q :: qs :=
      Text.splitOnChar_intercalate (List.cons_ne_nil q qs) hslash
    simp [parts_eq, pieces_of_isName hsplit (hhead q rfl)]

/-! ## What is left -/

/-- `rest` is what is left of a path below a directory. -/
structure Remains (s dir rest : List Char) : Prop where
  /-- The parts of the directory are followed by those of the rest. -/
  parts_eq : parts s = parts dir ++ parts rest
  /-- The rest stands in the path as it is. -/
  written : rest <:+: s

theorem trimPieces_dropNames_infix_pieces (n : Nat) (s : List Char) :
    trimPieces (dropNames n (pieces s).2) <:+: (pieces s).2 :=
  (trimPieces_infix_self _).trans (dropNames_suffix_self n _).isInfix

/-- What remains of a path after some names has the parts behind them. -/
theorem parts_joinPieces_dropNames (n : Nat) (s : List Char) :
    parts (joinPieces (trimPieces (dropNames n (pieces s).2))) = (names (pieces s).2).drop n := by
  rw [parts_joinPieces, names_trimPieces, names_dropNames]
  · exact fun p hp => not_slash_mem_of_mem_pieces ((trimPieces_dropNames_infix_pieces n s).mem hp)
  · intro q hq
    cases htrim : trimPieces (dropNames n (pieces s).2) with
    | nil => simp [htrim] at hq
    | cons q' qs =>
      obtain rfl : q' = q := by simpa [htrim] using hq
      exact isName_of_head_trimPieces htrim

/-- What remains of a path stands in it as it is written. -/
theorem joinPieces_dropNames_written (n : Nat) (s : List Char) :
    joinPieces (trimPieces (dropNames n (pieces s).2)) <:+: s := by
  have hpieces : joinPieces (pieces s).2 <:+ s := ⟨startText (pieces s).1, startText_append_pieces s⟩
  exact (joinPieces_infix_of (trimPieces_dropNames_infix_pieces n s)).trans hpieces.isInfix

theorem names_splitOnChar_joinPieces {ps : List (List Char)} (h : ∀ p ∈ ps, ¬ '/' ∈ p) :
    names (Text.splitOnChar '/' (joinPieces ps)) = names ps := by
  cases ps with
  | nil => rfl
  | cons p ps =>
    have hsplit : Text.splitOnChar '/' (joinPieces (p :: ps)) = p :: ps :=
      Text.splitOnChar_intercalate (List.cons_ne_nil p ps) h
    rw [hsplit]

theorem eq_of_not_isName {q : List Char} (h : ¬ isName q = true) : q = [] ∨ q = ['.'] := by
  by_cases hq : q = []
  · exact .inl hq
  · exact .inr (by simpa [isName, hq] using h)

/-- The first piece of a path without a start is a name, unless the path is empty. -/
theorem trimPiecesEnd_pieces {s : List Char} (h : (pieces s).1 = none) :
    trimPiecesEnd (pieces s).2 = trimPieces (dropNames 0 (pieces s).2) := by
  revert h
  fun_cases pieces s with
  | case1 r => exact fun h => absurd h (Option.some_ne_none _)
  | case2 => exact fun h => absurd h (Option.some_ne_none _)
  | case3 r => exact fun h => absurd h (Option.some_ne_none _)
  | case4 r hroot hdot hdots =>
    intro _
    have hjoin := Text.intercalate_splitOnChar '/' s
    cases hs : Text.splitOnChar '/' s with
    | nil => exact absurd hs (Text.splitOnChar_ne_nil '/' s)
    | cons q qs =>
      rw [hs] at hjoin
      by_cases hq : isName q = true
      · simp [dropNames, trimPieces, hq]
      · -- A first piece that is no name would be a start, or the only piece of the empty path.
        rcases eq_of_not_isName hq with rfl | rfl
        · cases qs with
          | nil => rfl
          | cons q' qs => exact absurd (by simpa using hjoin.symm) (hroot _)
        · cases qs with
          | nil => exact absurd (by simpa using hjoin.symm) hdot
          | cons q' qs => exact absurd (by simpa using hjoin.symm) (hdots _)

theorem joinPieces_trimPiecesEnd (ps : List (List Char)) : joinPieces (trimPiecesEnd ps) <+: joinPieces ps := by
  obtain ⟨back, hback⟩ := trimPiecesEnd_prefix_self ps
  have hjoin := joinPieces_prefix_append (trimPiecesEnd ps) back
  rwa [hback] at hjoin

/-- A dot in front is a part of its own. -/
theorem parts_dot_cons {t : List Char} (h : t = [] ∨ ∃ r, t = '/' :: r) :
    parts ('.' :: t) = .here :: names (Text.splitOnChar '/' t) := by
  rcases h with rfl | ⟨r, rfl⟩
  · rfl
  · rfl

/-- Below the empty path everything lies, with its start. -/
theorem parts_startText_append (s : List Char) :
    parts (startText (pieces s).1 ++ joinPieces (trimPiecesEnd (pieces s).2)) = parts s := by
  have hslash : ∀ p ∈ trimPiecesEnd (pieces s).2, ¬ '/' ∈ p := fun p hp =>
    not_slash_mem_of_mem_pieces ((trimPiecesEnd_prefix_self _).mem hp)
  have hnames := names_splitOnChar_joinPieces hslash
  rw [names_trimPiecesEnd] at hnames
  cases hstart : (pieces s).1 with
  | none =>
    rw [trimPiecesEnd_pieces hstart, parts_eq s, hstart]
    exact parts_joinPieces_dropNames 0 s
  | some start =>
    rw [parts_eq s, hstart, ← hnames]
    have hjoin := joinPieces_trimPiecesEnd (pieces s).2
    revert hstart hjoin
    fun_cases pieces s with
    | case1 r =>
      rintro ⟨⟩ _
      rfl
    | case2 =>
      rintro ⟨⟩ _
      rfl
    | case3 r =>
      rintro ⟨⟩ hjoin
      -- What is left after the dot begins with its slash, or nothing is left.
      rw [joinPieces.eq_1 (Text.splitOnChar _ _), Text.intercalate_splitOnChar, List.prefix_cons_iff] at hjoin
      exact parts_dot_cons (hjoin.imp_right fun ⟨t, ht, _⟩ => ⟨t, ht⟩)
    | case4 r => exact fun h => absurd h.symm (Option.some_ne_none _)

/-- Below the empty path everything lies. -/
theorem remains_of_parts_nil (s : List Char) {dir : List Char} (h : parts dir = []) :
    Remains s dir (startText (pieces s).1 ++ joinPieces (trimPiecesEnd (pieces s).2)) where
  parts_eq := by rw [parts_startText_append, h, List.nil_append]
  written := by
    obtain ⟨back, hback⟩ := joinPieces_trimPiecesEnd (pieces s).2
    refine List.IsPrefix.isInfix ⟨back, ?_⟩
    rw [List.append_assoc, hback, startText_append_pieces]

/-- What follows the names of a directory is what remains. -/
theorem remains_of_parts_eq {s dir : List Char} {ws : List Part} (h : parts dir = (pieces s).1.toList ++ ws)
    (hws : ws <+: names (pieces s).2) :
    Remains s dir (joinPieces (trimPieces (dropNames ws.length (pieces s).2))) where
  parts_eq := by
    obtain ⟨others, hothers⟩ := hws
    rw [parts_joinPieces_dropNames, h, parts_eq s, ← hothers, List.drop_left, List.append_assoc]
  written := joinPieces_dropNames_written _ s

/-- A path whose parts begin with those of the directory lies below it. -/
theorem stripChars?_of_prefix {s dir : List Char} (h : parts dir <+: parts s) :
    ∃ rest, stripChars? s dir = some rest ∧ Remains s dir rest := by
  unfold stripChars?
  simp only [List.isPrefixOf_iff_prefix.2 h, if_true]
  -- Below nothing at all the path remains as it is; else the first piece says where the comparison
  -- starts.
  cases hdir : parts dir with
  | nil =>
    refine ⟨_, ?_, remains_of_parts_nil s hdir⟩
    cases (pieces s).1 with
    | none => rfl
    | some start =>
      cases start with
      | root => rfl
      | here => rfl
      | name text => rfl
  | cons w ws =>
    rw [hdir, parts_eq] at h
    -- Whether a path starts at the root, here, or with a name, the directory starts in the same
    -- way.
    cases hstart : (pieces s).1 with
    | none =>
      rw [hstart] at h
      refine ⟨_, rfl, remains_of_parts_eq ?_ h⟩
      rw [hstart, hdir]
      rfl
    | some start =>
      rw [hstart] at h
      obtain ⟨rfl, hws⟩ := List.cons_prefix_cons.1 h
      refine ⟨_, rfl, remains_of_parts_eq ?_ hws⟩
      rw [hstart, hdir]
      rfl

/-- A path whose parts begin otherwise does not lie below the directory. -/
theorem stripChars?_of_not_prefix {s dir : List Char} (h : ¬ parts dir <+: parts s) :
    stripChars? s dir = none := by
  unfold stripChars?
  simp [h]

theorem exists_below?_iff {path dir : String} :
    (∃ key, below? path dir = some key) ↔ parts dir.toList <+: parts path.toList := by
  by_cases h : parts dir.toList <+: parts path.toList
  · obtain ⟨rest, hrest, _⟩ := stripChars?_of_prefix h
    simp [below?, stripPrefix?, hrest, h]
  · simp [below?, stripPrefix?, stripChars?_of_not_prefix h, h]

/-- The key of a path below a directory is the stored form of what remains. -/
theorem exists_remains_of_below? {path dir key : String} (h : below? path dir = some key) :
    ∃ rest : String, Remains path.toList dir.toList rest.toList ∧ key = normalize rest := by
  obtain ⟨rest, hstrip, hremains⟩ := stripChars?_of_prefix (exists_below?_iff.1 ⟨key, h⟩)
  refine ⟨String.ofList rest, by simpa using hremains, ?_⟩
  simpa [below?, stripPrefix?, hstrip] using h.symm

end Path
end Bridgework
