import Bridgework.Json.Printer
import Bridgework.Json.Reader
import Bridgework.Proofs.Text.Digit
import Bridgework.Proofs.Text.Split

/-!
# Reading a printed document

A reader accepts spaces, escapes that are not needed, numbers with points and exponents. The printer uses
little of that, and what it writes is read as the document that it was given. Text may follow a printed
document, as long as it does not go on with a number.

- `Json.Piece.ofChar` : the piece of a string as which a character is written
- `Json.Stops` : a text that does not go on with a number
- `Json.Printed` : documents of texts, truth values and whole numbers
- `Json.Printed.readsBack` : a printed document is read, and what follows it is left
- `Json.Printed.parse?_render`, `Json.Printed.eq_of_render_eq` : hence a text that is one printed document
- `Json.Regular` : documents whose numbers have 64 bits, which can be decoded as well
-/

namespace Bridgework
namespace Json

/-! ## Strings -/

def shortEscapes : List Char := ['"', '\\', '\n', '\r', '\t', Char.ofNat 8, Char.ofNat 12]

/-- The piece as which a character is written. -/
def Piece.ofChar (c : Char) : Piece :=
  if c ∈ shortEscapes then .escaped c else if c.toNat < 0x20 then .unit c.toNat else .char c

/-- Characters with an escape of one letter are read back from it. -/
theorem renderChar_short {c : Char} (h : c ∈ shortEscapes) :
    ∃ e, renderChar c = ['\\', e] ∧ e ≠ 'u' ∧ simpleEscape? e = some c := by
  simp only [shortEscapes, List.mem_cons, List.not_mem_nil, or_false] at h
  rcases h with rfl | rfl | rfl | rfl | rfl | rfl | rfl <;> exact ⟨_, rfl, by decide, rfl⟩

theorem toNat_ne_of_not_short {c : Char} (h : c ∉ shortEscapes) :
    c.toNat ≠ 8 ∧ c.toNat ≠ 12 := by
  constructor
  · intro hc
    exact h (by rw [← Char.ofNat_toNat c, hc]; decide)
  · intro hc
    exact h (by rw [← Char.ofNat_toNat c, hc]; decide)

/-- Other control characters are written as four digits, which name them. -/
theorem renderChar_control {c : Char} (h : c ∉ shortEscapes) (hc : c.toNat < 0x20) :
    ∃ x y z w, renderChar c = ['\\', 'u', x, y, z, w] ∧ unit? x y z w = some c.toNat := by
  have hcode := toNat_ne_of_not_short h
  have hread := Text.natOfHex?_hexPadded 4 c.toNat
  simp only [shortEscapes, List.mem_cons, not_or] at h
  have hrender : renderChar c = '\\' :: 'u' :: (Text.hexPadded 4 c.toNat).toList := by
    simp [renderChar, h, hcode, hc]
  -- There are exactly four digits, as many as the reader takes.
  obtain ⟨x, y, z, w, hdigits⟩ := Text.exists_hexPadded_four (Nat.lt_trans hc (by decide))
  rw [hdigits] at hrender hread
  exact ⟨x, y, z, w, hrender, hread⟩

/-- All other characters stand for themselves. -/
theorem renderChar_plain {c : Char} (h : c ∉ shortEscapes) (hc : ¬ c.toNat < 0x20) :
    renderChar c = [c] ∧ mustEscape c = false := by
  have hcode := toNat_ne_of_not_short h
  simp only [shortEscapes, List.mem_cons, not_or] at h
  simp [renderChar, mustEscape, h, hcode, hc]

/-- A character that is written is read as one piece. -/
theorem pieces?_renderChar (c : Char) {r s : List Char} {ps : List Piece}
    (h : pieces? r = some (ps, s)) : pieces? (renderChar c ++ r) = some (.ofChar c :: ps, s) := by
  -- The printer has three ways to write a character: one letter, four digits, the character itself.
  by_cases hshort : c ∈ shortEscapes
  · rcases renderChar_short hshort with ⟨e, hrender, he, hescape⟩
    simp [hrender, Piece.ofChar, hshort, pieces?, he, hescape, h]
  · by_cases hcontrol : c.toNat < 0x20
    · rcases renderChar_control hshort hcontrol with ⟨x, y, z, w, hrender, hunit⟩
      simp [hrender, Piece.ofChar, hshort, hcontrol, pieces?, hunit, h]
    · rcases renderChar_plain hshort hcontrol with ⟨hrender, hplain⟩
      have hpiece : Piece.ofChar c = .char c := by simp [Piece.ofChar, hshort, hcontrol]
      simp only [shortEscapes, List.mem_cons, not_or] at hshort
      simp [hrender, hpiece, hshort, pieces?, hplain, h]

-- Units below the surrogates are characters whatever follows them.
/-- A unit below the surrogates is a character of its own. -/
theorem decode?_unit {n : Nat} (h : n < 0xd800) (ps : List Piece) :
    decode? (.unit n :: ps) = (decode? ps).map (Char.ofNat n :: ·) := by
  have hleading : isLeading n = false := by
    simp only [isLeading, Bool.and_eq_false_iff, decide_eq_false_iff_not]
    omega
  have htrailing : isTrailing n = false := by
    simp only [isTrailing, Bool.and_eq_false_iff, decide_eq_false_iff_not]
    omega
  rcases ps with _ | ⟨_ | _ | m, ps⟩ <;> simp [decode?, hleading, htrailing]

theorem decode?_ofChar (c : Char) (ps : List Piece) :
    decode? (.ofChar c :: ps) = (decode? ps).map (c :: ·) := by
  unfold Piece.ofChar
  split
  · rfl
  · split
    · next hcontrol => rw [decode?_unit (Nat.lt_trans hcontrol (by decide)), Char.ofNat_toNat]
    · rfl

theorem isPlain_ofChar (c : Char) : (Piece.ofChar c).isPlain = !mustEscape c := by
  by_cases hshort : c ∈ shortEscapes
  · have hall : shortEscapes.all mustEscape = true := by decide
    have hmust := List.all_eq_true.1 hall c hshort
    simp [Piece.ofChar, hshort, Piece.isPlain, hmust]
  · by_cases hcontrol : c.toNat < 0x20
    · simp [Piece.ofChar, hshort, hcontrol, Piece.isPlain, mustEscape]
    · simp [Piece.ofChar, hshort, hcontrol, Piece.isPlain, (renderChar_plain hshort hcontrol).2]

/-- A text that is written is read piece by piece up to the closing quote. -/
theorem pieces?_flatMap_renderChar (cs r : List Char) :
    pieces? (cs.flatMap renderChar ++ '"' :: r) = some (cs.map .ofChar, r) := by
  induction cs with
  | nil => rfl
  | cons c cs ih =>
    rw [List.flatMap_cons, List.append_assoc]
    exact pieces?_renderChar c ih

theorem decode?_map_ofChar (cs : List Char) : decode? (cs.map .ofChar) = some cs := by
  induction cs with
  | nil => rfl
  | cons c cs ih => rw [List.map_cons, decode?_ofChar, ih, Option.map_some]

@[simp] theorem value_ofString (s : String) : (Literal.ofString s).value = some s := by rw [Literal.ofString]

/-- A text that is written is read back, and what follows it is left. -/
theorem literal?_render (s : String) (r : List Char) :
    literal? (s.toList.flatMap renderChar ++ '"' :: r) = some (.ofString s, r) := by
  have hplain : (s.toList.map Piece.ofChar).all Piece.isPlain = !s.toList.any mustEscape := by
    rw [List.all_map, List.not_any_eq_all_not]
    congr 1
    exact funext isPlain_ofChar
  simp only [literal?, pieces?_flatMap_renderChar, Option.map_some, decode?_map_ofChar,
    String.ofList_toList, hplain, Literal.ofString]

/-- A text is written between quotes, character by character. -/
theorem render_ofString (s : String) :
    (Literal.ofString s).render = '"' :: (s.toList.flatMap renderChar ++ ['"']) := by
  rw [Literal.render, Literal.ofString]
  simp only [Option.getD_some, renderString, List.cons_append]

/-! ## Numbers -/

/-- Does not begin with anything that a number can go on with. -/
def Stops (r : List Char) : Prop :=
  ∀ c ∈ r.head?, c.isDigit = false ∧ c ≠ '.' ∧ c ≠ 'e' ∧ c ≠ 'E'

theorem stops_nil : Stops [] := by
  intro c hc
  cases hc

theorem stops_cons {c : Char} (h : c ∈ [',', ']', '\x7d']) (r : List Char) : Stops (c :: r) := by
  rintro d ⟨rfl⟩
  simp only [List.mem_cons, List.not_mem_nil, or_false] at h
  rcases h with rfl | rfl | rfl <;> decide

theorem digits_append {ds r : List Char} (hds : ∀ c ∈ ds, c.isDigit = true) (hr : Stops r) :
    digits (ds ++ r) = (ds, r) :=
  Text.span_append hds fun c hc => (hr c hc).1

/-- The digits of a number have no zero in front, unless it is zero. -/
theorem whole?_toDigits (n : Nat) {r : List Char} (hr : Stops r) :
    whole? (Nat.toDigits 10 n ++ r) = some (Nat.toDigits 10 n, r) := by
  have hdigits : digits (Nat.toDigits 10 n ++ r) = (Nat.toDigits 10 n, r) :=
    digits_append (fun c hc => Nat.isDigit_of_mem_toDigits (by decide) (by decide) hc) hr
  rw [whole?, hdigits]
  by_cases hn : n = 0
  · subst hn
    rfl
  · have hfirst := Text.head?_toDigits_ne_zero (by decide : 1 < 10) hn
    rcases hcons : Nat.toDigits 10 n with _ | ⟨c, s⟩
    · exact absurd hcons Nat.toDigits_ne_nil
    · have hc : c ≠ '0' := by simpa [hcons] using hfirst
      simp [hc]

theorem fraction?_of_stops {r : List Char} (hr : Stops r) : fraction? r = some ([], r) := by
  cases r with
  | nil => rfl
  | cons c r => simp [fraction?, (hr c rfl).2.1]

theorem exponent?_of_stops {r : List Char} (hr : Stops r) : exponent? r = some (none, r) := by
  cases r with
  | nil => rfl
  | cons c r => simp [exponent?, (hr c rfl).2.2]

theorem render_ofNat (n : Nat) : (Numeral.ofNat n).render = Nat.toDigits 10 n := by
  simp [Numeral.render, Numeral.ofNat]

/-- A whole number that is written is read back, if nothing follows that would go on with it. -/
theorem numeral?_ofNat (n : Nat) {r : List Char} (hr : Stops r) :
    numeral? ((Numeral.ofNat n).render ++ r) = some (.ofNat n, r) := by
  rw [render_ofNat]
  have hwhole := whole?_toDigits n hr
  rcases Text.exists_digit_cons n with ⟨c, s, hc, hcons⟩
  have hminus : c ≠ '-' := by
    rintro rfl
    cases hc
  simp only [hcons, List.cons_append] at hwhole ⊢
  simp [numeral?, hminus, hwhole, fraction?_of_stops hr, exponent?_of_stops hr, Numeral.ofNat, hcons]

/-- A number of 64 bits is read as it is. -/
theorem number?_ofNat {n : Nat} (h : n < UInt64.size) : (Numeral.ofNat n).number? = some (.natural n) := by
  simp [Numeral.number?, Numeral.ofNat, Text.natOfDecimal?_toDigits, h]

theorem eq_of_nat_eq {m n : Nat} (h : nat m = nat n) : m = n := by
  have hdigits : Nat.toDigits 10 m = Nat.toDigits 10 n := congrArg Numeral.whole (Json.num.inj h)
  have hread := Text.natOfDecimal?_toDigits m
  rw [hdigits, Text.natOfDecimal?_toDigits] at hread
  exact (Option.some.inj hread).symm

/-! ## Documents -/

/-- Built from null, truth values, whole numbers, zero as a double, and texts. -/
inductive Printed : Json → Prop
  | null : Printed .null
  | bool (b : Bool) : Printed (.bool b)
  | nat (n : Nat) : Printed (.nat n)
  | zero : Printed (.double (.zero false))
  | text (s : String) : Printed (.text s)
  | arr {items : List Json} (h : ∀ j ∈ items, Printed j) : Printed (.arr items)
  | object {members : List (String × Json)} (h : ∀ m ∈ members, Printed m.2) : Printed (.object members)

/-- Built from null, truth values, 64-bit numbers and texts. -/
inductive Regular : Json → Prop
  | null : Regular .null
  | bool (b : Bool) : Regular (.bool b)
  | nat {n : Nat} (h : n < UInt64.size) : Regular (.nat n)
  | text (s : String) : Regular (.text s)
  | arr {items : List Json} (h : ∀ j ∈ items, Regular j) : Regular (.arr items)
  | object {members : List (String × Json)} (h : ∀ m ∈ members, Regular m.2) : Regular (.object members)

/-- Once printed, the document is read and whatever follows it is left, with one unit of fuel more than
characters. -/
def ReadsBack (j : Json) : Prop :=
  ∀ fuel r, (renderChars j).length ≤ fuel → Stops r →
    value? (fuel + 1) (renderChars j ++ r) = some (j, r)

theorem skip_cons {c : Char} (h : isSpace c = false) (s : List Char) : skip (c :: s) = c :: s := by
  simp [skip, h]

theorem isSpace_of_isDigit {c : Char} (h : c.isDigit = true) : isSpace c = false := by
  simp [isSpace, Text.ne_of_class h]

/-- A document that begins with a digit is a number. -/
theorem value?_of_digit (fuel : Nat) {c : Char} (h : c.isDigit = true) (s : List Char) :
    value? (fuel + 1) (c :: s) = (numeral? (c :: s)).map fun (n, r) => (.num n, r) := by
  -- No other kind of document begins with a digit.
  simp [value?, skip_cons (isSpace_of_isDigit h), Text.ne_of_class h]

theorem readsBack_nat (n : Nat) : ReadsBack (.nat n) := by
  intro fuel r _ hr
  have hread := numeral?_ofNat n hr
  rcases Text.exists_digit_cons n with ⟨c, s, hc, hcons⟩
  rw [render_ofNat, hcons, List.cons_append] at hread
  simp only [nat, renderChars, render_ofNat, hcons, List.cons_append, value?_of_digit fuel hc, hread]
  rfl

/-- Zero is written with a point and one digit behind it. -/
theorem readsBack_zero : ReadsBack (.double (.zero false)) := by
  intro fuel r _ hr
  have hdigit : ∀ c ∈ ['0'], c.isDigit = true := by simp
  have hpoint : ∀ c ∈ ('.' :: '0' :: r).head?, c.isDigit = false := by
    rintro c ⟨rfl⟩
    decide
  have hwhole : digits ('0' :: '.' :: '0' :: r) = (['0'], '.' :: '0' :: r) :=
    Text.span_append hdigit hpoint
  have hfraction : digits ('0' :: r) = (['0'], r) := digits_append hdigit hr
  have hread : numeral? ('0' :: '.' :: '0' :: r) = some (.ofBinary64 (.zero false), r) := by
    simp [numeral?, whole?, hwhole, fraction?, hfraction, exponent?_of_stops hr, Numeral.ofBinary64,
      Binary64.isZero, Binary64.zero]
  have hchars : renderChars (.double (.zero false)) ++ r = '0' :: '.' :: '0' :: r := rfl
  rw [hchars, value?_of_digit fuel (by decide), hread]
  rfl

theorem eq_of_text_eq {s t : String} (h : text s = text t) : s = t :=
  Option.some.inj (congrArg Literal.value (Json.str.inj h))

theorem readsBack_text (s : String) : ReadsBack (.text s) := by
  intro fuel r _ _
  simp [text, renderChars, render_ofString, value?, skip_cons, isSpace, literal?_render]

/-- The items of an array are read one after another, with one unit of fuel for each. -/
theorem items?_render {j : Json} {js : List Json} (h : ∀ i ∈ j :: js, ReadsBack i) {fuel : Nat}
    (hfuel : (renderItems (j :: js)).length ≤ fuel) (r : List Char) :
    items? (fuel + 2) (renderItems (j :: js) ++ ']' :: r) = some (j :: js, r) := by
  -- Each item takes one unit of fuel more than the items after it, and its comma pays for that.
  induction js generalizing j fuel with
  | nil =>
    have hj := h j List.mem_cons_self fuel (']' :: r) hfuel (stops_cons (by decide) r)
    simp [renderItems, items?, hj, skip_cons, isSpace]
  | cons k ks ih =>
    have hlength : (renderItems (j :: k :: ks)).length =
        (renderChars j).length + (renderItems (k :: ks)).length + 1 := by
      simp only [renderItems, List.length_append, List.length_cons]
      omega
    obtain ⟨fuel, rfl⟩ : ∃ n, fuel = n + 1 := ⟨fuel - 1, by omega⟩
    have hj := h j List.mem_cons_self (fuel + 1) (',' :: (renderItems (k :: ks) ++ ']' :: r)) (by omega)
      (stops_cons (by decide) _)
    have hks := ih (fun i hi => h i (List.mem_cons_of_mem j hi)) (by omega : _ ≤ fuel)
    rw [items?]
    simp [renderItems, hj, hks, skip_cons, isSpace]

/-- The members of an object as they are written. -/
def written (members : List (String × Json)) : List (Literal × Json) :=
  members.map fun m => (.ofString m.1, m.2)

theorem written_cons (m : String × Json) (ms : List (String × Json)) :
    written (m :: ms) = (.ofString m.1, m.2) :: written ms := rfl

theorem object_eq (members : List (String × Json)) : object members = .obj (written members) := rfl

/-- The members of an object are read one after another, with one unit of fuel for each. -/
theorem members?_render {m : String × Json} {ms : List (String × Json)}
    (h : ∀ n ∈ m :: ms, ReadsBack n.2) {fuel : Nat}
    (hfuel : (renderMembers (written (m :: ms))).length ≤ fuel) (r : List Char) :
    members? (fuel + 2) (renderMembers (written (m :: ms)) ++ '\x7d' :: r) =
      some (written (m :: ms), r) := by
  -- Induction over the members behind the first. Fuel is spent with each, and the text pays for it.
  induction ms generalizing m fuel with
  | nil =>
    have hlength : (renderMembers (written [m])).length =
        (Literal.ofString m.1).render.length + (renderChars m.2).length + 1 := by
      simp only [written, List.map_cons, List.map_nil, renderMembers, List.length_append, List.length_cons]
      omega
    have hm := h m List.mem_cons_self fuel ('\x7d' :: r) (by omega) (stops_cons (by decide) r)
    simp [written, renderMembers, members?, render_ofString, literal?_render, hm, skip_cons, isSpace]
  | cons k ks ih =>
    have hlength : (renderMembers (written (m :: k :: ks))).length =
        (Literal.ofString m.1).render.length + (renderChars m.2).length +
          (renderMembers (written (k :: ks))).length + 2 := by
      simp only [written, List.map_cons, renderMembers, List.length_append, List.length_cons]
      omega
    -- At least the comma is still to be read.
    obtain ⟨fuel, rfl⟩ : ∃ n, fuel = n + 1 := ⟨fuel - 1, by omega⟩
    have hm := h m List.mem_cons_self (fuel + 1)
      (',' :: (renderMembers (written (k :: ks)) ++ '\x7d' :: r)) (by omega) (stops_cons (by decide) _)
    have hks := ih (fun n hn => h n (List.mem_cons_of_mem m hn)) (by omega : _ ≤ fuel)
    rw [written_cons k] at hm hks
    rw [members?]
    simp [written_cons, renderMembers, render_ofString, literal?_render, hm, hks, skip_cons, isSpace]

/-- A printed document begins with neither a space nor a closing bracket. -/
theorem Printed.renderChars_cons {j : Json} (h : Printed j) :
    ∃ c s, renderChars j = c :: s ∧ isSpace c = false ∧ c ≠ ']' := by
  cases h with
  | null => exact ⟨_, _, rfl, rfl, by decide⟩
  | bool b => cases b <;> exact ⟨_, _, rfl, rfl, by decide⟩
  | nat n =>
    rcases Text.exists_digit_cons n with ⟨c, s, hc, hcons⟩
    exact ⟨c, s, (render_ofNat n).trans hcons, isSpace_of_isDigit hc, Text.ne_of_class hc rfl⟩
  | zero => exact ⟨_, _, rfl, rfl, by decide⟩
  | text s => exact ⟨_, _, rfl, rfl, by decide⟩
  | arr h => exact ⟨_, _, rfl, rfl, by decide⟩
  | object h => exact ⟨_, _, rfl, rfl, by decide⟩

theorem renderItems_cons {j : Json} (js : List Json) {c : Char} {s : List Char}
    (h : renderChars j = c :: s) : ∃ t, renderItems (j :: js) = c :: t := by
  cases js with
  | nil => exact ⟨s, h⟩
  | cons k ks => exact ⟨s ++ ',' :: renderItems (k :: ks), by simp [renderItems, h]⟩

/-- An array is read back if its items are. None of them begins with a bracket that would close it. -/
theorem readsBack_arr {items : List Json} (hprinted : ∀ j ∈ items, Printed j)
    (h : ∀ j ∈ items, ReadsBack j) : ReadsBack (.arr items) := by
  intro fuel r hfuel _
  cases items with
  | nil => simp [renderChars, renderItems, value?, skip_cons, isSpace]
  | cons j js =>
    simp only [renderChars, List.length_append, List.length_cons, List.length_nil] at hfuel
    obtain ⟨fuel, rfl⟩ : ∃ n, fuel = n + 2 := ⟨fuel - 2, by omega⟩
    have hitems := items?_render h (by omega : _ ≤ fuel) r
    -- The first item does not look like the end of the array.
    rcases (hprinted j List.mem_cons_self).renderChars_cons with ⟨c, s, hcons, hspace, hc⟩
    rcases renderItems_cons js hcons with ⟨t, ht⟩
    rw [ht, List.cons_append] at hitems
    simp [renderChars, ht, value?, skip_cons hspace, skip_cons, hc, hitems, isSpace]

/-- An object is read back if its values are. -/
theorem readsBack_object {members : List (String × Json)} (h : ∀ m ∈ members, ReadsBack m.2) :
    ReadsBack (.object members) := by
  intro fuel r hfuel _
  rw [object_eq] at hfuel ⊢
  cases members with
  | nil => simp [written, renderChars, renderMembers, value?, skip_cons, isSpace]
  | cons m ms =>
    simp only [renderChars, List.length_append, List.length_cons, List.length_nil] at hfuel
    obtain ⟨fuel, rfl⟩ : ∃ n, fuel = n + 2 := ⟨fuel - 2, by omega⟩
    have hmembers := members?_render h (by omega : _ ≤ fuel) r
    obtain ⟨t, ht⟩ : ∃ t, renderMembers (written (m :: ms)) = '"' :: t := by
      cases ms <;> exact ⟨_, rfl⟩
    rw [ht, List.cons_append] at hmembers
    simp [renderChars, ht, value?, skip_cons, hmembers, isSpace]

/-- What the printer writes is read as it was, whatever stands behind it. -/
theorem Printed.readsBack {j : Json} (h : Printed j) : ReadsBack j := by
  induction h with
  | null =>
    intro fuel r _ _
    simp [renderChars, value?, skip_cons, isSpace]
  | bool b =>
    intro fuel r _ _
    cases b <;> simp [renderChars, value?, skip_cons, isSpace]
  | nat n => exact readsBack_nat n
  | zero => exact readsBack_zero
  | text s => exact readsBack_text s
  | arr h ih => exact readsBack_arr h ih
  | object h ih => exact readsBack_object ih

/-- A printed document is parsed to itself. -/
theorem Printed.parse?_render {j : Json} (h : Printed j) : parse? j.render = some j := by
  have hread := h.readsBack (renderChars j).length [] (Nat.le_refl _) stops_nil
  rw [List.append_nil] at hread
  simp only [parse?, read?, render, String.toList_ofList, hread]
  rfl

/-- A text is that of one document only. -/
theorem Printed.eq_of_render_eq {j k : Json} (hj : Printed j) (hk : Printed k) (heq : j.render = k.render) :
    j = k := by
  have hread := hj.parse?_render
  rw [heq, hk.parse?_render] at hread
  exact (Option.some.inj hread).symm

namespace Regular

theorem printed {j : Json} (h : Regular j) : Printed j := by
  induction h with
  | null => exact .null
  | bool b => exact .bool b
  | nat h => exact .nat _
  | text s => exact .text s
  | arr _ ih => exact .arr ih
  | object _ ih => exact .object ih

theorem parse?_render {j : Json} (h : Regular j) : parse? j.render = some j := h.printed.parse?_render

end Regular

/-! ## Settled documents -/

theorem isSome_settleItems? {items : List Json} (h : ∀ j ∈ items, j.settle?.isSome) :
    (settleItems? items).isSome := by
  induction items with
  | nil => rfl
  | cons j js ih =>
    rcases Option.isSome_iff_exists.1 (h j List.mem_cons_self) with ⟨k, hk⟩
    rcases Option.isSome_iff_exists.1 (ih fun i hi => h i (List.mem_cons_of_mem j hi)) with ⟨ks, hks⟩
    simp [settleItems?, hk, hks]

theorem isSome_settleMembers? {members : List (String × Json)} (h : ∀ m ∈ members, m.2.settle?.isSome) :
    (settleMembers? (written members)).isSome := by
  induction members with
  | nil => rfl
  | cons m ms ih =>
    rcases Option.isSome_iff_exists.1 (h m List.mem_cons_self) with ⟨k, hk⟩
    rcases Option.isSome_iff_exists.1 (ih fun n hn => h n (List.mem_cons_of_mem m hn)) with ⟨ks, hks⟩
    simp [written_cons, settleMembers?, hk, hks]

/-- In a regular document every part can be read. -/
theorem Regular.isSome_settle? {j : Json} (h : Regular j) : j.settle?.isSome := by
  induction h with
  | null => rfl
  | bool b => rfl
  | nat h => simp [Json.nat, settle?, number?_ofNat h]
  | text s => rfl
  | arr h ih => simpa [settle?] using isSome_settleItems? ih
  | object h ih => simpa [object_eq, settle?] using isSome_settleMembers? ih

end Json
end Bridgework
