import Bridgework.Proofs.Text.Part

/-!
# Slots in texts

A slot is a word in braces. Slots are filled all at once, from left to right, with values that are not looked
at again. Filling one more slot in what has been filled before gives the same as filling it together with the
others exactly if no value takes part in that slot, neither alone nor with text around it, or the slot is
filled with itself.

- `Text.slot`, `Text.Slots` : slots, and values for them
- `Text.substitute`, `Text.slot_induction` : a text with all slots filled at once, and the way through it
- `Text.Keeps` : a value that takes no part in a text
- `Text.substitute_substitute`, `Text.substitute_substitute_iff` : one more slot
- `Text.replaceFrom_slot` : replacing the occurrences of a slot
-/

namespace Bridgework
namespace Text

/-! ## Slots -/

def opening : Char := '\x7b'

def closing : Char := '\x7d'

def slot (word : List Char) : List Char := opening :: (word ++ [closing])

/-- A word that a slot can have. -/
structure IsWord (word : List Char) : Prop where
  no_opening : ¬ opening ∈ word
  no_closing : ¬ closing ∈ word

abbrev Slots := List (List Char × List Char)

/-- The slot with which a text begins. -/
def slotAt? (slots : Slots) (s : List Char) : Option (List Char × List Char) :=
  slots.find? fun e => (slot e.1).isPrefixOf s

/-- Fills the slots. The number counts the characters of a slot that are still to be left out. -/
def substituteFrom (slots : Slots) : Nat → List Char → List Char
  | _, [] => []
  | n + 1, _ :: s => substituteFrom slots n s
  | 0, c :: s =>
    match slotAt? slots (c :: s) with
    | some e => e.2 ++ substituteFrom slots (e.1.length + 1) s
    | none => c :: substituteFrom slots 0 s

/-- Fills all slots at once, from left to right. -/
def substitute (slots : Slots) (s : List Char) : List Char := substituteFrom slots 0 s

/-- The slots have different words, and none of these has a brace. -/
structure Slots.Clear (slots : Slots) : Prop where
  words : ∀ e ∈ slots, IsWord e.1
  distinct : slots.Pairwise fun e e' => e.1 ≠ e'.1

variable {slots : Slots} {word value : List Char}

/-! ## Where slots begin -/

/-- No slot is the beginning of another: the closing brace ends the word. -/
theorem eq_of_slot_begins {j k s : List Char} (hj : IsWord j) (hk : IsWord k) (h : slot j <+: slot k ++ s) :
    j = k := by
  obtain ⟨r, hr⟩ := h
  simp only [slot, List.cons_append, List.append_assoc, List.cons.injEq, true_and] at hr
  exact (eq_of_append_cons hj.no_closing hk.no_closing hr).1

theorem slotAt?_eq_none_iff {s : List Char} : slotAt? slots s = none ↔ ∀ e ∈ slots, ¬ slot e.1 <+: s := by
  simp [slotAt?]

/-- A text that begins with another slot begins with none of the slots. -/
theorem slotAt?_slot_eq_none (hslots : slots.Clear) (hword : IsWord word) (hnew : ∀ e ∈ slots, e.1 ≠ word)
    (s : List Char) : slotAt? slots (slot word ++ s) = none :=
  slotAt?_eq_none_iff.2 fun e he hpre => hnew e he (eq_of_slot_begins (hslots.words e he) hword hpre)

/-- Slots stand where an opening brace does. -/
theorem slotAt?_cons_eq_none {c : Char} (hc : c ≠ opening) (s : List Char) : slotAt? slots (c :: s) = none := by
  refine slotAt?_eq_none_iff.2 fun e he hpre => ?_
  rw [slot, List.cons_prefix_cons] at hpre
  exact hc hpre.1.symm

/-- Of clear slots the one that stands there is found. -/
theorem slotAt?_slot_eq_some (hslots : slots.Clear) (hmem : (word, value) ∈ slots) (s : List Char) :
    slotAt? slots (slot word ++ s) = some (word, value) := by
  have hword : IsWord word := hslots.words _ hmem
  obtain ⟨front, back, rfl⟩ := List.append_of_mem hmem
  refine List.find?_eq_some_iff_append.2 ⟨?_, front, back, rfl, fun e he => ?_⟩
  · exact List.isPrefixOf_iff_prefix.2 (List.prefix_append _ s)
  · have hne : e.1 ≠ word := (List.pairwise_append.1 hslots.distinct).2.2 e he _ List.mem_cons_self
    rw [Bool.not_eq_true', ← Bool.not_eq_true, List.isPrefixOf_iff_prefix]
    exact fun hpre => hne (eq_of_slot_begins (hslots.words e (List.mem_append_left _ he)) hword hpre)

/-! ## Pieces of slots -/

theorem opening_not_mem_rest (hword : IsWord word) : ¬ opening ∈ word ++ [closing] := by
  rw [List.mem_append, List.mem_singleton, not_or]
  exact ⟨hword.no_opening, by decide⟩

theorem opening_not_mem_ending (hword : IsWord word) {y : List Char} (hy : y <:+ slot word)
    (hyne : y ≠ slot word) : ¬ opening ∈ y := by
  rcases List.suffix_cons_iff.1 hy with heq | hy
  · exact absurd heq hyne
  · exact fun hmem => opening_not_mem_rest hword (hy.subset hmem)

theorem closing_not_mem_beginning (hword : IsWord word) {x : List Char} (hx : x <+: slot word)
    (hxne : x ≠ slot word) : ¬ closing ∈ x := by
  rw [slot, ← List.cons_append, List.prefix_concat_iff] at hx
  rcases hx with heq | hx
  · exact absurd heq hxne
  · intro hmem
    rcases List.mem_cons.1 (hx.subset hmem) with heq | hmem
    · exact absurd heq (by decide)
    · exact hword.no_closing hmem

/-! ## Filling -/

theorem substituteFrom_length (slots : Slots) (l s : List Char) :
    substituteFrom slots l.length (l ++ s) = substitute slots s := by
  induction l with
  | nil => rfl
  | cons c l ih => exact ih

/-- A slot is replaced by its value, and the rest goes on behind it. -/
theorem substitute_slot (hslots : slots.Clear) (hmem : (word, value) ∈ slots) (s : List Char) :
    substitute slots (slot word ++ s) = value ++ substitute slots s := by
  have hat := slotAt?_slot_eq_some hslots hmem s
  have hskip := substituteFrom_length slots (word ++ [closing]) s
  rw [slot, List.cons_append] at hat ⊢
  rw [List.length_append, List.length_singleton] at hskip
  rw [substitute, substituteFrom, hat]
  simp only [hskip]

theorem substitute_cons {c : Char} {s : List Char} (h : slotAt? slots (c :: s) = none) :
    substitute slots (c :: s) = c :: substitute slots s := by
  rw [substitute, substituteFrom, h]
  rfl

/-- No slot begins in a piece of text without an opening brace. -/
theorem substitute_append {l : List Char} (hl : ¬ opening ∈ l) (s : List Char) :
    substitute slots (l ++ s) = l ++ substitute slots s := by
  induction l with
  | nil => rfl
  | cons c l ih =>
    rw [List.mem_cons, not_or] at hl
    rw [List.cons_append, substitute_cons (slotAt?_cons_eq_none (Ne.symm hl.1) _), ih hl.2]
    rfl

/-- Other slots stay as they are. -/
theorem substitute_slot_of_ne (hslots : slots.Clear) (hword : IsWord word) (hnew : ∀ e ∈ slots, e.1 ≠ word)
    (s : List Char) : substitute slots (slot word ++ s) = slot word ++ substitute slots s := by
  have hnone := slotAt?_slot_eq_none hslots hword hnew s
  rw [slot, List.cons_append] at hnone ⊢
  rw [substitute_cons hnone, substitute_append (opening_not_mem_rest hword)]
  rfl

/-- The way in which a text is gone through: slot by slot, and character by character between slots. -/
theorem slot_induction (slots : Slots) {motive : List Char → Prop} (nil : motive [])
    (slot : ∀ e ∈ slots, ∀ s, motive s → motive (slot e.1 ++ s))
    (cons : ∀ c s, slotAt? slots (c :: s) = none → motive s → motive (c :: s)) (s : List Char) : motive s := by
  -- The induction is over the length, as a slot takes several characters at once.
  induction hn : s.length using Nat.strongRecOn generalizing s with
  | ind n ih =>
    cases s with
    | nil => exact nil
    | cons c s =>
      cases hat : slotAt? slots (c :: s) with
      | none => exact cons c s hat (ih s.length (by simp [← hn]) s rfl)
      | some e =>
        have hmem : e ∈ slots := List.mem_of_find?_eq_some hat
        have hpre : (Text.slot e.1).isPrefixOf (c :: s) = true := by simpa using List.find?_some hat
        obtain ⟨rest, hrest⟩ := List.isPrefixOf_iff_prefix.1 hpre
        rw [← hrest]
        refine slot e hmem rest (ih rest.length ?_ rest rfl)
        rw [← hn, ← hrest]
        simp [Text.slot]
        omega

/-- A slot ends before the next brace that opens one. -/
theorem begins_of_begins_append (hword : IsWord word) {c : Char} {a s : List Char}
    (h : slot word <+: c :: (a ++ opening :: s)) : slot word <+: c :: a := by
  rw [slot, List.cons_prefix_cons] at h ⊢
  obtain ⟨hc, r, hr⟩ := h
  refine ⟨hc, ?_⟩
  rcases List.append_eq_append_iff.1 hr with ⟨b, rfl, _⟩ | ⟨b, hb, hopening⟩
  · exact List.prefix_append _ _
  · cases b with
    | nil => exact ⟨[], by rw [hb, List.append_nil, List.append_nil]⟩
    | cons d b =>
      obtain ⟨rfl, _⟩ := List.cons.inj hopening
      exact absurd (hb ▸ List.mem_append_right a List.mem_cons_self) (opening_not_mem_rest hword)

/-- No slot lies across an opening brace, so that a text may be cut in front of one. -/
theorem substitute_append_opening (hslots : slots.Clear) (a s : List Char) :
    substitute slots (a ++ opening :: s) = substitute slots a ++ substitute slots (opening :: s) := by
  induction a using slot_induction slots with
  | nil => rfl
  | slot e he a ih =>
    rw [List.append_assoc, substitute_slot hslots he, substitute_slot hslots he, ih, List.append_assoc]
  | cons c a hat ih =>
    have hnone : slotAt? slots (c :: (a ++ opening :: s)) = none :=
      slotAt?_eq_none_iff.2 fun e he hpre =>
        slotAt?_eq_none_iff.1 hat e he (begins_of_begins_append (hslots.words e he) hpre)
    rw [List.cons_append, substitute_cons hnone, substitute_cons hat, ih, List.cons_append]

/-- A slot inside a text is replaced where it stands. -/
theorem substitute_append_slot (hslots : slots.Clear) (hmem : (word, value) ∈ slots) (a s : List Char) :
    substitute slots (a ++ (slot word ++ s)) = substitute slots a ++ (value ++ substitute slots s) := by
  rw [← substitute_slot hslots hmem]
  exact substitute_append_opening hslots a _

/-! ## Values that take no part in a slot -/

/-- A value takes no part in a text: the text is not found in the value, nor in the value with a proper
beginning of the text before it and a proper end of the text behind it. -/
def Keeps (value part : List Char) : Prop :=
  ∀ i < part.length, ∀ j < part.length, hasPart part (part.take i ++ value ++ part.drop (j + 1)) = false

instance instDecidableKeeps (value part : List Char) : Decidable (Keeps value part) :=
  inferInstanceAs (Decidable (∀ i < part.length, ∀ j < part.length, _ = _))

/-- A value keeps a part out exactly if no occurrence of the part would lie across an edge of the value. -/
theorem keeps_iff {part : List Char} : Keeps value part ↔
    ∀ x y, x <+: part → x ≠ part → y <:+ part → y ≠ part → ¬ part <:+: x ++ value ++ y := by
  simp only [Keeps, ← Bool.not_eq_true, hasPart_iff]
  constructor
  -- A part of a shorter length is one of the cuts that are tried.
  · intro h x y hx hxne hy hyne
    have hxlen : x.length < part.length :=
      Nat.lt_of_le_of_ne hx.length_le fun heq => hxne (hx.eq_of_length heq)
    have hylen : y.length < part.length :=
      Nat.lt_of_le_of_ne hy.length_le fun heq => hyne (hy.eq_of_length heq)
    have hpart := h x.length hxlen (part.length - y.length - 1) (by omega)
    rw [show part.length - y.length - 1 + 1 = part.length - y.length by omega] at hpart
    rwa [← List.prefix_iff_eq_take.1 hx, ← List.suffix_iff_eq_drop.1 hy] at hpart
  -- Each cut that is tried leaves out a character at least.
  · intro h i hi j hj
    refine h _ _ (List.take_prefix i part) (fun heq => ?_) (List.drop_suffix _ part) fun heq => ?_
    · have hlen := congrArg List.length heq
      rw [List.length_take] at hlen
      omega
    · have hlen := congrArg List.length heq
      rw [List.length_drop] at hlen
      omega

/-- With such a value behind a beginning of the part, the part does not begin there or within the value,
whatever follows. -/
theorem Keeps.not_begins {part x l : List Char} (h : Keeps value part) (hx : x <+: part) (hxne : x ≠ part)
    (hl : l <:+ x ++ value) (hlne : l ≠ []) (s : List Char) : ¬ part <+: l ++ s := by
  have hne : part ≠ [] := fun hnil => hxne (by rw [hnil] at hx ⊢; exact List.prefix_nil.1 hx)
  intro hpre
  obtain ⟨front, hfront⟩ := hl
  rcases List.prefix_or_prefix_of_prefix hpre (List.prefix_append l s) with hin | ⟨y, hy⟩
  · refine keeps_iff.1 h x [] hx hxne (List.nil_suffix) hne.symm ?_
    rw [List.append_nil, ← hfront]
    exact hin.isInfix.trans (List.suffix_append front l).isInfix
  · refine keeps_iff.1 h x y hx hxne ⟨l, hy⟩ (fun heq => hlne ?_) ?_
    · have hlen := congrArg List.length hy
      rw [heq, List.length_append] at hlen
      exact List.length_eq_zero_iff.1 (by omega)
    · rw [← hfront, List.append_assoc, hy]
      exact (List.suffix_append front part).isInfix

/-- A value without braces takes no part in a slot if it has a character that the slot does not have. -/
theorem keeps_slot_of_mem {c : Char} (hword : IsWord word) (hvalue : IsWord value) (hc : c ∈ value)
    (hcnot : ¬ c ∈ slot word) : Keeps value (slot word) := by
  refine keeps_iff.2 fun x y hx hxne hy hyne => ?_
  rintro ⟨a, b, h⟩
  have hopening : opening ∈ slot word := List.mem_cons_self
  have hclosing : closing ∈ slot word := by simp [slot]
  have hxno := closing_not_mem_beginning hword hx hxne
  have hyno := opening_not_mem_ending hword hy hyne
  rw [List.append_assoc, List.append_assoc] at h
  rcases List.append_eq_append_iff.1 h with ⟨x', rfl, hfrom⟩ | ⟨a', rfl, hfrom⟩
  · rcases List.append_eq_append_iff.1 hfrom with ⟨x'', rfl, _⟩ | ⟨l, hl, hbehind⟩
    · exact hxno (List.mem_append_right a (List.mem_append_left x'' hclosing))
    · -- the occurrence begins in `x` and ends behind it, so it ends in the value or has all of it
      rcases List.append_eq_append_iff.1 hbehind with ⟨l', rfl, _⟩ | ⟨v, rfl, _⟩
      · exact hcnot (hl ▸ List.mem_append_right x' (List.mem_append_left l' hc))
      · rcases List.mem_append.1 (hl ▸ hclosing) with hmem | hmem
        · exact hxno (List.mem_append_right a hmem)
        · exact hvalue.no_closing (List.mem_append_left v hmem)
  · have hmem : opening ∈ value ++ y := hfrom ▸ List.mem_append_right a' (List.mem_append_left b hopening)
    rcases List.mem_append.1 hmem with hmem | hmem
    · exact hvalue.no_opening hmem
    · exact hyno hmem

theorem slot_ne_nil (word : List Char) : slot word ≠ [] := List.cons_ne_nil _ _

/-- No slot begins within such a value. -/
theorem substitute_append_of_keeps (h : ∀ e ∈ slots, Keeps value (slot e.1)) (s : List Char) :
    substitute slots (value ++ s) = value ++ substitute slots s := by
  -- A slot that begins within the value would end in it or reach over its end.
  suffices ∀ l, l <:+ value → substitute slots (l ++ s) = l ++ substitute slots s from
    this value (List.suffix_refl value)
  intro l
  induction l with
  | nil => exact fun _ => rfl
  | cons c l ih =>
    intro hl
    have hnone : slotAt? slots (c :: (l ++ s)) = none := by
      refine slotAt?_eq_none_iff.2 fun e he => ?_
      exact (h e he).not_begins List.nil_prefix (slot_ne_nil e.1).symm hl (List.cons_ne_nil c l) s
    rw [List.cons_append, substitute_cons hnone, ih ((List.suffix_cons c l).trans hl)]
    rfl

/-- A slot in which no value takes part is there after the others are filled only where it was before. -/
theorem prefix_of_prefix_substitute (hslots : slots.Clear) (hkeeps : ∀ e ∈ slots, Keeps e.2 (slot word))
    {x s : List Char} (hx : x ≠ []) (h : slot word <+: x ++ substitute slots s) : slot word <+: x ++ s := by
  induction s using slot_induction slots generalizing x with
  | nil => exact h
  | slot e he s _ =>
    rw [substitute_slot hslots he, ← List.append_assoc] at h
    rcases List.prefix_or_prefix_of_prefix h ((List.prefix_append x e.2).trans (List.prefix_append _ _))
      with hin | hbegins
    · exact hin.trans (List.prefix_append _ _)
    · by_cases heq : x = slot word
      · exact heq ▸ List.prefix_append _ _
      · have hne : x ++ e.2 ≠ [] := fun hnil => hx (List.append_eq_nil_iff.1 hnil).1
        exact absurd h ((hkeeps e he).not_begins hbegins heq (List.suffix_refl _) hne _)
  | cons c s hat ih =>
    rw [substitute_cons hat, List.append_cons] at h
    rw [List.append_cons]
    exact ih (by simp) h

/-! ## One more slot -/

theorem clear_singleton (hword : IsWord word) (value : List Char) : Slots.Clear [(word, value)] where
  words e he := by rw [List.mem_singleton.1 he]; exact hword
  distinct := List.pairwise_singleton _ _

/-- A slot with a new word leaves the slots clear. -/
theorem Slots.Clear.concat (hslots : slots.Clear) (hword : IsWord word) (hnew : ∀ e ∈ slots, e.1 ≠ word)
    (value : List Char) : Slots.Clear (slots ++ [(word, value)]) where
  words e he := by
    rcases List.mem_append.1 he with he | he
    · exact hslots.words e he
    · rw [List.mem_singleton.1 he]
      exact hword
  distinct := by
    refine List.pairwise_append.2 ⟨hslots.distinct, List.pairwise_singleton _ _, fun e he e' he' => ?_⟩
    rw [List.mem_singleton.1 he']
    exact hnew e he

theorem slotAt?_append_eq_none_iff {slots' : Slots} {s : List Char} :
    slotAt? (slots ++ slots') s = none ↔ slotAt? slots s = none ∧ slotAt? slots' s = none := by
  simp only [slotAt?_eq_none_iff, List.mem_append, or_imp, forall_and]

/-- A slot that is filled with itself is not filled. -/
theorem substitute_concat_slot (hslots : slots.Clear) (hword : IsWord word) (hnew : ∀ e ∈ slots, e.1 ≠ word)
    (s : List Char) : substitute (slots ++ [(word, slot word)]) s = substitute slots s := by
  have hall := hslots.concat hword hnew (slot word)
  induction s using slot_induction (slots ++ [(word, slot word)]) with
  | nil => rfl
  | slot e he s ih =>
    rw [substitute_slot hall he, ih]
    rcases List.mem_append.1 he with he | he
    · rw [substitute_slot hslots he]
    · rw [List.mem_singleton.1 he, substitute_slot_of_ne hslots hword hnew]
  | cons c s hat ih => rw [substitute_cons hat, substitute_cons (slotAt?_append_eq_none_iff.1 hat).1, ih]

/-- A slot that is replaced by itself stays. -/
theorem substitute_slot_self (hword : IsWord word) (s : List Char) :
    substitute [(word, slot word)] s = s := by
  induction s using slot_induction [(word, slot word)] with
  | nil => rfl
  | slot e he s ih =>
    rw [substitute_slot (clear_singleton hword _) he, ih, List.mem_singleton.1 he]
  | cons c s hat ih => rw [substitute_cons hat, ih]

/-- Filling one more slot afterwards, if no value takes part in it. -/
theorem substitute_substitute (hslots : slots.Clear) (hword : IsWord word) (hnew : ∀ e ∈ slots, e.1 ≠ word)
    (hkeeps : ∀ e ∈ slots, Keeps e.2 (slot word)) (s : List Char) :
    substitute [(word, value)] (substitute slots s) = substitute (slots ++ [(word, value)]) s := by
  have hall := hslots.concat hword hnew value
  have hone := clear_singleton hword value
  induction s using slot_induction (slots ++ [(word, value)]) with
  | nil => rfl
  -- Old slots give their values, in which the new word is nowhere begun; the new slot waits for its
  -- turn.
  | slot e he s ih =>
    rw [substitute_slot hall he, ← ih]
    rcases List.mem_append.1 he with he | he
    · rw [substitute_slot hslots he, substitute_append_of_keeps]
      simpa using hkeeps e he
    · rw [List.mem_singleton.1 he, substitute_slot_of_ne hslots hword hnew,
        substitute_slot hone (List.mem_singleton_self _)]
  -- No slot stands here, and none comes to stand here by what the others give.
  | cons c s hat ih =>
    obtain ⟨hold, hlast⟩ := slotAt?_append_eq_none_iff.1 hat
    have hnone : slotAt? [(word, value)] (c :: substitute slots s) = none := by
      simp only [slotAt?_eq_none_iff, List.mem_singleton, forall_eq] at hlast ⊢
      exact fun hpre => hlast (prefix_of_prefix_substitute hslots hkeeps (List.cons_ne_nil c []) hpre)
    rw [substitute_cons hold, substitute_cons hnone, substitute_cons hat, ih]

/-- Each slot that is filled changes the length by as much. -/
theorem exists_length_substitute (hword : IsWord word) (value s : List Char) :
    ∃ n, (substitute [(word, value)] s).length + n * (slot word).length = s.length + n * value.length := by
  induction s using slot_induction [(word, value)] with
  | nil => exact ⟨0, by simp [substitute, substituteFrom]⟩
  | slot e he s ih =>
    obtain ⟨n, hn⟩ := ih
    rw [substitute_slot (clear_singleton hword value) he, List.mem_singleton.1 he]
    refine ⟨n + 1, ?_⟩
    simp only [List.length_append, Nat.succ_mul]
    omega
  | cons c s hat ih =>
    obtain ⟨n, hn⟩ := ih
    refine ⟨n, ?_⟩
    rw [substitute_cons hat, List.length_cons, List.length_cons]
    omega

/-- A text with a slot is changed by filling it, unless the slot is filled with itself. -/
theorem eq_slot_of_substitute_eq (hword : IsWord word) {s : List Char} (hpart : slot word <:+: s)
    (h : substitute [(word, value)] s = s) : value = slot word := by
  obtain ⟨a, b, rfl⟩ := hpart
  rw [List.append_assoc, substitute_append_slot (clear_singleton hword value) (List.mem_singleton_self _)] at h
  obtain ⟨n, hn⟩ := exists_length_substitute hword value a
  obtain ⟨m, hm⟩ := exists_length_substitute hword value b
  have hlen := congrArg List.length h
  simp only [List.length_append] at hlen
  -- The slot in the middle is one more, so the lengths agree only if each slot keeps its length.
  have hmul : (n + m + 1) * value.length = (n + m + 1) * (slot word).length := by
    simp only [Nat.add_mul, Nat.one_mul]
    omega
  have hvalue : value.length = (slot word).length := Nat.eq_of_mul_eq_mul_left (Nat.succ_pos _) hmul
  rw [hvalue] at hn
  exact List.append_inj_left (List.append_inj_right h (by omega)) hvalue

/-- No slot ends in a text without a closing brace. -/
theorem substitute_of_no_closing {s : List Char} (hs : ¬ closing ∈ s) : substitute slots s = s := by
  induction s with
  | nil => rfl
  | cons c s ih =>
    have hnone : slotAt? slots (c :: s) = none :=
      slotAt?_eq_none_iff.2 fun e _ hpre => hs (hpre.subset (by simp [slot]))
    rw [substitute_cons hnone, ih fun hmem => hs (List.mem_cons_of_mem c hmem)]

/-- A text without an opening brace has no slots. -/
theorem substitute_of_no_opening {s : List Char} (hs : ¬ opening ∈ s) : substitute slots s = s := by
  simpa [substitute, substituteFrom] using substitute_append hs []

/-- A slot is filled between pieces of another. -/
theorem substitute_between (hslots : slots.Clear) {e : List Char × List Char} (he : e ∈ slots)
    (hword : IsWord word) {x y : List Char} (hx : x <+: slot word) (hxne : x ≠ slot word) (hy : y <:+ slot word)
    (hyne : y ≠ slot word) : substitute slots (x ++ (slot e.1 ++ y)) = x ++ e.2 ++ y := by
  rw [substitute_append_slot hslots he, substitute_of_no_closing (closing_not_mem_beginning hword hx hxne),
    substitute_of_no_opening (opening_not_mem_ending hword hy hyne), List.append_assoc]

/-- Which values allow that one more slot is filled afterwards. -/
theorem substitute_substitute_iff (hslots : slots.Clear) (hword : IsWord word) (hnew : ∀ e ∈ slots, e.1 ≠ word)
    (value : List Char) :
    (∀ s, substitute [(word, value)] (substitute slots s) = substitute (slots ++ [(word, value)]) s) ↔
      (∀ e ∈ slots, Keeps e.2 (slot word)) ∨ value = slot word := by
  constructor
  · intro h
    by_cases hvalue : value = slot word
    · exact .inr hvalue
    -- A value that takes part in the slot does so between two pieces of it, which are a text to fill.
    · refine .inl fun e he => keeps_iff.2 fun x y hx hxne hy hyne hpart => hvalue ?_
      refine eq_slot_of_substitute_eq hword hpart ?_
      have hall := hslots.concat hword hnew value
      have hboth := h (x ++ (slot e.1 ++ y))
      rwa [substitute_between hslots he hword hx hxne hy hyne,
        substitute_between hall (List.mem_append_left _ he) hword hx hxne hy hyne] at hboth
  · rintro (hkeeps | rfl) s
    · exact substitute_substitute hslots hword hnew hkeeps s
    · rw [substitute_concat_slot hslots hword hnew, substitute_slot_self hword]

/-! ## Replacing one part -/

/-- Replacing every occurrence of a slot is filling it. -/
theorem replaceFrom_slot (word value : List Char) (n : Nat) (s : List Char) :
    replaceFrom (slot word) value n s = substituteFrom [(word, value)] n s := by
  induction s generalizing n with
  | nil => cases n <;> rfl
  | cons c s ih =>
    cases n with
    | succ n => exact ih n
    | zero =>
      have hlen : (slot word).length - 1 = word.length + 1 := by simp [slot]
      rw [replaceFrom, substituteFrom, slotAt?, List.find?_singleton, hlen]
      split <;> rw [ih]

end Text
end Bridgework
