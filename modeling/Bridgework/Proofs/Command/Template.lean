import Bridgework.Command.Analyzer
import Bridgework.Proofs.Digest
import Bridgework.Proofs.Text.Slot

/-!
# What templates stand for

The placeholders of a template are replaced one after another. That is not what they stand for when all are
read at once: a value can bring in a later placeholder, or make one up with the text around it.

- `Placeholders.substitute` : a template with all placeholders filled at once
- `IsPlainPath` : a path that takes no part in placeholders
- `Placeholders.fill_eq_substitute_iff` : the values for which filling one after another is filling at once
- `Placeholders.filled_at_once` : the same, with the arguments of analysers
-/

namespace Bridgework
namespace Command

open Text (Keeps IsWord slot)

namespace Placeholders

def slots (p : Placeholders) : Text.Slots :=
  [("input".toList, p.input.toList), ("output".toList, p.output.toList), ("name".toList, p.name.toList)]

/-- A template with all placeholders filled at once; the values are not searched. -/
def substitute (p : Placeholders) (template : String) : String :=
  String.ofList (Text.substitute p.slots template.toList)

end Placeholders

theorem toList_inputMark : inputMark.toList = slot "input".toList := by decide

theorem toList_outputMark : outputMark.toList = slot "output".toList := by decide

theorem toList_nameMark : nameMark.toList = slot "name".toList := by decide

theorem isWord_input : IsWord "input".toList := ⟨by decide, by decide⟩

theorem isWord_output : IsWord "output".toList := ⟨by decide, by decide⟩

theorem isWord_name : IsWord "name".toList := ⟨by decide, by decide⟩

/-- Replacing a placeholder is filling its slot. -/
theorem toList_replaceAll_slot {part value s : String} {word : List Char} (h : part.toList = slot word) :
    (Text.replaceAll part value s).toList = Text.substitute [(word, value.toList)] s.toList := by
  rw [Text.replaceAll, String.toList_ofList, h, Text.replaceFrom_slot]
  rfl

theorem toList_substitute (p : Placeholders) (template : String) :
    (p.substitute template).toList = Text.substitute p.slots template.toList :=
  String.toList_ofList

/-- A template is filled in three passes over the text. -/
theorem toList_fill (p : Placeholders) (template : String) : (p.fill template).toList =
    Text.substitute [("name".toList, p.name.toList)] (Text.substitute [("output".toList, p.output.toList)]
      (Text.substitute [("input".toList, p.input.toList)] template.toList)) := by
  rw [Placeholders.fill, toList_replaceAll_slot toList_nameMark, toList_replaceAll_slot toList_outputMark,
    toList_replaceAll_slot toList_inputMark]

/-! ## One placeholder after another -/

section Lists

variable (input output name : List Char)

theorem clear_input_output :
    Text.Slots.Clear [("input".toList, input), ("output".toList, output)] :=
  (Text.clear_singleton isWord_input input).concat isWord_output (by simp) output

/-- Two passes are one exactly if no value makes up the later placeholder. -/
theorem fill_output_iff :
    (∀ s, Text.substitute [("output".toList, output)] (Text.substitute [("input".toList, input)] s) =
      Text.substitute [("input".toList, input), ("output".toList, output)] s) ↔
        Keeps input (slot "output".toList) ∨ output = slot "output".toList := by
  simpa using Text.substitute_substitute_iff (Text.clear_singleton isWord_input input) isWord_output
    (by simp) output

/-- The third pass can be joined to the first two under the same condition. -/
theorem fill_name_iff :
    (∀ s, Text.substitute [("name".toList, name)]
      (Text.substitute [("input".toList, input), ("output".toList, output)] s) =
        Text.substitute [("input".toList, input), ("output".toList, output), ("name".toList, name)] s) ↔
        (Keeps input (slot "name".toList) ∧ Keeps output (slot "name".toList)) ∨ name = slot "name".toList := by
  simpa using Text.substitute_substitute_iff (clear_input_output input output) isWord_name (by simp) name

/-- What stands for the name is filled in last, so the other two decide. -/
theorem fill_iff :
    (∀ name s, Text.substitute [("name".toList, name)] (Text.substitute [("output".toList, output)]
      (Text.substitute [("input".toList, input)] s)) =
        Text.substitute [("input".toList, input), ("output".toList, output), ("name".toList, name)] s) ↔
      (Keeps input (slot "output".toList) ∨ output = slot "output".toList) ∧
        Keeps input (slot "name".toList) ∧ Keeps output (slot "name".toList) := by
  constructor
  · intro h
    have hout (s : List Char) :
        Text.substitute [("output".toList, output)] (Text.substitute [("input".toList, input)] s) =
          Text.substitute [("input".toList, input), ("output".toList, output)] s := by
      -- A name that is its own placeholder takes the last replacement out of play.
      have hself := h (slot "name".toList) s
      rw [Text.substitute_slot_self isWord_name] at hself
      exact hself.trans
        (Text.substitute_concat_slot (clear_input_output input output) isWord_name (by simp) s)
    refine ⟨(fill_output_iff input output).1 hout, ?_⟩
    have hname := (fill_name_iff input output []).1 fun s => by rw [← hout, h]
    exact hname.resolve_right (Text.slot_ne_nil _).symm
  · rintro ⟨hout, hname⟩ name s
    rw [(fill_output_iff input output).2 hout, (fill_name_iff input output name).2 (.inl hname)]

end Lists

theorem Placeholders.fill_eq_substitute_iff (input output : String) :
    (∀ name template, fill ⟨input, output, name⟩ template = substitute ⟨input, output, name⟩ template) ↔
      (Keeps input.toList outputMark.toList ∨ output = outputMark) ∧
        Keeps input.toList nameMark.toList ∧ Keeps output.toList nameMark.toList := by
  have hoff : output = outputMark ↔ output.toList = slot "output".toList := by
    rw [← String.toList_inj, toList_outputMark]
  rw [hoff, toList_outputMark, toList_nameMark, ← fill_iff]
  constructor
  · intro h name s
    have heq := congrArg String.toList (h (String.ofList name) (String.ofList s))
    rw [toList_fill, toList_substitute, String.toList_ofList (l := s)] at heq
    simpa only [Placeholders.slots, String.toList_ofList (l := name)] using heq
  · intro h name template
    rw [← String.toList_inj, toList_fill, toList_substitute]
    exact h name.toList template.toList

/-! ## Analysers -/

/-- A path that has a slash and no brace. -/
structure IsPlainPath (path : String) : Prop where
  slash : '/' ∈ path.toList
  isWord : IsWord path.toList

/-- A path with a slash and no brace takes no part in a placeholder, which has no slash. -/
theorem IsPlainPath.keeps {path : String} {word : List Char} (h : IsPlainPath path) (hword : IsWord word)
    (hslash : ¬ '/' ∈ slot word) : Keeps path.toList (slot word) :=
  Text.keeps_slot_of_mem hword h.isWord h.slash hslash

theorem isWord_append {s t : List Char} (hs : IsWord s) (ht : IsWord t) : IsWord (s ++ t) where
  no_opening h := (List.mem_append.1 h).elim hs.no_opening ht.no_opening
  no_closing h := (List.mem_append.1 h).elim hs.no_closing ht.no_closing

theorem IsPlainPath.append_text {path s : String} (hpath : IsPlainPath path) (hs : IsWord s.toList) :
    IsPlainPath (path ++ s) where
  slash := by
    rw [String.toList_append]
    exact List.mem_append_left _ hpath.slash
  isWord := by
    rw [String.toList_append]
    exact isWord_append hpath.isWord hs

theorem IsPlainPath.append {dir s : String} (hdir : IsPlainPath dir) (hs : IsWord s.toList) :
    IsPlainPath (Path.append dir s) := by
  unfold Path.append
  split
  case h_1 heq => exact ⟨heq ▸ List.mem_cons_self, hs⟩
  case h_2 =>
    split
    · exact hdir.append_text hs
    · exact (hdir.append_text ⟨by decide, by decide⟩).append_text hs

theorem isWord_shortDigest (n : Nat) (s : String) : IsWord (shortDigest n s).toList where
  no_opening h := absurd (isAlphanum_of_mem_shortDigest h) (by decide)
  no_closing h := absurd (isAlphanum_of_mem_shortDigest h) (by decide)

/-- A file in a plain directory has a plain path. -/
theorem isPlainPath_outputPath {a : NativeAnalyzer} {library : Library} (hdir : IsPlainPath a.workDirectory)
    (hname : IsWord library.fileName.toList) : IsPlainPath (a.outputPath library) := by
  refine hdir.append ?_
  simp only [String.toList_append]
  refine isWord_append (isWord_append (isWord_append hname ?_) (isWord_shortDigest _ _)) ?_
  · exact ⟨by decide, by decide⟩
  · exact ⟨by decide, by decide⟩

/-- The values for which replacing the placeholders one after another fills all at once, in every template
and for every name; and the arguments of an analyser, which are filled so if the library's path and the place
to write are plain and the library's name has no brace. -/
theorem Placeholders.filled_at_once (input output : String) :
    ((∀ name template, fill ⟨input, output, name⟩ template = substitute ⟨input, output, name⟩ template) ↔
      (Keeps input.toList outputMark.toList ∨ output = outputMark) ∧
        Keeps input.toList nameMark.toList ∧ Keeps output.toList nameMark.toList) ∧
    ∀ (a : NativeAnalyzer) (library : Library), IsPlainPath input → IsPlainPath a.workDirectory →
      IsWord library.fileName.toList →
        a.argumentsFor library input =
          a.templates.map (substitute ⟨input, a.outputPath library, library.fileName⟩) := by
  refine ⟨fill_eq_substitute_iff input output, fun a library hinput hdir hname => ?_⟩
  have hout := isPlainPath_outputPath hdir hname
  refine List.map_congr_left fun template _ => (fill_eq_substitute_iff _ _).2 ?_ _ template
  rw [toList_outputMark, toList_nameMark]
  exact ⟨.inl (hinput.keeps isWord_output (by decide)), hinput.keeps isWord_name (by decide),
    hout.keeps isWord_name (by decide)⟩

/-- An analyser that names all three placeholders. -/
def listingAnalyzer : NativeAnalyzer :=
  ⟨"lister", ["--as={name}", "{input}", "{output}"], "/work"⟩

theorem Placeholders.filled_at_once_listing :
    (∀ name template, fill ⟨"/site/\x7bb", "/work/{input}", name⟩ template =
      substitute ⟨"/site/\x7bb", "/work/{input}", name⟩ template) ∧
    listingAnalyzer.argumentsFor ⟨⟨"x", "1"⟩, "lib/x.so"⟩ "/site/lib/x.so" =
      listingAnalyzer.templates.map (substitute
        ⟨"/site/lib/x.so", listingAnalyzer.outputPath ⟨⟨"x", "1"⟩, "lib/x.so"⟩, "x.so"⟩) :=
  ⟨(filled_at_once "/site/\x7bb" "/work/{input}").1.2 (by decide),
    (filled_at_once "/site/lib/x.so" "").2 listingAnalyzer ⟨⟨"x", "1"⟩, "lib/x.so"⟩
      ⟨by decide, by decide, by decide⟩ ⟨by decide, by decide, by decide⟩ ⟨by decide, by decide⟩⟩

/-- A placeholder of the name in the path of the library is replaced as well. -/
theorem Placeholders.fill_searches_input :
    fill ⟨"/lib/a{name}", "/work/out", "b"⟩ "{input}" = "/lib/ab" ∧
      substitute ⟨"/lib/a{name}", "/work/out", "b"⟩ "{input}" = "/lib/a{name}" := by
  decide

end Command
end Bridgework
