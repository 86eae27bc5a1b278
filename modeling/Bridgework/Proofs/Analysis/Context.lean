import Bridgework.Analysis.Client
import Bridgework.Proofs.Digest
import Bridgework.Proofs.Json.RoundTrip
import Bridgework.Proofs.Package
import Bridgework.Proofs.Text.Part
import Bridgework.Proofs.Text.Split

/-!
# What the context of a unified graph tells apart

A unified graph is kept under a digest of a text, in which the packages of an analysis, the libraries that were
left out and the context of the scan stand one after another with commas and bars between them. The text does
not say which commas and bars are between two of them and which belong to one. So it tells analyses apart as
long as these characters do not occur in what is listed, and two packages always have the text of one.

- `GraphSource` : what a unified graph of a client is kept under
- `GraphSource.IsPlain`, `IsMarked` : names in which nothing can be taken for a separator
- `GraphSource.isSame_of_text_eq` : what the text tells
- `GraphSource.text_merged` : two packages with the text of one
- `GraphSource.unified_keys_differ` : which analyses of a client have different keys
-/

namespace Bridgework

/-! ## Packages and libraries -/

theorem Library.toList_display (l : Library) :
    l.display.toList = l.package.name.toList ++ ':' :: (l.package.version.toList ++ '!' :: l.path.toList) := by
  simp [display, Package.display]

/-- A package is its name and its version. -/
theorem Package.eq_of_toList_eq {p q : Package} (hname : p.name.toList = q.name.toList)
    (hversion : p.version.toList = q.version.toList) : p = q := by
  cases p
  cases q
  simp only [String.toList_inj] at hname hversion
  rw [hname, hversion]

/-- Without a colon in the names, the first colon of the display is the one behind the name. -/
theorem Package.eq_of_display_eq {p q : Package} (hp : ¬ ':' ∈ p.name.toList) (hq : ¬ ':' ∈ q.name.toList)
    (h : p.display = q.display) : p = q := by
  have hlist := congrArg String.toList h
  rw [toList_display, toList_display] at hlist
  obtain ⟨hname, hversion⟩ := Text.eq_of_append_cons hp hq hlist
  exact eq_of_toList_eq hname hversion

/-- The mark before the paths of libraries is the first one behind the names, or it is the last one. -/
def IsMarked (libraries : List Library) : Prop :=
  (∀ l ∈ libraries, ¬ '!' ∈ l.package.version.toList) ∨ ∀ l ∈ libraries, ¬ '!' ∈ l.path.toList

/-- Where the mark before the path can be told, a library is told by its display. -/
theorem IsMarked.eq_of_display_eq {libraries : List Library} (h : IsMarked libraries) {l k : Library}
    (hl : l ∈ libraries) (hk : k ∈ libraries) (hlcolon : ¬ ':' ∈ l.package.name.toList)
    (hkcolon : ¬ ':' ∈ k.package.name.toList) (heq : l.display = k.display) : l = k := by
  have hlist := congrArg String.toList heq
  rw [Library.toList_display, Library.toList_display] at hlist
  obtain ⟨hname, hrest⟩ := Text.eq_of_append_cons hlcolon hkcolon hlist
  have hcut : l.package.version.toList = k.package.version.toList ∧ l.path.toList = k.path.toList := by
    -- Versions with epochs have the mark as well; then it is the last one that counts.
    rcases h with hversions | hpaths
    · exact Text.eq_of_append_cons (hversions l hl) (hversions k hk) hrest
    · exact Text.eq_of_append_cons_of_not_mem (hpaths l hl) (hpaths k hk) hrest
  have hpackage : l.package = k.package := Package.eq_of_toList_eq hname hcut.1
  cases l
  cases k
  exact congr (congrArg Library.mk hpackage) (String.toList_inj.1 hcut.2)

/-! ## Lists -/

/-- What is listed is known from the list, if nothing in it has a comma. -/
theorem eq_of_listed_eq {α : Type} {f : α → String} (hf : ∀ a, f a ≠ "") {l k : List α}
    (hl : ∀ a ∈ l, ¬ ',' ∈ (f a).toList) (hk : ∀ b ∈ k, ¬ ',' ∈ (f b).toList)
    (hinj : ∀ a ∈ l, ∀ b ∈ k, f a = f b → a = b) (h : ",".intercalate (l.map f) = ",".intercalate (k.map f)) :
    l = k := by
  have hnot (m : List α) : ¬ "" ∈ m.map f := by simpa using fun a _ => hf a
  have hmap := Text.eq_of_intercalate_eq (show ",".toList = [','] from rfl) (List.forall_mem_map.2 hl)
    (List.forall_mem_map.2 hk) (hnot l) (hnot k) h
  -- The two lists are as long as each other, and go the same way.
  clear h hl hk
  induction l generalizing k with
  | nil => exact (List.map_eq_nil_iff.1 hmap.symm).symm
  | cons a l ih =>
    cases k with
    | nil => exact absurd hmap (List.cons_ne_nil _ _)
    | cons b k =>
      obtain ⟨hhead, htail⟩ := List.cons.inj hmap
      have hrest := ih (fun c hc d hd => hinj c (List.mem_cons_of_mem a hc) d (List.mem_cons_of_mem b hd)) htail
      rw [hinj a List.mem_cons_self b List.mem_cons_self hhead, hrest]

theorem Package.display_ne_empty (p : Package) : p.display ≠ "" := by
  rw [ne_eq, ← String.toList_inj, toList_display]
  simp

theorem Library.display_ne_empty (l : Library) : l.display ≠ "" := by
  rw [ne_eq, ← String.toList_inj, toList_display]
  simp

/-! ## Texts -/

/-- What a unified graph of a client is kept under. -/
structure GraphSource where
  packages : List Package
  missing : List Library
  scan : ScanSettings

/-- The text of the settings of a scan tells all of them. -/
theorem ScanSettings.eq_of_render_eq {s s' : ScanSettings} (h : s.toJson.render = s'.toJson.render) : s = s' := by
  have hprinted (s : ScanSettings) : Json.Printed s.toJson := by
    apply Json.Printed.object
    simp only [List.forall_mem_cons]
    exact ⟨.nat _, .nat _, .nat _, .text _, .bool _, by simp⟩
  have hjson := (hprinted s).eq_of_render_eq (hprinted s') h
  simp only [toJson, Json.object, List.map_cons, List.map_nil, Json.obj.injEq, List.cons.injEq, Prod.mk.injEq,
    true_and, and_true, Json.bool.injEq] at hjson
  obtain ⟨hdepth, hobjects, hunwrap, hmode, himports⟩ := hjson
  have hmatch : s.matchMode = s'.matchMode := by
    have hname := s.matchMode.ofName?_name
    rw [Json.eq_of_text_eq hmode, MatchMode.ofName?_name] at hname
    exact (Option.some.inj hname).symm
  cases s
  cases s'
  simp only [ScanSettings.mk.injEq]
  exact ⟨Json.eq_of_nat_eq hdepth, Json.eq_of_nat_eq hobjects, Json.eq_of_nat_eq hunwrap, hmatch, himports⟩

namespace GraphSource

def text (g : GraphSource) : String := unifiedText g.packages g.missing (scanContext g.scan)

def key (client : Package) (g : GraphSource) : Memo.Key :=
  ⟨.unifiedGraph, client, unifiedContext g.packages g.missing (scanContext g.scan)⟩

def IsSame (g g' : GraphSource) : Prop :=
  g.packages = g'.packages ∧ g.missing = g'.missing ∧ scanContext g.scan = scanContext g'.scan

/-- Nothing in the names, versions and paths can be taken for a comma or bar of the text, or for the colon
behind a name. -/
structure IsPlain (g : GraphSource) : Prop where
  packages_bar : ∀ p ∈ g.packages, ¬ '|' ∈ p.display.toList
  packages_comma : ∀ p ∈ g.packages, ¬ ',' ∈ p.display.toList
  packages_colon : ∀ p ∈ g.packages, ¬ ':' ∈ p.name.toList
  missing_comma : ∀ l ∈ g.missing, ¬ ',' ∈ l.display.toList
  missing_colon : ∀ l ∈ g.missing, ¬ ':' ∈ l.package.name.toList

variable {g g' : GraphSource}

/-- The text has two bars: one behind the packages, one behind the missing libraries. -/
theorem toList_text (g : GraphSource) : g.text.toList =
    (",".intercalate (g.packages.map Package.display)).toList ++
      '|' :: ((",".intercalate (g.missing.map Library.display)).toList ++ '|' :: (scanContext g.scan).toList) := by
  simp [text, unifiedText]

/-- The context of a scan is a word and hexadecimal digits. -/
theorem bar_not_mem_scanContext (s : ScanSettings) : ¬ '|' ∈ (scanContext s).toList := by
  rw [scanContext, String.toList_append, List.mem_append, not_or]
  exact ⟨by decide, fun hmem => absurd (isAlphanum_of_mem_shortDigest hmem) (by decide)⟩

/-- No bar stands in the list of packages if none stands in names and versions. -/
theorem IsPlain.bar_not_mem (h : g.IsPlain) :
    ¬ '|' ∈ (",".intercalate (g.packages.map Package.display)).toList :=
  Text.not_mem_intercalate (by decide) (List.forall_mem_map.2 h.packages_bar)

theorem text_eq_of_isSame (h : g.IsSame g') : g.text = g'.text := by
  rw [text, text, h.1, h.2.1, h.2.2]

/-- The bars of the text are its first and its last one, and in each list all commas are separators. -/
theorem isSame_of_text_eq (h : g.IsPlain) (h' : g'.IsPlain) (hmarked : IsMarked (g.missing ++ g'.missing))
    (heq : g.text = g'.text) : g.IsSame g' := by
  have hlist := congrArg String.toList heq
  rw [toList_text, toList_text] at hlist
  -- Paths may have bars, so the second bar is found from the end: a digest has none.
  obtain ⟨hpackages, hrest⟩ := Text.eq_of_append_cons h.bar_not_mem h'.bar_not_mem hlist
  obtain ⟨hmissing, hscan⟩ := Text.eq_of_append_cons_of_not_mem (bar_not_mem_scanContext g.scan)
    (bar_not_mem_scanContext g'.scan) hrest
  refine ⟨?_, ?_, String.toList_inj.1 hscan⟩
  · refine eq_of_listed_eq Package.display_ne_empty h.packages_comma h'.packages_comma (fun p hp q hq => ?_)
      (String.toList_inj.1 hpackages)
    exact Package.eq_of_display_eq (h.packages_colon p hp) (h'.packages_colon q hq)
  · refine eq_of_listed_eq Library.display_ne_empty h.missing_comma h'.missing_comma (fun l hl k hk => ?_)
      (String.toList_inj.1 hmissing)
    exact hmarked.eq_of_display_eq (List.mem_append_left _ hl) (List.mem_append_right _ hk)
      (h.missing_colon l hl) (h'.missing_colon k hk)

/-! ## Keys -/

/-- Under one client keys are equal exactly if the digests of the texts are. -/
theorem key_eq_iff (client : Package) :
    g.key client = g'.key client ↔ shortDigest 16 g.text = shortDigest 16 g'.text := by
  simp [key, unifiedContext, text]

/-- Two packages as one: the second is written into the version of the first. -/
def merged (p q : Package) : Package := ⟨p.name, p.version ++ "," ++ q.display⟩

/-- The display of the merged package is that of both with a comma between them. -/
theorem display_merged (p q : Package) : (merged p q).display = p.display ++ "," ++ q.display := by
  simp [merged, Package.display, String.append_assoc]

/-- A merged package is not told from the two by the text. -/
theorem text_merged (client p q : Package) (rest : List Package) (missing : List Library)
    (scan : ScanSettings) :
    text ⟨client :: merged p q :: rest, missing, scan⟩ = text ⟨client :: p :: q :: rest, missing, scan⟩ := by
  have hlist : ",".intercalate ((client :: merged p q :: rest).map Package.display) =
      ",".intercalate ((client :: p :: q :: rest).map Package.display) := by
    simp only [List.map_cons, display_merged, String.intercalate_cons_cons, String.intercalate_cons_append]
  rw [text, text, unifiedText, unifiedText, hlist]

/-- The lists of packages differ in their lengths. -/
theorem not_isSame_merged (client p q : Package) (rest : List Package) (missing : List Library)
    (scan : ScanSettings) :
    ¬ IsSame ⟨client :: merged p q :: rest, missing, scan⟩ ⟨client :: p :: q :: rest, missing, scan⟩ := by
  intro h
  have hlength := congrArg List.length h.1
  simp at hlength

/-- Plain sources have the same text only if they are the same, and the same key only if they are the same or
their digests collide. But every source with two packages or more besides its client shares its text and its
key with another one of that client. -/
theorem unified_keys_differ (client : Package) :
    (∀ g g' : GraphSource, g.IsPlain → g'.IsPlain → IsMarked (g.missing ++ g'.missing) →
      (g.text = g'.text ↔ g.IsSame g') ∧
      ((shortDigest 16 g.text = shortDigest 16 g'.text → g.text = g'.text) →
        (g.key client = g'.key client ↔ g.IsSame g'))) ∧
    ∀ p q rest missing scan,
      ¬ IsSame ⟨client :: merged p q :: rest, missing, scan⟩ ⟨client :: p :: q :: rest, missing, scan⟩ ∧
      text ⟨client :: merged p q :: rest, missing, scan⟩ = text ⟨client :: p :: q :: rest, missing, scan⟩ ∧
      key client ⟨client :: merged p q :: rest, missing, scan⟩ =
        key client ⟨client :: p :: q :: rest, missing, scan⟩ := by
  refine ⟨fun g g' h h' hmarked => ?_, fun p q rest missing scan => ?_⟩
  · have htext : g.text = g'.text ↔ g.IsSame g' := ⟨isSame_of_text_eq h h' hmarked, text_eq_of_isSame⟩
    refine ⟨htext, fun hdigest => ?_⟩
    rw [key_eq_iff, ← htext]
    exact ⟨hdigest, fun heq => by rw [heq]⟩
  · have htext := text_merged client p q rest missing scan
    exact ⟨not_isSame_merged client p q rest missing scan, htext, (key_eq_iff client).2 (by rw [htext])⟩

theorem shortDigest_scanSettings : shortDigest 16 ScanSettings.default.toJson.render = "0c61401fcd205d42" := by
  decide +kernel

theorem scanContext_default : scanContext ScanSettings.default = "scan-0c61401fcd205d42" := by
  rw [scanContext, shortDigest_scanSettings]
  rfl

/-- The text under default settings, with the digest computed. -/
theorem text_default (packages : List Package) (missing : List Library) :
    text ⟨packages, missing, ScanSettings.default⟩ = unifiedText packages missing "scan-0c61401fcd205d42" :=
  congrArg (unifiedText packages missing) scanContext_default

/-- A library of a package whose version has an epoch, with a bar in its path. -/
def barLibrary : Library := ⟨⟨"lib", "1!2.0"⟩, "a|b.so"⟩

/-- An analysis of a client with that package, in which some libraries are missing. -/
def epochSource (missing : List Library) : GraphSource :=
  ⟨[⟨"app", "1"⟩, barLibrary.package], missing, ScanSettings.default⟩

theorem unified_keys_differ_degraded :
    (epochSource []).IsPlain ∧ (epochSource [barLibrary]).IsPlain ∧ IsMarked [barLibrary] ∧
      (epochSource []).text ≠ (epochSource [barLibrary]).text ∧
      (epochSource []).key ⟨"app", "1"⟩ ≠ (epochSource [barLibrary]).key ⟨"app", "1"⟩ := by
  have hwhole : (epochSource []).IsPlain := by constructor <;> decide
  have hdegraded : (epochSource [barLibrary]).IsPlain := by constructor <;> decide
  have hmarked : IsMarked [barLibrary] := .inr (by decide)
  have hnot : ¬ (epochSource []).IsSame (epochSource [barLibrary]) := fun h => absurd h.2.1 (by decide)
  have hdigest : shortDigest 16 (epochSource []).text ≠ shortDigest 16 (epochSource [barLibrary]).text := by
    rw [epochSource, epochSource, text_default, text_default]
    decide +kernel
  have hdiffer := (unified_keys_differ ⟨"app", "1"⟩).1 _ _ hwhole hdegraded hmarked
  exact ⟨hwhole, hdegraded, hmarked, fun heq => hnot (hdiffer.1.1 heq),
    fun heq => hnot ((hdiffer.2 fun h => absurd h hdigest).1 heq)⟩

/-- One package whose version has the text of another in it has the key of the two. -/
theorem unified_keys_shared :
    ¬ IsSame ⟨[⟨"app", "1"⟩, ⟨"b", "2,c:3"⟩], [], ScanSettings.default⟩
      ⟨[⟨"app", "1"⟩, ⟨"b", "2"⟩, ⟨"c", "3"⟩], [], ScanSettings.default⟩ ∧
    key ⟨"app", "1"⟩ ⟨[⟨"app", "1"⟩, ⟨"b", "2,c:3"⟩], [], ScanSettings.default⟩ =
      key ⟨"app", "1"⟩ ⟨[⟨"app", "1"⟩, ⟨"b", "2"⟩, ⟨"c", "3"⟩], [], ScanSettings.default⟩ :=
  ⟨not_isSame_merged _ ⟨"b", "2"⟩ ⟨"c", "3"⟩ _ _ _,
    (key_eq_iff _).2 (congrArg (shortDigest 16) (text_merged _ ⟨"b", "2"⟩ ⟨"c", "3"⟩ _ _ _))⟩

end GraphSource
end Bridgework
