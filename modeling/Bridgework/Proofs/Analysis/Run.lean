import Bridgework.Proofs.Analysis.Context
import Mathlib.Data.List.Nodup

/-!
# The texts that analyses digest

An analysis keeps bridge reports under a digest of the settings of its scan, and its unified graph under a
digest of a text that lists its packages and the libraries that are missing. If none of these digests collide,
equal contexts are those of equal texts; and if the names are plain, equal texts are those of the same packages
and the same missing libraries.

- `AnalysisRun` : what is analysed, and under which settings
- `AnalysisRun.Digests` : the texts of which an analysis may take a digest
- `DigestsDiffer` : digests of different texts are different
- `PlainNames` : nothing in a name can be taken for a separator
- `PlainNames.same_of_context_eq` : what a context tells of an analysis
-/

namespace Bridgework

/-- An analysis: what is analysed, and under which settings. -/
structure AnalysisRun where
  job : Job
  settings : Settings

namespace AnalysisRun

def ids (r : AnalysisRun) : List Package := r.job.packages.map (·.package)

def libraries (r : AnalysisRun) : List Library := r.job.libraries.map Prod.snd

/-- What the unified graph is kept under, if some libraries are missing. -/
def source (r : AnalysisRun) (missing : List Library) : GraphSource := ⟨r.ids, missing, r.settings.scan⟩

/-- The context of the unified graph, if some libraries are missing. -/
def context (r : AnalysisRun) (missing : List Library) : String :=
  unifiedContext r.ids missing (scanContext r.settings.scan)

/-- The texts of which an analysis takes digests: one for its scan, and one for its unified graph, which depends
on the libraries that turn out to be missing. -/
inductive Digests (r : AnalysisRun) : String → Prop where
  | scan : r.Digests r.settings.scan.toJson.render
  | unified {missing : List Library} (h : missing.Sublist r.libraries) : r.Digests (r.source missing).text

/-- The libraries of an analysis are those of its packages, one after another. -/
theorem libraries_eq_flatMap (r : AnalysisRun) : r.libraries = r.job.packages.flatMap (·.libraries) := by
  rw [libraries, Job.libraries, List.map_flatMap]
  simp only [List.map_map, Function.comp_def, List.map_id']

variable {r : AnalysisRun} {text : String}

/-- Without libraries there are two texts of which digests are taken. -/
theorem Digests.mem_of_libraries_nil (hlibraries : r.libraries = []) (h : r.Digests text) :
    text ∈ [r.settings.scan.toJson.render, (r.source []).text] := by
  cases h with
  | scan => exact List.mem_cons_self
  | unified hmissing =>
    rw [hlibraries, List.sublist_nil] at hmissing
    simp [hmissing]

/-- A library is there or it is missing. -/
theorem Digests.mem_of_libraries_singleton {l : Library} (hlibraries : r.libraries = [l]) (h : r.Digests text) :
    text ∈ [r.settings.scan.toJson.render, (r.source []).text, (r.source [l]).text] := by
  cases h with
  | scan => exact List.mem_cons_self
  | unified hmissing =>
    rw [hlibraries, List.sublist_singleton] at hmissing
    rcases hmissing with hmissing | hmissing <;> simp [hmissing]

end AnalysisRun

/-! ## Digests -/

/-- Of the texts that come up in some analyses, no two have the same digest. -/
def DigestsDiffer (runs : List AnalysisRun) : Prop :=
  ∀ r ∈ runs, ∀ r' ∈ runs, ∀ text text', r.Digests text → r'.Digests text' →
    shortDigest 16 text = shortDigest 16 text' → text = text'

section

variable {runs : List AnalysisRun} {r r' : AnalysisRun} {missing missing' : List Library}

/-- It is enough to look at a list of all texts that come up. -/
theorem DigestsDiffer.of_nodup {texts : List String} (htexts : ∀ r ∈ runs, ∀ text, r.Digests text → text ∈ texts)
    (hnodup : (texts.map (shortDigest 16)).Nodup) : DigestsDiffer runs := by
  intro r hr r' hr' text text' h h' heq
  exact List.inj_on_of_nodup_map hnodup (htexts r hr text h) (htexts r' hr' text' h') heq

theorem DigestsDiffer.mono {runs' : List AnalysisRun} (h : DigestsDiffer runs) (hsub : runs' ⊆ runs) :
    DigestsDiffer runs' := fun r hr r' hr' => h r (hsub hr) r' (hsub hr')

/-- Settings of scans that have the same context are the same, since their digests differ otherwise. -/
theorem DigestsDiffer.scan_eq (h : DigestsDiffer runs) (hr : r ∈ runs) (hr' : r' ∈ runs)
    (heq : scanContext r.settings.scan = scanContext r'.settings.scan) :
    r.settings.scan = r'.settings.scan := by
  have hdigest : shortDigest 16 r.settings.scan.toJson.render = shortDigest 16 r'.settings.scan.toJson.render := by
    simpa [scanContext] using heq
  exact ScanSettings.eq_of_render_eq (h r hr r' hr' _ _ .scan .scan hdigest)

/-- Unified graphs under the same context have the same text. -/
theorem DigestsDiffer.text_eq (h : DigestsDiffer runs) (hr : r ∈ runs) (hr' : r' ∈ runs)
    (hmissing : missing.Sublist r.libraries) (hmissing' : missing'.Sublist r'.libraries)
    (heq : r.context missing = r'.context missing') : (r.source missing).text = (r'.source missing').text := by
  have hdigest : shortDigest 16 (r.source missing).text = shortDigest 16 (r'.source missing').text := by
    simpa [AnalysisRun.context, unifiedContext, AnalysisRun.source, GraphSource.text] using heq
  exact h r hr r' hr' _ _ (.unified hmissing) (.unified hmissing') hdigest

theorem AnalysisRun.context_eq_of_text_eq (h : (r.source missing).text = (r'.source missing').text) :
    r.context missing = r'.context missing' :=
  congrArg (fun text => "xlcg-" ++ shortDigest 16 text) h

/-! ## Names -/

/-- In the names, versions and paths of the analyses there is nothing that can be taken for a separator. -/
structure PlainNames (runs : List AnalysisRun) : Prop where
  plain : ∀ r ∈ runs, (r.source r.libraries).IsPlain
  marked : IsMarked (runs.flatMap AnalysisRun.libraries)

theorem IsMarked.mono {libraries libraries' : List Library} (h : IsMarked libraries)
    (hsub : libraries' ⊆ libraries) : IsMarked libraries' := by
  rcases h with hversions | hpaths
  · exact .inl fun l hl => hversions l (hsub hl)
  · exact .inr fun l hl => hpaths l (hsub hl)

/-- In an analysis with plain names every source of a unified graph is plain. -/
theorem PlainNames.isPlain (h : PlainNames runs) (hr : r ∈ runs) (hmissing : missing.Sublist r.libraries) :
    (r.source missing).IsPlain := by
  have hplain := h.plain r hr
  exact { packages_bar := hplain.packages_bar
          packages_comma := hplain.packages_comma
          packages_colon := hplain.packages_colon
          missing_comma := fun l hl => hplain.missing_comma l (hmissing.subset hl)
          missing_colon := fun l hl => hplain.missing_colon l (hmissing.subset hl) }

/-- Contexts of plain names are equal only if the packages, the missing libraries and the settings are. -/
theorem PlainNames.same_of_context_eq (h : PlainNames runs) (hdigests : DigestsDiffer runs) (hr : r ∈ runs)
    (hr' : r' ∈ runs) (hmissing : missing.Sublist r.libraries) (hmissing' : missing'.Sublist r'.libraries)
    (heq : r.context missing = r'.context missing') :
    r.ids = r'.ids ∧ missing = missing' ∧ r.settings.scan = r'.settings.scan := by
  have hlibraries {r : AnalysisRun} (hr : r ∈ runs) : r.libraries ⊆ runs.flatMap AnalysisRun.libraries :=
    fun l hl => List.mem_flatMap.2 ⟨r, hr, hl⟩
  have hmarked : IsMarked (missing ++ missing') := h.marked.mono <| List.append_subset.2
    ⟨fun l hl => hlibraries hr (hmissing.subset hl), fun l hl => hlibraries hr' (hmissing'.subset hl)⟩
  have hsame : (r.source missing).IsSame (r'.source missing') :=
    GraphSource.isSame_of_text_eq (h.isPlain hr hmissing) (h.isPlain hr' hmissing') hmarked
      (hdigests.text_eq hr hr' hmissing hmissing' heq)
  exact ⟨hsame.1, hsame.2.1, hdigests.scan_eq hr hr' hsame.2.2⟩

end

end Bridgework
