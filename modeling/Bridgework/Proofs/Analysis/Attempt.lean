import Bridgework.Analysis.Client
import Bridgework.Proofs.Analysis.Stage

/-!
# Native call graphs, one library after another

The stages for native call graphs never end an analysis: each library is tried, and what cannot be had is
recorded. A graph that was had once is kept, so a library that comes again in a list does not fail after it
was found. Which libraries are missing therefore says which attempts failed.

- `Attempt` : a library with what was given for it
- `attempts` : the attempts of an analysis, in order
- `nativeStages_eq` : they are what the stages for native call graphs do
- `Attempt.obtained_eq_of_missing_eq` : the missing libraries determine the graphs
-/

namespace Bridgework

/-- A library, and its native call graph or the reason why there is none. -/
abbrev Attempt : Type := Library × Except Error NativeGraph

namespace Attempt

def graph? (a : Attempt) : Option NativeGraph := a.2.toOption

def failure? (a : Attempt) : Option LibraryFailure :=
  match a.2 with
  | .ok _ => none
  | .error e => some ⟨a.1, e.message⟩

def obtained (tried : List Attempt) : List NativeGraph := tried.filterMap graph?

def failures (tried : List Attempt) : List LibraryFailure := tried.filterMap failure?

def missing (tried : List Attempt) : List Library := (failures tried).map (·.library)

variable {l : Library} {g : NativeGraph} {e : Error} {tried tried' : List Attempt}

theorem obtained_cons_ok : obtained ((l, .ok g) :: tried) = g :: obtained tried := rfl

theorem obtained_cons_error : obtained ((l, .error e) :: tried) = obtained tried := rfl

theorem missing_cons_ok : missing ((l, .ok g) :: tried) = missing tried := rfl

theorem missing_cons_error : missing ((l, .error e) :: tried) = l :: missing tried := rfl

/-- A library is missing exactly if one of the attempts at it has failed. -/
theorem mem_missing : l ∈ missing tried ↔ ∃ e, (l, .error e) ∈ tried := by
  induction tried with
  | nil => simp [missing, failures]
  | cons a tried ih =>
    obtain ⟨m, found⟩ := a
    cases found with
    | ok g => simp [missing_cons_ok, ih]
    | error e' =>
      rw [missing_cons_error, List.mem_cons, ih]
      constructor
      · rintro (rfl | ⟨e, he⟩)
        · exact ⟨e', List.mem_cons_self⟩
        · exact ⟨e, List.mem_cons_of_mem _ he⟩
      · rintro ⟨e, he⟩
        rcases List.mem_cons.1 he with heq | he
        · exact .inl (congrArg Prod.fst heq)
        · exact .inr ⟨e, he⟩

/-- Missing libraries are listed in the order of the attempts. -/
theorem missing_sublist (tried : List Attempt) : (missing tried).Sublist (tried.map Prod.fst) := by
  induction tried with
  | nil => exact .slnil
  | cons a tried ih =>
    obtain ⟨m, found⟩ := a
    cases found with
    | ok g => exact ih.cons m
    | error e => exact ih.cons_cons m

/-! ## Attempts that agree with each other -/

/-- A library that was found does not fail later, and each graph is the one that the library has. -/
structure Fit (value : Library → Except Error NativeGraph) (tried : List Attempt) : Prop where
  steady : tried.Pairwise fun a b => a.1 = b.1 → (∃ g, a.2 = .ok g) → ∃ g, b.2 = .ok g
  value : ∀ a ∈ tried, ∀ g, a.2 = .ok g → value a.1 = .ok g

variable {value : Library → Except Error NativeGraph}

theorem Fit.tail {a : Attempt} (h : Fit value (a :: tried)) : Fit value tried :=
  ⟨(List.pairwise_cons.1 h.steady).2, fun b hb => h.value b (List.mem_cons_of_mem a hb)⟩

/-- A library with a graph does not fail in a later attempt. -/
theorem Fit.not_mem_missing (h : Fit value ((l, .ok g) :: tried)) : l ∉ missing tried := by
  intro hl
  obtain ⟨e, he⟩ := mem_missing.1 hl
  obtain ⟨g', hg'⟩ := (List.pairwise_cons.1 h.steady).1 _ he rfl ⟨g, rfl⟩
  cases hg'

/-- Of two lists of attempts at the same libraries, with the same libraries missing, the same graphs were
had. -/
theorem obtained_eq_of_missing_eq (h : Fit value tried) (h' : Fit value tried')
    (hlibraries : tried.map Prod.fst = tried'.map Prod.fst) (hmissing : missing tried = missing tried') :
    obtained tried = obtained tried' := by
  induction tried generalizing tried' with
  | nil =>
    obtain rfl : tried' = [] := List.map_eq_nil_iff.1 hlibraries.symm
    rfl
  | cons a tried ih =>
    cases tried' with
    | nil => cases hlibraries
    | cons a' tried' =>
      obtain ⟨l, found⟩ := a
      obtain ⟨l', found'⟩ := a'
      obtain ⟨rfl, hrest⟩ := List.cons.inj hlibraries
      cases found with
      | ok g =>
        cases found' with
        | ok g' =>
          have hg : value l = .ok g := h.value _ List.mem_cons_self g rfl
          have hg' : value l = .ok g' := h'.value _ List.mem_cons_self g' rfl
          obtain rfl : g = g' := Except.ok.inj (hg.symm.trans hg')
          rw [obtained_cons_ok, obtained_cons_ok, ih h.tail h'.tail hrest hmissing]
        | error e' =>
          -- The library failed in the one list only, so the other would have to fail later.
          rw [missing_cons_ok, missing_cons_error] at hmissing
          exact absurd (hmissing ▸ List.mem_cons_self) h.not_mem_missing
      | error e =>
        cases found' with
        | ok g' =>
          rw [missing_cons_ok, missing_cons_error] at hmissing
          exact absurd (hmissing ▸ List.mem_cons_self) h'.not_mem_missing
        | error e' =>
          rw [missing_cons_error, missing_cons_error] at hmissing
          rw [obtained_cons_error, obtained_cons_error]
          exact ih h.tail h'.tail hrest (List.cons.inj hmissing).2

end Attempt

/-! ## The attempts of an analysis -/

section

variable {σ : Type} (c : Collaborators σ) (settings : Settings)

-- Each library is tried in the session that the one before leaves, whether it was found or not.
def attempts : List (InstalledPackage × Library) → Session σ → List Attempt × Session σ
  | [], s => ([], s)
  | x :: rest, s =>
    let found := nativeStage c settings x.1 x.2 s
    let others := attempts rest found.2
    ((x.2, found.1) :: others.1, others.2)

/-- Whatever the attempts give, the stages for native call graphs go on. -/
theorem nativeStages_eq (libraries : List (InstalledPackage × Library)) (s : Session σ) :
    nativeStages c settings libraries s =
      (.ok (Attempt.obtained (attempts c settings libraries s).1,
        Attempt.failures (attempts c settings libraries s).1), (attempts c settings libraries s).2) := by
  induction libraries generalizing s with
  | nil => rfl
  | cons x rest ih =>
    obtain ⟨p, l⟩ := x
    have hcaught : (nativeStage c settings p l).caught s =
        (.ok (nativeStage c settings p l s).1, (nativeStage c settings p l s).2) := rfl
    rw [nativeStages, Stage.bind_of_ok hcaught, Stage.bind_of_ok (ih _), attempts]
    cases hfound : (nativeStage c settings p l s).1 with
    | ok g => rfl
    | error e => rfl

/-- There is one attempt for each library, in their order. -/
theorem map_fst_attempts (libraries : List (InstalledPackage × Library)) (s : Session σ) :
    (attempts c settings libraries s).1.map Prod.fst = libraries.map Prod.snd := by
  induction libraries generalizing s with
  | nil => rfl
  | cons x rest ih => exact congrArg (x.2 :: ·) (ih _)

variable {c settings}

/-- What holds of every stage holds of all attempts. -/
theorem attempts_spec {I : Session σ → Prop} {Q : Library → NativeGraph → Prop}
    {libraries : List (InstalledPackage × Library)}
    (hstage : ∀ x ∈ libraries, Stage.Spec I (nativeStage c settings x.1 x.2) (Q x.2)) {s : Session σ}
    (hs : I s) :
    I (attempts c settings libraries s).2 ∧
      ∀ a ∈ (attempts c settings libraries s).1, ∀ g, a.2 = .ok g → Q a.1 g := by
  induction libraries generalizing s with
  | nil => exact ⟨hs, fun a ha => absurd ha List.not_mem_nil⟩
  | cons x rest ih =>
    obtain ⟨hfound, hgraph⟩ := hstage x List.mem_cons_self s hs
    obtain ⟨hend, hrest⟩ := ih (fun y hy => hstage y (List.mem_cons_of_mem x hy)) hfound
    refine ⟨hend, fun a ha g hg => ?_⟩
    rcases List.mem_cons.1 ha with rfl | ha
    · exact hgraph g hg
    · exact hrest a ha g hg

/-- The graph of a library can be read from the cache. -/
def Session.HasGraph (s : Session σ) (l : Library) : Prop :=
  ∃ text g, s.kept ⟨.nativeGraph, l.package, l.path⟩ = some text ∧ nativeCodec.parse text = .ok g

/-- A call of the cache keeps the graphs that can be read from it. -/
theorem Session.HasGraph.call {α : Type} {k : Memo.Key} {codec : Codec α}
    {compute : σ → Except Error α × σ} {s s' : Session σ} {x : Except Error α} {l : Library}
    (h : s.HasGraph l) (hcall : Stage.Call k codec compute s x s') : s'.HasGraph l := by
  obtain ⟨text, g, hkept, hg⟩ := h
  exact ⟨text, g, hcall.kept_of_kept hkept, hg⟩

/-- A graph that is kept is given, and a graph that was given is kept: so no library fails once its graph
was had. -/
theorem attempts_steady {libraries : List (InstalledPackage × Library)} {s : Session σ} (hs : s.Idle) :
    ((attempts c settings libraries s).1.Pairwise fun a b =>
      a.1 = b.1 → (∃ g, a.2 = .ok g) → ∃ g, b.2 = .ok g) ∧
    ∀ a ∈ (attempts c settings libraries s).1, s.HasGraph a.1 → ∃ g, a.2 = .ok g := by
  induction libraries generalizing s with
  | nil => exact ⟨.nil, fun a ha => absurd ha List.not_mem_nil⟩
  | cons x rest ih =>
    obtain ⟨hcall, hidle⟩ := Stage.call_cached ⟨.nativeGraph, x.2.package, x.2.path⟩ nativeCodec
      (c.nativeGraph x.1 x.2 settings.batch.nativeTimeout) hs
    obtain ⟨hsteady, hhas⟩ := ih hidle
    constructor
    -- A graph that was given is kept after the call, and later attempts find it.
    · refine List.pairwise_cons.2 ⟨fun b hb hlibrary hgiven => ?_, hsteady⟩
      obtain ⟨g, hg⟩ := hgiven
      obtain ⟨text, hkept, hparse⟩ := hcall.exists_kept hg
      exact hhas b hb ⟨text, g, hlibrary ▸ hkept, hparse⟩
    · intro a ha hgraph
      rcases List.mem_cons.1 ha with rfl | ha
      · obtain ⟨text, g, hkept, hg⟩ := hgraph
        exact ⟨g, (hcall.eq_parse hkept).trans hg⟩
      · exact hhas a ha (hgraph.call hcall)

end

end Bridgework
