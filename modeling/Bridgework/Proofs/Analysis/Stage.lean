import Bridgework.Analysis.Stage
import Bridgework.Proofs.Memo.Call
import Mathlib.Data.List.Forall2

/-!
# What stages do to the cache

A stage is described by an invariant of sessions and by what holds of its result. Results that go through
the cache are the only ones that change it, and a call can do three things to it: find a text, add the text
of what was computed, or leave no trace of a failure.

- `Stage.Spec` : an invariant is kept, and results are as described
- `Stage.Gives` : an invariant is kept, and the result is a given one
- `Stage.Call` : what a call of the cache can do
- `Stage.call_cached` : there is nothing else
- `Session.Keeps`, `Session.Holds` : a cache in which nothing but certain texts is kept, or in which a text is
-/

namespace Bridgework

variable {σ α β : Type}

/-! ## Composition -/

namespace Stage

theorem fst_pure (a : α) (s : Session σ) : ((pure a : Stage σ α) s).1 = .ok a := rfl

theorem snd_pure (a : α) (s : Session σ) : ((pure a : Stage σ α) s).2 = s := rfl

/-- A stage that gives something hands it to the next. -/
theorem bind_of_ok {x : Stage σ α} {f : α → Stage σ β} {s s' : Session σ} {a : α} (h : x s = (.ok a, s')) :
    (x >>= f) s = f a s' := by
  have hbind : (x >>= f) s = Stage.bind x f s := rfl
  rw [hbind, Stage.bind, h]

/-- A stage that fails ends the whole. -/
theorem bind_of_error {x : Stage σ α} {f : α → Stage σ β} {s s' : Session σ} {e : Error}
    (h : x s = (.error e, s')) : (x >>= f) s = (.error e, s') := by
  have hbind : (x >>= f) s = Stage.bind x f s := rfl
  rw [hbind, Stage.bind, h]

/-- Two stages give a result exactly if the first gives something from which the second gives the result. -/
theorem fst_bind_eq_ok_iff {x : Stage σ α} {f : α → Stage σ β} {s : Session σ} {b : β} :
    ((x >>= f) s).1 = .ok b ↔ ∃ a, (x s).1 = .ok a ∧ (f a (x s).2).1 = .ok b := by
  match hrun : x s with
  | (.ok a, s') => simp [bind_of_ok hrun]
  | (.error e, s') => simp [bind_of_error hrun]

/-- Whatever holds after the first stage, and after the second where there is one, holds after both. -/
theorem snd_bind {x : Stage σ α} {f : α → Stage σ β} {s : Session σ} {P : Session σ → Prop}
    (hx : P (x s).2) (hf : ∀ a, (x s).1 = .ok a → P (f a (x s).2).2) : P ((x >>= f) s).2 := by
  match hrun : x s with
  | (.ok a, s') =>
    rw [hrun] at hf
    rw [bind_of_ok hrun]
    exact hf a rfl
  | (.error e, s') =>
    rw [hrun] at hx
    rw [bind_of_error hrun]
    exact hx

/-- From a session with the invariant a stage leads to one with the invariant, and its result is as
described. -/
def Spec (I : Session σ → Prop) (x : Stage σ α) (Q : α → Prop) : Prop :=
  ∀ s, I s → I (x s).2 ∧ ∀ a, (x s).1 = .ok a → Q a

namespace Spec

variable {I : Session σ → Prop}

theorem pure {Q : α → Prop} {a : α} (ha : Q a) : Spec I (Stage.pure a) Q := by
  intro s hs
  refine ⟨hs, fun b hb => ?_⟩
  obtain rfl : a = b := Except.ok.inj hb
  exact ha

/-- Descriptions of two stages are put together. -/
theorem bind {x : Stage σ α} {f : α → Stage σ β} {Q : α → Prop} {R : β → Prop} (hx : Spec I x Q)
    (hf : ∀ a, Q a → Spec I (f a) R) : Spec I (x >>= f) R := by
  intro s hs
  obtain ⟨hinv, hresult⟩ := hx s hs
  refine ⟨snd_bind hinv fun a ha => (hf a (hresult a ha) _ hinv).1, fun b hb => ?_⟩
  obtain ⟨a, ha, hab⟩ := fst_bind_eq_ok_iff.1 hb
  exact (hf a (hresult a ha) _ hinv).2 b hab

/-- One description for each member of a list. -/
theorem each {f : α → Stage σ β} {Q : α → β → Prop} {l : List α} (hf : ∀ a ∈ l, Spec I (f a) (Q a)) :
    Spec I (Stage.each f l) (List.Forall₂ Q l) := by
  induction l with
  | nil => exact pure .nil
  | cons a l ih =>
    refine bind (hf a List.mem_cons_self) fun b hb => ?_
    refine bind (ih fun a' ha' => hf a' (List.mem_cons_of_mem a ha')) fun bs hbs => ?_
    exact pure (.cons hb hbs)

end Spec

/-- From every session with the invariant the stage gives the one result, and leads to a session with the
invariant. -/
def Gives (I : Session σ → Prop) (x : Stage σ α) (r : Except Error α) : Prop :=
  ∀ s, I s → (x s).1 = r ∧ I (x s).2

namespace Gives

variable {I : Session σ → Prop}

theorem pure (a : α) : Gives I (Stage.pure a) (.ok a) := fun _ hs => ⟨rfl, hs⟩

/-- Results of two stages are put together. -/
theorem bind {x : Stage σ α} {f : α → Stage σ β} {r : Except Error α} {g : α → Except Error β}
    (hx : Gives I x r) (hf : ∀ a, r = .ok a → Gives I (f a) (g a)) : Gives I (x >>= f) (r >>= g) := by
  intro s hs
  rcases hx s hs with ⟨hresult, hinv⟩
  match hrun : x s with
  | (.ok a, s') =>
    rw [hrun] at hresult hinv
    subst hresult
    rw [bind_of_ok hrun]
    exact hf a rfl s' hinv
  | (.error e, s') =>
    rw [hrun] at hresult hinv
    subst hresult
    rw [bind_of_error hrun]
    exact ⟨rfl, hinv⟩

/-- Stages that each give one result give the list of them, up to the first failure. -/
theorem each {f : α → Stage σ β} {g : α → Except Error β} {l : List α}
    (hf : ∀ a ∈ l, Gives I (f a) (g a)) : Gives I (Stage.each f l) (l.mapM g) := by
  induction l with
  | nil => exact pure []
  | cons a l ih =>
    rw [List.mapM_cons]
    refine bind (hf a List.mem_cons_self) fun b _ => ?_
    exact bind (ih fun a' ha' => hf a' (List.mem_cons_of_mem a ha')) fun bs _ => pure (b :: bs)

end Gives

end Stage

/-! ## Calls of the cache -/

/-- What is read of a result that was written. -/
def Codec.readBack (c : Codec α) (a : α) : Except Error α := c.parse (c.render a)

/-- What is given of a reply that goes through the cache: what is read of it, or a failure that names the
key. -/
def Codec.settled (codec : Codec α) (k : Memo.Key) : Except Error α → Except Error α
  | .ok a => codec.readBack a
  | .error e => .error (.computationFailed k.display e.message)

/-- A reply that goes through the cache gives something exactly if it is one and can be read back. -/
theorem Codec.settled_eq_ok_iff {codec : Codec α} {k : Memo.Key} {reply : Except Error α} {b : α} :
    codec.settled k reply = .ok b ↔ ∃ a, reply = .ok a ∧ codec.readBack a = .ok b := by
  cases reply <;> simp [settled]

namespace Session

/-- The text that is kept under a key. -/
def kept (s : Session σ) (k : Memo.Key) : Option String := s.store.table.lookup? k

/-- No call of the cache is under way. -/
def Idle (s : Session σ) : Prop := s.store.Idle 0

end Session

namespace Stage

variable {k j : Memo.Key} {c : Codec α} {compute : σ → Except Error α × σ} {s s' : Session σ}
  {x : Except Error α} {text : String}

/-- The ways in which a call for a key can end. -/
inductive Call (k : Memo.Key) (c : Codec α) (compute : σ → Except Error α × σ) (s : Session σ) :
    Except Error α → Session σ → Prop where
  | hit {text : String} {s' : Session σ} (hrow : s.kept k = some text)
      (hsame : ∀ j, s'.kept j = s.kept j) : Call k c compute s (c.parse text) s'
  | computed {a : α} {s' : Session σ} (hmiss : s.kept k = none) (hgiven : (compute s.world).1 = .ok a)
      (hkept : s'.kept k = some (c.render a)) (hother : ∀ j, j ≠ k → s'.kept j = s.kept j) :
      Call k c compute s (c.readBack a) s'
  | failed {e : Error} {s' : Session σ} (hmiss : s.kept k = none)
      (hgiven : (compute s.world).1 = .error e) (hsame : ∀ j, s'.kept j = s.kept j) :
      Call k c compute s (.error (.computationFailed k.display e.message)) s'

/-- What a call of the store can do, told for texts, is what it can do for results. -/
theorem call_of_answered {r : Option Memo.Outcome × Memo.Store × σ}
    (h : Memo.Store.Answered s.store k (fun w => (c.computed (compute w).1, (compute w).2)) s.world r) :
    Call k c compute s (c.result k r.1) ⟨r.2.1, r.2.2⟩ := by
  cases h with
  | hit hrow htable => exact .hit hrow fun j => congrArg (Memo.Table.lookup? · j) htable
  | computed hmiss hkept hother =>
    cases hgiven : (compute s.world).1 with
    | ok a =>
      simp only [hgiven] at hkept ⊢
      exact .computed hmiss hgiven hkept hother
    | error e =>
      simp only [hgiven] at hkept ⊢
      refine .failed hmiss hgiven fun j => ?_
      by_cases hj : j = k
      · subst hj
        exact hkept.trans hmiss.symm
      · exact hother j hj

/-- A call while nothing else is under way ends in one of the ways, and nothing is under way after it. -/
theorem call_cached (k : Memo.Key) (c : Codec α) (compute : σ → Except Error α × σ) (h : s.Idle) :
    Call k c compute s (cached k c compute s).1 (cached k c compute s).2 ∧
      (cached k c compute s).2.Idle := by
  obtain ⟨hanswer, hidle⟩ := Memo.Store.answered_getOrCompute h k
    (fun w => (c.computed (compute w).1, (compute w).2)) s.world
  exact ⟨call_of_answered hanswer, hidle⟩

namespace Call

/-- A text that is kept stays as it is. -/
theorem kept_of_kept (h : Call k c compute s x s') (hrow : s.kept j = some text) :
    s'.kept j = some text := by
  cases h with
  | hit _ hsame => rw [hsame, hrow]
  | failed _ _ hsame => rw [hsame, hrow]
  | computed hmiss _ _ hother =>
    have hj : j ≠ k := by
      rintro rfl
      rw [hmiss] at hrow
      cases hrow
    rw [hother j hj, hrow]

/-- A text that was not kept before is that of what was computed. -/
theorem kept_cases (h : Call k c compute s x s') (hrow : s'.kept j = some text) :
    s.kept j = some text ∨ j = k ∧ ∃ a, (compute s.world).1 = .ok a ∧ text = c.render a := by
  cases h with
  | hit _ hsame => exact .inl (hsame j ▸ hrow)
  | failed _ _ hsame => exact .inl (hsame j ▸ hrow)
  | @computed a _ _ hgiven hkept hother =>
    by_cases hj : j = k
    · subst hj
      rw [hkept] at hrow
      exact .inr ⟨rfl, a, hgiven, (Option.some.inj hrow).symm⟩
    · exact .inl (hother j hj ▸ hrow)

/-- Where a text is kept, a call gives what is read from it. -/
theorem eq_parse (h : Call k c compute s x s') (hrow : s.kept k = some text) : x = c.parse text := by
  cases h with
  | hit hrow' _ =>
    rw [hrow'] at hrow
    rw [Option.some.inj hrow]
  | computed hmiss _ _ _ =>
    rw [hmiss] at hrow
    cases hrow
  | failed hmiss _ _ =>
    rw [hmiss] at hrow
    cases hrow

/-- A result is read from the text that is kept from then on. -/
theorem exists_kept {a : α} (h : Call k c compute s x s') (hx : x = .ok a) :
    ∃ text, s'.kept k = some text ∧ c.parse text = .ok a := by
  cases h with
  | @hit text _ hrow hsame => exact ⟨text, by rw [hsame, hrow], hx⟩
  | @computed b _ hmiss hgiven hkept hother => exact ⟨c.render b, hkept, hx⟩
  | failed _ _ _ => cases hx

/-- Where only the reply can be kept, a call gives the reply as it goes through the cache. -/
theorem eq_settled {reply : Except Error α} (h : Call k c compute s x s') (hreply : (compute s.world).1 = reply)
    (hrow : ∀ text, s.kept k = some text → ∃ a, reply = .ok a ∧ text = c.render a) :
    x = c.settled k reply := by
  cases h with
  | hit hkept _ =>
    rcases hrow _ hkept with ⟨a, rfl, rfl⟩
    rfl
  | computed _ hok _ _ =>
    obtain rfl := hok.symm.trans hreply
    rfl
  | failed _ herror _ =>
    obtain rfl := herror.symm.trans hreply
    rfl

end Call
end Stage

/-! ## What is kept -/

/-- Nothing is under way, and every text that is kept may be kept under its key. -/
structure Session.Keeps (P : Memo.Key → String → Prop) (s : Session σ) : Prop where
  idle : s.Idle
  kept : ∀ k text, s.kept k = some text → P k text

theorem Session.Keeps.start {P : Memo.Key → String → Prop} (lease : Nat) (now : Int) (world : σ) :
    Session.Keeps P ⟨.start lease now, world⟩ := by
  refine ⟨.start lease now, fun k text hrow => ?_⟩
  have hnone : Session.kept (⟨.start lease now, world⟩ : Session σ) k = none := rfl
  rw [hnone] at hrow
  cases hrow

/-- Nothing is under way, and a text is kept under a key. -/
structure Session.Holds (k : Memo.Key) (text : String) (s : Session σ) : Prop where
  idle : s.Idle
  kept : s.kept k = some text

namespace Stage

variable {P : Memo.Key → String → Prop} {k : Memo.Key} {codec : Codec α} {compute : σ → Except Error α × σ}

/-- A call keeps nothing but what is given to it, and what it gives is read from a text that may be kept. -/
theorem Spec.cached (hgiven : ∀ w a, (compute w).1 = .ok a → P k (codec.render a)) :
    Spec (Session.Keeps P) (Stage.cached k codec compute) fun a => ∃ text, P k text ∧ codec.parse text = .ok a := by
  intro s hs
  obtain ⟨hcall, hidle⟩ := Stage.call_cached k codec compute hs.idle
  have hkeeps : (Stage.cached k codec compute s).2.Keeps P := by
    refine ⟨hidle, fun j text hrow => ?_⟩
    rcases hcall.kept_cases hrow with hrow | ⟨rfl, a, ha, rfl⟩
    · exact hs.kept j text hrow
    · exact hgiven s.world a ha
  refine ⟨hkeeps, fun a ha => ?_⟩
  obtain ⟨text, hrow, hparse⟩ := hcall.exists_kept ha
  exact ⟨text, hkeeps.kept k text hrow, hparse⟩

/-- A call gives what the reply settles to if nothing but the text of the reply may be kept. -/
theorem Gives.cached {reply : Except Error α} (hreply : ∀ w, (compute w).1 = reply)
    (hkey : ∀ text, P k text ↔ ∃ a, reply = .ok a ∧ text = codec.render a) :
    Gives (Session.Keeps P) (Stage.cached k codec compute) (codec.settled k reply) := by
  intro s hs
  have hspec := Spec.cached (fun w a ha => (hkey _).2 ⟨a, (hreply w).symm.trans ha, rfl⟩) s hs
  obtain ⟨hcall, _⟩ := Stage.call_cached k codec compute hs.idle
  exact ⟨hcall.eq_settled (hreply s.world) fun text hrow => (hkey text).1 (hs.kept k text hrow), hspec.1⟩

/-- A text that is held stays, whatever is called. -/
theorem Spec.cached_of_holds {j : Memo.Key} {text : String} :
    Spec (Session.Holds j text) (Stage.cached k codec compute) fun _ => True := by
  intro s hs
  obtain ⟨hcall, hidle⟩ := Stage.call_cached k codec compute hs.idle
  exact ⟨⟨hidle, hcall.kept_of_kept hs.kept⟩, fun _ _ => trivial⟩

/-- A call for a key with a text gives what is read of the text. -/
theorem Gives.cached_of_holds {text : String} :
    Gives (Session.Holds k text) (Stage.cached k codec compute) (codec.parse text) := by
  intro s hs
  obtain ⟨hcall, hidle⟩ := Stage.call_cached k codec compute hs.idle
  exact ⟨hcall.eq_parse hs.kept, hidle, hcall.kept_of_kept hs.kept⟩

end Stage
end Bridgework
