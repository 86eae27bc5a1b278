import Bridgework.Proofs.Scan.Complete
import Bridgework.Proofs.Scan.Turns

/-!
# Names of objects

An object can be shown under many names, one for each attribute that refers to it. It is reported under the least
name under which it was shown from the first turn on that shows it within the depth bound. Names that were shown
before, in turns at the depth bound, are lost. Within the walk from one module there are none before, since
depths increase; but an earlier walk can lose a name that is less than all those of a later one.

- `Scan.Canonical` : the least of some names, by parts and then by text
- `Scan.Turn.Shows`, `Scan.ShownIn` : the names under which turns show an object
- `Scan.since` : the turns from the first one on that shows an object within the depth bound
- `Scan.Walk.Named` : the names in a walk are the least ones
- `Scan.reportedAs_iff` : the name under which an object is reported
- `Scan.names_least_since_found` : names of a report, and when they are the least of all
- `Scan.lesser_name_lost` : a lesser name that was shown too early
-/

namespace Bridgework
namespace Scan

/-! ## Least names -/

instance instTransCmpCompareNames : Std.TransCmp compareNames :=
  inferInstanceAs (Std.TransCmp (compareLex (compareOn fun s => (Text.dottedParts s).length) compare))

theorem eq_of_compareNames {a b : String} (h : compareNames a b = .eq) : a = b := by
  unfold compareNames at h
  exact Std.LawfulEqOrd.eq_of_compare (Ordering.then_eq_eq.1 h).2

/-- Is one of the names, and comes before all others. -/
def Canonical (P : String → Prop) (name : String) : Prop :=
  P name ∧ ∀ n, P n → (compareNames name n).isLE

theorem canonical_congr {P Q : String → Prop} (h : ∀ n, P n ↔ Q n) {name : String} :
    Canonical P name ↔ Canonical Q name := by
  rw [show P = Q from funext fun n => propext (h n)]

/-- There is one canonical name. -/
theorem Canonical.unique {P : String → Prop} {a b : String} (ha : Canonical P a) (hb : Canonical P b) : a = b :=
  eq_of_compareNames (Std.OrientedCmp.isLE_antisymm (ha.2 b hb.1) (hb.2 a ha.1))

theorem canonical_eq (text : String) : Canonical (· = text) text := by
  refine ⟨rfl, ?_⟩
  rintro n rfl
  exact Std.ReflCmp.isLE_rfl

/-- With one more name to choose from, the lesser of two stays. -/
theorem Canonical.offer {P : String → Prop} {f : Found} (h : Canonical P f.name) (text : String) :
    Canonical (fun n => P n ∨ n = text) (f.offer text).name := by
  unfold Found.offer
  split
  -- The text comes first, and is taken.
  next hlt =>
    have hlt : compareNames text f.name = .lt := by simpa using hlt
    have hle : (compareNames text f.name).isLE := by rw [hlt]; rfl
    refine ⟨.inr rfl, ?_⟩
    rintro n (hn | rfl)
    · exact Std.TransCmp.isLE_trans hle (h.2 n hn)
    · exact Std.ReflCmp.isLE_rfl
  -- The name stays, and the text comes no earlier.
  next hge =>
    refine ⟨.inl h.1, ?_⟩
    rintro n (hn | rfl)
    · exact h.2 n hn
    · cases hcmp : compareNames f.name n with
      | lt => rfl
      | eq => rfl
      | gt =>
        have hlt : compareNames n f.name = .lt := Std.OrientedCmp.gt_iff_lt.1 hcmp
        exact absurd (by simp [hlt]) hge

/-! ## What turns show -/

/-- The turn shows the object under the name, which is that of the object whose turn it is with an attribute. -/
def Turn.Shows (g : Ground) (t : Turn) (o : ObjectId) (name : String) : Prop :=
  ∃ key, g.HasAttribute t.owner.id key o ∧ name = t.owner.name ++ "." ++ key

/-- One of the turns shows the object under the name. -/
def ShownIn (g : Ground) (ts : List Turn) (o : ObjectId) (name : String) : Prop :=
  ∃ t ∈ ts, t.Shows g o name

/-- Whether the turn shows the object within the depth bound. -/
def Turn.finds (g : Ground) (o : ObjectId) (t : Turn) : Bool :=
  t.owner.depth < g.settings.maxDepth && (Walk.attributesOf g t.owner.id).any (·.2 == o)

/-- The turns from the first one on that shows the object within the depth bound. -/
def since (g : Ground) (o : ObjectId) (ts : List Turn) : List Turn := ts.dropWhile fun t => !t.finds g o

/-- A turn finds an object exactly if it shows it within the depth bound. -/
theorem Turn.finds_iff {g : Ground} {o : ObjectId} {t : Turn} :
    t.finds g o = true ↔ t.owner.depth < g.settings.maxDepth ∧ ∃ name, t.Shows g o name := by
  unfold Turn.finds Turn.Shows
  rw [Bool.and_eq_true, decide_eq_true_eq, List.any_eq_true]
  refine and_congr_right fun _ => ?_
  constructor
  · rintro ⟨⟨key, x⟩, hmem, hx⟩
    obtain rfl : x = o := by simpa using hx
    exact ⟨_, key, Ground.mem_attributesOf_iff.1 hmem, rfl⟩
  · rintro ⟨_, key, hkey, _⟩
    exact ⟨(key, o), Ground.mem_attributesOf_iff.2 hkey, by simp⟩

section Since

variable {g : Ground} {o : ObjectId} {ts : List Turn} {t : Turn} {name : String}

/-- The turns are those before and those since; and the first of those since shows the object within the depth
bound, while none of those before does. -/
theorem exists_since (g : Ground) (o : ObjectId) (ts : List Turn) :
    ∃ early, ts = early ++ since g o ts ∧ (∀ t ∈ early, t.finds g o = false) ∧
      ∀ t rest, since g o ts = t :: rest → t.finds g o = true := by
  refine ⟨ts.takeWhile fun t => !t.finds g o, List.takeWhile_append_dropWhile.symm, ?_, ?_⟩
  · intro t ht
    simpa using List.all_eq_true.1 List.all_takeWhile t ht
  · intro t rest hcons
    have hhead := List.head?_dropWhile_not (fun t => !t.finds g o) ts
    unfold since at hcons
    rw [hcons] at hhead
    simpa using hhead

/-- An object is shown from the first turn on that finds it. -/
theorem exists_shownIn_since_iff : (∃ name, ShownIn g (since g o ts) o name) ↔ since g o ts ≠ [] := by
  constructor
  · rintro ⟨name, t, ht, _⟩ hnil
    rw [hnil] at ht
    cases ht
  · intro hne
    obtain ⟨early, _, _, hfirst⟩ := exists_since g o ts
    cases hsince : since g o ts with
    | nil => exact absurd hsince hne
    | cons t rest =>
      rcases (Turn.finds_iff.1 (hfirst t rest hsince)).2 with ⟨name, hshows⟩
      exact ⟨name, t, List.mem_cons_self, hshows⟩

/-- The names of one more turn count if the object was shown within the depth bound before, or is now. -/
theorem shownIn_since_snoc :
    ShownIn g (since g o (ts ++ [t])) o name ↔ ShownIn g (since g o ts) o name ∨
      ((∃ name, ShownIn g (since g o ts) o name) ∨ t.owner.depth < g.settings.maxDepth) ∧ t.Shows g o name := by
  have hsnoc : since g o (ts ++ [t]) =
      if (since g o ts).isEmpty then since g o [t] else since g o ts ++ [t] := List.dropWhile_append
  rw [exists_shownIn_since_iff, hsnoc]
  cases hsince : since g o ts with
  | nil =>
    -- Nothing has counted so far, and this turn counts if it shows the object within the depth bound.
    have hone : since g o [t] = if t.finds g o then [t] else [] := by
      unfold since
      cases hfinds : t.finds g o with
      | true => simp [hfinds]
      | false => simp [hfinds]
    have hnone : ¬ ShownIn g [] o name := by
      rintro ⟨_, hmem, _⟩
      cases hmem
    rw [List.isEmpty_nil, if_pos rfl, hone, or_iff_right hnone, or_iff_right fun hne => hne rfl]
    constructor
    · intro hshown
      split at hshown
      next hfinds =>
        rcases hshown with ⟨_, hmem, hshows⟩
        obtain rfl := List.mem_singleton.1 hmem
        exact ⟨(Turn.finds_iff.1 hfinds).1, hshows⟩
      next => exact absurd hshown hnone
    · rintro ⟨hdepth, hshows⟩
      rw [if_pos (Turn.finds_iff.2 ⟨hdepth, name, hshows⟩)]
      exact ⟨t, List.mem_singleton_self t, hshows⟩
  | cons first rest =>
    have hsome : first :: rest ≠ [] := List.cons_ne_nil first rest
    rw [List.isEmpty_cons, if_neg Bool.false_ne_true]
    constructor
    · rintro ⟨t', hmem, hshows⟩
      rcases List.mem_append.1 hmem with hmem | hmem
      · exact .inl ⟨t', hmem, hshows⟩
      · obtain rfl := List.mem_singleton.1 hmem
        exact .inr ⟨.inl hsome, hshows⟩
    · rintro (⟨t', hmem, hshows⟩ | ⟨_, hshows⟩)
      · exact ⟨t', List.mem_append_left _ hmem, hshows⟩
      · exact ⟨t, List.mem_append_right _ (List.mem_singleton_self t), hshows⟩

end Since

/-! ## Names in a walk -/

namespace Walk

variable {g : Ground} {origin key text : String} {owner : Waiting} {w : Walk} {queue : List Waiting}
  {id o : ObjectId} {state : Walk × List Waiting} {P Q : ObjectId → String → Prop}

/-- What was found has the least of its names, and what enters native code and was not found has none. -/
structure Named (g : Ground) (P : ObjectId → String → Prop) (w : Walk) : Prop where
  recorded : w.Recorded g
  met : ∀ p ∈ w.found, p.1 ∈ w.seen
  named : ∀ p ∈ w.found, Canonical (P p.1) p.2.name
  unnamed : ∀ o e, g.native? o = some e → (∀ p ∈ w.found, p.1 ≠ o) → ∀ n, ¬ P o n

theorem Named.congr (h : w.Named g P) (hPQ : ∀ o n, P o n ↔ Q o n) : w.Named g Q := by
  rw [show Q = P from funext fun o => funext fun n => propext (hPQ o n).symm]
  exact h

/-- The names with one more for an object. It counts if the object has a name already or can be found now. -/
def withName (P : ObjectId → String → Prop) (within : Prop) (id : ObjectId) (text : String) (o : ObjectId)
    (n : String) : Prop :=
  P o n ∨ o = id ∧ ((∃ n, P o n) ∨ within) ∧ n = text

theorem Named.start (g : Ground) : Walk.start.Named g fun o => ShownIn g (since g o []) o where
  recorded := by
    intro x hx
    cases hx
  met := by
    intro p hp
    cases hp
  named := by
    intro p hp
    cases hp
  unnamed := by
    rintro o e _ _ n ⟨t, ht, _⟩
    cases ht

/-- An offer, for an object that was found or can not be found now. -/
theorem Named.offer {within : Prop} (h : w.Named g P)
    (hnone : ∀ e, g.native? id = some e → (∀ p ∈ w.found, p.1 ≠ id) → ¬ within) :
    (w.offer id text).Named g (withName P within id text) where
  recorded := h.recorded.offer
  met := by
    intro p hp
    rcases mem_found_offer hp with ⟨q, hq, hid, _⟩
    rw [hid]
    exact h.met q hq
  named := by
    intro p hp
    rcases List.mem_map.1 hp with ⟨q, hq, rfl⟩
    have hleast : Canonical (P q.1) q.2.name := h.named q hq
    -- For the object that is offered the text is one more name; all others keep theirs.
    split
    next hid =>
      refine (canonical_congr fun n => ?_).1 (hleast.offer text)
      exact or_congr_right ⟨fun hn => ⟨hid, .inl ⟨_, hleast.1⟩, hn⟩, fun hn => hn.2.2⟩
    next hid =>
      refine (canonical_congr fun n => ?_).1 hleast
      exact (or_iff_left fun hn => hid hn.1).symm
  unnamed := by
    intro o e he hnotfound n hn
    have hold : ∀ p ∈ w.found, p.1 ≠ o := by
      intro q hq
      obtain ⟨p, hp, hid, _⟩ : ∃ p ∈ (w.offer id text).found, p.1 = q.1 ∧ p.2.entry = q.2.entry :=
        exists_mem_found_offer hq
      rw [← hid]
      exact hnotfound p hp
    -- An object that was not found has no name before, and none is counted for it now.
    rcases hn with hn | ⟨rfl, ⟨n', hn'⟩ | hwithin, _⟩
    · exact h.unnamed o e he hold n hn
    · exact h.unnamed o e he hold n' hn'
    · exact hnone e he hold hwithin

/-- Meeting an object that does not enter native code leaves the names as they are. -/
theorem Named.meet (h : w.Named g P) (hid : g.native? id = none) : (w.meet id).Named g P :=
  ⟨h.recorded.meet hid, fun p hp => List.mem_cons_of_mem id (h.met p hp), h.named, h.unnamed⟩

/-- A visit offers a name, which is taken if it is the first or comes before the one that the object has. -/
theorem Named.visit (h : w.Named g P) (hvisit : Visit g origin owner w queue key id state)
    (hroom : state.1.exhausted = false) :
    state.1.Named g (withName P (owner.depth < g.settings.maxDepth) id (owner.name ++ "." ++ key)) := by
  have hrecorded : state.1.Recorded g := h.recorded.visit hvisit
  cases hvisit with
  | halted hw =>
    rw [hw] at hroom
    cases hroom
  | passed _ hpassed =>
    refine h.offer fun e he hnotfound hdepth => ?_
    rcases hpassed with hdeep | hseen
    · exact absurd hdepth (Nat.not_lt.2 hdeep)
    · -- What was met and enters native code was found.
      rcases h.recorded id hseen e he with ⟨p, hp, hid, _⟩
      exact hnotfound p hp hid
  | full _ _ _ => cases hroom
  | unknown _ _ _ hshape =>
    have hnative : g.native? id = none := by
      rw [Option.eq_none_iff_forall_ne_some]
      intro e he
      rcases Ground.exists_shape_of_native he with ⟨shape, hshape', _⟩
      rw [hshape] at hshape'
      cases hshape'
    refine Named.meet (h.offer fun e he => ?_) hnative
    rw [hnative] at he
    cases he
  | outside _ hid => exact h.offer fun e he => absurd (Ground.allows_of_native he) hid
  | fresh _ hdepth hnew _ _ =>
    -- The object was not met, so it was not found, and the offer before changes nothing.
    have hother : ∀ p ∈ (w.offer id (owner.name ++ "." ++ key)).found, p ∈ w.found ∧ p.1 ≠ id := by
      intro p hp
      rcases List.mem_map.1 hp with ⟨q, hq, rfl⟩
      have hne : q.1 ≠ id := fun hid => hnew (hid ▸ h.met q hq)
      rw [if_neg hne]
      exact ⟨hq, hne⟩
    refine ⟨hrecorded, ?_, ?_, ?_⟩
    · intro p hp
      rcases mem_found_examine.1 hp with hold | ⟨e, _, rfl⟩
      · exact List.mem_cons_of_mem id (h.met p (hother p hold).1)
      · exact List.mem_cons_self
    · intro p hp
      rcases mem_found_examine.1 hp with hold | ⟨e, he, rfl⟩
      · refine (canonical_congr fun n => ?_).1 (h.named p (hother p hold).1)
        exact (or_iff_left fun hn => (hother p hold).2 hn.1).symm
      · have hnone : ∀ n, ¬ P id n := h.unnamed id e he fun p hp hid => hnew (hid ▸ h.met p hp)
        refine (canonical_congr fun n => ?_).1 (canonical_eq (owner.name ++ "." ++ key))
        exact ⟨fun hn => .inr ⟨rfl, .inr hdepth, hn⟩, fun hn => (hn.resolve_left (hnone n)).2.2⟩
    · intro o e he hnotfound n hn
      rcases hn with hn | ⟨rfl, _⟩
      · refine h.unnamed o e he (fun q hq hid => ?_) n hn
        obtain ⟨p, hp, hpid, _⟩ : ∃ p ∈ (w.offer id (owner.name ++ "." ++ key)).found, p.1 = q.1 ∧
            p.2.entry = q.2.entry := exists_mem_found_offer hq
        exact hnotfound p (mem_found_examine.2 (.inl hp)) (hpid.trans hid)
      · exact hnotfound _ (mem_found_examine.2 (.inr ⟨e, he, rfl⟩)) rfl

/-- There is room before a visit if there is room after it. -/
theorem Visit.room (h : Visit g origin owner w queue key id state) (hroom : state.1.exhausted = false) :
    w.exhausted = false := by
  cases h with
  | halted _ => exact hroom
  | passed hw _ => exact hw
  | full hw _ _ => exact hw
  | unknown hw _ _ _ => exact hw
  | outside hw _ => exact hw
  | fresh hw _ _ _ _ => exact hw

/-- The names with those of some attributes of an object. -/
def withNames (P : ObjectId → String → Prop) (within : Prop) (owner : Waiting) (past : List (String × ObjectId))
    (o : ObjectId) (n : String) : Prop :=
  P o n ∨ ((∃ n, P o n) ∨ within) ∧ ∃ key, (key, o) ∈ past ∧ n = owner.name ++ "." ++ key

/-- The names of the attributes so far do not change which names count. -/
theorem withName_withNames {within : Prop} {past : List (String × ObjectId)} {n : String} :
    withName (withNames P within owner past) within id (owner.name ++ "." ++ key) o n ↔
      withNames P within owner (past ++ [(key, id)]) o n := by
  -- Names that were counted before do not change whether the object counts.
  have hcounts : (∃ n, withNames P within owner past o n) ∨ within ↔ (∃ n, P o n) ∨ within := by
    constructor
    · rintro (⟨n, hn | ⟨hcount, _⟩⟩ | hwithin)
      · exact .inl ⟨n, hn⟩
      · exact hcount
      · exact .inr hwithin
    · rintro (⟨n, hn⟩ | hwithin)
      · exact .inl ⟨n, .inl hn⟩
      · exact .inr hwithin
  unfold withName
  rw [hcounts]
  unfold withNames
  constructor
  · rintro ((hn | ⟨hcount, key', hmem, hn⟩) | ⟨rfl, hcount, hn⟩)
    · exact .inl hn
    · exact .inr ⟨hcount, key', List.mem_append_left _ hmem, hn⟩
    · exact .inr ⟨hcount, key, List.mem_append_right _ (List.mem_singleton_self _), hn⟩
  · rintro (hn | ⟨hcount, key', hmem, hn⟩)
    · exact .inl (.inl hn)
    · rcases List.mem_append.1 hmem with hmem | hmem
      · exact .inl (.inr ⟨hcount, key', hmem, hn⟩)
      · obtain ⟨rfl, rfl⟩ := Prod.mk.inj (List.mem_singleton.1 hmem)
        exact .inr ⟨rfl, hcount, hn⟩

/-- After a turn, names take the attributes of the object into account. -/
theorem Named.turn (h : w.exhausted = false → w.Named g P)
    (hroom : (turn g origin owner (w, [])).1.exhausted = false) :
    (turn g origin owner (w, [])).1.Named g
      (withNames P (owner.depth < g.settings.maxDepth) owner (attributesOf g owner.id)) := by
  refine turn_invariant (I := fun past state => state.1.exhausted = false →
    state.1.Named g (withNames P (owner.depth < g.settings.maxDepth) owner past)) ?_ ?_ hroom
  · intro hw
    refine (h hw).congr fun o n => (or_iff_left ?_).symm
    rintro ⟨_, key, hmem, _⟩
    cases hmem
  · intro past w queue key id _ hbefore state hvisit hroom
    have hnamed := (hbefore (hvisit.room hroom)).visit hvisit hroom
    exact hnamed.congr fun o n => withName_withNames

end Walk

/-- With room left, the names in the walk are the least of those that count. -/
theorem named_enterAll {g : Ground} {entries : List String}
    (hroom : (enterAll g entries).walk.exhausted = false) :
    (enterAll g entries).walk.Named g fun o => ShownIn g (since g o (turns g entries)) o := by
  refine turns_invariant (I := fun past w => w.exhausted = false →
    w.Named g fun o => ShownIn g (since g o past) o) entries (fun _ => .start g) ?_ ?_ hroom
  · intro past w m name path hentry _ h hw
    exact (h hw).meet hentry.native?_eq_none
  · intro past w origin owner h hroom
    refine (Walk.Named.turn h hroom).congr fun o n => ?_
    rw [shownIn_since_snoc]
    refine or_congr_right (and_congr_right fun _ => exists_congr fun key => ?_)
    rw [Ground.mem_attributesOf_iff]

/-! ## Main result -/

/-- The scan reports the object under the name. -/
def ReportedAs (g : Ground) (entries : List String) (o : ObjectId) (name : String) : Prop :=
  ∃ p ∈ (enterAll g entries).walk.found, p.1 = o ∧ p.2.name = name

variable {g : Ground} {r : Resolver} {package : Package} {entries : List String} {o : ObjectId} {name : String}

theorem ReportedAs.native (h : ReportedAs g entries o name) : ∃ e, g.native? o = some e := by
  rcases h with ⟨p, hp, rfl, _⟩
  exact ⟨p.2.entry, (sound_enterAll g entries).1.entries p hp⟩

/-- The scan reports an object under the least of the names that it was shown under since it was found. -/
theorem reportedAs_iff (hroom : (enterAll g entries).walk.exhausted = false) {e : NativeEntry}
    (he : g.native? o = some e) :
    ReportedAs g entries o name ↔ Canonical (ShownIn g (since g o (turns g entries)) o) name := by
  have hnamed := named_enterAll hroom
  constructor
  · rintro ⟨p, hp, rfl, rfl⟩
    exact hnamed.named p hp
  · intro hname
    by_cases hfound : ∃ p ∈ (enterAll g entries).walk.found, p.1 = o
    · rcases hfound with ⟨p, hp, rfl⟩
      exact ⟨p, hp, rfl, (hnamed.named p hp).unique hname⟩
    · have hnone : ∀ p ∈ (enterAll g entries).walk.found, p.1 ≠ o := fun p hp hid => hfound ⟨p, hp, hid⟩
      exact absurd hname.1 (hnamed.unnamed o e he hnone name)

/-- A turn that shows the object within the depth bound is not before those that count. -/
theorem mem_since {t : Turn} {n : String} (ht : t ∈ turns g entries) (hshows : t.Shows g o n)
    (hdepth : t.owner.depth < g.settings.maxDepth) : t ∈ since g o (turns g entries) := by
  obtain ⟨early, hsplit, hearly, _⟩ := exists_since g o (turns g entries)
  rw [hsplit] at ht
  rcases List.mem_append.1 ht with ht | ht
  · have hfinds : t.finds g o = true := Turn.finds_iff.2 ⟨hdepth, n, hshows⟩
    rw [hearly t ht] at hfinds
    cases hfinds
  · exact ht

/-- The name of an object is the least of all exactly if it is not greater than those that are shown at the
depth bound. -/
theorem ReportedAs.canonical_iff (hroom : (enterAll g entries).walk.exhausted = false)
    (h : ReportedAs g entries o name) :
    Canonical (ShownIn g (turns g entries) o) name ↔
      ∀ t ∈ turns g entries, g.settings.maxDepth ≤ t.owner.depth → ∀ n, t.Shows g o n →
        (compareNames name n).isLE := by
  obtain ⟨e, he⟩ := h.native
  have hleast := (reportedAs_iff hroom he).1 h
  constructor
  · intro hall t ht _ n hshows
    exact hall.2 n ⟨t, ht, hshows⟩
  · intro hdeep
    refine ⟨?_, ?_⟩
    · rcases hleast.1 with ⟨t, ht, hshows⟩
      exact ⟨t, (List.dropWhile_sublist _).subset ht, hshows⟩
    -- Turns that are shallow enough are counted since the object was found; deeper ones are those
    -- of the hypothesis.
    · rintro n ⟨t, ht, hshows⟩
      rcases Nat.lt_or_ge t.owner.depth g.settings.maxDepth with hdepth | hdepth
      · exact hleast.2 n ⟨t, mem_since ht hshows hdepth, hshows⟩
      · exact hdeep t ht hdepth n hshows

/-- In the walk from a single module no name is shown too early. -/
theorem ReportedAs.canonical_of_single (hroom : (enterAll g entries).walk.exhausted = false)
    (hone : ∀ a ∈ entries, ∀ b ∈ entries, a = b) (h : ReportedAs g entries o name) :
    Canonical (ShownIn g (turns g entries) o) name := by
  obtain ⟨e, he⟩ := h.native
  have hleast := (reportedAs_iff hroom he).1 h
  obtain ⟨early, hsplit, _, hfirst⟩ := exists_since g o (turns g entries)
  refine (h.canonical_iff hroom).2 fun t ht hdepth n hshows => hleast.2 n ⟨t, ?_, hshows⟩
  rw [hsplit] at ht
  rcases List.mem_append.1 ht with ht | ht
  · -- A turn before all those that count would lie deeper than the first of them.
    cases hsince : since g o (turns g entries) with
    | nil => exact absurd hsince (exists_shownIn_since_iff.1 ⟨name, hleast.1⟩)
    | cons first rest =>
      have hbound := (Turn.finds_iff.1 (hfirst first rest hsince)).1
      have hsorted := pairwise_depth_turns (g := g) hone
      rw [hsplit, hsince] at hsorted
      have hle := (List.pairwise_append.1 hsorted).2.2 t ht first List.mem_cons_self
      omega
  · exact ht

/-- With room left, an object that enters native code is reported under the least name that is shown from the
first turn on that shows it within the depth bound, and bridges have these names. The name is the least of all
that are shown exactly if no lesser one is shown at the depth bound, as it is in the walk from a single module. -/
theorem names_least_since_found (g : Ground) (r : Resolver) (package : Package) (entries : List String)
    (hroom : (enterAll g entries).walk.exhausted = false) :
    (∀ o e, g.native? o = some e → ∀ name,
      ReportedAs g entries o name ↔ Canonical (ShownIn g (since g o (turns g entries)) o) name) ∧
    (∀ b ∈ (recover g r package entries).bridges, IsImportBridge g entries b ∨
      ∃ o e library, ReportedAs g entries o b.callable ∧ g.native? o = some e ∧ Leads r e library b.symbol ∧
        b.library = Path.normalize library.path) ∧
    (∀ o e library symbol name, ReportedAs g entries o name → g.native? o = some e →
      Leads r e library symbol → ⟨name, symbol, Path.normalize library.path⟩ ∈
        (recover g r package entries).bridges) ∧
    (∀ o name, ReportedAs g entries o name → (Canonical (ShownIn g (turns g entries) o) name ↔
      ∀ t ∈ turns g entries, g.settings.maxDepth ≤ t.owner.depth → ∀ n, t.Shows g o n →
        (compareNames name n).isLE)) ∧
    ((∀ a ∈ entries, ∀ b ∈ entries, a = b) → ∀ o name, ReportedAs g entries o name →
      Canonical (ShownIn g (turns g entries) o) name) := by
  obtain ⟨hsound, hpaths⟩ := sound_enterAll g entries
  -- A record is told by the object, its entry into native code, and its name.
  refine ⟨fun o e he name => reportedAs_iff hroom he, ?_, ?_, fun o name h => h.canonical_iff hroom,
    fun hone o name h => h.canonical_of_single hroom hone⟩
  · intro b hb
    rcases mem_bridges_recover_iff.1 hb with ⟨p, hp, library, symbol, hleads, rfl⟩ | ⟨hon, name, path, hmem,
      hshared, rfl⟩
    -- The bridge of an object that was found.
    · exact .inr ⟨p.1, p.2.entry, library, ⟨p, hp, rfl, rfl⟩, hsound.entries p hp, hleads, rfl⟩
    -- The bridge of a module that is itself a shared object.
    · obtain ⟨hname, m, hentry⟩ := hpaths name path hmem
      exact .inl ⟨hon, name, hname, m, path, hentry, hshared, rfl, rfl, rfl⟩
  · rintro o e library symbol _ ⟨p, hp, rfl, rfl⟩ he hleads
    have hentry : p.2.entry = e := Option.some.inj ((hsound.entries p hp).symm.trans he)
    exact mem_bridges_recover_iff.2 (.inl ⟨p, hp, library, symbol, hentry ▸ hleads, rfl⟩)

/-! ## A name that is lost -/

/-- A package with a class `core` and a module `sub`, which have the same native function `f`. -/
def twoNames : Snapshot :=
  ((((((Snapshot.empty.addModule "pkg" 1 (.module (some "/site/pkg/__init__.py"))).addModule "pkg.sub" 2
    (.module (some "/site/pkg/sub.py"))).insert 3 .interpretedClass).insert 4
    (.native .builtinFunction [4096] none)).setAttribute 1 "core" 3).setAttribute 3 "f" 4).setAttribute 2 "f" 4

def twoNamesGround : Ground := ⟨twoNames.model, "/site", ⟨1, 10, 8, .exact, false⟩⟩

theorem reportedAs_twoNames : ReportedAs twoNamesGround ["pkg", "pkg.sub"] 4 "pkg.sub.f" := by
  have hfound : (enterAll twoNamesGround ["pkg", "pkg.sub"]).walk.found =
      [(4, ⟨⟨.builtinFunction, [4096], none⟩, "pkg.sub.f", "pkg.sub"⟩)] := by decide +kernel
  unfold ReportedAs
  rw [hfound]
  exact ⟨_, List.mem_singleton_self _, rfl, rfl⟩

theorem names_least_since_found_twoNames :
    (enterAll twoNamesGround ["pkg", "pkg.sub"]).walk.exhausted = false ∧
      Canonical (ShownIn twoNamesGround (since twoNamesGround 4 (turns twoNamesGround ["pkg", "pkg.sub"])) 4)
        "pkg.sub.f" := by
  have hroom : (enterAll twoNamesGround ["pkg", "pkg.sub"]).walk.exhausted = false := by decide +kernel
  obtain ⟨hnames, _⟩ :=
    names_least_since_found twoNamesGround nestedResolver ⟨"pkg", "1.0"⟩ ["pkg", "pkg.sub"] hroom
  exact ⟨hroom, (hnames 4 ⟨.builtinFunction, [4096], none⟩ rfl _).1 reportedAs_twoNames⟩

/-- The class has its turn at the depth bound and shows `pkg.core.f`. The function is found later, from the
module, and is reported as `pkg.sub.f`, which comes after. -/
theorem lesser_name_lost :
    (enterAll twoNamesGround ["pkg", "pkg.sub"]).walk.exhausted = false ∧
      (recover twoNamesGround nestedResolver ⟨"pkg", "1.0"⟩ ["pkg", "pkg.sub"]).bridges =
        [⟨"pkg.sub.f", "add_numbers", "pkg/_native.so"⟩] ∧
      ReportedAs twoNamesGround ["pkg", "pkg.sub"] 4 "pkg.sub.f" ∧
      ShownIn twoNamesGround (turns twoNamesGround ["pkg", "pkg.sub"]) 4 "pkg.core.f" ∧
      ¬ Canonical (ShownIn twoNamesGround (turns twoNamesGround ["pkg", "pkg.sub"]) 4) "pkg.sub.f" := by
  -- The shorter name is shown in a turn at the greatest depth, before the object is found.
  have hshown : ShownIn twoNamesGround (turns twoNamesGround ["pkg", "pkg.sub"]) 4 "pkg.core.f" := by
    have hturn : ((turns twoNamesGround ["pkg", "pkg.sub"]).any fun t =>
        t.owner.id == 3 && t.owner.name == "pkg.core") = true := by decide +kernel
    rcases List.any_eq_true.1 hturn with ⟨t, ht, hcore⟩
    obtain ⟨hid, hname⟩ : t.owner.id = 3 ∧ t.owner.name = "pkg.core" := by simpa using hcore
    refine ⟨t, ht, "f", ?_, ?_⟩
    · rw [hid]
      exact ⟨_, rfl, List.mem_singleton_self _⟩
    · rw [hname]
      rfl
  have hgreater : (compareNames "pkg.sub.f" "pkg.core.f").isLE = false := by decide +kernel
  refine ⟨by decide +kernel, by decide +kernel, reportedAs_twoNames, hshown, ?_⟩
  intro hall
  have hle := hall.2 "pkg.core.f" hshown
  rw [hgreater] at hle
  cases hle

end Scan
end Bridgework
