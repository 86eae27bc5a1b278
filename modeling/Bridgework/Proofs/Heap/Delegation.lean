import Bridgework.Heap.Callable

/-!
# Delegation

An object that delegates calls is judged by the first object behind it that does not, if that one is within the
bound. The search for it keeps the objects that it has met, but the verdict does not depend on them: an object
that is met twice delegates in a circle, and a circle is left at no bound.

- `NativeEntry.IsOf` : the entry that some declared addresses make
- `ObjectModel.Delegates`, `ObjectModel.DelegatesIn` : one step and several steps of delegation
- `ObjectModel.Judges` : the verdict on an object that does not delegate
- `ObjectModel.JudgedWithin` : the verdict on any object, within a bound
- `ObjectModel.classify_of_delegates` : an object that delegates is judged as the next one
- `ObjectModel.classify_exact` : verdicts are those of delegation
-/

namespace Bridgework

/-! ## Declared addresses -/

/-- The addresses are the declared ones without zero, each once and in increasing order. -/
structure NativeEntry.IsOf (e : NativeEntry) (kind : NativeKind) (entries : List UInt64)
    (declaredName : Option String) : Prop where
  kind : e.kind = kind
  declaredName : e.declaredName = declaredName
  increasing : Increasing e.addresses
  mem_iff : ∀ a, a ∈ e.addresses ↔ a ∈ entries ∧ a ≠ 0

/-- Addresses that are declared are kept without zero, sorted and once each. -/
theorem NativeEntry.isOf_of (kind : NativeKind) (entries : List UInt64) (declaredName : Option String) :
    (NativeEntry.of kind entries declaredName).IsOf kind entries declaredName where
  kind := rfl
  declaredName := rfl
  increasing := (SortedSet.ofList (entries.filter (· != 0))).increasing
  mem_iff a := by
    calc
      a ∈ (NativeEntry.of kind entries declaredName).addresses ↔ a ∈ entries.filter (· != 0) :=
        SortedSet.mem_ofList
      _ ↔ a ∈ entries ∧ a ≠ 0 := by rw [List.mem_filter, bne_iff_ne]

/-- Increasing lists with the same members are equal, so there is one such entry. -/
theorem NativeEntry.IsOf.eq {e : NativeEntry} {kind : NativeKind} {entries : List UInt64}
    {declaredName : Option String} (h : e.IsOf kind entries declaredName) :
    e = NativeEntry.of kind entries declaredName := by
  have hof := NativeEntry.isOf_of kind entries declaredName
  have hsets : (⟨e.addresses, h.increasing⟩ : SortedSet UInt64) =
      ⟨(NativeEntry.of kind entries declaredName).addresses, hof.increasing⟩ :=
    SortedSet.ext fun a => (h.mem_iff a).trans (hof.mem_iff a).symm
  have haddresses : e.addresses = (NativeEntry.of kind entries declaredName).addresses :=
    congrArg SortedSet.toList hsets
  cases e
  cases h.kind
  cases h.declaredName
  cases haddresses
  rfl

namespace ObjectModel

variable {m : ObjectModel} {x y z : ObjectId} {shape : Shape} {n k bound : Nat} {met : List ObjectId}
  {v : Verdict}

/-! ## Chains of delegation -/

/-- A wrapper delegates to what it wraps, and an object that is called through its class to the class. -/
inductive Delegates (m : ObjectModel) (x y : ObjectId) : Prop where
  | wrapper {kind : WrapperKind} (hx : m.shape x = .ok (.wrapper kind y)) : Delegates m x y
  | callableInstance (hx : m.shape x = .ok (.callableInstance y)) : Delegates m x y

/-- Following delegation so many times leads from one object to another. -/
inductive DelegatesIn (m : ObjectModel) : Nat → ObjectId → ObjectId → Prop where
  | refl (x : ObjectId) : DelegatesIn m 0 x x
  | head {n : Nat} {x y z : ObjectId} (h : m.Delegates x y) (rest : DelegatesIn m n y z) :
      DelegatesIn m (n + 1) x z

/-- An object delegates exactly if its shape has a delegate. -/
theorem delegates_iff : m.Delegates x y ↔ ∃ shape, m.shape x = .ok shape ∧ shape.delegate? = some y := by
  constructor
  · intro h
    cases h with
    | wrapper hx => exact ⟨_, hx, rfl⟩
    | callableInstance hx => exact ⟨_, hx, rfl⟩
  · rintro ⟨shape, hx, hnext⟩
    cases shape with
    | wrapper kind inner =>
      obtain rfl := Option.some.inj hnext
      exact .wrapper hx
    | callableInstance c =>
      obtain rfl := Option.some.inj hnext
      exact .callableInstance hx
    | _ => cases hnext

/-- One more step of delegation can be followed at the end. -/
theorem DelegatesIn.snoc (h : m.DelegatesIn n x y) (hz : m.Delegates y z) : m.DelegatesIn (n + 1) x z := by
  induction h with
  | refl x => exact .head hz (.refl z)
  | head h _ ih => exact .head h (ih hz)

/-- An object either is unknown, or delegates, or does not. -/
theorem shape_cases (m : ObjectModel) (x : ObjectId) :
    (∃ err, m.shape x = .error err) ∨ (∃ y, m.Delegates x y) ∨
      ∃ shape, m.shape x = .ok shape ∧ shape.delegate? = none := by
  cases hshape : m.shape x with
  | error err => exact .inl ⟨err, rfl⟩
  | ok shape =>
    cases hnext : shape.delegate? with
    | some y => exact .inr (.inl ⟨y, delegates_iff.2 ⟨shape, hshape, hnext⟩⟩)
    | none => exact .inr (.inr ⟨shape, rfl, hnext⟩)

/-- Who comes back to an object passes the next one and comes back to it too. -/
theorem DelegatesIn.next_cycle (h : m.DelegatesIn (n + 1) x x) :
    ∃ y, m.Delegates x y ∧ m.DelegatesIn (n + 1) y y := by
  cases h with
  | head hxy hyx => exact ⟨_, hxy, hyx.snoc hxy⟩

/-! ## The search -/

theorem classifyFrom_of_error {err : Error} (h : m.shape x = .error err) :
    m.classifyFrom bound met x = .notCallable := by
  rw [classifyFrom, h]

/-- What does not delegate is judged by its shape, whatever was met. -/
theorem classifyFrom_of_rest (hx : m.shape x = .ok shape) (hrest : shape.delegate? = none) :
    m.classifyFrom bound met x = m.ownVerdict shape := by
  rw [classifyFrom, hx]
  dsimp only
  rw [hrest]

/-- Nothing is followed where the bound is zero. -/
theorem classifyFrom_zero (h : m.Delegates x y) : m.classifyFrom 0 met x = .notCallable := by
  rcases delegates_iff.1 h with ⟨shape, hshape, hnext⟩
  rw [classifyFrom, hshape]
  dsimp only
  rw [hnext]
  exact ite_self _

/-- One step of delegation, which ends in a cycle if the object was met. -/
theorem classifyFrom_succ (h : m.Delegates x y) :
    m.classifyFrom (n + 1) met x = if x ∈ met then .notCallable else m.classifyFrom n (x :: met) y := by
  rcases delegates_iff.1 h with ⟨shape, hshape, hnext⟩
  rw [classifyFrom, hshape]
  dsimp only
  rw [hnext]
  simp only [List.contains_iff_mem]

/-- No bound is enough to leave a circle. -/
theorem classifyFrom_of_cycle (h : m.DelegatesIn (k + 1) x x) : m.classifyFrom bound met x = .notCallable := by
  induction bound generalizing x met with
  | zero =>
    rcases h.next_cycle with ⟨y, hxy, _⟩
    exact classifyFrom_zero hxy
  | succ n ih =>
    rcases h.next_cycle with ⟨y, hxy, hcycle⟩
    rw [classifyFrom_succ hxy]
    split
    next => rfl
    next => exact ih hcycle

/-- What was met on the way does not change the verdict. -/
theorem classifyFrom_eq_classify (hmet : ∀ z ∈ met, ∃ k, m.DelegatesIn (k + 1) z x) :
    m.classifyFrom bound met x = m.classify x bound := by
  unfold classify
  -- Induction on the bound, for all objects that may have been met: both searches go on to the next object,
  -- one of them with less behind it.
  induction bound generalizing x met with
  | zero =>
    rcases shape_cases m x with ⟨err, herror⟩ | ⟨y, hxy⟩ | ⟨shape, hx, hrest⟩
    · rw [classifyFrom_of_error herror, classifyFrom_of_error herror]
    · rw [classifyFrom_zero hxy, classifyFrom_zero hxy]
    · rw [classifyFrom_of_rest hx hrest, classifyFrom_of_rest hx hrest]
  | succ n ih =>
    rcases shape_cases m x with ⟨err, herror⟩ | ⟨y, hxy⟩ | ⟨shape, hx, hrest⟩
    · rw [classifyFrom_of_error herror, classifyFrom_of_error herror]
    · by_cases hx : x ∈ met
      · rcases hmet x hx with ⟨k, hcycle⟩
        rw [classifyFrom_of_cycle hcycle, classifyFrom_of_cycle hcycle]
      · have hstep : m.DelegatesIn 1 x y := .head hxy (.refl y)
        have hlong : ∀ z ∈ x :: met, ∃ k, m.DelegatesIn (k + 1) z y := by
          intro z hz
          rcases List.mem_cons.1 hz with rfl | hz
          · exact ⟨0, hstep⟩
          · rcases hmet z hz with ⟨k, hzx⟩
            exact ⟨k + 1, hzx.snoc hxy⟩
        have hshort : ∀ z ∈ [x], ∃ k, m.DelegatesIn (k + 1) z y := by
          intro z hz
          obtain rfl := List.mem_singleton.1 hz
          exact ⟨0, hstep⟩
        calc
          m.classifyFrom (n + 1) met x = m.classifyFrom n (x :: met) y := by
            rw [classifyFrom_succ hxy, if_neg hx]
          _ = m.classifyFrom n [] y := ih hlong
          _ = m.classifyFrom n [x] y := (ih hshort).symm
          _ = m.classifyFrom (n + 1) [] x := by rw [classifyFrom_succ hxy, if_neg List.not_mem_nil]
    · rw [classifyFrom_of_rest hx hrest, classifyFrom_of_rest hx hrest]

/-- The verdict on a wrapper is that on what it stands for, within a bound that is less by one. -/
theorem classify_of_delegates (h : m.Delegates x y) (k : Nat) : m.classify x (k + 1) = m.classify y k := by
  calc
    m.classify x (k + 1) = m.classifyFrom k [x] y := by
      rw [classify, classifyFrom_succ h, if_neg List.not_mem_nil]
    _ = m.classify y k := by
      apply classifyFrom_eq_classify
      intro z hz
      obtain rfl := List.mem_singleton.1 hz
      exact ⟨0, .head h (.refl y)⟩

/-- Within the bound the verdict is that of the object that delegation leads to. -/
theorem DelegatesIn.classify_add (h : m.DelegatesIn n x z) (k : Nat) : m.classify x (n + k) = m.classify z k := by
  induction h with
  | refl x => rw [Nat.zero_add]
  | @head n x y z hxy _ ih =>
    calc
      m.classify x (n + 1 + k) = m.classify x (n + k + 1) := by rw [Nat.add_right_comm]
      _ = m.classify y (n + k) := classify_of_delegates hxy (n + k)
      _ = m.classify z k := ih

/-! ## Verdicts -/

/-- The verdict on an object that does not delegate, by its shape. -/
inductive Judges (m : ObjectModel) : Shape → Verdict → Prop where
  | module (file : Option String) : Judges m (.module file) .notCallable
  | data : Judges m .data .notCallable
  | interpretedFunction : Judges m .interpretedFunction .interpreted
  | interpretedClass : Judges m .interpretedClass .interpreted
  | native {kind : NativeKind} {entries : List UInt64} {name : Option String} {e : NativeEntry}
      (he : e.IsOf kind entries name) : Judges m (.native kind entries name) (.foreign e)
  /-- The object is no callable, and its class is native. -/
  | nativeInstance {c : ObjectId} {entries : List UInt64} {name : Option String} {e : NativeEntry}
      (hclass : m.shape c = .ok (.native .type entries name)) (he : e.IsOf .type entries name) :
      Judges m (.instance c) (.nativeInstance e)
  /-- The object is no callable, and its class is another one or is not known. -/
  | plainInstance {c : ObjectId} (hclass : ∀ entries name, m.shape c ≠ .ok (.native .type entries name)) :
      Judges m (.instance c) .notCallable

theorem judges_instanceVerdict (m : ObjectModel) (c : ObjectId) :
    m.Judges (.instance c) (m.instanceVerdict c) := by
  unfold instanceVerdict
  split
  next entries name hclass => exact .nativeInstance hclass (NativeEntry.isOf_of .type entries name)
  next hclass => exact .plainInstance hclass

/-- The verdict of an object that does not delegate follows the rules. -/
theorem judges_ownVerdict (m : ObjectModel) (h : shape.delegate? = none) :
    m.Judges shape (m.ownVerdict shape) := by
  cases shape with
  | module file => exact .module file
  | interpretedFunction => exact .interpretedFunction
  | interpretedClass => exact .interpretedClass
  | native kind entries name => exact .native (NativeEntry.isOf_of kind entries name)
  | wrapper kind inner => cases h
  | callableInstance c => cases h
  | «instance» c => exact judges_instanceVerdict m c
  | data => exact .data

/-- The rules give one verdict only. -/
theorem Judges.unique {v' : Verdict} (h : m.Judges shape v) (h' : m.Judges shape v') : v = v' := by
  cases h with
  | module file => cases h'; rfl
  | data => cases h'; rfl
  | interpretedFunction => cases h'; rfl
  | interpretedClass => cases h'; rfl
  | native he =>
    cases h' with
    | native he' => rw [he.eq, he'.eq]
  -- A class is native or not, so that an instance is judged in one way.
  | nativeInstance hclass he =>
    cases h' with
    | nativeInstance hclass' he' =>
      cases hclass.symm.trans hclass'
      rw [he.eq, he'.eq]
    | plainInstance hplain => exact absurd hclass (hplain _ _)
  | plainInstance hplain =>
    cases h' with
    | nativeInstance hclass _ => exact absurd hclass (hplain _ _)
    | plainInstance _ => rfl

/-- A verdict by the rules is the one that is computed. -/
theorem Judges.classify_eq (h : m.Judges shape v) (hx : m.shape x = .ok shape) (bound : Nat) :
    m.classify x bound = v := by
  have hrest : shape.delegate? = none := by
    cases h with
    | _ => rfl
  calc
    m.classify x bound = m.ownVerdict shape := classifyFrom_of_rest hx hrest
    _ = v := (judges_ownVerdict m hrest).unique h

/-- The verdict on an object: that of the first object on its chain that does not delegate, within the bound;
otherwise it is no callable. -/
inductive JudgedWithin (m : ObjectModel) (bound : Nat) (x : ObjectId) : Verdict → Prop where
  | rests {n : Nat} {z : ObjectId} {shape : Shape} {v : Verdict} (hle : n ≤ bound)
      (hchain : m.DelegatesIn n x z) (hz : m.shape z = .ok shape) (hv : m.Judges shape v) :
      JudgedWithin m bound x v
  | beyond {n : Nat} {z : ObjectId} (hlt : bound < n) (hchain : m.DelegatesIn n x z) :
      JudgedWithin m bound x .notCallable
  | cycle {n k : Nat} {z : ObjectId} (hchain : m.DelegatesIn n x z) (hcycle : m.DelegatesIn (k + 1) z z) :
      JudgedWithin m bound x .notCallable
  | unknown {n : Nat} {z : ObjectId} {err : Error} (hchain : m.DelegatesIn n x z)
      (herror : m.shape z = .error err) : JudgedWithin m bound x .notCallable

/-- A verdict within a bound is one within the next bound for whoever delegates there. -/
theorem JudgedWithin.head (hxy : m.Delegates x y) (h : m.JudgedWithin n y v) : m.JudgedWithin (n + 1) x v := by
  cases h with
  | rests hle hchain hz hv => exact .rests (Nat.succ_le_succ hle) (.head hxy hchain) hz hv
  | beyond hlt hchain => exact .beyond (Nat.succ_lt_succ hlt) (.head hxy hchain)
  | cycle hchain hcycle => exact .cycle (.head hxy hchain) hcycle
  | unknown hchain herror => exact .unknown (.head hxy hchain) herror

/-- The verdict that is computed is that of the first object which does not delegate, as far as it is within the
bound. -/
theorem judgedWithin_classify (m : ObjectModel) (bound : Nat) (x : ObjectId) :
    m.JudgedWithin bound x (m.classify x bound) := by
  -- One more link of the chain may be followed with each step of the bound.
  induction bound generalizing x with
  | zero =>
    rcases shape_cases m x with ⟨err, herror⟩ | ⟨y, hxy⟩ | ⟨shape, hx, hrest⟩
    · have hnone : m.classify x 0 = .notCallable := classifyFrom_of_error herror
      rw [hnone]
      exact .unknown (.refl x) herror
    -- There is a link to follow, but the bound allows none.
    · have hnone : m.classify x 0 = .notCallable := classifyFrom_zero hxy
      rw [hnone]
      exact .beyond Nat.zero_lt_one (.head hxy (.refl y))
    · have hown : m.classify x 0 = m.ownVerdict shape := classifyFrom_of_rest hx hrest
      rw [hown]
      exact .rests (Nat.le_refl 0) (.refl x) hx (judges_ownVerdict m hrest)
  | succ n ih =>
    rcases shape_cases m x with ⟨err, herror⟩ | ⟨y, hxy⟩ | ⟨shape, hx, hrest⟩
    · have hnone : m.classify x (n + 1) = .notCallable := classifyFrom_of_error herror
      rw [hnone]
      exact .unknown (.refl x) herror
    · rw [classify_of_delegates hxy]
      exact (ih y).head hxy
    · have hown : m.classify x (n + 1) = m.ownVerdict shape := classifyFrom_of_rest hx hrest
      rw [hown]
      exact .rests (Nat.zero_le _) (.refl x) hx (judges_ownVerdict m hrest)

/-- A chain of delegation that is longer than the bound leads nowhere. -/
theorem DelegatesIn.classify_of_lt (h : m.DelegatesIn n x z) (hlt : bound < n) :
    m.classify x bound = .notCallable := by
  induction h generalizing bound with
  | refl x => exact absurd hlt (Nat.not_lt_zero bound)
  | @head n x y z hxy _ ih =>
    cases bound with
    | zero => exact classifyFrom_zero hxy
    | succ k => exact (classify_of_delegates hxy k).trans (ih (Nat.lt_of_succ_lt_succ hlt))

/-- A chain to an object that is no callable at any bound is one to no callable. -/
theorem DelegatesIn.classify_of_none (h : m.DelegatesIn n x z) (hz : ∀ k, m.classify z k = .notCallable) :
    m.classify x bound = .notCallable := by
  rcases Nat.lt_or_ge bound n with hlt | hle
  · exact h.classify_of_lt hlt
  · calc
      m.classify x bound = m.classify x (n + (bound - n)) := by rw [Nat.add_sub_cancel' hle]
      _ = m.classify z (bound - n) := h.classify_add (bound - n)
      _ = .notCallable := hz (bound - n)

theorem JudgedWithin.classify_eq (h : m.JudgedWithin bound x v) : m.classify x bound = v := by
  cases h with
  | @rests n z shape v hle hchain hz hv =>
    calc
      m.classify x bound = m.classify x (n + (bound - n)) := by rw [Nat.add_sub_cancel' hle]
      _ = m.classify z (bound - n) := hchain.classify_add (bound - n)
      _ = v := hv.classify_eq hz (bound - n)
  | beyond hlt hchain => exact hchain.classify_of_lt hlt
  | cycle hchain hcycle => exact hchain.classify_of_none fun _ => classifyFrom_of_cycle hcycle
  | unknown hchain herror => exact hchain.classify_of_none fun _ => classifyFrom_of_error herror

theorem classify_eq_iff : m.classify x bound = v ↔ m.JudgedWithin bound x v :=
  ⟨fun h => h ▸ judgedWithin_classify m bound x, JudgedWithin.classify_eq⟩

/-- A verdict other than that of no callable stays with a greater bound. -/
theorem JudgedWithin.of_le (h : m.JudgedWithin bound x v) (hv : v ≠ .notCallable) (hle : bound ≤ k) :
    m.JudgedWithin k x v := by
  cases h with
  | rests hn hchain hz hjudged => exact .rests (Nat.le_trans hn hle) hchain hz hjudged
  | beyond _ _ => exact absurd rfl hv
  | cycle _ _ => exact absurd rfl hv
  | unknown _ _ => exact absurd rfl hv

/-- The addresses that an object declares: its own, or those of its native class. -/
inductive Declares (m : ObjectModel) (x : ObjectId) : NativeKind → List UInt64 → Option String → Prop where
  | own {kind : NativeKind} {entries : List UInt64} {name : Option String}
      (hx : m.shape x = .ok (.native kind entries name)) : Declares m x kind entries name
  | ofClass {c : ObjectId} {entries : List UInt64} {name : Option String} (hx : m.shape x = .ok (.instance c))
      (hclass : m.shape c = .ok (.native .type entries name)) : Declares m x .type entries name

/-- The entry of a verdict has the addresses that the object declares. -/
theorem Judges.declares {e : NativeEntry} (h : m.Judges shape v) (hx : m.shape x = .ok shape)
    (he : v.entry? = some e) :
    ∃ kind entries name, m.Declares x kind entries name ∧ e.IsOf kind entries name := by
  cases h with
  | native hentry =>
    obtain rfl := Option.some.inj he
    exact ⟨_, _, _, .own hx, hentry⟩
  | nativeInstance hclass hentry =>
    obtain rfl := Option.some.inj he
    exact ⟨_, _, _, .ofClass hx hclass, hentry⟩
  | module _ => cases he
  | data => cases he
  | interpretedFunction => cases he
  | interpretedClass => cases he
  | plainInstance _ => cases he

/-- The entry of a verdict has the addresses of the object where delegation ends. -/
theorem JudgedWithin.declares {e : NativeEntry} (h : m.JudgedWithin bound x v) (he : v.entry? = some e) :
    ∃ n z kind entries name, n ≤ bound ∧ m.DelegatesIn n x z ∧ m.Declares z kind entries name ∧
      e.IsOf kind entries name := by
  cases h with
  | @rests n z shape v hle hchain hz hv =>
    rcases hv.declares hz he with ⟨kind, entries, name, hdeclares, hentry⟩
    exact ⟨n, z, kind, entries, name, hle, hchain, hdeclares, hentry⟩
  | beyond _ _ => cases he
  | cycle _ _ => cases he
  | unknown _ _ => cases he

/-! ## Main result -/

/-- The verdict on an object is that of the first object that does not delegate, if it is within the bound, and
that of no callable if the chain is longer, comes back to itself or ends at an unknown object. So a greater
bound changes no verdict but that of no callable, an object that delegates is judged as the next one with one
step less, and addresses are the declared ones, without zero and in increasing order. -/
theorem classify_exact (m : ObjectModel) (x : ObjectId) (bound : Nat) :
    (∀ v, m.classify x bound = v ↔ m.JudgedWithin bound x v) ∧
      (∀ k, bound ≤ k → m.classify x k ≠ m.classify x bound → m.classify x bound = .notCallable) ∧
      (∀ y, m.Delegates x y → ∀ k, m.classify x (k + 1) = m.classify y k) ∧
      ∀ e, Verdict.entry? (m.classify x bound) = some e → ∃ n z kind entries name, n ≤ bound ∧
        m.DelegatesIn n x z ∧ m.Declares z kind entries name ∧ e.IsOf kind entries name := by
  have hjudged : m.JudgedWithin bound x (m.classify x bound) := judgedWithin_classify m bound x
  refine ⟨fun v => classify_eq_iff, fun k hle hchanged => ?_, fun y hxy k => classify_of_delegates hxy k,
    fun e he => hjudged.declares he⟩
  by_cases hnone : m.classify x bound = .notCallable
  · exact hnone
  · exact absurd (hjudged.of_le hnone hle).classify_eq hchanged

/-- Two wrappers around a native function: two steps are enough, one is not. -/
example :
    let s := ((Snapshot.empty.insert 2 (.native .builtinFunction [8192, 4096, 4096, 0] none)).insert 3
      (.wrapper .partialCall 2)).insert 4 (.wrapper .decorated 3)
    s.model.classify 4 2 = .foreign ⟨.builtinFunction, [4096, 8192], none⟩ ∧
      s.model.classify 4 1 = .notCallable := by
  decide +kernel

end ObjectModel
end Bridgework
