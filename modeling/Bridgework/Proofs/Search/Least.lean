import Bridgework.Proofs.Search.Shortest
import Bridgework.Proofs.Search.Simple
import Mathlib.Data.List.Shortlex

/-!
# The least of the shortest paths

Paths are compared by their lengths, and paths of one length as words over their points. The search queues
its paths in this order: each of them is a path taken earlier with one more point, and one more point at
the end of two paths keeps them in order. So the path that comes to the goal first is the least of all.

- `Search.IsWay` : a path from one of the starting points to a point
- `Search.Before`, `Search.NoLater` : the order of paths
- `Search.Ranked` : the invariant of the search
- `Search.Ranked.noLater_or_waiting` : no way is ahead of the search
- `Search.noLater_of_shortest?`, `Search.isSome_shortest?` : what is found, and when
-/

namespace Bridgework
namespace Search

variable {next : Nat → List Nat} {starts : List Nat} {goal a b : Nat} {p q : List Nat}

/-! ## Ways -/

/-- A path from one of the starting points to a point. -/
structure IsWay (next : Nat → List Nat) (starts : List Nat) (goal : Nat) (p : List Nat) : Prop where
  start : ∃ a ∈ starts, p.head? = some a
  steps : IsPath next p
  goal : p.getLast? = some goal

theorem isWay_singleton (ha : a ∈ starts) : IsWay next starts a [a] := ⟨⟨a, ha, rfl⟩, trivial, rfl⟩

theorem IsWay.ne_nil (h : IsWay next starts a p) : p ≠ [] := by
  rintro rfl
  exact nomatch h.goal

/-- A way goes on by a successor. -/
theorem IsWay.snoc (h : IsWay next starts a p) (hb : b ∈ next a) : IsWay next starts b (p ++ [b]) := by
  obtain ⟨c, hc, hhead⟩ := h.start
  refine ⟨⟨c, hc, ?_⟩, ?_, List.getLast?_concat⟩
  · rw [List.head?_append, hhead]
    rfl
  · obtain ⟨q, rfl⟩ := List.getLast?_eq_some_iff.1 h.goal
    rw [List.append_assoc]
    exact isPath_append_pair.2 ⟨h.steps, hb, trivial⟩

/-- A way is a starting point, or it comes from a way to the point before its last. -/
theorem IsWay.eq_or_snoc (h : IsWay next starts b p) :
    b ∈ starts ∧ p = [b] ∨ ∃ a q, p = q ++ [b] ∧ IsWay next starts a q ∧ b ∈ next a := by
  obtain ⟨q, rfl⟩ := List.getLast?_eq_some_iff.1 h.goal
  obtain ⟨c, hc, hhead⟩ := h.start
  rcases List.eq_nil_or_concat' q with rfl | ⟨r, a, rfl⟩
  · obtain rfl : b = c := Option.some.inj hhead
    exact .inl ⟨hc, rfl⟩
  · have hsteps := h.steps
    rw [List.append_assoc, List.singleton_append, isPath_append_pair] at hsteps
    refine .inr ⟨a, r ++ [a], rfl, ⟨⟨c, hc, ?_⟩, hsteps.1, List.getLast?_concat⟩, hsteps.2.1⟩
    rw [List.head?_append_of_ne_nil _ (List.append_ne_nil_of_right_ne_nil r (List.cons_ne_nil a []))] at hhead
    exact hhead

/-- Ways grow at their end. -/
@[elab_as_elim]
theorem IsWay.induction {motive : Nat → List Nat → Prop} (h : IsWay next starts b p)
    (start : ∀ a ∈ starts, motive a [a])
    (snoc : ∀ a b q, IsWay next starts a q → b ∈ next a → motive a q → motive b (q ++ [b])) :
    motive b p := by
  induction p using List.reverseRecOn generalizing b with
  | nil => exact absurd rfl h.ne_nil
  | append_singleton q c ih =>
    rcases h.eq_or_snoc with ⟨hb, hq⟩ | ⟨a, r, hr, hway, hb⟩
    · rw [hq]
      exact start b hb
    · obtain ⟨rfl, _⟩ := List.append_inj' hr rfl
      rw [hr]
      exact snoc a b q hway hb (ih hway)

/-- A way does not leave a closed set. -/
theorem IsWay.subset_of_closed {space : List Nat} (h : IsWay next starts b p) (hstarts : starts ⊆ space)
    (hclosed : ∀ a ∈ space, ∀ b ∈ next a, b ∈ space) : p ⊆ space := by
  refine h.induction (fun a ha => ?_) (fun a b q hq hb ih => ?_)
  · exact List.cons_subset.2 ⟨hstarts ha, List.nil_subset space⟩
  · have ha : a ∈ space := ih (List.mem_of_getLast? hq.goal)
    exact List.append_subset.2 ⟨ih, List.cons_subset.2 ⟨hclosed a ha b hb, List.nil_subset space⟩⟩

/-! ## The order of paths -/

/-- The path `p` is shorter than `q`, or as long and less as a word. -/
abbrev Before (p q : List Nat) : Prop := List.Shortlex (· < ·) p q

/-- The path `p` is `q` or before it. -/
def NoLater (p q : List Nat) : Prop := p = q ∨ Before p q

/-- Being before is transitive. -/
theorem Before.trans {r : List Nat} (hpq : Before p q) (hqr : Before q r) : Before p r := by
  rw [Before, List.shortlex_def] at *
  rcases hpq with hpq | ⟨hlen, hpq⟩
  · exact .inl (by omega)
  · rcases hqr with hqr | ⟨hlen', hqr⟩
    · exact .inl (by omega)
    · exact .inr ⟨hlen.trans hlen', List.lex_trans Nat.lt_trans hpq hqr⟩

/-- A path comes before those that it is continued to. -/
theorem before_snoc (p : List Nat) (b : Nat) : Before p (p ++ [b]) :=
  .of_length_lt (by simp)

/-- One more point each keeps two paths in order. -/
theorem Before.snoc (h : Before p q) (a b : Nat) : Before (p ++ [a]) (q ++ [b]) := by
  rcases List.shortlex_def.1 h with hlt | ⟨hlen, hlex⟩
  · exact .of_length_lt (by simpa using hlt)
  · refine .of_lex (by simpa using hlen) ?_
    induction hlex with
    | nil => cases hlen
    | rel hlt => exact .rel hlt
    | cons _ ih => exact .cons (ih (.of_lex (Nat.succ.inj hlen) ‹_›) (Nat.succ.inj hlen))

theorem NoLater.trans_before {r : List Nat} (hpq : NoLater p q) (hqr : Before q r) : Before p r := by
  rcases hpq with rfl | hpq
  · exact hqr
  · exact hpq.trans hqr

theorem NoLater.trans {r : List Nat} (hpq : NoLater p q) (hqr : NoLater q r) : NoLater p r := by
  rcases hqr with rfl | hqr
  · exact hpq
  · exact .inr (hpq.trans_before hqr)

/-- Paths that go on by the same point stay in order. -/
theorem NoLater.snoc (h : NoLater p q) (b : Nat) : NoLater (p ++ [b]) (q ++ [b]) := by
  rcases h with rfl | h
  · exact .inl rfl
  · exact .inr (h.snoc b b)

/-! ## The invariant -/

theorem fresh_sublist (met l : List Nat) : List.Sublist (fresh met l) l := by
  induction l generalizing met with
  | nil => exact .slnil
  | cons a l ih =>
    rw [fresh]
    split
    · exact (ih met).cons a
    · exact (ih (a :: met)).cons_cons a

/-- The paths of a search that has not come to its goal yet, each with its last point first: those taken
from the queue, and those in it. -/
structure Ranked (next : Nat → List Nat) (starts : List Nat) (goal : Nat) (taken queue : List (List Nat))
    (met : List Nat) : Prop where
  way : ∀ p ∈ taken ++ queue, ∃ a, IsWay next starts a p.reverse
  started : ∀ a ∈ starts, [a] ∈ taken ++ queue
  met : ∀ b ∈ met, ∃ path, b :: path ∈ taken ++ queue
  away : ∀ path, goal :: path ∉ taken
  sorted : queue.Pairwise fun p q => Before p.reverse q.reverse
  /-- What will be queued comes after everything that was queued. -/
  behind : ∀ p ∈ taken ++ queue, ∀ q ∈ queue, ∀ b, Before p.reverse (q.reverse ++ [b])
  closed : ∀ a path, a :: path ∈ taken → ∀ b ∈ next a, ∃ path', b :: path' ∈ taken ++ queue ∧
    NoLater (b :: path').reverse ((a :: path).reverse ++ [b])

namespace Ranked

variable {taken queue : List (List Nat)} {met path : List Nat}

/-- At the beginning the starting points wait in their order. -/
theorem start (hstarts : starts.Pairwise (· < ·)) :
    Ranked next starts goal [] ((fresh [] starts).map fun a => [a]) (fresh [] starts) where
  way p hp := by
    obtain ⟨a, ha, rfl⟩ := List.mem_map.1 hp
    exact ⟨a, isWay_singleton (mem_fresh.1 ha).1⟩
  started a ha := List.mem_map.2 ⟨a, mem_fresh.2 ⟨ha, List.not_mem_nil⟩, rfl⟩
  met b hb := ⟨[], List.mem_map.2 ⟨b, hb, rfl⟩⟩
  away _ := List.not_mem_nil
  sorted := by
    refine List.pairwise_map.2 ((hstarts.sublist (fresh_sublist [] starts)).imp ?_)
    intro a b hab
    exact (List.shortlex_singleton_iff a b).2 hab
  behind p hp q hq b := by
    obtain ⟨a, _, rfl⟩ := List.mem_map.1 hp
    obtain ⟨c, _, rfl⟩ := List.mem_map.1 hq
    exact .of_length_lt (by simp)
  closed _ _ h := absurd h List.not_mem_nil

/-- The new paths come after those that wait, and among themselves as the successors do. -/
theorem sorted_take (hnext : ∀ a, (next a).Pairwise (· < ·))
    (h : Ranked next starts goal taken ((a :: path) :: queue) met) :
    (queue ++ (fresh met (next a)).map fun b => b :: a :: path).Pairwise fun p q =>
      Before p.reverse q.reverse := by
  have hreverse (b : Nat) : (b :: a :: path).reverse = (a :: path).reverse ++ [b] := List.reverse_cons
  refine List.pairwise_append.2 ⟨(List.pairwise_cons.1 h.sorted).2, ?_, ?_⟩
  · refine List.pairwise_map.2 (((hnext a).sublist (fresh_sublist met (next a))).imp ?_)
    intro b c hbc
    rw [hreverse, hreverse]
    exact .append_left ((List.shortlex_singleton_iff b c).2 hbc) _
  · intro q hq p hp
    obtain ⟨b, _, rfl⟩ := List.mem_map.1 hp
    rw [hreverse]
    exact h.behind q (List.mem_append_right _ (List.mem_cons_of_mem _ hq)) _ List.mem_cons_self b

/-- A path that is taken comes before those that go on from paths behind it. -/
theorem behind_take (h : Ranked next starts goal taken ((a :: path) :: queue) met) {p q : List Nat}
    (hp : p ∈ (taken ++ (a :: path) :: queue) ++ (fresh met (next a)).map fun b => b :: a :: path)
    (hq : q ∈ queue ++ (fresh met (next a)).map fun b => b :: a :: path) (b : Nat) :
    Before p.reverse (q.reverse ++ [b]) := by
  rcases List.mem_append.1 hp with hp | hp
  · rcases List.mem_append.1 hq with hq | hq
    · exact h.behind p hp q (List.mem_cons_of_mem _ hq) b
    · obtain ⟨c, _, rfl⟩ := List.mem_map.1 hq
      rw [List.reverse_cons]
      exact (h.behind p hp _ List.mem_cons_self c).trans (before_snoc _ b)
  · obtain ⟨c, _, rfl⟩ := List.mem_map.1 hp
    rw [List.reverse_cons]
    rcases List.mem_append.1 hq with hq | hq
    · exact ((List.pairwise_cons.1 h.sorted).1 q hq).snoc c b
    · -- Both are new and of one length, so a further point makes one of them longer.
      obtain ⟨d, _, rfl⟩ := List.mem_map.1 hq
      rw [List.reverse_cons]
      exact .of_length_lt (by simp)

/-- Every successor of the point that is taken has a path now, and none of these is later than the path
that goes on from there. -/
theorem closed_take (h : Ranked next starts goal taken ((a :: path) :: queue) met) (hb : b ∈ next a) :
    ∃ path',
      b :: path' ∈ (taken ++ (a :: path) :: queue) ++ (fresh met (next a)).map (fun b => b :: a :: path) ∧
      NoLater (b :: path').reverse ((a :: path).reverse ++ [b]) := by
  by_cases hmet : b ∈ met
  · -- A successor that was met before has a path that was queued before.
    obtain ⟨path', hpath'⟩ := h.met b hmet
    exact ⟨path', List.mem_append_left _ hpath', .inr (h.behind _ hpath' _ List.mem_cons_self b)⟩
  · refine ⟨a :: path, List.mem_append_right _ (List.mem_map.2 ⟨b, ?_, rfl⟩), .inl List.reverse_cons⟩
    exact mem_fresh.2 ⟨hb, hmet⟩

/-- Taking a path from the queue that does not end in the goal keeps the invariant. -/
theorem take (hnext : ∀ a, (next a).Pairwise (· < ·))
    (h : Ranked next starts goal taken ((a :: path) :: queue) met) (hgoal : a ≠ goal) :
    Ranked next starts goal (taken ++ [a :: path])
      (queue ++ (fresh met (next a)).map fun b => b :: a :: path) (met ++ fresh met (next a)) := by
  -- The paths are the same as before, with the continuations behind them.
  have hall : taken ++ [a :: path] ++ (queue ++ (fresh met (next a)).map fun b => b :: a :: path) =
      (taken ++ (a :: path) :: queue) ++ (fresh met (next a)).map fun b => b :: a :: path := by
    simp
  constructor
  case way =>
    intro p hp
    rw [hall] at hp
    rcases List.mem_append.1 hp with hp | hp
    · exact h.way p hp
    -- A path that is continued by a successor is a way to it.
    · obtain ⟨b, hb, rfl⟩ := List.mem_map.1 hp
      obtain ⟨c, hc⟩ := h.way (a :: path) (by simp)
      obtain rfl : a = c := by simpa using hc.goal
      rw [List.reverse_cons]
      exact ⟨b, hc.snoc (mem_fresh.1 hb).1⟩
  case started =>
    intro b hb
    rw [hall]
    exact List.mem_append_left _ (h.started b hb)
  case met =>
    intro b hb
    rw [hall]
    rcases List.mem_append.1 hb with hb | hb
    · obtain ⟨path', hpath'⟩ := h.met b hb
      exact ⟨path', List.mem_append_left _ hpath'⟩
    · exact ⟨a :: path, List.mem_append_right _ (List.mem_map.2 ⟨b, hb, rfl⟩)⟩
  case away =>
    intro path' hmem
    rcases List.mem_append.1 hmem with hmem | hmem
    · exact h.away path' hmem
    · exact hgoal (List.cons.inj (List.mem_singleton.1 hmem)).1.symm
  case sorted => exact h.sorted_take hnext
  case behind =>
    intro p hp q hq b
    rw [hall] at hp
    exact h.behind_take hp hq b
  -- Of the path that was taken, a successor is either new, or was met by a path that comes before.
  case closed =>
    intro c path' hmem b hb
    rw [hall]
    rcases List.mem_append.1 hmem with hmem | hmem
    · obtain ⟨path'', hpath'', hle⟩ := h.closed c path' hmem b hb
      exact ⟨path'', List.mem_append_left _ hpath'', hle⟩
    · obtain ⟨rfl, rfl⟩ := List.cons.inj (List.mem_singleton.1 hmem)
      exact h.closed_take hb

/-- A way has a path of the search to its last point that is no later, or there is still a path in the
queue that is before it. -/
theorem noLater_or_waiting (h : Ranked next starts goal taken queue met) (hp : IsWay next starts b p) :
    (∃ path, b :: path ∈ taken ++ queue ∧ NoLater (b :: path).reverse p) ∨
      ∃ q ∈ queue, Before q.reverse p := by
  refine hp.induction (fun a ha => ?_) (fun a b q _ hb ih => ?_)
  · exact .inl ⟨[], h.started a ha, .inl rfl⟩
  · rcases ih with ⟨path, hpath, hle⟩ | ⟨r, hr, hlt⟩
    · -- Only if the path to the point before has been taken, the next point has been queued.
      rcases List.mem_append.1 hpath with htaken | hqueue
      · obtain ⟨path', hpath', hle'⟩ := h.closed a path htaken b hb
        exact .inl ⟨path', hpath', hle'.trans (hle.snoc b)⟩
      · exact .inr ⟨_, hqueue, hle.trans_before (before_snoc q b)⟩
    · exact .inr ⟨r, hr, hlt.trans (before_snoc q b)⟩

/-- When a path to the goal is taken, every other way to it comes later or is the same. -/
theorem noLater_front (h : Ranked next starts goal taken ((goal :: path) :: queue) met)
    (hp : IsWay next starts goal p) : NoLater (goal :: path).reverse p := by
  have hfront : ∀ q ∈ (goal :: path) :: queue, NoLater (goal :: path).reverse q.reverse := by
    intro q hq
    rcases List.mem_cons.1 hq with rfl | hq
    · exact .inl rfl
    · exact .inr ((List.pairwise_cons.1 h.sorted).1 q hq)
  rcases h.noLater_or_waiting hp with ⟨path', hmem, hle⟩ | ⟨q, hq, hlt⟩
  · rcases List.mem_append.1 hmem with htaken | hqueue
    · exact absurd htaken (h.away path')
    · exact (hfront _ hqueue).trans hle
  · exact .inr ((hfront q hq).trans_before hlt)

/-- With an empty queue there is no way to the goal. -/
theorem not_isWay_of_empty (h : Ranked next starts goal taken [] met) : ¬ IsWay next starts goal p := by
  intro hp
  rcases h.noLater_or_waiting hp with ⟨path, hmem, _⟩ | ⟨q, hq, _⟩
  · rw [List.append_nil] at hmem
    exact h.away path hmem
  · exact absurd hq List.not_mem_nil

end Ranked

/-! ## The search -/

section

variable {taken queue : List (List Nat)} {met points space : List Nat} {fuel : Nat}

/-- The path that is found is a way to the goal, and no other comes before it. -/
theorem noLater_of_shortestFrom (hnext : ∀ a, (next a).Pairwise (· < ·))
    (h : Ranked next starts goal taken queue met) (hfound : shortestFrom next goal fuel queue met = some p) :
    IsWay next starts goal p ∧ ∀ q, IsWay next starts goal q → NoLater p q := by
  induction fuel generalizing taken queue met with
  | zero => cases hfound
  | succ fuel ih =>
    match queue with
    | [] => cases hfound
    | [] :: queue =>
      obtain ⟨a, ha⟩ := h.way [] (by simp)
      exact absurd rfl ha.ne_nil
    | (a :: path) :: queue =>
      -- At the goal every way that is left comes later; else the search goes on with the paths in
      -- their order.
      by_cases hgoal : a = goal
      · subst hgoal
        rw [shortestFrom_goal] at hfound
        obtain rfl := Option.some.inj hfound
        obtain ⟨b, hb⟩ := h.way (a :: path) (by simp)
        obtain rfl : a = b := by simpa using hb.goal
        exact ⟨hb, fun q hq => h.noLater_front hq⟩
      · rw [shortestFrom_ne hgoal] at hfound
        exact ih (h.take hnext hgoal) hfound

/-- With fuel for every point of a closed space, a search that finds nothing has emptied its queue. -/
theorem not_isWay_of_shortestFrom (hnext : ∀ a, (next a).Pairwise (· < ·))
    (hclosed : ∀ a ∈ space, ∀ b ∈ next a, b ∈ space) (h : Ranked next starts goal taken queue met)
    (hqueue : Queue next points queue met) (hmet : met ⊆ space)
    (hfuel : space.length < fuel + points.length) (hnone : shortestFrom next goal fuel queue met = none) :
    ¬ IsWay next starts goal p := by
  induction fuel generalizing taken points queue met with
  | zero =>
    -- More points would have been taken than there are.
    have hle := hqueue.length_taken_le hmet
    omega
  | succ fuel ih =>
    match queue with
    | [] => exact h.not_isWay_of_empty
    | [] :: queue => exact absurd List.mem_cons_self hqueue.ne_nil
    | (a :: path) :: queue =>
      by_cases hgoal : a = goal
      · subst hgoal
        rw [shortestFrom_goal] at hnone
        cases hnone
      · rw [shortestFrom_ne hgoal] at hnone
        refine ih (h.take hnext hgoal) hqueue.take (hqueue.append_fresh_subset hclosed hmet) ?_ hnone
        rw [List.length_append, List.length_singleton]
        omega

end

/-- The path that is found leads from a starting point to the goal, and no other such path is before it. -/
theorem noLater_of_shortest? {fuel : Nat} (hnext : ∀ a, (next a).Pairwise (· < ·))
    (hstarts : starts.Pairwise (· < ·)) (hfound : shortest? next goal fuel starts = some p) :
    IsWay next starts goal p ∧ ∀ q, IsWay next starts goal q → NoLater p q :=
  noLater_of_shortestFrom hnext (.start hstarts) hfound

/-- With more fuel than there are points, a path is found if there is one. -/
theorem isSome_shortest? {space : List Nat} {fuel : Nat} (hnext : ∀ a, (next a).Pairwise (· < ·))
    (hstarts : starts.Pairwise (· < ·)) (hclosed : ∀ a ∈ space, ∀ b ∈ next a, b ∈ space)
    (hspace : starts ⊆ space) (hfuel : space.length < fuel) (hp : IsWay next starts goal p) :
    (shortest? next goal fuel starts).isSome := by
  rw [Option.isSome_iff_ne_none]
  intro hnone
  refine not_isWay_of_shortestFrom hnext hclosed (.start hstarts) (.start starts) ?_ ?_ hnone hp
  · exact fun a ha => hspace (mem_fresh.1 ha).1
  · exact hfuel

end Search
end Bridgework
