import LexGen.Proofs.Powerset.Simulation
import LexGen.Proofs.Visits

/-!
# Every state is visited once

Determinizing stops by itself: a state that is known already is not put up for a
visit again, and there are no more states than sets of nodes that are not empty.
The states are different, and each of them is looked up under its own number.
-/

namespace LexGen

namespace Powerset

variable {ι : Type} {powerset : Powerset ι} {order : VisitOrder}

/-- Visits that succeed lead from the first construction to the last one, in which
nothing is left to be visited.  The list holds the numbers that are visited, in
order. -/
inductive Completes (powerset : Powerset ι) (order : VisitOrder) :
    Construction → List Nat → Construction → Prop where
  | done {construction : Construction} :
      construction.next? order = none →
      Completes powerset order construction [] construction
  | visit {construction left after last : Construction} {number : Nat}
      {visited : List Nat} :
      construction.next? order = some (number, left) →
      powerset.visit number left = .ok () after →
      Completes powerset order after visited last →
      Completes powerset order construction (number :: visited) last

theorem completes_visitAll {construction last : Construction} {fuel : Nat}
    (visits : powerset.visitAll order fuel construction = .ok () last)
    (isDone : last.next? order = none) :
    ∃ visited, powerset.Completes order construction visited last := by
  induction fuel generalizing construction with
  | zero =>
      cases visits
      exact ⟨[], .done isDone⟩
  | succ fuel induction =>
      cases isNext : construction.next? order with
      | none =>
          rw [visitAll_done fuel isNext] at visits
          cases visits
          exact ⟨[], .done isNext⟩
      | some next =>
          obtain ⟨number, left⟩ := next
          rw [visitAll_next fuel isNext] at visits
          cases isVisit : powerset.visit number left with
          | ok _ after =>
              rw [isVisit] at visits
              obtain ⟨visited, completes⟩ := induction visits
              exact ⟨number :: visited, .visit isNext isVisit completes⟩
          | error dangling after =>
              rw [isVisit] at visits
              cases visits

/-- The numbers that are visited are those of the states that an exploration
visits. -/
theorem Completes.visits {construction last : Construction} {visited : List Nat}
    (completes : powerset.Completes order construction visited last)
    {exploration : Exploration NodeSet Dangling}
    (explores : powerset.Explores order [] construction exploration) :
    ∃ states final,
      Exploration.Visits order powerset.neighbours exploration states final ∧
      powerset.Explores order [] last final ∧
      List.Forall₂ (fun number state => last.states[number]? = some state)
        visited states := by
  induction completes generalizing exploration with
  | @done construction isDone =>
      cases isPending : exploration.pending with
      | nil => exact ⟨[], exploration, .done isPending, explores, .nil⟩
      | cons state later =>
          obtain ⟨number, left, _, _, isNext, _⟩ := explores.visit isPending
          rw [isDone] at isNext
          cases isNext
  | @visit construction left after last number visited isNext isVisit _ induction =>
      cases isPending : exploration.pending with
      | nil =>
          rw [explores.next?_eq_none isPending] at isNext
          cases isNext
      | cons state later =>
          obtain ⟨place, taken, current, noted, isPlace, isNumber, outcome, explored,
            settled⟩ := explores.visit isPending
          rw [isNext] at isPlace
          cases isPlace
          rw [isVisit] at outcome
          cases succeeds : (powerset.neighbours state).2 with
          | some dangling =>
              rw [succeeds] at outcome
              cases outcome
          | none =>
              rw [succeeds] at outcome
              cases outcome
              rw [settled succeeds] at explored
              obtain ⟨states, final, visits, finallyExplores, inOrder⟩ :=
                induction explored
              have allVisits : Exploration.Visits order powerset.neighbours exploration
                  (state :: states) final := .next isPending succeeds visits
              refine ⟨state :: states, final, allVisits, finallyExplores, ?_⟩
              obtain ⟨added, isFound, _⟩ := allVisits.exists_added
              refine .cons ?_ inOrder
              rw [finallyExplores.states_eq, isFound, ← explores.states_eq,
                List.getElem?_append_left (List.getElem?_eq_some_iff.mp isNumber).1]
              exact isNumber

theorem map_idxOf_self {states : List NodeSet} (distinct : states.Nodup) :
    states.map states.idxOf = List.range states.length := by
  apply List.ext_getElem
  · rw [List.length_map, List.length_range]
  · intro number bound _
    rw [List.getElem_map, List.getElem_range]
    rw [List.length_map] at bound
    exact distinct.idxOf_getElem number bound

theorem Completes.perm_range {first last : Construction} {visited : List Nat}
    (completes : powerset.Completes order first visited last) {start : NodeSet}
    (explores : powerset.Explores order [] first (.startingAt start)) :
    visited.Perm (List.range last.nodes.length) := by
  obtain ⟨states, final, visits, finallyExplores, inOrder⟩ := completes.visits explores
  have consistent := finallyExplores.consistent
  have numbers : List.Forall₂ Eq visited (states.map last.states.idxOf) := by
    apply List.forall₂_map_right_iff.mpr
    exact inOrder.imp fun number state isNumber => (consistent.idxOf_eq isNumber).symm
  rw [List.forall₂_eq_eq_eq] at numbers
  have isFound := visits.perm_found
  rw [← finallyExplores.states_eq] at isFound
  rw [numbers, consistent.length_eq, ← map_idxOf_self consistent.nodup]
  exact isFound.map _

theorem IsSound.exists_construction (sound : powerset.IsSound) (order : VisitOrder) :
    ∃ first visited last,
      powerset.resolve [powerset.automaton.start] .empty = .ok 0 first ∧
      powerset.Completes order first visited last ∧
      visited.Perm (List.range last.nodes.length) ∧
      powerset.construct order .empty = .ok 0 last ∧
      powerset.Explores order [] last (powerset.explore order) := by
  obtain ⟨start, closes, _⟩ := sound.exists_start
  obtain ⟨first, isResolved, met⟩ := resolve_start order closes
  obtain ⟨current, last, constructs, explores, settled⟩ :=
    powerset.construct_explores order
  have succeeds := (sound.hasStates order).1
  rw [succeeds] at constructs
  rw [settled succeeds] at explores
  have visits : powerset.visitAll order (Nat.pow 2 powerset.rows.length) first =
      .ok () last := by
    simp only [construct, bind, EStateM.bind, isResolved] at constructs
    cases outcome : powerset.visitAll order (Nat.pow 2 powerset.rows.length) first with
    | ok _ after =>
        rw [outcome] at constructs
        cases constructs
        rfl
    | error dangling after =>
        rw [outcome] at constructs
        cases constructs
  have isDone := explores.next?_eq_none (sound.explore_pending order)
  obtain ⟨visited, completes⟩ := completes_visitAll visits isDone
  exact ⟨first, visited, last, isResolved, completes, completes.perm_range met,
    constructs, explores⟩

/-- No state is the empty set, which leaves the other sets of nodes. -/
theorem length_states_le {states : List NodeSet} (distinct : states.Nodup)
    (areStates : ∀ state ∈ states, powerset.IsState state) :
    states.length ≤ Nat.pow 2 powerset.automaton.nodes.length - 1 := by
  have emptyNew : (∅ : NodeSet) ∉ states := by
    intro member
    obtain ⟨node, inEmpty⟩ := (areStates ∅ member).nonempty
    exact NodeSet.not_mem_empty inEmpty
  have allDistinct : ((∅ : NodeSet) :: states).Nodup :=
    List.nodup_cons.mpr ⟨emptyNew, distinct⟩
  have subset : ((∅ : NodeSet) :: states) ⊆
      NodeSet.below powerset.automaton.nodes.length := by
    intro state member
    apply NodeSet.mem_below
    cases List.mem_cons.mp member with
    | inl isEmpty =>
        intro node inState
        rw [isEmpty] at inState
        exact absurd inState NodeSet.not_mem_empty
    | inr isState => exact (areStates state isState).bounded
  have limit := (List.subperm_of_subset allDistinct subset).length_le
  rw [NodeSet.length_below, List.length_cons] at limit
  exact Nat.le_sub_one_of_lt limit

/-- The visits that are allowed are more than enough: the exploration ends where
visits without a bound end. -/
theorem IsSound.explore_visits (sound : powerset.IsSound) (order : VisitOrder) :
    ∃ start visited, powerset.close [powerset.automaton.start] = .ok start ∧
      Exploration.Visits order powerset.neighbours (.startingAt start) visited
        (powerset.explore order) := by
  obtain ⟨start, closes, isStart, _⟩ := sound.exists_start
  obtain ⟨nothingPending, complete⟩ := sound.run_isComplete isStart order
  obtain ⟨visited, visits⟩ :=
    Exploration.visits_run nothingPending complete.failure_eq_none
  rw [explore_eq_run closes]
  exact ⟨start, visited, closes, visits⟩

end Powerset

namespace Automaton

variable {ι : Type} [LE ι] [DecidableLE ι] {automaton : Automaton ι}

/-- Determinizing a closed automaton comes to an end: the visits stop by themselves,
and each number that was given is visited once.  The states are different closed sets
of nodes, none of them empty, there is a node for each of them, and the number of a
state is the one under which it is looked up.  So there are fewer nodes than sets of
nodes. -/
theorem determinize_visits_each_state_once (closed : automaton.IsClosed)
    (order : VisitOrder) :
    ∃ powerset start first visited last,
      Powerset.ofAutomaton automaton = .ok powerset ∧
      powerset.resolve [automaton.start] .empty = .ok start first ∧
      powerset.Completes order first visited last ∧
      automaton.determinize order =
        .ok ⟨start, powerset.itemsOf last.states, last.nodes⟩ ∧
      visited.Perm (List.range last.nodes.length) ∧
      last.IsConsistent ∧
      last.states.Nodup ∧
      (∀ state ∈ last.states, powerset.IsState state) ∧
      last.nodes.length ≤ Nat.pow 2 automaton.nodes.length - 1 := by
  obtain ⟨powerset, isPowerset, isAutomaton, sound⟩ := closed.exists_ofAutomaton
  subst isAutomaton
  obtain ⟨first, visited, last, isResolved, completes, visitedOnce, constructs,
    explores⟩ := sound.exists_construction order
  have areStates := (sound.hasStates order).2.isState
  rw [← explores.states_eq] at areStates
  have distinct := explores.consistent.nodup
  refine ⟨powerset, 0, first, visited, last, isPowerset, isResolved, completes, ?_,
    visitedOnce, explores.consistent, distinct, areStates, ?_⟩
  · rw [determinize, isPowerset]
    simp only [bind, Except.bind, EStateM.run, constructs]
    rfl
  · rw [explores.consistent.length_eq]
    exact Powerset.length_states_le distinct areStates

/-- An automaton in which one state is met again by way of others, and transitions
that lead nowhere new. -/
theorem crossing_visits_each_state_once :
    let automaton : Automaton Nat :=
      { start := 0
        items := .ofList [(3, 1)]
        nodes :=
          [⟨0, [⟨.range 97 98, 1⟩, ⟨.singleton 97, 2⟩, ⟨∅, 3⟩]⟩,
            ⟨1, [⟨.singleton 98, 0⟩, ⟨∅, 1⟩]⟩, ⟨2, [⟨.range 97 99, 2⟩]⟩, ⟨3, []⟩] }
    automaton.IsClosed ∧
      ∃ powerset start first visited last,
        Powerset.ofAutomaton automaton = .ok powerset ∧
        powerset.resolve [automaton.start] .empty = .ok start first ∧
        powerset.Completes .depthFirst first visited last ∧
        automaton.determinize .depthFirst =
          .ok ⟨start, powerset.itemsOf last.states, last.nodes⟩ ∧
        visited.Perm (List.range last.nodes.length) ∧
        last.IsConsistent ∧
        last.states.Nodup ∧
        (∀ state ∈ last.states, powerset.IsState state) ∧
        last.nodes.length ≤ Nat.pow 2 automaton.nodes.length - 1 := by
  intro automaton
  have closed : automaton.IsClosed := ⟨by decide, by decide⟩
  exact ⟨closed, determinize_visits_each_state_once closed .depthFirst⟩

end Automaton

end LexGen
