import LexGen.Automaton.Renumbering
import LexGen.Proofs.Powerset.Shape

/-!
# The visit order changes numbers only

In whatever order the states of a powerset are visited, the same states are
found, and the moves of a state know nothing of numbers.  The deterministic
automata of two orders therefore differ in the numbers of their nodes only.
-/

namespace LexGen

section Positions

variable {σ : Type} [DecidableEq σ]

/-- Where the element at a place of the first list stands in the second one. -/
def counterpart (left right : List σ) (place : Nat) : Nat :=
  match left[place]? with
  | some element => right.idxOf element
  | none => place

theorem counterpart_eq {left right : List σ} {place : Nat} {element : σ}
    (isElement : left[place]? = some element) :
    counterpart left right place = right.idxOf element := by
  rw [counterpart, isElement]

theorem getElem?_counterpart {left right : List σ} {place : Nat} {element : σ}
    (isElement : left[place]? = some element) (inRight : element ∈ right) :
    right[counterpart left right place]? = some element := by
  rw [counterpart_eq isElement]
  exact List.getElem?_idxOf inRight

theorem counterpart_bijOn {left right : List σ} (leftNodup : left.Nodup)
    (rightNodup : right.Nodup)
    (sameElements : ∀ element, element ∈ left ↔ element ∈ right) :
    Set.BijOn (counterpart left right) {place | place < left.length}
      {place | place < right.length} := by
  refine ⟨?_, ?_, ?_⟩
  · intro place bound
    have inRight := (sameElements left[place]).mp (List.getElem_mem bound)
    have isElement := getElem?_counterpart
      (List.getElem?_eq_getElem bound) inRight
    exact (List.getElem?_eq_some_iff.mp isElement).1
  · intro first firstBound second secondBound same
    rw [counterpart_eq (List.getElem?_eq_getElem firstBound),
      counterpart_eq (List.getElem?_eq_getElem secondBound)] at same
    have inRight := (sameElements left[first]).mp (List.getElem_mem firstBound)
    have sameElement := (List.idxOf_inj inRight).mp same
    exact (leftNodup.getElem_inj_iff).mp sameElement
  · intro place bound
    have inLeft := (sameElements right[place]).mpr (List.getElem_mem bound)
    refine ⟨left.idxOf right[place], List.idxOf_lt_length_of_mem inLeft, ?_⟩
    rw [counterpart_eq (List.getElem?_idxOf inLeft)]
    exact rightNodup.idxOf_getElem place bound

end Positions

namespace Powerset

variable {ι : Type} [LE ι] [DecidableLE ι] {powerset : Powerset ι}
  {left right : List NodeSet}

/-- Two lists of the same states, the first of which is the same, make the same
automaton up to the numbers of its nodes. -/
theorem HasStates.toAutomaton_renumbers (hasStates : powerset.HasStates left)
    (sound : powerset.IsSound) (leftNodup : left.Nodup)
    (rightNodup : right.Nodup) (sameFirst : right.head? = left.head?)
    (sameStates : ∀ state, state ∈ left ↔ state ∈ right) :
    (powerset.toAutomaton left).Renumbers (counterpart left right)
      (powerset.toAutomaton right) := by
  have matched {place : Nat} {state : NodeSet}
      (isState : left[place]? = some state) :
      right[counterpart left right place]? = some state :=
    getElem?_counterpart isState
      ((sameStates state).mp (List.mem_of_getElem? isState))
  constructor
  · exact hasStates.toAutomaton_isClosed sound
  · simp only [length_nodes_toAutomaton]
    exact counterpart_bijOn leftNodup rightNodup sameStates
  · obtain ⟨start, isStart, _⟩ := hasStates.start_follows
    change 0 = counterpart left right 0
    rw [counterpart_eq isStart]
    rw [← List.head?_eq_getElem?, ← sameFirst] at isStart
    cases right with
    | nil => cases isStart
    | cons first later =>
        cases isStart
        exact List.idxOf_cons_self.symm
  · intro place node isNode
    rw [getElem?_nodes_toAutomaton] at isNode
    obtain ⟨state, isState, sameNode⟩ := Option.map_eq_some_iff.mp isNode
    rw [← sameNode]
    refine ⟨⟨counterpart left right place,
      powerset.transitionsAmong right state⟩, ?_, ?_⟩
    · rw [getElem?_nodes_toAutomaton, matched isState]
      rfl
    · simp only [transitionsAmong, List.map_map]
      apply List.map_congr_left
      intro move isMove
      have inLeft := hasStates.target_mem sound
        (List.mem_of_getElem? isState) isMove
      simp only [Function.comp_apply, Transition.renumber,
        counterpart_eq (List.getElem?_idxOf inLeft)]
  · intro place bound
    rw [length_nodes_toAutomaton] at bound
    have isState := List.getElem?_eq_getElem bound
    rw [item?_toAutomaton isState, item?_toAutomaton (matched isState)]

theorem IsSound.explore_renumbers (sound : powerset.IsSound)
    (order other : VisitOrder) :
    ∃ number, (powerset.toAutomaton (powerset.explore order).found).Renumbers
      number (powerset.toAutomaton (powerset.explore other).found) := by
  obtain ⟨start, _, inStart, complete⟩ := sound.explore_isComplete order
  obtain ⟨otherStart, _, inOtherStart, otherComplete⟩ :=
    sound.explore_isComplete other
  have sameStart : otherStart = start :=
    NodeSet.ext fun node => (inOtherStart node).trans (inStart node).symm
  rw [sameStart] at otherComplete
  refine ⟨_, (sound.hasStates order).2.toAutomaton_renumbers sound
    complete.found_nodup otherComplete.found_nodup ?_ ?_⟩
  · rw [otherComplete.head_found, complete.head_found]
  · intro state
    rw [complete.mem_found_iff, otherComplete.mem_found_iff]

end Powerset

namespace Automaton

variable {ι : Type} [LE ι] [DecidableLE ι] {automaton : Automaton ι}

/-- Determinizing a closed automaton in two orders gives the same automaton up to
the numbers of its nodes. -/
theorem determinize_confluent (closed : automaton.IsClosed)
    (order other : VisitOrder) :
    ∃ first second, automaton.determinize order = .ok first ∧
      automaton.determinize other = .ok second ∧
      ∃ number, first.Renumbers number second := by
  obtain ⟨powerset, _, sound, isDeterminized⟩ := closed.exists_powerset
  exact ⟨_, _, isDeterminized order, isDeterminized other,
    sound.explore_renumbers order other⟩

/-- An automaton of which the two orders number the states differently. -/
theorem fork_determinize_confluent :
    let automaton : Automaton Nat :=
      { start := 0
        items := .ofList [(1, 2), (2, 1), (3, 0)]
        nodes :=
          [⟨0, [⟨.singleton 97, 1⟩, ⟨.range 98 99, 2⟩, ⟨.singleton 99, 0⟩]⟩,
            ⟨1, [⟨.singleton 97, 3⟩, ⟨∅, 1⟩]⟩, ⟨2, [⟨.singleton 98, 3⟩]⟩,
            ⟨3, []⟩] }
    automaton.IsClosed ∧
      ∃ first second, automaton.determinize .breadthFirst = .ok first ∧
        automaton.determinize .depthFirst = .ok second ∧
        ∃ number, first.Renumbers number second := by
  intro automaton
  have closed : automaton.IsClosed := ⟨by decide, by decide⟩
  exact ⟨closed, determinize_confluent closed .breadthFirst .depthFirst⟩

end Automaton

end LexGen
