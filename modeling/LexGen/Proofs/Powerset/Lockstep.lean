import LexGen.Proofs.Exploration
import LexGen.Proofs.Powerset.Simulation

/-!
# Powersets in lockstep

Determinizing looks at the states of a powerset only to compare them, to ask for
their moves and to ask for their items.  Where a one-to-one relation pairs the
states of two powersets and respects all three, both are explored in lockstep and
become the same automaton, the numbers of its nodes included.
-/

namespace LexGen

namespace Move

variable {paired : NodeSet → NodeSet → Prop}

/-- Moves with one label, to paired targets. -/
def Paired (paired : NodeSet → NodeSet → Prop) (left right : Move) : Prop :=
  left.label = right.label ∧ paired left.target right.target

theorem forall₂_add (oneToOne : Relator.BiUnique paired) {moves others : List Move}
    (inOrder : List.Forall₂ (Paired paired) moves others) (code : Int)
    {target other : NodeSet} (isPair : paired target other) :
    List.Forall₂ (Paired paired) (add code target moves) (add code other others) := by
  induction inOrder with
  | nil => exact .cons ⟨rfl, isPair⟩ .nil
  | @cons move counterpart moves others isMove later induction =>
      have sameTarget : move.target = target ↔ counterpart.target = other :=
        Relator.rel_eq oneToOne isMove.2 isPair
      rw [add, add]
      by_cases here : move.target = target
      · rw [if_pos here, if_pos (sameTarget.mp here), isMove.1]
        exact .cons ⟨rfl, isMove.2⟩ later
      · rw [if_neg here, if_neg (sameTarget.not.mp here)]
        exact .cons isMove induction

theorem forall₂_group (oneToOne : Relator.BiUnique paired)
    {arrivals others : List (Int × NodeSet)}
    (inOrder : List.Forall₂
      (fun left right => left.1 = right.1 ∧ paired left.2 right.2)
      arrivals others) :
    List.Forall₂ (Paired paired) (group arrivals) (group others) := by
  rw [group_eq_foldl, group_eq_foldl]
  apply List.rel_foldl ?_ .nil inOrder
  intro moves counterparts areMoves arrival other isArrival
  obtain ⟨sameCode, isPair⟩ := isArrival
  dsimp only
  rw [sameCode]
  exact forall₂_add oneToOne areMoves other.1 isPair

end Move

namespace Powerset

variable {ι : Type} [LE ι] [DecidableLE ι] {left right : Powerset ι}
  {paired : NodeSet → NodeSet → Prop}

/-- The relation pairs states one to one, the start with the start, and paired
states have paired moves and one item. -/
structure InLockstep (paired : NodeSet → NodeSet → Prop) (left right : Powerset ι) :
    Prop where
  oneToOne : Relator.BiUnique paired
  isState : ∀ {state other}, paired state other →
    left.IsState state ∧ right.IsState other
  start : ∀ {start other}, left.close [left.automaton.start] = .ok start →
    right.close [right.automaton.start] = .ok other → paired start other
  moves : ∀ {state other}, paired state other →
    List.Forall₂ (Move.Paired paired) (left.moves state).1 (right.moves other).1
  item?_eq : ∀ {state other}, paired state other →
    left.item? state = right.item? other

namespace InLockstep

variable (lockstep : InLockstep paired left right)
include lockstep

/-- What is found is paired.  The one exploration may be allowed more visits than
the other one, but none that it needs. -/
theorem found_explore (leftSound : left.IsSound) (rightSound : right.IsSound)
    (order : VisitOrder) :
    List.Forall₂ paired (left.explore order).found (right.explore order).found := by
  obtain ⟨start, closes, isStart, _⟩ := leftSound.exists_start
  obtain ⟨other, otherCloses, isOther, _⟩ := rightSound.exists_start
  have visits {state counterpart : NodeSet} (isPair : paired state counterpart) :
      List.Forall₂ paired (left.neighbours state).1 (right.neighbours counterpart).1 ∧
        (left.neighbours state).2 = (right.neighbours counterpart).2 := by
    obtain ⟨isState, isCounterpart⟩ := lockstep.isState isPair
    refine ⟨List.rel_map (fun _ _ isMove => isMove.2) (lockstep.moves isPair), ?_⟩
    exact (leftSound.hasMoves isState).failure_eq_none.trans
      (rightSound.hasMoves isCounterpart).failure_eq_none.symm
  have started := Exploration.InLockstep.startingAt (ε := Dangling)
    (lockstep.start closes otherCloses)
  have ended := (leftSound.run_isComplete isStart order).1
  have otherEnded := (rightSound.run_isComplete isOther order).1
  rw [explore_eq_run closes, explore_eq_run otherCloses,
    ← Exploration.run_add ended (Nat.pow 2 right.rows.length),
    ← Exploration.run_add otherEnded (Nat.pow 2 left.rows.length), Nat.add_comm]
  exact (started.run order lockstep.oneToOne visits _).found

theorem transitionsAmong_eq {states others : List NodeSet}
    (inOrder : List.Forall₂ paired states others) {state other : NodeSet}
    (isPair : paired state other) :
    left.transitionsAmong states state = right.transitionsAmong others other := by
  apply List.forall₂_eq_eq_eq ▸ List.rel_map ?_ (lockstep.moves isPair)
  intro move counterpart isMove
  dsimp only
  rw [isMove.1, idxOf_eq_of_forall₂ lockstep.oneToOne inOrder isMove.2]

theorem toAutomaton_eq {states others : List NodeSet}
    (inOrder : List.Forall₂ paired states others) :
    left.toAutomaton states = right.toAutomaton others := by
  have nodes : (left.toAutomaton states).nodes = (right.toAutomaton others).nodes := by
    apply List.ext_getElem?
    intro number
    rw [toAutomaton, toAutomaton, List.getElem?_mapIdx, List.getElem?_mapIdx]
    have isPair := getElem?_of_forall₂ inOrder number
    generalize states[number]? = state at isPair
    generalize others[number]? = other at isPair
    cases isPair with
    | none => rfl
    | some isPair =>
        rw [Option.map_some, Option.map_some,
          lockstep.transitionsAmong_eq inOrder isPair]
  have items : (left.toAutomaton states).items = (right.toAutomaton others).items := by
    apply Table.ext
    intro number
    apply Option.ext
    intro item
    have onLeft : (left.toAutomaton states).item? number = some item ↔ _ :=
      item?_toAutomaton_eq_some_iff
    have onRight : (right.toAutomaton others).item? number = some item ↔ _ :=
      item?_toAutomaton_eq_some_iff
    refine onLeft.trans (Iff.trans ?_ onRight.symm)
    have isPair := getElem?_of_forall₂ inOrder number
    generalize states[number]? = state at isPair
    generalize others[number]? = other at isPair
    cases isPair with
    | none => simp
    | some isPair => simp [lockstep.item?_eq isPair]
  simp only [toAutomaton] at nodes items ⊢
  rw [nodes, items]

end InLockstep

end Powerset

end LexGen
