import LexGen.Closure
import LexGen.Exploration
import LexGen.Least

/-!
# Powerset of an automaton

The states of the deterministic automaton for an automaton are sets of its nodes
that are closed under free transitions.  This file gives the moves from one such
state to others and explores the states that can be reached from the start.
Building the deterministic automaton does the same with numbers.
-/

namespace LexGen

/-- One way out of a state: the codes that lead to the target. -/
structure Move where
  label : CodeSet
  target : NodeSet
deriving DecidableEq

/-- Count a code among the moves.  It joins the move to its target, which comes
last if it is new. -/
def Move.add (code : Int) (target : NodeSet) : List Move → List Move
  | [] => [⟨.singleton code, target⟩]
  | move :: moves =>
      if move.target = target then
        { move with label := move.label.insert code } :: moves
      else move :: add code target moves

/-- Group codes by the target they lead to, in order of first appearance. -/
def Move.group (arrivals : List (Int × NodeSet)) : List Move :=
  arrivals.foldl (fun moves (code, target) => Move.add code target moves) []

/-- An automaton beside the closure of its free transitions, one row for each
node. -/
structure Powerset (ι : Type) where
  automaton : Automaton ι
  rows : List NodeSet

namespace Powerset

variable {ι : Type}

def ofAutomaton (automaton : Automaton ι) : Except Dangling (Powerset ι) := do
  return ⟨automaton, ← transitiveClosure automaton.freeRows⟩

/-- The closed set of nodes, each of which has to exist. -/
def close (powerset : Powerset ι) (nodes : List Nat) : Except Dangling NodeSet :=
  Closure.gather powerset.rows nodes

def transitionsOf (powerset : Powerset ι) (state : NodeSet) : List Transition :=
  state.nodes.flatMap fun node =>
    match powerset.automaton.nodes[node]? with
    | some node => node.transitions
    | none => []

def alphabet (transitions : List Transition) : CodeSet :=
  transitions.foldl (fun codes transition => codes ∪ transition.label) ∅

def targets (transitions : List Transition) (code : Int) : NodeSet :=
  .ofList <| (transitions.filter fun transition =>
    transition.label.contains code).map Transition.target

/-- The closed sets that the codes lead to, up to the first code that leads to a
node that does not exist. -/
def arrivals (powerset : Powerset ι) (transitions : List Transition) :
    List Int → List (Int × NodeSet) × Option Dangling
  | [] => ([], none)
  | code :: codes =>
      match powerset.close (targets transitions code).nodes with
      | .ok target =>
          let (later, failure) := powerset.arrivals transitions codes
          ((code, target) :: later, failure)
      | .error dangling => ([], some dangling)

/-- The moves out of a state, and the dangling transition that cuts them short,
if there is one.  Codes are tried in ascending order. -/
def moves (powerset : Powerset ι) (state : NodeSet) :
    List Move × Option Dangling :=
  let transitions := powerset.transitionsOf state
  let (arrivals, failure) :=
    powerset.arrivals transitions (alphabet transitions).toList
  (Move.group arrivals, failure)

def neighbours (powerset : Powerset ι) (state : NodeSet) :
    List NodeSet × Option Dangling :=
  let (moves, failure) := powerset.moves state
  (moves.map Move.target, failure)

/-- Explore the states from the start on.  There are no more states than sets of
nodes, which bounds the number of visits. -/
def explore (powerset : Powerset ι) (order : VisitOrder) :
    Exploration NodeSet Dangling :=
  match powerset.close [powerset.automaton.start] with
  | .ok state =>
      Exploration.run order powerset.neighbours
        (Nat.pow 2 powerset.rows.length) (.startingAt state)
  | .error dangling => ⟨[], [], some dangling⟩

/-- The item of a state: the smallest one among its nodes. -/
def item? [LE ι] [DecidableLE ι] (powerset : Powerset ι) (state : NodeSet) :
    Option ι :=
  least? (state.nodes.filterMap powerset.automaton.item?)

end Powerset

end LexGen
