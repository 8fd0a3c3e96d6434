import LexGen.Automaton.Reachability
import Mathlib.Data.List.Forall2
import Mathlib.Data.Set.Function

/-!
# Automata up to the numbers of their nodes

Two automata that differ in the numbers of their nodes only do the same.  A
renumbering gives every node of the one automaton the number of its counterpart
in the other one.  Automata that present the same graph may differ in more that
says nothing about the graph: the names of nodes, and the order and the
repetition of transitions.  Reordered automata differ in the order of transitions
only.
-/

namespace LexGen

def Transition.renumber (number : Nat → Nat) (transition : Transition) :
    Transition :=
  { transition with target := number transition.target }

namespace Node

/-- The transitions of the node that take the code, in order and with repetitions. -/
def takers (node : Node) (code : Int) : List Transition :=
  node.transitions.filter fun transition => transition.label.contains code

/-- The nodes have the same name and the same transitions, each as often, in any
order. -/
structure Reorders (left right : Node) : Prop where
  name_eq : right.name = left.name
  transitions_perm : right.transitions.Perm left.transitions

end Node

namespace Automaton

variable {ι : Type}

/-- The numbers match the nodes of two automata one to one.  The start nodes
match, and a node has the transitions of its counterpart, in the same order, with
matching targets, and its item. -/
structure Renumbers (number : Nat → Nat) (left right : Automaton ι) : Prop where
  isClosed : left.IsClosed
  bijective : Set.BijOn number {place | place < left.nodes.length}
    {place | place < right.nodes.length}
  start_eq : right.start = number left.start
  transitions_eq : ∀ place node, left.nodes[place]? = some node →
    ∃ counterpart, right.nodes[number place]? = some counterpart ∧
      counterpart.transitions = node.transitions.map (.renumber number)
  item?_eq : ∀ place, place < left.nodes.length →
    right.item? (number place) = left.item? place

/-- The numbers match the nodes of two automata one to one.  The start nodes
match, and the set of the transitions that leave a node is that of its
counterpart, with matching targets.  Matching nodes have the same item. -/
structure PresentsSameGraph (number : Nat → Nat) (left right : Automaton ι) :
    Prop where
  bijective : Set.BijOn number {place | place < left.nodes.length}
    {place | place < right.nodes.length}
  start_eq : right.start = number left.start
  leaves_iff : ∀ place, place < left.nodes.length → ∀ transition,
    right.Leaves (number place) transition ↔
      ∃ original, left.Leaves place original ∧
        original.renumber number = transition
  item?_eq : ∀ place, place < left.nodes.length →
    right.item? (number place) = left.item? place

/-- The automata differ in the order of the transitions of their nodes only. -/
structure Reorders (left right : Automaton ι) : Prop where
  start_eq : right.start = left.start
  items_eq : right.items = left.items
  nodes : List.Forall₂ Node.Reorders left.nodes right.nodes

end Automaton

end LexGen
