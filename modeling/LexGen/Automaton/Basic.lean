import LexGen.CodeSet.Basic
import LexGen.NodeSet
import LexGen.Table

/-!
# Automata

An automaton is a list of nodes with labelled transitions, a start node and the
items its accepting nodes stand for.  Nodes are numbered by their position in
the list.  Numbers that no node has may occur as the start, as targets and as
accepting nodes: holding one is harmless, and following it is an error that
names it.
-/

namespace LexGen

/-- A transition to a target node.  A label with members consumes one of its
codes, and a label without members makes the transition free. -/
structure Transition where
  label : CodeSet
  target : Nat
deriving DecidableEq

def Transition.isFree (transition : Transition) : Bool :=
  transition.label.isEmpty

/-- A node of an automaton.  Its name is shown in drawings and takes part in
comparisons; transitions refer to nodes by position instead. -/
structure Node where
  name : Nat
  transitions : List Transition
deriving DecidableEq

namespace Node

/-- The targets of the free transitions, in order and with repetitions. -/
def freeTargets (node : Node) : List Nat :=
  (node.transitions.filter Transition.isFree).map Transition.target

def target? (node : Node) (code : Int) : Option Nat :=
  (node.transitions.find? fun transition => transition.label.contains code).map
    Transition.target

end Node

/-- Whether no label is empty and none meets an earlier one or the codes seen
before them all. -/
def areSeparate (seen : CodeSet) : List Transition → Bool
  | [] => true
  | transition :: later =>
      !transition.isFree && seen.isDisjoint transition.label &&
        areSeparate (seen ∪ transition.label) later

/-- A reference to a node that does not exist was followed. -/
structure Dangling where
  node : Nat
deriving DecidableEq

structure Automaton (ι : Type) where
  start : Nat
  items : Table Nat ι
  nodes : List Node

namespace Automaton

variable {ι : Type}

instance [DecidableEq ι] : DecidableEq (Automaton ι) :=
  fun left right =>
    decidable_of_iff
      (left.start = right.start ∧ left.items = right.items ∧
        left.nodes = right.nodes) <| by
      cases left
      cases right
      simp

def node (automaton : Automaton ι) (number : Nat) : Except Dangling Node :=
  match automaton.nodes[number]? with
  | some node => .ok node
  | none => .error ⟨number⟩

def startNode (automaton : Automaton ι) : Except Dangling Node :=
  automaton.node automaton.start

/-- The item of a node, if the node is accepting.  The node need not exist. -/
def item? (automaton : Automaton ι) (number : Nat) : Option ι :=
  automaton.items.get? number

theorem item?_eq_some_iff {automaton : Automaton ι} {number : Nat} {item : ι} :
    automaton.item? number = some item ↔
      (number, item) ∈ automaton.items.entries :=
  Table.lookup_eq_some_iff automaton.items.ascending

/-- Where the first transition from a node that takes the code leads, if there
is one.  The node has to exist, and the target does not. -/
def step (automaton : Automaton ι) (number : Nat) (code : Int) :
    Except Dangling (Option Nat) := do
  return (← automaton.node number).target? code

def freeTargets (automaton : Automaton ι) (number : Nat) :
    Except Dangling (List Nat) := do
  return (← automaton.node number).freeTargets

def freeRows (automaton : Automaton ι) : List NodeSet :=
  automaton.nodes.map fun node => .ofList node.freeTargets

def transitionCount (automaton : Automaton ι) : Nat :=
  (automaton.nodes.flatMap Node.transitions).length

/-- Whether there are no free transitions and no code is taken by two
transitions of one node. -/
def isDeterministic (automaton : Automaton ι) : Bool :=
  automaton.nodes.all fun node => areSeparate ∅ node.transitions

end Automaton

end LexGen
