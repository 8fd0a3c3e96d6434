import LexGen.Automaton.Basic
import Mathlib.Data.List.Shortlex

/-!
# Paths through automata

A path reads a word by following free transitions at no cost and labelled ones
for one code each.  Paths know nothing of matchers, closures and states: they
are what those are measured by.

A numbered automaton names its nodes by their positions and gives items to nodes only.
An orderly automaton is numbered from its start node on, too, holds no node that
cannot be reached, and lists the transitions of each node in the order of their
smallest codes.  Of the words that lead to a node the first is the shortest one, and
among those of the same length the one with the smallest code where they begin to
differ.
-/

namespace LexGen

namespace Automaton

variable {ι : Type}

/-- The automaton has a node of this number that the transition leaves. -/
def Leaves (automaton : Automaton ι) (number : Nat)
    (transition : Transition) : Prop :=
  ∃ node, automaton.nodes[number]? = some node ∧ transition ∈ node.transitions

/-- Some path from the first node to the second one reads the word. -/
inductive Reads (automaton : Automaton ι) : Nat → List Int → Nat → Prop where
  | stay (number : Nat) :
      Reads automaton number [] number
  | free {number last : Nat} {transition : Transition} {word : List Int} :
      automaton.Leaves number transition →
      transition.isFree = true →
      Reads automaton transition.target word last →
      Reads automaton number word last
  | consume {number last : Nat} {transition : Transition} {code : Int}
      {word : List Int} :
      automaton.Leaves number transition →
      code ∈ transition.label →
      Reads automaton transition.target word last →
      Reads automaton number (code :: word) last

def Reaches (automaton : Automaton ι) (first last : Nat) : Prop :=
  ∃ word, automaton.Reads first word last

/-- The start node and the targets of all transitions exist. -/
structure IsClosed (automaton : Automaton ι) : Prop where
  start_lt : automaton.start < automaton.nodes.length
  target_lt : ∀ node ∈ automaton.nodes, ∀ transition ∈ node.transitions,
    transition.target < automaton.nodes.length

theorem Reads.append {automaton : Automaton ι} {first middle last : Nat}
    {word later : List Int} (path : automaton.Reads first word middle)
    (continuation : automaton.Reads middle later last) :
    automaton.Reads first (word ++ later) last := by
  induction path with
  | stay number => exact continuation
  | free leaves isFree _ further => exact .free leaves isFree (further continuation)
  | consume leaves member _ further =>
      exact .consume leaves member (further continuation)

end Automaton

/-- The transitions of a node have labels with codes, no two of which share one,
lead to different targets, and come in the order of their smallest codes. -/
structure Node.IsOrderly (node : Node) : Prop where
  consumes : ∀ transition ∈ node.transitions, transition.isFree = false
  apart : node.transitions.Pairwise fun earlier later =>
    ∀ code ∈ earlier.label, code ∉ later.label
  targets_nodup : (node.transitions.map Transition.target).Nodup
  ascending : node.transitions.Pairwise fun earlier later =>
    ∃ low high, earlier.label.first? = some low ∧
      later.label.first? = some high ∧ low < high

/-- Nodes are named by their position, and only nodes have items.  Start and targets may
be anything. -/
structure Automaton.IsNumbered {ι : Type} (automaton : Automaton ι) : Prop where
  name_eq : ∀ (number : Nat) (node : Node),
    automaton.nodes[number]? = some node → node.name = number
  item_lt : ∀ entry ∈ automaton.items.entries,
    entry.1 < automaton.nodes.length

/-- The start node is the first one, nodes are named by their position, their
transitions are orderly and lead to nodes, every node can be reached, and only
nodes have items. -/
structure Automaton.IsOrderly {ι : Type} (automaton : Automaton ι) : Prop where
  start_eq_zero : automaton.start = 0
  name_eq : ∀ (number : Nat) (node : Node),
    automaton.nodes[number]? = some node → node.name = number
  isClosed : automaton.IsClosed
  node_isOrderly : ∀ node ∈ automaton.nodes, node.IsOrderly
  reaches : ∀ number, number < automaton.nodes.length →
    automaton.Reaches automaton.start number
  item_lt : ∀ entry ∈ automaton.items.entries,
    entry.1 < automaton.nodes.length

/-- The shorter word comes first.  Words of one length are compared code by code. -/
def Precedes (word other : List Int) : Prop :=
  List.Shortlex (fun low high => low < high) word other

namespace Automaton

variable {ι : Type}

/-- The word leads from the start to the node, and it comes before every other word
that does. -/
structure IsFirstWordTo (automaton : Automaton ι) (number : Nat) (word : List Int) :
    Prop where
  path : automaton.Reads automaton.start word number
  precedes : ∀ other, automaton.Reads automaton.start other number →
    other ≠ word → Precedes word other

/-- The nodes that are mentioned, in order: the start, and then the targets of the
transitions, those of earlier nodes first. -/
def mentions (automaton : Automaton ι) : List Nat :=
  automaton.start ::
    automaton.nodes.flatMap fun node => node.transitions.map Transition.target

end Automaton

end LexGen
