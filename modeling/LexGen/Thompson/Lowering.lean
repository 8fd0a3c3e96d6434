import LexGen.Automaton.Basic
import LexGen.Regex.Basic

/-!
# Lowering regular expressions to nodes

An expression becomes a fragment of an automaton that ends at a given exit node.
New nodes are numbered from a given number on, and the fragment lists its edges
in the order in which they are added to their nodes.  Fragments share their exit
with whatever follows them, so a repetition loops through the exit itself.

How many nodes and transitions there will be can be counted without lowering.  The
exit of an expression is not counted among its nodes, since it is there before the
expression is lowered.
-/

namespace LexGen

structure Edge where
  source : Nat
  transition : Transition
deriving DecidableEq

namespace Edge

def labelled (source : Nat) (label : CodeSet) (target : Nat) : Edge :=
  ⟨source, ⟨label, target⟩⟩

def free (source target : Nat) : Edge := labelled source ∅ target

end Edge

/-- A lowered expression: its entry node, the first number that is still unused
and the edges added. -/
structure Lowered where
  entry : Nat
  next : Nat
  edges : List Edge
deriving DecidableEq

namespace Lowered

/-- The fragment without nodes and edges, which is entered at its exit. -/
def trivial (exit next : Nat) : Lowered := ⟨exit, next, []⟩

def withEdges (fragment : Lowered) (edges : List Edge) : Lowered :=
  { fragment with edges := fragment.edges ++ edges }

end Lowered

namespace Regex

/-- Lower codes to a chain of nodes, one for each code.  The chain is built from
its exit backwards, and a code outside the domain gives a free edge. -/
def lowerCodes : List Int → (exit next : Nat) → Lowered
  | [], exit, next => .trivial exit next
  | code :: codes, exit, next =>
      let later := lowerCodes codes exit next
      ⟨later.next, later.next + 1,
        later.edges ++ [.labelled later.next (.singleton code) later.entry]⟩

mutual

/-- Lower an expression to a fragment that ends at `exit`. -/
def lower : Regex → (exit next : Nat) → Lowered
  | .oneOf set, exit, next => ⟨next, next + 1, [.labelled next set exit]⟩
  | .literal text, exit, next => lowerCodes (Code.ofText text) exit next
  | .many inner, exit, next =>
      let fragment := lower inner exit next
      fragment.withEdges
        [.free exit fragment.entry, .free fragment.entry exit]
  | .optional inner, exit, next =>
      let fragment := lower inner exit next
      fragment.withEdges [.free fragment.entry exit]
  | .sequence items, exit, next => lowerSequence items exit next
  | .alternative items, exit, next =>
      match items with
      | [] => .trivial exit next
      | [only] => lower only exit next
      | first :: second :: later =>
          lowerBranches next (first :: second :: later) exit (next + 1)

/-- Lower items that follow one another.  The last one is lowered first, and
each of the others ends where the one after it is entered. -/
def lowerSequence : List Regex → (exit next : Nat) → Lowered
  | [], exit, next => .trivial exit next
  | item :: items, exit, next =>
      let later := lowerSequence items exit next
      let first := lower item later.entry later.next
      ⟨first.entry, first.next, later.edges ++ first.edges⟩

/-- Lower items that share their exit and are all entered from one node. -/
def lowerBranches (branch : Nat) : List Regex → (exit next : Nat) → Lowered
  | [], _, next => .trivial branch next
  | item :: items, exit, next =>
      let first := lower item exit next
      let later := lowerBranches branch items exit first.next
      ⟨branch, later.next,
        first.edges ++ .free branch first.entry :: later.edges⟩

end

mutual

/-- The number of nodes an expression is lowered to. -/
def nodeCount : Regex → Nat
  | .oneOf _ => 1
  | .literal text => text.length
  | .many inner => nodeCount inner
  | .optional inner => nodeCount inner
  | .sequence items => nodeCountAll items
  | .alternative items =>
      match items with
      | [] => 0
      | [only] => nodeCount only
      | first :: second :: later => 1 + nodeCountAll (first :: second :: later)

def nodeCountAll : List Regex → Nat
  | [] => 0
  | item :: items => nodeCount item + nodeCountAll items

end

mutual

/-- The number of transitions an expression is lowered to. -/
def edgeCount : Regex → Nat
  | .oneOf _ => 1
  | .literal text => text.length
  | .many inner => edgeCount inner + 2
  | .optional inner => edgeCount inner + 1
  | .sequence items => edgeCountAll items
  | .alternative items =>
      match items with
      | [] => 0
      | [only] => edgeCount only
      | first :: second :: later =>
          (first :: second :: later).length +
            edgeCountAll (first :: second :: later)

def edgeCountAll : List Regex → Nat
  | [] => 0
  | item :: items => edgeCount item + edgeCountAll items

end

end Regex

end LexGen
