import LexGen.Event
import LexGen.Powerset.Basic

/-!
# Building a deterministic automaton

Closed sets of nodes are given numbers in the order in which they are met.  What is
met is put up for a visit, and a visit follows the codes of a state in ascending
order.  The codes that lead to one number make up the label of one transition.
`determinize` builds an automaton in this way.  `toAutomaton` gives the same
automaton for a list of states.
-/

namespace LexGen

/-- Count a code among the transitions of a node.  It joins the transition to its
target, which comes last if it is new. -/
def Transition.add (code : Int) (target : Nat) : List Transition → List Transition
  | [] => [⟨.singleton code, target⟩]
  | transition :: transitions =>
      if transition.target = target then
        { transition with label := transition.label.insert code } :: transitions
      else transition :: add code target transitions

/-- What is built of a deterministic automaton: its nodes, the states they stand for,
the number of each state, and the numbers still to be visited, in the order in which
they were given. -/
structure Construction where
  nodes : List Node
  states : List NodeSet
  mappings : List (NodeSet × Nat)
  toVisit : List Nat

namespace Construction

def empty : Construction := ⟨[], [], [], []⟩

def allocate (construction : Construction) (state : NodeSet) : Construction :=
  let number := construction.nodes.length
  { nodes := construction.nodes ++ [⟨number, []⟩]
    states := construction.states ++ [state]
    mappings := (state, number) :: construction.mappings
    toVisit := construction.toVisit ++ [number] }

def next? (order : VisitOrder) (construction : Construction) :
    Option (Nat × Construction) :=
  match order with
  | .breadthFirst =>
      construction.toVisit.head?.map fun number =>
        (number, { construction with toVisit := construction.toVisit.tail })
  | .depthFirst =>
      construction.toVisit.getLast?.map fun number =>
        (number, { construction with toVisit := construction.toVisit.dropLast })

def setTransitions (construction : Construction) (number : Nat)
    (transitions : List Transition) : Construction :=
  { construction with
    nodes := construction.nodes.modify number fun node =>
      { node with transitions := transitions } }

end Construction

namespace Powerset

variable {ι : Type}

/-- The number of the closed set of the nodes, a new one if the set is new. -/
def resolve (powerset : Powerset ι) (nodes : List Nat) :
    EStateM Dangling Construction Nat := fun construction =>
  match powerset.close nodes with
  | .error dangling => .error dangling construction
  | .ok state =>
      match construction.mappings.lookup state with
      | some number => .ok number construction
      | none => .ok construction.nodes.length (construction.allocate state)

/-- Add codes to the transitions of a node, each to the one that leads to the number
of its targets. -/
def resolveCodes (powerset : Powerset ι) (transitions : List Transition) :
    List Int → List Transition → EStateM Dangling Construction (List Transition)
  | [], grouped => return grouped
  | code :: codes, grouped => do
      let number ← powerset.resolve (targets transitions code).nodes
      powerset.resolveCodes transitions codes (Transition.add code number grouped)

/-- Find the transitions of a node.  Every number that is put up for a visit has a
state. -/
def visit (powerset : Powerset ι) (number : Nat) :
    EStateM Dangling Construction Unit := do
  match (← get).states[number]? with
  | none => return
  | some state =>
      let transitions := powerset.transitionsOf state
      let grouped ←
        powerset.resolveCodes transitions (alphabet transitions).toList []
      modify fun construction => construction.setTransitions number grouped

/-- Visit what is still to be visited, with as many visits at most as given. -/
def visitAll (powerset : Powerset ι) (order : VisitOrder) :
    Nat → EStateM Dangling Construction Unit
  | 0 => return
  | fuel + 1 => do
      match (← get).next? order with
      | none => return
      | some (number, left) =>
          set left
          powerset.visit number
          powerset.visitAll order fuel

/-- Number the start and visit what is met from there.  There are no more states than
sets of nodes, which bounds the number of visits. -/
def construct (powerset : Powerset ι) (order : VisitOrder) :
    EStateM Dangling Construction Nat := do
  let start ← powerset.resolve [powerset.automaton.start]
  powerset.visitAll order (Nat.pow 2 powerset.rows.length)
  return start

/-- The transitions of a state, when the states are numbered by their position
in a list. -/
def transitionsAmong (powerset : Powerset ι) (states : List NodeSet)
    (state : NodeSet) : List Transition :=
  (powerset.moves state).1.map fun move =>
    ⟨move.label, states.idxOf move.target⟩

def itemsOf [LE ι] [DecidableLE ι] (powerset : Powerset ι)
    (states : List NodeSet) : Table Nat ι :=
  .ofList <| states.zipIdx.filterMap fun (state, number) =>
    (powerset.item? state).map fun item => (number, item)

/-- The automaton whose nodes are the states of a list, the first of which is
the start. -/
def toAutomaton [LE ι] [DecidableLE ι] (powerset : Powerset ι)
    (states : List NodeSet) : Automaton ι where
  start := 0
  items := powerset.itemsOf states
  nodes := states.mapIdx fun number state =>
    ⟨number, powerset.transitionsAmong states state⟩

end Powerset

namespace Automaton

variable {ι : Type} [LE ι] [DecidableLE ι]

def determinize (automaton : Automaton ι) (order : VisitOrder) :
    Except Dangling (Automaton ι) := do
  let powerset ← Powerset.ofAutomaton automaton
  match (powerset.construct order).run .empty with
  | .ok start construction =>
      return ⟨start, powerset.itemsOf construction.states, construction.nodes⟩
  | .error dangling _ => .error dangling

/-- What determinizing reports: the states in the order in which they are found,
and a summary unless a dangling reference ends the construction. -/
def determinizeEvents (automaton : Automaton ι) (order : VisitOrder) :
    List Event :=
  let found (construction : Construction) :=
    construction.states.zipIdx.map fun (state, number) =>
      Event.stateFound number state
  match Powerset.ofAutomaton automaton with
  | .error _ => []
  | .ok powerset =>
      match (powerset.construct order).run .empty with
      | .error _ construction => found construction
      | .ok _ construction =>
          found construction ++
            [.determinized automaton.nodes.length construction.nodes.length
              (powerset.itemsOf construction.states).entries.length]

end Automaton

end LexGen
