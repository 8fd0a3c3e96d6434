import LexGen.Event
import LexGen.Thompson.Lowering

/-!
# Building automata from items

A builder collects items with the expressions they are matched by.  Every item
gets a final node of its own, and all of them are entered from one start node
through free transitions.
-/

namespace LexGen

/-- An automaton under construction: the number of its nodes, its edges in the
order in which they were added, and the items of its final nodes. -/
structure Builder (ι : Type) where
  count : Nat
  edges : List Edge
  items : Table Nat ι

namespace Builder

variable {ι : Type}

/-- The node all items are entered from. -/
def start : Nat := 0

def empty : Builder ι := ⟨1, [], ∅⟩

/-- The fragment an expression adds to the builder, after its final node. -/
def fragmentOf (builder : Builder ι) (regex : Regex) : Lowered :=
  regex.lower builder.count (builder.count + 1)

def addItem (builder : Builder ι) (item : ι) (regex : Regex) : Builder ι :=
  let fragment := builder.fragmentOf regex
  { count := fragment.next
    edges := builder.edges ++ fragment.edges ++ [.free start fragment.entry]
    items := builder.items.insert builder.count item }

def addItems (builder : Builder ι) (items : List (ι × Regex)) : Builder ι :=
  items.foldl (fun builder (item, regex) => builder.addItem item regex) builder

def nodeAt (builder : Builder ι) (number : Nat) : Node where
  name := number
  transitions :=
    (builder.edges.filter fun edge => edge.source == number).map Edge.transition

def build (builder : Builder ι) : Automaton ι where
  start := start
  items := builder.items
  nodes := (List.range builder.count).map builder.nodeAt

def itemEvent (builder : Builder ι) (regex : Regex) : Event :=
  let fragment := builder.fragmentOf regex
  .itemAdded regex builder.count fragment.next fragment.entry builder.count

def events (builder : Builder ι) : List (ι × Regex) → List Event
  | [] => []
  | (item, regex) :: items =>
      builder.itemEvent regex :: events (builder.addItem item regex) items

end Builder

def Automaton.ofItems {ι : Type} (items : List (ι × Regex)) : Automaton ι :=
  (Builder.empty.addItems items).build

end LexGen
