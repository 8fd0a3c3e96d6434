import LexGen.Automaton.Basic
import LexGen.CodeSet.Order

/-!
# Drawing automata

An automaton is drawn as a Graphviz digraph.  Accepting nodes are double circles
labelled with their item, free transitions are labelled `ε`, and every label
stands in double quotes.  Backslashes protect what would end a label, and whoever
reads it takes the character behind a backslash for itself.
-/

namespace LexGen

namespace Text

/-- The text with every occurrence of the character replaced. -/
def replace (text : String) (replaced : Char) (replacement : String) : String :=
  String.join <| text.toList.map fun character =>
    if character = replaced then replacement else String.singleton character

/-- Escape a label by one replacement after the other.  The backslashes come first, so
that those put before double quotes are not doubled. -/
def escapeLabelInTurn (label : String) : String :=
  replace (replace label '\\' "\\\\") '"' "\\\""

/-- Read a label up to the double quote that closes it.  There is none if the text ends
earlier or a backslash stands before it. -/
def readLabel : List Char → Option (List Char × List Char)
  | [] => none
  | '"' :: rest => some ([], rest)
  | '\\' :: [] => none
  | '\\' :: character :: text =>
      (readLabel text).map fun (label, rest) => (character :: label, rest)
  | character :: text =>
      (readLabel text).map fun (label, rest) => (character :: label, rest)

def escapeLabel (label : String) : String :=
  String.join <| label.toList.map fun character =>
    if character.toNat = 0x5c then "\\\\"
    else if character.toNat = 0x22 then "\\\""
    else String.singleton character

end Text

namespace Transition

def drawnLabel (transition : Transition) : String :=
  if transition.isFree then "ε"
  else Text.escapeLabel transition.label.render

def draw (source : Nat) (transition : Transition) : String :=
  "id" ++ toString source ++ " -> id" ++ toString transition.target ++
    " [label=\"" ++ transition.drawnLabel ++ "\"]"

end Transition

namespace Automaton

variable {ι : Type}

/-- The lines that draw a node and the transitions that leave it.  The item is
looked up by the name of the node. -/
def drawNode (showItem : ι → String) (automaton : Automaton ι) (node : Node) :
    List String :=
  let name := toString node.name
  let shape :=
    match automaton.item? node.name with
    | some item =>
        "node[label=\"" ++ name ++ ": " ++ Text.escapeLabel (showItem item) ++
          "\", shape=doublecircle] id" ++ name
    | none => "node[label=\"" ++ name ++ "\", shape=circle] id" ++ name
  shape :: node.transitions.map (Transition.draw node.name)

def drawLines (showItem : ι → String) (automaton : Automaton ι) : List String :=
  ["digraph \x7b", "rankdir=LR", "start[shape=point]",
    "start -> id" ++ toString automaton.start] ++
  automaton.nodes.flatMap (automaton.drawNode showItem) ++
  ["\x7d"]

def draw (showItem : ι → String) (automaton : Automaton ι) : String :=
  String.join ((automaton.drawLines showItem).map (· ++ "\n"))

end Automaton

end LexGen
