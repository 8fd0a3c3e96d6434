import LexGen.NodeSet
import LexGen.Regex.Printer

/-!
# Events

Building automata and reading definitions are reported as events.  Each has a
level and a message; the functions that list the events of an activity stand
beside the activity.
-/

namespace LexGen

inductive Level where
  | debug
  | trace
deriving DecidableEq

inductive Event where
  /-- An item was added to a builder: the nodes from `first` up to but not
  including `past` are its own. -/
  | itemAdded (regex : Regex) (first past entry final : Nat)
  | stateFound (number : Nat) (state : NodeSet)
  | determinized (nodes states accepting : Nat)
  | assemblingTopLevel (tokens comments : Nat)
  | assemblingBody (close : Regex)
  | assemblingNestedBody (opening close : Regex)
  | translated (tokens comments : Nat)
  | translationFailed (errors : Nat)

namespace NodeSet

def render (set : NodeSet) : String :=
  "\x7b" ++ String.intercalate ", " (set.nodes.map toString) ++ "\x7d"

end NodeSet

namespace Event

def level : Event → Level
  | .stateFound _ _ => .trace
  | _ => .debug

def message : Event → String
  | .itemAdded regex first past entry final =>
      "added item for " ++ regex.render ++ ": nodes " ++ toString first ++ ".." ++
        toString past ++ ", entry " ++ toString entry ++ ", final " ++ toString final
  | .stateFound number state =>
      "DFA state " ++ toString number ++ " = NFA states " ++ state.render
  | .determinized nodes states accepting =>
      "subset construction: " ++ toString nodes ++ " NFA nodes => " ++
        toString states ++ " DFA nodes, " ++ toString accepting ++ " accepting"
  | .assemblingTopLevel tokens comments =>
      "building top-level DFA for " ++ toString tokens ++ " tokens and " ++
        toString comments ++ " comments"
  | .assemblingBody close =>
      "building comment DFA closing on " ++ close.render
  | .assemblingNestedBody opening close =>
      "building nested comment DFA for " ++ opening.render ++ " ... " ++
        close.render
  | .translated tokens comments =>
      "translated definition with " ++ toString tokens ++ " tokens and " ++
        toString comments ++ " comments"
  | .translationFailed errors =>
      "translation failed with " ++ toString errors ++ " errors"

end Event

end LexGen
