import LexGen.Automaton.Basic

/-!
# Matching

A matcher moves through an automaton one code at a time.  It follows labelled
transitions only, takes the first one that fits, and is stuck for good once none
does.  Longest match reports the longest prefix of an input that ends at an
accepting node.  Munching takes longest matches off an input one after the other,
until one takes no code or none is found.
-/

namespace LexGen

/-- Where a matcher stands: at a node, which need not exist, or nowhere once it
is stuck. -/
abbrev Position := Option Nat

/-- The position in which a followed reference was found to dangle.  A matcher
stays there. -/
def Dangling.position (dangling : Dangling) : Position := some dangling.node

namespace Automaton

variable {ι : Type}

def initial (automaton : Automaton ι) : Position := some automaton.start

def advance (automaton : Automaton ι) (position : Position) (code : Int) :
    Except Dangling Position :=
  match position with
  | some number => automaton.step number code
  | none => .ok none

def advanceAll (automaton : Automaton ι) :
    Position → List Int → Except Dangling Position
  | position, [] => .ok position
  | position, code :: input => do
      advanceAll automaton (← automaton.advance position code) input

def accepting? (automaton : Automaton ι) (position : Position) : Option ι :=
  position.bind automaton.item?

/-- Move on an input until it ends or the matcher is stuck, and report the item
reached beside the new position. -/
def accepts (automaton : Automaton ι) :
    Position → List Int → Except Dangling (Position × Option ι)
  | position, [] => .ok (position, automaton.accepting? position)
  | position, code :: input => do
      match ← automaton.advance position code with
      | some number => accepts automaton (some number) input
      | none => return (none, none)

/-- The item a fresh matcher reaches on a whole input. -/
def accept? (automaton : Automaton ι) (input : List Int) :
    Except Dangling (Option ι) := do
  return (← automaton.accepts automaton.initial input).2

/-- Continue a longest match: `consumed` codes led to the node, and `longest` is
the best match among them. -/
def longestFrom (automaton : Automaton ι) (number consumed : Nat)
    (longest : Option (Nat × ι)) : List Int →
    Except Dangling (Option (Nat × ι))
  | [] => .ok longest
  | code :: input => do
      match ← automaton.step number code with
      | some target =>
          let here := (automaton.item? target).map fun item => (consumed + 1, item)
          longestFrom automaton target (consumed + 1) (here.or longest) input
      | none => return longest

/-- The length and the item of the longest accepted prefix of the input. -/
def longestMatch (automaton : Automaton ι) (input : List Int) :
    Except Dangling (Option (Nat × ι)) :=
  automaton.longestFrom automaton.start 0
    ((automaton.item? automaton.start).map fun item => (0, item)) input

/-- The lengths and the items of the longest matches taken off the input, and what
is left of it. -/
def munch (automaton : Automaton ι) (input : List Int) :
    Except Dangling (List (Nat × ι) × List Int) := do
  match ← automaton.longestMatch input with
  | none => return ([], input)
  | some (length, item) =>
      if _progress : 0 < length ∧ length ≤ input.length then
        let (taken, left) ← munch automaton (input.drop length)
        return ((length, item) :: taken, left)
      else return ([], input)
termination_by input.length
decreasing_by
  simp only [List.length_drop]
  omega

end Automaton

end LexGen
