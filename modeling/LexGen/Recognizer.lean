import LexGen.Automaton.Matching
import LexGen.Definition
import LexGen.Powerset.Determinize
import LexGen.Thompson.Builder

/-!
# Recognisers

The recogniser of a list of items is the deterministic automaton that accepts
each item where its expression matches, and the smallest of the items where
several do.

At the top level a scanner looks for tokens, the end of its input and the marks
that open comments.  All of them are items of one recogniser, numbered in the
order of their priority.  The body of a block comment has a recogniser of its own,
in which any byte competes with the marks that close the comment or open another
one.
-/

namespace LexGen

variable {ι : Type} [LE ι] [DecidableLE ι]

def recognizer (items : List (ι × Regex)) : Except Dangling (Automaton ι) :=
  (Automaton.ofItems items).determinize .breadthFirst

def itemEvents (items : List (ι × Regex)) : List Event :=
  Builder.empty.events items

def stateEvents (items : List (ι × Regex)) : List Event :=
  (Automaton.ofItems items).determinizeEvents .breadthFirst

/-! ## Bodies of comments -/

/-- The items of a body that ends with the first closing mark: any byte, and the
mark. -/
def bodyItems (close : Regex) : List (Nat × Regex) :=
  [(0, .oneOf .all), (1, close)]

def nestedBodyItems (opening close : Regex) : List (Nat × Regex) :=
  [(0, .oneOf .all), (1, opening), (2, close)]

def bodyRecognizer (close : Regex) : Except Dangling (Automaton Nat) :=
  recognizer (bodyItems close)

def nestedBodyRecognizer (opening close : Regex) :
    Except Dangling (Automaton Nat) :=
  recognizer (nestedBodyItems opening close)

namespace Comment

def body? : Comment → Option (Except Dangling (Automaton Nat))
  | .line _ => none
  | .block opening close true => some (nestedBodyRecognizer opening close)
  | .block _ close false => some (bodyRecognizer close)

def closeNumber : Comment → Nat
  | .line _ => 1
  | .block _ _ nested => if nested then 2 else 1

def bodyEvents : Comment → List Event
  | .line _ => []
  | .block opening close true =>
      .assemblingNestedBody opening close ::
        (itemEvents (nestedBodyItems opening close) ++
          stateEvents (nestedBodyItems opening close))
  | .block _ close false =>
      .assemblingBody close ::
        (itemEvents (bodyItems close) ++ stateEvents (bodyItems close))

end Comment

/-! ## The top level -/

inductive TopLevelItem where
  | token (index : Nat)
  | endOfStream
  | comment (index : Nat)
deriving DecidableEq

namespace TopLevelItem

/-- The number an item has in the recogniser.  The number after that of the end
of the stream is not used. -/
def number (definition : Definition) : TopLevelItem → Nat
  | .token index => index
  | .endOfStream => definition.tokens.length
  | .comment index => definition.tokens.length + 2 + index

def ofNumber? (definition : Definition) (number : Nat) : Option TopLevelItem :=
  let tokens := definition.tokens.length
  if number < tokens then some (.token number)
  else if number = tokens then some .endOfStream
  else if tokens + 2 ≤ number ∧
      number - tokens - 2 < definition.comments.length then
    some (.comment (number - tokens - 2))
  else none

end TopLevelItem

def Comment.opening : Comment → Regex
  | .line pattern => pattern
  | .block opening _ _ => opening

namespace Definition

def topLevelItems (definition : Definition) : List (Nat × Regex) :=
  (definition.tokens.mapIdx fun index token =>
    (TopLevelItem.number definition (.token index), token.pattern)) ++
  [(TopLevelItem.number definition .endOfStream,
    .oneOf (.singleton Code.endOfStream))] ++
  (definition.comments.mapIdx fun index comment =>
    (TopLevelItem.number definition (.comment index), comment.opening))

def topLevel (definition : Definition) : Except Dangling (Automaton Nat) :=
  recognizer definition.topLevelItems

def topLevelEvents (definition : Definition) : List Event :=
  itemEvents definition.topLevelItems ++
    .assemblingTopLevel definition.tokens.length definition.comments.length ::
      stateEvents definition.topLevelItems

end Definition

/-- Whether the recogniser of the expression alone accepts the word. -/
def Regex.acceptsAlone (regex : Regex) (word : List Int) : Bool :=
  match recognizer [((0 : Nat), regex)] >>= fun own => own.accept? word with
  | .ok answer => answer.isSome
  | .error _ => false

/-- The definition has an item of this index. -/
def TopLevelItem.IsIn (definition : Definition) : TopLevelItem → Prop
  | .token index => index < definition.tokens.length
  | .endOfStream => True
  | .comment index => index < definition.comments.length

namespace Definition

/-- The item of highest priority whose own recogniser accepts the word. -/
def classify (definition : Definition) (word : List Int) : Option TopLevelItem :=
  match definition.tokens.findIdx? fun token => token.pattern.acceptsAlone word with
  | some index => some (.token index)
  | none =>
      if word = [Code.endOfStream] then some .endOfStream
      else
        (definition.comments.findIdx? fun comment =>
          comment.opening.acceptsAlone word).map .comment

/-- The item that the recogniser of the top level accepts the word as. -/
def topLevelItem? (definition : Definition) (word : List Int) :
    Except Dangling (Option TopLevelItem) := do
  let recognizer ← definition.topLevel
  return (← recognizer.accept? word).bind (TopLevelItem.ofNumber? definition)

end Definition

end LexGen
