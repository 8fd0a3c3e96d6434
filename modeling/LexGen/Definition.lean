import LexGen.Regex.Literal
import LexGen.Table

/-!
# Lexical definitions

A definition holds the tokens to recognise, the comments and the whitespace to
skip, and the fragments the others were written with.  Tokens stand in the order
of their priority: of two tokens that match the same input the earlier one wins.
Names are given once, and adding a name again is an error that changes nothing.

A definition comes about by changes that are asked for one after the other.  A change
is carried out on the definition in place: it may be refused, and what it wrote before
that stays.  The changes made are those that were not refused.
-/

namespace LexGen

/-- A comment to skip: up to where its pattern ends, or up to the end of a body
that has a closing mark.  Nested bodies need as many marks as they open. -/
inductive Comment where
  | line (pattern : Regex)
  | block (opening close : Regex) (nested : Bool)
deriving DecidableEq

inductive Fragment where
  | regex (expression : Regex)
  | set (codes : CodeSet)
deriving DecidableEq

/-- A fragment as an expression: a set stands for one of its codes. -/
def Fragment.toRegex : Fragment → Regex
  | .regex expression => expression
  | .set codes => .oneOf codes

structure Token where
  name : String
  pattern : Regex
deriving DecidableEq

structure Definition where
  tokens : List Token
  comments : List Comment
  whitespace : CodeSet
  fragments : Table String Fragment
deriving DecidableEq

namespace Definition

inductive Refusal where
  | duplicateToken (name : String)
  | duplicateFragment (name : String)
deriving DecidableEq

def Refusal.message : Refusal → String
  | .duplicateToken name => "token " ++ name ++ " is already defined"
  | .duplicateFragment name => "fragment " ++ name ++ " is already defined"

/-- The codes that are whitespace unless a definition says otherwise: the
controls and the space. -/
def defaultWhitespace : CodeSet := .range 0 32

def empty : Definition := ⟨[], [], defaultWhitespace, ∅⟩

instance : EmptyCollection Definition := ⟨empty⟩

def token? (definition : Definition) (name : String) : Option Regex :=
  (definition.tokens.find? fun token => token.name == name).map Token.pattern

def hasToken (definition : Definition) (name : String) : Bool :=
  (definition.token? name).isSome

/-- Add a token before the one at the position, or after all others if there is
no such position. -/
def addToken (definition : Definition) (name : String) (pattern : Regex)
    (position : Option Nat) : Except Refusal Definition :=
  if definition.hasToken name then .error (.duplicateToken name)
  else
    let count := definition.tokens.length
    let place := min (position.getD count) count
    .ok { definition with
      tokens := definition.tokens.insertIdx place ⟨name, pattern⟩ }

def fragment? (definition : Definition) (name : String) : Option Fragment :=
  definition.fragments.get? name

def hasFragment (definition : Definition) (name : String) : Bool :=
  definition.fragments.contains name

def addFragment (definition : Definition) (name : String)
    (fragment : Fragment) : Except Refusal Definition :=
  if definition.hasFragment name then .error (.duplicateFragment name)
  else
    .ok { definition with
      fragments := definition.fragments.insert name fragment }

def addComment (definition : Definition) (comment : Comment) : Definition :=
  { definition with comments := definition.comments ++ [comment] }

def setWhitespace (definition : Definition) (whitespace : CodeSet) :
    Definition :=
  { definition with whitespace }

/-- The first token whose pattern literally spells the whole text. -/
def literalMatch? (definition : Definition) (text : String) : Option Token :=
  let codes := Code.ofText text
  definition.tokens.find? fun token =>
    token.pattern.literalMatch? codes == some codes.length

end Definition

/-! ## Histories of definitions -/

namespace Definition

inductive Change where
  | addToken (name : String) (pattern : Regex) (position : Option Nat)
  | addFragment (name : String) (fragment : Fragment)
  | addComment (comment : Comment)
  | setWhitespace (whitespace : CodeSet)
deriving DecidableEq

/-- A program that writes to a definition and may be refused on its way. -/
abbrev InPlace := ExceptT Refusal (StateM Definition)

namespace Change

/-- The definition that a change leads to. -/
def on (definition : Definition) : Change → Except Refusal Definition
  | .addToken name pattern position =>
      definition.addToken name pattern position
  | .addFragment name fragment => definition.addFragment name fragment
  | .addComment comment => .ok (definition.addComment comment)
  | .setWhitespace whitespace => .ok (definition.setWhitespace whitespace)

def unlessTaken (isTaken : Definition → Bool) (refusal : Refusal)
    (write : Definition → Definition) : InPlace Unit := do
  if isTaken (← get) then throw refusal
  modify write

def placeToken (token : Token) (position : Option Nat) (tokens : List Token) :
    List Token :=
  match position with
  | some position =>
      if position < tokens.length then tokens.insertIdx position token
      else tokens ++ [token]
  | none => tokens ++ [token]

/-- Carry a change out in place. -/
def perform : Change → InPlace Unit
  | .addToken name pattern position =>
      unlessTaken (·.hasToken name) (.duplicateToken name) fun definition =>
        { definition with
          tokens := placeToken ⟨name, pattern⟩ position definition.tokens }
  | .addFragment name fragment =>
      unlessTaken (·.hasFragment name) (.duplicateFragment name)
        fun definition =>
          { definition with
            fragments := definition.fragments.insert name fragment }
  | .addComment comment =>
      modify fun definition =>
        { definition with comments := definition.comments ++ [comment] }
  | .setWhitespace whitespace =>
      modify fun definition => { definition with whitespace }

def token? (name : String) : Change → Option Regex
  | .addToken added pattern _ => if added = name then some pattern else none
  | _ => none

def fragment? (name : String) : Change → Option Fragment
  | .addFragment added fragment => if added = name then some fragment else none
  | _ => none

end Change

/-- What a change answers, and the definition it leaves behind. -/
def attempt (definition : Definition) (change : Change) :
    Except Refusal Unit × Definition :=
  change.perform.run.run definition

/-- The definition after all the changes of a history, refused ones included. -/
def afterAll (definition : Definition) (history : List Change) : Definition :=
  history.foldl (fun definition change => (definition.attempt change).2) definition

/-- The changes of a history that are not refused, in order. -/
def changesMade (definition : Definition) : List Change → List Change
  | [] => []
  | change :: later =>
      let (answer, next) := definition.attempt change
      match answer with
      | .ok () => change :: changesMade next later
      | .error _ => changesMade next later

end Definition

end LexGen
