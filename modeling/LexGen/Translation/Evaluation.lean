import LexGen.Definition
import LexGen.Source

/-!
# Evaluating expressions

An expression evaluates to a code set or to a regular expression, given the
fragments its names refer to.  Operators on sets are carried out at once.
Evaluation goes on after an error, so that all errors are reported: an outcome is
the value that was found, if there is one, beside the errors met on the way.
-/

namespace LexGen

/-- What can be wrong with a definition as it is written. -/
inductive Cause where
  | codeOutOfRange (code : Int)
  | whitespaceNotSet
  | duplicateFragment (name : String)
  | duplicateToken (name : String)
  | unsupported (feature : String)
  | differenceOperandNotSet
  | complementOperandNotSet
  | rangeOperandNotCode
  | unionOperandNotSet
  | unknownFragment (name : String)
deriving DecidableEq

structure Issue where
  location : Location
  cause : Cause
deriving DecidableEq

def Cause.message : Cause → String
  | .codeOutOfRange code =>
      "chr argument of " ++ toString code ++ " must be in the range -1..255"
  | .whitespaceNotSet =>
      "whitespace must be a character class rather than a regular expression"
  | .duplicateFragment name => "Fragment " ++ name ++ " is already defined"
  | .duplicateToken name => "Token " ++ name ++ " is already defined"
  | .unsupported feature =>
      "Feature \"" ++ feature ++ "\" is not yet implemented"
  | .differenceOperandNotSet =>
      "Minus operator applies only to character class expressions rather than " ++
        "regular expressions"
  | .complementOperandNotSet =>
      "Not operator applies only to a character class expression rather than to " ++
        "a regular expression"
  | .rangeOperandNotCode =>
      "Range operator applies only to character class expressions rather than " ++
        "regular expressions"
  | .unionOperandNotSet =>
      "Union operator applies only to character class expressions rather than " ++
        "regular expressions"
  | .unknownFragment name => "Unknown fragment " ++ name

def Issue.message (issue : Issue) : String :=
  issue.cause.message ++ " at " ++ issue.location.render

/-- A value, if one was found, and the issues met on the way, in order. -/
structure Outcome (α : Type) where
  value : Option α
  issues : List Issue

namespace Outcome

variable {α β : Type}

def succeed (value : α) : Outcome α := ⟨some value, []⟩

def fail (location : Location) (cause : Cause) : Outcome α :=
  ⟨none, [⟨location, cause⟩]⟩

def map (function : α → β) (outcome : Outcome α) : Outcome β :=
  ⟨outcome.value.map function, outcome.issues⟩

/-- Go on with the value, if there is one.  Earlier issues come first. -/
def andThen (outcome : Outcome α) (next : α → Outcome β) : Outcome β :=
  match outcome.value with
  | some value =>
      let later := next value
      ⟨later.value, outcome.issues ++ later.issues⟩
  | none => ⟨none, outcome.issues⟩

def both (left : Outcome α) (right : Outcome β) : Outcome (α × β) :=
  ⟨left.value.bind fun first => right.value.map fun second => (first, second),
    left.issues ++ right.issues⟩

/-- The values that were found, however many, and the issues of all. -/
def gather (outcomes : List (Outcome α)) : Outcome (List α) :=
  ⟨some (outcomes.filterMap Outcome.value), outcomes.flatMap Outcome.issues⟩

def asSet (outcome : Outcome Fragment) (location : Location) (cause : Cause) :
    Outcome CodeSet :=
  outcome.andThen fun fragment =>
    match fragment with
    | .set set => succeed set
    | .regex _ => fail location cause

/-- Insist on a set of exactly one code, and take that code. -/
def asCode (outcome : Outcome Fragment) (location : Location) : Outcome Int :=
  (outcome.asSet location .rangeOperandNotCode).andThen fun set =>
    match set.toList with
    | [code] => succeed code
    | _ => fail location .rangeOperandNotCode

end Outcome

namespace Expr

def evaluateCode (location : Location) (value : Int) : Outcome Fragment :=
  if Code.endOfStream ≤ value && value ≤ Code.largest then
    .succeed (.set (.singleton value))
  else .fail location (.codeOutOfRange value)

/-- The literal of a text, whose codes have to be in the domain.  The first one
that is not is reported. -/
def evaluateText (location : Location) (value : String) : Outcome Fragment :=
  match (Code.ofText value).find? fun value => Code.largest < value with
  | some outside => .fail location (.codeOutOfRange outside)
  | none => .succeed (.regex (.literal value))

mutual

/-- Evaluate an expression.  Operands that fail are left out of unions,
sequences and alternatives, and fail every other operator. -/
def evaluate (fragments : Table String Fragment) : Expr → Outcome Fragment
  | .code location value => evaluateCode location value
  | .character location value => evaluateCode location value.toNat
  | .text location value => evaluateText location value
  | .paren _ inner => evaluate fragments inner
  | .many _ inner =>
      (evaluate fragments inner).map fun fragment =>
        .regex (.many fragment.toRegex)
  | .optional _ inner =>
      (evaluate fragments inner).map fun fragment =>
        .regex (.optional fragment.toRegex)
  | .reference location target =>
      match fragments.get? target with
      | some fragment => .succeed fragment
      | none => .fail location (.unknownFragment target)
  | .range _ low high =>
      let low := (evaluate fragments low).asCode low.location
      let high := (evaluate fragments high).asCode high.location
      (low.both high).map fun (low, high) => .set (.range low high)
  | .complement location inner =>
      ((evaluate fragments inner).asSet location .complementOperandNotSet).map
        fun set => .set (.all \ set)
  | .difference _ source removed =>
      let cause := Cause.differenceOperandNotSet
      let source := (evaluate fragments source).asSet source.location cause
      let removed := (evaluate fragments removed).asSet removed.location cause
      (source.both removed).map fun (source, removed) => .set (source \ removed)
  | .union _ members =>
      let sets :=
        List.zipWith
          (fun member outcome =>
            Outcome.asSet outcome member.location .unionOperandNotSet)
          members (evaluateAll fragments members)
      (Outcome.gather sets).map fun sets => .set (sets.foldl CodeSet.union ∅)
  | .sequence _ items =>
      (Outcome.gather (evaluateAll fragments items)).map fun fragments =>
        .regex (.sequence (fragments.map Fragment.toRegex))
  | .alternative _ items =>
      (Outcome.gather (evaluateAll fragments items)).map fun fragments =>
        .regex (.alternative (fragments.map Fragment.toRegex))

def evaluateAll (fragments : Table String Fragment) :
    List Expr → List (Outcome Fragment)
  | [] => []
  | expr :: exprs => evaluate fragments expr :: evaluateAll fragments exprs

end

end Expr

end LexGen
