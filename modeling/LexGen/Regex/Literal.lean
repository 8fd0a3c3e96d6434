import LexGen.Regex.Basic

/-!
# Literal expressions

Some expressions match a single text only and say so by their shape: sets of one
code, literals and sequences of these.  `spelling?` gives that text, and
`literalMatch?` asks how much of an input such an expression takes.
Repetitions, options and alternatives are never taken literally.
`literalMatchBySlices?` finds the same with offsets into the input, which must
not point beyond its end.
-/

namespace LexGen

/-- A slice of an input was to begin beyond its end. -/
structure BeyondEnd where
  offset : Nat
deriving DecidableEq

namespace Regex

mutual

/-- The codes an expression spells, if it is literal. -/
def spelling? : Regex → Option (List Int)
  | .oneOf set => if set.isSingleton then some set.toList else none
  | .literal text => some (Code.ofText text)
  | .sequence items => spellingAll? items
  | .many _ | .optional _ | .alternative _ => none

def spellingAll? : List Regex → Option (List Int)
  | [] => some []
  | item :: items => do
      let first ← spelling? item
      let later ← spellingAll? items
      return first ++ later

end

mutual

/-- How many leading codes of the input a literal expression takes, if the
expression is literal and the input begins with it. -/
def literalMatch? : Regex → List Int → Option Nat
  | .oneOf set, input =>
      match input with
      | code :: _ =>
          if set.isSingleton && set.contains code then some 1 else none
      | [] => none
  | .literal text, input =>
      if (Code.ofText text).isPrefixOf input then
        some (Code.ofText text).length
      else none
  | .sequence items, input => literalMatchAll? items input
  | .many _, _ | .optional _, _ | .alternative _, _ => none

def literalMatchAll? : List Regex → List Int → Option Nat
  | [], _ => some 0
  | item :: items, input => do
      let first ← literalMatch? item input
      let later ← literalMatchAll? items (input.drop first)
      return first + later

end

def slice (input : List Int) (offset : Nat) : Except BeyondEnd (List Int) :=
  if offset ≤ input.length then .ok (input.drop offset) else .error ⟨offset⟩

mutual

/-- How many leading codes of the input a literal expression takes, where the
items of a sequence share one input and an offset into it. -/
def literalMatchBySlices? : Regex → List Int → Except BeyondEnd (Option Nat)
  | .oneOf set, input => .ok ((oneOf set).literalMatch? input)
  | .literal text, input => .ok ((literal text).literalMatch? input)
  | .sequence items, input => literalMatchAllBySlices? items input 0
  | .many _, _ | .optional _, _ | .alternative _, _ => .ok none

/-- Go on behind the codes that were matched already.  Each item is asked about
the slice that begins there. -/
def literalMatchAllBySlices? :
    List Regex → List Int → Nat → Except BeyondEnd (Option Nat)
  | [], _, matched => .ok (some matched)
  | item :: items, input, matched => do
      match ← literalMatchBySlices? item (← slice input matched) with
      | some taken => literalMatchAllBySlices? items input (matched + taken)
      | none => return none

end

end Regex

end LexGen
