import LexGen.CodeSet.Basic

/-!
# Regular expressions

A regular expression describes words of codes.  Besides the usual operators it
has literal texts and code sets as its leaves, and sequences and alternatives of
any length.  `Matches` says which words an expression describes, independently of
any automaton, and `isNullable` which expressions describe the empty word.
-/

namespace LexGen

inductive Regex where
  | oneOf (set : CodeSet)
  | literal (text : String)
  /-- Any number of repetitions, none included. -/
  | many (inner : Regex)
  | optional (inner : Regex)
  | sequence (items : List Regex)
  /-- Any one of the items, or nothing if there are none. -/
  | alternative (items : List Regex)

namespace Regex

mutual

def decideEq : (left right : Regex) → Decidable (left = right)
  | .oneOf left, .oneOf right =>
      decidable_of_iff (left = right) (by simp)
  | .literal left, .literal right =>
      decidable_of_iff (left = right) (by simp)
  | .many left, .many right =>
      have := decideEq left right
      decidable_of_iff (left = right) (by simp)
  | .optional left, .optional right =>
      have := decideEq left right
      decidable_of_iff (left = right) (by simp)
  | .sequence left, .sequence right =>
      have := decideEqAll left right
      decidable_of_iff (left = right) (by simp)
  | .alternative left, .alternative right =>
      have := decideEqAll left right
      decidable_of_iff (left = right) (by simp)
  | .oneOf _, .literal _ | .oneOf _, .many _ | .oneOf _, .optional _
  | .oneOf _, .sequence _ | .oneOf _, .alternative _
  | .literal _, .oneOf _ | .literal _, .many _ | .literal _, .optional _
  | .literal _, .sequence _ | .literal _, .alternative _
  | .many _, .oneOf _ | .many _, .literal _ | .many _, .optional _
  | .many _, .sequence _ | .many _, .alternative _
  | .optional _, .oneOf _ | .optional _, .literal _ | .optional _, .many _
  | .optional _, .sequence _ | .optional _, .alternative _
  | .sequence _, .oneOf _ | .sequence _, .literal _ | .sequence _, .many _
  | .sequence _, .optional _ | .sequence _, .alternative _
  | .alternative _, .oneOf _ | .alternative _, .literal _
  | .alternative _, .many _ | .alternative _, .optional _
  | .alternative _, .sequence _ => isFalse nofun

def decideEqAll : (left right : List Regex) → Decidable (left = right)
  | [], [] => isTrue rfl
  | left :: lefts, right :: rights =>
      have := decideEq left right
      have := decideEqAll lefts rights
      decidable_of_iff (left = right ∧ lefts = rights) (by simp)
  | [], _ :: _ | _ :: _, [] => isFalse nofun

end

instance : DecidableEq Regex := decideEq

/-- The word is in the language of the expression. -/
inductive Matches : Regex → List Int → Prop where
  | oneOf {set : CodeSet} {code : Int} :
      code ∈ set → Matches (.oneOf set) [code]
  | literal (text : String) :
      Matches (.literal text) (Code.ofText text)
  | manyNil (inner : Regex) :
      Matches (.many inner) []
  | manyCons {inner : Regex} {first later : List Int} :
      Matches inner first → Matches (.many inner) later →
      Matches (.many inner) (first ++ later)
  | optionalNil (inner : Regex) :
      Matches (.optional inner) []
  | optional {inner : Regex} {word : List Int} :
      Matches inner word → Matches (.optional inner) word
  | sequenceNil :
      Matches (.sequence []) []
  | sequenceCons {item : Regex} {items : List Regex} {first later : List Int} :
      Matches item first → Matches (.sequence items) later →
      Matches (.sequence (item :: items)) (first ++ later)
  | alternativeNil :
      Matches (.alternative []) []
  | alternative {item : Regex} {items : List Regex} {word : List Int} :
      item ∈ items → Matches item word → Matches (.alternative items) word

mutual

/-- Whether the empty word is in the language, read off the expression. -/
def isNullable : Regex → Bool
  | .oneOf _ => false
  | .literal text => text.isEmpty
  | .many _ | .optional _ => true
  | .sequence items => areNullable items
  | .alternative items => items.isEmpty || isSomeNullable items

def areNullable : List Regex → Bool
  | [] => true
  | item :: items => isNullable item && areNullable items

def isSomeNullable : List Regex → Bool
  | [] => false
  | item :: items => isNullable item || isSomeNullable items

end

end Regex

end LexGen
