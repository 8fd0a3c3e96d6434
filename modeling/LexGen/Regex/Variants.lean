import LexGen.Regex.Basic
import Mathlib.Data.List.Forall2

/-!
# Ways to write a regular expression

*Regrouped* expressions differ in how their parts are put together: sequences within
sequences, sequences and alternatives with one item or none, and texts spelled out as
sequences of their characters.  *Respelled* expressions differ in the order of the
items of an alternative, and in repetitions and options directly within one another.
Such steps may be taken anywhere in an expression, and in the expressions of a list
of items.  *Twins* differ in which of their sequences and alternatives with one item
or none are which: neither the space nor the bar is ever written in these.
-/

namespace LexGen

namespace Regex

/-- A text as the sequence of its characters, each of which is a class of its own. -/
def spelledOut (text : String) : Regex :=
  .sequence ((Code.ofText text).map fun code => .oneOf (.singleton code))

/-- The expressions are the same up to how their parts are put together, at any
depth. -/
inductive Regrouped : Regex → Regex → Prop where
  | refl (regex : Regex) : Regrouped regex regex
  | symm {regex other : Regex} : Regrouped regex other → Regrouped other regex
  | trans {regex middle other : Regex} :
      Regrouped regex middle → Regrouped middle other → Regrouped regex other
  | splice (before inner after : List Regex) :
      Regrouped (.sequence (before ++ .sequence inner :: after))
        (.sequence (before ++ inner ++ after))
  | sequenceOne (only : Regex) : Regrouped (.sequence [only]) only
  | alternativeOne (only : Regex) : Regrouped (.alternative [only]) only
  | sequenceNone : Regrouped (.sequence []) (.literal "")
  | alternativeNone : Regrouped (.alternative []) (.literal "")
  | spellOut (text : String) : Regrouped (.literal text) (spelledOut text)
  | many {inner other : Regex} :
      Regrouped inner other → Regrouped (.many inner) (.many other)
  | optional {inner other : Regex} :
      Regrouped inner other → Regrouped (.optional inner) (.optional other)
  | sequence (before after : List Regex) {item other : Regex} :
      Regrouped item other →
      Regrouped (.sequence (before ++ item :: after))
        (.sequence (before ++ other :: after))
  | alternative (before after : List Regex) {item other : Regex} :
      Regrouped item other →
      Regrouped (.alternative (before ++ item :: after))
        (.alternative (before ++ other :: after))

end Regex

/-- The same items in the same order, each with a regrouping of its expression. -/
def RegroupedItems {ι : Type} (items others : List (ι × Regex)) : Prop :=
  List.Forall₂ (fun item other => item.1 = other.1 ∧ item.2.Regrouped other.2)
    items others

namespace Regex

/-- The expressions are the same up to the order of the items of alternatives and
up to redundant repetitions and options, at any depth. -/
inductive Respelled : Regex → Regex → Prop where
  | refl (regex : Regex) : Respelled regex regex
  | symm {regex other : Regex} : Respelled regex other → Respelled other regex
  | trans {regex middle other : Regex} :
      Respelled regex middle → Respelled middle other → Respelled regex other
  | permuted {items others : List Regex} :
      items.Perm others → Respelled (.alternative items) (.alternative others)
  | manyMany (inner : Regex) : Respelled (.many (.many inner)) (.many inner)
  | manyOptional (inner : Regex) :
      Respelled (.many (.optional inner)) (.many inner)
  | optionalMany (inner : Regex) :
      Respelled (.optional (.many inner)) (.many inner)
  | optionalOptional (inner : Regex) :
      Respelled (.optional (.optional inner)) (.optional inner)
  | many {inner other : Regex} :
      Respelled inner other → Respelled (.many inner) (.many other)
  | optional {inner other : Regex} :
      Respelled inner other → Respelled (.optional inner) (.optional other)
  | sequence (before after : List Regex) {item other : Regex} :
      Respelled item other →
      Respelled (.sequence (before ++ item :: after))
        (.sequence (before ++ other :: after))
  | alternative (before after : List Regex) {item other : Regex} :
      Respelled item other →
      Respelled (.alternative (before ++ item :: after))
        (.alternative (before ++ other :: after))

end Regex

/-- The same items in any order, each with a respelling of its expression. -/
def Rearranged {ι : Type} (items others : List (ι × Regex)) : Prop :=
  ∃ middle, items.Perm middle ∧
    List.Forall₂ (fun item other => item.1 = other.1 ∧ item.2.Respelled other.2)
      middle others

namespace Regex

/-- The expressions differ at most in which of their sequences and alternatives with
one item or none are which. -/
inductive Twin : Regex → Regex → Prop where
  | oneOf (set : CodeSet) : Twin (.oneOf set) (.oneOf set)
  | literal (text : String) : Twin (.literal text) (.literal text)
  | many {inner other : Regex} : Twin inner other → Twin (.many inner) (.many other)
  | optional {inner other : Regex} :
      Twin inner other → Twin (.optional inner) (.optional other)
  | sequence {items others : List Regex} :
      List.Forall₂ Twin items others → Twin (.sequence items) (.sequence others)
  | alternative {items others : List Regex} :
      List.Forall₂ Twin items others → Twin (.alternative items) (.alternative others)
  | asAlternative {items others : List Regex} (few : items.length ≤ 1) :
      List.Forall₂ Twin items others → Twin (.sequence items) (.alternative others)
  | asSequence {items others : List Regex} (few : items.length ≤ 1) :
      List.Forall₂ Twin items others → Twin (.alternative items) (.sequence others)

end Regex

end LexGen
