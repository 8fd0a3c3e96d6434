import LexGen.CodeSet.Order
import Mathlib.Algebra.GroupWithZero.Nat

/-!
# Code sets packed in words

The bits of a code set fill four words of 64 bits and the lowest bit of a fifth one.  A
packed set holds the five words and works on them as wholes.  Its type does not keep the
further bits of the last word clear.  Only its operations do.
-/

namespace LexGen

/-- The codes from `low` to `high`, both included, in ascending order. -/
def Code.span (low high : Int) : List Int :=
  (List.range (high + 1 - low).toNat).map fun offset => low + Int.ofNat offset

/-- Five words of 64 bits. -/
structure PackedSet where
  words : Vector (BitVec 64) CodeSet.wordCount
deriving DecidableEq

def CodeSet.pack (set : CodeSet) : PackedSet :=
  ⟨.ofFn fun index => set.word index⟩

namespace PackedSet

/-- The word that holds the bit of a code, and the mask that picks it out of the
word. -/
def slot? (code : Int) : Option (Fin CodeSet.wordCount × BitVec 64) :=
  (Code.slot? code).map fun (slot : Fin 257) =>
    (⟨slot.val / 64, by
      have bound := slot.isLt
      simp only [CodeSet.wordCount]
      omega⟩, 1#64 <<< (slot.val % 64))

def empty : PackedSet := ⟨.replicate CodeSet.wordCount 0#64⟩

/-- Add a code, and tell whether it is new.  A code outside the domain is not. -/
def insert (packed : PackedSet) (code : Int) : PackedSet × Bool :=
  match slot? code with
  | some (index, mask) =>
      (⟨packed.words.set index (packed.words[index] ||| mask)⟩,
        packed.words[index] &&& mask == 0#64)
  | none => (packed, false)

def contains (packed : PackedSet) (code : Int) : Bool :=
  match slot? code with
  | some (index, mask) => packed.words[index] &&& mask != 0#64
  | none => false

def insertAll (packed : PackedSet) (codes : List Int) : PackedSet :=
  codes.foldl (fun packed code => (packed.insert code).1) packed

def ofList (codes : List Int) : PackedSet := insertAll empty codes

def singleton (code : Int) : PackedSet := ofList [code]

/-- Every code of the span is inserted, those outside the domain in vain. -/
def range (low high : Int) : PackedSet := ofList (Code.span low high)

def all : PackedSet := range 0 Code.largest

def zipWith (combine : BitVec 64 → BitVec 64 → BitVec 64) (left right : PackedSet) :
    PackedSet :=
  ⟨Vector.zipWith combine left.words right.words⟩

def union : PackedSet → PackedSet → PackedSet := zipWith fun left right => left ||| right

def inter : PackedSet → PackedSet → PackedSet := zipWith fun left right => left &&& right

def diff : PackedSet → PackedSet → PackedSet := zipWith fun left right => left &&& ~~~right

def isEmpty (packed : PackedSet) : Bool := packed.words.all fun word => word == 0#64

def isDisjoint (left right : PackedSet) : Bool := (left.inter right).isEmpty

def size (packed : PackedSet) : Nat :=
  (packed.words.toList.map fun word => word.cpop.toNat).sum

def isSingleton (packed : PackedSet) : Bool := packed.size == 1

def toList (packed : PackedSet) : List Int := Code.domain.filter packed.contains

def first? (packed : PackedSet) : Option Int := packed.toList.head?

/-- Bit number `place`, counted from the lowest bit of the first word on. -/
def bit (packed : PackedSet) (place : Nat) : Bool :=
  (packed.words[place / 64]?.getD 0#64).getLsbD (place % 64)

/-- What the words answer if they hold exactly these codes: no bit beyond the domain is
set, and whatever is read off words or bits agrees with the codes. -/
structure Answers (packed : PackedSet) (holds : Int → Prop) : Prop where
  beyond : ∀ place, 257 ≤ place → packed.bit place = false
  contains_iff : ∀ code, packed.contains code = true ↔ holds code
  isNew_iff : ∀ code, (packed.insert code).2 = true ↔ code ∈ Code.domain ∧ ¬ holds code
  mem_toList_iff : ∀ code, code ∈ packed.toList ↔ holds code
  ascending : packed.toList.Pairwise fun earlier later => earlier < later
  size_eq : packed.size = packed.toList.length
  isEmpty_iff : packed.isEmpty = true ↔ ∀ code, ¬ holds code
  isSingleton_iff :
    packed.isSingleton = true ↔ ∃ only, ∀ code, holds code ↔ code = only
  first?_eq_some_iff : ∀ low,
    packed.first? = some low ↔ holds low ∧ ∀ code, holds code → low ≤ code
  first?_eq_none_iff : packed.first? = none ↔ ∀ code, ¬ holds code

/-- The words are those of the code set, and the set gives the same answers. -/
structure Presents (packed : PackedSet) (set : CodeSet) : Prop where
  words_eq : packed.words.toList = set.words
  contains_eq : ∀ code, packed.contains code = set.contains code
  insert_eq : ∀ code, packed.insert code = ((set.insert code).pack, set.isFresh code)
  toList_eq : packed.toList = set.toList
  size_eq : packed.size = set.size
  isEmpty_eq : packed.isEmpty = set.isEmpty
  isSingleton_eq : packed.isSingleton = set.isSingleton
  first?_eq : packed.first? = set.first?

end PackedSet

/-- How a code set is built.  Every set that a sequence of operations leaves anywhere is
built in such a way. -/
inductive CodeSet.Recipe where
  | empty
  | singleton (code : Int)
  | ofList (codes : List Int)
  | range (low high : Int)
  | all
  | insert (recipe : Recipe) (code : Int)
  | insertAll (recipe : Recipe) (codes : List Int)
  | union (left right : Recipe)
  | inter (left right : Recipe)
  | diff (left right : Recipe)

namespace CodeSet.Recipe

def set : Recipe → CodeSet
  | empty => ∅
  | singleton code => .singleton code
  | ofList codes => .ofList codes
  | range low high => .range low high
  | all => .all
  | insert recipe code => recipe.set.insert code
  | insertAll recipe codes => recipe.set.insertAll codes
  | union left right => left.set ∪ right.set
  | inter left right => left.set ∩ right.set
  | diff left right => left.set \ right.set

def packed : Recipe → PackedSet
  | empty => .empty
  | singleton code => .singleton code
  | ofList codes => .ofList codes
  | range low high => .range low high
  | all => .all
  | insert recipe code => (recipe.packed.insert code).1
  | insertAll recipe codes => recipe.packed.insertAll codes
  | union left right => left.packed.union right.packed
  | inter left right => left.packed.inter right.packed
  | diff left right => left.packed.diff right.packed

/-- Whether the set holds the code, by what the operations are for. -/
def Holds : Recipe → Int → Prop
  | empty, _ => False
  | singleton only, code => code = only ∧ only ∈ Code.domain
  | ofList codes, code => code ∈ codes ∧ code ∈ Code.domain
  | range low high, code => (low ≤ code ∧ code ≤ high) ∧ code ∈ Code.domain
  | all, code => 0 ≤ code ∧ code ≤ 255
  | insert recipe added, code => recipe.Holds code ∨ code = added ∧ added ∈ Code.domain
  | insertAll recipe codes, code => recipe.Holds code ∨ code ∈ codes ∧ code ∈ Code.domain
  | union left right, code => left.Holds code ∨ right.Holds code
  | inter left right, code => left.Holds code ∧ right.Holds code
  | diff left right, code => left.Holds code ∧ ¬ right.Holds code

end CodeSet.Recipe

end LexGen
