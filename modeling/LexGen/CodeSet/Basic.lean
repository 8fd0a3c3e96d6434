/-!
# Code sets

A code is what a scanner feeds to an automaton: a byte, or the mark that stands
for the end of its input.  Codes are integers, and any integer may be fed, but
only those from `-1` to `255` can be members of a `CodeSet`.  A code set keeps
one bit for each of them, so that two sets with the same members are the same
value.
-/

namespace LexGen

namespace Code

/-- The code a scanner feeds once its input is exhausted. -/
def endOfStream : Int := -1

def largest : Int := 255

/-- The codes that can be members of a code set, in ascending order. -/
def domain : List Int :=
  (List.range 257).map fun slot => Int.ofNat slot - 1

/-- The bit that stands for a code, for the codes of the domain. -/
def slot? (code : Int) : Option (Fin 257) :=
  if bounds : endOfStream ≤ code ∧ code ≤ largest then
    some ⟨(code + 1).toNat, by
      simp only [endOfStream, largest] at bounds
      omega⟩
  else
    none

/-- The codes of a text, one for each of its characters. -/
def ofText (text : String) : List Int :=
  text.toList.map fun character => Int.ofNat character.toNat

end Code

/-- A finite set of codes.  Bit `i` stands for the code `i - 1`. -/
structure CodeSet where
  bits : BitVec 257
deriving DecidableEq

namespace CodeSet

/-- The set without members.  As a label it marks a transition that consumes
nothing. -/
def empty : CodeSet := ⟨0⟩

instance : EmptyCollection CodeSet := ⟨empty⟩

def contains (set : CodeSet) (code : Int) : Bool :=
  match Code.slot? code with
  | some slot => set.bits.getLsbD slot
  | none => false

instance : Membership Int CodeSet where
  mem set code := set.contains code = true

instance (code : Int) (set : CodeSet) : Decidable (code ∈ set) :=
  inferInstanceAs (Decidable (set.contains code = true))

/-- Add a code.  A code outside the domain changes nothing. -/
def insert (set : CodeSet) (code : Int) : CodeSet :=
  match Code.slot? code with
  | some slot => ⟨set.bits ||| BitVec.twoPow 257 slot⟩
  | none => set

/-- Whether inserting the code would change the set: it is in the domain and
not a member yet. -/
def isFresh (set : CodeSet) (code : Int) : Bool :=
  (Code.slot? code).isSome && !set.contains code

def insertAll (set : CodeSet) (codes : List Int) : CodeSet :=
  codes.foldl insert set

def ofList (codes : List Int) : CodeSet := insertAll ∅ codes

def singleton (code : Int) : CodeSet := insert ∅ code

def range (low high : Int) : CodeSet :=
  ofList (Code.domain.filter fun code => low ≤ code && code ≤ high)

/-- Every byte, and not the end of the stream. -/
def all : CodeSet := range 0 Code.largest

def union (left right : CodeSet) : CodeSet := ⟨left.bits ||| right.bits⟩

def inter (left right : CodeSet) : CodeSet := ⟨left.bits &&& right.bits⟩

def diff (left right : CodeSet) : CodeSet := ⟨left.bits &&& ~~~right.bits⟩

instance : Union CodeSet := ⟨union⟩

instance : Inter CodeSet := ⟨inter⟩

instance : SDiff CodeSet := ⟨diff⟩

def isEmpty (set : CodeSet) : Bool := set.bits == 0

def isDisjoint (left right : CodeSet) : Bool := (left ∩ right).isEmpty

def toList (set : CodeSet) : List Int :=
  Code.domain.filter set.contains

def size (set : CodeSet) : Nat := set.toList.length

def isSingleton (set : CodeSet) : Bool := set.size == 1

def first? (set : CodeSet) : Option Int := set.toList.head?

end CodeSet

end LexGen
