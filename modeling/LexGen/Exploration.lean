/-!
# Exploration

An exploration finds everything that can be reached from a start by repeatedly
asking a found thing for its neighbours.  What is found is listed in the order of
its discovery, and the visit order says which of the things still to be asked
comes next.  Asking may fail, which ends the exploration.
-/

namespace LexGen

inductive VisitOrder where
  /-- The one that was discovered first. -/
  | breadthFirst
  /-- The one that was discovered last. -/
  | depthFirst
deriving DecidableEq

/-- The state of an exploration: what was found, in order of discovery, what is
still to be visited, the next one first, and what went wrong. -/
structure Exploration (σ ε : Type) where
  found : List σ
  pending : List σ
  failure : Option ε

namespace Exploration

variable {σ ε : Type}

def startingAt (start : σ) : Exploration σ ε := ⟨[start], [start], none⟩

variable [DecidableEq σ]

/-- Note a neighbour, and put it up for a visit if it is new. -/
def discover (order : VisitOrder) (exploration : Exploration σ ε)
    (neighbour : σ) : Exploration σ ε :=
  if neighbour ∈ exploration.found then exploration
  else
    { exploration with
      found := exploration.found ++ [neighbour]
      pending :=
        match order with
        | .breadthFirst => exploration.pending ++ [neighbour]
        | .depthFirst => neighbour :: exploration.pending }

def discoverAll (order : VisitOrder) (exploration : Exploration σ ε)
    (neighbours : List σ) : Exploration σ ε :=
  neighbours.foldl (discover order) exploration

/-- Visit what is pending until nothing is, a visit fails, or the given number
of visits is used up.  Neighbours found before a failure are still noted. -/
def run (order : VisitOrder) (visit : σ → List σ × Option ε) :
    Nat → Exploration σ ε → Exploration σ ε
  | 0, exploration => exploration
  | fuel + 1, exploration =>
      match exploration.pending with
      | [] => exploration
      | next :: later =>
          let (neighbours, failure) := visit next
          let noted :=
            discoverAll order { exploration with pending := later } neighbours
          match failure with
          | some failure => { noted with failure := some failure }
          | none => run order visit fuel noted

end Exploration

end LexGen
