import LexGen.Automaton.Basic

/-!
# Closures

The reflexive and transitive closure of a relation between nodes, given as one
row of neighbours for each node.  A sweep joins rows with the rows of their
members, one after another and in place, over a window that grows by one row at a
time.  Sweeps are repeated until one changes nothing.
-/

namespace LexGen

namespace Closure

def reflexive (rows : List NodeSet) : List NodeSet :=
  rows.mapIdx fun node row => .singleton node ∪ row

def gather (rows : List NodeSet) : List Nat → Except Dangling NodeSet
  | [] => .ok ∅
  | node :: nodes => do
      match rows[node]? with
      | some row => return row ∪ (← gather rows nodes)
      | none => .error ⟨node⟩

/-- Rows in the course of a sweep, and whether it has changed any of them. -/
structure Sweep where
  rows : List NodeSet
  changed : Bool

/-- Join the row at a place with the rows that its members have by then. -/
def joinRow (sweep : Sweep) (place : Nat) : Except Dangling Sweep := do
  match sweep.rows[place]? with
  | some row =>
      let joined := row ∪ (← gather sweep.rows row.nodes)
      return ⟨sweep.rows.set place joined,
        sweep.changed || joined.nodes.length != row.nodes.length⟩
  | none => .error ⟨place⟩

/-- The places of growing windows: the first one, the first two, and so on up to
all of them. -/
def windows (count : Nat) : List Nat :=
  (List.range count).flatMap fun last => List.range (last + 1)

def sweep (rows : List NodeSet) : Except Dangling Sweep :=
  (windows rows.length).foldlM joinRow ⟨rows, false⟩

/-- Sweep until nothing changes, at most the given number of times. -/
def saturate : Nat → List NodeSet → Except Dangling (List NodeSet)
  | 0, rows => .ok rows
  | fuel + 1, rows => do
      let swept ← sweep rows
      if swept.changed then saturate fuel swept.rows else return swept.rows

end Closure

/-- The reflexive and transitive closure of the rows.  Every member of every row
is looked up, so all of them have to be in range.  A sweep that changes anything
adds a node to a row, which bounds the number of sweeps before the last one. -/
def transitiveClosure (rows : List NodeSet) : Except Dangling (List NodeSet) :=
  Closure.saturate (rows.length * rows.length + 1) (Closure.reflexive rows)

end LexGen
