import LexGen.Automaton.Matching
import LexGen.Recognizer

/-!
# Scanning

A scanner skips whitespace, takes the longest match at the top level and, after
the opening mark of a block comment, scans the body up to the closing mark.
-/

namespace LexGen

/-- What a scanner finds, with the position and the number of codes. -/
inductive Finding where
  /-- Nothing matches, and one code is skipped. -/
  | nothing (position : Nat)
  | item (position length : Nat) (item : Option TopLevelItem)
  /-- The body of a comment, with the number of comments that are still open
  where it ends. -/
  | body (position length depth : Nat)
deriving DecidableEq

def Finding.comment? : Finding → Option Nat
  | .item _ _ (some (.comment index)) => some index
  | _ => none

def depthAfter (close depth number : Nat) : Nat :=
  if number = close then depth - 1
  else if number = 1 then depth + 1
  else depth

/-- Scan a body until no comment is open or nothing more can be taken.  The
result is the number of codes taken and of comments still open. -/
def scanBody (recognizer : Automaton Nat) (close depth : Nat)
    (input : List Int) : Except Dangling (Nat × Nat) := do
  if depth = 0 then return (0, 0)
  match ← recognizer.longestMatch input with
  | none => return (0, depth)
  | some (length, number) =>
      let depth := depthAfter close depth number
      if _progress : 0 < length ∧ length ≤ input.length then
        let (taken, depth) ← scanBody recognizer close depth (input.drop length)
        return (length + taken, depth)
      else return (0, depth)
termination_by input.length
decreasing_by
  simp only [List.length_drop]
  omega

def scanBodyAfter (definition : Definition) (item : Option TopLevelItem)
    (input : List Int) : Except Dangling (Option (Nat × Nat)) := do
  match item with
  | some (.comment index) =>
      match definition.comments[index]? with
      | some comment =>
          match comment.body? with
          | some body => return some (← scanBody (← body) comment.closeNumber 1 input)
          | none => return none
      | none => return none
  | _ => return none

def scanFrom (definition : Definition) (topLevel : Automaton Nat)
    (position : Nat) : List Int → Except Dangling (List Finding)
  | [] => return []
  | code :: later => do
      if definition.whitespace.contains code then
        scanFrom definition topLevel (position + 1) later
      else
        match ← topLevel.longestMatch (code :: later) with
        | none =>
            let findings ← scanFrom definition topLevel (position + 1) later
            return Finding.nothing position :: findings
        | some (length, number) =>
            let item := TopLevelItem.ofNumber? definition number
            let next := position + max length 1
            let rest := later.drop (length - 1)
            match ← scanBodyAfter definition item rest with
            | none =>
                let findings ← scanFrom definition topLevel next rest
                return Finding.item position length item :: findings
            | some (taken, depth) =>
                let findings ←
                  scanFrom definition topLevel (next + taken) (rest.drop taken)
                return Finding.item position length item ::
                  Finding.body next taken depth :: findings
termination_by input => input.length
decreasing_by
  all_goals simp only [List.length_cons, List.length_drop]
  all_goals omega

namespace Definition

/-- Scan a whole input, which is followed by the end of the stream. -/
def scan (definition : Definition) (input : List Int) :
    Except Dangling (List Finding) := do
  scanFrom definition (← definition.topLevel) 0 (input ++ [Code.endOfStream])

/-- What scanning reports: the recogniser of the top level is assembled once, and
that of a body whenever a comment is opened. -/
def scanEvents (definition : Definition) (input : List Int) : List Event :=
  let findings : List Finding :=
    match definition.scan input with
    | .ok findings => findings
    | .error _ => []
  let comments := findings.filterMap fun finding => do
    definition.comments[← finding.comment?]?
  definition.topLevelEvents ++ comments.flatMap Comment.bodyEvents

end Definition

end LexGen
