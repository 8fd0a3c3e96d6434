import LexGen.CodeSet.Basic

/-!
# Code sets as words and as runs

Code sets are ordered by their bits in words of 64, compared as numbers.  The
word that holds the smallest codes is compared first, and within a word a larger
code weighs more.  A code set is shown as its maximal runs of consecutive codes.
-/

namespace LexGen

namespace CodeSet

def wordCount : Nat := 5

/-- Word number `index`, which holds the codes from `64 * index - 1` on, the
smallest of them as its lowest bit. -/
def word (set : CodeSet) (index : Nat) : BitVec 64 :=
  set.bits.extractLsb' (64 * index) 64

def words (set : CodeSet) : List (BitVec 64) :=
  (List.range wordCount).map set.word

/-- Compare word by word: the first difference decides. -/
def compareWords : List (BitVec 64) → List (BitVec 64) → Ordering
  | left :: lefts, right :: rights =>
      (compare left.toNat right.toNat).then (compareWords lefts rights)
  | [], [] => .eq
  | [], _ :: _ => .lt
  | _ :: _, [] => .gt

instance : Ord CodeSet where
  compare left right := compareWords left.words right.words

end CodeSet

/-- The codes from `low` to `high`, both included. -/
structure Run where
  low : Int
  high : Int
deriving DecidableEq

namespace Run

/-- Group ascending codes into maximal runs: a code joins the run after it when
that run begins with its successor. -/
def ofCodes : List Int → List Run
  | [] => []
  | code :: later =>
      match ofCodes later with
      | [] => [⟨code, code⟩]
      | run :: runs =>
          if code + 1 = run.low then ⟨code, run.high⟩ :: runs
          else ⟨code, code⟩ :: run :: runs

def contains (run : Run) (code : Int) : Bool :=
  run.low ≤ code && code ≤ run.high

/-- Take up the code that comes after the others: the last run grows by it if it ends
just before, and otherwise it begins a run of its own. -/
def takeUp (runs : List Run) (code : Int) : List Run :=
  match runs.getLast? with
  | some last =>
      if last.high + 1 = code then runs.dropLast ++ [⟨last.low, code⟩]
      else runs ++ [⟨code, code⟩]
  | none => [⟨code, code⟩]

end Run

/-- Graphic ASCII characters stand for themselves in quotes, except the quote
and the backslash; every other byte is written as a number. -/
def Code.isShownAsCharacter (code : Int) : Bool :=
  0x21 ≤ code && code ≤ 0x7e && code != 0x27 && code != 0x5c

def Code.render (code : Int) : String :=
  if code = endOfStream then "eos"
  else if isShownAsCharacter code then
    "'" ++ String.singleton (Char.ofNat code.toNat) ++ "'"
  else toString code

/-- A run of one code is written as that code, a longer one as its two ends. -/
def Run.render (run : Run) : String :=
  if run.low = run.high then Code.render run.low
  else Code.render run.low ++ "-" ++ Code.render run.high

namespace CodeSet

def runs (set : CodeSet) : List Run := Run.ofCodes set.toList

def ofRuns (runs : List Run) : CodeSet :=
  runs.foldl (fun set run => set ∪ range run.low run.high) ∅

def render (set : CodeSet) : String :=
  "\x7b" ++ String.intercalate ", " (set.runs.map Run.render) ++ "\x7d"

end CodeSet

end LexGen
