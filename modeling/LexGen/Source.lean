
/-!
# The syntax of lexical definitions

A lexical definition as it is written, before names are resolved.  Every expression
knows where it stands in the text, at one position or over a span.  Whether it
describes a set of codes or a regular expression shows only when its names are
resolved.
-/

namespace LexGen

/-- A position in a text.  The offset counts from 0, line and column from 1. -/
structure Coordinate where
  offset : Nat
  line : Nat
  column : Nat
deriving DecidableEq

def Coordinate.render (coordinate : Coordinate) : String :=
  toString coordinate.line ++ ":" ++ toString coordinate.column

/-- One position, or a span given by its first and its last position. -/
inductive Location where
  | single (coordinate : Coordinate)
  | span (first last : Coordinate)
deriving DecidableEq

namespace Location

def first : Location → Coordinate
  | .single coordinate => coordinate
  | .span first _ => first

def last : Location → Coordinate
  | .single coordinate => coordinate
  | .span _ last => last

/-- From the start of one location to the end of another, as a single position
where the two agree. -/
def combine (left right : Location) : Location :=
  if left.first = right.last then .single left.first
  else .span left.first right.last

def render : Location → String
  | .single coordinate => coordinate.render
  | .span first last => first.render ++ "-" ++ last.render

end Location

inductive Expr where
  /-- A code given by its number. -/
  | code (location : Location) (value : Int)
  /-- A code given by its character. -/
  | character (location : Location) (value : Char)
  | text (location : Location) (value : String)
  | paren (location : Location) (inner : Expr)
  | many (location : Location) (inner : Expr)
  | optional (location : Location) (inner : Expr)
  | reference (location : Location) (target : String)
  | range (location : Location) (low high : Expr)
  | complement (location : Location) (inner : Expr)
  | difference (location : Location) (source removed : Expr)
  | union (location : Location) (members : List Expr)
  | sequence (location : Location) (items : List Expr)
  | alternative (location : Location) (items : List Expr)

namespace Expr

def location : Expr → Location
  | .code location _ | .character location _ | .text location _
  | .paren location _ | .many location _ | .optional location _
  | .reference location _ | .range location _ _ | .complement location _
  | .difference location _ _ | .union location _ | .sequence location _
  | .alternative location _ => location

def spanOf? (exprs : List Expr) : Option Location := do
  let first ← exprs.head?
  let last ← exprs.getLast?
  return first.location.combine last.location

end Expr

/-- A name with what it stands for.  The location is that of the name. -/
structure Declaration where
  name : String
  location : Location
  body : Expr

inductive CommentSyntax where
  | line (pattern : Expr)
  | block (location : Location) (opening close : Expr) (nested : Bool)

structure Document where
  /-- The definition that this one asks to extend. -/
  extended : Option Expr
  tokens : List Declaration
  comments : List CommentSyntax
  whitespace : Option Expr
  fragments : List Declaration

end LexGen
