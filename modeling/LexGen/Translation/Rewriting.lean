import LexGen.Source
import LexGen.Translation.Names
import Mathlib.Data.List.Forall2

/-!
# Documents that come of others

A reference is unfolded by putting the body of the fragment it names in its place.
Unfolding a document unfolds some of its references, those in bodies of fragments
included.  What stands there afterwards may have any locations, and parentheses
around it.

The parts of a document after its fragments are its tokens, its comments and its
whitespace, in this order.  One of them is replaced at a time.  A token keeps its
name, and anything may be written in the place of its body.
-/

namespace LexGen

namespace Expr

mutual

/-- The second expression is the first one with any number of references unfolded,
one of them for instance.  Locations may differ, and any part may be enclosed in
parentheses. -/
inductive Unfolds (fragments : List Declaration) : Expr → Expr → Prop where
  | code {location place : Location} {value : Int} :
      Unfolds fragments (.code location value) (.code place value)
  | character {location place : Location} {value : Char} :
      Unfolds fragments (.character location value) (.character place value)
  | text {location place : Location} {value : String} :
      Unfolds fragments (.text location value) (.text place value)
  | paren {location place : Location} {inner unfolded : Expr} :
      Unfolds fragments inner unfolded →
      Unfolds fragments (.paren location inner) (.paren place unfolded)
  | many {location place : Location} {inner unfolded : Expr} :
      Unfolds fragments inner unfolded →
      Unfolds fragments (.many location inner) (.many place unfolded)
  | optional {location place : Location} {inner unfolded : Expr} :
      Unfolds fragments inner unfolded →
      Unfolds fragments (.optional location inner) (.optional place unfolded)
  | reference {location place : Location} {target : String} :
      Unfolds fragments (.reference location target) (.reference place target)
  | range {location place : Location} {low high unfoldedLow unfoldedHigh : Expr} :
      Unfolds fragments low unfoldedLow → Unfolds fragments high unfoldedHigh →
      Unfolds fragments (.range location low high)
        (.range place unfoldedLow unfoldedHigh)
  | complement {location place : Location} {inner unfolded : Expr} :
      Unfolds fragments inner unfolded →
      Unfolds fragments (.complement location inner) (.complement place unfolded)
  | difference {location place : Location}
      {source removed unfoldedSource unfoldedRemoved : Expr} :
      Unfolds fragments source unfoldedSource →
      Unfolds fragments removed unfoldedRemoved →
      Unfolds fragments (.difference location source removed)
        (.difference place unfoldedSource unfoldedRemoved)
  | union {location place : Location} {members unfolded : List Expr} :
      UnfoldAll fragments members unfolded →
      Unfolds fragments (.union location members) (.union place unfolded)
  | sequence {location place : Location} {items unfolded : List Expr} :
      UnfoldAll fragments items unfolded →
      Unfolds fragments (.sequence location items) (.sequence place unfolded)
  | alternative {location place : Location} {items unfolded : List Expr} :
      UnfoldAll fragments items unfolded →
      Unfolds fragments (.alternative location items) (.alternative place unfolded)
  /-- A reference becomes the body of its fragment. -/
  | body {location : Location} {declaration : Declaration} {unfolded : Expr} :
      declaration ∈ fragments → Unfolds fragments declaration.body unfolded →
      Unfolds fragments (.reference location declaration.name) unfolded
  | enclosed {place : Location} {expr unfolded : Expr} :
      Unfolds fragments expr unfolded →
      Unfolds fragments expr (.paren place unfolded)

inductive UnfoldAll (fragments : List Declaration) : List Expr → List Expr → Prop where
  | nil : UnfoldAll fragments [] []
  | cons {expr unfolded : Expr} {exprs later : List Expr} :
      Unfolds fragments expr unfolded → UnfoldAll fragments exprs later →
      UnfoldAll fragments (expr :: exprs) (unfolded :: later)

end

end Expr

/-- The body unfolds, and the name stays. -/
def Declaration.Unfolds (fragments : List Declaration)
    (declaration unfolded : Declaration) : Prop :=
  declaration.name = unfolded.name ∧ declaration.body.Unfolds fragments unfolded.body

inductive CommentSyntax.Unfolds (fragments : List Declaration) :
    CommentSyntax → CommentSyntax → Prop where
  | line {pattern unfolded : Expr} :
      pattern.Unfolds fragments unfolded →
      Unfolds fragments (.line pattern) (.line unfolded)
  | block {location place : Location}
      {opening close unfoldedOpening unfoldedClose : Expr} {nested : Bool} :
      opening.Unfolds fragments unfoldedOpening →
      close.Unfolds fragments unfoldedClose →
      Unfolds fragments (.block location opening close nested)
        (.block place unfoldedOpening unfoldedClose nested)

/-- The second document is the first one with any number of references to its
fragments unfolded. -/
structure Document.Unfolds (document unfolded : Document) : Prop where
  extended : document.extended = unfolded.extended
  tokens :
    List.Forall₂ (Declaration.Unfolds document.fragments) document.tokens unfolded.tokens
  comments :
    List.Forall₂ (CommentSyntax.Unfolds document.fragments) document.comments
      unfolded.comments
  whitespace :
    Option.Rel (Expr.Unfolds document.fragments) document.whitespace unfolded.whitespace
  fragments :
    List.Forall₂ (Declaration.Unfolds document.fragments) document.fragments
      unfolded.fragments

/-! ## Replacing a part of a document -/

/-- What is put in the place of one part of a document. -/
inductive Replacement where
  | token (index : Nat) (body : Expr)
  | comment (index : Nat) (comment : CommentSyntax)
  | whitespace (whitespace : Option Expr)

namespace Document

def replace (document : Document) : Replacement → Document
  | .token index body =>
      { document with
        tokens := document.tokens.modify index fun declaration =>
          { declaration with body } }
  | .comment index comment =>
      { document with comments := document.comments.modify index fun _ => comment }
  | .whitespace whitespace => { document with whitespace }

/-- The document up to the part that is replaced. -/
def upTo (document : Document) : Replacement → Document
  | .token index _ =>
      { document with
        tokens := document.tokens.take index, comments := [], whitespace := none }
  | .comment index _ =>
      { document with comments := document.comments.take index, whitespace := none }
  | .whitespace _ => { document with whitespace := none }

/-- The document with the part that is replaced left out. -/
def without (document : Document) : Replacement → Document
  | .token index _ => { document with tokens := document.tokens.eraseIdx index }
  | .comment index _ => { document with comments := document.comments.eraseIdx index }
  | .whitespace _ => { document with whitespace := none }

end Document

/-- The other definition is the same but for what the replaced part stands for. -/
def Definition.DiffersOnlyIn (definition : Definition) (replacement : Replacement)
    (other : Definition) : Prop :=
  match replacement with
  | .token index _ => ∃ pattern, other =
      { definition with
        tokens := definition.tokens.modify index fun token => { token with pattern } }
  | .comment index _ => ∃ comment, other =
      { definition with comments := definition.comments.modify index fun _ => comment }
  | .whitespace _ => ∃ whitespace, other = { definition with whitespace }

end LexGen
