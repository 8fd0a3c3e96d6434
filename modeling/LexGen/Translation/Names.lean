import LexGen.Translation.Basic
import LexGen.Translation.Meaning

/-!
# Issues of documents

A fragment may be referred to by the fragments after it and by everything else in
its document, and a name may be given once in each section.  A declaration gives a
name a meaning if its body yields a value.  These are the notions in which it is
said which issues about names a document has.

Codes are written in the leaves of expressions, by number, as a character or in a
text.  A walk from left to right meets the leaves of an expression in their order,
and those with a code outside the domain are at issue.
-/

namespace LexGen

/-- Some item has the property, given the items before it. -/
def AtSome {α : Type} (property : List α → α → Prop) (items : List α) : Prop :=
  ∃ before item after, items = before ++ item :: after ∧ property before item

namespace Expr

mutual

/-- The names an expression refers to, each with its location, in order. -/
def references : Expr → List (Location × String)
  | .code _ _ | .character _ _ | .text _ _ => []
  | .paren _ inner | .many _ inner | .optional _ inner | .complement _ inner =>
      references inner
  | .reference location target => [(location, target)]
  | .range _ low high => references low ++ references high
  | .difference _ source removed => references source ++ references removed
  | .union _ items | .sequence _ items | .alternative _ items => referencesOf items

def referencesOf : List Expr → List (Location × String)
  | [] => []
  | expr :: exprs => references expr ++ referencesOf exprs

end

/-- Whether evaluation finds a value, with or without issues. -/
def yields (fragments : Table String Fragment) (expr : Expr) : Bool :=
  (expr.evaluate fragments).value.isSome

end Expr

namespace Declaration

/-- The fragments after a declaration.  It counts if its name is free and its body
yields a value. -/
def define (fragments : Table String Fragment) (declaration : Declaration) :
    Table String Fragment :=
  if fragments.contains declaration.name then fragments
  else
    match (declaration.body.evaluate fragments).value with
    | some fragment => fragments.insert declaration.name fragment
    | none => fragments

def fragmentsOf (declarations : List Declaration) : Table String Fragment :=
  declarations.foldl define ∅

/-- One of the declarations has the name, and its body yields a value where it
stands. -/
def Defines (declarations : List Declaration) (name : String) : Prop :=
  AtSome
    (fun before declaration =>
      declaration.name = name ∧ declaration.body.yields (fragmentsOf before) = true)
    declarations

end Declaration

namespace Document

/-- The expressions outside fragments, which may refer to all fragments. -/
def expressions (document : Document) : List Expr :=
  document.tokens.map Declaration.body ++
    document.comments.flatMap CommentSyntax.exprs ++ document.whitespace.toList

/-- The issues that translating the document reports. -/
def reported (document : Document) : List Issue :=
  match document.translate with
  | .ok _ => []
  | .error issues => issues

end Document

/-! ## Codes outside the domain -/

def Cause.isOutOfRange : Cause → Bool
  | .codeOutOfRange _ => true
  | _ => false

def Issue.isOutOfRange (issue : Issue) : Bool :=
  issue.cause.isOutOfRange

/-- A part of an expression that has no parts itself. -/
inductive Leaf where
  | code (location : Location) (value : Int)
  | character (location : Location) (value : Char)
  | text (location : Location) (value : String)
  | reference (location : Location) (target : String)

namespace Leaf

def toExpr : Leaf → Expr
  | .code location value => .code location value
  | .character location value => .character location value
  | .text location value => .text location value
  | .reference location target => .reference location target

/-- The code outside the domain that is written in a leaf, in a text the first one. -/
def outsideCode? : Leaf → Option Int
  | .code _ value => if value ∈ Code.domain then none else some value
  | .character _ value =>
      if (value.toNat : Int) ∈ Code.domain then none else some value.toNat
  | .text _ value => (Code.ofText value).find? fun code => code ∉ Code.domain
  | .reference _ _ => none

/-- What is at issue about a leaf because of its code, at the location of the leaf. -/
def rangeIssue? (leaf : Leaf) : Option Issue :=
  leaf.outsideCode?.map fun code => ⟨leaf.toExpr.location, .codeOutOfRange code⟩

end Leaf

namespace Expr

mutual

/-- The leaves of an expression from left to right. -/
def leaves : Expr → List Leaf
  | .code location value => [.code location value]
  | .character location value => [.character location value]
  | .text location value => [.text location value]
  | .reference location target => [.reference location target]
  | .paren _ inner | .many _ inner | .optional _ inner | .complement _ inner =>
      leaves inner
  | .range _ low high => leaves low ++ leaves high
  | .difference _ source removed => leaves source ++ leaves removed
  | .union _ items | .sequence _ items | .alternative _ items => leavesOf items

def leavesOf : List Expr → List Leaf
  | [] => []
  | expr :: exprs => leaves expr ++ leavesOf exprs

end

def rangeIssues (expr : Expr) : List Issue :=
  expr.leaves.filterMap Leaf.rangeIssue?

end Expr

namespace Declaration

def examinedFrom (fragments : Table String Fragment) :
    List Declaration → List Declaration
  | [] => []
  | declaration :: later =>
      let examined := examinedFrom (declaration.define fragments) later
      if fragments.contains declaration.name then examined
      else declaration :: examined

/-- The fragments whose bodies are looked at: those whose names the fragments before
them leave free. -/
def examined (declarations : List Declaration) : List Declaration :=
  examinedFrom ∅ declarations

end Declaration

end LexGen
