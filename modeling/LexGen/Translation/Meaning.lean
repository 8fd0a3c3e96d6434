import LexGen.Definition
import LexGen.Source

/-!
# The meaning of expressions and documents

`meaning?` says what an expression stands for if nothing about it is wrong, and
nothing at all otherwise.  It reports no issues: that is what evaluation adds.
A document describes a definition whose parts are the meanings of its sections.
-/

namespace LexGen

def Fragment.set? : Fragment → Option CodeSet
  | .set codes => some codes
  | .regex _ => none

def Fragment.code? (fragment : Fragment) : Option Int := do
  let codes ← fragment.set?
  if codes.isSingleton then codes.first? else none

namespace Expr

mutual

/-- What an expression stands for, given the fragments its names refer to. -/
def meaning? (fragments : Table String Fragment) : Expr → Option Fragment
  | .code _ value =>
      if value ∈ Code.domain then some (.set (.singleton value)) else none
  | .character _ value =>
      if (value.toNat : Int) ∈ Code.domain then
        some (.set (.singleton value.toNat))
      else none
  | .text _ value =>
      if ∀ code ∈ Code.ofText value, code ∈ Code.domain then
        some (.regex (.literal value))
      else none
  | .paren _ inner => meaning? fragments inner
  | .many _ inner => do
      return .regex (.many (← meaning? fragments inner).toRegex)
  | .optional _ inner => do
      return .regex (.optional (← meaning? fragments inner).toRegex)
  | .reference _ target => fragments.get? target
  | .range _ low high => do
      let low ← (← meaning? fragments low).code?
      let high ← (← meaning? fragments high).code?
      return .set (.range low high)
  | .complement _ inner => do
      return .set (.all \ (← (← meaning? fragments inner).set?))
  | .difference _ source removed => do
      let source ← (← meaning? fragments source).set?
      let removed ← (← meaning? fragments removed).set?
      return .set (source \ removed)
  | .union _ members => do
      let sets ← (← meanings? fragments members).mapM Fragment.set?
      return .set (sets.foldl CodeSet.union ∅)
  | .sequence _ items => do
      return .regex (.sequence ((← meanings? fragments items).map Fragment.toRegex))
  | .alternative _ items => do
      return .regex
        (.alternative ((← meanings? fragments items).map Fragment.toRegex))

def meanings? (fragments : Table String Fragment) :
    List Expr → Option (List Fragment)
  | [] => some []
  | expr :: exprs => do
      let first ← meaning? fragments expr
      let later ← meanings? fragments exprs
      return first :: later

end

end Expr

namespace Declaration

/-- The token of a declaration: its name, and its body as a pattern. -/
def token? (fragments : Table String Fragment) (declaration : Declaration) :
    Option Token := do
  let fragment ← declaration.body.meaning? fragments
  return ⟨declaration.name, fragment.toRegex⟩

/-- The given fragments and those that are declared.  The body of a declaration
may refer to the fragments before it. -/
def tableFrom? (fragments : Table String Fragment) :
    List Declaration → Option (Table String Fragment)
  | [] => some fragments
  | declaration :: declarations => do
      let fragment ← declaration.body.meaning? fragments
      tableFrom? (fragments.insert declaration.name fragment) declarations

end Declaration

namespace CommentSyntax

def exprs : CommentSyntax → List Expr
  | .line pattern => [pattern]
  | .block _ opening close _ => [opening, close]

def meaning? (fragments : Table String Fragment) : CommentSyntax → Option Comment
  | .line pattern => do
      return .line (← pattern.meaning? fragments).toRegex
  | .block _ opening close nested => do
      let opening ← opening.meaning? fragments
      let close ← close.meaning? fragments
      return .block opening.toRegex close.toRegex nested

end CommentSyntax

namespace Document

/-- The fragments of a document, from the first one on. -/
def fragmentTable? (document : Document) : Option (Table String Fragment) :=
  Declaration.tableFrom? ∅ document.fragments

/-- The whitespace of a document, which has to be a set if it is given. -/
def whitespaceSet? (document : Document) (fragments : Table String Fragment) :
    Option CodeSet :=
  match document.whitespace with
  | some expr => do (← expr.meaning? fragments).set?
  | none => some Definition.defaultWhitespace

/-- Names are given once, every fragment is readable after those before it, and
everything else is readable with all fragments. -/
structure IsWellFormed (document : Document) : Prop where
  notExtended : document.extended = none
  fragmentNames : (document.fragments.map Declaration.name).Nodup
  tokenNames : (document.tokens.map Declaration.name).Nodup
  readable : ∃ fragments, document.fragmentTable? = some fragments ∧
    (∀ declaration ∈ document.tokens,
      (declaration.body.meaning? fragments).isSome) ∧
    (∀ comment ∈ document.comments, ∀ expr ∈ comment.exprs,
      (expr.meaning? fragments).isSome) ∧
    ∀ expr, document.whitespace = some expr →
      ∃ codes, expr.meaning? fragments = some (.set codes)

/-- The definition has what the document declares, in the same order, and
nothing else. -/
structure Describes (document : Document) (definition : Definition) : Prop where
  fragments : document.fragmentTable? = some definition.fragments
  tokens :
    document.tokens.mapM (Declaration.token? definition.fragments) =
      some definition.tokens
  comments :
    document.comments.mapM (CommentSyntax.meaning? definition.fragments) =
      some definition.comments
  whitespace :
    document.whitespaceSet? definition.fragments = some definition.whitespace

end Document

end LexGen
