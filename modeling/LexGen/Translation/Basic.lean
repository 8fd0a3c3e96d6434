import LexGen.Event
import LexGen.Source
import LexGen.Translation.Evaluation

/-!
# Translating documents

A document becomes a definition section by section: fragments first, so that all
other sections may use every fragment, then tokens, comments and whitespace.
Every issue is reported, and a definition results only if there is none.
-/

namespace LexGen

/-- A definition under construction and the issues met so far. -/
structure Draft where
  definition : Definition
  issues : List Issue

namespace Draft

def empty : Draft := ⟨∅, []⟩

def report (draft : Draft) (issues : List Issue) : Draft :=
  { draft with issues := draft.issues ++ issues }

/-- Keep the result of a declaration.  A refused one leaves the definition as it
is. -/
def keep (draft : Draft) (result : Except Definition.Refusal Definition) :
    Draft :=
  match result with
  | .ok definition => { draft with definition }
  | .error _ => draft

def evaluate (draft : Draft) (expr : Expr) : Outcome Fragment :=
  expr.evaluate draft.definition.fragments

def addExtension (draft : Draft) (extended : Option Expr) : Draft :=
  match extended with
  | some expr =>
      draft.report
        [⟨expr.location, .unsupported "Extending a lexical definition"⟩]
  | none => draft

/-- Define a fragment.  The body of a fragment whose name is taken is not looked
at. -/
def addFragment (draft : Draft) (declaration : Declaration) : Draft :=
  if draft.definition.hasFragment declaration.name then
    draft.report [⟨declaration.location, .duplicateFragment declaration.name⟩]
  else
    let outcome := draft.evaluate declaration.body
    let draft := draft.report outcome.issues
    match outcome.value with
    | some fragment =>
        draft.keep (draft.definition.addFragment declaration.name fragment)
    | none => draft

/-- Define a token.  The pattern of a token is looked at even when its name is
taken. -/
def addToken (draft : Draft) (declaration : Declaration) : Draft :=
  let outcome := draft.evaluate declaration.body
  let draft := draft.report outcome.issues
  if draft.definition.hasToken declaration.name then
    draft.report [⟨declaration.location, .duplicateToken declaration.name⟩]
  else
    match outcome.value with
    | some fragment =>
        draft.keep
          (draft.definition.addToken declaration.name fragment.toRegex none)
    | none => draft

def evaluateComment (draft : Draft) : CommentSyntax → Outcome Comment
  | .line pattern =>
      (draft.evaluate pattern).map fun pattern => .line pattern.toRegex
  | .block _ opening close nested =>
      ((draft.evaluate opening).both (draft.evaluate close)).map
        fun (opening, close) => .block opening.toRegex close.toRegex nested

def addComment (draft : Draft) (comment : CommentSyntax) : Draft :=
  let outcome := draft.evaluateComment comment
  let draft := draft.report outcome.issues
  match outcome.value with
  | some comment =>
      { draft with definition := draft.definition.addComment comment }
  | none => draft

def addWhitespace (draft : Draft) (whitespace : Option Expr) : Draft :=
  match whitespace with
  | some expr =>
      let outcome :=
        (draft.evaluate expr).asSet expr.location .whitespaceNotSet
      let draft := draft.report outcome.issues
      match outcome.value with
      | some set =>
          { draft with definition := draft.definition.setWhitespace set }
      | none => draft
  | none => draft

def ofDocument (document : Document) : Draft :=
  let draft := empty.addExtension document.extended
  let draft := document.fragments.foldl addFragment draft
  let draft := document.tokens.foldl addToken draft
  let draft := document.comments.foldl addComment draft
  draft.addWhitespace document.whitespace

end Draft

namespace Document

/-- The definition that a document describes, or what is wrong with it. -/
def translate (document : Document) : Except (List Issue) Definition :=
  let draft := Draft.ofDocument document
  if draft.issues.isEmpty then .ok draft.definition
  else .error draft.issues

def translateEvents (document : Document) : List Event :=
  match document.translate with
  | .ok definition =>
      [.translated definition.tokens.length definition.comments.length]
  | .error issues => [.translationFailed issues.length]

end Document

end LexGen
