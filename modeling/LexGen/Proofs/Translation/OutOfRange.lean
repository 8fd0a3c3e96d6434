import LexGen.Proofs.Translation.Names

/-!
# Issues about codes outside the domain

Evaluation reports exactly the leaves with a code outside the domain, and a document
is evaluated section by section.  What is left out are the bodies of fragments whose
names are taken.
-/

namespace LexGen

namespace Expr

variable (fragments : Table String Fragment)

theorem outOfRange_evaluateCode (location : Location) (value : Int) :
    (evaluateCode location value).issues.filter Issue.isOutOfRange =
      if value ∈ Code.domain then [] else [⟨location, .codeOutOfRange value⟩] := by
  rw [evaluateCode_eq]
  split
  · rfl
  · rfl

theorem outOfRange_evaluate_leaf (leaf : Leaf) :
    (evaluate fragments leaf.toExpr).issues.filter Issue.isOutOfRange =
      leaf.rangeIssue?.toList := by
  cases leaf with
  | code location value =>
      rw [Leaf.toExpr, evaluate, outOfRange_evaluateCode, Leaf.rangeIssue?,
        Leaf.outsideCode?]
      split
      · rfl
      · rfl
  | character location value =>
      rw [Leaf.toExpr, evaluate, outOfRange_evaluateCode, Leaf.rangeIssue?,
        Leaf.outsideCode?]
      split
      · rfl
      · rfl
  | text location value =>
      rw [Leaf.toExpr, evaluate, evaluateText_eq, Leaf.rangeIssue?, Leaf.outsideCode?]
      split
      next isFound => rw [isFound]; rfl
      next isFound => rw [isFound]; rfl
  | reference location target =>
      rw [Leaf.toExpr, evaluate]
      split
      · rfl
      · rfl

theorem outOfRange_evaluate (expr : Expr) :
    (evaluate fragments expr).issues.filter Issue.isOutOfRange = expr.rangeIssues := by
  have ignores (cause : Cause) (isOfOperand : cause.isAboutOperand = true) :
      cause.isOutOfRange = false := by
    cases cause with
    | codeOutOfRange code => cases isOfOperand
    | _ => rfl
  have atLeaves : (evaluate fragments expr).issues.filter Issue.isOutOfRange =
      expr.leaves.flatMap fun leaf =>
        (evaluate fragments leaf.toExpr).issues.filter Issue.isOutOfRange :=
    issuesOf_evaluate fragments ignores expr
  rw [atLeaves, rangeIssues, List.filterMap_eq_flatMap_toList]
  simp only [outOfRange_evaluate_leaf]

theorem outOfRange_whitespaceIssues (expr : Expr) :
    (expr.whitespaceIssues fragments).filter Issue.isOutOfRange = expr.rangeIssues := by
  rw [← outOfRange_evaluate fragments expr]
  exact Outcome.issuesOf_asSet (expr.evaluate fragments) expr.location rfl

end Expr

theorem CommentSyntax.outOfRange_issues (fragments : Table String Fragment)
    (comment : CommentSyntax) :
    (comment.issues fragments).filter Issue.isOutOfRange =
      comment.exprs.flatMap Expr.rangeIssues := by
  rw [issues, List.filter_flatMap]
  simp only [Expr.outOfRange_evaluate]

namespace Draft

variable (draft : Draft)

theorem outOfRange_addFragments (declarations : List Declaration) :
    (declarations.foldl addFragment draft).issues.filter Issue.isOutOfRange =
      draft.issues.filter Issue.isOutOfRange ++
        ((Declaration.examinedFrom draft.definition.fragments declarations).map
          Declaration.body).flatMap Expr.rangeIssues := by
  induction declarations generalizing draft with
  | nil => exact (List.append_nil _).symm
  | cons declaration later induction =>
      rw [List.foldl_cons, induction, addFragment_issues, addFragment_definition,
        List.filter_append, Declaration.fragmentIssues, Declaration.examinedFrom]
      cases draft.definition.fragments.contains declaration.name with
      | true => exact congrArg (· ++ _) (List.append_nil _)
      | false =>
          rw [Declaration.bodyIssues]
          simp [Expr.outOfRange_evaluate]

/-- The body of a token is looked at even if its name is taken. -/
theorem outOfRange_addTokens (declarations : List Declaration) :
    (declarations.foldl addToken draft).issues.filter Issue.isOutOfRange =
      draft.issues.filter Issue.isOutOfRange ++
        (declarations.map Declaration.body).flatMap Expr.rangeIssues := by
  induction declarations generalizing draft with
  | nil => exact (List.append_nil _).symm
  | cons declaration later induction =>
      rw [List.foldl_cons, induction, addToken_issues, List.filter_append,
        List.filter_append, Declaration.bodyIssues, Expr.outOfRange_evaluate]
      cases draft.definition.hasToken declaration.name with
      | true => simp [Issue.isOutOfRange, Cause.isOutOfRange]
      | false => simp

theorem outOfRange_addComments (comments : List CommentSyntax) :
    (comments.foldl addComment draft).issues.filter Issue.isOutOfRange =
      draft.issues.filter Issue.isOutOfRange ++
        (comments.flatMap CommentSyntax.exprs).flatMap Expr.rangeIssues := by
  rw [foldl_addComment_issues, List.filter_append, List.filter_flatMap,
    List.flatMap_assoc]
  simp only [CommentSyntax.outOfRange_issues]

theorem outOfRange_addWhitespace (whitespace : Option Expr) :
    (draft.addWhitespace whitespace).issues.filter Issue.isOutOfRange =
      draft.issues.filter Issue.isOutOfRange ++
        whitespace.toList.flatMap Expr.rangeIssues := by
  rw [addWhitespace_issues, List.filter_append, List.filter_flatMap]
  simp only [Expr.outOfRange_whitespaceIssues]

end Draft

namespace Declaration

/-- Where names are given once, every fragment is looked at. -/
theorem examinedFrom_eq_self {fragments : Table String Fragment}
    {declarations : List Declaration}
    (distinct : (declarations.map Declaration.name).Nodup)
    (areNew : ∀ declaration ∈ declarations,
      fragments.contains declaration.name = false) :
    examinedFrom fragments declarations = declarations := by
  induction declarations generalizing fragments with
  | nil => rfl
  | cons declaration later induction =>
      rw [List.map_cons, List.nodup_cons] at distinct
      have isNew := areNew declaration List.mem_cons_self
      have laterAreNew (other : Declaration) (member : other ∈ later) :
          (declaration.define fragments).contains other.name = false := by
        have differs : other.name ≠ declaration.name :=
          ne_of_mem_of_not_mem (List.mem_map_of_mem member) distinct.1
        rw [contains_define]
        simp [differs.symm, areNew other (List.mem_cons_of_mem declaration member)]
      rw [examinedFrom, isNew, induction distinct.2 laterAreNew]
      rfl

theorem examined_eq_self {declarations : List Declaration}
    (distinct : (declarations.map Declaration.name).Nodup) :
    examined declarations = declarations :=
  examinedFrom_eq_self distinct fun _ _ => rfl

end Declaration

namespace Document

theorem outOfRange_ofDocument (document : Document) :
    (Draft.ofDocument document).issues.filter Issue.isOutOfRange =
      ((Declaration.examined document.fragments).map Declaration.body ++
        document.expressions).flatMap Expr.rangeIssues := by
  have notStarted : (Draft.empty.addExtension document.extended).issues.filter
      Issue.isOutOfRange = [] := by
    cases document.extended with
    | none => rfl
    | some expr => rfl
  rw [Draft.ofDocument]
  simp only [Draft.outOfRange_addWhitespace, Draft.outOfRange_addComments,
    Draft.outOfRange_addTokens, Draft.outOfRange_addFragments,
    Draft.empty_addExtension_definition, notStarted]
  simp only [expressions, List.flatMap_append, List.nil_append, List.append_assoc]
  rfl

/-- The codes outside the domain are reported once for every leaf, in the order of the
leaves: first in the fragments that are looked at, then in tokens, comments and
whitespace. -/
theorem reported_outOfRange_eq (document : Document) :
    document.reported.filter Issue.isOutOfRange =
      ((Declaration.examined document.fragments).map Declaration.body ++
        document.expressions).flatMap Expr.rangeIssues := by
  rw [reported_eq, outOfRange_ofDocument]

/-- Where the names of fragments are given once, none of them is left out. -/
theorem reported_outOfRange_of_distinct {document : Document}
    (distinct : (document.fragments.map Declaration.name).Nodup) :
    document.reported.filter Issue.isOutOfRange =
      (document.fragments.map Declaration.body ++
        document.expressions).flatMap Expr.rangeIssues := by
  rw [reported_eq, outOfRange_ofDocument, Declaration.examined_eq_self distinct]

/-- The body of a fragment whose name is taken has a code outside the domain, which is
not reported. -/
theorem taken_name_hides_code :
    let spot (column : Nat) : Location := .single ⟨column, 1, column + 1⟩
    let document : Document :=
      { extended := none
        fragments :=
          [⟨"f", spot 0, .character (spot 4) 'a'⟩, ⟨"f", spot 10, .code (spot 14) 300⟩]
        tokens := []
        comments := []
        whitespace := none }
    document.reported = [⟨spot 10, .duplicateFragment "f"⟩] ∧
    (document.fragments.map Declaration.body ++ document.expressions).flatMap
      Expr.rangeIssues = [⟨spot 14, .codeOutOfRange 300⟩] ∧
    document.reported.filter Issue.isOutOfRange ≠
      (document.fragments.map Declaration.body ++ document.expressions).flatMap
        Expr.rangeIssues := by
  intro spot document
  have reported : document.reported = [⟨spot 10, .duplicateFragment "f"⟩] := by
    decide +kernel
  have atIssue : (document.fragments.map Declaration.body ++
      document.expressions).flatMap Expr.rangeIssues =
        [⟨spot 14, .codeOutOfRange 300⟩] := by
    decide +kernel
  refine ⟨reported, atIssue, ?_⟩
  rw [reported, atIssue]
  decide

end Document

end LexGen
