import LexGen.Proofs.Translation.Documents
import LexGen.Proofs.Translation.Leaves
import Mathlib.Data.List.Induction

/-!
# Issues section by section

Each step of translating a document adds its issues to those that were met before.
They depend on the fragments so far, and for a token also on whether its name is
taken.  What is about names in them depends on the tokens whose bodies yielded a value
as well.
-/

namespace LexGen

namespace Declaration

def bodyIssues (fragments : Table String Fragment) (declaration : Declaration) :
    List Issue :=
  (declaration.body.evaluate fragments).issues

/-- What is at issue about a declaration as a fragment.  A body is not looked at if
the name is taken. -/
def fragmentIssues (fragments : Table String Fragment) (declaration : Declaration) :
    List Issue :=
  if fragments.contains declaration.name then
    [⟨declaration.location, .duplicateFragment declaration.name⟩]
  else declaration.bodyIssues fragments

end Declaration

def CommentSyntax.issues (fragments : Table String Fragment) (comment : CommentSyntax) :
    List Issue :=
  comment.exprs.flatMap fun expr => (expr.evaluate fragments).issues

def Expr.whitespaceIssues (fragments : Table String Fragment) (expr : Expr) :
    List Issue :=
  ((expr.evaluate fragments).asSet expr.location .whitespaceNotSet).issues

namespace Draft

section Outcomes

variable (definition : Definition)

theorem fragmentOutcome_issues (declaration : Declaration) :
    (fragmentOutcome declaration definition).issues =
      declaration.fragmentIssues definition.fragments := by
  rw [fragmentOutcome, Definition.hasFragment, Declaration.fragmentIssues]
  split
  · rfl
  · rfl

theorem tokenOutcome_issues (declaration : Declaration) :
    (tokenOutcome declaration definition).issues =
      declaration.bodyIssues definition.fragments ++
        if definition.hasToken declaration.name then
          [⟨declaration.location, .duplicateToken declaration.name⟩]
        else [] := by
  rw [tokenOutcome]
  split
  · rfl
  · exact (List.append_nil _).symm

theorem commentOutcome_issues (comment : CommentSyntax) :
    (commentOutcome comment definition).issues =
      comment.issues definition.fragments := by
  cases comment with
  | line pattern => exact (List.flatMap_singleton ..).symm
  | block location opening close nested =>
      rw [CommentSyntax.issues, CommentSyntax.exprs, List.flatMap_cons,
        List.flatMap_singleton]
      rfl

end Outcomes

section Steps

variable (draft : Draft)

theorem addFragment_issues (declaration : Declaration) :
    (draft.addFragment declaration).issues =
      draft.issues ++ declaration.fragmentIssues draft.definition.fragments := by
  rw [addFragment_eq_proceed, proceed, fragmentOutcome_issues]

theorem addToken_issues (declaration : Declaration) :
    (draft.addToken declaration).issues =
      draft.issues ++ (declaration.bodyIssues draft.definition.fragments ++
        if draft.definition.hasToken declaration.name then
          [⟨declaration.location, .duplicateToken declaration.name⟩]
        else []) := by
  rw [addToken_eq_proceed, proceed, tokenOutcome_issues]

theorem addComment_issues (comment : CommentSyntax) :
    (draft.addComment comment).issues =
      draft.issues ++ comment.issues draft.definition.fragments := by
  rw [addComment_eq_proceed, proceed, commentOutcome_issues]

theorem addWhitespace_issues (whitespace : Option Expr) :
    (draft.addWhitespace whitespace).issues =
      draft.issues ++
        whitespace.toList.flatMap (Expr.whitespaceIssues draft.definition.fragments) := by
  cases whitespace with
  | none => exact (List.append_nil draft.issues).symm
  | some expr =>
      rw [addWhitespace_eq_proceed, proceed, Option.toList_some, List.flatMap_singleton]
      rfl

end Steps

end Draft

/-! ## Names -/

namespace AtSome

variable {α : Type} {property other : List α → α → Prop} {items : List α}

theorem not_nil : ¬ AtSome property [] := by
  intro holds
  obtain ⟨before, item, after, isNil, _⟩ := holds
  exact List.append_ne_nil_of_right_ne_nil before (List.cons_ne_nil item after)
    isNil.symm

theorem concat_iff {last : α} :
    AtSome property (items ++ [last]) ↔
      AtSome property items ∨ property items last := by
  constructor
  · intro holds
    obtain ⟨before, item, after, isSplit, holds⟩ := holds
    cases after using List.reverseRecOn with
    | nil =>
        obtain ⟨isBefore, isItem⟩ := List.append_inj' isSplit rfl
        cases isItem
        subst isBefore
        exact .inr holds
    | append_singleton after final =>
        rw [← List.cons_append, ← List.append_assoc] at isSplit
        exact .inl ⟨before, item, after, (List.append_inj' isSplit rfl).1, holds⟩
  · intro holds
    cases holds with
    | inl holds =>
        obtain ⟨before, item, after, isSplit, holds⟩ := holds
        refine ⟨before, item, after ++ [last], ?_, holds⟩
        rw [isSplit, List.append_assoc, List.cons_append]
    | inr holds => exact ⟨items, last, [], rfl, holds⟩

theorem congr (same : ∀ before item after, items = before ++ item :: after →
      (property before item ↔ other before item)) :
    AtSome property items ↔ AtSome other items := by
  constructor
  · intro holds
    obtain ⟨before, item, after, isSplit, holds⟩ := holds
    exact ⟨before, item, after, isSplit, (same before item after isSplit).mp holds⟩
  · intro holds
    obtain ⟨before, item, after, isSplit, holds⟩ := holds
    exact ⟨before, item, after, isSplit, (same before item after isSplit).mpr holds⟩

@[simp] theorem false_iff : AtSome (fun _ _ => False) items ↔ False := by
  simp [AtSome]

theorem or_iff :
    AtSome (fun before item => property before item ∨ other before item) items ↔
      AtSome property items ∨ AtSome other items := by
  simp only [AtSome, and_or_left, exists_or]

/-- Where the items before an item do not matter, some item has the property. -/
theorem iff_exists_mem {property : α → Prop} :
    AtSome (fun _ => property) items ↔ ∃ item ∈ items, property item := by
  constructor
  · intro holds
    obtain ⟨before, item, after, isSplit, holds⟩ := holds
    rw [isSplit]
    exact ⟨item, List.mem_append_right before List.mem_cons_self, holds⟩
  · intro holds
    obtain ⟨item, member, holds⟩ := holds
    obtain ⟨before, after, isSplit⟩ := List.append_of_mem member
    exact ⟨before, item, after, isSplit, holds⟩

end AtSome

namespace Declaration

theorem contains_define (fragments : Table String Fragment) (declaration : Declaration)
    (name : String) :
    (declaration.define fragments).contains name =
      (fragments.contains name ||
        declaration.name == name && declaration.body.yields fragments) := by
  rw [define, Expr.yields]
  by_cases isTaken : fragments.contains declaration.name = true
  · rw [if_pos isTaken]
    by_cases isSame : declaration.name = name
    · subst isSame
      simp [isTaken]
    · simp [isSame]
  · rw [if_neg isTaken]
    cases (declaration.body.evaluate fragments).value with
    | none => simp
    | some fragment =>
        simp only [Table.contains, Table.get?_insert]
        by_cases isSame : declaration.name = name
        · subst isSame
          simp
        · have differs : ¬ name = declaration.name := fun same => isSame same.symm
          simp [isSame, differs]

theorem contains_fragmentsOf_iff {declarations : List Declaration} {name : String} :
    (fragmentsOf declarations).contains name = true ↔ Defines declarations name := by
  induction declarations using List.reverseRecOn with
  | nil => exact iff_of_false nofun AtSome.not_nil
  | append_singleton declarations last induction =>
      rw [fragmentsOf, List.foldl_append, List.foldl_cons, List.foldl_nil,
        contains_define, Defines, AtSome.concat_iff]
      rw [Bool.or_eq_true, Bool.and_eq_true, beq_iff_eq]
      exact or_congr induction Iff.rfl

theorem contains_fragmentsOf_eq_false_iff {declarations : List Declaration}
    {name : String} :
    (fragmentsOf declarations).contains name = false ↔ ¬ Defines declarations name := by
  rw [← contains_fragmentsOf_iff, Bool.not_eq_true]

end Declaration

namespace Draft

section Outcomes

variable (definition : Definition)

theorem fragmentOutcome_nameIssues (declaration : Declaration) :
    (fragmentOutcome declaration definition).nameIssues =
      if definition.fragments.contains declaration.name then
        [⟨declaration.location, .duplicateFragment declaration.name⟩]
      else Expr.unknownAmong definition.fragments declaration.body.references := by
  rw [Outcome.nameIssues, fragmentOutcome_issues, Declaration.fragmentIssues]
  split
  · rfl
  · exact Expr.nameIssues_evaluate definition.fragments declaration.body

theorem tokenOutcome_nameIssues (declaration : Declaration) :
    (tokenOutcome declaration definition).nameIssues =
      Expr.unknownAmong definition.fragments declaration.body.references ++
        if definition.hasToken declaration.name then
          [⟨declaration.location, .duplicateToken declaration.name⟩]
        else [] := by
  rw [Outcome.nameIssues, tokenOutcome_issues, List.filter_append,
    ← Expr.nameIssues_evaluate]
  split
  · rfl
  · rfl

theorem commentOutcome_nameIssues (comment : CommentSyntax) :
    (commentOutcome comment definition).nameIssues =
      comment.exprs.flatMap fun expr =>
        Expr.unknownAmong definition.fragments expr.references := by
  rw [Outcome.nameIssues, commentOutcome_issues, CommentSyntax.issues,
    List.filter_flatMap]
  simp only [← Expr.nameIssues_evaluate]
  rfl

theorem whitespaceOutcome_nameIssues (expr : Expr) :
    (whitespaceOutcome expr definition).nameIssues =
      Expr.unknownAmong definition.fragments expr.references := by
  rw [whitespaceOutcome, Outcome.nameIssues_map, Outcome.nameIssues_asSet _ _ rfl,
    Expr.nameIssues_evaluate]

end Outcomes

section Sections

variable (draft : Draft) (declarations : List Declaration)

/-- The issues of a section are those of its steps, each of which goes on from where
the ones before it led. -/
theorem mem_foldl_iff {α : Type} {step : Draft → α → Draft}
    {outcome : α → Definition → Outcome Definition}
    (isStep : ∀ draft item, step draft item = draft.proceed (outcome item))
    (items : List α) {issue : Issue} :
    issue ∈ (items.foldl step draft).issues ↔ issue ∈ draft.issues ∨
      AtSome
        (fun before item =>
          issue ∈ (outcome item (before.foldl step draft).definition).issues)
        items := by
  induction items using List.reverseRecOn with
  | nil => exact (or_iff_left AtSome.not_nil).symm
  | append_singleton items last induction =>
      rw [List.foldl_append, List.foldl_cons, List.foldl_nil, isStep, proceed,
        List.mem_append, induction, AtSome.concat_iff, or_assoc]

theorem addFragment_definition (declaration : Declaration) :
    (draft.addFragment declaration).definition =
      { draft.definition with
        fragments := declaration.define draft.definition.fragments } := by
  rw [addFragment_eq_proceed, proceed, fragmentOutcome, Declaration.define,
    Definition.hasFragment]
  cases draft.definition.fragments.contains declaration.name with
  | true => rfl
  | false =>
      cases isValue : (declaration.body.evaluate draft.definition.fragments).value with
      | none => simp [Outcome.map, isValue]
      | some fragment => simp [Outcome.map, isValue]

theorem foldl_addFragment_definition :
    (declarations.foldl addFragment draft).definition =
      { draft.definition with
        fragments := declarations.foldl
          (fun fragments declaration => declaration.define fragments)
          draft.definition.fragments } := by
  induction declarations generalizing draft with
  | nil => rfl
  | cons declaration declarations induction =>
      rw [List.foldl_cons, induction, addFragment_definition, List.foldl_cons]

theorem addToken_fragments (declaration : Declaration) :
    (draft.addToken declaration).definition.fragments = draft.definition.fragments := by
  rw [addToken_eq_proceed, proceed, tokenOutcome]
  cases isValue : (declaration.body.evaluate draft.definition.fragments).value with
  | none => cases draft.definition.hasToken declaration.name <;>
      simp [Outcome.map, isValue]
  | some fragment => cases draft.definition.hasToken declaration.name <;>
      simp [Outcome.map, isValue, Definition.withTokens]

theorem addToken_hasToken (declaration : Declaration) (name : String) :
    (draft.addToken declaration).definition.hasToken name =
      (draft.definition.hasToken name || declaration.name == name &&
        declaration.body.yields draft.definition.fragments) := by
  rw [addToken_eq_proceed, proceed, tokenOutcome, Expr.yields]
  cases isValue : (declaration.body.evaluate draft.definition.fragments).value with
  | none => cases draft.definition.hasToken declaration.name <;>
      simp [Outcome.map, isValue]
  | some fragment =>
      cases isTaken : draft.definition.hasToken declaration.name with
      | true =>
          by_cases isSame : declaration.name = name
          · subst isSame
            simp [isTaken]
          · simp [isSame]
      | false =>
          simp [Outcome.map, isValue, Definition.hasToken_eq_any, Definition.withTokens]

/-- Tokens leave the fragments alone, and take the names of those whose bodies yield
a value. -/
theorem foldl_addToken :
    (declarations.foldl addToken draft).definition.fragments =
        draft.definition.fragments ∧
      ∀ name, (declarations.foldl addToken draft).definition.hasToken name =
        (draft.definition.hasToken name || declarations.any fun declaration =>
          declaration.name == name &&
            declaration.body.yields draft.definition.fragments) := by
  induction declarations generalizing draft with
  | nil => simp
  | cons declaration declarations induction =>
      obtain ⟨sameFragments, takes⟩ := induction (draft.addToken declaration)
      rw [addToken_fragments] at sameFragments takes
      refine ⟨sameFragments, ?_⟩
      intro name
      rw [List.foldl_cons, takes, addToken_hasToken, List.any_cons, Bool.or_assoc]

theorem foldl_addComment_fragments (comments : List CommentSyntax) :
    (comments.foldl addComment draft).definition.fragments =
      draft.definition.fragments := by
  induction comments generalizing draft with
  | nil => rfl
  | cons comment comments induction =>
      rw [List.foldl_cons, induction, addComment_eq_proceed, proceed, commentOutcome,
        Outcome.map]
      cases ((clean draft.definition).evaluateComment comment).value with
      | none => rfl
      | some comment => rfl

theorem foldl_addComment_issues (comments : List CommentSyntax) :
    (comments.foldl addComment draft).issues =
      draft.issues ++
        comments.flatMap (CommentSyntax.issues draft.definition.fragments) := by
  induction comments generalizing draft with
  | nil => exact (List.append_nil draft.issues).symm
  | cons comment comments induction =>
      have sameFragments := foldl_addComment_fragments draft [comment]
      rw [List.foldl_cons, List.foldl_nil] at sameFragments
      rw [List.foldl_cons, induction, addComment_issues, sameFragments,
        List.flatMap_cons, List.append_assoc]

section Named

open Declaration (fragmentsOf Defines)

variable {draft} {declarations} {issue : Issue}
  (isName : issue.cause.isAboutName = true)

include isName

theorem mem_addFragments_iff (noFragments : draft.definition.fragments = ∅) :
    issue ∈ (declarations.foldl addFragment draft).issues ↔ issue ∈ draft.issues ∨
      AtSome
        (fun before declaration =>
          Defines before declaration.name ∧
              issue = ⟨declaration.location, .duplicateFragment declaration.name⟩ ∨
            ¬ Defines before declaration.name ∧
              issue ∈
                Expr.unknownAmong (fragmentsOf before) declaration.body.references)
        declarations := by
  rw [mem_foldl_iff draft addFragment_eq_proceed]
  apply or_congr Iff.rfl
  apply AtSome.congr
  intro before declaration _ _
  rw [← Outcome.mem_nameIssues_iff isName, fragmentOutcome_nameIssues,
    foldl_addFragment_definition, noFragments, ← fragmentsOf]
  simp only [← Declaration.contains_fragmentsOf_iff]
  split
  next isTaken => simp [isTaken]
  next isFree => simp [isFree]

theorem mem_addTokens_iff (noTokens : draft.definition.tokens = []) :
    issue ∈ (declarations.foldl addToken draft).issues ↔ issue ∈ draft.issues ∨
      AtSome
        (fun before declaration =>
          issue = ⟨declaration.location, .duplicateToken declaration.name⟩ ∧
            ∃ earlier ∈ before, earlier.name = declaration.name ∧
              earlier.body.yields draft.definition.fragments = true)
        declarations ∨
      ∃ declaration ∈ declarations, issue ∈
        Expr.unknownAmong draft.definition.fragments declaration.body.references := by
  rw [mem_foldl_iff draft addToken_eq_proceed]
  apply or_congr Iff.rfl
  rw [← AtSome.iff_exists_mem, ← AtSome.or_iff]
  apply AtSome.congr
  intro before declaration _ _
  obtain ⟨sameFragments, takes⟩ := foldl_addToken draft before
  have isTaken : (before.foldl addToken draft).definition.hasToken declaration.name =
      true ↔ ∃ earlier ∈ before, earlier.name = declaration.name ∧
        earlier.body.yields draft.definition.fragments = true := by
    simp [takes, Definition.hasToken_eq_any, noTokens]
  rw [← Outcome.mem_nameIssues_iff isName, tokenOutcome_nameIssues, List.mem_append,
    sameFragments, or_comm, ← isTaken]
  apply or_congr _ Iff.rfl
  split
  next holds => simp [holds]
  next fails => simp [fails]

theorem mem_addComments_iff {comments : List CommentSyntax} :
    issue ∈ (comments.foldl addComment draft).issues ↔ issue ∈ draft.issues ∨
      ∃ expr ∈ comments.flatMap CommentSyntax.exprs,
        issue ∈ Expr.unknownAmong draft.definition.fragments expr.references := by
  rw [mem_foldl_iff draft addComment_eq_proceed]
  apply or_congr Iff.rfl
  have reports (before : List CommentSyntax) (comment : CommentSyntax)
      (after : List CommentSyntax) (_ : comments = before ++ comment :: after) :
      issue ∈ (commentOutcome comment
          (before.foldl addComment draft).definition).issues ↔
        ∃ expr ∈ comment.exprs,
          issue ∈ Expr.unknownAmong draft.definition.fragments expr.references := by
    rw [← Outcome.mem_nameIssues_iff isName, commentOutcome_nameIssues,
      foldl_addComment_fragments, List.mem_flatMap]
  rw [AtSome.congr reports, AtSome.iff_exists_mem]
  simp only [List.mem_flatMap]
  grind

theorem mem_addWhitespace_iff {whitespace : Option Expr} :
    issue ∈ (draft.addWhitespace whitespace).issues ↔ issue ∈ draft.issues ∨
      ∃ expr ∈ whitespace.toList,
        issue ∈ Expr.unknownAmong draft.definition.fragments expr.references := by
  cases whitespace with
  | none => simp [addWhitespace]
  | some expr =>
      rw [addWhitespace_eq_proceed, proceed, List.mem_append,
        ← Outcome.mem_nameIssues_iff isName, whitespaceOutcome_nameIssues]
      simp

end Named

end Sections

end Draft

end LexGen
