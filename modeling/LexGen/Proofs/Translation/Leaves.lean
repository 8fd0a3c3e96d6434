import LexGen.Translation.Names

/-!
# Issues of leaves

Evaluation comes to every leaf of an expression from left to right, whatever it finds
on the way.  Operators add issues about their operands only.  Of any other kind, the
issues of an expression are those of its leaves, in order.

References are leaves.  Evaluation reports those that no fragment resolves, in order,
and nothing else about names, whatever else is wrong with the expression.
-/

namespace LexGen

/-- The cause is an operand that an operator, or the whitespace, cannot do with. -/
def Cause.isAboutOperand : Cause → Bool
  | .whitespaceNotSet | .differenceOperandNotSet | .complementOperandNotSet
  | .rangeOperandNotCode | .unionOperandNotSet => true
  | _ => false

namespace Outcome

variable {α β : Type} (kind : Cause → Bool)

def issuesOf (outcome : Outcome α) : List Issue :=
  outcome.issues.filter fun issue => kind issue.cause

theorem issuesOf_map (outcome : Outcome α) (function : α → β) :
    (outcome.map function).issuesOf kind = outcome.issuesOf kind :=
  rfl

theorem issuesOf_both (left : Outcome α) (right : Outcome β) :
    (left.both right).issuesOf kind = left.issuesOf kind ++ right.issuesOf kind :=
  List.filter_append ..

theorem issuesOf_gather (outcomes : List (Outcome α)) :
    (gather outcomes).issuesOf kind = outcomes.flatMap (issuesOf kind) :=
  List.filter_flatMap ..

variable {kind}

theorem issuesOf_fail {location : Location} {cause : Cause}
    (isOther : kind cause = false) :
    (fail location cause : Outcome α).issuesOf kind = [] := by
  simp [issuesOf, fail, isOther]

theorem issuesOf_andThen (outcome : Outcome α) {next : α → Outcome β}
    (adds : ∀ value, (next value).issuesOf kind = []) :
    (outcome.andThen next).issuesOf kind = outcome.issuesOf kind := by
  rw [andThen]
  cases outcome.value with
  | none => rfl
  | some value =>
      have addsNone := adds value
      rw [issuesOf] at addsNone
      simp [issuesOf, addsNone]

theorem issuesOf_asSet (outcome : Outcome Fragment) (location : Location)
    {cause : Cause} (isOther : kind cause = false) :
    (outcome.asSet location cause).issuesOf kind = outcome.issuesOf kind := by
  apply issuesOf_andThen
  intro fragment
  cases fragment with
  | set codes => rfl
  | regex expression => exact issuesOf_fail isOther

theorem issuesOf_asCode (outcome : Outcome Fragment) (location : Location)
    (isOther : kind .rangeOperandNotCode = false) :
    (outcome.asCode location).issuesOf kind = outcome.issuesOf kind := by
  rw [asCode, issuesOf_andThen, issuesOf_asSet outcome location isOther]
  intro codes
  cases codes.toList with
  | nil => exact issuesOf_fail isOther
  | cons code later =>
      cases later with
      | nil => rfl
      | cons other later => exact issuesOf_fail isOther

end Outcome

namespace Expr

variable (fragments : Table String Fragment) {kind : Cause → Bool}

theorem issuesOf_asSets (isOther : kind .unionOperandNotSet = false)
    (exprs : List Expr) :
    (List.zipWith
        (fun member outcome =>
          Outcome.asSet outcome member.location .unionOperandNotSet)
        exprs (evaluateAll fragments exprs)).flatMap (Outcome.issuesOf kind) =
      (evaluateAll fragments exprs).flatMap (Outcome.issuesOf kind) := by
  induction exprs with
  | nil => rfl
  | cons expr exprs induction =>
      rw [evaluateAll, List.zipWith_cons_cons, List.flatMap_cons, List.flatMap_cons,
        induction, Outcome.issuesOf_asSet _ _ isOther]

mutual

/-- Evaluation reports what is wrong with the leaves of an expression, in order. -/
theorem issuesOf_evaluate
    (ignores : ∀ cause, cause.isAboutOperand = true → kind cause = false)
    (expr : Expr) :
    (evaluate fragments expr).issuesOf kind =
      expr.leaves.flatMap fun leaf => (evaluate fragments leaf.toExpr).issuesOf kind := by
  cases expr with
  | code location value => exact (List.flatMap_singleton ..).symm
  | character location value => exact (List.flatMap_singleton ..).symm
  | text location value => exact (List.flatMap_singleton ..).symm
  | reference location target => exact (List.flatMap_singleton ..).symm
  | paren location inner =>
      rw [evaluate, leaves, issuesOf_evaluate ignores inner]
  | many location inner =>
      rw [evaluate, leaves, Outcome.issuesOf_map, issuesOf_evaluate ignores inner]
  | optional location inner =>
      rw [evaluate, leaves, Outcome.issuesOf_map, issuesOf_evaluate ignores inner]
  | range location low high =>
      have isOther := ignores .rangeOperandNotCode rfl
      rw [evaluate, leaves, List.flatMap_append, Outcome.issuesOf_map,
        Outcome.issuesOf_both, Outcome.issuesOf_asCode _ _ isOther,
        Outcome.issuesOf_asCode _ _ isOther, issuesOf_evaluate ignores low,
        issuesOf_evaluate ignores high]
  | complement location inner =>
      have isOther := ignores .complementOperandNotSet rfl
      rw [evaluate, leaves, Outcome.issuesOf_map, Outcome.issuesOf_asSet _ _ isOther,
        issuesOf_evaluate ignores inner]
  | difference location source removed =>
      have isOther := ignores .differenceOperandNotSet rfl
      rw [evaluate, leaves, List.flatMap_append, Outcome.issuesOf_map,
        Outcome.issuesOf_both, Outcome.issuesOf_asSet _ _ isOther,
        Outcome.issuesOf_asSet _ _ isOther, issuesOf_evaluate ignores source,
        issuesOf_evaluate ignores removed]
  | union location members =>
      have isOther := ignores .unionOperandNotSet rfl
      rw [evaluate, leaves, Outcome.issuesOf_map, Outcome.issuesOf_gather,
        issuesOf_asSets fragments isOther, issuesOf_evaluateAll ignores members]
  | sequence location items =>
      rw [evaluate, leaves, Outcome.issuesOf_map, Outcome.issuesOf_gather,
        issuesOf_evaluateAll ignores items]
  | alternative location items =>
      rw [evaluate, leaves, Outcome.issuesOf_map, Outcome.issuesOf_gather,
        issuesOf_evaluateAll ignores items]

theorem issuesOf_evaluateAll
    (ignores : ∀ cause, cause.isAboutOperand = true → kind cause = false)
    (exprs : List Expr) :
    (evaluateAll fragments exprs).flatMap (Outcome.issuesOf kind) =
      (leavesOf exprs).flatMap
        fun leaf => (evaluate fragments leaf.toExpr).issuesOf kind := by
  cases exprs with
  | nil => rfl
  | cons expr exprs =>
      rw [evaluateAll, leavesOf, List.flatMap_append, List.flatMap_cons,
        issuesOf_evaluate ignores expr, issuesOf_evaluateAll ignores exprs]

end

end Expr

/-! ## References -/

/-- The cause is a name that is given again or unknown. -/
def Cause.isAboutName : Cause → Bool
  | .duplicateFragment _ | .duplicateToken _ | .unknownFragment _ => true
  | _ => false

namespace Outcome

variable {α β : Type}

def nameIssues (outcome : Outcome α) : List Issue :=
  outcome.issues.filter fun issue => issue.cause.isAboutName

theorem mem_nameIssues_iff {outcome : Outcome α} {issue : Issue}
    (isName : issue.cause.isAboutName = true) :
    issue ∈ outcome.nameIssues ↔ issue ∈ outcome.issues := by
  rw [nameIssues, List.mem_filter, and_iff_left isName]

@[simp] theorem nameIssues_map (outcome : Outcome α) (function : α → β) :
    (outcome.map function).nameIssues = outcome.nameIssues :=
  rfl

theorem nameIssues_asSet (outcome : Outcome Fragment) (location : Location)
    {cause : Cause} (isOther : cause.isAboutName = false) :
    (outcome.asSet location cause).nameIssues = outcome.nameIssues :=
  issuesOf_asSet outcome location isOther

end Outcome

namespace Expr

variable (fragments : Table String Fragment)

/-- The issues for the references that the fragments do not resolve. -/
def unknownAmong (references : List (Location × String)) : List Issue :=
  (references.filter fun reference => !fragments.contains reference.2).map
    fun reference => ⟨reference.1, .unknownFragment reference.2⟩

theorem unknownAmong_flatMap {α : Type} (references : α → List (Location × String))
    (sources : List α) :
    unknownAmong fragments (sources.flatMap references) =
      sources.flatMap fun source => unknownAmong fragments (references source) := by
  simp only [unknownAmong, List.filter_flatMap, List.map_flatMap]

theorem mem_unknownAmong_iff {references : List (Location × String)} {issue : Issue} :
    issue ∈ unknownAmong fragments references ↔
      ∃ name, issue.cause = .unknownFragment name ∧
        (issue.location, name) ∈ references ∧ fragments.contains name = false := by
  rw [unknownAmong, List.mem_map]
  constructor
  · intro isIssue
    obtain ⟨reference, member, isIssue⟩ := isIssue
    obtain ⟨isReference, isUnknown⟩ := List.mem_filter.mp member
    subst isIssue
    exact ⟨reference.2, rfl, isReference, by simpa using isUnknown⟩
  · intro isUnknown
    obtain ⟨name, isCause, isReference, isUnknown⟩ := isUnknown
    refine ⟨(issue.location, name), List.mem_filter.mpr ⟨isReference, ?_⟩, ?_⟩
    · simp [isUnknown]
    · rw [← isCause]

theorem nameIssues_evaluateCode (location : Location) (value : Int) :
    (evaluateCode location value).nameIssues = [] := by
  rw [evaluateCode]
  split
  · rfl
  · rfl

theorem nameIssues_evaluateText (location : Location) (value : String) :
    (evaluateText location value).nameIssues = [] := by
  rw [evaluateText]
  split
  · rfl
  · rfl

theorem nameIssues_evaluate_leaf (leaf : Leaf) :
    (evaluate fragments leaf.toExpr).nameIssues =
      unknownAmong fragments leaf.toExpr.references := by
  cases leaf with
  | code location value => exact nameIssues_evaluateCode location value
  | character location value => exact nameIssues_evaluateCode location value.toNat
  | text location value => exact nameIssues_evaluateText location value
  | reference location target =>
      rw [Leaf.toExpr, evaluate, references, unknownAmong]
      cases isKnown : fragments.get? target with
      | none => simp [Table.contains, isKnown, Outcome.nameIssues, Outcome.fail,
          Cause.isAboutName]
      | some fragment => simp [Table.contains, isKnown, Outcome.nameIssues, Outcome.succeed]

mutual

theorem references_eq_flatMap_leaves (expr : Expr) :
    expr.references = expr.leaves.flatMap fun leaf => leaf.toExpr.references := by
  cases expr with
  | code location value => rfl
  | character location value => rfl
  | text location value => rfl
  | reference location target => rfl
  | paren location inner => exact references_eq_flatMap_leaves inner
  | many location inner => exact references_eq_flatMap_leaves inner
  | optional location inner => exact references_eq_flatMap_leaves inner
  | complement location inner => exact references_eq_flatMap_leaves inner
  | range location low high =>
      rw [references, leaves, List.flatMap_append, references_eq_flatMap_leaves low,
        references_eq_flatMap_leaves high]
  | difference location source removed =>
      rw [references, leaves, List.flatMap_append, references_eq_flatMap_leaves source,
        references_eq_flatMap_leaves removed]
  | union location members => exact referencesOf_eq_flatMap_leavesOf members
  | sequence location items => exact referencesOf_eq_flatMap_leavesOf items
  | alternative location items => exact referencesOf_eq_flatMap_leavesOf items

theorem referencesOf_eq_flatMap_leavesOf (exprs : List Expr) :
    referencesOf exprs = (leavesOf exprs).flatMap fun leaf => leaf.toExpr.references := by
  cases exprs with
  | nil => rfl
  | cons expr exprs =>
      rw [referencesOf, leavesOf, List.flatMap_append, references_eq_flatMap_leaves expr,
        referencesOf_eq_flatMap_leavesOf exprs]

end

/-- Evaluation reports the unknown names among all references of an expression, and
no other issues about names. -/
theorem nameIssues_evaluate (expr : Expr) :
    (evaluate fragments expr).nameIssues =
      unknownAmong fragments expr.references := by
  have ignores (cause : Cause) (isOfOperand : cause.isAboutOperand = true) :
      cause.isAboutName = false := by
    cases cause with
    | duplicateFragment name | duplicateToken name | unknownFragment name =>
        cases isOfOperand
    | _ => rfl
  have atLeaves : (evaluate fragments expr).nameIssues =
      expr.leaves.flatMap fun leaf => (evaluate fragments leaf.toExpr).nameIssues :=
    issuesOf_evaluate fragments ignores expr
  rw [atLeaves, references_eq_flatMap_leaves, unknownAmong_flatMap]
  simp only [nameIssues_evaluate_leaf]

end Expr

end LexGen
