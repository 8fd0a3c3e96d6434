import LexGen.CodeSet.Lemmas
import LexGen.Translation.Evaluation
import LexGen.Translation.Meaning
import Mathlib.Data.List.Find
import Mathlib.Data.List.Forall2

/-!
# Evaluation reports an issue exactly where there is no meaning

Operators that leave out failed operands still yield a value, so that a value
alone does not show that nothing went wrong.  An outcome settles a meaning if it
has the meaning as its value and no issues, or has issues if there is no
meaning.  Every operator on outcomes settles what it does to meanings, and so
does the evaluation of expressions.
-/

namespace LexGen

namespace Outcome

variable {α β γ : Type}

/-- The outcome is the meaning, without any issue, or has issues if there is no
meaning. -/
def Settles (outcome : Outcome α) : Option α → Prop
  | some value => outcome = succeed value
  | none => outcome.issues ≠ []

namespace Settles

variable {outcome : Outcome α} {meaning : Option α}

theorem map (settles : outcome.Settles meaning) (function : α → β) :
    (outcome.map function).Settles (meaning.map function) := by
  cases meaning with
  | none => exact settles
  | some value =>
      have isValue : outcome = succeed value := settles
      subst isValue
      rfl

theorem andThen (settles : outcome.Settles meaning) {next : α → Outcome β}
    {further : α → Option β} (goesOn : ∀ value, (next value).Settles (further value)) :
    (outcome.andThen next).Settles (meaning.bind further) := by
  cases meaning with
  | none =>
      have isFaulty : outcome.issues ≠ [] := settles
      have stillFaulty : (outcome.andThen next).issues ≠ [] := by
        rw [Outcome.andThen]
        split
        · exact List.append_ne_nil_of_left_ne_nil isFaulty _
        · exact isFaulty
      exact stillFaulty
  | some value =>
      have isValue : outcome = succeed value := settles
      subst isValue
      exact goesOn value

theorem both {other : Outcome β} {otherMeaning : Option β}
    (settles : outcome.Settles meaning) (otherSettles : other.Settles otherMeaning) :
    (outcome.both other).Settles
      (meaning.bind fun first => otherMeaning.map fun second => (first, second)) := by
  cases meaning with
  | none => exact List.append_ne_nil_of_left_ne_nil settles _
  | some first =>
      have isFirst : outcome = succeed first := settles
      subst isFirst
      cases otherMeaning with
      | none => exact otherSettles
      | some second =>
          have isSecond : other = succeed second := otherSettles
          subst isSecond
          rfl

/-- Gathering drops what failed, and keeps its issues. -/
theorem gather {outcomes : List (Outcome α)} {sources : List β}
    {meaning : β → Option α}
    (settle : List.Forall₂ (fun outcome source => outcome.Settles (meaning source))
      outcomes sources) :
    (Outcome.gather outcomes).Settles (sources.mapM meaning) := by
  induction settle with
  | nil => rfl
  | @cons outcome source outcomes sources settles _ induction =>
      rw [List.mapM_cons]
      cases isMeaning : meaning source with
      | none =>
          rw [isMeaning] at settles
          exact List.append_ne_nil_of_left_ne_nil settles _
      | some first =>
          rw [isMeaning] at settles
          have isFirst : outcome = succeed first := settles
          subst isFirst
          cases areMeanings : sources.mapM meaning with
          | none =>
              rw [areMeanings] at induction
              exact induction
          | some later =>
              rw [areMeanings] at induction
              have areLater : Outcome.gather outcomes = succeed later := induction
              have values : outcomes.filterMap Outcome.value = later :=
                Option.some.inj (congrArg Outcome.value areLater)
              have issues : outcomes.flatMap Outcome.issues = [] :=
                congrArg Outcome.issues areLater
              simp [Settles, Outcome.gather, succeed, values, issues]

theorem asSet {outcome : Outcome Fragment} {meaning : Option Fragment}
    (settles : outcome.Settles meaning) (location : Location) (cause : Cause) :
    (outcome.asSet location cause).Settles (meaning.bind Fragment.set?) := by
  apply settles.andThen
  intro fragment
  cases fragment with
  | set codes => rfl
  | regex expression => exact List.cons_ne_nil _ _

/-- A range is between codes, and a code is a set that has no other one. -/
theorem asCode {outcome : Outcome Fragment} {meaning : Option Fragment}
    (settles : outcome.Settles meaning) (location : Location) :
    (outcome.asCode location).Settles (meaning.bind Fragment.code?) := by
  have isCode : Fragment.code? = fun fragment =>
      fragment.set?.bind fun codes =>
        if codes.isSingleton then codes.first? else none := rfl
  rw [isCode, ← Option.bind_assoc]
  apply (settles.asSet location .rangeOperandNotCode).andThen
  intro codes
  rw [CodeSet.isSingleton, CodeSet.size, CodeSet.first?]
  cases codes.toList with
  | nil => exact List.cons_ne_nil _ _
  | cons code later =>
      cases later with
      | nil => rfl
      | cons other later => exact List.cons_ne_nil _ _

end Settles

end Outcome

namespace Expr

variable (fragments : Table String Fragment)

theorem meanings?_eq_mapM (exprs : List Expr) :
    meanings? fragments exprs = exprs.mapM (meaning? fragments) := by
  induction exprs with
  | nil => rfl
  | cons expr exprs induction =>
      rw [meanings?, List.mapM_cons, induction]

/-- In a list the operands may be insisted on one by one or after all of them. -/
theorem mapM_bind_eq {α β γ : Type} (first : α → Option β) (second : β → Option γ)
    (sources : List α) :
    sources.mapM (fun source => (first source).bind second) =
      (sources.mapM first).bind fun values => values.mapM second := by
  induction sources with
  | nil => rfl
  | cons source sources induction =>
      rw [List.mapM_cons, List.mapM_cons, induction]
      cases first source with
      | none => rfl
      | some value =>
          cases sources.mapM first with
          | none => cases isSecond : second value <;> simp [isSecond]
          | some values => simp [List.mapM_cons]

theorem evaluateCode_eq (location : Location) (value : Int) :
    evaluateCode location value =
      if value ∈ Code.domain then .succeed (.set (.singleton value))
      else .fail location (.codeOutOfRange value) := by
  by_cases inDomain : value ∈ Code.domain
  · have bounds := Code.mem_domain.mp inDomain
    simp [evaluateCode, inDomain, Code.endOfStream, Code.largest, bounds]
  · have outside : ¬ (Code.endOfStream ≤ value ∧ value ≤ Code.largest) := by
      intro bounds
      exact inDomain (Code.mem_domain.mpr bounds)
    simp only [evaluateCode, Bool.and_eq_true, decide_eq_true_eq, outside,
      inDomain, if_false]

theorem evaluateCode_settles (location : Location) (value : Int) :
    (evaluateCode location value).Settles
      (if value ∈ Code.domain then some (.set (.singleton value)) else none) := by
  rw [evaluateCode_eq]
  split
  · rfl
  · exact List.cons_ne_nil _ _

/-- A character is outside the domain only if its code is too large. -/
theorem notMem_domain_iff_of_mem_ofText {text : String} {code : Int}
    (member : code ∈ Code.ofText text) : code ∉ Code.domain ↔ Code.largest < code := by
  obtain ⟨character, _, isCode⟩ := List.mem_map.mp member
  have isNatural : -1 ≤ code := by
    rw [← isCode]
    exact Int.le_trans (by decide) (Int.natCast_nonneg _)
  rw [Code.mem_domain, Code.largest, and_iff_right isNatural, Int.not_le]

theorem evaluateText_eq (location : Location) (value : String) :
    evaluateText location value =
      match (Code.ofText value).find? fun code => code ∉ Code.domain with
      | some outside => .fail location (.codeOutOfRange outside)
      | none => .succeed (.regex (.literal value)) := by
  have sameCode : ((Code.ofText value).find? fun code => code ∉ Code.domain) =
      (Code.ofText value).find? fun code => Code.largest < code := by
    apply List.find?_congr
    intro code member
    exact decide_eq_decide.mpr (notMem_domain_iff_of_mem_ofText member)
  rw [sameCode]
  rfl

theorem evaluateText_settles (location : Location) (value : String) :
    (evaluateText location value).Settles
      (if ∀ code ∈ Code.ofText value, code ∈ Code.domain then
        some (.regex (.literal value))
      else none) := by
  rw [evaluateText_eq]
  split
  next outside isFound =>
    have isOutside := List.find?_some isFound
    rw [decide_eq_true_eq] at isOutside
    rw [if_neg fun inDomain =>
      isOutside (inDomain outside (List.mem_of_find?_eq_some isFound))]
    exact List.cons_ne_nil _ _
  next isFound =>
    have inDomain : ∀ code ∈ Code.ofText value, code ∈ Code.domain := by
      simpa using isFound
    rw [if_pos inDomain]
    rfl

theorem asSets_settle {outcomes : List (Outcome Fragment)} (members : List Expr)
    {meaning : Expr → Option Fragment}
    (settle : List.Forall₂ (fun outcome member => outcome.Settles (meaning member))
      outcomes members) :
    List.Forall₂
      (fun outcome member => outcome.Settles ((meaning member).bind Fragment.set?))
      (List.zipWith
        (fun member outcome =>
          Outcome.asSet outcome member.location .unionOperandNotSet)
        members outcomes) members := by
  induction settle with
  | nil => exact .nil
  | cons settles _ induction => exact .cons (settles.asSet _ _) induction

mutual

theorem evaluate_settles (expr : Expr) :
    (evaluate fragments expr).Settles (meaning? fragments expr) := by
  cases expr with
  | code location value => exact evaluateCode_settles location value
  | character location value => exact evaluateCode_settles location value.toNat
  | text location value => exact evaluateText_settles location value
  | paren location inner => exact evaluate_settles inner
  | many location inner =>
      rw [evaluate, meaning?, bind_pure_comp]
      exact (evaluate_settles inner).map _
  | optional location inner =>
      rw [evaluate, meaning?, bind_pure_comp]
      exact (evaluate_settles inner).map _
  | reference location target =>
      rw [evaluate, meaning?]
      cases fragments.get? target with
      | none => exact List.cons_ne_nil _ _
      | some fragment => rfl
  | range location low high =>
      have isMeaning : meaning? fragments (.range location low high) =
          (((meaning? fragments low).bind Fragment.code?).bind fun first =>
            ((meaning? fragments high).bind Fragment.code?).map fun last =>
              (first, last)).map fun codes => .set (.range codes.1 codes.2) := by
        simp only [meaning?, Option.map_eq_bind, Option.bind_assoc]
        rfl
      rw [evaluate, isMeaning]
      exact (((evaluate_settles low).asCode low.location).both
        ((evaluate_settles high).asCode high.location)).map _
  | complement location inner =>
      have isMeaning : meaning? fragments (.complement location inner) =
          ((meaning? fragments inner).bind Fragment.set?).map
            fun codes => .set (.all \ codes) := by
        simp only [meaning?, Option.map_eq_bind, Option.bind_assoc]
        rfl
      rw [evaluate, isMeaning]
      exact ((evaluate_settles inner).asSet location _).map _
  | difference location source removed =>
      have isMeaning : meaning? fragments (.difference location source removed) =
          (((meaning? fragments source).bind Fragment.set?).bind fun kept =>
            ((meaning? fragments removed).bind Fragment.set?).map fun left =>
              (kept, left)).map fun codes => .set (codes.1 \ codes.2) := by
        simp only [meaning?, Option.map_eq_bind, Option.bind_assoc]
        rfl
      rw [evaluate, isMeaning]
      exact (((evaluate_settles source).asSet source.location _).both
        ((evaluate_settles removed).asSet removed.location _)).map _
  | union location members =>
      have isMeaning : meaning? fragments (.union location members) =
          (members.mapM fun member =>
            (meaning? fragments member).bind Fragment.set?).map
              fun sets => .set (sets.foldl CodeSet.union ∅) := by
        rw [mapM_bind_eq, ← meanings?_eq_mapM]
        simp only [meaning?, Option.map_eq_bind, Option.bind_assoc]
        rfl
      rw [evaluate, isMeaning]
      apply (Outcome.Settles.gather ?_).map
      exact asSets_settle members (evaluateAll_settle members)
  | sequence location items =>
      rw [evaluate, meaning?, bind_pure_comp, meanings?_eq_mapM]
      exact (Outcome.Settles.gather (evaluateAll_settle items)).map _
  | alternative location items =>
      rw [evaluate, meaning?, bind_pure_comp, meanings?_eq_mapM]
      exact (Outcome.Settles.gather (evaluateAll_settle items)).map _

theorem evaluateAll_settle (exprs : List Expr) :
    List.Forall₂ (fun outcome expr => outcome.Settles (meaning? fragments expr))
      (evaluateAll fragments exprs) exprs := by
  cases exprs with
  | nil => exact .nil
  | cons expr exprs => exact .cons (evaluate_settles expr) (evaluateAll_settle exprs)

end

end Expr

end LexGen
