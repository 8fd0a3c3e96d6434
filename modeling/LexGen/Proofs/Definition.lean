import LexGen.Definition
import LexGen.Proofs.Assembly.AddedToken

/-!
# What a history leaves in a definition

A change in place does what the change of a value does, and a refused one leaves the
definition as it was.  Every name is given by at most one of the changes made, and a
definition answers with what that change gave, wherever the token was inserted.
-/

namespace LexGen.Definition

section InPlace

theorem run_unlessTaken (isTaken : Definition → Bool) (refusal : Refusal)
    (write : Definition → Definition) (definition : Definition) :
    (Change.unlessTaken isTaken refusal write).run.run definition =
      if isTaken definition then (.error refusal, definition)
      else (.ok (), write definition) := by
  let rest : InPlace Unit := if isTaken definition then throw refusal else modify write
  change rest.run.run definition = _
  unfold rest
  cases isTaken definition with
  | true => rfl
  | false => rfl

theorem insertIdx_place (tokens : List Token) (token : Token)
    (position : Option Nat) :
    tokens.insertIdx (min (position.getD tokens.length) tokens.length) token =
      Change.placeToken token position tokens := by
  cases position with
  | none => simp [Change.placeToken]
  | some position =>
      by_cases isInside : position < tokens.length
      · have isPlace : min position tokens.length = position :=
          Nat.min_eq_left (Nat.le_of_lt isInside)
        simp [Change.placeToken, isInside, isPlace]
      · have isPlace : min position tokens.length = tokens.length :=
          Nat.min_eq_right (Nat.le_of_not_lt isInside)
        simp [Change.placeToken, isInside, isPlace]

/-- A change in place leaves behind what the change leads to, and the definition as
it was if it is refused. -/
theorem attempt_eq (definition : Definition) (change : Change) :
    definition.attempt change =
      match change.on definition with
      | .ok next => (.ok (), next)
      | .error refusal => (.error refusal, definition) := by
  cases change with
  | addToken name pattern position =>
      rw [attempt, Change.perform, run_unlessTaken, ← insertIdx_place, Change.on, addToken]
      cases definition.hasToken name with
      | true => rfl
      | false => rfl
  | addFragment name fragment =>
      rw [attempt, Change.perform, run_unlessTaken, Change.on, addFragment]
      cases definition.hasFragment name with
      | true => rfl
      | false => rfl
  | addComment comment => rfl
  | setWhitespace whitespace => rfl

end InPlace

section Lookup

variable {definition : Definition} {name : String}

theorem hasToken_eq_false_iff :
    definition.hasToken name = false ↔ definition.token? name = none := by
  simp [hasToken]

theorem hasFragment_eq_false_iff :
    definition.hasFragment name = false ↔ definition.fragment? name = none := by
  simp [hasFragment, fragment?, Table.contains]

theorem mem_names_iff :
    name ∈ definition.tokens.map Token.name ↔ definition.token? name ≠ none := by
  simp [token?]

theorem token?_inserted {before after : List Token}
    (isSplit : definition.tokens = before ++ after)
    (isNew : definition.token? name = none) (pattern : Regex) (other : String) :
    let token : Token := ⟨name, pattern⟩
    { definition with tokens := before ++ token :: after }.token? other =
      if name = other then some pattern else definition.token? other := by
  by_cases isName : name = other
  · subst isName
    have notBefore : before.find? (fun token => token.name == name) = none := by
      have notThere : definition.tokens.find? (fun token => token.name == name) = none :=
        Option.map_eq_none_iff.mp isNew
      rw [isSplit, List.find?_append] at notThere
      exact (Option.or_eq_none_iff.mp notThere).1
    simp [token?, List.find?_append, notBefore]
  · simp [token?, List.find?_append, isSplit, isName]

end Lookup

/-- The changes made account for the names of the definition: no two tokens have the
same one, and what a name stands for was given to it once. -/
structure IsAccounted (made : List Change) (definition : Definition) : Prop where
  distinct : (definition.tokens.map Token.name).Nodup
  tokens : ∀ name,
    made.filterMap (Change.token? name) = (definition.token? name).toList
  fragments : ∀ name,
    made.filterMap (Change.fragment? name) = (definition.fragment? name).toList

namespace IsAccounted

variable {made : List Change} {definition next : Definition} {change : Change}

theorem empty : IsAccounted [] ∅ := by
  constructor
  · exact List.nodup_nil
  · intro name
    rfl
  · intro name
    rfl

theorem addToken (isAccounted : IsAccounted made definition) {name : String}
    {pattern : Regex} {position : Option Nat}
    (isAdded : definition.addToken name pattern position = .ok next) :
    IsAccounted (made ++ [.addToken name pattern position]) next := by
  have isNew : definition.hasToken name = false := by
    cases isTaken : definition.hasToken name with
    | true => simp [Definition.addToken, isTaken] at isAdded
    | false => rfl
  obtain ⟨before, after, isSplit, _, isInserted⟩ :=
    addToken_eq_ok isNew pattern position
  rw [isInserted, Except.ok.injEq] at isAdded
  subst isAdded
  have isAbsent := hasToken_eq_false_iff.mp isNew
  constructor
  · have notThere : name ∉ definition.tokens.map Token.name := by
      simp [mem_names_iff, isAbsent]
    have distinct := isAccounted.distinct
    rw [isSplit, List.map_append] at distinct notThere
    rw [List.map_append, List.map_cons, List.nodup_middle]
    exact List.nodup_cons.mpr ⟨notThere, distinct⟩
  · intro other
    rw [List.filterMap_append, isAccounted.tokens,
      token?_inserted isSplit isAbsent]
    by_cases isName : name = other
    · subst isName
      simp [Change.token?, isAbsent]
    · simp [Change.token?, isName]
  · intro other
    rw [List.filterMap_append, isAccounted.fragments]
    simp [Change.fragment?, fragment?]

theorem addFragment (isAccounted : IsAccounted made definition) {name : String}
    {fragment : Fragment} (isAdded : definition.addFragment name fragment = .ok next) :
    IsAccounted (made ++ [.addFragment name fragment]) next := by
  have isNew : definition.hasFragment name = false := by
    cases isTaken : definition.hasFragment name with
    | true => simp [Definition.addFragment, isTaken] at isAdded
    | false => rfl
  have isAbsent := hasFragment_eq_false_iff.mp isNew
  simp [Definition.addFragment, isNew] at isAdded
  subst isAdded
  constructor
  · exact isAccounted.distinct
  · intro other
    rw [List.filterMap_append, isAccounted.tokens]
    simp [Change.token?, token?]
  · intro other
    rw [List.filterMap_append, isAccounted.fragments, fragment?, fragment?,
      Table.get?_insert]
    by_cases isName : name = other
    · subst isName
      rw [fragment?] at isAbsent
      simp [Change.fragment?, isAbsent]
    · simp [Change.fragment?, isName, Ne.symm isName]

theorem unnamed (isAccounted : IsAccounted made definition)
    (sameTokens : next.tokens = definition.tokens)
    (sameFragments : next.fragments = definition.fragments)
    (givesNoToken : ∀ name, change.token? name = none)
    (givesNoFragment : ∀ name, change.fragment? name = none) :
    IsAccounted (made ++ [change]) next := by
  constructor
  · rw [sameTokens]
    exact isAccounted.distinct
  · intro name
    have sameAnswer : next.token? name = definition.token? name := by
      rw [token?, token?, sameTokens]
    rw [List.filterMap_append, isAccounted.tokens, sameAnswer]
    simp [givesNoToken]
  · intro name
    have sameAnswer : next.fragment? name = definition.fragment? name := by
      rw [fragment?, fragment?, sameFragments]
    rw [List.filterMap_append, isAccounted.fragments, sameAnswer]
    simp [givesNoFragment]

theorem on (isAccounted : IsAccounted made definition)
    (isMade : change.on definition = .ok next) :
    IsAccounted (made ++ [change]) next := by
  cases change with
  | addToken name pattern position => exact isAccounted.addToken isMade
  | addFragment name fragment => exact isAccounted.addFragment isMade
  | addComment comment =>
      cases isMade
      exact isAccounted.unnamed rfl rfl (fun _ => rfl) (fun _ => rfl)
  | setWhitespace whitespace =>
      cases isMade
      exact isAccounted.unnamed rfl rfl (fun _ => rfl) (fun _ => rfl)

/-- What was accounted for stays so through all the changes of a history. -/
theorem afterAll (isAccounted : IsAccounted made definition) (history : List Change) :
    IsAccounted (made ++ definition.changesMade history) (definition.afterAll history) := by
  induction history generalizing made definition with
  | nil => simpa [changesMade, Definition.afterAll] using isAccounted
  | cons change later induction =>
      rw [changesMade, Definition.afterAll, List.foldl_cons, attempt_eq]
      cases isNext : change.on definition with
      | ok next =>
          have further := induction (isAccounted.on isNext)
          rwa [List.append_assoc] at further
      | error refusal => exact induction isAccounted

theorem isSome_eq_any {α : Type} {given : Change → Option α} {answer : Option α}
    (isGiven : made.filterMap given = answer.toList) :
    answer.isSome = made.any fun change => (given change).isSome := by
  cases answer with
  | none =>
      have givesNothing := List.filterMap_eq_nil_iff.mp isGiven
      symm
      apply List.any_eq_false.mpr
      intro change member
      simp [givesNothing change member]
  | some value =>
      have isThere : value ∈ made.filterMap given := by simp [isGiven]
      obtain ⟨change, member, isValue⟩ := List.mem_filterMap.mp isThere
      symm
      apply List.any_eq_true.mpr
      exact ⟨change, member, by simp [isValue]⟩

theorem hasToken_eq (isAccounted : IsAccounted made definition) (name : String) :
    definition.hasToken name = made.any fun change => (change.token? name).isSome :=
  isSome_eq_any (isAccounted.tokens name)

theorem hasFragment_eq (isAccounted : IsAccounted made definition) (name : String) :
    definition.hasFragment name =
      made.any fun change => (change.fragment? name).isSome :=
  isSome_eq_any (isAccounted.fragments name)

end IsAccounted

/-- A definition is what the changes made of its history say.  The names of tokens are
distinct.  A token or a fragment is refused exactly if a change made before gave its
name, which leaves the definition as it was; else a token goes to its place and the
others keep their order.  Every name stands for what the one change that gave it was
made with. -/
theorem history_accounts_for_definition (history : List Change) :
    let definition := Definition.empty.afterAll history
    let made := Definition.empty.changesMade history
    (definition.tokens.map Token.name).Nodup ∧
    (∀ name pattern position,
      let place := min (position.getD definition.tokens.length) definition.tokens.length
      definition.addToken name pattern position =
        if made.any fun earlier => (earlier.token? name).isSome then
          .error (.duplicateToken name)
        else .ok { definition with
          tokens := definition.tokens.take place ++
            ⟨name, pattern⟩ :: definition.tokens.drop place }) ∧
    (∀ name fragment,
      definition.addFragment name fragment =
        if made.any fun earlier => (earlier.fragment? name).isSome then
          .error (.duplicateFragment name)
        else .ok { definition with
          fragments := definition.fragments.insert name fragment }) ∧
    (∀ change, definition.attempt change =
      match change.on definition with
      | .ok next => (.ok (), next)
      | .error refusal => (.error refusal, definition)) ∧
    (∀ name,
      made.filterMap (Change.token? name) = (definition.token? name).toList) ∧
    (∀ name,
      made.filterMap (Change.fragment? name) = (definition.fragment? name).toList) := by
  intro definition made
  have isAccounted : IsAccounted made definition := IsAccounted.empty.afterAll history
  refine ⟨isAccounted.distinct, ?_, ?_, attempt_eq definition, isAccounted.tokens,
    isAccounted.fragments⟩
  · intro name pattern position place
    rw [← isAccounted.hasToken_eq]
    cases isTaken : definition.hasToken name with
    | true => simp [addToken, isTaken]
    | false =>
        obtain ⟨before, after, isSplit, isPlace, isAdded⟩ :=
          addToken_eq_ok isTaken pattern position
        have isPlace : before.length = place := isPlace
        simp [isAdded, isSplit, ← isPlace]
  · intro name fragment
    rw [← isAccounted.hasFragment_eq, addFragment]

end LexGen.Definition
