import LexGen.Proofs.Assembly.TopLevel

/-!
# What an added token changes

A token that is added to a definition takes the words that its own recogniser
accepts from the tokens after it, from the end of the stream and from the
comments.  Every other word stays what it was, and only the tokens after the new
one are renumbered.
-/

namespace LexGen

section Inserted

variable {α : Type}

theorem insertIdx_append (before after : List α) (added : α) :
    (before ++ after).insertIdx before.length added =
      before ++ added :: after := by
  induction before with
  | nil => rfl
  | cons entry before induction =>
      rw [List.cons_append, List.length_cons, List.insertIdx_succ_cons, induction]
      rfl

/-- The index of an entry once another one was inserted at the place. -/
def indexAround (place index : Nat) : Nat :=
  if index < place then index else index + 1

theorem findIdx?_inserted_of_lacks (property : α → Bool) {added : α}
    (lacks : property added = false) (before after : List α) :
    (before ++ added :: after).findIdx? property =
      ((before ++ after).findIdx? property).map (indexAround before.length) := by
  rw [List.findIdx?_append, List.findIdx?_append, List.findIdx?_cons, lacks]
  cases isFirst : before.findIdx? property with
  | some index =>
      have isBefore := (List.findIdx?_eq_some_iff_getElem.mp isFirst).1
      simp [indexAround, isBefore]
  | none =>
      cases after.findIdx? property with
      | some index => simp [indexAround, Nat.add_right_comm]
      | none => simp

theorem findIdx?_inserted_of_holds (property : α → Bool) {added : α}
    (holds : property added = true) (before after : List α) :
    (before ++ added :: after).findIdx? property =
      some (match (before ++ after).findIdx? property with
        | some index => if index < before.length then index else before.length
        | none => before.length) := by
  rw [List.findIdx?_append, List.findIdx?_append, List.findIdx?_cons, holds]
  cases isFirst : before.findIdx? property with
  | some index =>
      have isBefore := (List.findIdx?_eq_some_iff_getElem.mp isFirst).1
      simp [isBefore]
  | none =>
      cases after.findIdx? property with
      | some index => simp
      | none => simp

end Inserted

namespace TopLevelItem

/-- What an item becomes when a token is added at the place. -/
def around (place : Nat) : TopLevelItem → TopLevelItem
  | .token index => .token (indexAround place index)
  | .endOfStream => .endOfStream
  | .comment index => .comment index

/-- What a word becomes that the added token accepts: this token, unless the word
was a token before it. -/
def takenAt (place : Nat) : Option TopLevelItem → TopLevelItem
  | some (.token index) =>
      if index < place then .token index else .token place
  | _ => .token place

end TopLevelItem

namespace Definition

theorem topLevelItem?_eq_classify (definition : Definition) (word : List Int) :
    definition.topLevelItem? word = .ok (definition.classify word) := by
  obtain ⟨topLevel, isTopLevel, accepts⟩ := definition.topLevel_accept?
  simp only [topLevelItem?, isTopLevel, accepts word, bind, Except.bind, pure,
    Except.pure, Except.ok.injEq]
  cases isItem : definition.classify word with
  | none => rfl
  | some item => exact TopLevelItem.ofNumber?_number (isIn_of_classify isItem)

section Added

variable {definition : Definition} {before after : List Token} {token : Token}

theorem classify_of_rejected {word : List Int}
    (isSplit : definition.tokens = before ++ after)
    (rejects : token.pattern.acceptsAlone word = false) :
    { definition with tokens := before ++ token :: after }.classify word =
      (definition.classify word).map (TopLevelItem.around before.length) := by
  have inserted := findIdx?_inserted_of_lacks
    (fun token : Token => token.pattern.acceptsAlone word) rejects before after
  simp only [classify, isSplit, inserted]
  cases (before ++ after).findIdx? fun token =>
      token.pattern.acceptsAlone word with
  | some index => rfl
  | none =>
      by_cases isEnd : word = [Code.endOfStream]
      · simp [isEnd, TopLevelItem.around]
      · simp [isEnd, Function.comp_def, TopLevelItem.around]

theorem classify_of_accepted {word : List Int}
    (isSplit : definition.tokens = before ++ after)
    (accepts : token.pattern.acceptsAlone word = true) :
    { definition with tokens := before ++ token :: after }.classify word =
      some (TopLevelItem.takenAt before.length (definition.classify word)) := by
  have inserted := findIdx?_inserted_of_holds
    (fun token : Token => token.pattern.acceptsAlone word) accepts before after
  simp only [classify, isSplit, inserted]
  cases (before ++ after).findIdx? fun token =>
      token.pattern.acceptsAlone word with
  | some index =>
      by_cases isBefore : index < before.length
      · simp [TopLevelItem.takenAt, isBefore]
      · simp [TopLevelItem.takenAt, isBefore]
  | none =>
      by_cases isEnd : word = [Code.endOfStream]
      · simp [isEnd, TopLevelItem.takenAt]
      · cases definition.comments.findIdx? fun comment =>
            comment.opening.acceptsAlone word with
        | some index => simp [isEnd, TopLevelItem.takenAt]
        | none => simp [isEnd, TopLevelItem.takenAt]

end Added

theorem addToken_eq_ok {definition : Definition} {name : String}
    (isNew : definition.hasToken name = false) (pattern : Regex)
    (position : Option Nat) :
    let place := min (position.getD definition.tokens.length)
      definition.tokens.length
    ∃ before after, definition.tokens = before ++ after ∧
      before.length = place ∧
      definition.addToken name pattern position =
        .ok { definition with tokens := before ++ ⟨name, pattern⟩ :: after } := by
  intro place
  have isSplit := List.take_append_drop place definition.tokens
  have length : (definition.tokens.take place).length = place :=
    List.length_take_of_le (Nat.min_le_right _ _)
  refine ⟨definition.tokens.take place, definition.tokens.drop place,
    isSplit.symm, length, ?_⟩
  have inserted := insertIdx_append (definition.tokens.take place)
    (definition.tokens.drop place) ⟨name, pattern⟩
  rw [isSplit, length] at inserted
  simp [addToken, isNew, ← inserted, place]

/-- Adding a token changes nothing but what it matches.  A word that its own
recogniser rejects stays the item it was, renumbered if it is a later token, and
a word that it accepts becomes the new token, unless it was an earlier one. -/
theorem addToken_changes_matches {definition : Definition} {name : String}
    (isNew : definition.hasToken name = false) (pattern : Regex)
    (position : Option Nat) :
    let place := min (position.getD definition.tokens.length)
      definition.tokens.length
    ∃ extended, definition.addToken name pattern position = .ok extended ∧
      ∀ word, ∃ before after,
        definition.topLevelItem? word = .ok before ∧
        extended.topLevelItem? word = .ok after ∧
        after =
          if pattern.acceptsAlone word then
            some (TopLevelItem.takenAt place before)
          else before.map (TopLevelItem.around place) := by
  intro place
  obtain ⟨before, after, isSplit, isPlace, isAdded⟩ :=
    addToken_eq_ok isNew pattern position
  refine ⟨_, isAdded, ?_⟩
  intro word
  refine ⟨_, _, topLevelItem?_eq_classify _ word,
    topLevelItem?_eq_classify _ word, ?_⟩
  have isPlace : before.length = place := isPlace
  rw [← isPlace]
  cases accepts : pattern.acceptsAlone word with
  | true => exact classify_of_accepted isSplit accepts
  | false => exact classify_of_rejected isSplit accepts

/-- A token between two others that takes the mark of a comment. -/
theorem doubled_slash_changes_matches :
    let definition : Definition :=
      { tokens :=
          [⟨"letters", .many (.oneOf (.range 97 122))⟩,
            ⟨"slashes", .many (.literal "/")⟩]
        comments := [.line (.literal "//"), .line (.literal "#")]
        whitespace := Definition.defaultWhitespace
        fragments := ∅ }
    definition.hasToken "division" = false ∧
      ∃ extended,
        definition.addToken "division" (.literal "//") (some 1) = .ok extended ∧
        ∀ word, ∃ before after,
          definition.topLevelItem? word = .ok before ∧
          extended.topLevelItem? word = .ok after ∧
          after =
            if (Regex.literal "//").acceptsAlone word then
              some (TopLevelItem.takenAt 1 before)
            else before.map (TopLevelItem.around 1) := by
  intro definition
  have isNew : definition.hasToken "division" = false := by decide
  exact ⟨isNew, addToken_changes_matches isNew (.literal "//") (some 1)⟩

end Definition

end LexGen
