import LexGen.Proofs.Assembly.TopLevel
import LexGen.Proofs.LongestMatch
import LexGen.Proofs.Thompson.Language
import LexGen.Regex.Literal

/-!
# Literal matches at the top level

An expression that takes leading codes of an input literally takes them as a word
that flows through the expression.  The token that a text literally spells accepts
the text therefore, so that the longest match of the top level on the text is all
of it, as this token or as an earlier one that accepts it too.
-/

namespace LexGen

namespace Regex

/-- As many leading codes of the input cross the device as are taken. -/
def TakesCrossing (flow : Passage Terminal) (input : List Int) (taken : Nat) :
    Prop :=
  ∃ word later, input = word ++ later ∧ taken = word.length ∧
    flow .entry word .exit

mutual

theorem takesCrossing_of_literalMatch? (regex : Regex) {input : List Int}
    (inDomain : ∀ code ∈ input, code ∈ Code.domain) {taken : Nat}
    (takes : regex.literalMatch? input = some taken) :
    TakesCrossing regex.Flows input taken := by
  cases regex with
  | oneOf set =>
      cases input with
      | nil => cases takes
      | cons code input =>
          rw [literalMatch?] at takes
          split at takes
          next holds =>
            cases takes
            have member : code ∈ set := (Bool.and_eq_true_iff.mp holds).2
            refine ⟨[code], input, rfl, rfl, ?_⟩
            exact (flows_oneOf_iff member).mpr ⟨code, member, rfl⟩
          next => cases takes
  | literal text =>
      rw [literalMatch?] at takes
      split at takes
      next isPrefix =>
        cases takes
        obtain ⟨later, isInput⟩ := List.isPrefixOf_iff_prefix.mp isPrefix
        refine ⟨Code.ofText text, later, isInput.symm, rfl, ?_⟩
        apply flowsCodes_crossing
        intro code member
        apply inDomain
        rw [← isInput]
        exact List.mem_append_left later member
      next => cases takes
  | many inner => cases takes
  | optional inner => cases takes
  | sequence items => exact takesCrossing_of_literalMatchAll? items inDomain takes
  | alternative items => cases takes

theorem takesCrossing_of_literalMatchAll? (items : List Regex) {input : List Int}
    (inDomain : ∀ code ∈ input, code ∈ Code.domain) {taken : Nat}
    (takes : literalMatchAll? items input = some taken) :
    TakesCrossing (FlowsSequence items) input taken := by
  cases items with
  | nil =>
      cases takes
      exact ⟨[], input, rfl, rfl, rfl⟩
  | cons item items =>
      obtain ⟨first, takesFirst, takes⟩ := Option.bind_eq_some_iff.mp takes
      obtain ⟨later, takesLater, takes⟩ := Option.bind_eq_some_iff.mp takes
      cases takes
      obtain ⟨word, rest, isInput, isFirst, flows⟩ :=
        takesCrossing_of_literalMatch? item inDomain takesFirst
      subst isInput
      subst isFirst
      rw [List.drop_left] at takesLater
      have restInDomain : ∀ code ∈ rest, code ∈ Code.domain := by
        intro code member
        exact inDomain code (List.mem_append_right word member)
      obtain ⟨further, rest, isRest, isLater, flowsLater⟩ :=
        takesCrossing_of_literalMatchAll? items restInDomain takesLater
      subst isRest
      subst isLater
      refine ⟨word ++ further, rest, ?_, ?_, ?_⟩
      · rw [List.append_assoc]
      · rw [List.length_append]
      · exact Flow.series_crossing flows flowsLater

end

theorem acceptsAlone_of_literalMatch? {regex : Regex} {input : List Int}
    (inDomain : ∀ code ∈ input, code ∈ Code.domain)
    (takes : regex.literalMatch? input = some input.length) :
    regex.acceptsAlone input = true := by
  obtain ⟨word, later, isInput, isLength, flows⟩ :=
    takesCrossing_of_literalMatch? regex inDomain takes
  have isAll : later = [] := by
    rw [isInput, List.length_append, Nat.add_eq_left] at isLength
    exact List.length_eq_zero_iff.mp isLength
  rw [isInput, isAll, List.append_nil]
  exact acceptsAlone_iff_flows.mpr flows

end Regex

namespace Definition

/-- A word that a token accepts is matched to its end, as the first token that
accepts it. -/
theorem longestMatch_of_acceptsAlone (definition : Definition) {word : List Int}
    {index : Nat}
    (isFirst : (definition.tokens.findIdx? fun token =>
      token.pattern.acceptsAlone word) = some index) :
    ∃ topLevel, definition.topLevel = .ok topLevel ∧
      topLevel.longestMatch word = .ok (some (word.length, index)) := by
  obtain ⟨topLevel, isTopLevel, accepts⟩ := definition.topLevel_accept?
  have closed : topLevel.IsClosed :=
    (Automaton.ofItems_isClosed _).determinize_isClosed isTopLevel
  have accepted : topLevel.accept? word = .ok (some index) := by
    rw [accepts, classify, isFirst]
    rfl
  obtain ⟨answer, isAnswer, longest⟩ := closed.longestMatch_isLongest word
  have whole : topLevel.acceptFrom? topLevel.start (word.take word.length) =
      .ok (some index) := by
    rw [List.take_length]
    exact accepted
  obtain ⟨length, winner, isSome, longer⟩ :=
    longest.le_of_accepted (Nat.le_refl _) whole
  subst isSome
  obtain ⟨bound, isWinner, _⟩ := longest
  have isLength : length = word.length := Nat.le_antisymm bound longer
  rw [isLength, whole] at isWinner
  cases isWinner
  refine ⟨topLevel, isTopLevel, ?_⟩
  rw [isAnswer, isLength]

/-- The longest match on a text that a token literally spells is the whole text,
as this token unless an earlier one accepts the text. -/
theorem longestMatch_of_literal (definition : Definition) {text : String}
    (narrow : Code.areNarrow text = true) {token : Token}
    (isLiteral : definition.literalMatch? text = some token) {index : Nat}
    (isToken : definition.tokens[index]? = some token) :
    ∃ topLevel, definition.topLevel = .ok topLevel ∧
      ∃ winner, topLevel.longestMatch (Code.ofText text) =
          .ok (some (text.length, winner)) ∧
        winner ≤ index ∧
        ((∀ earlier ∈ definition.tokens.take index,
          earlier.pattern.acceptsAlone (Code.ofText text) = false) →
          winner = index) := by
  rw [literalMatch?] at isLiteral
  have spells := List.find?_some isLiteral
  rw [beq_iff_eq] at spells
  have accepts : token.pattern.acceptsAlone (Code.ofText text) = true := by
    apply Regex.acceptsAlone_of_literalMatch? _ spells
    intro code member
    exact Code.mem_domain_of_areNarrow narrow member
  cases isFirst : definition.tokens.findIdx? fun token =>
      token.pattern.acceptsAlone (Code.ofText text) with
  | none =>
      have rejected := List.findIdx?_eq_none_iff.mp isFirst token
        (List.mem_of_getElem? isToken)
      rw [accepts] at rejected
      cases rejected
  | some winner =>
      obtain ⟨topLevel, isTopLevel, isMatch⟩ :=
        definition.longestMatch_of_acceptsAlone isFirst
      rw [Code.length_ofText] at isMatch
      obtain ⟨bound, wins, isLeast⟩ := List.findIdx?_eq_some_iff_getElem.mp isFirst
      have isFirstToken : winner ≤ index := by
        apply Nat.le_of_not_lt
        intro before
        have rejected := isLeast index before
        rw [(List.getElem?_eq_some_iff.mp isToken).2] at rejected
        exact rejected accepts
      refine ⟨topLevel, isTopLevel, winner, isMatch, isFirstToken, ?_⟩
      intro noneEarlier
      apply Nat.le_antisymm isFirstToken
      apply Nat.le_of_not_lt
      intro before
      have isEarlier : definition.tokens[winner] ∈ definition.tokens.take index :=
        List.mem_take_iff_getElem.mpr ⟨winner, lt_min before bound, rfl⟩
      rw [noneEarlier _ isEarlier] at wins
      cases wins

/-- An operator behind words and a keyword, beside a comment that opens with two of
it. -/
theorem operator_longestMatch :
    let definition : Definition :=
      { tokens :=
          [⟨"word", .many (.oneOf (.range 97 122))⟩,
            ⟨"if", .sequence [.oneOf (.singleton 105), .literal "f"]⟩,
            ⟨"minus", .sequence [.literal "-", .literal ""]⟩]
        comments := [.line (.literal "--")]
        whitespace := defaultWhitespace
        fragments := ∅ }
    Code.areNarrow "-" = true ∧
      definition.literalMatch? "-" =
        some ⟨"minus", .sequence [.literal "-", .literal ""]⟩ ∧
      definition.tokens[2]? =
        some ⟨"minus", .sequence [.literal "-", .literal ""]⟩ ∧
      ∃ topLevel, definition.topLevel = .ok topLevel ∧
        ∃ winner, topLevel.longestMatch (Code.ofText "-") =
            .ok (some (1, winner)) ∧
          winner ≤ 2 ∧
          ((∀ earlier ∈ definition.tokens.take 2,
            earlier.pattern.acceptsAlone (Code.ofText "-") = false) →
            winner = 2) := by
  intro definition
  have narrow : Code.areNarrow "-" = true := by decide
  have isLiteral : definition.literalMatch? "-" =
      some ⟨"minus", .sequence [.literal "-", .literal ""]⟩ := by decide +kernel
  have isToken : definition.tokens[2]? =
      some ⟨"minus", .sequence [.literal "-", .literal ""]⟩ := rfl
  exact ⟨narrow, isLiteral, isToken,
    definition.longestMatch_of_literal narrow isLiteral isToken⟩

end Definition

end LexGen
