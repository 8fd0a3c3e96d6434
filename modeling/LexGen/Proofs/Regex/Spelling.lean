import LexGen.CodeSet.Lemmas
import LexGen.Regex.Literal
import Mathlib.Data.List.Infix

/-!
# Literal matches are spellings

An expression is taken literally exactly if it spells a word, and it takes this
word off the inputs that begin with it.  So no offset points beyond the end of
the input, and an expression takes no more than one text as a whole.
-/

namespace LexGen

theorem append_isPrefix_iff {first later input : List Int} :
    first ++ later <+: input ↔
      first <+: input ∧ later <+: input.drop first.length := by
  constructor
  · intro isPrefix
    obtain ⟨rest, isInput⟩ := isPrefix
    rw [List.append_assoc] at isInput
    subst isInput
    rw [List.drop_left]
    exact ⟨List.prefix_append first _, List.prefix_append later rest⟩
  · intro arePrefixes
    obtain ⟨⟨rest, isInput⟩, isLater⟩ := arePrefixes
    subst isInput
    rw [List.drop_left] at isLater
    exact (List.prefix_append_right_inj first).mpr isLater

namespace Regex

/-- The input begins with the spelling, which has the given length. -/
def BeginsWith (input : List Int) (spelling? : Option (List Int)) (length : Nat) :
    Prop :=
  ∃ spelling, spelling? = some spelling ∧ spelling.length = length ∧
    spelling <+: input

theorem beginsWith_some_iff {input spelling : List Int} {length : Nat} :
    BeginsWith input (some spelling) length ↔
      spelling.length = length ∧ spelling <+: input := by
  simp [BeginsWith]

theorem not_beginsWith_none {input : List Int} {length : Nat} :
    ¬ BeginsWith input none length := by
  simp [BeginsWith]

theorem literalMatch?_oneOf_iff {set : CodeSet} {input : List Int} {taken : Nat} :
    (oneOf set).literalMatch? input = some taken ↔
      BeginsWith input (oneOf set).spelling? taken := by
  rw [spelling?]
  cases isSingleton : set.isSingleton with
  | false =>
      rw [if_neg Bool.false_ne_true]
      cases input <;> simp [literalMatch?, isSingleton, BeginsWith]
  | true =>
      obtain ⟨only, isOnly⟩ := CodeSet.isSingleton_iff.mp isSingleton
      have contains_iff (code : Int) : set.contains code = true ↔ only = code := by
        rw [← CodeSet.mem_iff_contains, ← CodeSet.mem_toList, isOnly,
          List.mem_singleton, eq_comm]
      rw [if_pos rfl, isOnly, beginsWith_some_iff]
      cases input with
      | nil => simp [literalMatch?]
      | cons code later =>
          simp [literalMatch?, isSingleton, contains_iff, and_comm]

theorem literalMatch?_literal_iff {text : String} {input : List Int}
    {taken : Nat} :
    (literal text).literalMatch? input = some taken ↔
      BeginsWith input (literal text).spelling? taken := by
  rw [spelling?, beginsWith_some_iff, literalMatch?]
  simp [and_comm]

/-- What is spelled in two parts is taken in two parts. -/
theorem beginsWith_append_iff {input : List Int}
    {first? later? : Option (List Int)} {taken : Nat} :
    BeginsWith input
        (do
          let first ← first?
          let later ← later?
          return first ++ later) taken ↔
      ∃ first, BeginsWith input first? first ∧
        ∃ later, BeginsWith (input.drop first) later? later ∧
          first + later = taken := by
  cases first? with
  | none => simp [BeginsWith]
  | some first =>
      cases later? with
      | none => simp [BeginsWith]
      | some later =>
          change BeginsWith input (some (first ++ later)) taken ↔ _
          simp only [beginsWith_some_iff, List.length_append, append_isPrefix_iff]
          constructor
          · intro begins
            obtain ⟨isTaken, isFirst, isLater⟩ := begins
            exact ⟨_, ⟨rfl, isFirst⟩, _, ⟨rfl, isLater⟩, isTaken⟩
          · intro begins
            obtain ⟨_, ⟨isLength, isFirst⟩, _, ⟨isRest, isLater⟩, isTaken⟩ := begins
            subst isLength
            subst isRest
            exact ⟨isTaken, isFirst, isLater⟩

mutual

theorem literalMatch?_eq_some_iff (regex : Regex) {input : List Int} {taken : Nat} :
    regex.literalMatch? input = some taken ↔
      BeginsWith input regex.spelling? taken := by
  cases regex with
  | oneOf set => exact literalMatch?_oneOf_iff
  | literal text => exact literalMatch?_literal_iff
  | many inner => exact iff_of_false nofun not_beginsWith_none
  | optional inner => exact iff_of_false nofun not_beginsWith_none
  | sequence items => exact literalMatchAll?_eq_some_iff items
  | alternative items => exact iff_of_false nofun not_beginsWith_none

theorem literalMatchAll?_eq_some_iff (items : List Regex) {input : List Int}
    {taken : Nat} :
    literalMatchAll? items input = some taken ↔
      BeginsWith input (spellingAll? items) taken := by
  cases items with
  | nil =>
      rw [literalMatchAll?, spellingAll?, beginsWith_some_iff]
      simp
  | cons item items =>
      rw [literalMatchAll?, spellingAll?, beginsWith_append_iff,
        Option.bind_eq_bind, Option.bind_eq_some_iff]
      apply exists_congr
      intro first
      apply and_congr (literalMatch?_eq_some_iff item)
      rw [Option.bind_eq_some_iff]
      apply exists_congr
      intro later
      exact and_congr (literalMatchAll?_eq_some_iff items) Option.some_inj

end

theorem le_length_of_literalMatch? {regex : Regex} {input : List Int} {taken : Nat}
    (takes : regex.literalMatch? input = some taken) : taken ≤ input.length := by
  obtain ⟨spelling, _, isLength, isPrefix⟩ :=
    (literalMatch?_eq_some_iff regex).mp takes
  rw [← isLength]
  exact isPrefix.length_le

theorem slice_eq_ok {input : List Int} {offset : Nat}
    (bound : offset ≤ input.length) : slice input offset = .ok (input.drop offset) :=
  if_pos bound

mutual

theorem literalMatchBySlices?_eq_ok (regex : Regex) (input : List Int) :
    regex.literalMatchBySlices? input = .ok (regex.literalMatch? input) := by
  cases regex with
  | oneOf set => rfl
  | literal text => rfl
  | many inner => rfl
  | optional inner => rfl
  | sequence items =>
      rw [literalMatchBySlices?, literalMatchAllBySlices?_eq_ok items (Nat.zero_le _),
        literalMatch?, List.drop_zero]
      simp
  | alternative items => rfl

/-- The offset stays within the input: it is what the items before have taken. -/
theorem literalMatchAllBySlices?_eq_ok (items : List Regex) {input : List Int}
    {matched : Nat} (bound : matched ≤ input.length) :
    literalMatchAllBySlices? items input matched =
      .ok ((literalMatchAll? items (input.drop matched)).map (matched + ·)) := by
  cases items with
  | nil => rfl
  | cons item items =>
      have isMatch := literalMatchBySlices?_eq_ok item (input.drop matched)
      rw [literalMatchAllBySlices?, slice_eq_ok bound]
      simp only [bind, Except.bind, isMatch, literalMatchAll?]
      cases takes : item.literalMatch? (input.drop matched) with
      | none => rfl
      | some taken =>
          have within := le_length_of_literalMatch? takes
          rw [List.length_drop] at within
          have stillBound : matched + taken ≤ input.length := by omega
          have goesOn := literalMatchAllBySlices?_eq_ok items stillBound
          simp only [goesOn, Option.bind_some, List.drop_drop]
          cases literalMatchAll? items (input.drop (matched + taken)) with
          | none => rfl
          | some later => simp [Nat.add_assoc]

end

theorem eq_spelling_of_whole {regex : Regex} {text : String}
    (whole : regex.literalMatch? (Code.ofText text) = some text.length) :
    regex.spelling? = some (Code.ofText text) := by
  obtain ⟨spelling, isSpelling, isLength, isPrefix⟩ :=
    (literalMatch?_eq_some_iff regex).mp whole
  rw [← Code.length_ofText] at isLength
  rw [isSpelling, isPrefix.eq_of_length isLength]

/-- A literal match takes the spelling of the expression off a text that begins with
it, and there is none if the expression has no spelling or the text begins otherwise.
The offset into the text never points beyond its end, and no two texts are taken as a
whole. -/
theorem literalMatch?_takes_spelling (regex : Regex) :
    (∀ text taken, regex.literalMatch? (Code.ofText text) = some taken ↔
      ∃ spelling, regex.spelling? = some spelling ∧ spelling.length = taken ∧
        spelling <+: Code.ofText text) ∧
    (∀ text, regex.literalMatchBySlices? (Code.ofText text) =
      .ok (regex.literalMatch? (Code.ofText text))) ∧
    ∀ first second : String,
      regex.literalMatch? (Code.ofText first) = some first.length →
      regex.literalMatch? (Code.ofText second) = some second.length →
      first = second := by
  refine ⟨?_, ?_, ?_⟩
  · intro text taken
    exact literalMatch?_eq_some_iff regex
  · intro text
    exact literalMatchBySlices?_eq_ok regex (Code.ofText text)
  · intro first second wholeFirst wholeSecond
    have same := (eq_spelling_of_whole wholeFirst).symm.trans
      (eq_spelling_of_whole wholeSecond)
    exact Code.ofText_injective (Option.some.inj same)

/-- An arrow that is spelled by a set, nothing and a nested sequence. -/
theorem arrow_takes_spelling :
    let arrow : Regex :=
      .sequence [.oneOf (.singleton 45), .literal "", .sequence [.literal ">"]]
    arrow.literalMatch? (Code.ofText "->") = some "->".length ∧
      (arrow.literalMatch? (Code.ofText "->x") = some 2 ↔
        ∃ spelling, arrow.spelling? = some spelling ∧ spelling.length = 2 ∧
          spelling <+: Code.ofText "->x") ∧
      arrow.literalMatchBySlices? (Code.ofText "-") =
        .ok (arrow.literalMatch? (Code.ofText "-")) ∧
      ∀ other : String, arrow.literalMatch? (Code.ofText other) = some other.length →
        "->" = other := by
  intro arrow
  have whole : arrow.literalMatch? (Code.ofText "->") = some "->".length := by
    decide +kernel
  obtain ⟨takes, stays, same⟩ := literalMatch?_takes_spelling arrow
  exact ⟨whole, takes "->x" 2, stays "-", fun other => same "->" other whole⟩

end Regex

end LexGen
