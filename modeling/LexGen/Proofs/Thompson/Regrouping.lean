import LexGen.Proofs.Regex.Printer
import LexGen.Regex.Variants
import LexGen.Thompson.Builder

/-!
# Expressions that are lowered to the same fragment

A sequence is lowered from its last item back to its first one, whatever sequences
its items are grouped in, and a text like the sequence of its characters.  So a
regrouped expression takes the same nodes in the same order, and its edges are added
in the same order, whatever a builder holds before.

A sequence with one item or none is lowered like the alternative of the same items, so
twins are lowered to the same fragment.  Expressions with the same written form are
twins, and a builder cannot tell them apart.
-/

namespace LexGen

namespace Regex

variable {regex other : Regex} {items others : List Regex}

theorem lowerSequence_append (before after : List Regex) (exit next : Nat) :
    lowerSequence (before ++ after) exit next =
      let later := lowerSequence after exit next
      let first := lowerSequence before later.entry later.next
      ⟨first.entry, first.next, later.edges ++ first.edges⟩ := by
  induction before with
  | nil => simp [lowerSequence, Lowered.trivial]
  | cons item before induction =>
      simp [lowerSequence, induction, List.append_assoc]

theorem lower_sequence (items : List Regex) :
    (sequence items).lower = lowerSequence items := by
  funext exit next
  rw [lower]

theorem lowerSequence_one (only : Regex) : lowerSequence [only] = only.lower := by
  funext exit next
  simp [lowerSequence, Lowered.trivial]

theorem lower_sequence_one (only : Regex) : (sequence [only]).lower = only.lower := by
  rw [lower_sequence, lowerSequence_one]

theorem lower_alternative_one (only : Regex) :
    (alternative [only]).lower = only.lower := by
  funext exit next
  rw [lower]

theorem lower_alternative_none :
    (alternative []).lower = (sequence []).lower := by
  funext exit next
  simp [lower, lowerSequence]

/-- The characters of a text are lowered like the classes of a sequence. -/
theorem lowerCodes_eq_lowerSequence (codes : List Int) :
    lowerCodes codes = lowerSequence (codes.map fun code => .oneOf (.singleton code)) := by
  funext exit next
  induction codes with
  | nil => simp [lowerCodes, lowerSequence]
  | cons code codes induction => simp [lowerCodes, lowerSequence, lower, induction]

theorem lower_spelledOut (text : String) :
    (literal text).lower = (spelledOut text).lower := by
  rw [spelledOut, lower_sequence, ← lowerCodes_eq_lowerSequence]
  funext exit next
  rw [lower]

theorem lower_splice (before inner after : List Regex) :
    (sequence (before ++ sequence inner :: after)).lower =
      (sequence (before ++ inner ++ after)).lower := by
  funext exit next
  rw [lower_sequence, lower_sequence, List.append_assoc, lowerSequence_append,
    lowerSequence_append before (inner ++ after), lowerSequence_append inner after]
  simp [lowerSequence, lower_sequence]

section Congruence

/-- Items that are lowered to the same fragments, one by one. -/
def LoweredSame (items others : List Regex) : Prop :=
  List.Forall₂ (fun item other => item.lower = other.lower) items others

theorem loweredSame_refl (items : List Regex) : LoweredSame items items := by
  rw [LoweredSame, List.forall₂_same]
  intro item _
  rfl

theorem loweredSame_of_one (before after : List Regex)
    (same : regex.lower = other.lower) :
    LoweredSame (before ++ regex :: after) (before ++ other :: after) :=
  List.rel_append (loweredSame_refl before) (.cons same (loweredSame_refl after))

theorem lowerSequence_congr (same : LoweredSame items others) :
    lowerSequence items = lowerSequence others := by
  induction same with
  | nil => rfl
  | cons isFirst _ induction =>
      funext exit next
      simp [lowerSequence, isFirst, induction]

theorem lowerBranches_congr (same : LoweredSame items others) (branch : Nat) :
    lowerBranches branch items = lowerBranches branch others := by
  induction same with
  | nil => rfl
  | cons isFirst _ induction =>
      funext exit next
      simp [lowerBranches, isFirst, induction]

theorem lower_alternative_congr (same : LoweredSame items others) :
    (alternative items).lower = (alternative others).lower := by
  have branches := lowerBranches_congr same
  cases same with
  | nil => rfl
  | cons isFirst later =>
      cases later with
      | nil => rw [lower_alternative_one, lower_alternative_one, isFirst]
      | cons isSecond later =>
          funext exit next
          rw [lower, lower, branches]

end Congruence

theorem Regrouped.lower_eq (regrouped : Regrouped regex other) :
    regex.lower = other.lower := by
  induction regrouped with
  | refl regex => rfl
  | symm _ induction => exact induction.symm
  | trans _ _ induction onward => exact induction.trans onward
  | splice before inner after => exact lower_splice before inner after
  | sequenceOne only => exact lower_sequence_one only
  | alternativeOne only => exact lower_alternative_one only
  | sequenceNone => exact (lower_spelledOut "").symm
  | alternativeNone => exact lower_alternative_none.trans (lower_spelledOut "").symm
  | spellOut text => exact lower_spelledOut text
  | many _ induction =>
      funext exit next
      rw [lower, lower, induction]
  | optional _ induction =>
      funext exit next
      rw [lower, lower, induction]
  | sequence before after _ induction =>
      rw [lower_sequence, lower_sequence,
        lowerSequence_congr (loweredSame_of_one before after induction)]
  | alternative before after _ induction =>
      exact lower_alternative_congr (loweredSame_of_one before after induction)

end Regex

namespace Builder

variable {ι : Type} {items others : List (ι × Regex)}

/-- A builder sees of an expression only what it is lowered to. -/
theorem addItem_congr (builder : Builder ι) (item : ι) {regex other : Regex}
    (same : regex.lower = other.lower) :
    builder.addItem item regex = builder.addItem item other := by
  simp only [addItem, fragmentOf, same]

/-- Regrouping expressions at any depth leaves the automaton of the items the same,
number for number, whatever the builder holds before. -/
theorem build_eq_of_regrouped (regrouped : RegroupedItems items others)
    (builder : Builder ι) :
    (builder.addItems items).build = (builder.addItems others).build := by
  induction regrouped generalizing builder with
  | nil => rfl
  | @cons item other items others isFirst _ induction =>
      obtain ⟨sameItem, isRegrouped⟩ := isFirst
      have same : builder.addItem item.1 item.2 = builder.addItem other.1 other.2 := by
        rw [sameItem]
        exact builder.addItem_congr other.1 isRegrouped.lower_eq
      calc
        (builder.addItems (item :: items)).build =
            ((builder.addItem item.1 item.2).addItems items).build := rfl
        _ = ((builder.addItem other.1 other.2).addItems items).build := by rw [same]
        _ = ((builder.addItem other.1 other.2).addItems others).build := induction _
        _ = (builder.addItems (other :: others)).build := rfl

/-- A text, a nested sequence with an empty one in it and alternatives with one item
or none, in a builder that has an item already. -/
theorem nested_words_build_eq :
    let items : List (Nat × Regex) :=
      [(1, .many (.sequence [.literal "if", .sequence [.alternative [.literal "λ"],
          .sequence []]])),
        (0, .alternative [.alternative [], .optional (.sequence [.literal "a"])])]
    let others : List (Nat × Regex) :=
      [(1, .many (.sequence [Regex.spelledOut "if", .literal "λ"])),
        (0, .alternative [.literal "", .optional (.literal "a")])]
    let builder := Builder.empty.addItem 2 (.literal "b")
    RegroupedItems items others ∧
      (builder.addItems items).build = (builder.addItems others).build := by
  intro items others builder
  have regrouped : RegroupedItems items others := by
    let words : Regex := .alternative [.literal "λ"]
    have spliced : Regex.Regrouped
        (.sequence [.literal "if", .sequence [words, .sequence []]])
        (.sequence [.literal "if", words, .sequence []]) :=
      .splice [.literal "if"] [words, .sequence []] []
    have shortened : Regex.Regrouped (.sequence [.literal "if", words, .sequence []])
        (.sequence [.literal "if", words]) :=
      .splice [.literal "if", words] [] []
    have unwrapped : Regex.Regrouped (.sequence [.literal "if", words])
        (.sequence [.literal "if", .literal "λ"]) :=
      .sequence [.literal "if"] [] (.alternativeOne (.literal "λ"))
    have spelled : Regex.Regrouped (.sequence [.literal "if", .literal "λ"])
        (.sequence [Regex.spelledOut "if", .literal "λ"]) :=
      .sequence [] [.literal "λ"] (.spellOut "if")
    have emptied : Regex.Regrouped
        (.alternative [.alternative [], .optional (.sequence [.literal "a"])])
        (.alternative [.literal "", .optional (.sequence [.literal "a"])]) :=
      .alternative [] [.optional (.sequence [.literal "a"])] .alternativeNone
    have single : Regex.Regrouped
        (.alternative [.literal "", .optional (.sequence [.literal "a"])])
        (.alternative [.literal "", .optional (.literal "a")]) :=
      .alternative [.literal ""] [] (.optional (.sequenceOne (.literal "a")))
    have inMany := ((spliced.trans shortened).trans unwrapped).trans spelled
    exact .cons ⟨rfl, .many inMany⟩ (.cons ⟨rfl, emptied.trans single⟩ .nil)
  exact ⟨regrouped, build_eq_of_regrouped regrouped builder⟩

end Builder

/-! ## The written form determines the automaton -/

namespace Regex

theorem lower_sequence_of_few {items : List Regex} (few : items.length ≤ 1) :
    (sequence items).lower = (alternative items).lower := by
  match items with
  | [] => exact lower_alternative_none.symm
  | [only] => rw [lower_sequence_one, lower_alternative_one]
  | _ :: _ :: _ => simp at few

mutual

theorem Twin.lower_eq {regex other : Regex} (twin : Twin regex other) :
    regex.lower = other.lower := by
  match twin with
  | .oneOf _ | .literal _ => rfl
  | .many twin | .optional twin =>
      funext exit next
      rw [lower, lower, twin.lower_eq]
  | .sequence twins =>
      rw [lower_sequence, lower_sequence, lowerSequence_congr (loweredSame_of_twins twins)]
  | .alternative twins => exact lower_alternative_congr (loweredSame_of_twins twins)
  | .asAlternative few twins =>
      rw [lower_sequence_of_few few, lower_alternative_congr (loweredSame_of_twins twins)]
  | .asSequence few twins =>
      rw [← lower_sequence_of_few few, lower_sequence, lower_sequence,
        lowerSequence_congr (loweredSame_of_twins twins)]

theorem loweredSame_of_twins {items others : List Regex}
    (twins : List.Forall₂ Twin items others) : LoweredSame items others := by
  match twins with
  | .nil => exact .nil
  | .cons twin twins => exact .cons twin.lower_eq (loweredSame_of_twins twins)

end

end Regex

namespace Builder

/-- Code sets with the same written form are the same.  Expressions with the same
written form are twins, and added to a builder they lead to the same automaton. -/
theorem build_eq_of_render_eq {ι : Type} (builder : Builder ι) (item : ι) :
    (∀ left right : CodeSet, left.render = right.render → left = right) ∧
      ∀ regex other : Regex,
        (regex.render = other.render ↔ regex.Twin other) ∧
          (regex.render = other.render →
            (builder.addItem item regex).build = (builder.addItem item other).build) := by
  constructor
  · intro left right same
    exact CodeSet.render_injective same
  · intro regex other
    refine ⟨Regex.render_eq_iff_twin, ?_⟩
    intro same
    have isTwin := Regex.render_eq_iff_twin.mp same
    rw [builder.addItem_congr item isTwin.lower_eq]

/-- A sequence of one item in a repetition, written like an alternative of this item. -/
theorem repeated_word_build_eq :
    let regex : Regex := .many (.sequence [.alternative [.literal "\"", .oneOf .all]])
    let other : Regex := .many (.alternative [.alternative [.literal "\"", .oneOf .all]])
    let builder : Builder Nat := Builder.empty.addItem 2 (.literal "b")
    regex ≠ other ∧ regex.render = other.render ∧
      (builder.addItem 1 regex).build = (builder.addItem 1 other).build := by
  intro regex other builder
  have different : regex ≠ other := by simp [regex, other]
  have same : regex.render = other.render := by
    simp [regex, other, Regex.render, Regex.renderAll]
  exact ⟨different, same, ((build_eq_of_render_eq builder 1).2 regex other).2 same⟩

end Builder

end LexGen
