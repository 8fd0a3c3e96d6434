import Mathlib.Logic.Relation

/-!
# Pairs of nodes

Nodes of two graphs are paired by a relation, one to one.  Relations of pairs are put
together from single pairs: one relation may be extended by another one whose pairs
are new to it, and relations may follow one another.
-/

namespace LexGen

theorem biUnique_flip {α β : Type} {paired : α → β → Prop}
    (oneToOne : Relator.BiUnique paired) : Relator.BiUnique (flip paired) :=
  ⟨fun _ _ _ here there => oneToOne.right here there, oneToOne.left.flip⟩

theorem biUnique_comp {paired further : Nat → Nat → Prop}
    (oneToOne : Relator.BiUnique paired) (onward : Relator.BiUnique further) :
    Relator.BiUnique (Relation.Comp paired further) := by
  constructor
  · intro first second last here there
    obtain ⟨middle, here, onHere⟩ := here
    obtain ⟨other, there, onThere⟩ := there
    exact oneToOne.left here (onward.left onHere onThere ▸ there)
  · intro first last final here there
    obtain ⟨middle, here, onHere⟩ := here
    obtain ⟨other, there, onThere⟩ := there
    exact onward.right onHere (oneToOne.right here there ▸ onThere)

def Only (node other : Nat) (first second : Nat) : Prop :=
  first = node ∧ second = other

def Either (paired new : Nat → Nat → Prop) (node other : Nat) : Prop :=
  paired node other ∨ new node other

theorem only_biUnique (node other : Nat) : Relator.BiUnique (Only node other) := by
  constructor
  · intro first third second here there
    exact here.1.trans there.1.symm
  · intro first second third here there
    exact here.2.trans there.2.symm

/-- Pairs that are there already or are new on the left keep a relation unique
on the left. -/
theorem either_leftUnique {paired new : Nat → Nat → Prop}
    (unique : Relator.LeftUnique paired) (newUnique : Relator.LeftUnique new)
    (isNew : ∀ {node other}, new node other →
      paired node other ∨ ∀ first, ¬ paired first other) :
    Relator.LeftUnique (Either paired new) := by
  intro first third second here there
  cases here with
  | inl here =>
      cases there with
      | inl there => exact unique here there
      | inr there =>
          cases isNew there with
          | inl isOld => exact unique here isOld
          | inr isFresh => exact absurd here (isFresh first)
  | inr here =>
      cases there with
      | inl there =>
          cases isNew here with
          | inl isOld => exact unique isOld there
          | inr isFresh => exact absurd there (isFresh third)
      | inr there => exact newUnique here there

theorem either_biUnique {paired new : Nat → Nat → Prop}
    (oneToOne : Relator.BiUnique paired) (newOneToOne : Relator.BiUnique new)
    (isNew : ∀ {node other}, new node other → paired node other ∨
      (∀ second, ¬ paired node second) ∧ ∀ first, ¬ paired first other) :
    Relator.BiUnique (Either paired new) := by
  constructor
  · apply either_leftUnique oneToOne.left newOneToOne.left
    intro node other isPair
    exact (isNew isPair).imp id And.right
  · have unique : Relator.LeftUnique (Either (flip paired) (flip new)) := by
      apply either_leftUnique (biUnique_flip oneToOne).left
        (biUnique_flip newOneToOne).left
      intro other node isPair
      exact (isNew isPair).imp id And.left
    exact unique.flip

theorem flip_only (node other : Nat) : flip (Only node other) = Only other node := by
  funext first second
  exact propext and_comm

theorem comp_only (first middle last : Nat) :
    Relation.Comp (Only first middle) (Only middle last) = Only first last := by
  funext node other
  apply propext
  constructor
  · intro isPair
    obtain ⟨between, isFirst, isLast⟩ := isPair
    exact ⟨isFirst.1, isLast.2⟩
  · intro isPair
    exact ⟨middle, ⟨isPair.1, rfl⟩, rfl, isPair.2⟩

/-- Two ports are paired through two ports in between. -/
theorem comp_either_only {exit middleExit lastExit hub middleHub lastHub : Nat}
    (differ : middleExit ≠ middleHub) :
    Relation.Comp (Either (Only exit middleExit) (Only hub middleHub))
        (Either (Only middleExit lastExit) (Only middleHub lastHub)) =
      Either (Only exit lastExit) (Only hub lastHub) := by
  funext node other
  apply propext
  constructor
  · intro isPair
    obtain ⟨between, isFirst, isLast⟩ := isPair
    cases isFirst with
    | inl isExit =>
        cases isLast with
        | inl isLast => exact .inl ⟨isExit.1, isLast.2⟩
        | inr isHub => exact absurd (isExit.2.symm.trans isHub.1) differ
    | inr isHub =>
        cases isLast with
        | inl isExit => exact absurd (isExit.1.symm.trans isHub.2) differ
        | inr isLast => exact .inr ⟨isHub.1, isLast.2⟩
  · intro isPair
    cases isPair with
    | inl isExit => exact ⟨middleExit, .inl ⟨isExit.1, rfl⟩, .inl ⟨rfl, isExit.2⟩⟩
    | inr isHub => exact ⟨middleHub, .inr ⟨isHub.1, rfl⟩, .inr ⟨rfl, isHub.2⟩⟩

end LexGen
