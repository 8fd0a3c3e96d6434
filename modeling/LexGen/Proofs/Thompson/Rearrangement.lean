import LexGen.Proofs.Powerset.Pairing
import LexGen.Proofs.Thompson.Items
import LexGen.Proofs.Thompson.Respelling

/-!
# Rearranged items

Builders are paired if their nodes are, one to one, with their edges and items.
They stay paired when the same item is added to both with expressions that are
lowered alike, and when two items are added in either order.  Rearranging a list of
items leaves no trace in its deterministic automaton therefore.
-/

namespace LexGen

open Edge Lowered

namespace Builder

variable {ι : Type} {paired : Nat → Nat → Prop} {left right middle : Builder ι}
  {added : List (ι × Regex)}

theorem addItem_old {builder : Builder ι} (item : ι) (regex : Regex) {node : Nat}
    (isOld : node < builder.count) :
    (builder.addItem item regex).items.get? node = builder.items.get? node := by
  rw [get?_items_addItem, if_neg (Nat.ne_of_lt isOld)]

theorem addItem_new (builder : Builder ι) (item : ι) (regex : Regex) :
    (builder.addItem item regex).items.get? builder.count = some item := by
  rw [get?_items_addItem, if_pos rfl]

theorem IsSound.addItem_unused {builder : Builder ι} (sound : builder.IsSound added)
    (item : ι) (regex : Regex) {node : Nat} (isUnused : builder.count < node) :
    (builder.addItem item regex).items.get? node = none := by
  rw [get?_items_addItem, if_neg (Nat.ne_of_gt isUnused)]
  cases isItem : builder.items.get? node with
  | none => rfl
  | some other =>
      have bounds := sound.item_bounds node other isItem
      exact absurd bounds.2 (Nat.lt_asymm isUnused)

/-- Builders whose nodes are paired one to one, with their edges and items. -/
structure Pairing (paired : Nat → Nat → Prop) (left right : Builder ι) : Prop
    extends Edge.Pairing paired left.edges right.edges where
  sound : ∃ added, left.IsSound added
  otherSound : ∃ added, right.IsSound added
  start : paired start start
  within : ∀ {node other}, paired node other →
    node < left.count ∧ other < right.count
  get?_eq : ∀ {node other}, paired node other →
    left.items.get? node = right.items.get? other

def Alike (left right : Builder ι) : Prop := ∃ paired, Pairing paired left right

theorem Pairing.symm (pairing : Pairing paired left right) :
    Pairing (flip paired) right left where
  oneToOne := biUnique_flip pairing.oneToOne
  matched := pairing.matched.symm
  sound := pairing.otherSound
  otherSound := pairing.sound
  start := pairing.start
  within := fun isPair => (pairing.within isPair).symm
  get?_eq := fun isPair => (pairing.get?_eq isPair).symm

namespace Alike

theorem symm (alike : Alike left right) : Alike right left := by
  obtain ⟨paired, pairing⟩ := alike
  exact ⟨flip paired, pairing.symm⟩

theorem trans (alike : Alike left middle) (onward : Alike middle right) :
    Alike left right := by
  obtain ⟨paired, pairing⟩ := alike
  obtain ⟨further, isOnward⟩ := onward
  refine ⟨Relation.Comp paired further,
    ⟨biUnique_comp pairing.oneToOne isOnward.oneToOne,
      pairing.matched.comp isOnward.matched⟩,
    pairing.sound, isOnward.otherSound, ⟨_, pairing.start, isOnward.start⟩, ?_, ?_⟩
  · intro node other isPair
    obtain ⟨between, isFirst, isSecond⟩ := isPair
    exact ⟨(pairing.within isFirst).1, (isOnward.within isSecond).2⟩
  · intro node other isPair
    obtain ⟨between, isFirst, isSecond⟩ := isPair
    exact (pairing.get?_eq isFirst).trans (isOnward.get?_eq isSecond)

theorem empty : Alike (empty : Builder ι) empty := by
  refine ⟨Only start start, ⟨only_biUnique start start, .nil _⟩,
    ⟨[], empty_isSound⟩, ⟨[], empty_isSound⟩, ⟨rfl, rfl⟩, ?_, ?_⟩
  · intro node other isStart
    rw [isStart.1, isStart.2]
    exact ⟨Nat.zero_lt_one, Nat.zero_lt_one⟩
  · intro node other _
    rfl

end Alike

section AddItem

variable {regex other : Regex}

/-- The fragments of an item are paired as they are new, and so are its final
nodes. -/
theorem exists_own (alike : Lowered.Alike regex.lower other.lower)
    (left right : Builder ι) :
    ∃ own, Lowered.Pairing (fun _ _ => False) own
        left.count (left.fragmentOf regex) right.count (right.fragmentOf other) ∧
      ∀ {node other}, own node other → node = left.count ∧ other = right.count ∨
        left.count < node ∧ right.count < other := by
  obtain ⟨own, isOwn⟩ := alike (Nat.lt_succ_self left.count)
    (Nat.lt_succ_self right.count)
  refine ⟨own, isOwn.absorb (by simp), ?_⟩
  intro node other isPair
  apply (isOwn.within isPair).imp id
  intro isNew
  exact ⟨isNew.1.1, isNew.2.1⟩

theorem own_get?_eq {otherAdded : List (ι × Regex)} (sound : left.IsSound added)
    (otherSound : right.IsSound otherAdded) (item : ι) {node counterpart : Nat}
    (isOwn : node = left.count ∧ counterpart = right.count ∨
      left.count < node ∧ right.count < counterpart) :
    (left.addItem item regex).items.get? node =
      (right.addItem item other).items.get? counterpart := by
  cases isOwn with
  | inl isFinal => rw [isFinal.1, isFinal.2, addItem_new, addItem_new]
  | inr isInner =>
      rw [sound.addItem_unused item regex isInner.1,
        otherSound.addItem_unused item other isInner.2]

theorem Alike.addItem (alike : Alike left right) (item : ι)
    (expressions : Lowered.Alike regex.lower other.lower) :
    Alike (left.addItem item regex) (right.addItem item other) := by
  obtain ⟨paired, pairing⟩ := alike
  obtain ⟨own, isOwn, isInner⟩ := exists_own expressions left right
  obtain ⟨added, sound⟩ := pairing.sound
  obtain ⟨otherAdded, otherSound⟩ := pairing.otherSound
  have unused {node counterpart : Nat} (isPair : paired node counterpart) :
      (node < left.count ∨ (left.fragmentOf regex).next ≤ node) ∧
        (counterpart < right.count ∨ (right.fragmentOf other).next ≤ counterpart) :=
    (pairing.within isPair).imp .inl .inl
  have entered := isOwn.enter pairing.toPairing nofun unused pairing.start
  have next_le := isOwn.next_le
  refine ⟨Either paired own, entered, ⟨_, sound.addItem item regex⟩,
    ⟨_, otherSound.addItem item other⟩, .inl pairing.start, ?_, ?_⟩
  · intro node counterpart isPair
    cases isPair with
    | inl isPair =>
        have bounds := pairing.within isPair
        exact ⟨Nat.lt_of_lt_of_le bounds.1 next_le.1,
          Nat.lt_of_lt_of_le bounds.2 next_le.2⟩
    | inr isPair => exact ((isOwn.within isPair).resolve_left id).imp And.right And.right
  · intro node counterpart isPair
    cases isPair with
    | inl isPair =>
        have bounds := pairing.within isPair
        rw [addItem_old item regex bounds.1, addItem_old item other bounds.2]
        exact pairing.get?_eq isPair
    | inr isPair => exact own_get?_eq sound otherSound item (isInner isPair)

theorem Alike.addItem_swap (alike : Alike left right) (first second : ι)
    (regex other : Regex) :
    Alike ((left.addItem first regex).addItem second other)
      ((right.addItem second other).addItem first regex) := by
  obtain ⟨paired, pairing⟩ := alike
  obtain ⟨added, sound⟩ := pairing.sound
  obtain ⟨otherAdded, otherSound⟩ := pairing.otherSound
  obtain ⟨own, isOwn, isInner⟩ :=
    exists_own regex.lower_alike left (right.addItem second other)
  obtain ⟨new, isNew, isInnerNew⟩ :=
    exists_own other.lower_alike (left.addItem first regex) right
  have own_le := isOwn.next_le
  have new_le := isNew.next_le
  have ownBounds {node counterpart : Nat} (isPair : own node counterpart) :=
    (isOwn.within isPair).resolve_left id
  have newBounds {node counterpart : Nat} (isPair : new node counterpart) :=
    (isNew.within isPair).resolve_left id
  have unused {node counterpart : Nat} (isPair : paired node counterpart) :
      (node < left.count ∨ (left.fragmentOf regex).next ≤ node) ∧
        (counterpart < (right.addItem second other).count ∨
          ((right.addItem second other).fragmentOf regex).next ≤ counterpart) := by
    have bounds := pairing.within isPair
    exact ⟨.inl bounds.1, .inl (Nat.lt_of_lt_of_le bounds.2 new_le.2)⟩
  have entered := isOwn.enter pairing.toPairing nofun unused pairing.start
  have unusedYet {node counterpart : Nat} (isPair : Either paired own node counterpart) :
      (node < (left.addItem first regex).count ∨
          ((left.addItem first regex).fragmentOf other).next ≤ node) ∧
        (counterpart < right.count ∨ (right.fragmentOf other).next ≤ counterpart) := by
    cases isPair with
    | inl isPair =>
        have bounds := pairing.within isPair
        exact ⟨.inl (Nat.lt_of_lt_of_le bounds.1 own_le.1), .inl bounds.2⟩
    | inr isPair =>
        have bounds := ownBounds isPair
        exact ⟨.inl bounds.1.2, .inr bounds.2.1⟩
  have both := isNew.enter entered nofun unusedYet (.inl pairing.start)
  refine ⟨Either (Either paired own) new, ⟨both.oneToOne, both.matched.congr ?_ ?_⟩,
    ⟨_, (sound.addItem first regex).addItem second other⟩,
    ⟨_, (otherSound.addItem second other).addItem first regex⟩,
    .inl (.inl pairing.start), ?_, ?_⟩
  · intro edge
    rfl
  · intro edge
    simp only [Builder.addItem, List.mem_append]
    grind
  · intro node counterpart isPair
    cases isPair with
    | inl isPair =>
        cases isPair with
        | inl isPair =>
            have bounds := pairing.within isPair
            exact ⟨Nat.lt_of_lt_of_le bounds.1 (Nat.le_trans own_le.1 new_le.1),
              Nat.lt_of_lt_of_le bounds.2 (Nat.le_trans new_le.2 own_le.2)⟩
        | inr isPair =>
            have bounds := ownBounds isPair
            exact ⟨Nat.lt_of_lt_of_le bounds.1.2 new_le.1, bounds.2.2⟩
    | inr isPair =>
        have bounds := newBounds isPair
        exact ⟨bounds.1.2, Nat.lt_of_lt_of_le bounds.2.2 own_le.2⟩
  · intro node counterpart isPair
    cases isPair with
    | inl isPair =>
        cases isPair with
        | inl isPair =>
            have bounds := pairing.within isPair
            rw [addItem_old second other (Nat.lt_of_lt_of_le bounds.1 own_le.1),
              addItem_old first regex bounds.1,
              addItem_old first regex (Nat.lt_of_lt_of_le bounds.2 new_le.2),
              addItem_old second other bounds.2]
            exact pairing.get?_eq isPair
        | inr isPair =>
            rw [addItem_old second other (ownBounds isPair).1.2]
            exact own_get?_eq sound (otherSound.addItem second other) first
              (isInner isPair)
    | inr isPair =>
        rw [addItem_old first regex (newBounds isPair).2.2]
        exact own_get?_eq (sound.addItem first regex) otherSound second
          (isInnerNew isPair)

end AddItem

section AddItems

variable {items others : List (ι × Regex)}

theorem Alike.addItems_respelled (alike : Alike left right)
    (respelled : List.Forall₂
      (fun item other => item.1 = other.1 ∧ item.2.Respelled other.2) items others) :
    Alike (left.addItems items) (right.addItems others) := by
  induction respelled generalizing left right with
  | nil => exact alike
  | @cons item other items others isFirst _ induction =>
      obtain ⟨sameItem, isRespelled⟩ := isFirst
      have both : Alike (left.addItem item.1 item.2) (right.addItem other.1 other.2) := by
        rw [sameItem]
        exact alike.addItem other.1 isRespelled.alike
      exact induction both

theorem Alike.addItems_same (alike : Alike left right) (items : List (ι × Regex)) :
    Alike (left.addItems items) (right.addItems items) := by
  apply alike.addItems_respelled
  rw [List.forall₂_same]
  intro item _
  exact ⟨rfl, .refl item.2⟩

theorem Alike.addItems_permuted (alike : Alike left right)
    (permutes : items.Perm others) :
    Alike (left.addItems items) (right.addItems others) := by
  induction permutes generalizing left right with
  | nil => exact alike
  | cons item _ induction =>
      exact induction (alike.addItem item.1 item.2.lower_alike)
  | swap first second items =>
      exact (alike.addItem_swap second.1 first.1 second.2 first.2).addItems_same items
  | trans _ _ induction onward =>
      exact (induction alike).trans (onward (alike.symm.trans alike))

theorem addItems_rearranged (rearranged : Rearranged items others) :
    Alike (empty.addItems items) (empty.addItems others) := by
  obtain ⟨middle, permutes, respelled⟩ := rearranged
  have permuted : Alike (empty.addItems items) (empty.addItems middle) :=
    Alike.empty.addItems_permuted permutes
  exact permuted.trans (Alike.empty.addItems_respelled respelled)

end AddItems

theorem Pairing.exists_leaves (pairing : Pairing paired left right) {node other : Nat}
    {transition : Transition} (isPair : paired node other)
    (leaves : left.build.Leaves node transition) :
    ∃ counterpart, right.build.Leaves other counterpart ∧
      counterpart.label = transition.label ∧
      paired transition.target counterpart.target := by
  have inEdges := (leaves_build_iff.mp leaves).2
  obtain ⟨edge, isEdge, pairs⟩ := pairing.matched.forth _ inEdges
  have isSource : edge.source = other := pairing.oneToOne.right pairs.sources isPair
  refine ⟨edge.transition, leaves_build_iff.mpr ⟨(pairing.within isPair).2, ?_⟩,
    pairs.label_eq.symm, pairs.targets⟩
  rw [← isSource]
  exact isEdge

theorem Pairing.build (pairing : Pairing paired left right) :
    Automaton.Pairing paired left.build right.build where
  oneToOne := pairing.oneToOne
  start := pairing.start
  forth := pairing.exists_leaves
  back := fun isPair leaves => pairing.symm.exists_leaves isPair leaves
  item?_eq := pairing.get?_eq

end Builder

namespace Automaton

variable {ι : Type} [LE ι] [DecidableLE ι] [Std.IsLinearOrder ι]
  {items others : List (ι × Regex)}

/-- Neither the order of items and of alternatives nor redundant repetitions and
options leave a trace in the deterministic automaton. -/
theorem ofItems_determinize_eq_of_rearranged (rearranged : Rearranged items others)
    (order : VisitOrder) :
    ∃ deterministic, (ofItems items).determinize order = .ok deterministic ∧
      (ofItems others).determinize order = .ok deterministic := by
  obtain ⟨paired, pairing⟩ := Builder.addItems_rearranged rearranged
  exact pairing.build.determinize_eq (ofItems_isClosed items)
    (ofItems_isClosed others) order

/-- Two items in both orders, the one with its alternatives turned round behind a
doubled repetition and the other one with an option around a repetition. -/
theorem turned_items_determinize_eq :
    let items : List (Nat × Regex) :=
      [(4, .sequence [.many (.alternative [.literal "a", .literal "bc"]), .literal "d"]),
        (2, .many (.literal "a"))]
    let others : List (Nat × Regex) :=
      [(2, .optional (.many (.literal "a"))),
        (4, .sequence [.many (.many (.alternative [.literal "bc", .literal "a"])),
          .literal "d"])]
    Rearranged items others ∧
      ∃ deterministic, (ofItems items).determinize .depthFirst = .ok deterministic ∧
        (ofItems others).determinize .depthFirst = .ok deterministic := by
  intro items others
  have rearranged : Rearranged items others := by
    have turned : Regex.Respelled
        (.many (.alternative [.literal "a", .literal "bc"]))
        (.many (.many (.alternative [.literal "bc", .literal "a"]))) :=
      .trans (.many (.permuted (.swap _ _ []))) (.symm (.manyMany _))
    refine ⟨_, .swap _ _ [], .cons ⟨rfl, ?_⟩ (.cons ⟨rfl, ?_⟩ .nil)⟩
    · exact .symm (.optionalMany (.literal "a"))
    · exact .sequence [] [.literal "d"] turned
  exact ⟨rearranged, ofItems_determinize_eq_of_rearranged rearranged .depthFirst⟩

end Automaton

end LexGen
