/-!
# Least element of a list

Where several items compete, the smallest one wins.  `IsSmallest` says what the
smallest of the elements with a property is, without listing them, and
`least?_isSmallest` that `least?` finds it.
-/

namespace LexGen

variable {ι : Type} [LE ι] [DecidableLE ι]

def least? : List ι → Option ι
  | [] => none
  | item :: items =>
      match least? items with
      | none => some item
      | some other => some (if item ≤ other then item else other)

/-- The answer is the smallest of the elements that have the property, or
nothing if none has it. -/
def IsSmallest (property : ι → Prop) : Option ι → Prop
  | some item => property item ∧ ∀ other, property other → item ≤ other
  | none => ∀ item, ¬ property item

theorem least?_eq_none_iff {items : List ι} :
    least? items = none ↔ items = [] := by
  cases items with
  | nil => simp [least?]
  | cons item items =>
      simp only [least?]
      split <;> simp

theorem least?_eq_some_iff [Std.IsLinearOrder ι] {items : List ι} {item : ι} :
    least? items = some item ↔
      item ∈ items ∧ ∀ other ∈ items, item ≤ other := by
  induction items generalizing item with
  | nil => simp [least?]
  | cons first later leastOfLater =>
      simp only [least?]
      split
      next none =>
        have noneLater := least?_eq_none_iff.mp none
        subst noneLater
        simp only [Option.some.injEq, List.mem_singleton, forall_eq]
        exact ⟨fun same => ⟨same.symm, same ▸ Std.le_refl _⟩, fun same => same.1.symm⟩
      next smallest found =>
        obtain ⟨member, below⟩ := leastOfLater.mp found
        simp only [Option.some.injEq, List.mem_cons, forall_eq_or_imp]
        split
        next firstBelow =>
          constructor
          · rintro rfl
            exact ⟨.inl rfl, Std.le_refl _,
              fun other inLater => Std.le_trans firstBelow (below other inLater)⟩
          · rintro ⟨isFirst | inLater, belowFirst, _⟩
            · exact isFirst.symm
            · exact Std.le_antisymm
                (Std.le_trans firstBelow (below item inLater)) belowFirst
        next notFirst =>
          have smallestBelow : smallest ≤ first :=
            (Std.le_total (a := first) (b := smallest)).resolve_left notFirst
          constructor
          · rintro rfl
            exact ⟨.inr member, smallestBelow, below⟩
          · rintro ⟨isFirst | inLater, _, belowLater⟩
            · exact absurd (isFirst ▸ belowLater smallest member) notFirst
            · exact Std.le_antisymm (below item inLater)
                (belowLater smallest member)

theorem least?_isSmallest [Std.IsLinearOrder ι] (items : List ι) :
    IsSmallest (· ∈ items) (least? items) := by
  cases found : least? items with
  | none =>
      rw [least?_eq_none_iff.mp found]
      exact fun item => List.not_mem_nil
  | some item => exact least?_eq_some_iff.mp found

namespace IsSmallest

omit [DecidableLE ι] in
theorem congr {left right : ι → Prop} {answer : Option ι}
    (smallest : IsSmallest left answer)
    (sameElements : ∀ item, left item ↔ right item) :
    IsSmallest right answer := by
  have sameProperty : left = right := funext fun item => propext (sameElements item)
  exact sameProperty ▸ smallest

omit [DecidableLE ι] in
theorem exists_le {property : ι → Prop} {answer : Option ι}
    (smallest : IsSmallest property answer) {item : ι} (holds : property item) :
    ∃ winner, answer = some winner ∧ winner ≤ item := by
  cases answer with
  | none => exact absurd holds (smallest item)
  | some winner => exact ⟨winner, rfl, smallest.2 item holds⟩

omit [DecidableLE ι] in
theorem unique [Std.IsLinearOrder ι] {property : ι → Prop}
    {first second : Option ι} (firstSmallest : IsSmallest property first)
    (secondSmallest : IsSmallest property second) : first = second := by
  cases first with
  | none =>
      cases second with
      | none => rfl
      | some item => exact absurd secondSmallest.1 (firstSmallest item)
  | some item =>
      cases second with
      | none => exact absurd firstSmallest.1 (secondSmallest item)
      | some other =>
          have below := firstSmallest.2 other secondSmallest.1
          have above := secondSmallest.2 item firstSmallest.1
          rw [Std.le_antisymm below above]

omit [DecidableLE ι] in
/-- In a list of ascending entries the first one with a property is the smallest
one. -/
theorem find? [Std.IsLinearOrder ι] {α : Type} (property : α → Bool)
    {entries : List (ι × α)}
    (ascending : entries.Pairwise fun earlier later => earlier.1 ≤ later.1) :
    IsSmallest
      (fun item => ∃ content, (item, content) ∈ entries ∧
        property content = true)
      ((entries.find? fun entry => property entry.2).map Prod.fst) := by
  induction entries with
  | nil =>
      intro item isEntry
      obtain ⟨content, member, _⟩ := isEntry
      cases member
  | cons first later induction =>
      obtain ⟨firstBelow, laterAscending⟩ := List.pairwise_cons.mp ascending
      cases holds : property first.2 with
      | true =>
          simp only [List.find?_cons, holds]
          refine ⟨⟨first.2, List.mem_cons_self, holds⟩, ?_⟩
          intro other isEntry
          obtain ⟨content, member, _⟩ := isEntry
          cases List.mem_cons.mp member with
          | inl isFirst => exact isFirst ▸ Std.le_refl _
          | inr inLater => exact firstBelow (other, content) inLater
      | false =>
          simp only [List.find?_cons, holds]
          apply (induction laterAscending).congr
          intro item
          apply exists_congr
          intro content
          apply and_congr_left
          intro isContent
          have notFirst : (item, content) ≠ first := by
            intro isFirst
            rw [← isFirst, isContent] at holds
            cases holds
          rw [List.mem_cons]
          exact (or_iff_right notFirst).symm

omit [DecidableLE ι] in
/-- The smallest element with a property is the smallest one with a stronger
property exactly if nothing with the first property is smaller than everything
with the second one. -/
theorem iff_of_imp [Std.IsLinearOrder ι] {weaker stronger : ι → Prop}
    {answer : Option ι} (smallest : IsSmallest weaker answer)
    (implies : ∀ item, stronger item → weaker item) :
    IsSmallest stronger answer ↔
      ∀ item, weaker item → ∃ other, stronger other ∧ other ≤ item := by
  cases answer with
  | none =>
      constructor
      · intro _ item isWeaker
        exact absurd isWeaker (smallest item)
      · intro _ item isStronger
        exact smallest item (implies item isStronger)
  | some least =>
      constructor
      · intro smallestStronger item isWeaker
        exact ⟨least, smallestStronger.1, smallest.2 item isWeaker⟩
      · intro covered
        obtain ⟨other, isStronger, below⟩ := covered least smallest.1
        have above := smallest.2 other (implies other isStronger)
        rw [Std.le_antisymm below above] at isStronger
        refine ⟨isStronger, ?_⟩
        intro item isItem
        exact smallest.2 item (implies item isItem)

end IsSmallest

end LexGen
