import LexGen.Proofs.Thompson.Alike
import LexGen.Regex.Variants

/-!
# Respelled expressions are lowered alike

An expression is lowered to fragments that are alike from whatever numbers on, and
so are respelled expressions.  Repetitions and options within one another add edges
that are there already, and the branches of an alternative may change places.
-/

namespace LexGen

open Edge Lowered

namespace Lowered

/-- From any numbers on and before any exits, the fragments are alike. -/
def Alike (lowering other : (exit next : Nat) → Lowered) : Prop :=
  ∀ ⦃exit next otherExit otherNext⦄, exit < next → otherExit < otherNext →
    ∃ paired, Pairing (Only exit otherExit) paired next (lowering exit next)
      otherNext (other otherExit otherNext)

/-- Fragments that differ in the order and the repetition of their edges only. -/
structure SameEdges (left right : Lowered) : Prop where
  entry_eq : left.entry = right.entry
  next_eq : left.next = right.next
  mem_iff : ∀ edge, edge ∈ left.edges ↔ edge ∈ right.edges

theorem withEdges_twice (fragment : Lowered) {edges more all : List Edge}
    (isUnion : ∀ edge, edge ∈ edges ∨ edge ∈ more ↔ edge ∈ all) :
    SameEdges ((fragment.withEdges edges).withEdges more)
      (fragment.withEdges all) := by
  refine ⟨rfl, rfl, ?_⟩
  intro edge
  simp only [withEdges, List.append_assoc, List.mem_append, isUnion]

theorem only_below {exit next otherExit otherNext : Nat} (bound : exit < next)
    (otherBound : otherExit < otherNext) {node other : Nat}
    (isExit : Only exit otherExit node other) : node < next ∧ other < otherNext := by
  rw [isExit.1, isExit.2]
  exact ⟨bound, otherBound⟩

namespace Alike

variable {lowering middle other : (exit next : Nat) → Lowered}

theorem symm (alike : Alike lowering other) : Alike other lowering := by
  intro exit next otherExit otherNext bound otherBound
  obtain ⟨paired, pairing⟩ := alike otherBound bound
  rw [← flip_only]
  exact ⟨flip paired, pairing.symm⟩

theorem trans (alike : Alike lowering middle) (onward : Alike middle other) :
    Alike lowering other := by
  intro exit next otherExit otherNext bound otherBound
  obtain ⟨paired, pairing⟩ := alike bound otherBound
  obtain ⟨further, isOnward⟩ := onward otherBound otherBound
  rw [← comp_only exit otherExit otherExit]
  refine ⟨Relation.Comp paired further, pairing.comp isOnward ?_ ?_⟩
  · intro node between isExit
    exact (only_below bound otherBound isExit).2
  · intro between other isExit
    exact (only_below otherBound otherBound isExit).1

theorem of_sameEdges (self : Alike other other)
    (same : ∀ exit next, SameEdges (lowering exit next) (other exit next)) :
    Alike lowering other := by
  intro exit next otherExit otherNext bound otherBound
  obtain ⟨paired, pairing⟩ := self bound otherBound
  obtain ⟨entry_eq, next_eq, mem_iff⟩ := same exit next
  refine ⟨paired, ⟨pairing.oneToOne, ?_⟩, pairing.ofPorts, ?_, ?_, ?_⟩
  · exact pairing.matched.congr mem_iff fun _ => Iff.rfl
  · rw [entry_eq]
    exact pairing.entries
  · rw [next_eq]
    exact pairing.next_le
  · rw [next_eq]
    exact pairing.within

end Alike

end Lowered

namespace Regex

variable {regex inner other : Regex} {items others : List Regex}

theorem oneOf_alike (set : CodeSet) : Alike (oneOf set).lower (oneOf set).lower := by
  intro exit next otherExit otherNext bound otherBound
  have isWire := (Pairing.trivial exit next otherExit otherNext).behindWire
    (only_below bound otherBound) set
  exact ⟨_, isWire⟩

theorem lowerCodes_alike (codes : List Int) :
    Alike (lowerCodes codes) (lowerCodes codes) := by
  intro exit next otherExit otherNext bound otherBound
  induction codes with
  | nil => exact ⟨_, .trivial exit next otherExit otherNext⟩
  | cons code codes induction =>
      obtain ⟨paired, later⟩ := induction
      exact ⟨_, later.behindWire (only_below bound otherBound) (.singleton code)⟩

theorem many_alike (alike : Alike inner.lower other.lower) :
    Alike (many inner).lower (many other).lower := by
  intro exit next otherExit otherNext bound otherBound
  obtain ⟨paired, pairing⟩ := alike bound otherBound
  have exits := pairing.ofPorts ⟨rfl, rfl⟩
  have loops := (Matched.single ∅ exits pairing.entries).append
    (Matched.single ∅ pairing.entries exits)
  exact ⟨paired, pairing.withEdges loops⟩

theorem optional_alike (alike : Alike inner.lower other.lower) :
    Alike (optional inner).lower (optional other).lower := by
  intro exit next otherExit otherNext bound otherBound
  obtain ⟨paired, pairing⟩ := alike bound otherBound
  have exits := pairing.ofPorts ⟨rfl, rfl⟩
  exact ⟨paired, pairing.withEdges (.single ∅ pairing.entries exits)⟩

def ItemsAlike (items others : List Regex) : Prop :=
  List.Forall₂ (fun item other => Alike item.lower other.lower) items others

theorem lowerSequence_alike (alike : ItemsAlike items others) :
    Alike (lowerSequence items) (lowerSequence others) := by
  induction alike with
  | nil =>
      intro exit next otherExit otherNext _ _
      exact ⟨_, .trivial exit next otherExit otherNext⟩
  | @cons item other items others isFirst _ induction =>
      intro exit next otherExit otherNext bound otherBound
      obtain ⟨paired, later⟩ := induction bound otherBound
      have entries := later.lt (only_below bound otherBound)
        ⟨Nat.le_refl next, Nat.le_refl otherNext⟩ later.entries
      obtain ⟨new, first⟩ := isFirst entries.1 entries.2
      exact ⟨_, first.before later (only_below bound otherBound)⟩

section Branches

/-- The exit of branches and the node they are entered from, on both sides. -/
def branchEnds (exit hub otherExit otherHub : Nat) : Nat → Nat → Prop :=
  Either (Only exit otherExit) (Only hub otherHub)

theorem branchEnds_below {exit hub next otherExit otherHub otherNext : Nat}
    (bounds : exit < hub ∧ hub < next)
    (otherBounds : otherExit < otherHub ∧ otherHub < otherNext) {node other : Nat}
    (isEnd : branchEnds exit hub otherExit otherHub node other) :
    node < next ∧ other < otherNext := by
  cases isEnd with
  | inl isExit =>
      exact only_below (Nat.lt_trans bounds.1 bounds.2)
        (Nat.lt_trans otherBounds.1 otherBounds.2) isExit
  | inr isHub => exact only_below bounds.2 otherBounds.2 isHub

/-- Branches with paired exits that are entered from paired nodes are paired. -/
def BranchesAlike (items others : List Regex) : Prop :=
  ∀ ⦃exit hub next otherExit otherHub otherNext⦄, exit < hub ∧ hub < next →
    otherExit < otherHub ∧ otherHub < otherNext →
    ∃ paired, Pairing (branchEnds exit hub otherExit otherHub) paired
      next (lowerBranches hub items exit next)
      otherNext (lowerBranches otherHub others otherExit otherNext)

theorem branches_nil : BranchesAlike [] [] := by
  intro exit hub next otherExit otherHub otherNext bounds otherBounds
  have different := Nat.ne_of_lt bounds.1
  have otherDifferent := Nat.ne_of_lt otherBounds.1
  refine ⟨branchEnds exit hub otherExit otherHub, ⟨?_, .nil _⟩, id, .inr ⟨rfl, rfl⟩,
    ⟨Nat.le_refl next, Nat.le_refl otherNext⟩, .inl⟩
  apply either_biUnique (only_biUnique _ _) (only_biUnique _ _)
  intro node other isHub
  right
  constructor
  · intro second isExit
    exact different (isExit.1.symm.trans isHub.1)
  · intro first isExit
    exact otherDifferent (isExit.2.symm.trans isHub.2)

theorem branches_cons (first : Alike regex.lower other.lower)
    (later : BranchesAlike items others) :
    BranchesAlike (regex :: items) (other :: others) := by
  intro exit hub next otherExit otherHub otherNext bounds otherBounds
  obtain ⟨new, isFirst⟩ := first (Nat.lt_trans bounds.1 bounds.2)
    (Nat.lt_trans otherBounds.1 otherBounds.2)
  have first_le := isFirst.next_le
  obtain ⟨paired, isLater⟩ := later
    ⟨bounds.1, Nat.lt_of_lt_of_le bounds.2 first_le.1⟩
    ⟨otherBounds.1, Nat.lt_of_lt_of_le otherBounds.2 first_le.2⟩
  exact ⟨_, isFirst.branch (branchEnds_below bounds otherBounds) (.inl ⟨rfl, rfl⟩)
    (.inr ⟨rfl, rfl⟩) isLater⟩

theorem branches_swap (first : Alike regex.lower regex.lower)
    (second : Alike other.lower other.lower) (later : BranchesAlike items items) :
    BranchesAlike (regex :: other :: items) (other :: regex :: items) := by
  intro exit hub next otherExit otherHub otherNext bounds otherBounds
  have bound := Nat.lt_trans bounds.1 bounds.2
  have otherBound := Nat.lt_trans otherBounds.1 otherBounds.2
  have first_le := (lower_isSound regex bound).next_le
  have second_le := (lower_isSound other otherBound).next_le
  obtain ⟨new, isFirst⟩ := first bound (Nat.lt_of_lt_of_le otherBound second_le)
  obtain ⟨newSecond, isSecond⟩ := second (Nat.lt_of_lt_of_le bound first_le) otherBound
  have hubBound := Nat.lt_of_lt_of_le bounds.2 (Nat.le_trans first_le isSecond.next_le.1)
  have otherHubBound :=
    Nat.lt_of_lt_of_le otherBounds.2 (Nat.le_trans second_le isFirst.next_le.2)
  obtain ⟨paired, isLater⟩ := later ⟨bounds.1, hubBound⟩ ⟨otherBounds.1, otherHubBound⟩
  exact ⟨_, isFirst.branch_swap (branchEnds_below bounds otherBounds)
    (.inl ⟨rfl, rfl⟩) (.inr ⟨rfl, rfl⟩) isSecond isLater⟩

theorem branches_trans {middle : List Regex} (alike : BranchesAlike items middle)
    (onward : BranchesAlike middle others) : BranchesAlike items others := by
  intro exit hub next otherExit otherHub otherNext bounds otherBounds
  obtain ⟨paired, pairing⟩ := alike bounds otherBounds
  obtain ⟨further, isOnward⟩ := onward otherBounds otherBounds
  have isComp : Relation.Comp (branchEnds exit hub otherExit otherHub)
      (branchEnds otherExit otherHub otherExit otherHub) = _ :=
    comp_either_only (Nat.ne_of_lt otherBounds.1)
  rw [branchEnds, ← isComp]
  refine ⟨Relation.Comp paired further, pairing.comp isOnward ?_ ?_⟩
  · intro node between isEnd
    exact (branchEnds_below bounds otherBounds isEnd).2
  · intro between other isEnd
    exact (branchEnds_below otherBounds otherBounds isEnd).1

theorem branches_alike (alike : ItemsAlike items others) :
    BranchesAlike items others := by
  induction alike with
  | nil => exact branches_nil
  | cons isFirst _ induction => exact branches_cons isFirst induction

/-- More than one branch are entered from a new node. -/
theorem alternative_alike_of_branches (branches : BranchesAlike items others)
    (several : 1 < items.length) (alsoSeveral : 1 < others.length) :
    Alike (alternative items).lower (alternative others).lower := by
  intro exit next otherExit otherNext bound otherBound
  obtain ⟨paired, pairing⟩ := branches ⟨bound, Nat.lt_succ_self next⟩
    ⟨otherBound, Nat.lt_succ_self otherNext⟩
  match items, others with
  | first :: second :: items, other :: third :: others =>
      exact ⟨paired, pairing.absorb Iff.rfl⟩

theorem alternative_alike (alike : ItemsAlike items others) :
    Alike (alternative items).lower (alternative others).lower := by
  cases alike with
  | nil =>
      intro exit next otherExit otherNext _ _
      exact ⟨_, .trivial exit next otherExit otherNext⟩
  | cons isFirst later =>
      cases later with
      | nil => exact isFirst
      | cons isSecond later =>
          apply alternative_alike_of_branches
          · exact branches_alike (.cons isFirst (.cons isSecond later))
          · exact Nat.le_add_left 2 _
          · exact Nat.le_add_left 2 _

end Branches

section Self

mutual

theorem lower_alike (regex : Regex) : Alike regex.lower regex.lower := by
  cases regex with
  | oneOf set => exact oneOf_alike set
  | literal text => exact lowerCodes_alike (Code.ofText text)
  | many inner => exact many_alike (lower_alike inner)
  | optional inner => exact optional_alike (lower_alike inner)
  | sequence items => exact lowerSequence_alike (items_alike items)
  | alternative items => exact alternative_alike (items_alike items)

theorem items_alike (items : List Regex) : ItemsAlike items items := by
  cases items with
  | nil => exact .nil
  | cons item items => exact .cons (lower_alike item) (items_alike items)

end

theorem items_alike_of_one (before after : List Regex)
    (alike : Alike regex.lower other.lower) :
    ItemsAlike (before ++ regex :: after) (before ++ other :: after) :=
  List.rel_append (items_alike before) (.cons alike (items_alike after))

theorem branches_permute (permutes : items.Perm others) : BranchesAlike items others := by
  induction permutes with
  | nil => exact branches_nil
  | cons item _ induction => exact branches_cons (lower_alike item) induction
  | swap first second items =>
      exact branches_swap (lower_alike second) (lower_alike first)
        (branches_alike (items_alike items))
  | trans _ _ induction onward => exact branches_trans induction onward

theorem alternative_permutes (permutes : items.Perm others) :
    Alike (alternative items).lower (alternative others).lower := by
  have sameLength := permutes.length_eq
  match items, others with
  | [], [] => exact lower_alike (alternative [])
  | [only], [other] =>
      rw [List.perm_singleton.mp permutes]
      exact lower_alike (alternative [other])
  | first :: second :: items, other :: third :: others =>
      apply alternative_alike_of_branches (branches_permute permutes)
      · exact Nat.le_add_left 2 _
      · exact Nat.le_add_left 2 _

end Self

theorem Respelled.alike (respelled : Respelled regex other) :
    Alike regex.lower other.lower := by
  induction respelled with
  | refl regex => exact lower_alike regex
  | symm _ induction => exact induction.symm
  | trans _ _ induction onward => exact induction.trans onward
  | permuted permutes => exact alternative_permutes permutes
  | manyMany inner =>
      apply (lower_alike (.many inner)).of_sameEdges
      intro exit next
      apply withEdges_twice
      simp [lower, withEdges]
  | manyOptional inner =>
      apply (lower_alike (.many inner)).of_sameEdges
      intro exit next
      apply withEdges_twice
      simp [lower, withEdges]
  | optionalMany inner =>
      apply (lower_alike (.many inner)).of_sameEdges
      intro exit next
      apply withEdges_twice
      simp [lower, withEdges]
  | optionalOptional inner =>
      apply (lower_alike (.optional inner)).of_sameEdges
      intro exit next
      apply withEdges_twice
      simp [lower, withEdges]
  | many _ induction => exact many_alike induction
  | optional _ induction => exact optional_alike induction
  | sequence before after _ induction =>
      exact lowerSequence_alike (items_alike_of_one before after induction)
  | alternative before after _ induction =>
      exact alternative_alike (items_alike_of_one before after induction)

end Regex

end LexGen
