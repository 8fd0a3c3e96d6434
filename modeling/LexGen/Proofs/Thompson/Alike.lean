import LexGen.Proofs.OneToOne
import LexGen.Proofs.Thompson.Lowering

/-!
# Fragments that are alike

One expression may be lowered from different numbers on, and expressions that are
spelled differently may have the same fragment but for its numbers and the order
and the repetition of its edges.  Fragments are alike if their nodes can be paired
one to one so that their ends and their edges are paired.  They stay alike under
everything that lowering does to fragments, and items that are entered from one
node may change places.
-/

namespace LexGen

namespace Edge

/-- Edges of one label between paired nodes. -/
structure Paired (paired : Nat → Nat → Prop) (edge other : Edge) : Prop where
  sources : paired edge.source other.source
  label_eq : edge.transition.label = other.transition.label
  targets : paired edge.transition.target other.transition.target

def Covered (paired : Nat → Nat → Prop) (edges others : List Edge) : Prop :=
  ∀ edge ∈ edges, ∃ other ∈ others, Paired paired edge other

namespace Covered

variable {paired wider : Nat → Nat → Prop} {edges others more mores : List Edge}

theorem mono (covered : Covered paired edges others)
    (isWider : ∀ {node other}, paired node other → wider node other) :
    Covered wider edges others := by
  intro edge member
  obtain ⟨other, isOther, isPair⟩ := covered edge member
  exact ⟨other, isOther, isWider isPair.sources, isPair.label_eq,
    isWider isPair.targets⟩

theorem comp {further : Nat → Nat → Prop} {thirds : List Edge}
    (covered : Covered paired edges others)
    (onward : Covered further others thirds) :
    Covered (Relation.Comp paired further) edges thirds := by
  intro edge member
  obtain ⟨other, isOther, isPair⟩ := covered edge member
  obtain ⟨third, isThird, isNext⟩ := onward other isOther
  exact ⟨third, isThird, ⟨_, isPair.sources, isNext.sources⟩,
    isPair.label_eq.trans isNext.label_eq, ⟨_, isPair.targets, isNext.targets⟩⟩

theorem append (covered : Covered paired edges others)
    (further : Covered paired more mores) :
    Covered paired (edges ++ more) (others ++ mores) := by
  intro edge member
  cases List.mem_append.mp member with
  | inl isEdge =>
      obtain ⟨other, isOther, isPair⟩ := covered edge isEdge
      exact ⟨other, List.mem_append_left _ isOther, isPair⟩
  | inr isEdge =>
      obtain ⟨other, isOther, isPair⟩ := further edge isEdge
      exact ⟨other, List.mem_append_right _ isOther, isPair⟩

theorem single {source target otherSource otherTarget : Nat} (label : CodeSet)
    (sources : paired source otherSource) (targets : paired target otherTarget) :
    Covered paired [labelled source label target]
      [labelled otherSource label otherTarget] := by
  intro edge member
  cases List.mem_singleton.mp member
  exact ⟨_, List.mem_singleton_self _, sources, rfl, targets⟩

theorem congr (covered : Covered paired edges others)
    (same : ∀ edge, edge ∈ more ↔ edge ∈ edges)
    (sameOthers : ∀ other, other ∈ mores ↔ other ∈ others) :
    Covered paired more mores := by
  intro edge member
  obtain ⟨other, isOther, isPair⟩ := covered edge ((same edge).mp member)
  exact ⟨other, (sameOthers other).mpr isOther, isPair⟩

end Covered

/-- Edges of two lists that are paired with one another, none left out. -/
structure Matched (paired : Nat → Nat → Prop) (edges others : List Edge) :
    Prop where
  forth : Covered paired edges others
  back : Covered (flip paired) others edges

namespace Matched

variable {paired wider : Nat → Nat → Prop} {edges others more mores : List Edge}

theorem nil (paired : Nat → Nat → Prop) : Matched paired [] [] :=
  ⟨nofun, nofun⟩

theorem mono (matched : Matched paired edges others)
    (isWider : ∀ {node other}, paired node other → wider node other) :
    Matched wider edges others :=
  ⟨matched.forth.mono isWider, matched.back.mono isWider⟩

theorem symm (matched : Matched paired edges others) :
    Matched (flip paired) others edges :=
  ⟨matched.back, matched.forth⟩

theorem comp {further : Nat → Nat → Prop} {thirds : List Edge}
    (matched : Matched paired edges others) (onward : Matched further others thirds) :
    Matched (Relation.Comp paired further) edges thirds := by
  refine ⟨matched.forth.comp onward.forth, ?_⟩
  rw [Relation.flip_comp]
  exact onward.back.comp matched.back

theorem append (matched : Matched paired edges others)
    (further : Matched paired more mores) :
    Matched paired (edges ++ more) (others ++ mores) :=
  ⟨matched.forth.append further.forth, matched.back.append further.back⟩

theorem single {source target otherSource otherTarget : Nat} (label : CodeSet)
    (sources : paired source otherSource) (targets : paired target otherTarget) :
    Matched paired [labelled source label target]
      [labelled otherSource label otherTarget] :=
  ⟨.single label sources targets, .single label sources targets⟩

theorem congr (matched : Matched paired edges others)
    (same : ∀ edge, edge ∈ more ↔ edge ∈ edges)
    (sameOthers : ∀ other, other ∈ mores ↔ other ∈ others) :
    Matched paired more mores :=
  ⟨matched.forth.congr same sameOthers, matched.back.congr sameOthers same⟩

end Matched

/-- Edges between nodes that are paired one to one. -/
structure Pairing (paired : Nat → Nat → Prop) (edges others : List Edge) : Prop where
  oneToOne : Relator.BiUnique paired
  matched : Matched paired edges others

end Edge

namespace Lowered

open Edge

/-- Fragments, numbered from the given numbers on, whose nodes are paired one to
one.  Besides their new nodes they may share the given ports with other
fragments. -/
structure Pairing (ports paired : Nat → Nat → Prop) (next : Nat) (left : Lowered)
    (otherNext : Nat) (right : Lowered) : Prop
    extends Edge.Pairing paired left.edges right.edges where
  ofPorts : ∀ {node other}, ports node other → paired node other
  entries : paired left.entry right.entry
  next_le : next ≤ left.next ∧ otherNext ≤ right.next
  within : ∀ {node other}, paired node other → ports node other ∨
    (next ≤ node ∧ node < left.next) ∧ otherNext ≤ other ∧ other < right.next

namespace Pairing

variable {ports paired new : Nat → Nat → Prop} {next otherNext : Nat}
  {left right : Lowered}

theorem symm (pairing : Pairing ports paired next left otherNext right) :
    Pairing (flip ports) (flip paired) otherNext right next left where
  oneToOne := biUnique_flip pairing.oneToOne
  ofPorts := pairing.ofPorts
  entries := pairing.entries
  matched := pairing.matched.symm
  next_le := pairing.next_le.symm
  within := fun isPair => (pairing.within isPair).imp id And.symm

section Below

variable {bound otherBound : Nat}
  (pairing : Pairing ports paired next left otherNext right)
  (below : ∀ {node other}, ports node other → node < bound ∧ other < otherBound)
  {node other : Nat}

include pairing below

theorem bounds (isPair : paired node other) :
    node < bound ∧ other < otherBound ∨
      (next ≤ node ∧ node < left.next) ∧ otherNext ≤ other ∧ other < right.next :=
  (pairing.within isPair).imp below id

theorem lt (isOld : bound ≤ next ∧ otherBound ≤ otherNext)
    (isPair : paired node other) : node < left.next ∧ other < right.next := by
  have bounds := pairing.bounds below isPair
  have next_le := pairing.next_le
  omega

end Below

theorem comp {further onward : Nat → Nat → Prop} {middleNext : Nat} {middle : Lowered}
    (pairing : Pairing ports paired next left middleNext middle)
    (isOnward : Pairing further onward middleNext middle otherNext right)
    (below : ∀ {node other}, ports node other → other < middleNext)
    (onwardBelow : ∀ {node other}, further node other → node < middleNext) :
    Pairing (Relation.Comp ports further) (Relation.Comp paired onward)
      next left otherNext right where
  oneToOne := biUnique_comp pairing.oneToOne isOnward.oneToOne
  ofPorts := by
    intro node other isPort
    obtain ⟨between, isFirst, isSecond⟩ := isPort
    exact ⟨between, pairing.ofPorts isFirst, isOnward.ofPorts isSecond⟩
  entries := ⟨middle.entry, pairing.entries, isOnward.entries⟩
  matched := pairing.matched.comp isOnward.matched
  next_le := ⟨pairing.next_le.1, isOnward.next_le.2⟩
  within := by
    intro node other isPair
    obtain ⟨between, isFirst, isSecond⟩ := isPair
    cases pairing.within isFirst with
    | inl isPort =>
        cases isOnward.within isSecond with
        | inl isFurther => exact .inl ⟨between, isPort, isFurther⟩
        | inr isNew => exact absurd isNew.1.1 (Nat.not_le.mpr (below isPort))
    | inr isNew =>
        cases isOnward.within isSecond with
        | inl isFurther =>
            exact absurd isNew.2.1 (Nat.not_le.mpr (onwardBelow isFurther))
        | inr isOther => exact .inr ⟨isNew.1, isOther.2⟩

theorem trivial (exit next otherExit otherNext : Nat) :
    Pairing (Only exit otherExit) (Only exit otherExit) next (trivial exit next)
      otherNext (trivial otherExit otherNext) where
  oneToOne := only_biUnique exit otherExit
  ofPorts := id
  entries := ⟨rfl, rfl⟩
  matched := .nil _
  next_le := ⟨Nat.le_refl next, Nat.le_refl otherNext⟩
  within := .inl

/-- New nodes in front of paired fragments start wires to their entries. -/
theorem behindWire (pairing : Pairing ports paired next left otherNext right)
    (below : ∀ {node other}, ports node other → node < next ∧ other < otherNext)
    (label : CodeSet) :
    Pairing ports (Either paired (Only left.next right.next)) next
      ⟨left.next, left.next + 1,
        left.edges ++ [labelled left.next label left.entry]⟩
      otherNext
      ⟨right.next, right.next + 1,
        right.edges ++ [labelled right.next label right.entry]⟩ := by
  have isBelow {node other : Nat} (isPair : paired node other) :
      node < left.next ∧ other < right.next :=
    pairing.lt below ⟨Nat.le_refl next, Nat.le_refl otherNext⟩ isPair
  have next_le := pairing.next_le
  constructor
  · constructor
    · apply either_biUnique pairing.oneToOne (only_biUnique left.next right.next)
      intro node other isNew
      obtain ⟨isNode, isOther⟩ := isNew
      right
      constructor
      · intro second isPair
        exact Nat.ne_of_lt (isBelow isPair).1 isNode
      · intro first isPair
        exact Nat.ne_of_lt (isBelow isPair).2 isOther
    · exact (pairing.matched.mono .inl).append
        (.single label (.inr ⟨rfl, rfl⟩) (.inl pairing.entries))
  · intro node other isPort
    exact .inl (pairing.ofPorts isPort)
  · exact .inr ⟨rfl, rfl⟩
  · exact ⟨Nat.le_succ_of_le next_le.1, Nat.le_succ_of_le next_le.2⟩
  · intro node other isPair
    cases isPair with
    | inl isPair =>
        apply (pairing.within isPair).imp id
        intro isNew
        simp only
        omega
    | inr isNew =>
        obtain ⟨isNode, isOther⟩ := isNew
        right
        simp only
        omega

section Extend

variable {old : Nat → Nat → Prop} {edges others : List Edge}
  (olds : Edge.Pairing old edges others)
  (pairing : Pairing ports paired next left otherNext right)
  (isOld : ∀ {node other}, ports node other → old node other)
  (unused : ∀ {node other}, old node other →
    (node < next ∨ left.next ≤ node) ∧ (other < otherNext ∨ right.next ≤ other))

include olds pairing isOld unused

/-- Paired fragments extend a pairing if their nodes are ports that are paired
already or not used yet. -/
theorem extend :
    Edge.Pairing (Either old paired) (edges ++ left.edges) (others ++ right.edges) := by
  constructor
  · apply either_biUnique olds.oneToOne pairing.oneToOne
    intro node other isPair
    apply (pairing.within isPair).imp isOld
    intro isNew
    constructor
    · intro second isPair
      have isUnused := (unused isPair).1
      omega
    · intro first isPair
      have isUnused := (unused isPair).2
      omega
  · exact (olds.matched.mono .inl).append (pairing.matched.mono .inr)

theorem enter {hub otherHub : Nat} (isHub : old hub otherHub) :
    Edge.Pairing (Either old paired) (edges ++ left.edges ++ [free hub left.entry])
      (others ++ right.edges ++ [free otherHub right.entry]) := by
  obtain ⟨oneToOne, matched⟩ := extend olds pairing isOld unused
  exact ⟨oneToOne, matched.append (.single ∅ (.inl isHub) (.inr pairing.entries))⟩

end Extend

/-- Paired fragments that end where paired ones are entered go before these. -/
theorem before {first counterpart : Lowered}
    (isFirst : Pairing (Only left.entry right.entry) new left.next first
      right.next counterpart)
    (isLater : Pairing ports paired next left otherNext right)
    (below : ∀ {node other}, ports node other → node < next ∧ other < otherNext) :
    Pairing ports (Either paired new) next
      ⟨first.entry, first.next, left.edges ++ first.edges⟩ otherNext
      ⟨counterpart.entry, counterpart.next, right.edges ++ counterpart.edges⟩ := by
  have isBelow {node other : Nat} (isPair : paired node other) :
      node < left.next ∧ other < right.next :=
    isLater.lt below ⟨Nat.le_refl next, Nat.le_refl otherNext⟩ isPair
  have next_le := isLater.next_le
  have first_le := isFirst.next_le
  have isOld {node other : Nat} (isPort : Only left.entry right.entry node other) :
      paired node other := by
    obtain ⟨isNode, isOther⟩ := isPort
    rw [isNode, isOther]
    exact isLater.entries
  constructor
  · apply isFirst.extend isLater.toPairing isOld
    intro node other isPair
    exact ⟨.inl (isBelow isPair).1, .inl (isBelow isPair).2⟩
  · intro node other isPort
    exact .inl (isLater.ofPorts isPort)
  · exact .inr isFirst.entries
  · exact ⟨Nat.le_trans next_le.1 first_le.1, Nat.le_trans next_le.2 first_le.2⟩
  · have inLater {node other : Nat} (isPair : paired node other) :
        ports node other ∨ (next ≤ node ∧ node < first.next) ∧
          otherNext ≤ other ∧ other < counterpart.next := by
      apply (isLater.within isPair).imp id
      intro isNew
      exact ⟨⟨isNew.1.1, Nat.lt_of_lt_of_le isNew.1.2 first_le.1⟩,
        isNew.2.1, Nat.lt_of_lt_of_le isNew.2.2 first_le.2⟩
    intro node other isPair
    cases isPair with
    | inl isPair => exact inLater isPair
    | inr isPair =>
        cases isFirst.within isPair with
        | inl isPort => exact inLater (isOld isPort)
        | inr isNew =>
            exact .inr ⟨⟨Nat.le_trans next_le.1 isNew.1.1, isNew.1.2⟩,
              Nat.le_trans next_le.2 isNew.2.1, isNew.2.2⟩

theorem withEdges (pairing : Pairing ports paired next left otherNext right)
    {edges others : List Edge} (isAdded : Matched paired edges others) :
    Pairing ports paired next (left.withEdges edges) otherNext
      (right.withEdges others) :=
  { pairing with matched := pairing.matched.append isAdded }

theorem absorb {wider : Nat → Nat → Prop}
    (pairing : Pairing wider paired (next + 1) left (otherNext + 1) right)
    (isWider : ∀ {node other},
      wider node other ↔ ports node other ∨ Only next otherNext node other) :
    Pairing ports paired next left otherNext right := by
  have next_le := pairing.next_le
  refine ⟨pairing.toPairing, ?_, pairing.entries, ?_, ?_⟩
  · intro node other isPort
    exact pairing.ofPorts (isWider.mpr (.inl isPort))
  · omega
  · intro node other isPair
    cases pairing.within isPair with
    | inl isPort =>
        apply (isWider.mp isPort).imp id
        intro isFirst
        obtain ⟨isNode, isOther⟩ := isFirst
        omega
    | inr isNew =>
        right
        omega

section Branches

variable {exit otherExit hub otherHub : Nat} {first counterpart : Lowered}
  (below : ∀ {node other}, ports node other → node < next ∧ other < otherNext)
  (isExit : ports exit otherExit) (isHub : ports hub otherHub)

include below isExit isHub

/-- Paired fragments go beside paired ones that are entered from the same nodes. -/
theorem branch
    (isFirst : Pairing (Only exit otherExit) new next first otherNext counterpart)
    (isLater : Pairing ports paired first.next left counterpart.next right) :
    Pairing ports (Either paired new) next
      ⟨hub, left.next, first.edges ++ free hub first.entry :: left.edges⟩ otherNext
      ⟨otherHub, right.next,
        counterpart.edges ++ free otherHub counterpart.entry :: right.edges⟩ := by
  have first_le := isFirst.next_le
  have later_le := isLater.next_le
  have isPort {node other : Nat} (isExits : Only exit otherExit node other) :
      ports node other := by
    rw [isExits.1, isExits.2]
    exact isExit
  have isOld {node other : Nat} (isExits : Only exit otherExit node other) :
      paired node other := isLater.ofPorts (isPort isExits)
  have unused {node other : Nat} (isPair : paired node other) :
      (node < next ∨ first.next ≤ node) ∧
        (other < otherNext ∨ counterpart.next ≤ other) := by
    have bounds := isLater.bounds below isPair
    omega
  have entered := isFirst.enter isLater.toPairing isOld unused (isLater.ofPorts isHub)
  constructor
  · refine ⟨entered.oneToOne, entered.matched.congr ?_ ?_⟩
    · intro edge
      simp [or_comm, or_left_comm]
    · intro edge
      simp [or_comm, or_left_comm]
  · intro node other isPort
    exact .inl (isLater.ofPorts isPort)
  · exact .inl (isLater.ofPorts isHub)
  · exact ⟨Nat.le_trans first_le.1 later_le.1, Nat.le_trans first_le.2 later_le.2⟩
  · intro node other isPair
    cases isPair with
    | inl isPair =>
        apply (isLater.within isPair).imp id
        intro isNew
        simp only
        omega
    | inr isPair =>
        apply (isFirst.within isPair).imp isPort
        intro isNew
        simp only
        omega

/-- The first two of the fragments that are entered from one node may change
places. -/
theorem branch_swap {second otherSecond : Lowered} {newSecond : Nat → Nat → Prop}
    (isFirst : Pairing (Only exit otherExit) new next first otherSecond.next
      counterpart)
    (isSecond : Pairing (Only exit otherExit) newSecond first.next second otherNext
      otherSecond)
    (isLater : Pairing ports paired second.next left counterpart.next right) :
    Pairing ports (Either (Either paired new) newSecond) next
      ⟨hub, left.next, first.edges ++ free hub first.entry ::
        (second.edges ++ free hub second.entry :: left.edges)⟩ otherNext
      ⟨otherHub, right.next, otherSecond.edges ++ free otherHub otherSecond.entry ::
        (counterpart.edges ++ free otherHub counterpart.entry :: right.edges)⟩ := by
  have first_le := isFirst.next_le
  have second_le := isSecond.next_le
  have later_le := isLater.next_le
  have isPort {node other : Nat} (isExits : Only exit otherExit node other) :
      ports node other := by
    rw [isExits.1, isExits.2]
    exact isExit
  have isHubs := isLater.ofPorts isHub
  have isOld {node other : Nat} (isExits : Only exit otherExit node other) :
      paired node other := isLater.ofPorts (isPort isExits)
  have unused {node other : Nat} (isPair : paired node other) :
      (node < next ∨ first.next ≤ node) ∧
        (other < otherSecond.next ∨ counterpart.next ≤ other) := by
    have bounds := isLater.bounds below isPair
    omega
  have entered := isFirst.enter isLater.toPairing isOld unused isHubs
  have unusedYet {node other : Nat} (isPair : Either paired new node other) :
      (node < first.next ∨ second.next ≤ node) ∧
        (other < otherNext ∨ otherSecond.next ≤ other) := by
    cases isPair with
    | inl isPair =>
        have bounds := isLater.bounds below isPair
        omega
    | inr isPair =>
        have bounds := isFirst.bounds (fun isExits => below (isPort isExits)) isPair
        omega
  have both := isSecond.enter entered (fun isExits => .inl (isOld isExits)) unusedYet
    (.inl isHubs)
  constructor
  · refine ⟨both.oneToOne, both.matched.congr ?_ ?_⟩
    · intro edge
      simp only [List.mem_append, List.mem_cons]
      grind
    · intro edge
      simp only [List.mem_append, List.mem_cons]
      grind
  · intro node other isPort
    exact .inl (.inl (isLater.ofPorts isPort))
  · exact .inl (.inl isHubs)
  · simp only
    omega
  · intro node other isPair
    simp only
    cases isPair with
    | inl isPair =>
        cases isPair with
        | inl isPair =>
            apply (isLater.within isPair).imp id
            omega
        | inr isPair =>
            apply (isFirst.within isPair).imp isPort
            omega
    | inr isPair =>
        apply (isSecond.within isPair).imp isPort
        omega

end Branches

end Pairing

end Lowered

end LexGen
