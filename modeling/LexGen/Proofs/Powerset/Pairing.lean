import LexGen.Automaton.Renumbering
import LexGen.Proofs.OneToOne
import LexGen.Proofs.Powerset.Lockstep

/-!
# Determinizing sees the graph only

A pairing relates nodes of two automata that are left by the same labels, to
paired targets, and have the same item.  Paths follow a pairing, and so do sets of
nodes and the moves between them.  Automata with a pairing of their start nodes
therefore become the same deterministic automaton, whatever the numbers and the
names of their nodes and the order and the repetition of their transitions.
-/

namespace LexGen

namespace NodeSet

variable {paired : Nat → Nat → Prop}

/-- Every node of the one set is paired with a node of the other one. -/
def Paired (paired : Nat → Nat → Prop) (left right : NodeSet) : Prop :=
  (∀ node ∈ left, ∃ other ∈ right, paired node other) ∧
    ∀ other ∈ right, ∃ node ∈ left, paired node other

theorem Paired.flip {left right : NodeSet} (isPair : Paired paired left right) :
    Paired (flip paired) right left :=
  ⟨isPair.2, isPair.1⟩

theorem paired_leftUnique (unique : Relator.LeftUnique paired) :
    Relator.LeftUnique (Paired paired) := by
  have subset {left right third : NodeSet} (isPair : Paired paired left right)
      (otherPair : Paired paired third right) : ∀ node ∈ left, node ∈ third := by
    intro node inLeft
    obtain ⟨other, inRight, here⟩ := isPair.1 node inLeft
    obtain ⟨same, inThird, there⟩ := otherPair.2 other inRight
    exact unique here there ▸ inThird
  intro left third right isPair otherPair
  apply ext
  intro node
  exact ⟨subset isPair otherPair node, subset otherPair isPair node⟩

theorem paired_biUnique (oneToOne : Relator.BiUnique paired) :
    Relator.BiUnique (Paired paired) := by
  refine ⟨paired_leftUnique oneToOne.left, ?_⟩
  intro left right third isPair otherPair
  exact paired_leftUnique (biUnique_flip oneToOne).left isPair.flip otherPair.flip

end NodeSet

namespace Automaton

variable {ι : Type}

/-- The relation pairs nodes one to one, the start with the start.  Paired nodes
are left by the same labels, to paired targets, and have the same item. -/
structure Pairing (paired : Nat → Nat → Prop) (left right : Automaton ι) : Prop where
  oneToOne : Relator.BiUnique paired
  start : paired left.start right.start
  forth : ∀ {node other transition}, paired node other →
    left.Leaves node transition → ∃ counterpart, right.Leaves other counterpart ∧
      counterpart.label = transition.label ∧
      paired transition.target counterpart.target
  back : ∀ {node other transition}, paired node other →
    right.Leaves other transition → ∃ counterpart, left.Leaves node counterpart ∧
      counterpart.label = transition.label ∧
      paired counterpart.target transition.target
  item?_eq : ∀ {node other}, paired node other → left.item? node = right.item? other

namespace Pairing

variable {paired : Nat → Nat → Prop} {left right : Automaton ι}

theorem symm (pairing : Pairing paired left right) :
    Pairing (flip paired) right left where
  oneToOne := biUnique_flip pairing.oneToOne
  start := pairing.start
  forth := pairing.back
  back := pairing.forth
  item?_eq := fun isPair => (pairing.item?_eq isPair).symm

theorem exists_reads (pairing : Pairing paired left right) {first last : Nat}
    {word : List Int} (path : left.Reads first word last) {other : Nat}
    (isPair : paired first other) :
    ∃ end', right.Reads other word end' ∧ paired last end' := by
  induction path generalizing other with
  | stay number => exact ⟨other, .stay other, isPair⟩
  | @free number last transition word leaves isFree _ induction =>
      obtain ⟨counterpart, otherLeaves, sameLabel, targets⟩ :=
        pairing.forth isPair leaves
      obtain ⟨finish, further, lasts⟩ := induction targets
      have otherFree : counterpart.isFree = true := by
        rw [Transition.isFree, sameLabel]
        exact isFree
      exact ⟨finish, .free otherLeaves otherFree further, lasts⟩
  | consume leaves takes _ induction =>
      obtain ⟨counterpart, otherLeaves, sameLabel, targets⟩ :=
        pairing.forth isPair leaves
      obtain ⟨finish, further, lasts⟩ := induction targets
      exact ⟨finish, .consume otherLeaves (sameLabel ▸ takes) further, lasts⟩

end Pairing

end Automaton

namespace Powerset

variable {ι : Type} {left right : Powerset ι} {paired : Nat → Nat → Prop}
  {state other : NodeSet}

/-- States that hold paired nodes. -/
structure PairedStates (paired : Nat → Nat → Prop) (left right : Powerset ι)
    (state other : NodeSet) : Prop where
  isState : left.IsState state
  isOther : right.IsState other
  isPair : NodeSet.Paired paired state other

namespace PairedStates

theorem flip (states : PairedStates paired left right state other) :
    PairedStates (flip paired) right left other state :=
  ⟨states.isOther, states.isState, states.isPair.flip⟩

theorem biUnique (oneToOne : Relator.BiUnique paired) :
    Relator.BiUnique (PairedStates paired left right) := by
  have unique := NodeSet.paired_biUnique oneToOne
  constructor
  · intro state third other here there
    exact unique.left here.isPair there.isPair
  · intro state other third here there
    exact unique.right here.isPair there.isPair

section Pairing

variable (pairing : Automaton.Pairing paired left.automaton right.automaton)
  (states : PairedStates paired left right state other)

include pairing states

theorem exists_follower {word : List Int} {later otherLater : NodeSet}
    (onLeft : left.Follows state word later)
    (onRight : right.Follows other word otherLater) :
    ∀ target ∈ later, ∃ finish ∈ otherLater, paired target finish := by
  intro target inLater
  obtain ⟨node, inState, path⟩ := (onLeft target).mp inLater
  obtain ⟨start, inOther, starts⟩ := states.isPair.1 node inState
  obtain ⟨finish, otherPath, finishes⟩ := pairing.exists_reads path starts
  exact ⟨finish, (onRight finish).mpr ⟨start, inOther, otherPath⟩, finishes⟩

theorem follows {word : List Int} {later otherLater : NodeSet}
    (onLeft : left.Follows state word later)
    (onRight : right.Follows other word otherLater) :
    NodeSet.Paired paired later otherLater :=
  ⟨states.exists_follower pairing onLeft onRight,
    states.flip.exists_follower pairing.symm onRight onLeft⟩

theorem subset_alphabet {code : Int}
    (takes : code ∈ alphabet (left.transitionsOf state)) :
    code ∈ alphabet (right.transitionsOf other) := by
  obtain ⟨node, inState, target, path⟩ := states.isState.mem_alphabet_iff.mp takes
  obtain ⟨start, inOther, starts⟩ := states.isPair.1 node inState
  obtain ⟨finish, otherPath, _⟩ := pairing.exists_reads path starts
  exact states.isOther.mem_alphabet_iff.mpr ⟨start, inOther, finish, otherPath⟩

theorem alphabet_eq :
    alphabet (left.transitionsOf state) = alphabet (right.transitionsOf other) := by
  apply CodeSet.ext
  intro code
  exact ⟨states.subset_alphabet pairing, states.flip.subset_alphabet pairing.symm⟩

theorem of_follows (leftSound : left.IsSound) (rightSound : right.IsSound)
    {code : Int} (takes : code ∈ alphabet (left.transitionsOf state))
    {later otherLater : NodeSet} (onLeft : left.Follows state [code] later)
    (onRight : right.Follows other [code] otherLater) :
    PairedStates paired left right later otherLater := by
  have isPair := states.follows pairing onLeft onRight
  obtain ⟨node, inState, target, path⟩ := states.isState.mem_alphabet_iff.mp takes
  have inLater : target ∈ later := (onLeft target).mpr ⟨node, inState, path⟩
  obtain ⟨counterpart, inOther, _⟩ := isPair.1 target inLater
  exact ⟨states.isState.of_follows leftSound ⟨target, inLater⟩ onLeft,
    states.isOther.of_follows rightSound ⟨counterpart, inOther⟩ onRight, isPair⟩

theorem moves (leftSound : left.IsSound) (rightSound : right.IsSound) :
    List.Forall₂ (Move.Paired (PairedStates paired left right))
      (left.moves state).1 (right.moves other).1 := by
  obtain ⟨arrival, arrives, isLeft⟩ := leftSound.exists_arrival states.isState
  obtain ⟨otherArrival, otherArrives, isRight⟩ :=
    rightSound.exists_arrival states.isOther
  rw [isLeft, isRight, ← states.alphabet_eq pairing]
  apply Move.forall₂_group (biUnique pairing.oneToOne)
  rw [List.forall₂_map_left_iff, List.forall₂_map_right_iff, List.forall₂_same]
  intro code inCodes
  exact ⟨rfl, states.of_follows pairing leftSound rightSound
    (CodeSet.mem_toList.mp inCodes) (arrives code) (otherArrives code)⟩

theorem exists_item {item : ι}
    (isItem : ∃ node ∈ state, left.automaton.item? node = some item) :
    ∃ node ∈ other, right.automaton.item? node = some item := by
  obtain ⟨node, inState, hasItem⟩ := isItem
  obtain ⟨counterpart, inOther, isPair⟩ := states.isPair.1 node inState
  exact ⟨counterpart, inOther, (pairing.item?_eq isPair).symm.trans hasItem⟩

theorem item?_eq [LE ι] [DecidableLE ι] [Std.IsLinearOrder ι] :
    left.item? state = right.item? other := by
  apply (left.item?_isSmallest state).unique
  apply (right.item?_isSmallest other).congr
  intro item
  exact ⟨states.flip.exists_item pairing.symm, states.exists_item pairing⟩

end Pairing

end PairedStates

/-- A pairing of nodes keeps the powersets of two automata in lockstep. -/
theorem inLockstep [LE ι] [DecidableLE ι] [Std.IsLinearOrder ι]
    (pairing : Automaton.Pairing paired left.automaton right.automaton)
    (leftSound : left.IsSound) (rightSound : right.IsSound) :
    InLockstep (PairedStates paired left right) left right where
  oneToOne := PairedStates.biUnique pairing.oneToOne
  isState := fun states => ⟨states.isState, states.isOther⟩
  start := by
    intro start other closes otherCloses
    obtain ⟨_, isClosed, isState, inStart⟩ := leftSound.exists_start
    obtain ⟨_, otherIsClosed, isOther, inOther⟩ := rightSound.exists_start
    rw [closes] at isClosed
    rw [otherCloses] at otherIsClosed
    cases isClosed
    cases otherIsClosed
    refine ⟨isState, isOther, ?_, ?_⟩
    · intro node inState
      obtain ⟨counterpart, path, isPair⟩ :=
        pairing.exists_reads ((inStart node).mp inState) pairing.start
      exact ⟨counterpart, (inOther counterpart).mpr path, isPair⟩
    · intro node isMember
      obtain ⟨counterpart, path, isPair⟩ :=
        pairing.symm.exists_reads ((inOther node).mp isMember) pairing.symm.start
      exact ⟨counterpart, (inStart counterpart).mpr path, isPair⟩
  moves := fun states => states.moves pairing leftSound rightSound
  item?_eq := fun states => states.item?_eq pairing

end Powerset

namespace Automaton

variable {ι : Type} {left right : Automaton ι}

theorem PresentsSameGraph.pairing {number : Nat → Nat} (leftClosed : left.IsClosed)
    (same : PresentsSameGraph number left right) :
    Pairing (fun node other => node < left.nodes.length ∧ other = number node)
      left right := by
  constructor
  · constructor
    · intro node other counterpart isNode isOther
      exact same.bijective.injOn isNode.1 isOther.1 (isNode.2.symm.trans isOther.2)
    · intro node counterpart other isNode isOther
      rw [isNode.2, isOther.2]
  · exact ⟨leftClosed.start_lt, same.start_eq⟩
  · intro node other transition isPair leaves
    obtain ⟨bound, isNumber⟩ := isPair
    refine ⟨transition.renumber number, ?_, rfl,
      leftClosed.target_lt_of_leaves leaves, rfl⟩
    rw [isNumber]
    exact (same.leaves_iff node bound _).mpr ⟨transition, leaves, rfl⟩
  · intro node other transition isPair leaves
    obtain ⟨bound, isNumber⟩ := isPair
    rw [isNumber] at leaves
    obtain ⟨original, originalLeaves, isTransition⟩ :=
      (same.leaves_iff node bound transition).mp leaves
    subst isTransition
    exact ⟨original, originalLeaves, rfl,
      leftClosed.target_lt_of_leaves originalLeaves, rfl⟩
  · intro node other isPair
    rw [isPair.2, same.item?_eq node isPair.1]

variable [LE ι] [DecidableLE ι] [Std.IsLinearOrder ι]

theorem Pairing.determinize_eq {paired : Nat → Nat → Prop}
    (pairing : Pairing paired left right) (leftClosed : left.IsClosed)
    (rightClosed : right.IsClosed) (order : VisitOrder) :
    ∃ deterministic, left.determinize order = .ok deterministic ∧
      right.determinize order = .ok deterministic := by
  obtain ⟨powerset, isLeft, leftSound, onLeft⟩ := leftClosed.exists_powerset
  obtain ⟨other, isRight, rightSound, onRight⟩ := rightClosed.exists_powerset
  subst isLeft
  subst isRight
  have lockstep := Powerset.inLockstep pairing leftSound rightSound
  have found := lockstep.found_explore leftSound rightSound order
  refine ⟨_, onLeft order, ?_⟩
  rw [lockstep.toAutomaton_eq found]
  exact onRight order

/-- Determinizing sees the labelled graph of a closed automaton and nothing of how
it is presented: automata of the same graph become the same deterministic
automaton. -/
theorem determinize_eq_of_presentsSameGraph {number : Nat → Nat}
    (leftClosed : left.IsClosed) (rightClosed : right.IsClosed)
    (same : PresentsSameGraph number left right) (order : VisitOrder) :
    ∃ deterministic, left.determinize order = .ok deterministic ∧
      right.determinize order = .ok deterministic :=
  (same.pairing leftClosed).determinize_eq leftClosed rightClosed order

/-- An automaton with a loop and its nodes turned round by one, with other names,
another order and other repetitions, and an item of a node that does not exist. -/
theorem turned_loop_determinize_eq :
    let left : Automaton Nat :=
      { start := 0
        items := .ofList [(1, 5), (2, 3)]
        nodes :=
          [⟨0, [⟨.singleton 97, 1⟩, ⟨.singleton 97, 1⟩, ⟨∅, 2⟩]⟩,
            ⟨1, [⟨.range 97 98, 2⟩, ⟨∅, 0⟩]⟩, ⟨2, [⟨.singleton 99, 0⟩]⟩] }
    let right : Automaton Nat :=
      { start := 1
        items := .ofList [(0, 3), (2, 5), (9, 1)]
        nodes :=
          [⟨7, [⟨.singleton 99, 1⟩]⟩, ⟨7, [⟨∅, 0⟩, ⟨.singleton 97, 2⟩]⟩,
            ⟨0, [⟨∅, 1⟩, ⟨.range 97 98, 0⟩, ⟨.range 97 98, 0⟩]⟩] }
    left.IsClosed ∧ right.IsClosed ∧
      PresentsSameGraph (fun place => (place + 1) % 3) left right ∧
      ∃ deterministic, left.determinize .depthFirst = .ok deterministic ∧
        right.determinize .depthFirst = .ok deterministic := by
  intro left right
  have leftClosed : left.IsClosed := ⟨by decide, by decide⟩
  have rightClosed : right.IsClosed := ⟨by decide, by decide⟩
  have same : PresentsSameGraph (fun place => (place + 1) % 3) left right := by
    have cases_lt {place : Nat} (bound : place < left.nodes.length) :
        place = 0 ∨ place = 1 ∨ place = 2 := by
      have isThree : left.nodes.length = 3 := rfl
      omega
    refine ⟨⟨?_, ?_, ?_⟩, rfl, ?_, ?_⟩
    · intro place bound
      exact Nat.mod_lt _ (by decide)
    · intro first firstBound second secondBound equal
      have isFirst := cases_lt firstBound
      have isSecond := cases_lt secondBound
      simp only at equal
      omega
    · intro place bound
      refine ⟨(place + 2) % 3, Nat.mod_lt _ (by decide), ?_⟩
      have isPlace := cases_lt bound
      simp only
      omega
    · intro place bound transition
      obtain isPlace | isPlace | isPlace := cases_lt bound
      · subst isPlace
        simp +contextual [Leaves, left, right, Transition.renumber, eq_comm, or_comm]
      · subst isPlace
        simp +contextual [Leaves, left, right, Transition.renumber, eq_comm, or_comm]
      · subst isPlace
        simp [Leaves, left, right, Transition.renumber, eq_comm]
    · intro place bound
      obtain isPlace | isPlace | isPlace := cases_lt bound
      · subst isPlace
        rfl
      · subst isPlace
        rfl
      · subst isPlace
        rfl
  exact ⟨leftClosed, rightClosed, same,
    determinize_eq_of_presentsSameGraph leftClosed rightClosed same .depthFirst⟩

end Automaton

end LexGen
