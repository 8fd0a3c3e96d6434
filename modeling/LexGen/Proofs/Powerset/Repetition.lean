import LexGen.Proofs.Powerset.Lockstep
import LexGen.Proofs.Powerset.Shape

/-!
# Determinizing once is enough

The states of a deterministic automaton are its nodes, each of them alone.  They
are paired with the states that the nodes stand for, by number, and moves and items
are the same on both sides.  A second determinization therefore finds what the
automaton that was given first finds in the same visit order, and the order of the
first determinization leaves no trace.
-/

namespace LexGen

namespace Powerset

variable {ι : Type} [LE ι] [DecidableLE ι] {powerset : Powerset ι}
  {states : List NodeSet}

omit [LE ι] [DecidableLE ι] in
theorem Follows.unique {state later other : NodeSet} {word : List Int}
    (follows : powerset.Follows state word later)
    (otherFollows : powerset.Follows state word other) : later = other :=
  NodeSet.ext fun node => (follows node).trans (otherFollows node).symm

theorem number_unique (distinct : states.Nodup) {number other : Nat}
    {state : NodeSet} (isNumber : states[number]? = some state)
    (isOther : states[other]? = some state) : number = other :=
  (List.getElem?_inj (List.getElem?_eq_some_iff.mp isNumber).1 distinct).mp
    (isNumber.trans isOther.symm)

theorem HasStates.toAutomaton_isDeterministic
    (hasStates : powerset.HasStates states) (sound : powerset.IsSound) :
    (powerset.toAutomaton states).isDeterministic = true := by
  apply Automaton.isDeterministic_iff.mpr
  intro node isNode
  obtain ⟨number, bound, isState⟩ := List.mem_mapIdx.mp isNode
  have inStates : ∀ move ∈ (powerset.moves states[number]).1, move.target ∈ states := by
    intro move isMove
    exact hasStates.target_mem sound (List.getElem_mem bound) isMove
  have orderly := transitionsAmong_isOrderly inStates number
  rw [← isState]
  exact ⟨orderly.consumes, orderly.apart⟩

theorem HasStates.reads_toAutomaton_iff (hasStates : powerset.HasStates states)
    (sound : powerset.IsSound) (distinct : states.Nodup) {number last : Nat}
    {state : NodeSet} (isNumber : states[number]? = some state) {word : List Int} :
    (powerset.toAutomaton states).Reads number word last ↔
      ∃ later, states[last]? = some later ∧ powerset.Follows state word later := by
  rw [Automaton.reads_iff_advanceAll (hasStates.toAutomaton_isDeterministic sound)]
  obtain ⟨position, isPosition, tracks⟩ :=
    hasStates.advanceAll_tracks sound isNumber word
  rw [isPosition]
  constructor
  · intro arrives
    cases arrives
    exact tracks
  · intro leadsOn
    obtain ⟨later, isLast, follows⟩ := leadsOn
    have isState := hasStates.isState later (List.mem_of_getElem? isLast)
    cases position with
    | none =>
        obtain ⟨node, inLater⟩ := isState.nonempty
        exact absurd ((follows node).mp inLater) (tracks node)
    | some place =>
        obtain ⟨other, isOther, otherFollows⟩ := tracks
        rw [otherFollows.unique follows] at isOther
        rw [number_unique distinct isOther isLast]

omit [LE ι] [DecidableLE ι] in
theorem HasStates.exists_later (hasStates : powerset.HasStates states)
    (sound : powerset.IsSound) {state : NodeSet} (inStates : state ∈ states)
    {code : Int} (takes : code ∈ alphabet (powerset.transitionsOf state)) :
    ∃ later ∈ states, powerset.Follows state [code] later := by
  have isState := hasStates.isState state inStates
  have hasMoves := sound.hasMoves isState
  obtain ⟨node, inState, target, path⟩ := isState.mem_alphabet_iff.mp takes
  obtain ⟨later, follows⟩ := hasMoves.exists_follows code
  have inLater : target ∈ later := (follows target).mpr ⟨node, inState, path⟩
  have leads := (hasMoves.leads_iff code later).mpr ⟨⟨target, inLater⟩, follows⟩
  exact ⟨later, hasStates.mem_of_leads state inStates code later leads, follows⟩

/-- The first set holds the number of the second one and nothing else. -/
def Numbers (states : List NodeSet) (single state : NodeSet) : Prop :=
  ∃ number, single = .singleton number ∧ states[number]? = some state

theorem numbers_biUnique (distinct : states.Nodup) :
    Relator.BiUnique (Numbers states) := by
  constructor
  · intro single other state here there
    obtain ⟨number, isSingle, isNumber⟩ := here
    obtain ⟨place, isOther, isPlace⟩ := there
    rw [isSingle, isOther, number_unique distinct isNumber isPlace]
  · intro single state other here there
    obtain ⟨number, isSingle, isNumber⟩ := here
    obtain ⟨place, sameSingle, isPlace⟩ := there
    have same : number = place := by
      apply NodeSet.mem_singleton.mp
      rw [← sameSingle, isSingle]
      exact NodeSet.mem_singleton.mpr rfl
    rw [same, isPlace] at isNumber
    exact (Option.some.inj isNumber).symm

section Repeated

variable {repeated : Powerset ι} (hasStates : powerset.HasStates states)
  (sound : powerset.IsSound) (distinct : states.Nodup)
  (isRepeated : repeated.automaton = powerset.toAutomaton states)
  {number : Nat} {state : NodeSet} (isNumber : states[number]? = some state)

include hasStates sound isRepeated isNumber

theorem isState_singleton : repeated.IsState (.singleton number) := by
  constructor
  · exact ⟨number, NodeSet.mem_singleton.mpr rfl⟩
  · intro node isNode
    rw [NodeSet.mem_singleton.mp isNode, isRepeated, length_nodes_toAutomaton]
    exact (List.getElem?_eq_some_iff.mp isNumber).1
  · intro node isNode target path
    rw [isRepeated] at path
    rw [Automaton.eq_of_reads_nil (hasStates.toAutomaton_isDeterministic sound) path]
    exact isNode

include distinct

/-- What a word leads to from a node of the deterministic automaton is the number of
what it leads to from the state that the node stands for. -/
theorem follows_singleton {word : List Int} {single later : NodeSet}
    (onNumbers : repeated.Follows (.singleton number) word single)
    (onStates : powerset.Follows state word later) (isFound : later ∈ states) :
    Numbers states single later := by
  obtain ⟨last, isLast⟩ := List.mem_iff_getElem?.mp isFound
  refine ⟨last, NodeSet.ext ?_, isLast⟩
  intro target
  have fromNumber : target ∈ single ↔
      (powerset.toAutomaton states).Reads number word target := by
    rw [onNumbers target, isRepeated]
    constructor
    · intro isReached
      obtain ⟨node, isNode, path⟩ := isReached
      rw [NodeSet.mem_singleton.mp isNode] at path
      exact path
    · intro path
      exact ⟨number, NodeSet.mem_singleton.mpr rfl, path⟩
  rw [fromNumber, hasStates.reads_toAutomaton_iff sound distinct isNumber,
    NodeSet.mem_singleton]
  constructor
  · intro leadsOn
    obtain ⟨other, isOther, follows⟩ := leadsOn
    rw [follows.unique onStates] at isOther
    exact number_unique distinct isOther isLast
  · intro isTarget
    rw [isTarget]
    exact ⟨later, isLast, onStates⟩

theorem alphabet_singleton :
    alphabet (repeated.transitionsOf (.singleton number)) =
      alphabet (powerset.transitionsOf state) := by
  have inStates := List.mem_of_getElem? isNumber
  have isState := hasStates.isState state inStates
  have isSingle := isState_singleton hasStates sound isRepeated isNumber
  apply CodeSet.ext
  intro code
  constructor
  · intro takes
    obtain ⟨node, isNode, last, path⟩ := isSingle.mem_alphabet_iff.mp takes
    rw [NodeSet.mem_singleton.mp isNode, isRepeated,
      hasStates.reads_toAutomaton_iff sound distinct isNumber] at path
    obtain ⟨later, isLast, follows⟩ := path
    have isLater := hasStates.isState later (List.mem_of_getElem? isLast)
    obtain ⟨target, inLater⟩ := isLater.nonempty
    obtain ⟨source, inState, reads⟩ := (follows target).mp inLater
    exact isState.mem_alphabet_iff.mpr ⟨source, inState, target, reads⟩
  · intro takes
    obtain ⟨later, isFound, follows⟩ := hasStates.exists_later sound inStates takes
    obtain ⟨last, isLast⟩ := List.mem_iff_getElem?.mp isFound
    have path := (hasStates.reads_toAutomaton_iff sound distinct isNumber).mpr
      ⟨later, isLast, follows⟩
    rw [← isRepeated] at path
    exact isSingle.mem_alphabet_iff.mpr
      ⟨number, NodeSet.mem_singleton.mpr rfl, last, path⟩

theorem moves_singleton (repeatedSound : repeated.IsSound) :
    List.Forall₂ (Move.Paired (Numbers states))
      (repeated.moves (.singleton number)).1 (powerset.moves state).1 := by
  have inStates := List.mem_of_getElem? isNumber
  obtain ⟨arrival, arrives, onNumbers⟩ := repeatedSound.exists_arrival
    (isState_singleton hasStates sound isRepeated isNumber)
  obtain ⟨otherArrival, otherArrives, onStates⟩ :=
    sound.exists_arrival (hasStates.isState state inStates)
  rw [onNumbers, onStates,
    alphabet_singleton hasStates sound distinct isRepeated isNumber]
  apply Move.forall₂_group (numbers_biUnique distinct)
  rw [List.forall₂_map_left_iff, List.forall₂_map_right_iff, List.forall₂_same]
  intro code inCodes
  obtain ⟨later, isFound, follows⟩ :=
    hasStates.exists_later sound inStates (CodeSet.mem_toList.mp inCodes)
  have isLater : otherArrival code = later := (otherArrives code).unique follows
  refine ⟨rfl, ?_⟩
  exact follows_singleton hasStates sound distinct isRepeated isNumber
    (arrives code) (otherArrives code) (isLater ▸ isFound)

omit hasStates sound distinct in
theorem item?_singleton :
    repeated.item? (.singleton number) = powerset.item? state := by
  have alone : repeated.item? (.singleton number) = repeated.automaton.item? number := by
    simp only [item?, NodeSet.singleton, List.filterMap_cons, List.filterMap_nil]
    cases repeated.automaton.item? number with
    | none => rfl
    | some item => rfl
  rw [alone, isRepeated, item?_toAutomaton isNumber]

end Repeated

/-- The powerset of the deterministic automaton keeps step with the powerset that it
comes from. -/
theorem HasStates.inLockstep (hasStates : powerset.HasStates states)
    (sound : powerset.IsSound) (distinct : states.Nodup) {repeated : Powerset ι}
    (isRepeated : repeated.automaton = powerset.toAutomaton states)
    (repeatedSound : repeated.IsSound) :
    InLockstep (Numbers states) repeated powerset where
  oneToOne := numbers_biUnique distinct
  isState := by
    intro single state isPair
    obtain ⟨number, isSingle, isNumber⟩ := isPair
    rw [isSingle]
    exact ⟨isState_singleton hasStates sound isRepeated isNumber,
      hasStates.isState state (List.mem_of_getElem? isNumber)⟩
  start := by
    intro single start closes otherCloses
    obtain ⟨_, isClosed, _, inSingle⟩ := repeatedSound.exists_start
    obtain ⟨_, otherIsClosed, isStart, inStart⟩ := sound.exists_start
    rw [closes] at isClosed
    rw [otherCloses] at otherIsClosed
    cases isClosed
    cases otherIsClosed
    obtain ⟨first, isFirst, inFirst⟩ := hasStates.start_follows
    have same : first = start :=
      NodeSet.ext fun node => (inFirst node).trans (inStart node).symm
    rw [same] at isFirst
    refine ⟨0, NodeSet.ext ?_, isFirst⟩
    intro node
    have startZero : repeated.automaton.start = 0 := by
      rw [isRepeated]
      rfl
    have isSingle := isState_singleton hasStates sound isRepeated isFirst
    rw [inSingle node, startZero]
    constructor
    · intro path
      exact isSingle.closed 0 (NodeSet.mem_singleton.mpr rfl) node path
    · intro isNode
      rw [NodeSet.mem_singleton.mp isNode]
      exact .stay 0
  moves := by
    intro single state isPair
    obtain ⟨number, isSingle, isNumber⟩ := isPair
    rw [isSingle]
    exact moves_singleton hasStates sound distinct isRepeated isNumber repeatedSound
  item?_eq := by
    intro single state isPair
    obtain ⟨number, isSingle, isNumber⟩ := isPair
    rw [isSingle]
    exact item?_singleton isRepeated isNumber

end Powerset

namespace Automaton

variable {ι : Type} [LE ι] [DecidableLE ι] {automaton : Automaton ι}

/-- Determinizing a deterministic automaton again gives what the second visit order
gives at once, whatever the first one was. -/
theorem determinize_determinize (closed : automaton.IsClosed)
    (order further : VisitOrder) :
    ∃ once twice, automaton.determinize order = .ok once ∧
      once.determinize further = .ok twice ∧
      automaton.determinize further = .ok twice := by
  obtain ⟨powerset, isAutomaton, sound, isDeterminized⟩ := closed.exists_powerset
  have hasStates := (sound.hasStates order).2
  obtain ⟨repeated, isRepeated, repeatedSound, isRedeterminized⟩ :=
    (hasStates.toAutomaton_isClosed sound).exists_powerset
  have lockstep := hasStates.inLockstep sound (sound.found_nodup order) isRepeated
    repeatedSound
  have found := lockstep.found_explore repeatedSound sound further
  refine ⟨_, _, isDeterminized order, isRedeterminized further, ?_⟩
  rw [isDeterminized further, lockstep.toAutomaton_eq found]

/-- An automaton that the two visit orders number differently. -/
theorem branches_determinize_determinize :
    let automaton : Automaton Nat :=
      { start := 2
        items := .ofList [(0, 4), (1, 6), (3, 2)]
        nodes :=
          [⟨0, [⟨.singleton 97, 0⟩]⟩, ⟨1, [⟨.singleton 97, 3⟩, ⟨∅, 0⟩]⟩,
            ⟨2, [⟨.range 98 99, 0⟩, ⟨.singleton 97, 1⟩, ⟨∅, 2⟩]⟩,
            ⟨3, [⟨.singleton (-1), 2⟩]⟩] }
    automaton.IsClosed ∧
      ∃ once twice, automaton.determinize .depthFirst = .ok once ∧
        once.determinize .breadthFirst = .ok twice ∧
        automaton.determinize .breadthFirst = .ok twice := by
  intro automaton
  have closed : automaton.IsClosed := ⟨by decide, by decide⟩
  exact ⟨closed, determinize_determinize closed .depthFirst .breadthFirst⟩

end Automaton

end LexGen
