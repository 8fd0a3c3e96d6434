import LexGen.Proofs.Matching
import LexGen.Proofs.Powerset.Construction

/-!
# Determinizing keeps what an automaton reads

The nodes of the deterministic automaton stand for the states that can be reached
from the start.  A matcher on it that has consumed a word stands at the state of
the nodes that the word leads to, and is stuck exactly if there are none.
-/

namespace LexGen

namespace Powerset

variable {ι : Type} {powerset : Powerset ι}

theorem HasMoves.neighbour_iff {state target : NodeSet}
    (hasMoves : powerset.HasMoves state) :
    Exploration.Neighbour powerset.neighbours state target ↔
      ∃ code, Move.Leads (powerset.moves state).1 code target := by
  have unfolded : Exploration.Neighbour powerset.neighbours state target ↔
      target ∈ (powerset.moves state).1.map Move.target := Iff.rfl
  rw [unfolded, List.mem_map]
  constructor
  · rintro ⟨move, member, isTarget⟩
    obtain ⟨code, takes⟩ := hasMoves.inhabited move member
    exact ⟨code, move, member, takes, isTarget⟩
  · rintro ⟨_, move, member, _, isTarget⟩
    exact ⟨move, member, isTarget⟩

theorem IsSound.isState_of_reaches (sound : powerset.IsSound)
    {start state : NodeSet} (isStart : powerset.IsState start)
    (reaches : Exploration.Reaches powerset.neighbours start state) :
    powerset.IsState state := by
  induction reaches with
  | refl => exact isStart
  | tail _ isNeighbour isState =>
      have hasMoves := sound.hasMoves isState
      obtain ⟨code, leads⟩ := hasMoves.neighbour_iff.mp isNeighbour
      obtain ⟨nonempty, follows⟩ := (hasMoves.leads_iff code _).mp leads
      exact isState.of_follows sound nonempty follows

theorem IsSound.exists_start (sound : powerset.IsSound) :
    ∃ start, powerset.close [powerset.automaton.start] = .ok start ∧
      powerset.IsState start ∧
      ∀ node, node ∈ start ↔
        powerset.automaton.Reads powerset.automaton.start [] node := by
  have startBounded : ∀ node ∈ [powerset.automaton.start],
      node < powerset.automaton.nodes.length := by
    simpa using sound.isClosed.start_lt
  obtain ⟨start, closes, inStart⟩ := sound.close_eq_ok startBounded
  have inStart : ∀ node, node ∈ start ↔
      powerset.automaton.Reads powerset.automaton.start [] node := by
    simpa using inStart
  refine ⟨start, closes, ⟨⟨_, (inStart _).mpr (.stay _)⟩, ?_, ?_⟩, inStart⟩
  · intro node member
    exact sound.isClosed.last_lt ((inStart node).mp member)
      sound.isClosed.start_lt
  · intro node member target free
    exact (inStart target).mpr (((inStart node).mp member).append free)

theorem explore_eq_run {start : NodeSet}
    (closes : powerset.close [powerset.automaton.start] = .ok start)
    (order : VisitOrder) :
    powerset.explore order =
      Exploration.run order powerset.neighbours
        (Nat.pow 2 powerset.rows.length) (.startingAt start) := by
  rw [explore, closes]

/-- The visits allowed are enough: they leave no state pending. -/
theorem IsSound.run_isComplete (sound : powerset.IsSound) {start : NodeSet}
    (isStart : powerset.IsState start) (order : VisitOrder) :
    let exploration := Exploration.run order powerset.neighbours
      (Nat.pow 2 powerset.rows.length) (.startingAt start)
    exploration.pending = [] ∧
      Exploration.IsComplete powerset.neighbours start exploration := by
  have inBelow : ∀ state, Exploration.Reaches powerset.neighbours start state →
      state ∈ NodeSet.below powerset.rows.length := by
    intro state reaches
    apply NodeSet.mem_below
    rw [sound.length_rows]
    exact (sound.isState_of_reaches isStart reaches).bounded
  apply Exploration.run_startingAt order inBelow
  · intro state reaches
    exact (sound.hasMoves
      (sound.isState_of_reaches isStart reaches)).failure_eq_none
  · exact Nat.le_of_eq (NodeSet.length_below _)

theorem IsSound.explore_isComplete (sound : powerset.IsSound)
    (order : VisitOrder) :
    ∃ start, powerset.IsState start ∧
      (∀ node, node ∈ start ↔
        powerset.automaton.Reads powerset.automaton.start [] node) ∧
      Exploration.IsComplete powerset.neighbours start
        (powerset.explore order) := by
  obtain ⟨start, closes, isStart, inStart⟩ := sound.exists_start
  refine ⟨start, isStart, inStart, ?_⟩
  rw [explore_eq_run closes]
  exact (sound.run_isComplete isStart order).2

theorem IsSound.explore_pending (sound : powerset.IsSound) (order : VisitOrder) :
    (powerset.explore order).pending = [] := by
  obtain ⟨start, closes, isStart, _⟩ := sound.exists_start
  rw [explore_eq_run closes]
  exact (sound.run_isComplete isStart order).1

theorem IsSound.found_nodup (sound : powerset.IsSound) (order : VisitOrder) :
    (powerset.explore order).found.Nodup := by
  obtain ⟨_, _, _, complete⟩ := sound.explore_isComplete order
  exact complete.found_nodup

/-- The list holds the states that can be reached from the closure of the start
node, which comes first. -/
structure HasStates (powerset : Powerset ι) (states : List NodeSet) : Prop where
  start_follows : ∃ start, states[0]? = some start ∧
    ∀ node, node ∈ start ↔
      powerset.automaton.Reads powerset.automaton.start [] node
  isState : ∀ state ∈ states, powerset.IsState state
  mem_of_leads : ∀ state ∈ states, ∀ code target,
    Move.Leads (powerset.moves state).1 code target → target ∈ states

theorem IsSound.hasStates (sound : powerset.IsSound) (order : VisitOrder) :
    (powerset.explore order).failure = none ∧
      powerset.HasStates (powerset.explore order).found := by
  obtain ⟨start, isStart, inStart, complete⟩ := sound.explore_isComplete order
  have isState : ∀ state ∈ (powerset.explore order).found,
      powerset.IsState state := by
    intro state isFound
    exact sound.isState_of_reaches isStart
      ((complete.mem_found_iff state).mp isFound)
  refine ⟨complete.failure_eq_none, ⟨start, ?_, inStart⟩, isState, ?_⟩
  · rw [← List.head?_eq_getElem?]
    exact complete.head_found
  · intro state isFound code target leads
    have isNeighbour :=
      (sound.hasMoves (isState state isFound)).neighbour_iff.mpr ⟨code, leads⟩
    have reaches := (complete.mem_found_iff state).mp isFound
    exact (complete.mem_found_iff target).mpr (reaches.tail isNeighbour)

theorem HasStates.target_mem {states : List NodeSet}
    (hasStates : powerset.HasStates states) (sound : powerset.IsSound)
    {state : NodeSet} (inStates : state ∈ states) {move : Move}
    (isMove : move ∈ (powerset.moves state).1) : move.target ∈ states := by
  have hasMoves := sound.hasMoves (hasStates.isState state inStates)
  obtain ⟨code, takes⟩ := hasMoves.inhabited move isMove
  exact hasStates.mem_of_leads state inStates code move.target
    ⟨move, isMove, takes, rfl⟩

/-- What a matcher that began at a state stands at after a word: the number of
the state that the word leads to, or nothing if the word leads nowhere. -/
def Tracks (powerset : Powerset ι) (states : List NodeSet) (state : NodeSet)
    (word : List Int) : Position → Prop
  | some number => ∃ later, states[number]? = some later ∧
      powerset.Follows state word later
  | none => ∀ target, ¬ ∃ node ∈ state, powerset.automaton.Reads node word target

theorem follows_cons {state middle later : NodeSet} {code : Int}
    {word : List Int} (first : powerset.Follows state [code] middle)
    (further : powerset.Follows middle word later) :
    powerset.Follows state (code :: word) later := by
  intro target
  rw [further target]
  constructor
  · rintro ⟨node, inMiddle, path⟩
    obtain ⟨source, inState, step⟩ := (first node).mp inMiddle
    exact ⟨source, inState, step.append path⟩
  · rintro ⟨source, inState, path⟩
    obtain ⟨node, step, rest⟩ := Automaton.reads_singleton_append_iff.mp path
    exact ⟨node, (first node).mpr ⟨source, inState, step⟩, rest⟩

section Matcher

variable [LE ι] [DecidableLE ι]

theorem HasStates.step_tracks {states : List NodeSet}
    (hasStates : powerset.HasStates states) (sound : powerset.IsSound)
    {number : Nat} {state : NodeSet} (isNumber : states[number]? = some state)
    (code : Int) :
    ∃ position, (powerset.toAutomaton states).step number code = .ok position ∧
      powerset.Tracks states state [code] position := by
  have inStates : state ∈ states := List.mem_of_getElem? isNumber
  have hasMoves := sound.hasMoves (hasStates.isState state inStates)
  let node : Node := ⟨number, powerset.transitionsAmong states state⟩
  have isNode : (powerset.toAutomaton states).node number = .ok node := by
    rw [Automaton.node, toAutomaton, List.getElem?_mapIdx, isNumber]
    rfl
  have isStep : (powerset.toAutomaton states).step number code =
      .ok (node.target? code) := by
    rw [Automaton.step, isNode]
    rfl
  refine ⟨node.target? code, isStep, ?_⟩
  rcases Move.target?_map (powerset.moves state).1 states.idxOf number code with
    ⟨target, leads, found⟩ | ⟨nowhere, notFound⟩
  · have isTarget : node.target? code = some (states.idxOf target) := found
    have targetInStates :=
      hasStates.mem_of_leads state inStates code target leads
    rw [isTarget]
    exact ⟨target, List.getElem?_idxOf targetInStates,
      ((hasMoves.leads_iff code target).mp leads).2⟩
  · have isStuck : node.target? code = none := notFound
    rw [isStuck]
    intro target path
    obtain ⟨later, follows⟩ := hasMoves.exists_follows code
    have nonempty : ∃ node, node ∈ later := ⟨target, (follows target).mpr path⟩
    exact nowhere later ((hasMoves.leads_iff code later).mpr ⟨nonempty, follows⟩)

/-- A matcher on the deterministic automaton tracks the states of the powerset
through every word. -/
theorem HasStates.advanceAll_tracks {states : List NodeSet}
    (hasStates : powerset.HasStates states) (sound : powerset.IsSound)
    {number : Nat} {state : NodeSet} (isNumber : states[number]? = some state)
    (word : List Int) :
    ∃ position,
      (powerset.toAutomaton states).advanceAll (some number) word =
        .ok position ∧
      powerset.Tracks states state word position := by
  induction word generalizing number state with
  | nil =>
      have isState := hasStates.isState state (List.mem_of_getElem? isNumber)
      refine ⟨some number, rfl, state, isNumber, fun target => ?_⟩
      constructor
      · intro inState
        exact ⟨target, inState, .stay target⟩
      · rintro ⟨node, inState, free⟩
        exact isState.closed node inState target free
  | cons code word induction =>
      obtain ⟨middle, isStep, tracksStep⟩ :=
        hasStates.step_tracks sound isNumber code
      have isAdvance : (powerset.toAutomaton states).advanceAll (some number)
          (code :: word) =
          (powerset.toAutomaton states).advanceAll middle word := by
        rw [Automaton.advanceAll, Automaton.advance, isStep]
        rfl
      rw [isAdvance]
      cases middle with
      | none =>
          refine ⟨none, Automaton.advanceAll_none _ word, fun target path => ?_⟩
          obtain ⟨node, inState, reads⟩ := path
          obtain ⟨first, step, _⟩ :=
            Automaton.reads_singleton_append_iff.mp reads
          exact tracksStep first ⟨node, inState, step⟩
      | some next =>
          obtain ⟨later, isLater, follows⟩ := tracksStep
          obtain ⟨position, isPosition, tracks⟩ := induction isLater
          refine ⟨position, isPosition, ?_⟩
          cases position with
          | none =>
              rintro target ⟨node, inState, reads⟩
              obtain ⟨first, step, rest⟩ :=
                Automaton.reads_singleton_append_iff.mp reads
              have inLater := (follows first).mpr ⟨node, inState, step⟩
              exact tracks target ⟨first, inLater, rest⟩
          | some last =>
              obtain ⟨final, isFinal, further⟩ := tracks
              exact ⟨final, isFinal, follows_cons follows further⟩

def entryOf (powerset : Powerset ι) (numbered : NodeSet × Nat) :
    Option (Nat × ι) :=
  (powerset.item? numbered.1).map fun item => (numbered.2, item)

theorem itemsOf_eq_ofList (powerset : Powerset ι) (states : List NodeSet) :
    powerset.itemsOf states =
      .ofList (states.zipIdx.filterMap powerset.entryOf) :=
  rfl

theorem item?_toAutomaton_eq_some_iff {states : List NodeSet} {number : Nat}
    {item : ι} :
    (powerset.toAutomaton states).item? number = some item ↔
      ∃ state, states[number]? = some state ∧ powerset.item? state = some item := by
  have numbered : (states.zipIdx.map Prod.snd).Nodup := by
    rw [List.zipIdx_map_snd]
    exact List.nodup_range'
  have distinct :
      ((states.zipIdx.filterMap powerset.entryOf).map Prod.fst).Nodup := by
    apply List.pairwise_map.mpr
    apply List.pairwise_filterMap.mpr
    apply (List.pairwise_map.mp numbered).imp
    intro earlier later different first isFirst second isSecond
    obtain ⟨_, _, rfl⟩ := Option.map_eq_some_iff.mp isFirst
    obtain ⟨_, _, rfl⟩ := Option.map_eq_some_iff.mp isSecond
    exact different
  have isEntry : (powerset.toAutomaton states).item? number = some item ↔
      (number, item) ∈ states.zipIdx.filterMap powerset.entryOf := by
    rw [← Table.get?_ofList distinct, ← itemsOf_eq_ofList]
    exact Iff.rfl
  rw [isEntry, List.mem_filterMap]
  constructor
  · intro isPair
    obtain ⟨⟨state, index⟩, member, isPair⟩ := isPair
    obtain ⟨found, isItem, same⟩ := Option.map_eq_some_iff.mp isPair
    cases same
    exact ⟨state, List.mk_mem_zipIdx_iff_getElem?.mp member, isItem⟩
  · intro isNumbered
    obtain ⟨state, isNumber, isItem⟩ := isNumbered
    refine ⟨(state, number), List.mk_mem_zipIdx_iff_getElem?.mpr isNumber, ?_⟩
    exact Option.map_eq_some_iff.mpr ⟨item, isItem, rfl⟩

theorem item?_toAutomaton {states : List NodeSet} {number : Nat}
    {state : NodeSet} (isNumber : states[number]? = some state) :
    (powerset.toAutomaton states).item? number = powerset.item? state := by
  apply Option.ext
  intro item
  simp [item?_toAutomaton_eq_some_iff, isNumber]

theorem item?_isSmallest [Std.IsLinearOrder ι] (powerset : Powerset ι)
    (state : NodeSet) :
    IsSmallest
      (fun item => ∃ node ∈ state, powerset.automaton.item? node = some item)
      (powerset.item? state) := by
  apply (least?_isSmallest _).congr
  intro item
  exact List.mem_filterMap

end Matcher

theorem toAutomaton_isClosed [LE ι] [DecidableLE ι] {states : List NodeSet}
    (hasStart : 0 < states.length)
    (inStates : ∀ state ∈ states, ∀ move ∈ (powerset.moves state).1,
      move.target ∈ states) : (powerset.toAutomaton states).IsClosed := by
  have length : (powerset.toAutomaton states).nodes.length = states.length :=
    List.length_mapIdx
  constructor
  · rw [length]
    exact hasStart
  · intro node member transition inNode
    obtain ⟨number, bound, rfl⟩ := List.mem_mapIdx.mp member
    obtain ⟨move, inMoves, rfl⟩ := List.mem_map.mp inNode
    have isTarget := inStates states[number] (List.getElem_mem bound) move inMoves
    rw [length]
    exact List.idxOf_lt_length_of_mem isTarget

theorem HasStates.toAutomaton_isClosed [LE ι] [DecidableLE ι]
    {states : List NodeSet} (hasStates : powerset.HasStates states)
    (sound : powerset.IsSound) : (powerset.toAutomaton states).IsClosed := by
  obtain ⟨start, isStart, _⟩ := hasStates.start_follows
  apply Powerset.toAutomaton_isClosed (List.getElem?_eq_some_iff.mp isStart).1
  intro state inStates move isMove
  exact hasStates.target_mem sound inStates isMove

end Powerset

namespace Automaton

variable {ι : Type} [LE ι] [DecidableLE ι] {automaton deterministic : Automaton ι}
  {order : VisitOrder}

omit [LE ι] [DecidableLE ι] in
theorem IsClosed.exists_ofAutomaton (closed : automaton.IsClosed) :
    ∃ powerset : Powerset ι, Powerset.ofAutomaton automaton = .ok powerset ∧
      powerset.automaton = automaton ∧ powerset.IsSound := by
  obtain ⟨rows, isRows, isClosure⟩ :=
    Closure.transitiveClosure_isClosureOf closed.freeRows_bounded
  refine ⟨⟨automaton, rows⟩, ?_, rfl, ⟨closed, isClosure⟩⟩
  rw [Powerset.ofAutomaton, isRows]
  rfl

theorem determinize_eq_toAutomaton {powerset : Powerset ι}
    (isPowerset : Powerset.ofAutomaton automaton = .ok powerset)
    (sound : powerset.IsSound) (order : VisitOrder) :
    automaton.determinize order =
      .ok (powerset.toAutomaton (powerset.explore order).found) := by
  exact determinize_eq_explored isPowerset (sound.hasStates order).1
    (sound.explore_pending order)

/-- Determinizing a closed automaton numbers the states that an exploration of its
powerset finds. -/
theorem IsClosed.exists_powerset (closed : automaton.IsClosed) :
    ∃ powerset : Powerset ι, powerset.automaton = automaton ∧ powerset.IsSound ∧
      ∀ order, automaton.determinize order =
        .ok (powerset.toAutomaton (powerset.explore order).found) := by
  obtain ⟨powerset, isPowerset, isAutomaton, sound⟩ := closed.exists_ofAutomaton
  exact ⟨powerset, isAutomaton, sound, determinize_eq_toAutomaton isPowerset sound⟩

theorem IsClosed.determinize_eq (closed : automaton.IsClosed)
    (order : VisitOrder) :
    ∃ (powerset : Powerset ι) (states : List NodeSet),
      powerset.automaton = automaton ∧ powerset.IsSound ∧
        powerset.HasStates states ∧
        automaton.determinize order = .ok (powerset.toAutomaton states) := by
  obtain ⟨powerset, isAutomaton, sound, isDeterminized⟩ := closed.exists_powerset
  exact ⟨powerset, _, isAutomaton, sound, (sound.hasStates order).2,
    isDeterminized order⟩

theorem IsClosed.determinize_isClosed (closed : automaton.IsClosed)
    (isDeterminized : automaton.determinize order = .ok deterministic) :
    deterministic.IsClosed := by
  obtain ⟨powerset, states, _, sound, hasStates, isAutomaton⟩ :=
    closed.determinize_eq order
  rw [isAutomaton] at isDeterminized
  cases isDeterminized
  exact hasStates.toAutomaton_isClosed sound

/-- After a word a matcher on the deterministic automaton stands at the state of
the nodes that the word leads to. -/
theorem IsClosed.determinize_tracks [Std.IsLinearOrder ι]
    (closed : automaton.IsClosed)
    (isDeterminized : automaton.determinize order = .ok deterministic)
    (word : List Int) :
    ∃ position,
      deterministic.advanceAll deterministic.initial word = .ok position ∧
      (position = none ↔
        ∀ node, ¬ automaton.Reads automaton.start word node) ∧
      IsSmallest
        (fun item => ∃ node, automaton.Reads automaton.start word node ∧
          automaton.item? node = some item)
        (deterministic.accepting? position) := by
  obtain ⟨powerset, states, rfl, sound, hasStates, isAutomaton⟩ :=
    closed.determinize_eq order
  rw [isAutomaton] at isDeterminized
  cases isDeterminized
  obtain ⟨start, isStart, inStart⟩ := hasStates.start_follows
  obtain ⟨position, isPosition, tracks⟩ :=
    hasStates.advanceAll_tracks sound isStart word
  have fromStart (node : Nat) :
      powerset.automaton.Reads powerset.automaton.start word node ↔
        ∃ first ∈ start, powerset.automaton.Reads first word node := by
    constructor
    · intro path
      exact ⟨_, (inStart _).mpr (.stay _), path⟩
    · rintro ⟨first, inFirst, path⟩
      exact ((inStart first).mp inFirst).append path
  refine ⟨position, isPosition, ?_⟩
  cases position with
  | none =>
      have nowhere : ∀ node,
          ¬ powerset.automaton.Reads powerset.automaton.start word node :=
        fun node path => tracks node ((fromStart node).mp path)
      refine ⟨⟨fun _ => nowhere, fun _ => rfl⟩, ?_⟩
      rintro item ⟨node, path, _⟩
      exact nowhere node path
  | some number =>
      obtain ⟨state, isState, follows⟩ := tracks
      obtain ⟨node, inState⟩ :=
        (hasStates.isState state (List.mem_of_getElem? isState)).nonempty
      have reached := (fromStart node).mpr ((follows node).mp inState)
      refine ⟨⟨nofun, fun nowhere => absurd reached (nowhere node)⟩, ?_⟩
      have isItem : (powerset.toAutomaton states).accepting? (some number) =
          powerset.item? state := Powerset.item?_toAutomaton isState
      rw [isItem]
      apply (powerset.item?_isSmallest state).congr
      intro item
      refine exists_congr fun node => and_congr ?_ Iff.rfl
      rw [follows node, fromStart node]

theorem IsClosed.determinize_accept? [Std.IsLinearOrder ι]
    (closed : automaton.IsClosed)
    (isDeterminized : automaton.determinize order = .ok deterministic)
    (word : List Int) :
    ∃ answer, deterministic.accept? word = .ok answer ∧
      IsSmallest
        (fun item => ∃ node, automaton.Reads automaton.start word node ∧
          automaton.item? node = some item) answer := by
  obtain ⟨position, isPosition, _, smallest⟩ :=
    closed.determinize_tracks isDeterminized word
  refine ⟨deterministic.accepting? position, ?_, smallest⟩
  rw [accept?_eq_advanceAll, isPosition]
  rfl

/-- A closed automaton can be determinized, and the matcher of the result is
stuck after a word exactly if the word leads nowhere, and accepts the smallest
item of the nodes that the word leads to. -/
theorem determinize_reads_alike [Std.IsLinearOrder ι]
    (closed : automaton.IsClosed) (order : VisitOrder) :
    ∃ deterministic, automaton.determinize order = .ok deterministic ∧
      ∀ word,
        (∃ position,
          deterministic.advanceAll deterministic.initial word = .ok position ∧
          (position = none ↔
            ∀ node, ¬ automaton.Reads automaton.start word node)) ∧
        ∃ answer, deterministic.accept? word = .ok answer ∧
          IsSmallest
            (fun item => ∃ node, automaton.Reads automaton.start word node ∧
              automaton.item? node = some item) answer := by
  obtain ⟨powerset, states, _, _, _, isDeterminized⟩ :=
    closed.determinize_eq order
  refine ⟨_, isDeterminized, fun word => ⟨?_, ?_⟩⟩
  · obtain ⟨position, isPosition, stuckIff, _⟩ :=
      closed.determinize_tracks isDeterminized word
    exact ⟨position, isPosition, stuckIff⟩
  · exact closed.determinize_accept? isDeterminized word

/-- An automaton with a loop of free and labelled transitions, one of which
occurs twice, and with two items. -/
theorem loop_reads_alike :
    let automaton : Automaton Nat :=
      { start := 0
        items := .ofList [(1, 7), (2, 3)]
        nodes :=
          [⟨0, [⟨∅, 1⟩, ⟨.range 97 98, 2⟩, ⟨.range 97 98, 2⟩]⟩,
            ⟨1, [⟨.range 98 99, 0⟩]⟩, ⟨2, [⟨∅, 0⟩]⟩] }
    automaton.IsClosed ∧
      ∃ deterministic, automaton.determinize .depthFirst = .ok deterministic ∧
        ∀ word,
          (∃ position,
            deterministic.advanceAll deterministic.initial word =
                .ok position ∧
              (position = none ↔
                ∀ node, ¬ automaton.Reads automaton.start word node)) ∧
          ∃ answer, deterministic.accept? word = .ok answer ∧
            IsSmallest
              (fun item => ∃ node,
                automaton.Reads automaton.start word node ∧
                  automaton.item? node = some item) answer := by
  intro automaton
  have closed : automaton.IsClosed := ⟨by decide, by decide⟩
  exact ⟨closed, determinize_reads_alike closed .depthFirst⟩

end Automaton

end LexGen
