import LexGen.Automaton.Reachability
import LexGen.Proofs.Matching
import LexGen.Proofs.Powerset.Simulation
import Mathlib.Data.List.Induction

/-!
# Deterministic automata are orderly

Codes are grouped by their targets in ascending order, so that the moves out of
a state come in the order of their smallest codes, and no two of them share a
code or a target.  States are found from states that were found before, so that
every node of the deterministic automaton can be reached.
-/

namespace LexGen

namespace Move

def head (move : Move) : Option Int × NodeSet :=
  (move.label.first?, move.target)

/-- A code that is larger than the smallest ones of all moves gives a new head
only to a new target. -/
theorem heads_add {moves : List Move} {code : Int} {target : NodeSet}
    (inDomain : code ∈ Code.domain)
    (below : ∀ move ∈ moves,
      ∃ low, move.label.first? = some low ∧ low < code) :
    (add code target moves).map head =
      if target ∈ moves.map Move.target then moves.map head
      else moves.map head ++ [(some code, target)] := by
  induction moves with
  | nil => simp [add, head, CodeSet.first?_singleton inDomain]
  | cons move moves induction =>
      obtain ⟨⟨low, isFirst, smaller⟩, laterBelow⟩ :=
        List.forall_mem_cons.mp below
      rw [add]
      split
      next same =>
        have sameFirst := CodeSet.first?_insert_of_lt isFirst smaller
        simp [head, same, sameFirst, isFirst]
      next different =>
        rw [List.map_cons, induction laterBelow]
        by_cases known : target ∈ moves.map Move.target
        · simp [known]
        · simp [known, Ne.symm different]

/-- The heads of the moves are arrivals, in the same order, and no two moves lead
to the same target. -/
theorem heads_group {arrivals : List (Int × NodeSet)}
    (ascending : arrivals.Pairwise fun earlier later => earlier.1 < later.1)
    (inDomain : ∀ arrival ∈ arrivals, arrival.1 ∈ Code.domain) :
    ((group arrivals).map head).Sublist
        (arrivals.map fun arrival => (some arrival.1, arrival.2)) ∧
      ((group arrivals).map Move.target).Nodup := by
  induction arrivals using List.reverseRecOn with
  | nil => exact ⟨.refl _, List.nodup_nil⟩
  | append_singleton arrivals arrival induction =>
      obtain ⟨earlierAscending, _, isLarger⟩ := List.pairwise_append.mp ascending
      obtain ⟨heads, distinct⟩ := induction earlierAscending fun earlier member =>
        inDomain earlier (List.mem_append.mpr (.inl member))
      have arrivalInDomain : arrival.1 ∈ Code.domain :=
        inDomain arrival (List.mem_append.mpr (.inr (List.mem_singleton_self _)))
      have grown := group_concat arrivals arrival.1 arrival.2
      have below : ∀ move ∈ group arrivals,
          ∃ low, move.label.first? = some low ∧ low < arrival.1 := by
        intro move member
        obtain ⟨earlier, isEarlier, isHead⟩ :=
          List.mem_map.mp (heads.subset (List.mem_map_of_mem member))
        refine ⟨earlier.1, (congrArg Prod.fst isHead).symm, ?_⟩
        exact isLarger earlier isEarlier arrival (List.mem_singleton_self _)
      have targets : (group (arrivals ++ [arrival])).map Move.target =
          ((group (arrivals ++ [arrival])).map head).map Prod.snd := by
        rw [List.map_map]
        rfl
      rw [targets, grown, heads_add arrivalInDomain below, List.map_append]
      split
      next known =>
        refine ⟨heads.trans (List.sublist_append_left _ _), ?_⟩
        rw [List.map_map]
        exact distinct
      next new =>
        refine ⟨heads.append (.refl _), ?_⟩
        rw [List.map_append, List.map_map]
        apply List.nodup_append.mpr
        refine ⟨distinct, List.nodup_singleton _, ?_⟩
        intro target isTarget other isOther same
        rw [List.mem_singleton.mp isOther] at same
        exact new (same ▸ isTarget)

/-- Moves in the order of their smallest codes, no two of which share a code or a
target. -/
structure AreOrderly (moves : List Move) : Prop where
  inhabited : ∀ move ∈ moves, ∃ code, code ∈ move.label
  targets_nodup : (moves.map Move.target).Nodup
  apart : moves.Pairwise fun earlier later =>
    ∀ code ∈ earlier.label, code ∉ later.label
  ascending : moves.Pairwise fun earlier later =>
    ∃ low high, earlier.label.first? = some low ∧
      later.label.first? = some high ∧ low < high

theorem group_areOrderly {arrivals : List (Int × NodeSet)}
    (ascending : arrivals.Pairwise fun earlier later => earlier.1 < later.1)
    (inDomain : ∀ arrival ∈ arrivals, arrival.1 ∈ Code.domain) :
    AreOrderly (group arrivals) := by
  obtain ⟨heads, distinct⟩ := heads_group ascending inDomain
  refine ⟨exists_mem_label_of_mem_group inDomain, distinct, ?_, ?_⟩
  · have arrivesOnce {code : Int} {first second : NodeSet}
        (isFirst : (code, first) ∈ arrivals)
        (isSecond : (code, second) ∈ arrivals) : first = second := by
      have codes : (arrivals.map Prod.fst).Nodup :=
        List.pairwise_map.mpr (ascending.imp Int.ne_of_lt)
      exact congrArg Prod.snd (List.inj_on_of_nodup_map codes isFirst isSecond rfl)
    apply (List.pairwise_map.mp distinct).imp_of_mem
    intro earlier later isEarlier isLater differ code inEarlier inLater
    have first := (leads_group inDomain).mp ⟨earlier, isEarlier, inEarlier, rfl⟩
    have second := (leads_group inDomain).mp ⟨later, isLater, inLater, rfl⟩
    exact differ (arrivesOnce first second)
  · have stamped : (arrivals.map fun arrival =>
        ((some arrival.1, arrival.2) : Option Int × NodeSet)).Pairwise
        fun earlier later => ∃ low high,
          earlier.1 = some low ∧ later.1 = some high ∧ low < high := by
      apply List.pairwise_map.mpr
      apply ascending.imp
      intro earlier later smaller
      exact ⟨earlier.1, later.1, rfl, rfl, smaller⟩
    exact List.pairwise_map.mp (stamped.sublist heads)

end Move

namespace Powerset

variable {ι : Type} {powerset : Powerset ι}

theorem arrivals_codes_prefix (transitions : List Transition)
    (codes : List Int) :
    (powerset.arrivals transitions codes).1.map Prod.fst <+: codes := by
  induction codes with
  | nil => exact List.prefix_refl _
  | cons code codes induction =>
      rw [arrivals]
      cases powerset.close (targets transitions code).nodes with
      | error dangling => exact List.nil_prefix
      | ok target => exact (List.cons_prefix_cons).mpr ⟨rfl, induction⟩

theorem moves_areOrderly (powerset : Powerset ι) (state : NodeSet) :
    Move.AreOrderly (powerset.moves state).1 := by
  let transitions := powerset.transitionsOf state
  have codes := powerset.arrivals_codes_prefix transitions
    (alphabet transitions).toList
  apply Move.group_areOrderly
  · have ascending := (alphabet transitions).toList_ascending
    exact List.pairwise_map.mp (ascending.sublist codes.sublist)
  · intro arrival member
    have isCode := codes.subset (List.mem_map_of_mem member)
    exact CodeSet.mem_domain_of_mem (CodeSet.mem_toList.mp isCode)

theorem transitionsAmong_isOrderly {states : List NodeSet} {state : NodeSet}
    (inStates : ∀ move ∈ (powerset.moves state).1, move.target ∈ states)
    (number : Nat) :
    (Node.mk number (powerset.transitionsAmong states state)).IsOrderly := by
  have orderly := powerset.moves_areOrderly state
  constructor
  · intro transition member
    obtain ⟨move, isMove, isTransition⟩ := List.mem_map.mp member
    rw [← isTransition]
    exact CodeSet.isEmpty_eq_false_iff.mpr (orderly.inhabited move isMove)
  · exact List.pairwise_map.mpr orderly.apart
  · apply List.pairwise_map.mpr
    apply List.pairwise_map.mpr
    apply (List.pairwise_map.mp orderly.targets_nodup).imp_of_mem
    intro earlier later isEarlier _ differ sameNumber
    exact differ ((List.idxOf_inj (inStates earlier isEarlier)).mp sameNumber)
  · exact List.pairwise_map.mpr orderly.ascending

section Numbered

variable [LE ι] [DecidableLE ι] {states : List NodeSet}

theorem getElem?_nodes_toAutomaton (number : Nat) :
    (powerset.toAutomaton states).nodes[number]? =
      states[number]?.map fun state =>
        ⟨number, powerset.transitionsAmong states state⟩ :=
  List.getElem?_mapIdx

theorem length_nodes_toAutomaton :
    (powerset.toAutomaton states).nodes.length = states.length :=
  List.length_mapIdx

theorem node_isOrderly_toAutomaton
    (inStates : ∀ state ∈ states, ∀ move ∈ (powerset.moves state).1,
      move.target ∈ states) :
    ∀ node ∈ (powerset.toAutomaton states).nodes, node.IsOrderly := by
  intro node isNode
  obtain ⟨number, bound, isState⟩ := List.mem_mapIdx.mp isNode
  rw [← isState]
  exact transitionsAmong_isOrderly
    (inStates states[number] (List.getElem_mem bound)) number

theorem item_lt_toAutomaton :
    ∀ entry ∈ (powerset.toAutomaton states).items.entries,
      entry.1 < (powerset.toAutomaton states).nodes.length := by
  intro entry isEntry
  obtain ⟨state, isState, _⟩ :=
    item?_toAutomaton_eq_some_iff.mp (Automaton.item?_eq_some_iff.mpr isEntry)
  rw [length_nodes_toAutomaton]
  exact (List.getElem?_eq_some_iff.mp isState).1

theorem leaves_toAutomaton {number : Nat} {state : NodeSet} {move : Move}
    (isNumber : states[number]? = some state)
    (isMove : move ∈ (powerset.moves state).1) :
    (powerset.toAutomaton states).Leaves number
      ⟨move.label, states.idxOf move.target⟩ := by
  refine ⟨⟨number, powerset.transitionsAmong states state⟩, ?_,
    List.mem_map_of_mem isMove⟩
  rw [getElem?_nodes_toAutomaton, isNumber]
  rfl

/-- A state that can be reached from the first one has a number, and a path of
the deterministic automaton leads there. -/
theorem HasStates.reaches_toAutomaton (hasStates : powerset.HasStates states)
    (sound : powerset.IsSound) {start state : NodeSet}
    (isStart : states[0]? = some start)
    (reaches : Exploration.Reaches powerset.neighbours start state) :
    state ∈ states ∧
      (powerset.toAutomaton states).Reaches 0 (states.idxOf state) := by
  induction reaches with
  | refl =>
      refine ⟨List.mem_of_getElem? isStart, [], ?_⟩
      have isFirst : states.idxOf start = 0 := by
        cases states with
        | nil => cases isStart
        | cons first later =>
            cases isStart
            exact List.idxOf_cons_self
      rw [isFirst]
      exact .stay 0
  | @tail middle target _ isNeighbour induction =>
      obtain ⟨middleInStates, word, path⟩ := induction
      have hasMoves := sound.hasMoves (hasStates.isState middle middleInStates)
      obtain ⟨code, leads⟩ := hasMoves.neighbour_iff.mp isNeighbour
      obtain ⟨move, isMove, takes, isTarget⟩ := leads
      have targetInStates := hasStates.target_mem sound middleInStates isMove
      rw [isTarget] at targetInStates
      have leaves := leaves_toAutomaton
        (List.getElem?_idxOf middleInStates) isMove
      rw [isTarget] at leaves
      exact ⟨targetInStates, word ++ [code],
        path.append (.consume leaves takes (.stay _))⟩

theorem IsSound.toAutomaton_isOrderly (sound : powerset.IsSound)
    (order : VisitOrder) :
    (powerset.toAutomaton (powerset.explore order).found).IsOrderly := by
  obtain ⟨start, _, _, complete⟩ := sound.explore_isComplete order
  have hasStates := (sound.hasStates order).2
  have foundOnce := complete.found_nodup
  have isStart := complete.head_found
  have isFound := complete.mem_found_iff
  generalize (powerset.explore order).found = states at *
  rw [List.head?_eq_getElem?] at isStart
  refine ⟨rfl, ?_, hasStates.toAutomaton_isClosed sound, ?_, ?_, ?_⟩
  · intro number node isNode
    rw [getElem?_nodes_toAutomaton] at isNode
    obtain ⟨state, _, isState⟩ := Option.map_eq_some_iff.mp isNode
    rw [← isState]
  · apply node_isOrderly_toAutomaton
    intro state inStates move isMove
    exact hasStates.target_mem sound inStates isMove
  · intro number bound
    rw [length_nodes_toAutomaton] at bound
    have reaches := (isFound states[number]).mp (List.getElem_mem bound)
    have path := (hasStates.reaches_toAutomaton sound isStart reaches).2
    rw [foundOnce.idxOf_getElem number bound] at path
    exact path
  · exact item_lt_toAutomaton

end Numbered

end Powerset

namespace Automaton

variable {ι : Type} {automaton : Automaton ι}

theorem IsOrderly.isDeterministic (orderly : automaton.IsOrderly) :
    automaton.isDeterministic = true := by
  apply isDeterministic_iff.mpr
  intro node isNode
  exact ⟨(orderly.node_isOrderly node isNode).consumes,
    (orderly.node_isOrderly node isNode).apart⟩

theorem IsOrderly.exists_entry_iff (orderly : automaton.IsOrderly) (item : ι) :
    (∃ number, (number, item) ∈ automaton.items.entries) ↔
      ∃ word, automaton.accept? word = .ok (some item) := by
  simp only [accept?_eq_some_iff orderly.isDeterministic]
  constructor
  · intro isEntry
    obtain ⟨number, member⟩ := isEntry
    obtain ⟨word, path⟩ := orderly.reaches number (orderly.item_lt _ member)
    exact ⟨word, number, path, item?_eq_some_iff.mpr member⟩
  · intro isAccepted
    obtain ⟨_, number, _, isItem⟩ := isAccepted
    exact ⟨number, item?_eq_some_iff.mp isItem⟩

section Determinized

variable [LE ι] [DecidableLE ι]

/-- Determinizing a closed automaton gives an orderly one, which is deterministic
and has no items but those that some word is accepted as. -/
theorem determinize_isOrderly (closed : automaton.IsClosed)
    (order : VisitOrder) :
    ∃ deterministic, automaton.determinize order = .ok deterministic ∧
      deterministic.IsOrderly ∧ deterministic.isDeterministic = true ∧
      ∀ item, (∃ number, (number, item) ∈ deterministic.items.entries) ↔
        ∃ word, deterministic.accept? word = .ok (some item) := by
  obtain ⟨powerset, _, sound, isDeterminized⟩ := closed.exists_powerset
  have orderly := sound.toAutomaton_isOrderly order
  exact ⟨_, isDeterminized order, orderly, orderly.isDeterministic,
    orderly.exists_entry_iff⟩

/-- An automaton with a loop, transitions that share codes, an item that a
smaller one hides and one that no path leads to. -/
theorem tangled_determinize_isOrderly :
    let automaton : Automaton Nat :=
      { start := 1
        items := .ofList [(0, 5), (2, 7), (3, 4), (9, 1)]
        nodes :=
          [⟨0, [⟨.range 97 99, 1⟩]⟩,
            ⟨1, [⟨.range 98 122, 2⟩, ⟨.range 97 100, 3⟩, ⟨∅, 2⟩]⟩,
            ⟨2, [⟨.singleton 97, 1⟩, ⟨∅, 3⟩]⟩, ⟨8, [⟨.singleton (-1), 3⟩]⟩] }
    automaton.IsClosed ∧
      ∃ deterministic, automaton.determinize .depthFirst = .ok deterministic ∧
        deterministic.IsOrderly ∧ deterministic.isDeterministic = true ∧
        ∀ item, (∃ number, (number, item) ∈ deterministic.items.entries) ↔
          ∃ word, deterministic.accept? word = .ok (some item) := by
  intro automaton
  have closed : automaton.IsClosed := ⟨by decide, by decide⟩
  exact ⟨closed, determinize_isOrderly closed .depthFirst⟩

end Determinized

end Automaton

end LexGen
