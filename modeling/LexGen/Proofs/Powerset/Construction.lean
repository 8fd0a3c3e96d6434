import LexGen.Powerset.Determinize
import LexGen.Proofs.Exploration
import LexGen.Proofs.Powerset.Moves
import Mathlib.Data.List.Forall2
import Mathlib.Data.List.Induction

/-!
# Building explores the powerset

The construction of a deterministic automaton deals with numbers: of the states that
it has met, of those that it is to visit, and of the targets by which codes are
grouped.  Nodes, states and mappings stay in step, so that a number always stands for
one state, and what is built is what an exploration of the powerset finds.
-/

namespace LexGen

namespace Move

def numbered (states : List NodeSet) (move : Move) : Transition :=
  ⟨move.label, states.idxOf move.target⟩

theorem numbered_add {states : List NodeSet} {moves : List Move}
    (known : moves.map Move.target ⊆ states) (code : Int) (target : NodeSet) :
    Transition.add code (states.idxOf target) (moves.map (numbered states)) =
      (add code target moves).map (numbered states) := by
  induction moves with
  | nil => rfl
  | cons move moves induction =>
      obtain ⟨moveKnown, laterKnown⟩ := List.cons_subset.mp known
      have sameNumber : (numbered states move).target = states.idxOf target ↔
          move.target = target := List.idxOf_inj moveKnown
      rw [List.map_cons, Transition.add, add]
      by_cases same : move.target = target
      · rw [if_pos (sameNumber.mpr same), if_pos same]
        rfl
      · rw [if_neg (sameNumber.not.mpr same), if_neg same, List.map_cons,
          induction laterKnown]

theorem numbered_append {states : List NodeSet} {moves : List Move}
    (known : moves.map Move.target ⊆ states) (added : List NodeSet) :
    moves.map (numbered (states ++ added)) = moves.map (numbered states) := by
  apply List.map_congr_left
  intro move isMove
  have isKnown := known (List.mem_map_of_mem isMove)
  rw [numbered, numbered, List.idxOf_append_of_mem isKnown]

theorem targets_add (code : Int) (target : NodeSet) (moves : List Move) :
    (add code target moves).map Move.target =
      if target ∈ moves.map Move.target then moves.map Move.target
      else moves.map Move.target ++ [target] := by
  induction moves with
  | nil => rfl
  | cons move moves induction =>
      rw [add]
      by_cases same : move.target = target
      · simp [same]
      · rw [if_neg same, List.map_cons, induction, List.map_cons]
        by_cases known : target ∈ moves.map Move.target
        · simp [known]
        · simp [known, Ne.symm same]

theorem mem_targets_group {arrivals : List (Int × NodeSet)} {target : NodeSet} :
    target ∈ (group arrivals).map Move.target ↔
      ∃ code, (code, target) ∈ arrivals := by
  induction arrivals using List.reverseRecOn with
  | nil => simp [group]
  | append_singleton arrivals arrival induction =>
      have grown := group_concat arrivals arrival.1 arrival.2
      simp only [List.mem_append, List.mem_singleton, exists_or, ← induction]
      rw [grown, targets_add]
      have isLast : (∃ code, (code, target) = arrival) ↔ target = arrival.2 :=
        ⟨fun ⟨_, same⟩ => congrArg Prod.snd same,
          fun same => ⟨arrival.1, Prod.ext rfl same⟩⟩
      rw [isLast]
      split
      next known =>
        apply (or_iff_left_of_imp _).symm
        intro same
        exact same ▸ known
      next new => rw [List.mem_append, List.mem_singleton]

theorem targets_add_subset {states : List NodeSet} {moves : List Move}
    (known : moves.map Move.target ⊆ states) {target : NodeSet}
    (targetKnown : target ∈ states) (code : Int) :
    (add code target moves).map Move.target ⊆ states := by
  rw [targets_add]
  split
  · exact known
  · have onlyTarget := List.cons_subset.mpr ⟨targetKnown, List.nil_subset states⟩
    exact List.append_subset.mpr ⟨known, onlyTarget⟩

/-- Meeting the targets code by code is meeting those of the moves: what is known
already makes no difference. -/
theorem discoverAll_targets (order : VisitOrder)
    (exploration : Exploration NodeSet Dangling) (arrivals : List (Int × NodeSet)) :
    exploration.discoverAll order ((group arrivals).map Move.target) =
      exploration.discoverAll order (arrivals.map Prod.snd) := by
  induction arrivals using List.reverseRecOn with
  | nil => rfl
  | append_singleton arrivals arrival induction =>
      have grown := group_concat arrivals arrival.1 arrival.2
      have onward (targets : List NodeSet) :
          exploration.discoverAll order (targets ++ [arrival.2]) =
            (exploration.discoverAll order targets).discover order arrival.2 :=
        List.foldl_concat _ _ _ _
      rw [grown, targets_add, List.map_append, List.map_singleton, onward, ← induction]
      split
      next known =>
        obtain ⟨added, adds, isFound⟩ :=
          Exploration.discoverAll_adds order exploration ((group arrivals).map Move.target)
        have met := (isFound arrival.2).mpr (.inr known)
        rw [← adds.found_eq] at met
        exact (if_pos met).symm
      next new => exact onward _

end Move

theorem getElem?_concat_eq_some_iff {σ : Type} {things : List σ} {last thing : σ}
    {place : Nat} :
    (things ++ [last])[place]? = some thing ↔
      things[place]? = some thing ∨ place = things.length ∧ last = thing := by
  rw [List.getElem?_append]
  split
  next inside => simp [Nat.ne_of_lt inside]
  next outside =>
    have beyond : things[place]? = none :=
      List.getElem?_eq_none (Nat.le_of_not_lt outside)
    rw [beyond, List.getElem?_singleton]
    by_cases isLast : place = things.length
    · simp [isLast]
    · have notFirst : place - things.length ≠ 0 := by omega
      simp [isLast, notFirst]

namespace Construction

/-- There is a node for each state, and a state is looked up under the number of its
place. -/
structure IsConsistent (construction : Construction) : Prop where
  length_eq : construction.nodes.length = construction.states.length
  name_eq : ∀ (number : Nat) (node : Node),
    construction.nodes[number]? = some node → node.name = number
  lookup_iff : ∀ (state : NodeSet) (number : Nat),
    construction.mappings.lookup state = some number ↔
      construction.states[number]? = some state

theorem getElem?_setTransitions (construction : Construction) (number : Nat)
    (transitions : List Transition) (other : Nat) :
    (construction.setTransitions number transitions).nodes[other]? =
      construction.nodes[other]?.map fun node =>
        if number = other then { node with transitions := transitions } else node :=
  List.getElem?_modify _ _ _ _

namespace IsConsistent

variable {construction : Construction}

theorem idxOf_eq (consistent : construction.IsConsistent) {state : NodeSet}
    {number : Nat} (isNumber : construction.states[number]? = some state) :
    construction.states.idxOf state = number := by
  have isPlace := List.getElem?_idxOf (List.mem_of_getElem? isNumber)
  have lookup := (consistent.lookup_iff state number).mpr isNumber
  rw [(consistent.lookup_iff state _).mpr isPlace] at lookup
  exact Option.some.inj lookup

theorem nodup (consistent : construction.IsConsistent) :
    construction.states.Nodup := by
  apply List.nodup_iff_getElem?_ne_getElem?.mpr
  intro number other below bound same
  have isNumber := List.getElem?_eq_getElem (Nat.lt_trans below bound)
  have isOther := same.symm.trans isNumber
  have equal := (consistent.idxOf_eq isNumber).symm.trans (consistent.idxOf_eq isOther)
  exact absurd equal (Nat.ne_of_lt below)

theorem empty : Construction.empty.IsConsistent := by
  constructor
  · rfl
  · exact nofun
  · exact fun state number => Iff.intro nofun nofun

theorem allocate (consistent : construction.IsConsistent) {state : NodeSet}
    (new : state ∉ construction.states) :
    (construction.allocate state).IsConsistent := by
  constructor
  · simp [Construction.allocate, consistent.length_eq]
  · intro number node isNode
    cases getElem?_concat_eq_some_iff.mp isNode with
    | inl isOld => exact consistent.name_eq number node isOld
    | inr isNew => exact isNew.2 ▸ isNew.1.symm
  · intro other number
    rw [Construction.allocate, getElem?_concat_eq_some_iff, List.lookup_cons]
    by_cases same : other = state
    · have notOld : construction.states[number]? ≠ some state := by
        intro isNumber
        exact new (List.mem_of_getElem? isNumber)
      rw [same]
      simp [notOld, consistent.length_eq, eq_comm]
    · have differs : (other == state) = false := beq_false_of_ne same
      simp [differs, Ne.symm same, consistent.lookup_iff]

theorem setTransitions (consistent : construction.IsConsistent) (number : Nat)
    (transitions : List Transition) :
    (construction.setTransitions number transitions).IsConsistent := by
  constructor
  · exact (List.length_modify _ _ _).trans consistent.length_eq
  · intro other node isNode
    rw [getElem?_setTransitions] at isNode
    obtain ⟨old, isOld, same⟩ := Option.map_eq_some_iff.mp isNode
    have sameName : node.name = old.name := by
      rw [← same]
      split <;> rfl
    rw [sameName]
    exact consistent.name_eq other old isOld
  · exact consistent.lookup_iff

end IsConsistent

/-- The numbers that are to be visited, the next one first. -/
def waiting (order : VisitOrder) (construction : Construction) : List Nat :=
  match order with
  | .breadthFirst => construction.toVisit
  | .depthFirst => construction.toVisit.reverse

theorem mem_waiting_iff (order : VisitOrder) (construction : Construction)
    (number : Nat) :
    number ∈ construction.waiting order ↔ number ∈ construction.toVisit := by
  cases order with
  | breadthFirst => exact Iff.rfl
  | depthFirst => exact List.mem_reverse

theorem waiting_allocate (order : VisitOrder) (construction : Construction)
    (state : NodeSet) :
    (construction.allocate state).waiting order =
      match order with
      | .breadthFirst => construction.waiting order ++ [construction.nodes.length]
      | .depthFirst => construction.nodes.length :: construction.waiting order := by
  cases order with
  | breadthFirst => rfl
  | depthFirst => exact List.reverse_append

theorem next?_eq_none {order : VisitOrder} {construction : Construction}
    (isEmpty : construction.waiting order = []) : construction.next? order = none := by
  cases order with
  | breadthFirst =>
      have nothing : construction.toVisit = [] := isEmpty
      simp [next?, nothing]
  | depthFirst =>
      have nothing : construction.toVisit = [] := List.reverse_eq_nil_iff.mp isEmpty
      simp [next?, nothing]

theorem exists_next {order : VisitOrder} {construction : Construction} {number : Nat}
    {later : List Nat} (isNext : construction.waiting order = number :: later) :
    ∃ toVisit,
      construction.next? order =
        some (number, { construction with toVisit := toVisit }) ∧
      ({ construction with toVisit := toVisit } : Construction).waiting order =
        later := by
  cases order with
  | breadthFirst =>
      have isFirst : construction.toVisit = number :: later := isNext
      exact ⟨later, by simp [next?, isFirst], rfl⟩
  | depthFirst =>
      have isLast : construction.toVisit = later.reverse ++ [number] := by
        rw [← List.reverse_cons, ← isNext]
        exact (List.reverse_reverse _).symm
      exact ⟨later.reverse, by simp [next?, isLast], List.reverse_reverse later⟩

end Construction

namespace Powerset

variable {ι : Type} {powerset : Powerset ι} {order : VisitOrder}
  {current : List Nat} {construction : Construction}
  {exploration : Exploration NodeSet Dangling}

/-- The node has the transitions of its state, and all their targets have numbers. -/
def HasTransitions (powerset : Powerset ι) (construction : Construction)
    (number : Nat) : Prop :=
  ∃ state, construction.states[number]? = some state ∧
    (powerset.moves state).1.map Move.target ⊆ construction.states ∧
    construction.nodes[number]? =
      some ⟨number, powerset.transitionsAmong construction.states state⟩

/-- The construction has met what the exploration has found, and it is to visit what
is pending there.  The other nodes have their transitions, apart from the current
ones. -/
structure Explores (powerset : Powerset ι) (order : VisitOrder) (current : List Nat)
    (construction : Construction) (exploration : Exploration NodeSet Dangling) :
    Prop where
  consistent : construction.IsConsistent
  states_eq : construction.states = exploration.found
  pending : List.Forall₂
    (fun number state => construction.states[number]? = some state)
    (construction.waiting order) exploration.pending
  visited : ∀ number < construction.nodes.length, number ∈ current ∨
    number ∈ construction.toVisit ∨ powerset.HasTransitions construction number

theorem HasTransitions.allocate {number : Nat}
    (hasTransitions : powerset.HasTransitions construction number) (state : NodeSet) :
    powerset.HasTransitions (construction.allocate state) number := by
  obtain ⟨source, isNumber, known, isNode⟩ := hasTransitions
  refine ⟨source, getElem?_concat_eq_some_iff.mpr (.inl isNumber),
    List.subset_append_of_subset_left _ known, ?_⟩
  have sameTransitions :
      powerset.transitionsAmong (construction.states ++ [state]) source =
        powerset.transitionsAmong construction.states source :=
    Move.numbered_append known [state]
  rw [Construction.allocate, sameTransitions]
  exact getElem?_concat_eq_some_iff.mpr (.inl isNode)

namespace Explores

theorem allocate
    (explores : powerset.Explores order current construction exploration)
    {state : NodeSet} (new : state ∉ construction.states) :
    powerset.Explores order current (construction.allocate state)
      (exploration.discover order state) := by
  have notFound : state ∉ exploration.found := explores.states_eq ▸ new
  have stillPending : List.Forall₂
      (fun number state' => (construction.states ++ [state])[number]? = some state')
      (construction.waiting order) exploration.pending :=
    explores.pending.imp fun number state' isNumber =>
      getElem?_concat_eq_some_iff.mpr (.inl isNumber)
  have isNumber : (construction.states ++ [state])[construction.nodes.length]? =
      some state :=
    getElem?_concat_eq_some_iff.mpr (.inr ⟨explores.consistent.length_eq, rfl⟩)
  unfold Exploration.discover
  rw [if_neg notFound]
  refine ⟨explores.consistent.allocate new, ?_, ?_, ?_⟩
  · rw [Construction.allocate, explores.states_eq]
  · rw [Construction.waiting_allocate]
    cases order with
    | breadthFirst => exact List.rel_append stillPending (.cons isNumber .nil)
    | depthFirst => exact .cons isNumber stillPending
  · intro number bound
    by_cases isOld : number < construction.nodes.length
    · refine (explores.visited number isOld).imp id (Or.imp ?_ ?_)
      · exact List.mem_append_left _
      · exact fun hasTransitions => hasTransitions.allocate state
    · right
      left
      have lengths : (construction.allocate state).nodes.length =
          construction.nodes.length + 1 := List.length_append
      have isNew : number = construction.nodes.length := by omega
      rw [isNew]
      exact List.mem_append_right _ (List.mem_singleton_self _)

theorem resolve (explores : powerset.Explores order current construction exploration)
    {nodes : List Nat} {state : NodeSet} (closes : powerset.close nodes = .ok state) :
    ∃ after, powerset.resolve nodes construction =
        .ok (after.states.idxOf state) after ∧
      powerset.Explores order current after (exploration.discover order state) := by
  have consistent := explores.consistent
  by_cases known : state ∈ construction.states
  · have isMapped := (consistent.lookup_iff state _).mpr (List.getElem?_idxOf known)
    have isFound : state ∈ exploration.found := explores.states_eq ▸ known
    have unchanged : exploration.discover order state = exploration := if_pos isFound
    rw [unchanged]
    refine ⟨construction, ?_, explores⟩
    simp only [Powerset.resolve, closes, isMapped]
  · have notMapped : construction.mappings.lookup state = none := by
      apply Option.eq_none_iff_forall_ne_some.mpr
      intro number isMapped
      exact known (List.mem_of_getElem? ((consistent.lookup_iff state number).mp isMapped))
    have isNumber : (construction.allocate state).states[construction.nodes.length]? =
        some state :=
      getElem?_concat_eq_some_iff.mpr (.inr ⟨consistent.length_eq, rfl⟩)
    refine ⟨construction.allocate state, ?_, explores.allocate known⟩
    rw [(consistent.allocate known).idxOf_eq isNumber]
    simp only [Powerset.resolve, closes, notMapped]

end Explores

/-- How a part of the construction ends: with a value, or at a dangling reference. -/
def ending {α : Type} (failure : Option Dangling) (value : α)
    (construction : Construction) : EStateM.Result Dangling Construction α :=
  match failure with
  | none => .ok value construction
  | some dangling => .error dangling construction

theorem get_eq (construction : Construction) :
    (get : EStateM Dangling Construction Construction) construction =
      .ok construction construction :=
  rfl

theorem visit_eq_ok {number : Nat} {state : NodeSet}
    (isNumber : construction.states[number]? = some state) {grouped : List Transition}
    {after : Construction}
    (resolves : powerset.resolveCodes (powerset.transitionsOf state)
      (alphabet (powerset.transitionsOf state)).toList [] construction =
        .ok grouped after) :
    powerset.visit number construction = .ok () (after.setTransitions number grouped) := by
  simp only [visit, bind, EStateM.bind, get_eq, isNumber, resolves]
  rfl

theorem visit_eq_error {number : Nat} {state : NodeSet}
    (isNumber : construction.states[number]? = some state) {dangling : Dangling}
    {after : Construction}
    (resolves : powerset.resolveCodes (powerset.transitionsOf state)
      (alphabet (powerset.transitionsOf state)).toList [] construction =
        .error dangling after) :
    powerset.visit number construction = .error dangling after := by
  simp only [visit, bind, EStateM.bind, get_eq, isNumber, resolves]

theorem visitAll_done (fuel : Nat) (isDone : construction.next? order = none) :
    powerset.visitAll order (fuel + 1) construction = .ok () construction := by
  simp only [visitAll, bind, EStateM.bind, get_eq, isDone]
  rfl

theorem visitAll_next (fuel : Nat) {number : Nat} {left : Construction}
    (isNext : construction.next? order = some (number, left)) :
    powerset.visitAll order (fuel + 1) construction =
      match powerset.visit number left with
      | .ok _ after => powerset.visitAll order fuel after
      | .error dangling after => .error dangling after := by
  simp only [visitAll, bind, EStateM.bind, get_eq, isNext]
  change EStateM.bind (powerset.visit number)
    (fun _ => powerset.visitAll order fuel) left = _
  rw [EStateM.bind]
  cases powerset.visit number left with
  | ok _ after => rfl
  | error dangling after => rfl

namespace Explores

/-- Codes are grouped by the numbers of the states that they arrive at. -/
theorem resolveCodes
    (explores : powerset.Explores order current construction exploration)
    (transitions : List Transition) (codes : List Int) {moves : List Move}
    (known : moves.map Move.target ⊆ construction.states) :
    ∃ after grouped, grouped = (powerset.arrivals transitions codes).1.foldl
        (fun moves arrival => Move.add arrival.1 arrival.2 moves) moves ∧
      powerset.resolveCodes transitions codes
          (moves.map (Move.numbered construction.states)) construction =
        ending (powerset.arrivals transitions codes).2
          (grouped.map (Move.numbered after.states)) after ∧
      grouped.map Move.target ⊆ after.states ∧
      powerset.Explores order current after (exploration.discoverAll order
        ((powerset.arrivals transitions codes).1.map Prod.snd)) := by
  induction codes generalizing construction exploration moves with
  | nil => exact ⟨construction, moves, rfl, rfl, known, explores⟩
  | cons code codes induction =>
      rw [arrivals]
      cases closes : powerset.close (targets transitions code).nodes with
      | error dangling =>
          refine ⟨construction, moves, rfl, ?_, known, explores⟩
          simp only [Powerset.resolveCodes, bind, EStateM.bind, Powerset.resolve, closes]
          rfl
      | ok state =>
          obtain ⟨next, isResolved, explored⟩ := explores.resolve closes
          obtain ⟨added, adds, isFound⟩ :=
            Exploration.discover_adds order exploration state
          have grown : next.states = construction.states ++ added := by
            rw [explored.states_eq, adds.found_eq, explores.states_eq]
          have stateKnown : state ∈ next.states := by
            rw [explored.states_eq, adds.found_eq]
            exact (isFound state).mpr (.inr rfl)
          have stillKnown : moves.map Move.target ⊆ next.states := by
            rw [grown]
            exact List.subset_append_of_subset_left _ known
          have onward : powerset.resolveCodes transitions (code :: codes)
                (moves.map (Move.numbered construction.states)) construction =
              powerset.resolveCodes transitions codes
                ((Move.add code state moves).map (Move.numbered next.states)) next := by
            rw [← Move.numbered_add stillKnown, ← Move.numbered_append known added,
              ← grown]
            simp only [Powerset.resolveCodes, bind, EStateM.bind, isResolved]
          rw [onward]
          exact induction explored (Move.targets_add_subset stillKnown stateKnown code)

theorem take (explores : powerset.Explores order [] construction exploration)
    {state : NodeSet} {later : List NodeSet}
    (isPending : exploration.pending = state :: later) :
    ∃ number left, construction.next? order = some (number, left) ∧
      construction.states[number]? = some state ∧ left.states[number]? = some state ∧
      powerset.Explores order [number] left { exploration with pending := later } := by
  have pending := explores.pending
  rw [isPending] at pending
  obtain ⟨number, numbers, isNumber, laterPending, isWaiting⟩ :=
    List.forall₂_cons_right_iff.mp pending
  obtain ⟨toVisit, isNext, isLeft⟩ := Construction.exists_next isWaiting
  refine ⟨number, _, isNext, isNumber, isNumber, ⟨?_, explores.states_eq, ?_, ?_⟩⟩
  · exact ⟨explores.consistent.length_eq, explores.consistent.name_eq,
      explores.consistent.lookup_iff⟩
  · rw [isLeft]
    exact laterPending
  · intro other bound
    cases explores.visited other bound with
    | inl isCurrent => cases isCurrent
    | inr isSettled =>
        cases isSettled with
        | inl isToVisit =>
            have isWaitingOrNext :=
              (construction.mem_waiting_iff order other).mpr isToVisit
            rw [isWaiting, List.mem_cons, ← isLeft,
              Construction.mem_waiting_iff] at isWaitingOrNext
            exact isWaitingOrNext.imp List.mem_singleton.mpr .inl
        | inr hasTransitions => exact .inr (.inr hasTransitions)

theorem setTransitions {number : Nat}
    (explores : powerset.Explores order [number] construction exploration)
    {state : NodeSet} (isNumber : construction.states[number]? = some state)
    (known : (powerset.moves state).1.map Move.target ⊆ construction.states) :
    powerset.Explores order []
      (construction.setTransitions number
        (powerset.transitionsAmong construction.states state)) exploration := by
  have consistent := explores.consistent
  refine ⟨consistent.setTransitions number _, explores.states_eq, explores.pending, ?_⟩
  intro other bound
  have oldBound : other < construction.nodes.length :=
    Nat.lt_of_lt_of_eq bound (List.length_modify _ _ _)
  right
  by_cases isCurrent : number = other
  · right
    rw [← isCurrent] at oldBound ⊢
    have isNode := List.getElem?_eq_getElem oldBound
    refine ⟨state, isNumber, known, ?_⟩
    rw [Construction.getElem?_setTransitions, isNode, Option.map_some, if_pos rfl,
      consistent.name_eq number _ isNode]
    rfl
  · have isSettled := (explores.visited other oldBound).resolve_left
      fun isOther => isCurrent (List.mem_singleton.mp isOther).symm
    refine isSettled.imp id ?_
    intro hasTransitions
    obtain ⟨source, isSource, sourceKnown, isNode⟩ := hasTransitions
    refine ⟨source, isSource, sourceKnown, ?_⟩
    rw [Construction.getElem?_setTransitions, isNode, Option.map_some,
      if_neg isCurrent]
    rfl

theorem getElem?_states {others : List Nat} {after : Construction}
    {neighbours : List NodeSet}
    (explores : powerset.Explores order current construction exploration)
    (explored : powerset.Explores order others after
      (exploration.discoverAll order neighbours)) {number : Nat} {state : NodeSet}
    (isNumber : construction.states[number]? = some state) :
    after.states[number]? = some state := by
  obtain ⟨added, adds, _⟩ := Exploration.discoverAll_adds order exploration neighbours
  rw [explored.states_eq, adds.found_eq, ← explores.states_eq,
    List.getElem?_append_left (List.getElem?_eq_some_iff.mp isNumber).1]
  exact isNumber

/-- A visit notes the neighbours of the next state and finds its transitions. -/
theorem visit (explores : powerset.Explores order [] construction exploration)
    {state : NodeSet} {later : List NodeSet}
    (isPending : exploration.pending = state :: later) :
    ∃ number left current after, construction.next? order = some (number, left) ∧
      construction.states[number]? = some state ∧
      powerset.visit number left = ending (powerset.neighbours state).2 () after ∧
      powerset.Explores order current after
        (Exploration.discoverAll order { exploration with pending := later }
          (powerset.neighbours state).1) ∧
      ((powerset.neighbours state).2 = none → current = []) := by
  obtain ⟨number, left, isNext, isPlace, isNumber, taken⟩ := explores.take isPending
  let transitions := powerset.transitionsOf state
  let codes := (alphabet transitions).toList
  have nothing : ([] : List Move).map Move.target ⊆ left.states := List.nil_subset _
  obtain ⟨after, grouped, isGroup, resolves, known, explored⟩ :=
    taken.resolveCodes transitions codes nothing
  have isMoves : (powerset.moves state).1 = grouped := isGroup.symm
  have isFailure : (powerset.neighbours state).2 =
      (powerset.arrivals transitions codes).2 := rfl
  have neighbours : (powerset.neighbours state).1 =
      (Move.group (powerset.arrivals transitions codes).1).map Move.target := rfl
  rw [← Move.discoverAll_targets, ← neighbours] at explored
  rw [← isFailure, ← isMoves] at resolves
  rw [← isMoves] at known
  cases outcome : (powerset.neighbours state).2 with
  | none =>
      rw [outcome] at resolves
      refine ⟨number, left, [], after.setTransitions number
        (powerset.transitionsAmong after.states state), isNext, isPlace, ?_, ?_,
        fun _ => rfl⟩
      · exact visit_eq_ok isNumber resolves
      · exact explored.setTransitions (taken.getElem?_states explored isNumber) known
  | some dangling =>
      rw [outcome] at resolves
      exact ⟨number, left, [number], after, isNext, isPlace,
        visit_eq_error isNumber resolves, explored, nofun⟩

theorem next?_eq_none
    (explores : powerset.Explores order current construction exploration)
    (nothingPending : exploration.pending = []) :
    construction.next? order = none := by
  have nothingWaiting := explores.pending
  rw [nothingPending] at nothingWaiting
  exact Construction.next?_eq_none (List.forall₂_nil_right_iff.mp nothingWaiting)

/-- With no failure so far, visits fail where those of the exploration do. -/
theorem visitAll (explores : powerset.Explores order [] construction exploration)
    (noFailure : exploration.failure = none) (fuel : Nat) :
    ∃ current after,
      powerset.visitAll order fuel construction =
        ending (exploration.run order powerset.neighbours fuel).failure () after ∧
      powerset.Explores order current after
        (exploration.run order powerset.neighbours fuel) ∧
      ((exploration.run order powerset.neighbours fuel).failure = none →
        current = []) := by
  induction fuel generalizing construction exploration with
  | zero =>
      refine ⟨[], construction, ?_, explores, fun _ => rfl⟩
      rw [Exploration.run, noFailure]
      rfl
  | succ fuel induction =>
      rw [Exploration.run]
      cases isPending : exploration.pending with
      | nil =>
          rw [visitAll_done fuel (explores.next?_eq_none isPending), noFailure]
          exact ⟨[], construction, rfl, explores, fun _ => rfl⟩
      | cons state later =>
          obtain ⟨number, left, current, after, isNext, _, isVisit, explored, settled⟩ :=
            explores.visit isPending
          rw [visitAll_next fuel isNext, isVisit]
          cases outcome : (powerset.neighbours state).2 with
          | none =>
              obtain ⟨_, adds, _⟩ := Exploration.discoverAll_adds order
                { exploration with pending := later } (powerset.neighbours state).1
              rw [settled outcome] at explored
              simp only [outcome]
              exact induction explored (adds.failure_eq.trans noFailure)
          | some dangling =>
              simp only [outcome]
              refine ⟨current, after, rfl, ⟨explored.consistent, explored.states_eq,
                explored.pending, explored.visited⟩, ?_⟩
              intro succeeds
              exact absurd succeeds (Option.some_ne_none dangling)

end Explores

theorem empty_explores (powerset : Powerset ι) (order : VisitOrder) :
    powerset.Explores order [] .empty ⟨[], [], none⟩ := by
  refine ⟨.empty, rfl, ?_, nofun⟩
  cases order <;> exact .nil

theorem resolve_start (order : VisitOrder) {start : NodeSet}
    (closes : powerset.close [powerset.automaton.start] = .ok start) :
    ∃ first, powerset.resolve [powerset.automaton.start] .empty = .ok 0 first ∧
      powerset.Explores order [] first (.startingAt start) := by
  obtain ⟨first, isResolved, explored⟩ :=
    (powerset.empty_explores order).resolve closes
  have isStart : (⟨[], [], none⟩ : Exploration NodeSet Dangling).discover order start =
      .startingAt start := by
    cases order <;> rfl
  rw [isStart] at explored
  have isFirst : first.states.idxOf start = 0 := by
    rw [explored.states_eq]
    exact List.idxOf_cons_self
  rw [isFirst] at isResolved
  exact ⟨first, isResolved, explored⟩

/-- Building explores the powerset, whatever dangles, and the start has the first
number. -/
theorem construct_explores (powerset : Powerset ι) (order : VisitOrder) :
    ∃ current after,
      powerset.construct order .empty =
        ending (powerset.explore order).failure 0 after ∧
      powerset.Explores order current after (powerset.explore order) ∧
      ((powerset.explore order).failure = none → current = []) := by
  have nothingMet := powerset.empty_explores order
  rw [explore]
  cases closes : powerset.close [powerset.automaton.start] with
  | error dangling =>
      refine ⟨[], .empty, ?_, ⟨.empty, rfl, nothingMet.pending, nofun⟩, nofun⟩
      simp only [construct, bind, EStateM.bind, resolve, closes]
      rfl
  | ok start =>
      obtain ⟨first, isResolved, explored⟩ := resolve_start order closes
      obtain ⟨current, after, visits, explores, settled⟩ :=
        explored.visitAll rfl (Nat.pow 2 powerset.rows.length)
      refine ⟨current, after, ?_, explores, settled⟩
      simp only [construct, bind, EStateM.bind, isResolved, visits]
      cases ((Exploration.startingAt start).run order powerset.neighbours
        (Nat.pow 2 powerset.rows.length)).failure with
      | none => rfl
      | some dangling => rfl

/-- Once nothing is left to be visited, every node has its transitions. -/
theorem Explores.nodes_eq [LE ι] [DecidableLE ι]
    (explores : powerset.Explores order [] construction exploration)
    (nothingPending : exploration.pending = []) :
    construction.nodes = (powerset.toAutomaton construction.states).nodes := by
  have nothingWaiting := explores.pending
  rw [nothingPending, List.forall₂_nil_right_iff] at nothingWaiting
  apply List.ext_getElem?
  intro number
  rw [toAutomaton, List.getElem?_mapIdx]
  by_cases bound : number < construction.nodes.length
  · have isVisited := (explores.visited number bound).resolve_left List.not_mem_nil
    rw [← construction.mem_waiting_iff order, nothingWaiting] at isVisited
    obtain ⟨state, isNumber, _, isNode⟩ := isVisited.resolve_left List.not_mem_nil
    rw [isNode, isNumber]
    rfl
  · have outside := Nat.le_of_not_lt bound
    rw [List.getElem?_eq_none outside, List.getElem?_eq_none
      (explores.consistent.length_eq ▸ outside)]
    rfl

end Powerset

namespace Automaton

variable {ι : Type} [LE ι] [DecidableLE ι] {automaton : Automaton ι}
  {powerset : Powerset ι} {order : VisitOrder}

/-- Determinizing numbers the states that an exploration of the powerset finds. -/
theorem determinize_eq_explored
    (isPowerset : Powerset.ofAutomaton automaton = .ok powerset)
    (succeeds : (powerset.explore order).failure = none)
    (nothingPending : (powerset.explore order).pending = []) :
    automaton.determinize order =
      .ok (powerset.toAutomaton (powerset.explore order).found) := by
  obtain ⟨current, after, isConstructed, explores, settled⟩ :=
    powerset.construct_explores order
  rw [settled succeeds] at explores
  rw [succeeds] at isConstructed
  rw [← explores.states_eq, determinize, isPowerset]
  simp only [bind, Except.bind, EStateM.run, isConstructed, Powerset.ending,
    explores.nodes_eq nothingPending]
  rfl

theorem determinize_eq_error {dangling : Dangling}
    (isPowerset : Powerset.ofAutomaton automaton = .ok powerset)
    (fails : (powerset.explore order).failure = some dangling) :
    automaton.determinize order = .error dangling := by
  obtain ⟨_, after, isConstructed, _, _⟩ := powerset.construct_explores order
  rw [fails] at isConstructed
  rw [determinize, isPowerset]
  simp only [bind, Except.bind, EStateM.run, isConstructed, Powerset.ending]

end Automaton

end LexGen
