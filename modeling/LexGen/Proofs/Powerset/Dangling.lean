import LexGen.Proofs.Powerset.Shape
import LexGen.Proofs.Visits

/-!
# Which dangling references are followed

Automata may refer to nodes that do not exist.  Determinizing one looks up the targets
of all free transitions, the start node, and the targets of the labelled transitions
of those nodes that the start node reaches.  It fails exactly if one of these dangles,
and names it.  What it never looks up may dangle, and is not in the result.
-/

namespace LexGen

/-- The node does not exist, and is referred to where determinizing follows the
reference. -/
inductive Automaton.Dangles {ι : Type} (automaton : Automaton ι) : Nat → Prop where
  /-- A free transition of any node dangles, whether or not the node is reached. -/
  | free {number : Nat} {transition : Transition} :
      automaton.Leaves number transition →
      transition.isFree = true →
      automaton.nodes.length ≤ transition.target →
      Dangles automaton transition.target
  | start :
      automaton.nodes.length ≤ automaton.start →
      Dangles automaton automaton.start
  /-- A labelled transition of a node that the start node reaches dangles. -/
  | labelled {number : Nat} {transition : Transition} :
      automaton.Reaches automaton.start number →
      automaton.Leaves number transition →
      transition.isFree = false →
      automaton.nodes.length ≤ transition.target →
      Dangles automaton transition.target

namespace Powerset

variable {ι : Type} {powerset : Powerset ι}

section Arrivals

variable {transitions : List Transition} {codes : List Int}

theorem mem_arrivals {code : Int} {target : NodeSet}
    (arrives : (code, target) ∈ (powerset.arrivals transitions codes).1) :
    code ∈ codes ∧
      powerset.close (targets transitions code).nodes = .ok target := by
  induction codes with
  | nil => cases arrives
  | cons first codes induction =>
      rw [arrivals] at arrives
      cases closes : powerset.close (targets transitions first).nodes with
      | error dangling =>
          rw [closes] at arrives
          cases arrives
      | ok reached =>
          rw [closes] at arrives
          cases List.mem_cons.mp arrives with
          | inl here =>
              cases here
              exact ⟨List.mem_cons_self, closes⟩
          | inr later =>
              obtain ⟨inCodes, isTarget⟩ := induction later
              exact ⟨List.mem_cons_of_mem first inCodes, isTarget⟩

/-- Either all codes arrive somewhere, or the targets of one of them dangle. -/
theorem arrivals_cases (powerset : Powerset ι) (transitions : List Transition)
    (codes : List Int) :
    ((powerset.arrivals transitions codes).2 = none ∧
      ∀ code ∈ codes, ∃ target,
        (code, target) ∈ (powerset.arrivals transitions codes).1) ∨
    ∃ dangling, (powerset.arrivals transitions codes).2 = some dangling ∧
      ∃ code ∈ codes,
        powerset.close (targets transitions code).nodes = .error dangling := by
  induction codes with
  | nil => exact .inl ⟨rfl, nofun⟩
  | cons first codes induction =>
      rw [arrivals]
      cases closes : powerset.close (targets transitions first).nodes with
      | error dangling =>
          exact .inr ⟨dangling, rfl, first, List.mem_cons_self, closes⟩
      | ok reached =>
          cases induction with
          | inl succeeds =>
              obtain ⟨noFailure, arrive⟩ := succeeds
              refine .inl ⟨noFailure, ?_⟩
              intro code isCode
              cases List.mem_cons.mp isCode with
              | inl isFirst =>
                  rw [isFirst]
                  exact ⟨reached, List.mem_cons_self⟩
              | inr inCodes =>
                  obtain ⟨target, arrives⟩ := arrive code inCodes
                  exact ⟨target, List.mem_cons_of_mem _ arrives⟩
          | inr fails =>
              obtain ⟨dangling, isFailure, code, inCodes, isError⟩ := fails
              exact .inr ⟨dangling, isFailure, code,
                List.mem_cons_of_mem first inCodes, isError⟩

theorem neighbour_iff_arrives {state target : NodeSet} :
    Exploration.Neighbour powerset.neighbours state target ↔
      ∃ code, (code, target) ∈ (powerset.arrivals (powerset.transitionsOf state)
        (alphabet (powerset.transitionsOf state)).toList).1 :=
  Move.mem_targets_group

end Arrivals

/-- The rows are the closure of the free transitions, none of which dangles.  The
start node and the labelled transitions may. -/
structure HasClosure (powerset : Powerset ι) : Prop where
  isClosure : Closure.IsClosureOf powerset.automaton.freeRows powerset.rows
  isBounded : Closure.IsBounded powerset.automaton.freeRows

namespace HasClosure

variable (hasClosure : powerset.HasClosure)
include hasClosure

theorem last_lt {first last : Nat} (path : powerset.automaton.Reads first [] last)
    (bound : first < powerset.automaton.nodes.length) :
    last < powerset.automaton.nodes.length := by
  cases Automaton.reads_nil_iff.mp path with
  | refl => exact bound
  | tail _ step =>
      rw [← Automaton.length_freeRows]
      exact Closure.lt_length_of_steps hasClosure.isBounded step

theorem isState_of_close {nodes : List Nat} {state : NodeSet}
    (closes : powerset.close nodes = .ok state)
    (nonempty : ∃ node, node ∈ nodes) :
    powerset.IsState state ∧
      (∀ node ∈ nodes, node < powerset.automaton.nodes.length) ∧
      ∀ target, target ∈ state ↔
        ∃ node ∈ nodes, powerset.automaton.Reads node [] target := by
  cases close_cases hasClosure.isClosure nodes with
  | inr fails =>
      obtain ⟨dangling, isDangling, _⟩ := fails
      rw [closes] at isDangling
      cases isDangling
  | inl succeeds =>
      obtain ⟨set, isSet, bounded, inSet⟩ := succeeds
      rw [closes] at isSet
      cases isSet
      refine ⟨⟨?_, ?_, ?_⟩, bounded, inSet⟩
      · obtain ⟨node, inNodes⟩ := nonempty
        exact ⟨node, (inSet node).mpr ⟨node, inNodes, .stay node⟩⟩
      · intro target inState
        obtain ⟨node, inNodes, path⟩ := (inSet target).mp inState
        exact hasClosure.last_lt path (bounded node inNodes)
      · intro middle inState target free
        obtain ⟨node, inNodes, path⟩ := (inSet middle).mp inState
        exact (inSet target).mpr ⟨node, inNodes, path.append free⟩

theorem dangles_of_close {nodes : List Nat} {dangling : Dangling}
    (fails : powerset.close nodes = .error dangling) :
    dangling.node ∈ nodes ∧
      powerset.automaton.nodes.length ≤ dangling.node := by
  cases close_cases hasClosure.isClosure nodes with
  | inl succeeds =>
      obtain ⟨set, isSet, _⟩ := succeeds
      rw [fails] at isSet
      cases isSet
  | inr isDangling =>
      obtain ⟨other, isOther, inNodes, outside⟩ := isDangling
      rw [fails] at isOther
      cases isOther
      exact ⟨inNodes, outside⟩

section Neighbours

variable {state : NodeSet}

/-- The step of the exploration: a neighbour is a state, and its nodes are reached
from those of the state before. -/
theorem isState_of_neighbour {target : NodeSet}
    (isNeighbour : Exploration.Neighbour powerset.neighbours state target) :
    powerset.IsState target ∧
      ∀ node ∈ target, ∃ source ∈ state,
        powerset.automaton.Reaches source node := by
  obtain ⟨code, arrives⟩ := neighbour_iff_arrives.mp isNeighbour
  obtain ⟨inCodes, closes⟩ := mem_arrivals arrives
  obtain ⟨transition, leavesState, takes⟩ :=
    mem_alphabet.mp (CodeSet.mem_toList.mp inCodes)
  have isTarget : transition.target ∈
      targets (powerset.transitionsOf state) code :=
    mem_targets.mpr ⟨transition, leavesState, takes, rfl⟩
  obtain ⟨isState, _, inTarget⟩ :=
    hasClosure.isState_of_close closes ⟨transition.target, isTarget⟩
  refine ⟨isState, ?_⟩
  intro node isReached
  obtain ⟨middle, isMiddle, path⟩ := (inTarget node).mp isReached
  obtain ⟨transition, leavesState, takes, isTarget⟩ := mem_targets.mp isMiddle
  obtain ⟨source, inState, leaves⟩ := mem_transitionsOf.mp leavesState
  rw [← isTarget] at path
  exact ⟨source, inState, [code], .consume leaves takes path⟩

theorem exists_neighbour (succeeds : (powerset.neighbours state).2 = none)
    {source : Nat} {transition : Transition} {code : Int}
    (inState : source ∈ state)
    (leaves : powerset.automaton.Leaves source transition)
    (takes : code ∈ transition.label) :
    transition.target < powerset.automaton.nodes.length ∧
      ∃ target, Exploration.Neighbour powerset.neighbours state target ∧
        transition.target ∈ target := by
  have leavesState := mem_transitionsOf.mpr ⟨source, inState, leaves⟩
  have inCodes :=
    CodeSet.mem_toList.mpr (mem_alphabet.mpr ⟨transition, leavesState, takes⟩)
  cases powerset.arrivals_cases (powerset.transitionsOf state)
      (alphabet (powerset.transitionsOf state)).toList with
  | inr fails =>
      obtain ⟨dangling, isFailure, _⟩ := fails
      have isNone : (powerset.arrivals (powerset.transitionsOf state)
        (alphabet (powerset.transitionsOf state)).toList).2 = none := succeeds
      rw [isFailure] at isNone
      cases isNone
  | inl arrive =>
      obtain ⟨target, arrives⟩ := arrive.2 code inCodes
      have isTarget : transition.target ∈
          targets (powerset.transitionsOf state) code :=
        mem_targets.mpr ⟨transition, leavesState, takes, rfl⟩
      obtain ⟨_, bounded, inTarget⟩ := hasClosure.isState_of_close
        (mem_arrivals arrives).2 ⟨transition.target, isTarget⟩
      refine ⟨bounded transition.target isTarget, target,
        neighbour_iff_arrives.mpr ⟨code, arrives⟩, ?_⟩
      exact (inTarget transition.target).mpr
        ⟨transition.target, isTarget, .stay transition.target⟩

theorem exists_dangling_transition {dangling : Dangling}
    (fails : (powerset.neighbours state).2 = some dangling) :
    ∃ source ∈ state, ∃ transition,
      powerset.automaton.Leaves source transition ∧
        transition.isFree = false ∧ transition.target = dangling.node ∧
        powerset.automaton.nodes.length ≤ dangling.node := by
  have isFailure : (powerset.arrivals (powerset.transitionsOf state)
    (alphabet (powerset.transitionsOf state)).toList).2 = some dangling := fails
  cases powerset.arrivals_cases (powerset.transitionsOf state)
      (alphabet (powerset.transitionsOf state)).toList with
  | inl succeeds =>
      rw [isFailure] at succeeds
      cases succeeds.1
  | inr isDangling =>
      obtain ⟨other, isOther, code, _, isError⟩ := isDangling
      rw [isFailure] at isOther
      cases isOther
      obtain ⟨isTarget, outside⟩ := hasClosure.dangles_of_close isError
      obtain ⟨transition, leavesState, takes, same⟩ := mem_targets.mp isTarget
      obtain ⟨source, inState, leaves⟩ := mem_transitionsOf.mp leavesState
      exact ⟨source, inState, transition, leaves,
        CodeSet.isEmpty_eq_false_iff.mpr ⟨code, takes⟩, same, outside⟩

end Neighbours

section Explored

variable {start : NodeSet}
  (closes : powerset.close [powerset.automaton.start] = .ok start)
include closes

theorem isState_of_reaches {state : NodeSet}
    (reaches : Exploration.Reaches powerset.neighbours start state) :
    powerset.IsState state ∧
      ∀ node ∈ state, powerset.automaton.Reaches powerset.automaton.start node := by
  induction reaches with
  | refl =>
      obtain ⟨isState, _, inStart⟩ := hasClosure.isState_of_close closes
        ⟨powerset.automaton.start, List.mem_singleton_self _⟩
      refine ⟨isState, ?_⟩
      intro node member
      obtain ⟨first, isFirst, path⟩ := (inStart node).mp member
      rw [List.mem_singleton.mp isFirst] at path
      exact ⟨[], path⟩
  | @tail middle target _ isNeighbour induction =>
      obtain ⟨isState, fromMiddle⟩ := hasClosure.isState_of_neighbour isNeighbour
      refine ⟨isState, ?_⟩
      intro node member
      obtain ⟨source, inMiddle, word, path⟩ := fromMiddle node member
      obtain ⟨earlier, fromStart⟩ := induction.2 source inMiddle
      exact ⟨earlier ++ word, fromStart.append path⟩

theorem exists_state_of_reads
    (succeeds : ∀ state, Exploration.Reaches powerset.neighbours start state →
      (powerset.neighbours state).2 = none)
    {first last : Nat} {word : List Int}
    (path : powerset.automaton.Reads first word last) {state : NodeSet}
    (reaches : Exploration.Reaches powerset.neighbours start state)
    (inState : first ∈ state) :
    ∃ later, Exploration.Reaches powerset.neighbours start later ∧
      last ∈ later := by
  induction path generalizing state with
  | stay number => exact ⟨state, reaches, inState⟩
  | @free number last transition word leaves isFree _ induction =>
      have isState := (hasClosure.isState_of_reaches closes reaches).1
      have targetInState : transition.target ∈ state :=
        isState.closed number inState transition.target
          (.free leaves isFree (.stay transition.target))
      exact induction reaches targetInState
  | consume leaves takes _ induction =>
      obtain ⟨_, target, isNeighbour, inTarget⟩ := hasClosure.exists_neighbour
        (succeeds state reaches) inState leaves takes
      exact induction (reaches.tail isNeighbour) inTarget

theorem not_dangles
    (succeeds : ∀ state, Exploration.Reaches powerset.neighbours start state →
      (powerset.neighbours state).2 = none) (node : Nat) :
    ¬ powerset.automaton.Dangles node := by
  obtain ⟨_, startBounded, inStart⟩ := hasClosure.isState_of_close closes
    ⟨powerset.automaton.start, List.mem_singleton_self _⟩
  intro dangles
  cases dangles with
  | free leaves isFree outside =>
      have step := Automaton.steps_freeRows_iff.mpr ⟨_, leaves, isFree, rfl⟩
      have inside := Closure.lt_length_of_steps hasClosure.isBounded step
      rw [Automaton.length_freeRows] at inside
      exact absurd inside (Nat.not_lt.mpr outside)
  | start outside =>
      have inside := startBounded _ (List.mem_singleton_self _)
      exact absurd inside (Nat.not_lt.mpr outside)
  | labelled fromStart leaves notFree outside =>
      obtain ⟨word, path⟩ := fromStart
      obtain ⟨code, takes⟩ := CodeSet.isEmpty_eq_false_iff.mp notFree
      have startInStart : powerset.automaton.start ∈ start :=
        (inStart _).mpr ⟨_, List.mem_singleton_self _, .stay _⟩
      obtain ⟨state, reaches, inState⟩ :=
        hasClosure.exists_state_of_reads closes succeeds path .refl startInStart
      have inside := (hasClosure.exists_neighbour (succeeds state reaches)
        inState leaves takes).1
      exact absurd inside (Nat.not_lt.mpr outside)

end Explored

/-- An exploration that is not ended by a dangling reference finds states that all
their moves lead among, and then no reference that it follows dangles. -/
theorem explore_cases (order : VisitOrder) :
    ((powerset.explore order).failure = none ∧
      (powerset.explore order).pending = [] ∧
      0 < (powerset.explore order).found.length ∧
      (∀ state ∈ (powerset.explore order).found,
        ∀ move ∈ (powerset.moves state).1,
          move.target ∈ (powerset.explore order).found) ∧
      ∀ node, ¬ powerset.automaton.Dangles node) ∨
    ∃ dangling, (powerset.explore order).failure = some dangling ∧
      powerset.automaton.Dangles dangling.node := by
  cases closes : powerset.close [powerset.automaton.start] with
  | error dangling =>
      right
      refine ⟨dangling, ?_, ?_⟩
      · rw [explore, closes]
      · obtain ⟨isStart, outside⟩ := hasClosure.dangles_of_close closes
        rw [List.mem_singleton.mp isStart] at outside ⊢
        exact .start outside
  | ok start =>
      have inBelow : ∀ state,
          Exploration.Reaches powerset.neighbours start state →
            state ∈ NodeSet.below powerset.rows.length := by
        intro state reaches
        apply NodeSet.mem_below
        rw [hasClosure.isClosure.length_eq, Automaton.length_freeRows]
        exact (hasClosure.isState_of_reaches closes reaches).1.bounded
      rw [explore_eq_run closes]
      cases Exploration.run_startingAt_cases order inBelow
          (Nat.le_of_eq (NodeSet.length_below _)) with
      | inr fails =>
          obtain ⟨state, dangling, reaches, isFailure, ends⟩ := fails
          right
          refine ⟨dangling, ends, ?_⟩
          obtain ⟨source, inState, transition, leaves, notFree, isTarget, outside⟩ :=
            hasClosure.exists_dangling_transition isFailure
          rw [← isTarget] at outside ⊢
          have fromStart :=
            (hasClosure.isState_of_reaches closes reaches).2 source inState
          exact .labelled fromStart leaves notFree outside
      | inl completes =>
          obtain ⟨nothingPending, complete⟩ := completes
          left
          refine ⟨complete.failure_eq_none, nothingPending, ?_, ?_, ?_⟩
          · exact List.length_pos_of_mem
              (List.mem_of_mem_head? complete.head_found)
          · intro state isFound move isMove
            have reaches := (complete.mem_found_iff state).mp isFound
            have isNeighbour : Exploration.Neighbour powerset.neighbours state
                move.target := List.mem_map_of_mem isMove
            exact (complete.mem_found_iff move.target).mpr
              (reaches.tail isNeighbour)
          · exact hasClosure.not_dangles closes
              (complete.succeeds nothingPending)

end HasClosure

end Powerset

namespace Automaton

variable {ι : Type}

theorem dangles_of_isDangling {automaton : Automaton ι} {node : Nat}
    (isDangling : Closure.IsDangling automaton.freeRows node) :
    automaton.Dangles node := by
  obtain ⟨outside, row, inRows, inRow⟩ := isDangling
  obtain ⟨source, isRow⟩ := List.mem_iff_getElem?.mp inRows
  obtain ⟨transition, leaves, isFree, isTarget⟩ :=
    steps_freeRows_iff.mp ⟨row, isRow, inRow⟩
  rw [length_freeRows, ← isTarget] at outside
  rw [← isTarget]
  exact .free leaves isFree outside

theorem ofAutomaton_cases (automaton : Automaton ι) :
    (∃ powerset : Powerset ι, Powerset.ofAutomaton automaton = .ok powerset ∧
      powerset.automaton = automaton ∧ powerset.HasClosure) ∨
    ∃ dangling, Powerset.ofAutomaton automaton = .error dangling ∧
      automaton.Dangles dangling.node := by
  by_cases bounded : Closure.IsBounded automaton.freeRows
  · obtain ⟨rows, isRows, isClosure⟩ :=
      Closure.transitiveClosure_isClosureOf bounded
    left
    refine ⟨⟨automaton, rows⟩, ?_, rfl, ⟨isClosure, bounded⟩⟩
    rw [Powerset.ofAutomaton, isRows]
    rfl
  · obtain ⟨node, isDangling⟩ := Closure.exists_isDangling bounded
    obtain ⟨dangling, isError, isDangling⟩ :=
      Closure.transitiveClosure_dangles isDangling
    right
    refine ⟨dangling, ?_, dangles_of_isDangling isDangling⟩
    rw [Powerset.ofAutomaton, isError]
    rfl

variable [LE ι] [DecidableLE ι]

/-- Determinizing follows a dangling reference and names it, or there is none to be
followed and none in the result. -/
theorem determinize_cases (automaton : Automaton ι) (order : VisitOrder) :
    (∃ deterministic, automaton.determinize order = .ok deterministic ∧
      deterministic.IsClosed ∧
      (∀ entry ∈ deterministic.items.entries,
        entry.1 < deterministic.nodes.length) ∧
      deterministic.isDeterministic = true ∧
      ∀ node, ¬ automaton.Dangles node) ∨
    ∃ dangling, automaton.determinize order = .error dangling ∧
      automaton.Dangles dangling.node := by
  cases ofAutomaton_cases automaton with
  | inr fails =>
      obtain ⟨dangling, isError, dangles⟩ := fails
      right
      refine ⟨dangling, ?_, dangles⟩
      rw [determinize, isError]
      rfl
  | inl succeeds =>
      obtain ⟨powerset, isPowerset, isAutomaton, hasClosure⟩ := succeeds
      have explores := hasClosure.explore_cases order
      rw [isAutomaton] at explores
      cases explores with
      | inr fails =>
          obtain ⟨dangling, isFailure, dangles⟩ := fails
          exact .inr ⟨dangling, determinize_eq_error isPowerset isFailure, dangles⟩
      | inl completes =>
          obtain ⟨noFailure, nothingPending, hasStart, inFound, nothingDangles⟩ :=
            completes
          left
          refine ⟨_, determinize_eq_explored isPowerset noFailure nothingPending,
            Powerset.toAutomaton_isClosed hasStart inFound,
            Powerset.item_lt_toAutomaton, ?_, nothingDangles⟩
          apply isDeterministic_iff.mpr
          intro node isNode
          have orderly := Powerset.node_isOrderly_toAutomaton inFound node isNode
          exact ⟨orderly.consumes, orderly.apart⟩

/-- Determinizing fails exactly if one of the references that it follows dangles, and
names such a one.  Otherwise the result is a deterministic automaton in which nothing
dangles, whatever does in the original. -/
theorem determinize_dangles_iff (automaton : Automaton ι) (order : VisitOrder) :
    ((∃ dangling, automaton.determinize order = .error dangling ∧
        automaton.Dangles dangling.node) ↔
      ∃ node, automaton.Dangles node) ∧
    ((∃ deterministic, automaton.determinize order = .ok deterministic ∧
        deterministic.IsClosed ∧
        (∀ entry ∈ deterministic.items.entries,
          entry.1 < deterministic.nodes.length) ∧
        deterministic.isDeterministic = true) ↔
      ¬ ∃ node, automaton.Dangles node) := by
  cases determinize_cases automaton order with
  | inl succeeds =>
      obtain ⟨deterministic, isDeterminized, closed, bounded, isDeterministic,
        nothingDangles⟩ := succeeds
      have noneDangles : ¬ ∃ node, automaton.Dangles node :=
        not_exists.mpr nothingDangles
      refine ⟨iff_of_false ?_ noneDangles, iff_of_true ?_ noneDangles⟩
      · intro fails
        obtain ⟨dangling, _, dangles⟩ := fails
        exact nothingDangles dangling.node dangles
      · exact ⟨deterministic, isDeterminized, closed, bounded, isDeterministic⟩
  | inr fails =>
      obtain ⟨dangling, isError, dangles⟩ := fails
      have someDangles : ∃ node, automaton.Dangles node := ⟨dangling.node, dangles⟩
      refine ⟨iff_of_true ⟨dangling, isError, dangles⟩ someDangles,
        iff_of_false ?_ (not_not_intro someDangles)⟩
      intro succeeds
      obtain ⟨deterministic, isDeterminized, _⟩ := succeeds
      rw [isError] at isDeterminized
      cases isDeterminized

/-- A labelled transition of a node that is not reached dangles, and so does an item.
Neither is followed. -/
example :
    let automaton : Automaton Nat :=
      { start := 0
        items := .ofList [(1, 4), (7, 2)]
        nodes :=
          [⟨0, [⟨.singleton 97, 1⟩]⟩, ⟨1, []⟩, ⟨2, [⟨.singleton 97, 9⟩]⟩] }
    (automaton.determinize .depthFirst).map Automaton.nodes =
      .ok [⟨0, [⟨.singleton 97, 1⟩]⟩, ⟨1, []⟩] := by
  decide +kernel

end Automaton

end LexGen
