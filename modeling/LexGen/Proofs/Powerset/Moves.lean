import LexGen.CodeSet.Lemmas
import LexGen.Powerset.Basic
import LexGen.Proofs.Paths

/-!
# The moves of a powerset

A state of a powerset holds nodes of the automaton and all that they reach
freely.  Grouping codes by their targets loses nothing, so that the moves out of
a state lead, for every code that some node of the state takes, to exactly the
nodes that the code leads to.
-/

namespace LexGen

/-- Some move takes the code to the target. -/
def Move.Leads (moves : List Move) (code : Int) (target : NodeSet) : Prop :=
  ∃ move ∈ moves, code ∈ move.label ∧ move.target = target

theorem Move.leads_cons {move : Move} {moves : List Move} {code : Int}
    {target : NodeSet} :
    Leads (move :: moves) code target ↔
      code ∈ move.label ∧ move.target = target ∨ Leads moves code target :=
  List.exists_mem_cons_iff _ _ _

theorem Move.leads_add {moves : List Move} {added code : Int}
    {target place : NodeSet} (inDomain : added ∈ Code.domain) :
    Leads (add added target moves) code place ↔
      Leads moves code place ∨ code = added ∧ target = place := by
  induction moves with
  | nil =>
      rw [add, leads_cons, CodeSet.mem_singleton]
      simp [Leads, inDomain]
  | cons move moves induction =>
      rw [add]
      split
      next same =>
        rw [leads_cons, leads_cons, CodeSet.mem_insert, or_and_right, same,
          or_assoc, or_assoc]
        simp only [inDomain, and_true]
        exact or_congr Iff.rfl or_comm
      next different =>
        rw [leads_cons, leads_cons, induction, or_assoc]

theorem Move.group_eq_foldl (arrivals : List (Int × NodeSet)) :
    group arrivals = arrivals.foldl
      (fun moves arrival => add arrival.1 arrival.2 moves) [] :=
  rfl

theorem Move.group_concat (arrivals : List (Int × NodeSet)) (code : Int)
    (target : NodeSet) :
    group (arrivals ++ [(code, target)]) = add code target (group arrivals) := by
  rw [group_eq_foldl, List.foldl_append]
  rfl

theorem Move.leads_group {arrivals : List (Int × NodeSet)} {code : Int}
    {place : NodeSet}
    (inDomain : ∀ arrival ∈ arrivals, arrival.1 ∈ Code.domain) :
    Leads (group arrivals) code place ↔ (code, place) ∈ arrivals := by
  have grouped (moves : List Move) :
      Leads (arrivals.foldl
          (fun moves arrival => add arrival.1 arrival.2 moves) moves)
          code place ↔
        Leads moves code place ∨ (code, place) ∈ arrivals := by
    induction arrivals generalizing moves with
    | nil => simp
    | cons arrival arrivals induction =>
        obtain ⟨added, target⟩ := arrival
        have addedInDomain : added ∈ Code.domain :=
          inDomain (added, target) List.mem_cons_self
        rw [List.foldl_cons, induction (fun arrival member =>
            inDomain arrival (List.mem_cons_of_mem _ member)),
          leads_add addedInDomain, List.mem_cons, Prod.mk.injEq, or_assoc,
          eq_comm (a := target)]
  rw [group_eq_foldl, grouped]
  simp [Leads]

theorem Move.exists_mem_label_of_mem_group {arrivals : List (Int × NodeSet)}
    (inDomain : ∀ arrival ∈ arrivals, arrival.1 ∈ Code.domain) :
    ∀ move ∈ group arrivals, ∃ code, code ∈ move.label := by
  have added (moves : List Move) (code : Int) (target : NodeSet)
      (codeInDomain : code ∈ Code.domain)
      (inhabited : ∀ move ∈ moves, ∃ code, code ∈ move.label) :
      ∀ move ∈ add code target moves, ∃ code, code ∈ move.label := by
    induction moves with
    | nil =>
        intro move member
        rw [List.mem_singleton.mp member]
        exact ⟨code, CodeSet.mem_singleton.mpr ⟨rfl, codeInDomain⟩⟩
    | cons first later induction =>
        obtain ⟨firstInhabited, laterInhabited⟩ :=
          List.forall_mem_cons.mp inhabited
        rw [add]
        split
        · refine List.forall_mem_cons.mpr ⟨?_, laterInhabited⟩
          exact ⟨code, CodeSet.mem_insert.mpr (.inr ⟨rfl, codeInDomain⟩)⟩
        · exact List.forall_mem_cons.mpr
            ⟨firstInhabited, induction laterInhabited⟩
  have grouped (moves : List Move)
      (inhabited : ∀ move ∈ moves, ∃ code, code ∈ move.label) :
      ∀ move ∈ arrivals.foldl
        (fun moves arrival => add arrival.1 arrival.2 moves) moves,
        ∃ code, code ∈ move.label := by
    induction arrivals generalizing moves with
    | nil => exact inhabited
    | cons arrival arrivals induction =>
        obtain ⟨firstInDomain, laterInDomain⟩ := List.forall_mem_cons.mp inDomain
        exact induction laterInDomain _
          (added moves arrival.1 arrival.2 firstInDomain inhabited)
  rw [group_eq_foldl]
  exact grouped [] nofun

/-- The first transition made of a move that takes the code leads where the
moves lead, and there is one if the moves lead anywhere. -/
theorem Move.target?_map (moves : List Move) (number : NodeSet → Nat)
    (name : Nat) (code : Int) :
    (∃ target, Leads moves code target ∧
      Node.target? ⟨name, moves.map fun move =>
        ⟨move.label, number move.target⟩⟩ code = some (number target)) ∨
    (∀ target, ¬ Leads moves code target) ∧
      Node.target? ⟨name, moves.map fun move =>
        ⟨move.label, number move.target⟩⟩ code = none := by
  induction moves with
  | nil =>
      right
      exact ⟨fun target => nofun, rfl⟩
  | cons move moves induction =>
      by_cases takes : code ∈ move.label
      · left
        refine ⟨move.target, leads_cons.mpr (.inl ⟨takes, rfl⟩), ?_⟩
        have contains : move.label.contains code = true := takes
        simp [Node.target?, contains]
      · have skipped : Node.target? ⟨name, (move :: moves).map fun move =>
              ⟨move.label, number move.target⟩⟩ code =
            Node.target? ⟨name, moves.map fun move =>
              ⟨move.label, number move.target⟩⟩ code := by
          have misses : move.label.contains code = false :=
            Bool.eq_false_iff.mpr takes
          simp [Node.target?, misses]
        rw [skipped]
        refine induction.imp ?_ ?_
        · rintro ⟨target, leads, found⟩
          exact ⟨target, leads_cons.mpr (.inr leads), found⟩
        · rintro ⟨nowhere, notFound⟩
          refine ⟨fun target leads => ?_, notFound⟩
          rcases leads_cons.mp leads with ⟨here, _⟩ | later
          · exact takes here
          · exact nowhere target later

namespace Powerset

variable {ι : Type}

/-- The rows are the closure of the free transitions of a closed automaton. -/
structure IsSound (powerset : Powerset ι) : Prop where
  isClosed : powerset.automaton.IsClosed
  isClosure :
    Closure.IsClosureOf powerset.automaton.freeRows powerset.rows

/-- The set holds nodes of the automaton, at least one, and all that its members
reach freely. -/
structure IsState (powerset : Powerset ι) (state : NodeSet) : Prop where
  nonempty : ∃ node, node ∈ state
  bounded : ∀ node ∈ state, node < powerset.automaton.nodes.length
  closed : ∀ node ∈ state, ∀ target,
    powerset.automaton.Reads node [] target → target ∈ state

/-- The second set holds what the word leads to from the first one. -/
def Follows (powerset : Powerset ι) (state : NodeSet) (word : List Int)
    (later : NodeSet) : Prop :=
  ∀ target, target ∈ later ↔
    ∃ node ∈ state, powerset.automaton.Reads node word target

variable {powerset : Powerset ι}

theorem IsSound.length_rows (sound : powerset.IsSound) :
    powerset.rows.length = powerset.automaton.nodes.length :=
  sound.isClosure.length_eq.trans Automaton.length_freeRows

theorem close_cases
    (isClosure : Closure.IsClosureOf powerset.automaton.freeRows powerset.rows)
    (nodes : List Nat) :
    (∃ set, powerset.close nodes = .ok set ∧
      (∀ node ∈ nodes, node < powerset.automaton.nodes.length) ∧
      ∀ target, target ∈ set ↔
        ∃ node ∈ nodes, powerset.automaton.Reads node [] target) ∨
    ∃ dangling, powerset.close nodes = .error dangling ∧
      dangling.node ∈ nodes ∧
      powerset.automaton.nodes.length ≤ dangling.node := by
  have length : powerset.rows.length = powerset.automaton.nodes.length :=
    isClosure.length_eq.trans Automaton.length_freeRows
  cases Closure.gather_cases powerset.rows nodes with
  | inl gathers =>
      obtain ⟨set, closes, bounded, inSet⟩ := gathers
      rw [length] at bounded
      left
      refine ⟨set, closes, bounded, ?_⟩
      intro target
      rw [inSet]
      apply exists_congr
      intro node
      apply and_congr_right
      intro inNodes
      have bound := bounded node inNodes
      rw [← Automaton.length_freeRows] at bound
      rw [isClosure.steps_iff bound, Automaton.reads_nil_iff]
  | inr fails =>
      obtain ⟨dangling, isDangling, inNodes, outside⟩ := fails
      rw [length] at outside
      exact .inr ⟨dangling, isDangling, inNodes, outside⟩

theorem IsSound.close_eq_ok (sound : powerset.IsSound) {nodes : List Nat}
    (bounded : ∀ node ∈ nodes, node < powerset.automaton.nodes.length) :
    ∃ set, powerset.close nodes = .ok set ∧
      ∀ target, target ∈ set ↔
        ∃ node ∈ nodes, powerset.automaton.Reads node [] target := by
  cases close_cases sound.isClosure nodes with
  | inl closes =>
      obtain ⟨set, isSet, _, inSet⟩ := closes
      exact ⟨set, isSet, inSet⟩
  | inr fails =>
      obtain ⟨dangling, _, inNodes, outside⟩ := fails
      exact absurd (bounded dangling.node inNodes) (Nat.not_lt.mpr outside)

theorem mem_alphabet {transitions : List Transition} {code : Int} :
    code ∈ alphabet transitions ↔
      ∃ transition ∈ transitions, code ∈ transition.label := by
  have collected (codes : CodeSet) :
      code ∈ transitions.foldl
          (fun codes transition => codes ∪ transition.label) codes ↔
        code ∈ codes ∨ ∃ transition ∈ transitions, code ∈ transition.label := by
    induction transitions generalizing codes with
    | nil => simp
    | cons transition transitions induction =>
        rw [List.foldl_cons, induction, CodeSet.mem_union, or_assoc,
          List.exists_mem_cons_iff]
  rw [alphabet, collected]
  simp

theorem mem_targets {transitions : List Transition} {code : Int} {target : Nat} :
    target ∈ targets transitions code ↔
      ∃ transition ∈ transitions,
        code ∈ transition.label ∧ transition.target = target := by
  rw [targets, NodeSet.mem_ofList, List.mem_map]
  simp only [List.mem_filter, ← CodeSet.mem_iff_contains, and_assoc]

theorem mem_transitionsOf {state : NodeSet} {transition : Transition} :
    transition ∈ powerset.transitionsOf state ↔
      ∃ node ∈ state, powerset.automaton.Leaves node transition := by
  rw [transitionsOf, List.mem_flatMap]
  refine exists_congr fun number => and_congr Iff.rfl ?_
  unfold Automaton.Leaves
  cases powerset.automaton.nodes[number]? with
  | none => simp
  | some node => simp

theorem arrivals_eq {transitions : List Transition} {codes : List Int}
    {arrival : Int → NodeSet}
    (closes : ∀ code ∈ codes,
      powerset.close (targets transitions code).nodes = .ok (arrival code)) :
    powerset.arrivals transitions codes =
      (codes.map fun code => (code, arrival code), none) := by
  induction codes with
  | nil => rfl
  | cons code codes induction =>
      have later := induction fun other member =>
        closes other (List.mem_cons_of_mem code member)
      rw [arrivals, closes code List.mem_cons_self, later]
      rfl

/-- From a closed set a code is read by a transition that takes it and free ones
after it. -/
theorem IsState.reads_singleton_iff {state : NodeSet}
    (isState : powerset.IsState state) {code : Int} {target : Nat} :
    (∃ node ∈ state, powerset.automaton.Reads node [code] target) ↔
      ∃ transition ∈ powerset.transitionsOf state, code ∈ transition.label ∧
        powerset.automaton.Reads transition.target [] target := by
  constructor
  · rintro ⟨node, inState, path⟩
    obtain ⟨middle, transition, free, leaves, takes, further⟩ :=
      Automaton.reads_cons_iff.mp path
    have middleInState := isState.closed node inState middle free
    exact ⟨transition, mem_transitionsOf.mpr ⟨middle, middleInState, leaves⟩,
      takes, further⟩
  · rintro ⟨transition, leavesState, takes, further⟩
    obtain ⟨node, inState, leaves⟩ := mem_transitionsOf.mp leavesState
    exact ⟨node, inState, .consume leaves takes further⟩

/-- The moves out of a state are whole: none dangles, each takes some code, and
a code leads to what it reaches, if it reaches anything. -/
structure HasMoves (powerset : Powerset ι) (state : NodeSet) : Prop where
  failure_eq_none : (powerset.moves state).2 = none
  inhabited : ∀ move ∈ (powerset.moves state).1, ∃ code, code ∈ move.label
  exists_follows : ∀ code, ∃ target, powerset.Follows state [code] target
  leads_iff : ∀ code target, Move.Leads (powerset.moves state).1 code target ↔
    (∃ node, node ∈ target) ∧ powerset.Follows state [code] target

/-- The moves out of a state group the codes of its transitions by what they lead
to. -/
theorem IsSound.exists_arrival (sound : powerset.IsSound) {state : NodeSet}
    (isState : powerset.IsState state) :
    ∃ arrival : Int → NodeSet,
      (∀ code, powerset.Follows state [code] (arrival code)) ∧
      powerset.moves state =
        (Move.group ((alphabet (powerset.transitionsOf state)).toList.map
          fun code => (code, arrival code)), none) := by
  let transitions := powerset.transitionsOf state
  have targetsBounded (code : Int) :
      ∀ target ∈ (targets transitions code).nodes,
        target < powerset.automaton.nodes.length := by
    intro target member
    obtain ⟨transition, leavesState, _, rfl⟩ := mem_targets.mp member
    obtain ⟨node, _, leaves⟩ := mem_transitionsOf.mp leavesState
    exact sound.isClosed.target_lt_of_leaves leaves
  choose arrival closes inArrival using fun code =>
    sound.close_eq_ok (targetsBounded code)
  refine ⟨arrival, ?_, ?_⟩
  · intro code target
    rw [inArrival, isState.reads_singleton_iff]
    constructor
    · rintro ⟨middle, isTarget, further⟩
      obtain ⟨transition, leavesState, takes, rfl⟩ := mem_targets.mp isTarget
      exact ⟨transition, leavesState, takes, further⟩
    · rintro ⟨transition, leavesState, takes, further⟩
      exact ⟨transition.target,
        mem_targets.mpr ⟨transition, leavesState, takes, rfl⟩, further⟩
  · rw [moves, arrivals_eq fun code _ => closes code]

theorem IsState.mem_alphabet_iff {state : NodeSet}
    (isState : powerset.IsState state) {code : Int} :
    code ∈ alphabet (powerset.transitionsOf state) ↔
      ∃ node ∈ state, ∃ target, powerset.automaton.Reads node [code] target := by
  rw [mem_alphabet]
  constructor
  · intro takesCode
    obtain ⟨transition, leavesState, takes⟩ := takesCode
    obtain ⟨node, inState, leaves⟩ := mem_transitionsOf.mp leavesState
    exact ⟨node, inState, transition.target, .consume leaves takes (.stay _)⟩
  · intro leadsOn
    obtain ⟨node, inState, target, path⟩ := leadsOn
    obtain ⟨transition, leavesState, takes, _⟩ :=
      isState.reads_singleton_iff.mp ⟨node, inState, path⟩
    exact ⟨transition, leavesState, takes⟩

theorem IsSound.hasMoves (sound : powerset.IsSound) {state : NodeSet}
    (isState : powerset.IsState state) : powerset.HasMoves state := by
  obtain ⟨arrival, arrives, movesEq⟩ := sound.exists_arrival isState
  have inAlphabet (code : Int) : code ∈ alphabet (powerset.transitionsOf state) ↔
      ∃ node, node ∈ arrival code := by
    simp only [isState.mem_alphabet_iff, arrives code _]
    exact ⟨fun ⟨node, inState, target, path⟩ => ⟨target, node, inState, path⟩,
      fun ⟨target, node, inState, path⟩ => ⟨node, inState, target, path⟩⟩
  have inDomain : ∀ pair ∈ (alphabet (powerset.transitionsOf state)).toList.map
      fun code => (code, arrival code), pair.1 ∈ Code.domain := by
    intro pair member
    obtain ⟨code, inCodes, rfl⟩ := List.mem_map.mp member
    exact CodeSet.mem_domain_of_mem (CodeSet.mem_toList.mp inCodes)
  constructor
  · rw [movesEq]
  · rw [movesEq]
    exact Move.exists_mem_label_of_mem_group inDomain
  · intro code
    exact ⟨arrival code, arrives code⟩
  · intro code target
    rw [movesEq, Move.leads_group inDomain, List.mem_map]
    constructor
    · rintro ⟨other, inCodes, same⟩
      cases same
      exact ⟨(inAlphabet code).mp (CodeSet.mem_toList.mp inCodes), arrives code⟩
    · rintro ⟨nonempty, follows⟩
      have isArrival : arrival code = target :=
        NodeSet.ext fun node => (arrives code node).trans (follows node).symm
      refine ⟨code, ?_, by rw [isArrival]⟩
      rw [CodeSet.mem_toList, inAlphabet, isArrival]
      exact nonempty

theorem IsState.of_follows (sound : powerset.IsSound) {state later : NodeSet}
    {word : List Int} (isState : powerset.IsState state)
    (nonempty : ∃ node, node ∈ later)
    (follows : powerset.Follows state word later) :
    powerset.IsState later := by
  refine ⟨nonempty, ?_, ?_⟩
  · intro target inLater
    obtain ⟨node, inState, path⟩ := (follows target).mp inLater
    exact sound.isClosed.last_lt path (isState.bounded node inState)
  · intro middle inLater target free
    obtain ⟨node, inState, path⟩ := (follows middle).mp inLater
    have further := path.append free
    rw [List.append_nil] at further
    exact (follows target).mpr ⟨node, inState, further⟩

end Powerset

end LexGen
