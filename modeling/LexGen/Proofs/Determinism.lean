import LexGen.Automaton.Renumbering
import LexGen.Proofs.Exploration
import LexGen.Proofs.Matching

/-!
# Deterministic automata and the order of transitions

The test for determinism looks at one transition after the other and keeps the codes
seen so far.  It succeeds exactly if no label is empty and every code is taken by one
transition of a node at most.  A matcher takes the first transition that fits, so that
their order may matter to it.  Where at most one of them fits, it does not.
-/

namespace LexGen

/-- No two labels share a code exactly if no code is taken twice. -/
theorem apart_iff_takers {transitions : List Transition} :
    (transitions.Pairwise fun earlier later =>
      ∀ code ∈ earlier.label, code ∉ later.label) ↔
      ∀ code, (transitions.filter fun transition =>
        transition.label.contains code).length ≤ 1 := by
  induction transitions with
  | nil => simp
  | cons first later induction =>
      rw [List.pairwise_cons, induction]
      constructor
      · intro separate code
        obtain ⟨firstApart, laterApart⟩ := separate
        cases takes : first.label.contains code with
        | false =>
            rw [List.filter_cons_of_neg (by simp [takes])]
            exact laterApart code
        | true =>
            have noneLater : later.filter (fun transition =>
                transition.label.contains code) = [] := by
              apply List.filter_eq_nil_iff.mpr
              intro transition member
              exact firstApart transition member code takes
            simp [takes, noneLater]
      · intro few
        refine ⟨?_, ?_⟩
        · intro transition member code takes alsoTakes
          have inLater : transition ∈ later.filter fun transition =>
              transition.label.contains code :=
            List.mem_filter.mpr ⟨member, alsoTakes⟩
          have atMostOne := few code
          rw [List.filter_cons_of_pos (by exact takes), List.length_cons] at atMostOne
          have positive := List.length_pos_of_mem inLater
          omega
        · intro code
          have fewer := ((List.sublist_cons_self first later).filter fun transition =>
            transition.label.contains code).length_le
          exact Nat.le_trans fewer (few code)

namespace Node

theorem target?_eq_head? (node : Node) (code : Int) :
    node.target? code = (node.takers code).head?.map Transition.target := by
  rw [target?, takers, List.head?_filter]

theorem Reorders.takers_perm {left right : Node} (reorders : left.Reorders right)
    (code : Int) : (right.takers code).Perm (left.takers code) :=
  reorders.transitions_perm.filter _

theorem Reorders.target?_eq {left right : Node} (reorders : left.Reorders right)
    {code : Int} (few : (left.takers code).length ≤ 1) :
    right.target? code = left.target? code := by
  have permuted := reorders.takers_perm code
  have sameTakers : right.takers code = left.takers code := by
    cases isTakers : left.takers code with
    | nil => rwa [isTakers, List.perm_nil] at permuted
    | cons first later =>
        rw [isTakers, List.length_cons] at few
        have noneLater : later = [] := List.eq_nil_of_length_eq_zero (by omega)
        rwa [isTakers, noneLater, List.perm_singleton, ← noneLater] at permuted
  rw [target?_eq_head?, target?_eq_head?, sameTakers]

end Node

namespace Automaton

variable {ι : Type} {automaton other : Automaton ι}

theorem isDeterministic_iff_takers :
    automaton.isDeterministic = true ↔
      ∀ node ∈ automaton.nodes,
        (∀ transition ∈ node.transitions, transition.label ≠ ∅) ∧
        ∀ code, (node.takers code).length ≤ 1 := by
  have notEmpty (transition : Transition) :
      transition.isFree = false ↔ transition.label ≠ ∅ := by
    rw [Transition.isFree, ← Bool.not_eq_true, CodeSet.isEmpty_iff]
  simp only [isDeterministic_iff, apart_iff_takers, notEmpty, Node.takers]

section Alike

/-- The automata step alike and have the same items. -/
structure StepsAlike (left right : Automaton ι) : Prop where
  start_eq : right.start = left.start
  item?_eq : ∀ number, right.item? number = left.item? number
  step_eq : ∀ number code, right.step number code = left.step number code

namespace StepsAlike

variable (alike : automaton.StepsAlike other)

include alike

theorem advance_eq (position : Position) (code : Int) :
    other.advance position code = automaton.advance position code := by
  cases position with
  | none => rfl
  | some number => exact alike.step_eq number code

theorem accepting?_eq (position : Position) :
    other.accepting? position = automaton.accepting? position := by
  cases position with
  | none => rfl
  | some number => exact alike.item?_eq number

theorem accepts_eq (input : List Int) (position : Position) :
    other.accepts position input = automaton.accepts position input := by
  induction input generalizing position with
  | nil => rw [accepts, accepts, alike.accepting?_eq]
  | cons code input induction =>
      rw [accepts, accepts, alike.advance_eq]
      cases automaton.advance position code with
      | error dangling => rfl
      | ok next =>
          cases next with
          | none => rfl
          | some number => exact induction (some number)

theorem accept?_eq (input : List Int) : other.accept? input = automaton.accept? input := by
  rw [accept?, accept?, initial, initial, alike.start_eq, alike.accepts_eq]

theorem longestFrom_eq (input : List Int) (number consumed : Nat)
    (longest : Option (Nat × ι)) :
    other.longestFrom number consumed longest input =
      automaton.longestFrom number consumed longest input := by
  induction input generalizing number consumed longest with
  | nil => rfl
  | cons code input induction =>
      rw [longestFrom, longestFrom, alike.step_eq]
      cases automaton.step number code with
      | error dangling => rfl
      | ok next =>
          cases next with
          | none => rfl
          | some target =>
              have sameItem := alike.item?_eq target
              simpa [bind, Except.bind, sameItem] using induction target _ _

theorem longestMatch_eq (input : List Int) :
    other.longestMatch input = automaton.longestMatch input := by
  rw [longestMatch, longestMatch, alike.start_eq, alike.item?_eq, alike.longestFrom_eq]

end StepsAlike

end Alike

section Reordered

variable (reorders : automaton.Reorders other)

include reorders

theorem Reorders.isDeterministic (deterministic : automaton.isDeterministic = true) :
    other.isDeterministic = true := by
  apply isDeterministic_iff_takers.mpr
  intro node member
  obtain ⟨place, isNode⟩ := List.mem_iff_getElem?.mp member
  have isPair := getElem?_of_forall₂ reorders.nodes place
  generalize isOriginal : automaton.nodes[place]? = original at isPair
  rw [isNode] at isPair
  cases isPair with
  | @some original _ reordered =>
      obtain ⟨consumes, few⟩ := isDeterministic_iff_takers.mp deterministic original
        (List.mem_of_getElem? isOriginal)
      refine ⟨?_, ?_⟩
      · intro transition leaves
        exact consumes transition (reordered.transitions_perm.mem_iff.mp leaves)
      · intro code
        rw [(reordered.takers_perm code).length_eq]
        exact few code

theorem Reorders.step_eq (deterministic : automaton.isDeterministic = true) (number : Nat)
    (code : Int) : other.step number code = automaton.step number code := by
  have isPair := getElem?_of_forall₂ reorders.nodes number
  rw [step, step, node, node]
  generalize isOriginal : automaton.nodes[number]? = original at isPair ⊢
  generalize other.nodes[number]? = counterpart at isPair ⊢
  cases isPair with
  | none => rfl
  | @some original _ reordered =>
      have few := (isDeterministic_iff_takers.mp deterministic original
        (List.mem_of_getElem? isOriginal)).2
      exact congrArg Except.ok (reordered.target?_eq (few code))

theorem Reorders.stepsAlike (deterministic : automaton.isDeterministic = true) :
    automaton.StepsAlike other := by
  constructor
  · exact reorders.start_eq
  · intro number
    rw [item?, item?, reorders.items_eq]
  · exact reorders.step_eq deterministic

end Reordered

/-- The test succeeds exactly if no transition has an empty label and every code is taken
by one transition of each node at most, a repeated transition counting as often as it
occurs.  If so, the transitions of each node may be put in any order: the automaton stays
deterministic, and no step, no acceptance and no longest match changes. -/
theorem isDeterministic_decides_and_frees_order (automaton : Automaton ι) :
    (automaton.isDeterministic = true ↔
      ∀ node ∈ automaton.nodes,
        (∀ transition ∈ node.transitions, transition.label ≠ ∅) ∧
        ∀ code, (node.takers code).length ≤ 1) ∧
    (automaton.isDeterministic = true → ∀ other, automaton.Reorders other →
      other.isDeterministic = true ∧
      (∀ number code, other.step number code = automaton.step number code) ∧
      (∀ position input,
        other.accepts position input = automaton.accepts position input) ∧
      (∀ input, other.accept? input = automaton.accept? input) ∧
      ∀ input, other.longestMatch input = automaton.longestMatch input) := by
  refine ⟨isDeterministic_iff_takers, ?_⟩
  intro deterministic other reorders
  have alike := reorders.stepsAlike deterministic
  refine ⟨reorders.isDeterministic deterministic, alike.step_eq, ?_, alike.accept?_eq,
    alike.longestMatch_eq⟩
  intro position input
  exact alike.accepts_eq input position

/-- A node with three transitions whose codes interleave, and the same node with them
turned around. -/
theorem interleaved_frees_order :
    let nodesWith (transitions : List Transition) : List Node :=
      [⟨0, transitions⟩, ⟨1, [⟨.singleton 98, 2⟩, ⟨.singleton 97, 0⟩]⟩, ⟨2, []⟩]
    let transitions : List Transition :=
      [⟨.ofList [97, 99], 1⟩, ⟨.ofList [98, 100], 2⟩, ⟨.singleton (-1), 9⟩]
    let automaton : Automaton Nat :=
      { start := 0, items := .ofList [(1, 4), (2, 7)], nodes := nodesWith transitions }
    let other : Automaton Nat :=
      { automaton with nodes := nodesWith transitions.reverse }
    automaton.isDeterministic = true ∧ automaton.Reorders other ∧
      other.isDeterministic = true ∧
      (∀ number code, other.step number code = automaton.step number code) ∧
      (∀ position input,
        other.accepts position input = automaton.accepts position input) ∧
      (∀ input, other.accept? input = automaton.accept? input) ∧
      (∀ input, other.longestMatch input = automaton.longestMatch input) ∧
      other.longestMatch [99, 98, 97] = .ok (some (2, 7)) := by
  intro nodesWith transitions automaton other
  have deterministic : automaton.isDeterministic = true := by decide +kernel
  have turned : Node.Reorders ⟨0, transitions⟩ ⟨0, transitions.reverse⟩ :=
    ⟨rfl, List.reverse_perm transitions⟩
  have reorders : automaton.Reorders other :=
    ⟨rfl, rfl, .cons turned (.cons ⟨rfl, .refl _⟩ (.cons ⟨rfl, .refl _⟩ .nil))⟩
  obtain ⟨stays, step, accepts, accept?, longestMatch⟩ :=
    (isDeterministic_decides_and_frees_order automaton).2 deterministic other reorders
  exact ⟨deterministic, reorders, stays, step, accepts, accept?, longestMatch,
    by decide +kernel⟩

end Automaton

end LexGen
