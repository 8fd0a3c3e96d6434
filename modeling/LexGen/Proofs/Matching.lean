import LexGen.Automaton.Matching
import LexGen.Automaton.Reachability
import LexGen.CodeSet.Lemmas
import LexGen.Proofs.Paths
import Mathlib.Data.List.Basic

/-!
# Matchers and paths

A matcher takes the first transition that fits and none that is free.  Where an
automaton has no free transitions and no two of one node fit the same code, there
is nothing to choose: the matcher follows the only path that reads the word, and
gets stuck where no path does.
-/

namespace LexGen

/-- Being separate is judged one transition after the other, and means that every
label has codes and no two of them share one. -/
theorem areSeparate_iff {seen : CodeSet} {transitions : List Transition} :
    areSeparate seen transitions = true ↔
      (∀ transition ∈ transitions, transition.isFree = false ∧
        ∀ code ∈ transition.label, code ∉ seen) ∧
      transitions.Pairwise fun earlier later =>
        ∀ code ∈ earlier.label, code ∉ later.label := by
  induction transitions generalizing seen with
  | nil => simp [areSeparate]
  | cons first later induction =>
      simp only [areSeparate, Bool.and_eq_true, Bool.not_eq_true',
        CodeSet.isDisjoint_iff, induction, CodeSet.mem_union, not_or,
        List.forall_mem_cons, List.pairwise_cons]
      constructor
      · intro separate
        obtain ⟨⟨consumes, unseen⟩, apart, laterApart⟩ := separate
        refine ⟨⟨⟨consumes, ?_⟩, ?_⟩, ?_, laterApart⟩
        · intro code takes isSeen
          exact unseen code isSeen takes
        · intro transition inLater
          obtain ⟨laterConsumes, fresh⟩ := apart transition inLater
          exact ⟨laterConsumes, fun code takes => (fresh code takes).1⟩
        · intro transition inLater code takes alsoTakes
          exact ((apart transition inLater).2 code alsoTakes).2 takes
      · intro separate
        obtain ⟨⟨⟨consumes, unseen⟩, fresh⟩, apart, laterApart⟩ := separate
        refine ⟨⟨consumes, ?_⟩, ?_, laterApart⟩
        · intro code isSeen takes
          exact unseen code takes isSeen
        · intro transition inLater
          obtain ⟨laterConsumes, notSeen⟩ := fresh transition inLater
          refine ⟨laterConsumes, ?_⟩
          intro code takes
          refine ⟨notSeen code takes, ?_⟩
          intro alsoTakes
          exact apart transition inLater code alsoTakes takes

/-- Where no code is taken by two transitions, the first one that takes a code is
the only one. -/
theorem Node.target?_eq_some_iff {node : Node}
    (apart : node.transitions.Pairwise fun earlier later =>
      ∀ code ∈ earlier.label, code ∉ later.label) {code : Int} {target : Nat} :
    node.target? code = some target ↔
      ∃ transition ∈ node.transitions,
        code ∈ transition.label ∧ transition.target = target := by
  obtain ⟨name, transitions⟩ := node
  simp only [Node.target?] at apart ⊢
  induction transitions with
  | nil => simp
  | cons first later induction =>
      obtain ⟨firstApart, laterApart⟩ := List.pairwise_cons.mp apart
      rw [List.find?_cons, List.exists_mem_cons_iff]
      cases takes : first.label.contains code with
      | true =>
          have notLater : ¬ ∃ transition ∈ later,
              code ∈ transition.label ∧ transition.target = target := by
            intro inLater
            obtain ⟨transition, member, alsoTakes, _⟩ := inLater
            exact firstApart transition member code takes alsoTakes
          rw [or_iff_left notLater]
          simp [CodeSet.mem_iff_contains, takes]
      | false =>
          rw [induction laterApart]
          simp [CodeSet.mem_iff_contains, takes]

namespace Automaton

variable {ι : Type}

section Matcher

theorem advanceAll_none (automaton : Automaton ι) (word : List Int) :
    automaton.advanceAll none word = .ok none := by
  induction word with
  | nil => rfl
  | cons code word induction => exact induction

theorem accepts_eq_advanceAll (automaton : Automaton ι) (position : Position)
    (word : List Int) :
    automaton.accepts position word =
      (automaton.advanceAll position word).map fun last =>
        (last, automaton.accepting? last) := by
  induction word generalizing position with
  | nil => rfl
  | cons code word induction =>
      rw [accepts, advanceAll]
      cases automaton.advance position code with
      | error dangling => rfl
      | ok next =>
          cases next with
          | none =>
              have stuck := automaton.advanceAll_none word
              change _ = Except.map _ (automaton.advanceAll none word)
              rw [stuck]
              rfl
          | some number => exact induction (some number)

theorem accept?_eq_advanceAll (automaton : Automaton ι) (word : List Int) :
    automaton.accept? word =
      (automaton.advanceAll automaton.initial word).map
        automaton.accepting? := by
  rw [accept?, accepts_eq_advanceAll]
  cases automaton.advanceAll automaton.initial word <;> rfl

end Matcher

section Deterministic

variable {automaton : Automaton ι}

theorem isDeterministic_iff :
    automaton.isDeterministic = true ↔
      ∀ node ∈ automaton.nodes,
        (∀ transition ∈ node.transitions, transition.isFree = false) ∧
        node.transitions.Pairwise fun earlier later =>
          ∀ code ∈ earlier.label, code ∉ later.label := by
  simp only [isDeterministic, List.all_eq_true, areSeparate_iff,
    CodeSet.not_mem_empty, not_false_eq_true, implies_true, and_true]

theorem consumes_of_leaves (deterministic : automaton.isDeterministic = true)
    {number : Nat} {transition : Transition}
    (leaves : automaton.Leaves number transition) :
    ¬ transition.isFree = true := by
  obtain ⟨node, isNode, member⟩ := leaves
  have inNodes := List.mem_of_getElem? isNode
  rw [(isDeterministic_iff.mp deterministic node inNodes).1 transition member]
  exact Bool.false_ne_true

theorem step_eq_some_iff (deterministic : automaton.isDeterministic = true)
    {number target : Nat} {code : Int} :
    automaton.step number code = .ok (some target) ↔
      ∃ transition, automaton.Leaves number transition ∧
        code ∈ transition.label ∧ transition.target = target := by
  cases isNode : automaton.nodes[number]? with
  | none => simp [step, node, Leaves, isNode, bind, Except.bind]
  | some node =>
      have inNodes := List.mem_of_getElem? isNode
      have apart := (isDeterministic_iff.mp deterministic node inNodes).2
      have steps : automaton.step number code = .ok (node.target? code) := by
        rw [step, Automaton.node, isNode]
        rfl
      rw [steps, Except.ok.injEq, Node.target?_eq_some_iff apart]
      simp [Leaves, isNode]

/-- A matcher on a deterministic automaton is where a path that reads the word
ends. -/
theorem reads_iff_advanceAll (deterministic : automaton.isDeterministic = true)
    {first last : Nat} {word : List Int} :
    automaton.Reads first word last ↔
      automaton.advanceAll (some first) word = .ok (some last) := by
  induction word generalizing first with
  | nil =>
      constructor
      · intro path
        cases path with
        | stay => rfl
        | free leaves isFree _ =>
            exact absurd isFree (consumes_of_leaves deterministic leaves)
      · intro stays
        cases stays
        exact .stay _
  | cons code word induction =>
      have moves : automaton.advanceAll (some first) (code :: word) =
          automaton.step first code >>= fun next =>
            automaton.advanceAll next word := rfl
      rw [moves]
      constructor
      · intro path
        cases path with
        | free leaves isFree _ =>
            exact absurd isFree (consumes_of_leaves deterministic leaves)
        | consume leaves takes further =>
            rw [(step_eq_some_iff deterministic).mpr ⟨_, leaves, takes, rfl⟩]
            exact induction.mp further
      · intro arrives
        cases isStep : automaton.step first code with
        | error dangling =>
            rw [isStep] at arrives
            cases arrives
        | ok next =>
            rw [isStep] at arrives
            cases next with
            | none =>
                have stuck : automaton.advanceAll none word = .ok (some last) :=
                  arrives
                rw [advanceAll_none] at stuck
                cases stuck
            | some target =>
                obtain ⟨transition, leaves, takes, isTarget⟩ :=
                  (step_eq_some_iff deterministic).mp isStep
                have further := induction.mpr arrives
                rw [← isTarget] at further
                exact .consume leaves takes further

theorem eq_of_reads_nil (deterministic : automaton.isDeterministic = true)
    {first last : Nat} (path : automaton.Reads first [] last) : last = first := by
  cases (reads_iff_advanceAll deterministic).mp path
  rfl

theorem exists_transition_of_reads (deterministic : automaton.isDeterministic = true)
    {first last : Nat} {code : Int} (path : automaton.Reads first [code] last) :
    ∃ transition, automaton.Leaves first transition ∧ code ∈ transition.label ∧
      transition.target = last := by
  obtain ⟨middle, transition, free, leaves, takes, further⟩ := reads_cons_iff.mp path
  rw [eq_of_reads_nil deterministic free] at leaves
  exact ⟨transition, leaves, takes, (eq_of_reads_nil deterministic further).symm⟩

theorem accept?_eq_some_iff (deterministic : automaton.isDeterministic = true)
    {word : List Int} {item : ι} :
    automaton.accept? word = .ok (some item) ↔
      ∃ last, automaton.Reads automaton.start word last ∧
        automaton.item? last = some item := by
  simp only [reads_iff_advanceAll deterministic, accept?_eq_advanceAll, initial]
  cases automaton.advanceAll (some automaton.start) word with
  | error dangling => simp [Except.map]
  | ok position =>
      cases position with
      | none => simp [Except.map, accepting?]
      | some number => simp [Except.map, accepting?]

end Deterministic

end Automaton

end LexGen
