import LexGen.Automaton.Reachability
import LexGen.Proofs.Closure

/-!
# Taking paths apart

A path that reads a longer word stops between the parts of the word, and a path
that reads nothing follows free transitions only: these are what the closure of
an automaton's free transitions relates.
-/

namespace LexGen.Automaton

variable {ι : Type} {automaton : Automaton ι}

theorem steps_freeRows_iff {source target : Nat} :
    Closure.Steps automaton.freeRows source target ↔
      ∃ transition, automaton.Leaves source transition ∧
        transition.isFree = true ∧ transition.target = target := by
  have inRow (node : Node) : target ∈ NodeSet.ofList node.freeTargets ↔
      ∃ transition ∈ node.transitions,
        transition.isFree = true ∧ transition.target = target := by
    rw [NodeSet.mem_ofList, Node.freeTargets, List.mem_map]
    simp only [List.mem_filter, and_assoc]
  constructor
  · rintro ⟨row, isRow, member⟩
    rw [freeRows, List.getElem?_map] at isRow
    obtain ⟨node, isNode, rfl⟩ := Option.map_eq_some_iff.mp isRow
    obtain ⟨transition, leaves, isFree, isTarget⟩ := (inRow node).mp member
    exact ⟨transition, ⟨node, isNode, leaves⟩, isFree, isTarget⟩
  · rintro ⟨transition, ⟨node, isNode, leaves⟩, isFree, isTarget⟩
    refine ⟨NodeSet.ofList node.freeTargets, ?_, ?_⟩
    · rw [freeRows, List.getElem?_map, isNode]
      rfl
    · exact (inRow node).mpr ⟨transition, leaves, isFree, isTarget⟩

theorem reads_nil_iff {first last : Nat} :
    automaton.Reads first [] last ↔
      Closure.Reaches automaton.freeRows first last := by
  constructor
  · intro path
    generalize isEmpty : ([] : List Int) = word at path
    induction path with
    | stay number => exact .refl
    | free leaves isFree _ induction =>
        have step := steps_freeRows_iff.mpr ⟨_, leaves, isFree, rfl⟩
        exact .head step (induction isEmpty)
    | consume _ _ _ _ => cases isEmpty
  · intro reaches
    induction reaches using Relation.ReflTransGen.head_induction_on with
    | refl => exact .stay last
    | head step _ induction =>
        obtain ⟨transition, leaves, isFree, isTarget⟩ :=
          steps_freeRows_iff.mp step
        exact .free leaves isFree (isTarget ▸ induction)

/-- A path that reads a code follows free transitions up to one that consumes
the code. -/
theorem reads_cons_iff {first last : Nat} {code : Int} {word : List Int} :
    automaton.Reads first (code :: word) last ↔
      ∃ middle transition, automaton.Reads first [] middle ∧
        automaton.Leaves middle transition ∧ code ∈ transition.label ∧
        automaton.Reads transition.target word last := by
  constructor
  · intro path
    generalize isWord : code :: word = whole at path
    induction path with
    | stay number => cases isWord
    | free leaves isFree _ induction =>
        obtain ⟨middle, transition, free, further⟩ := induction isWord
        exact ⟨middle, transition, .free leaves isFree free, further⟩
    | @consume number last transition code word leaves member further _ =>
        cases isWord
        exact ⟨number, transition, .stay number, leaves, member, further⟩
  · rintro ⟨middle, transition, free, leaves, member, further⟩
    exact free.append (.consume leaves member further)

theorem reads_append_iff {first last : Nat} {word later : List Int} :
    automaton.Reads first (word ++ later) last ↔
      ∃ middle, automaton.Reads first word middle ∧
        automaton.Reads middle later last := by
  constructor
  · intro path
    induction word generalizing first with
    | nil => exact ⟨first, .stay first, path⟩
    | cons code word induction =>
        obtain ⟨middle, transition, free, leaves, member, further⟩ :=
          reads_cons_iff.mp path
        obtain ⟨stop, before, after⟩ := induction further
        exact ⟨stop, reads_cons_iff.mpr
          ⟨middle, transition, free, leaves, member, before⟩, after⟩
  · rintro ⟨middle, before, after⟩
    exact before.append after

theorem reads_singleton_append_iff {first last : Nat} {code : Int}
    {word : List Int} :
    automaton.Reads first (code :: word) last ↔
      ∃ middle, automaton.Reads first [code] middle ∧
        automaton.Reads middle word last := by
  rw [← List.singleton_append, reads_append_iff]

theorem IsClosed.target_lt_of_leaves (closed : automaton.IsClosed)
    {number : Nat} {transition : Transition}
    (leaves : automaton.Leaves number transition) :
    transition.target < automaton.nodes.length := by
  obtain ⟨node, isNode, member⟩ := leaves
  exact closed.target_lt node (List.mem_of_getElem? isNode) transition member

theorem IsClosed.last_lt (closed : automaton.IsClosed) {first last : Nat}
    {word : List Int} (path : automaton.Reads first word last)
    (bound : first < automaton.nodes.length) :
    last < automaton.nodes.length := by
  induction path with
  | stay number => exact bound
  | free leaves _ _ induction =>
      exact induction (closed.target_lt_of_leaves leaves)
  | consume leaves _ _ induction =>
      exact induction (closed.target_lt_of_leaves leaves)

theorem length_freeRows : automaton.freeRows.length = automaton.nodes.length :=
  List.length_map _

theorem IsClosed.freeRows_bounded (closed : automaton.IsClosed) :
    Closure.IsBounded automaton.freeRows := by
  intro row inRows target inRow
  obtain ⟨source, isRow⟩ := List.mem_iff_getElem?.mp inRows
  obtain ⟨transition, leaves, _, rfl⟩ :=
    steps_freeRows_iff.mp ⟨row, isRow, inRow⟩
  rw [length_freeRows]
  exact closed.target_lt_of_leaves leaves

end LexGen.Automaton
