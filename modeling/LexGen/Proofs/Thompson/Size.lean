import LexGen.Proofs.Thompson.Items
import LexGen.Thompson.Lowering
import Mathlib.Algebra.GroupWithZero.Nat

/-!
# What an item adds to an automaton

Lowering an expression takes as many nodes and transitions as its size says.  Adding
an item to a builder therefore appends a block of nodes of a known size, in which all
of its transitions stay, and touches the earlier nodes at the start node only.
-/

namespace LexGen

open Edge

namespace Lowered

/-- The fragment has taken so many nodes, counted from the given number on, and so
many edges. -/
structure HasSize (fragment : Lowered) (next nodes edges : Nat) : Prop where
  next_eq : fragment.next = next + nodes
  length_eq : fragment.edges.length = edges

variable {fragment : Lowered} {next nodes edges : Nat}

theorem trivial_hasSize (exit next : Nat) : (trivial exit next).HasSize next 0 0 :=
  ⟨rfl, rfl⟩

theorem HasSize.withEdges (size : fragment.HasSize next nodes edges)
    (added : List Edge) :
    (fragment.withEdges added).HasSize next nodes (edges + added.length) := by
  constructor
  · exact size.next_eq
  · rw [Lowered.withEdges, List.length_append, size.length_eq]

end Lowered

namespace Regex

open Lowered

theorem lowerCodes_hasSize (codes : List Int) (exit next : Nat) :
    (lowerCodes codes exit next).HasSize next codes.length codes.length := by
  induction codes with
  | nil => exact trivial_hasSize exit next
  | cons code codes induction =>
      constructor
      · simp [lowerCodes, induction.next_eq, Nat.add_assoc]
      · simp [lowerCodes, induction.length_eq]

mutual

theorem lower_hasSize (regex : Regex) (exit next : Nat) :
    (regex.lower exit next).HasSize next regex.nodeCount regex.edgeCount := by
  cases regex with
  | oneOf set => exact ⟨rfl, rfl⟩
  | literal text =>
      have size := lowerCodes_hasSize (Code.ofText text) exit next
      rwa [Code.length_ofText] at size
  | many inner => exact (lower_hasSize inner exit next).withEdges _
  | optional inner => exact (lower_hasSize inner exit next).withEdges _
  | sequence items => exact lowerSequence_hasSize items exit next
  | alternative items =>
      match items with
      | [] => exact trivial_hasSize exit next
      | [only] => exact lower_hasSize only exit next
      | first :: second :: later =>
          have size :=
            lowerBranches_hasSize (first :: second :: later) next exit (next + 1)
          exact ⟨size.next_eq.trans (Nat.add_assoc next 1 _), size.length_eq⟩

theorem lowerSequence_hasSize (items : List Regex) (exit next : Nat) :
    (lowerSequence items exit next).HasSize next (nodeCountAll items)
      (edgeCountAll items) := by
  cases items with
  | nil => exact trivial_hasSize exit next
  | cons item items =>
      have later := lowerSequence_hasSize items exit next
      have first := lower_hasSize item (lowerSequence items exit next).entry
        (lowerSequence items exit next).next
      constructor
      · simp only [lowerSequence, nodeCountAll]
        rw [first.next_eq, later.next_eq]
        omega
      · simp only [lowerSequence, edgeCountAll, List.length_append]
        rw [first.length_eq, later.length_eq]
        omega

theorem lowerBranches_hasSize (items : List Regex) (branch exit next : Nat) :
    (lowerBranches branch items exit next).HasSize next (nodeCountAll items)
      (items.length + edgeCountAll items) := by
  cases items with
  | nil => exact trivial_hasSize branch next
  | cons item items =>
      have first := lower_hasSize item exit next
      have later := lowerBranches_hasSize items branch exit (item.lower exit next).next
      constructor
      · simp only [lowerBranches, nodeCountAll]
        rw [later.next_eq, first.next_eq]
        omega
      · simp only [lowerBranches, edgeCountAll, List.length_append, List.length_cons]
        rw [first.length_eq, later.length_eq]
        omega

end

end Regex

namespace Builder

variable {ι : Type} {builder : Builder ι}

/-- Every edge is counted at the one node that it leaves. -/
theorem sum_length_filter_source {nodes : List Nat} (distinct : nodes.Nodup)
    {edges : List Edge} (sources : ∀ edge ∈ edges, edge.source ∈ nodes) :
    (nodes.map fun node => (edges.filter (·.source == node)).length).sum =
      edges.length := by
  induction nodes generalizing edges with
  | nil =>
      have isEmpty : edges = [] :=
        List.eq_nil_iff_forall_not_mem.mpr fun edge member =>
          List.not_mem_nil (sources edge member)
      simp [isEmpty]
  | cons node nodes induction =>
      obtain ⟨isNew, distinct⟩ := List.nodup_cons.mp distinct
      let others := edges.filter fun edge => !(edge.source == node)
      have otherSources : ∀ edge ∈ others, edge.source ∈ nodes := by
        intro edge member
        obtain ⟨inEdges, isOther⟩ := List.mem_filter.mp member
        have inNodes := sources edge inEdges
        simp at isOther
        simpa [isOther] using inNodes
      have sameCount : ∀ other ∈ nodes,
          (others.filter (·.source == other)).length =
            (edges.filter (·.source == other)).length := by
        intro other member
        have differs : other ≠ node := fun same => isNew (same ▸ member)
        rw [List.filter_filter]
        apply congrArg List.length
        apply List.filter_congr
        intro edge _
        grind
      have split : edges.length =
          (edges.filter (·.source == node)).length + others.length :=
        List.length_eq_length_filter_add _
      have counted := induction distinct otherSources
      rw [List.map_congr_left sameCount] at counted
      rw [List.map_cons, List.sum_cons, counted, split]

section Block

theorem next_fragmentOf (builder : Builder ι) (regex : Regex) :
    (builder.fragmentOf regex).next = builder.count + (1 + regex.nodeCount) := by
  have size := regex.lower_hasSize builder.count (builder.count + 1)
  exact size.next_eq.trans (Nat.add_assoc _ _ _)

/-- The final node of an item and the nodes of its fragment make up a block. -/
theorem block_bounds {regex : Regex} {node : Nat}
    (within : Within builder.count (builder.count + 1)
      (builder.fragmentOf regex).next node) :
    builder.count ≤ node ∧ node ≤ builder.count + regex.nodeCount := by
  rw [next_fragmentOf] at within
  cases within with
  | inl isFinal => omega
  | inr between => omega

theorem own_edge_bounds {regex : Regex} {edge : Edge}
    (member : edge ∈ (builder.fragmentOf regex).edges) :
    (builder.count ≤ edge.source ∧
        edge.source ≤ builder.count + regex.nodeCount) ∧
      builder.count ≤ edge.transition.target ∧
        edge.transition.target ≤ builder.count + regex.nodeCount := by
  have confined := (fragmentOf_isSound builder regex).realizes.confined
  have ends := mem_region confined member
  exact ⟨block_bounds ends.1, block_bounds ends.2⟩

/-- The transitions of a node are the earlier ones, those of the new fragment and,
at the start node, the one that the new fragment is entered by. -/
theorem transitions_addItem (builder : Builder ι) (item : ι) (regex : Regex)
    (number : Nat) :
    ((builder.addItem item regex).nodeAt number).transitions =
      (builder.nodeAt number).transitions ++
        ((builder.fragmentOf regex).edges.filter (·.source == number)).map
          Edge.transition ++
        if number = start then [⟨∅, (builder.fragmentOf regex).entry⟩] else [] := by
  by_cases isStart : number = start
  · subst isStart
    simp [nodeAt, addItem, free, labelled]
  · have notEntered : start ≠ number := Ne.symm isStart
    simp [nodeAt, addItem, free, labelled, isStart, notEntered]

theorem nodeAt_addItem_old (item : ι) (regex : Regex) {number : Nat}
    (isOld : number < builder.count) :
    (builder.addItem item regex).nodeAt number =
      { builder.nodeAt number with
        transitions := (builder.nodeAt number).transitions ++
          if number = start then [⟨∅, (builder.fragmentOf regex).entry⟩] else [] } := by
  have noneOwn :
      (builder.fragmentOf regex).edges.filter (·.source == number) = [] := by
    apply List.filter_eq_nil_iff.mpr
    intro edge member isSource
    have bounds := own_edge_bounds member
    have isNumber : edge.source = number := by simpa using isSource
    omega
  have transitions := transitions_addItem builder item regex number
  rw [noneOwn, List.map_nil, List.append_nil] at transitions
  rw [← transitions]
  rfl

variable {added : List (ι × Regex)}

theorem IsSound.edge_target_ne (sound : builder.IsSound added) {edge : Edge}
    (member : edge ∈ builder.edges) : edge.transition.target ≠ start := by
  intro isStart
  obtain ⟨word, passes⟩ := edge.transition.label.exists_passes
  exact sound.target_ne edge.source word ⟨edge, member, rfl, isStart, passes⟩

theorem IsSound.nodeAt_addItem_new (sound : builder.IsSound added) (item : ι)
    (regex : Regex) {number : Nat} (isNew : builder.count ≤ number) :
    (builder.addItem item regex).nodeAt number =
      ⟨number, ((builder.fragmentOf regex).edges.filter (·.source == number)).map
        Edge.transition⟩ := by
  have noneOld : (builder.nodeAt number).transitions = [] := by
    apply List.map_eq_nil_iff.mpr
    apply List.filter_eq_nil_iff.mpr
    intro edge member isSource
    have bound := (mem_region sound.confined member).1
    have isNumber : edge.source = number := by simpa using isSource
    omega
  have notStart : number ≠ start := by
    have startBound := sound.start_lt
    omega
  have transitions := transitions_addItem builder item regex number
  rw [noneOld, if_neg notStart, List.nil_append, List.append_nil] at transitions
  rw [← transitions]
  rfl

end Block

section Build

variable {added : List (ι × Regex)} (sound : builder.IsSound added) (item : ι)
  (regex : Regex)

/-- The nodes that an item adds, its final node first. -/
def blockOf (builder : Builder ι) (item : ι) (regex : Regex) : List Node :=
  (List.range' builder.count (1 + regex.nodeCount)).map
    (builder.addItem item regex).nodeAt

theorem length_nodes_build (builder : Builder ι) :
    builder.build.nodes.length = builder.count := by
  simp [build]

theorem old_nodes_addItem :
    (List.range builder.count).map (builder.addItem item regex).nodeAt =
      builder.build.nodes.modify start fun node =>
        { node with
          transitions := node.transitions ++
            [⟨∅, (builder.fragmentOf regex).entry⟩] } := by
  apply List.ext_getElem
  · simp [build]
  · intro number isOld _
    have isOld : number < builder.count := by simpa using isOld
    rw [List.getElem_modify]
    simp only [List.getElem_map, List.getElem_range, build, nodeAt_addItem_old item regex isOld]
    by_cases isStart : number = start
    · simp [isStart]
    · simp [isStart, Ne.symm isStart]

theorem nodes_addItem :
    (builder.addItem item regex).build.nodes =
      (builder.build.nodes.modify start fun node =>
        { node with
          transitions := node.transitions ++
            [⟨∅, (builder.fragmentOf regex).entry⟩] }) ++
        builder.blockOf item regex := by
  have count : (builder.addItem item regex).count =
      builder.count + (1 + regex.nodeCount) := next_fragmentOf builder regex
  have split : List.range (builder.count + (1 + regex.nodeCount)) =
      List.range builder.count ++
        List.range' builder.count (1 + regex.nodeCount) := by
    rw [List.range_add, List.range'_eq_map_range]
  rw [← old_nodes_addItem, blockOf, ← List.map_append, ← split, ← count]
  rfl

theorem mem_block_iff {builder : Builder ι} {regex : Regex} {number : Nat} :
    number ∈ List.range' builder.count (1 + regex.nodeCount) ↔
      builder.count ≤ number ∧ number ≤ builder.count + regex.nodeCount := by
  rw [List.mem_range'_1]
  omega

theorem names_blockOf :
    (builder.blockOf item regex).map Node.name =
      List.range' builder.count (1 + regex.nodeCount) := by
  rw [blockOf, List.map_map]
  exact List.map_id _

include sound

theorem IsSound.length_transitions_blockOf :
    ((builder.blockOf item regex).flatMap Node.transitions).length =
      regex.edgeCount := by
  have sources : ∀ edge ∈ (builder.fragmentOf regex).edges,
      edge.source ∈ List.range' builder.count (1 + regex.nodeCount) := by
    intro edge member
    exact mem_block_iff.mpr (own_edge_bounds member).1
  have lengths : ∀ number ∈ List.range' builder.count (1 + regex.nodeCount),
      ((builder.addItem item regex).nodeAt number).transitions.length =
        ((builder.fragmentOf regex).edges.filter (·.source == number)).length := by
    intro number member
    have isNew := (mem_block_iff.mp member).1
    rw [sound.nodeAt_addItem_new item regex isNew, List.length_map]
  have counted := sum_length_filter_source List.nodup_range' sources
  have size := regex.lower_hasSize builder.count (builder.count + 1)
  calc
    ((builder.blockOf item regex).flatMap Node.transitions).length =
        ((List.range' builder.count (1 + regex.nodeCount)).map fun number =>
          ((builder.addItem item regex).nodeAt number).transitions.length).sum := by
      rw [blockOf, List.length_flatMap, List.map_map]
      rfl
    _ = (builder.fragmentOf regex).edges.length := by
      rw [List.map_congr_left lengths, counted]
    _ = regex.edgeCount := size.length_eq

theorem IsSound.target_bounds_of_mem_blockOf {node : Node}
    (member : node ∈ builder.blockOf item regex) {transition : Transition}
    (leaves : transition ∈ node.transitions) :
    builder.count ≤ transition.target ∧
      transition.target ≤ builder.count + regex.nodeCount := by
  obtain ⟨number, inBlock, isNode⟩ := List.mem_map.mp member
  have isNew := (mem_block_iff.mp inBlock).1
  rw [← isNode, sound.nodeAt_addItem_new item regex isNew] at leaves
  obtain ⟨edge, inFragment, isTransition⟩ := List.mem_map.mp leaves
  rw [← isTransition]
  exact (own_edge_bounds (List.mem_filter.mp inFragment).1).2

omit item regex in
theorem IsSound.key_lt {entry : Nat × ι} (member : entry ∈ builder.items.entries) :
    entry.1 < builder.count := by
  have isItem := (Table.lookup_eq_some_iff builder.items.ascending).mpr member
  exact (sound.item_bounds entry.1 entry.2 isItem).2

theorem IsSound.items_addItem :
    (builder.addItem item regex).items.entries =
      builder.items.entries ++ [(builder.count, item)] :=
  Table.insertEntry_append fun _ => sound.key_lt

end Build

theorem name_eq_of_getElem? {builder : Builder ι} {number : Nat} {node : Node}
    (found : builder.build.nodes[number]? = some node) : node.name = number := by
  rw [build, List.getElem?_map, Option.map_eq_some_iff] at found
  obtain ⟨position, isPosition, isNode⟩ := found
  obtain ⟨_, isNumber⟩ := List.getElem?_eq_some_iff.mp isPosition
  rw [List.getElem_range] at isNumber
  rw [← isNode, isNumber]
  rfl

/-- Adding an item is local and has an exact size.  The earlier nodes stay, except
that the start node has one more free transition, which leads into a block of new
nodes.  The block has the size of the expression and keeps its transitions, and its
first node has the item.  So whatever is built refers to its own nodes only, names
them by position, and never leads back to the start node. -/
theorem addItem_appends_block (items : List (ι × Regex)) (item : ι)
    (regex : Regex) :
    let builder := Builder.empty.addItems items
    let before := builder.build
    let after := (builder.addItem item regex).build
    let first := before.nodes.length
    (∃ entry block,
      after.nodes =
        (before.nodes.modify before.start fun node =>
          { node with transitions := node.transitions ++ [⟨∅, entry⟩] }) ++ block ∧
      (first ≤ entry ∧ entry ≤ first + regex.nodeCount) ∧
      block.map Node.name = List.range' first (1 + regex.nodeCount) ∧
      (block.flatMap Node.transitions).length = regex.edgeCount ∧
      ∀ node ∈ block, ∀ transition ∈ node.transitions,
        first ≤ transition.target ∧ transition.target ≤ first + regex.nodeCount) ∧
    after.start = before.start ∧
    after.items.entries = before.items.entries ++ [(first, item)] ∧
    before.IsClosed ∧
    (∀ (number : Nat) (node : Node),
      before.nodes[number]? = some node → node.name = number) ∧
    (∀ entry ∈ before.items.entries, entry.1 < first) ∧
    ∀ node ∈ before.nodes, ∀ transition ∈ node.transitions,
      transition.target ≠ before.start := by
  intro builder before after first
  have sound : builder.IsSound ([] ++ items) := empty_isSound.addItems items
  have isFirst : first = builder.count := length_nodes_build builder
  rw [isFirst]
  refine ⟨?_, rfl, sound.items_addItem item regex, sound.build_isClosed,
    fun _ _ => name_eq_of_getElem?, fun _ => sound.key_lt, ?_⟩
  · have entryBounds := block_bounds (fragmentOf_isSound builder regex).entry_mem
    exact ⟨(builder.fragmentOf regex).entry, builder.blockOf item regex,
      nodes_addItem item regex, entryBounds, names_blockOf item regex,
      sound.length_transitions_blockOf item regex,
      fun _ member _ => sound.target_bounds_of_mem_blockOf item regex member⟩
  · intro node member transition leaves
    obtain ⟨number, found⟩ := List.mem_iff_getElem?.mp member
    have inEdges := (leaves_build_iff.mp ⟨node, found, leaves⟩).2
    exact sound.edge_target_ne inEdges

end Builder

end LexGen
