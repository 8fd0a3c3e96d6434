import LexGen.Proofs.Powerset.Simulation
import LexGen.Proofs.Thompson.Circuit
import LexGen.Proofs.Thompson.Lowering
import LexGen.Thompson.Builder

/-!
# Automata of items

Adding an item to a builder adds a fragment that is entered from the start node
and that no other fragment touches.  Since nothing leads back to the start node,
a word leads to the final node of an item exactly if it flows through one of the
expressions of the item, whatever the other items are.
-/

namespace LexGen

open Edge

namespace Builder

variable {ι : Type} {builder : Builder ι} {added : List (ι × Regex)}

/-- What holds of a builder after items have been added: its edges join its
nodes, nothing leads back to the start node, and words lead from there to the
nodes of an item as they flow through its expressions. -/
structure IsSound (builder : Builder ι) (added : List (ι × Regex)) : Prop where
  start_lt : start < builder.count
  confined : (crosses builder.edges).IsConfined fun node => node < builder.count
  target_ne : ∀ first word, ¬ crosses builder.edges first word start
  item_bounds : ∀ node item, builder.items.get? node = some item →
    start < node ∧ node < builder.count
  leads_iff : ∀ item word,
    (∃ node, Chain (crosses builder.edges) start word node ∧
        builder.items.get? node = some item) ↔
      ∃ regex, (item, regex) ∈ added ∧ regex.Flows .entry word .exit

theorem empty_isSound : (empty : Builder ι).IsSound [] := by
  constructor
  · exact Nat.zero_lt_one
  · rintro first word last ⟨edge, member, _⟩
    cases member
  · rintro first word ⟨edge, member, _⟩
    cases member
  · intro node item isItem
    cases isItem
  · intro item word
    constructor
    · rintro ⟨node, _, isItem⟩
      cases isItem
    · rintro ⟨regex, member, _⟩
      cases member

section AddItem

def ownEdges (builder : Builder ι) (regex : Regex) : List Edge :=
  free start (builder.fragmentOf regex).entry :: (builder.fragmentOf regex).edges

theorem mem_edges_addItem (item : ι) (regex : Regex) (edge : Edge) :
    edge ∈ (builder.addItem item regex).edges ↔
      edge ∈ builder.edges ∨ edge ∈ builder.ownEdges regex := by
  simp only [addItem, ownEdges, List.mem_append, List.mem_cons, List.mem_nil_iff,
    or_false, or_assoc]
  exact or_congr Iff.rfl or_comm

theorem get?_items_addItem {item : ι} {regex : Regex} {node : Nat} :
    (builder.addItem item regex).items.get? node =
      if node = builder.count then some item else builder.items.get? node := by
  rw [addItem, Table.get?_insert]
  simp only [beq_iff_eq]

theorem fragmentOf_isSound (builder : Builder ι) (regex : Regex) :
    (builder.fragmentOf regex).IsSound builder.count (builder.count + 1)
      regex.Flows :=
  regex.lower_isSound (Nat.lt_succ_self builder.count)

namespace IsSound

variable (sound : builder.IsSound added)

include sound

theorem ownEdges_realizes (regex : Regex) :
    Realizes (builder.ownEdges regex) (ends start builder.count)
      (fun node => node = start ∨ Within builder.count (builder.count + 1)
        (builder.fragmentOf regex).next node)
      (Flow.series (Flow.wire ∅) regex.Flows) := by
  apply (fragmentOf_isSound builder regex).behindNode
  intro within
  have startBound := sound.start_lt
  cases within with
  | inl isExit => omega
  | inr between => omega

theorem own_chain_iff (regex : Regex) (word : List Int) :
    Chain (crosses (builder.ownEdges regex)) start word builder.count ↔
      regex.Flows .entry word .exit :=
  ((sound.ownEdges_realizes regex).chain_iff .entry word .exit).trans
    (Flow.behindWire_crossing_iff regex.flows_isClosed)

theorem own_target_ne (regex : Regex) (first : Nat) (word : List Int) :
    ¬ crosses (builder.ownEdges regex) first word start := by
  have isFragment := fragmentOf_isSound builder regex
  have startOutside : ¬ Within builder.count (builder.count + 1)
      (builder.fragmentOf regex).next start := by
    have startBound := sound.start_lt
    intro within
    cases within with
    | inl isExit => omega
    | inr between => omega
  rintro ⟨edge, member, _, isStart, _⟩
  cases List.mem_cons.mp member with
  | inl isWire =>
      rw [isWire] at isStart
      exact startOutside (isStart ▸ isFragment.entry_mem)
  | inr inFragment =>
      have inRegion := (mem_region isFragment.realizes.confined inFragment).2
      exact startOutside (isStart ▸ inRegion)

theorem addItem_chain_iff (item : ι) (regex : Regex) (node : Nat)
    (word : List Int) :
    Chain (crosses (builder.addItem item regex).edges) start word node ↔
      Chain (crosses builder.edges) start word node ∨
        Chain (crosses (builder.ownEdges regex)) start word node := by
  rw [crosses_eq_or (mem_edges_addItem item regex)]
  constructor
  · apply Chain.one_side sound.confined (sound.ownEdges_realizes regex).confined
    rintro first word last step ⟨inEarlier, inOwn⟩
    have isStart : last = start := by
      apply inOwn.resolve_right
      intro within
      cases within with
      | inl isExit => omega
      | inr between => omega
    subst isStart
    cases step with
    | inl earlier => exact sound.target_ne first word earlier
    | inr own => exact sound.own_target_ne regex first word own
  · intro path
    cases path with
    | inl earlier => exact earlier.mono fun _ _ _ => .inl
    | inr own => exact own.mono fun _ _ _ => .inr

/-- Words lead to the nodes of earlier items as before, and to the new final
node as they flow through its expression. -/
theorem addItem_leads_iff (item other : ι) (regex : Regex) (word : List Int) :
    (∃ node,
        Chain (crosses (builder.addItem item regex).edges) start word node ∧
          (builder.addItem item regex).items.get? node = some other) ↔
      (∃ node, Chain (crosses builder.edges) start word node ∧
          builder.items.get? node = some other) ∨
        item = other ∧ regex.Flows .entry word .exit := by
  constructor
  · rintro ⟨node, path, isItem⟩
    have sides := (sound.addItem_chain_iff item regex node word).mp path
    rw [get?_items_addItem] at isItem
    split at isItem
    next isNew =>
      subst isNew
      cases isItem
      cases sides with
      | inl earlier =>
          have bound := earlier.last_mem_region sound.confined sound.start_lt
          exact absurd bound (Nat.lt_irrefl _)
      | inr own => exact .inr ⟨rfl, (sound.own_chain_iff regex word).mp own⟩
    next isOld =>
      cases sides with
      | inl earlier => exact .inl ⟨node, earlier, isItem⟩
      | inr own =>
          have bounds := sound.item_bounds node other isItem
          have inOwn := own.last_mem_region
            (sound.ownEdges_realizes regex).confined (.inl rfl)
          rcases inOwn with isStart | isExit | between
          · omega
          · omega
          · omega
  · intro leads
    cases leads with
    | inl earlier =>
        obtain ⟨node, path, isItem⟩ := earlier
        have bounds := sound.item_bounds node other isItem
        refine ⟨node, (sound.addItem_chain_iff item regex node word).mpr
          (.inl path), ?_⟩
        rw [get?_items_addItem, if_neg (Nat.ne_of_lt bounds.2)]
        exact isItem
    | inr new =>
        obtain ⟨rfl, flows⟩ := new
        have path := (sound.own_chain_iff regex word).mpr flows
        refine ⟨builder.count, (sound.addItem_chain_iff _ regex _ word).mpr
          (.inr path), ?_⟩
        rw [get?_items_addItem, if_pos rfl]

theorem addItem (item : ι) (regex : Regex) :
    (builder.addItem item regex).IsSound (added ++ [(item, regex)]) := by
  have startBound := sound.start_lt
  have grows : builder.count < (builder.addItem item regex).count :=
    (fragmentOf_isSound builder regex).next_le
  have confined := confined_or sound.confined
    (sound.ownEdges_realizes regex).confined (mem_edges_addItem item regex)
  constructor
  · exact Nat.lt_trans startBound grows
  · intro first word last step
    have inRegion (node : Nat) (isNode : node < builder.count ∨ node = start ∨
        Within builder.count (builder.count + 1)
          (builder.fragmentOf regex).next node) :
        node < (builder.addItem item regex).count := by
      rcases isNode with isOld | isStart | within
      · exact Nat.lt_trans isOld grows
      · exact isStart ▸ Nat.lt_trans startBound grows
      · exact within.lt grows
    have bounds := confined first word last step
    exact ⟨inRegion first bounds.1, inRegion last bounds.2⟩
  · intro first word step
    rw [crosses_eq_or (mem_edges_addItem item regex)] at step
    cases step with
    | inl earlier => exact sound.target_ne first word earlier
    | inr own => exact sound.own_target_ne regex first word own
  · intro node other isItem
    rw [get?_items_addItem] at isItem
    split at isItem
    next isNew =>
      subst isNew
      exact ⟨startBound, grows⟩
    next isOld =>
      have bounds := sound.item_bounds node other isItem
      exact ⟨bounds.1, Nat.lt_trans bounds.2 grows⟩
  · intro other word
    rw [sound.addItem_leads_iff item other regex word, sound.leads_iff]
    constructor
    · intro flows
      cases flows with
      | inl earlier =>
          obtain ⟨expression, member, flows⟩ := earlier
          exact ⟨expression, List.mem_append_left _ member, flows⟩
      | inr new =>
          obtain ⟨rfl, flows⟩ := new
          exact ⟨regex, List.mem_append_right _ (List.mem_singleton_self _),
            flows⟩
    · rintro ⟨expression, member, flows⟩
      cases List.mem_append.mp member with
      | inl earlier => exact .inl ⟨expression, earlier, flows⟩
      | inr new =>
          cases List.mem_singleton.mp new
          exact .inr ⟨rfl, flows⟩

end IsSound

end AddItem

theorem IsSound.addItems (sound : builder.IsSound added)
    (items : List (ι × Regex)) :
    (builder.addItems items).IsSound (added ++ items) := by
  induction items generalizing builder added with
  | nil =>
      rw [List.append_nil]
      exact sound
  | cons item items induction =>
      rw [← List.singleton_append, ← List.append_assoc]
      exact induction (sound.addItem item.1 item.2)

section Build

theorem leaves_build_iff {number : Nat} {transition : Transition} :
    builder.build.Leaves number transition ↔
      number < builder.count ∧ ⟨number, transition⟩ ∈ builder.edges := by
  have inNode : transition ∈ (builder.nodeAt number).transitions ↔
      ⟨number, transition⟩ ∈ builder.edges := by
    rw [nodeAt, List.mem_map]
    constructor
    · rintro ⟨⟨source, _⟩, member, rfl⟩
      obtain ⟨inEdges, isSource⟩ := List.mem_filter.mp member
      cases beq_iff_eq.mp isSource
      exact inEdges
    · intro inEdges
      exact ⟨_, List.mem_filter.mpr ⟨inEdges, beq_self_eq_true number⟩, rfl⟩
  have isNode (node : Node) : builder.build.nodes[number]? = some node ↔
      number < builder.count ∧ builder.nodeAt number = node := by
    rw [build, List.getElem?_map, Option.map_eq_some_iff]
    constructor
    · rintro ⟨position, isPosition, isNode⟩
      obtain ⟨bound, rfl⟩ := List.getElem?_eq_some_iff.mp isPosition
      rw [List.length_range] at bound
      rw [List.getElem_range] at isNode
      exact ⟨bound, isNode⟩
    · rintro ⟨bound, isNode⟩
      exact ⟨number, List.getElem?_range bound, isNode⟩
  constructor
  · rintro ⟨node, found, member⟩
    obtain ⟨bound, rfl⟩ := (isNode node).mp found
    exact ⟨bound, inNode.mp member⟩
  · rintro ⟨bound, member⟩
    exact ⟨_, (isNode _).mpr ⟨bound, rfl⟩, inNode.mpr member⟩

/-- Paths of the automaton are chains of the edges of its builder. -/
theorem IsSound.reads_build_iff (sound : builder.IsSound added)
    {first last : Nat} {word : List Int} :
    builder.build.Reads first word last ↔
      Chain (crosses builder.edges) first word last := by
  constructor
  · intro path
    induction path with
    | stay number => exact .nil number
    | @free number last transition word leaves isFree _ induction =>
        have inEdges := (leaves_build_iff.mp leaves).2
        have step : crosses builder.edges number [] transition.target :=
          ⟨_, inEdges, rfl, rfl, .inl ⟨isFree, rfl⟩⟩
        exact .cons step induction
    | @consume number last transition code word leaves member _ induction =>
        have inEdges := (leaves_build_iff.mp leaves).2
        have step : crosses builder.edges number [code] transition.target :=
          ⟨_, inEdges, rfl, rfl, .inr ⟨code, member, rfl⟩⟩
        exact .cons step induction
  · intro path
    induction path with
    | nil place => exact .stay place
    | cons step _ induction =>
        have bound := (sound.confined _ _ _ step).1
        obtain ⟨edge, member, rfl, rfl, passes⟩ := step
        have leaves : builder.build.Leaves edge.source edge.transition :=
          leaves_build_iff.mpr ⟨bound, member⟩
        rcases passes with ⟨isFree, rfl⟩ | ⟨code, inLabel, rfl⟩
        · exact .free leaves isFree induction
        · exact .consume leaves inLabel induction

theorem IsSound.build_isClosed (sound : builder.IsSound added) :
    builder.build.IsClosed := by
  have length : builder.build.nodes.length = builder.count := by
    simp [build]
  constructor
  · rw [length]
    exact sound.start_lt
  · intro node member transition inNode
    obtain ⟨number, found⟩ := List.mem_iff_getElem?.mp member
    have leaves := leaves_build_iff.mp ⟨node, found, inNode⟩
    rw [length]
    exact (mem_region sound.confined leaves.2).2

end Build

end Builder

namespace Automaton

variable {ι : Type} (items : List (ι × Regex))

theorem builder_isSound : (Builder.empty.addItems items).IsSound items :=
  Builder.empty_isSound.addItems items

theorem ofItems_isClosed : (ofItems items).IsClosed :=
  (builder_isSound items).build_isClosed

theorem ofItems_leads_iff (item : ι) (word : List Int) :
    (∃ node, (ofItems items).Reads (ofItems items).start word node ∧
        (ofItems items).item? node = some item) ↔
      ∃ regex, (item, regex) ∈ items ∧ regex.Flows .entry word .exit := by
  have sound := builder_isSound items
  rw [← sound.leads_iff item word]
  apply exists_congr
  intro node
  exact and_congr sound.reads_build_iff Iff.rfl

variable [LE ι] [DecidableLE ι] [Std.IsLinearOrder ι]

/-- The deterministic automaton of items accepts the smallest item that a word
flows through an expression of. -/
theorem ofItems_accept? (order : VisitOrder) :
    ∃ deterministic, (ofItems items).determinize order = .ok deterministic ∧
      ∀ word, ∃ answer, deterministic.accept? word = .ok answer ∧
        IsSmallest
          (fun item => ∃ regex, (item, regex) ∈ items ∧
            regex.Flows .entry word .exit) answer := by
  obtain ⟨_, _, _, _, _, isDeterminized⟩ :=
    (ofItems_isClosed items).determinize_eq order
  refine ⟨_, isDeterminized, ?_⟩
  intro word
  obtain ⟨answer, isAnswer, smallest⟩ :=
    (ofItems_isClosed items).determinize_accept? isDeterminized word
  refine ⟨answer, isAnswer, smallest.congr ?_⟩
  intro item
  exact ofItems_leads_iff items item word

omit items in
theorem ofItem_accept? (order : VisitOrder) (item : ι) (regex : Regex) :
    ∃ deterministic,
      (ofItems [(item, regex)]).determinize order = .ok deterministic ∧
        ∀ word,
          (regex.Flows .entry word .exit ∧
            deterministic.accept? word = .ok (some item)) ∨
          (¬ regex.Flows .entry word .exit ∧
            deterministic.accept? word = .ok none) := by
  obtain ⟨deterministic, isDeterminized, accepts⟩ :=
    ofItems_accept? [(item, regex)] order
  refine ⟨deterministic, isDeterminized, ?_⟩
  intro word
  obtain ⟨answer, isAnswer, smallest⟩ := accepts word
  cases answer with
  | none =>
      right
      refine ⟨?_, isAnswer⟩
      intro flows
      exact smallest item ⟨regex, List.mem_singleton_self _, flows⟩
  | some other =>
      left
      obtain ⟨expression, member, flows⟩ := smallest.1
      cases List.mem_singleton.mp member
      exact ⟨flows, isAnswer⟩

/-- Items do not interfere: the deterministic automaton of all items accepts the
smallest of the items whose own deterministic automata accept the word. -/
theorem ofItems_accepts_smallest_alone (order ownOrder : VisitOrder) :
    ∃ together, (ofItems items).determinize order = .ok together ∧
      ∃ alone : ι → Regex → Automaton ι,
        (∀ item regex, (ofItems [(item, regex)]).determinize ownOrder =
          .ok (alone item regex)) ∧
        ∀ word,
          (∀ item regex, (alone item regex).accept? word = .ok (some item) ∨
            (alone item regex).accept? word = .ok none) ∧
          ∃ answer, together.accept? word = .ok answer ∧
            IsSmallest
              (fun item => ∃ regex, (item, regex) ∈ items ∧
                ∃ own, (alone item regex).accept? word = .ok (some own))
              answer := by
  obtain ⟨together, isDeterminized, accepts⟩ := ofItems_accept? items order
  have onItsOwn (item : ι) (regex : Regex) := ofItem_accept? ownOrder item regex
  choose alone isAlone ownAccepts using onItsOwn
  refine ⟨together, isDeterminized, alone, isAlone, ?_⟩
  intro word
  refine ⟨?_, ?_⟩
  · intro item regex
    exact (ownAccepts item regex word).imp And.right And.right
  · obtain ⟨answer, isAnswer, smallest⟩ := accepts word
    refine ⟨answer, isAnswer, smallest.congr ?_⟩
    intro item
    apply exists_congr
    intro regex
    apply and_congr Iff.rfl
    cases ownAccepts item regex word with
    | inl flowing =>
        obtain ⟨flows, isOwn⟩ := flowing
        exact ⟨fun _ => ⟨item, isOwn⟩, fun _ => flows⟩
    | inr stuck =>
        obtain ⟨noFlow, isNone⟩ := stuck
        constructor
        · intro flows
          exact absurd flows noFlow
        · rintro ⟨own, isOwn⟩
          rw [isNone] at isOwn
          cases isOwn

/-- Three items, two of which share their number and two of which overlap. -/
theorem overlapping_items_accept_smallest_alone :
    let items : List (Nat × Regex) :=
      [(2, .many (.literal "a")), (1, .literal "aa"), (2, .literal "b")]
    ∃ together, (ofItems items).determinize .breadthFirst = .ok together ∧
      ∃ alone : Nat → Regex → Automaton Nat,
        (∀ item regex, (ofItems [(item, regex)]).determinize .depthFirst =
          .ok (alone item regex)) ∧
        ∀ word,
          (∀ item regex, (alone item regex).accept? word = .ok (some item) ∨
            (alone item regex).accept? word = .ok none) ∧
          ∃ answer, together.accept? word = .ok answer ∧
            IsSmallest
              (fun item => ∃ regex, (item, regex) ∈ items ∧
                ∃ own, (alone item regex).accept? word = .ok (some own))
              answer :=
  ofItems_accepts_smallest_alone _ .breadthFirst .depthFirst

end Automaton

end LexGen
