import LexGen.Automaton.Reachability
import LexGen.Proofs.Powerset.Shape
import LexGen.Proofs.Powerset.States
import LexGen.Proofs.Visits
import Mathlib.Data.List.Induction

/-!
# Numbers in the order of first words

Where an orderly automaton numbers its nodes in the order in which they are
mentioned, the numbers follow the first words to the nodes.  A node that is
mentioned before the last step of a path is either a target of an earlier node,
which an earlier word leads to, or the target of an earlier transition of the same
node, which takes a smaller code.

Breadth first the states are found in the order in which they are mentioned as
targets, and a number is a place in that order.  The deterministic automaton is
therefore numbered in the order in which its own nodes are mentioned, which is that
of the first words to them.
-/

namespace LexGen

namespace Precedes

variable {word other : List Int}

theorem trans {third : List Int} (first : Precedes word other)
    (second : Precedes other third) : Precedes word third := by
  apply List.shortlex_def.mpr
  cases List.shortlex_def.mp first with
  | inl shorter =>
      left
      cases List.shortlex_def.mp second with
      | inl further => exact Nat.lt_trans shorter further
      | inr further => exact Nat.lt_of_lt_of_eq shorter further.1
  | inr smaller =>
      cases List.shortlex_def.mp second with
      | inl further => exact .inl (lt_of_eq_of_lt smaller.1 further)
      | inr further =>
          right
          have less : word < other := smaller.2
          have lessFurther : other < third := further.2
          exact ⟨smaller.1.trans further.1, lt_trans less lessFurther⟩

theorem asymm (precedes : Precedes word other) : ¬ Precedes other word :=
  Std.Asymm.asymm (r := List.Shortlex fun low high : Int => low < high) _ _ precedes

theorem eq_of_not (notBefore : ¬ Precedes word other)
    (notAfter : ¬ Precedes other word) : word = other :=
  Std.Trichotomous.trichotomous (r := List.Shortlex fun low high : Int => low < high)
    _ _ notBefore notAfter

theorem lex_append {lefts rights : List Int}
    (smaller : List.Lex (fun low high : Int => low < high) word other)
    (sameLength : word.length = other.length) :
    List.Lex (fun low high : Int => low < high) (word ++ lefts) (other ++ rights) := by
  induction smaller with
  | nil => cases sameLength
  | cons _ induction => exact .cons (induction (Nat.succ.inj sameLength))
  | rel less => exact .rel less

theorem append_code (precedes : Precedes word other) (code last : Int) :
    Precedes (word ++ [code]) (other ++ [last]) := by
  cases List.shortlex_def.mp precedes with
  | inl shorter =>
      apply List.Shortlex.of_length_lt
      rw [List.length_append, List.length_append]
      exact Nat.add_lt_add_right shorter 1
  | inr smaller =>
      apply List.Shortlex.of_lex
      · rw [List.length_append, List.length_append, smaller.1]
        rfl
      · exact lex_append smaller.2 smaller.1

theorem of_last_lt (word : List Int) {low high : Int} (smaller : low < high) :
    Precedes (word ++ [low]) (word ++ [high]) :=
  List.Shortlex.append_left ((List.shortlex_singleton_iff low high).mpr smaller) word

def BelowCode (low high : Int) : Prop := Code.endOfStream ≤ low ∧ low < high

theorem belowCode_wellFounded : WellFounded BelowCode := by
  apply Subrelation.wf ?_ (measure fun code : Int => (code + 1).toNat).wf
  intro low high smaller
  have bound : -1 ≤ low := smaller.1
  have less := smaller.2
  change (low + 1).toNat < (high + 1).toNat
  omega

theorem lex_belowCode (codes : ∀ code ∈ word, Code.endOfStream ≤ code)
    (smaller : List.Lex (fun low high : Int => low < high) word other) :
    List.Lex BelowCode word other := by
  induction smaller with
  | nil => exact .nil
  | cons _ induction =>
      exact .cons (induction (List.forall_mem_cons.mp codes).2)
  | rel less => exact .rel ⟨(List.forall_mem_cons.mp codes).1, less⟩

theorem shortlex_belowCode (codes : ∀ code ∈ word, Code.endOfStream ≤ code)
    (precedes : Precedes word other) : List.Shortlex BelowCode word other := by
  cases List.shortlex_def.mp precedes with
  | inl shorter => exact .of_length_lt shorter
  | inr smaller => exact .of_lex smaller.1 (lex_belowCode codes smaller.2)

end Precedes

namespace Automaton

variable {ι : Type} {automaton : Automaton ι}

theorem Reads.codes {first last : Nat} {word : List Int}
    (path : automaton.Reads first word last) :
    ∀ code ∈ word, Code.endOfStream ≤ code := by
  induction path with
  | stay number => exact nofun
  | free _ _ _ induction => exact induction
  | consume _ takes _ induction =>
      have bound := (Code.mem_domain.mp (CodeSet.mem_domain_of_mem takes)).1
      exact List.forall_mem_cons.mpr ⟨bound, induction⟩

/-- A node that can be reached has a first word: there is no endless descent among
the words that lead to it. -/
theorem Reaches.exists_isFirstWordTo {number : Nat}
    (reaches : automaton.Reaches automaton.start number) :
    ∃ word, automaton.IsFirstWordTo number word := by
  have wellFounded := List.Shortlex.wf Precedes.belowCode_wellFounded
  obtain ⟨word, path, least⟩ := wellFounded.has_min
    {word | automaton.Reads automaton.start word number} reaches
  refine ⟨word, path, ?_⟩
  intro other otherPath different
  by_contra notBefore
  have notAfter : ¬ Precedes other word := by
    intro precedes
    exact least other otherPath (precedes.shortlex_belowCode otherPath.codes)
  exact different (Precedes.eq_of_not notAfter notBefore)

theorem IsFirstWordTo.unique {number : Nat} {word other : List Int}
    (isFirst : automaton.IsFirstWordTo number word)
    (isOtherFirst : automaton.IsFirstWordTo number other) : word = other := by
  by_contra different
  have precedes := isOtherFirst.precedes word isFirst.path different
  exact precedes.asymm (isFirst.precedes other isOtherFirst.path (Ne.symm different))

theorem mentions_split {place : Nat} {node : Node}
    (isNode : automaton.nodes[place]? = some node)
    {preceding following : List Transition} {transition : Transition}
    (split : node.transitions = preceding ++ transition :: following) :
    ∃ after, automaton.mentions =
      automaton.start ::
        ((automaton.nodes.take place).flatMap fun node =>
          node.transitions.map Transition.target) ++
        preceding.map Transition.target ++ transition.target :: after := by
  obtain ⟨bound, isPlace⟩ := List.getElem?_eq_some_iff.mp isNode
  have nodes : automaton.nodes =
      automaton.nodes.take place ++ node :: automaton.nodes.drop (place + 1) := by
    rw [← isPlace, ← List.drop_eq_getElem_cons bound, List.take_append_drop]
  refine ⟨following.map Transition.target ++
    (automaton.nodes.drop (place + 1)).flatMap fun node =>
      node.transitions.map Transition.target, ?_⟩
  conv_lhs => rw [mentions, nodes]
  simp [split]

section Numbers

variable (orderly : automaton.IsOrderly)
  (listed : AreFirstMentions (List.range automaton.nodes.length) automaton.mentions)

include orderly listed

/-- What leads to a smaller number than a transition does and is mentioned before it:
the start, a transition of a node with a smaller number, or an earlier transition of
the same node. -/
theorem mentioned_before {place smaller : Nat} {node : Node}
    (isNode : automaton.nodes[place]? = some node)
    {preceding following : List Transition} {transition : Transition}
    (split : node.transitions = preceding ++ transition :: following)
    (below : smaller < transition.target) :
    smaller = automaton.start ∨
      (∃ earlier < place, ∃ other, automaton.Leaves earlier other ∧
        other.target = smaller) ∨
      ∃ other ∈ preceding, other.target = smaller := by
  obtain ⟨after, mentioned⟩ := mentions_split isNode split
  have inNode : transition ∈ node.transitions := by
    rw [split]
    exact List.mem_append_right preceding List.mem_cons_self
  have bound := orderly.isClosed.target_lt node (List.mem_of_getElem? isNode)
    transition inNode
  have inOrder := List.pairwise_iff_getElem.mp listed.inOrder smaller
    transition.target (by rw [List.length_range]; omega)
    (by rw [List.length_range]; exact bound) below
  rw [List.getElem_range, List.getElem_range] at inOrder
  have before := inOrder _ _ mentioned
  rw [List.mem_append, List.mem_cons, or_assoc] at before
  cases before with
  | inl isStart => exact .inl isStart
  | inr before =>
      right
      cases before with
      | inl isEarlier =>
          left
          obtain ⟨earlierNode, inEarlier, isTarget⟩ := List.mem_flatMap.mp isEarlier
          obtain ⟨other, inOther, isTarget⟩ := List.mem_map.mp isTarget
          obtain ⟨earlier, limit, isNode⟩ := List.mem_take_iff_getElem.mp inEarlier
          have leaves : automaton.Leaves earlier other :=
            ⟨earlierNode, isNode ▸ List.getElem?_eq_getElem _, inOther⟩
          exact ⟨earlier, (Nat.lt_min.mp limit).1, other, leaves, isTarget⟩
      | inr isPreceding =>
          right
          exact List.mem_map.mp isPreceding

omit listed in
theorem exists_code {place : Nat} {transition : Transition}
    (leaves : automaton.Leaves place transition) :
    ∃ code, automaton.Reads place [code] transition.target := by
  have consumes := consumes_of_leaves orderly.isDeterministic leaves
  obtain ⟨code, takes⟩ :=
    CodeSet.isEmpty_eq_false_iff.mp (Bool.eq_false_iff.mpr consumes)
  exact ⟨code, .consume leaves takes (.stay _)⟩

omit listed in
theorem exists_smaller_code {place : Nat} {node : Node}
    (isNode : automaton.nodes[place]? = some node)
    {preceding following : List Transition} {transition : Transition}
    (split : node.transitions = preceding ++ transition :: following)
    {code : Int} (takes : code ∈ transition.label) {other : Transition}
    (isEarlier : other ∈ preceding) :
    ∃ low < code, automaton.Reads place [low] other.target := by
  have ascending :=
    (orderly.node_isOrderly node (List.mem_of_getElem? isNode)).ascending
  rw [split] at ascending
  obtain ⟨low, high, isLow, isHigh, less⟩ := (List.pairwise_append.mp ascending).2.2
    other isEarlier transition List.mem_cons_self
  have takesLow := (CodeSet.first?_eq_some_iff.mp isLow).1
  have highLe := (CodeSet.first?_eq_some_iff.mp isHigh).2 code takes
  have inNode : other ∈ node.transitions := by
    rw [split]
    exact List.mem_append_left _ isEarlier
  exact ⟨low, Int.lt_of_lt_of_le less highLe,
    .consume ⟨node, isNode, inNode⟩ takesLow (.stay _)⟩

/-- A word that leads to a node comes after some word to each node with a smaller
number. -/
theorem exists_earlier_word {number smaller : Nat} {word : List Int}
    (path : automaton.Reads automaton.start word number) (below : smaller < number) :
    ∃ earlier, automaton.Reads automaton.start earlier smaller ∧
      Precedes earlier word := by
  have deterministic := orderly.isDeterministic
  induction word using List.reverseRecOn generalizing number smaller with
  | nil =>
      rw [eq_of_reads_nil deterministic path, orderly.start_eq_zero] at below
      exact absurd below (Nat.not_lt_zero smaller)
  | append_singleton word code induction =>
      obtain ⟨place, reads, step⟩ := reads_append_iff.mp path
      obtain ⟨transition, leaves, takes, isTarget⟩ :=
        exists_transition_of_reads deterministic step
      obtain ⟨node, isNode, inNode⟩ := leaves
      obtain ⟨preceding, following, split⟩ := List.append_of_mem inNode
      rw [← isTarget] at below
      cases mentioned_before orderly listed isNode split below with
      | inl isStart =>
          have shorter : ([] : List Int).length < (word ++ [code]).length := by simp
          exact ⟨[], isStart ▸ .stay _, .of_length_lt shorter⟩
      | inr isTargeted =>
        cases isTargeted with
        | inl isEarlierNode =>
            obtain ⟨earlier, isSmaller, other, leaves, isOther⟩ := isEarlierNode
            obtain ⟨earlierWord, earlierPath, precedes⟩ := induction reads isSmaller
            obtain ⟨low, otherStep⟩ := exists_code orderly leaves
            rw [isOther] at otherStep
            exact ⟨earlierWord ++ [low], earlierPath.append otherStep,
              precedes.append_code low code⟩
        | inr isPreceding =>
            obtain ⟨other, inPreceding, isOther⟩ := isPreceding
            obtain ⟨low, less, otherStep⟩ :=
              exists_smaller_code orderly isNode split takes inPreceding
            rw [isOther] at otherStep
            exact ⟨word ++ [low], reads.append otherStep, .of_last_lt word less⟩

theorem lt_iff_precedes {number other : Nat} {word otherWord : List Int}
    (isFirst : automaton.IsFirstWordTo number word)
    (isOtherFirst : automaton.IsFirstWordTo other otherWord) :
    number < other ↔ Precedes word otherWord := by
  have precedes_of_lt {smaller larger : Nat} {first second : List Int}
      (isFirst : automaton.IsFirstWordTo smaller first)
      (isSecond : automaton.IsFirstWordTo larger second) (below : smaller < larger) :
      Precedes first second := by
    obtain ⟨earlier, path, precedes⟩ :=
      exists_earlier_word orderly listed isSecond.path below
    by_cases same : earlier = first
    · exact same ▸ precedes
    · exact (isFirst.precedes earlier path same).trans precedes
  constructor
  · exact precedes_of_lt isFirst isOtherFirst
  · intro precedes
    by_contra notBelow
    cases Nat.lt_or_eq_of_le (Nat.le_of_not_lt notBelow) with
    | inl above => exact precedes.asymm (precedes_of_lt isOtherFirst isFirst above)
    | inr same =>
        rw [same] at isOtherFirst
        rw [isFirst.unique isOtherFirst] at precedes
        exact precedes.asymm precedes

end Numbers

end Automaton

/-! ## Breadth first -/

namespace Powerset

variable {ι : Type} [LE ι] [DecidableLE ι] {powerset : Powerset ι}
  {states : List NodeSet}

theorem mentions_toAutomaton (start : NodeSet) (isFirst : states.idxOf start = 0) :
    (powerset.toAutomaton states).mentions =
      (start :: states.flatMap fun state => (powerset.neighbours state).1).map
        states.idxOf := by
  have targets : (powerset.toAutomaton states).nodes.map
        (fun node => node.transitions.map Transition.target) =
      states.map fun state => (powerset.neighbours state).1.map states.idxOf := by
    apply List.ext_getElem?
    intro number
    rw [List.getElem?_map, List.getElem?_map, getElem?_nodes_toAutomaton,
      Option.map_map]
    apply Option.map_congr
    intro state _
    simp [transitionsAmong, neighbours]
  rw [Automaton.mentions, List.flatMap_def, targets, List.map_cons, isFirst,
    List.map_flatMap, List.flatMap_def]
  rfl

/-- Breadth first nodes are numbered in the order in which they are mentioned. -/
theorem IsSound.range_firstMentions (sound : powerset.IsSound) :
    let deterministic :=
      powerset.toAutomaton (powerset.explore .breadthFirst).found
    AreFirstMentions (List.range deterministic.nodes.length)
      deterministic.mentions := by
  intro deterministic
  have distinct := sound.found_nodup .breadthFirst
  obtain ⟨start, visited, _, visits⟩ := sound.explore_visits .breadthFirst
  obtain ⟨added, isFound, _⟩ := visits.exists_added
  have listed := visits.found_firstMentions
  have isFirst : (powerset.explore .breadthFirst).found.idxOf start = 0 := by
    rw [isFound]
    exact List.idxOf_cons_self
  rw [length_nodes_toAutomaton, mentions_toAutomaton start isFirst,
    ← map_idxOf_self distinct]
  apply listed.map
  intro state isMentioned other _ sameNumber
  exact (List.idxOf_inj ((listed.mem_iff state).mpr isMentioned)).mp sameNumber

end Powerset

namespace Automaton

variable {ι : Type} [LE ι] [DecidableLE ι] {automaton : Automaton ι}

/-- Breadth first every node of the deterministic automaton has a first word, and
nodes are numbered in the order of their first words. -/
theorem determinize_breadthFirst_follows_first_words (closed : automaton.IsClosed) :
    ∃ deterministic, automaton.determinize .breadthFirst = .ok deterministic ∧
      (∀ number, number < deterministic.nodes.length →
        ∃ word, deterministic.IsFirstWordTo number word) ∧
      ∀ number other word otherWord, deterministic.IsFirstWordTo number word →
        deterministic.IsFirstWordTo other otherWord →
        (number < other ↔ Precedes word otherWord) := by
  obtain ⟨powerset, _, sound, isDeterminized⟩ := closed.exists_powerset
  have orderly := sound.toAutomaton_isOrderly .breadthFirst
  have listed := sound.range_firstMentions
  refine ⟨_, isDeterminized .breadthFirst, ?_, ?_⟩
  · intro number bound
    exact (orderly.reaches number bound).exists_isFirstWordTo
  · intro number other word otherWord isFirst isOtherFirst
    exact lt_iff_precedes orderly listed isFirst isOtherFirst

/-- An automaton in which many codes lead to one state, a longer word begins with
smaller codes than a shorter one, and the end of the stream is read. -/
theorem ladder_determinize_follows_first_words :
    let automaton : Automaton Nat :=
      { start := 3
        items := .ofList [(1, 2), (2, 5)]
        nodes :=
          [⟨0, [⟨.singleton 97, 1⟩, ⟨.singleton (-1), 2⟩]⟩, ⟨1, [⟨∅, 0⟩]⟩,
            ⟨2, [⟨.range 98 122, 3⟩]⟩,
            ⟨3, [⟨.range 110 122, 2⟩, ⟨.range 97 115, 0⟩, ⟨.singleton 98, 1⟩]⟩] }
    automaton.IsClosed ∧
      ∃ deterministic, automaton.determinize .breadthFirst = .ok deterministic ∧
        (∀ number, number < deterministic.nodes.length →
          ∃ word, deterministic.IsFirstWordTo number word) ∧
        ∀ number other word otherWord, deterministic.IsFirstWordTo number word →
          deterministic.IsFirstWordTo other otherWord →
          (number < other ↔ Precedes word otherWord) := by
  intro automaton
  have closed : automaton.IsClosed := ⟨by decide, by decide⟩
  exact ⟨closed, determinize_breadthFirst_follows_first_words closed⟩

end Automaton

end LexGen
