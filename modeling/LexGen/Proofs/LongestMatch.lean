import LexGen.Proofs.Matching

/-!
# Longest matches

A longest match goes on past accepting nodes until its matcher is stuck, and
reports the last one it came by.  On a closed automaton it never fails, and what
it reports is the longest prefix of the input that is accepted.  There is only one
such prefix, and none that is shorter on a longer input.
-/

namespace LexGen.Automaton

variable {ι : Type} {automaton : Automaton ι}

/-- The item that a matcher which starts at a node reaches on a whole input. -/
def acceptFrom? (automaton : Automaton ι) (number : Nat) (input : List Int) :
    Except Dangling (Option ι) := do
  return (← automaton.accepts (some number) input).2

theorem acceptFrom?_start (automaton : Automaton ι) (input : List Int) :
    automaton.acceptFrom? automaton.start input = automaton.accept? input :=
  rfl

theorem acceptFrom?_nil (automaton : Automaton ι) (number : Nat) :
    automaton.acceptFrom? number [] = .ok (automaton.item? number) :=
  rfl

theorem acceptFrom?_cons_of_step {number target : Nat} {code : Int}
    (isStep : automaton.step number code = .ok (some target))
    (input : List Int) :
    automaton.acceptFrom? number (code :: input) =
      automaton.acceptFrom? target input := by
  simp only [acceptFrom?, accepts, advance, isStep]
  rfl

theorem acceptFrom?_cons_of_stuck {number : Nat} {code : Int}
    (isStuck : automaton.step number code = .ok none) (input : List Int) :
    automaton.acceptFrom? number (code :: input) = .ok none := by
  simp only [acceptFrom?, accepts, advance, isStuck]
  rfl

theorem IsClosed.step_eq (closed : automaton.IsClosed) {number : Nat}
    (bound : number < automaton.nodes.length) (code : Int) :
    ∃ position, automaton.step number code = .ok position ∧
      ∀ target, position = some target → target < automaton.nodes.length := by
  obtain ⟨node, isNode⟩ : ∃ node, automaton.nodes[number]? = some node :=
    ⟨_, List.getElem?_eq_getElem bound⟩
  refine ⟨node.target? code, ?_, ?_⟩
  · simp only [step, Automaton.node, isNode]
    rfl
  · intro target isTarget
    obtain ⟨transition, found, same⟩ := Option.map_eq_some_iff.mp isTarget
    have leaves : transition ∈ node.transitions := List.mem_of_find?_eq_some found
    rw [← same]
    exact closed.target_lt node (List.mem_of_getElem? isNode) transition leaves

/-- The length and the item of the longest prefix of the input that is accepted
from the node on, or nothing if no prefix is. -/
def IsLongestFrom (automaton : Automaton ι) (number : Nat) (input : List Int) :
    Option (Nat × ι) → Prop
  | some (length, item) =>
      length ≤ input.length ∧
        automaton.acceptFrom? number (input.take length) = .ok (some item) ∧
        ∀ longer, length < longer → longer ≤ input.length →
          automaton.acceptFrom? number (input.take longer) = .ok none
  | none =>
      ∀ length, length ≤ input.length →
        automaton.acceptFrom? number (input.take length) = .ok none

namespace IsLongestFrom

variable {number : Nat} {input : List Int} {answer : Option (Nat × ι)}

theorem of_nil
    (rejected : ∀ length, 0 < length → length ≤ input.length →
      automaton.acceptFrom? number (input.take length) = .ok none) :
    automaton.IsLongestFrom number input
      ((automaton.item? number).map fun item => (0, item)) := by
  cases isItem : automaton.item? number with
  | none =>
      intro length bound
      cases length with
      | zero => rw [List.take_zero, acceptFrom?_nil, isItem]
      | succ length => exact rejected (length + 1) (Nat.succ_pos length) bound
  | some item =>
      refine ⟨Nat.zero_le _, ?_, rejected⟩
      rw [List.take_zero, acceptFrom?_nil, isItem]

/-- The longest prefix after a step is one code longer before it.  If there is
none, only the empty prefix is left. -/
theorem cons {target : Nat} {code : Int}
    (isStep : automaton.step number code = .ok (some target))
    (longest : automaton.IsLongestFrom target input answer) :
    automaton.IsLongestFrom number (code :: input)
      ((answer.map fun found => (found.1 + 1, found.2)).or
        ((automaton.item? number).map fun item => (0, item))) := by
  have shifted (length : Nat) :
      automaton.acceptFrom? number ((code :: input).take (length + 1)) =
        automaton.acceptFrom? target (input.take length) := by
    rw [List.take_succ_cons, acceptFrom?_cons_of_step isStep]
  cases answer with
  | none =>
      apply of_nil
      intro length positive bound
      obtain ⟨shorter, rfl⟩ := Nat.exists_eq_succ_of_ne_zero (Nat.ne_of_gt positive)
      rw [Nat.succ_eq_add_one, shifted]
      exact longest shorter (Nat.le_of_succ_le_succ bound)
  | some found =>
      obtain ⟨length, item⟩ := found
      obtain ⟨bound, accepted, rejected⟩ := longest
      refine ⟨Nat.succ_le_succ bound, ?_, ?_⟩
      · rw [shifted]
        exact accepted
      · intro longer above below
        cases longer with
        | zero => exact absurd above (Nat.not_lt_zero _)
        | succ longer =>
            rw [shifted]
            exact rejected longer (Nat.lt_of_succ_lt_succ above)
              (Nat.le_of_succ_le_succ below)

theorem le_of_accepted (longest : automaton.IsLongestFrom number input answer)
    {length : Nat} {item : ι} (bound : length ≤ input.length)
    (accepted : automaton.acceptFrom? number (input.take length) =
      .ok (some item)) :
    ∃ longer winner, answer = some (longer, winner) ∧ length ≤ longer := by
  cases answer with
  | none =>
      have rejected := longest length bound
      rw [accepted] at rejected
      cases rejected
  | some found =>
      obtain ⟨longer, winner⟩ := found
      refine ⟨longer, winner, rfl, ?_⟩
      apply Nat.le_of_not_lt
      intro above
      have rejected := longest.2.2 length above bound
      rw [accepted] at rejected
      cases rejected

theorem unique {other : Option (Nat × ι)}
    (first : automaton.IsLongestFrom number input answer)
    (second : automaton.IsLongestFrom number input other) : answer = other := by
  cases answer with
  | none =>
      cases other with
      | none => rfl
      | some found =>
          obtain ⟨_, _, isSome, _⟩ := first.le_of_accepted second.1 second.2.1
          cases isSome
  | some found =>
      obtain ⟨longer, winner, isOther, notLonger⟩ :=
        second.le_of_accepted first.1 first.2.1
      subst isOther
      obtain ⟨length, item, isFound, notShorter⟩ :=
        first.le_of_accepted second.1 second.2.1
      cases isFound
      have sameLength : length = longer := Nat.le_antisymm notLonger notShorter
      have accepted := first.2.1
      rw [sameLength, second.2.1] at accepted
      cases accepted
      rw [sameLength]

theorem le_of_append {later : List Int} {length : Nat} {item : ι}
    (longest : automaton.IsLongestFrom number input (some (length, item)))
    (further : automaton.IsLongestFrom number (input ++ later) answer) :
    ∃ longer winner, answer = some (longer, winner) ∧ length ≤ longer := by
  have samePrefix : (input ++ later).take length = input.take length :=
    List.take_append_of_le_length longest.1
  apply further.le_of_accepted
  · rw [List.length_append]
    exact Nat.le_add_right_of_le longest.1
  · rw [samePrefix]
    exact longest.2.1

end IsLongestFrom

/-- Going on from a node after some codes adds the longest prefix accepted from
there to what was found earlier. -/
theorem IsClosed.longestFrom_eq (closed : automaton.IsClosed)
    (input : List Int) {number : Nat}
    (bound : number < automaton.nodes.length) :
    ∃ answer, automaton.IsLongestFrom number input answer ∧
      ∀ consumed earlier,
        automaton.longestFrom number consumed
            (((automaton.item? number).map fun item => (consumed, item)).or
              earlier) input =
          .ok ((answer.map fun found => (consumed + found.1, found.2)).or
            earlier) := by
  induction input generalizing number with
  | nil =>
      refine ⟨(automaton.item? number).map fun item => (0, item), ?_, ?_⟩
      · apply IsLongestFrom.of_nil
        intro length positive isShort
        exact absurd positive (Nat.not_lt_of_le isShort)
      · intro consumed earlier
        rw [longestFrom, Option.map_map]
        rfl
  | cons code input induction =>
      obtain ⟨position, isStep, targetBound⟩ := closed.step_eq bound code
      cases position with
      | none =>
          refine ⟨(automaton.item? number).map fun item => (0, item), ?_, ?_⟩
          · apply IsLongestFrom.of_nil
            intro length positive _
            cases length with
            | zero => exact absurd positive (Nat.lt_irrefl 0)
            | succ length =>
                rw [List.take_succ_cons]
                exact acceptFrom?_cons_of_stuck isStep _
          · intro consumed earlier
            rw [longestFrom, isStep, Option.map_map]
            rfl
      | some target =>
          obtain ⟨answer, longest, goesOn⟩ := induction (targetBound target rfl)
          refine ⟨_, longest.cons isStep, ?_⟩
          intro consumed earlier
          have isNext : automaton.longestFrom number consumed
              (((automaton.item? number).map fun item => (consumed, item)).or
                earlier) (code :: input) =
              automaton.longestFrom target (consumed + 1)
                (((automaton.item? target).map fun item =>
                  (consumed + 1, item)).or
                  (((automaton.item? number).map fun item =>
                    (consumed, item)).or earlier)) input := by
            rw [longestFrom, isStep]
            rfl
          rw [isNext, goesOn, ← Option.or_assoc]
          cases answer with
          | none =>
              simp only [Option.map_none, Option.none_or, Option.map_map]
              rfl
          | some found =>
              simp only [Option.map_some, Option.some_or, Nat.add_assoc,
                Nat.add_comm 1]

theorem IsClosed.longestMatch_isLongest (closed : automaton.IsClosed)
    (input : List Int) :
    ∃ answer, automaton.longestMatch input = .ok answer ∧
      automaton.IsLongestFrom automaton.start input answer := by
  obtain ⟨answer, longest, goesOn⟩ :=
    closed.longestFrom_eq input closed.start_lt
  have unshifted : (fun found : Nat × ι => (0 + found.1, found.2)) = id := by
    funext found
    simp
  have isAnswer := goesOn 0 none
  rw [unshifted, Option.or_none, Option.or_none, Option.map_id, id] at isAnswer
  exact ⟨answer, isAnswer, longest⟩

theorem IsClosed.longestMatch_eq_ok_iff (closed : automaton.IsClosed)
    {input : List Int} {answer : Option (Nat × ι)} :
    automaton.longestMatch input = .ok answer ↔
      automaton.IsLongestFrom automaton.start input answer := by
  obtain ⟨found, isFound, longest⟩ := closed.longestMatch_isLongest input
  rw [isFound, Except.ok.injEq]
  constructor
  · intro same
    exact same ▸ longest
  · exact longest.unique

theorem IsClosed.le_longestMatch (closed : automaton.IsClosed)
    {word : List Int} {item : ι}
    (accepted : automaton.accept? word = .ok (some item)) (later : List Int) :
    ∃ length winner,
      automaton.longestMatch (word ++ later) = .ok (some (length, winner)) ∧
        word.length ≤ length := by
  obtain ⟨answer, isAnswer, longest⟩ :=
    closed.longestMatch_isLongest (word ++ later)
  have bound : word.length ≤ (word ++ later).length := by
    rw [List.length_append]
    exact Nat.le_add_right _ _
  have isPrefix : automaton.acceptFrom? automaton.start
      ((word ++ later).take word.length) = .ok (some item) := by
    rw [List.take_left, acceptFrom?_start]
    exact accepted
  obtain ⟨length, winner, rfl, longer⟩ := longest.le_of_accepted bound isPrefix
  exact ⟨length, winner, isAnswer, longer⟩

/-- On a closed automaton the longest match is found on every input.  It is the
prefix that a fresh matcher accepts while it accepts no longer one, and there is none
exactly if no prefix is accepted, the empty one included.  It does not get shorter or
lost when the input goes on.  A matcher that gives up where it gets stuck reports what
moving on to the end does, wherever it begins. -/
theorem longestMatch_isMaximalMunch (closed : automaton.IsClosed)
    (input : List Int) :
    (∃ answer, automaton.longestMatch input = .ok answer) ∧
    (∀ length item, automaton.longestMatch input = .ok (some (length, item)) ↔
      length ≤ input.length ∧
        automaton.accept? (input.take length) = .ok (some item) ∧
        ∀ longer, length < longer → longer ≤ input.length →
          automaton.accept? (input.take longer) = .ok none) ∧
    (automaton.longestMatch input = .ok none ↔
      ∀ length, length ≤ input.length →
        automaton.accept? (input.take length) = .ok none) ∧
    (∀ later length item,
      automaton.longestMatch input = .ok (some (length, item)) →
        ∃ longer winner,
          automaton.longestMatch (input ++ later) = .ok (some (longer, winner)) ∧
            length ≤ longer) ∧
    ∀ position, automaton.accepts position input =
      (automaton.advanceAll position input).map fun last =>
        (last, automaton.accepting? last) := by
  refine ⟨?_, ?_, ?_, ?_, ?_⟩
  · obtain ⟨answer, isAnswer, _⟩ := closed.longestMatch_isLongest input
    exact ⟨answer, isAnswer⟩
  · intro length item
    exact closed.longestMatch_eq_ok_iff
  · exact closed.longestMatch_eq_ok_iff
  · intro later length item isMatch
    obtain ⟨answer, isAnswer, further⟩ :=
      closed.longestMatch_isLongest (input ++ later)
    have longest := closed.longestMatch_eq_ok_iff.mp isMatch
    obtain ⟨longer, winner, isSome, notShorter⟩ := longest.le_of_append further
    subst isSome
    exact ⟨longer, winner, isAnswer, notShorter⟩
  · intro position
    exact automaton.accepts_eq_advanceAll position input

/-- An automaton that accepts the empty word, and whose start node has a free
transition and two transitions for one code. -/
theorem overlapping_longestMatch_isMaximalMunch :
    let automaton : Automaton Nat :=
      { start := 0
        items := .ofList [(0, 4), (1, 2), (3, 7)]
        nodes :=
          [⟨0, [⟨.range 97 98, 1⟩, ⟨.singleton 97, 2⟩, ⟨∅, 3⟩]⟩,
            ⟨1, [⟨.singleton 98, 2⟩]⟩, ⟨2, [⟨.singleton 98, 3⟩]⟩, ⟨3, []⟩] }
    let input : List Int := [97, 98, 99]
    automaton.IsClosed ∧
      automaton.longestMatch input = .ok (some (1, 2)) ∧
      (∃ answer, automaton.longestMatch input = .ok answer) ∧
      (∀ length item, automaton.longestMatch input = .ok (some (length, item)) ↔
        length ≤ input.length ∧
          automaton.accept? (input.take length) = .ok (some item) ∧
          ∀ longer, length < longer → longer ≤ input.length →
            automaton.accept? (input.take longer) = .ok none) ∧
      (automaton.longestMatch input = .ok none ↔
        ∀ length, length ≤ input.length →
          automaton.accept? (input.take length) = .ok none) ∧
      (∃ longer winner,
        automaton.longestMatch (input ++ [98]) = .ok (some (longer, winner)) ∧
          1 ≤ longer) ∧
      ∀ position, automaton.accepts position input =
        (automaton.advanceAll position input).map fun last =>
          (last, automaton.accepting? last) := by
  intro automaton input
  have closed : automaton.IsClosed := ⟨by decide, by decide⟩
  have isMatch : automaton.longestMatch input = .ok (some (1, 2)) := by
    decide +kernel
  obtain ⟨total, isLongest, noPrefix, goesOn, stops⟩ :=
    longestMatch_isMaximalMunch closed input
  exact ⟨closed, isMatch, total, isLongest, noPrefix, goesOn [98] 1 2 isMatch, stops⟩

end LexGen.Automaton
