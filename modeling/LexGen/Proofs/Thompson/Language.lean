import LexGen.Proofs.LongestMatch
import LexGen.Proofs.Thompson.Items

/-!
# Flow and language

Every word of the language of an expression flows through the expression.  The
converse fails where loops meet: both repetitions of a sequence go through the
node between them, so that words may turn back from the second one to the first
one.  An automaton of items is right about a word exactly if no such detour wins
over the items whose language has the word.

Whatever else flows through the items of an automaton, a word in the language of
one of them is accepted, and only an item of a smaller number can take it away.
A longest match therefore never stops short of such a word.
-/

namespace LexGen

def Code.areNarrow (text : String) : Bool :=
  (Code.ofText text).all fun code => code ≤ Code.largest

namespace Regex

mutual

/-- Whether all code sets and literal texts in an expression pass the tests. -/
def everyLeaf (onSet : CodeSet → Bool) (onText : String → Bool) : Regex → Bool
  | .oneOf set => onSet set
  | .literal text => onText text
  | .many inner | .optional inner => everyLeaf onSet onText inner
  | .sequence items | .alternative items => everyLeafOf onSet onText items

def everyLeafOf (onSet : CodeSet → Bool) (onText : String → Bool) :
    List Regex → Bool
  | [] => true
  | item :: items =>
      everyLeaf onSet onText item && everyLeafOf onSet onText items

end

/-- All code sets have members and all literal texts are narrow. -/
def hasProperLeaves (regex : Regex) : Bool :=
  regex.everyLeaf (fun set => !set.isEmpty) Code.areNarrow

/-- All literal texts are narrow, whatever the code sets are. -/
def isNarrow (regex : Regex) : Bool :=
  regex.everyLeaf (fun _ => true) Code.areNarrow

end Regex

theorem Code.mem_domain_of_areNarrow {text : String}
    (narrow : areNarrow text = true) {code : Int} (member : code ∈ ofText text) :
    code ∈ domain := by
  have below := List.all_eq_true.mp narrow code member
  obtain ⟨character, _, rfl⟩ := List.mem_map.mp member
  apply mem_domain.mpr
  constructor
  · exact Int.le_trans (by decide) (Int.natCast_nonneg _)
  · exact of_decide_eq_true below

namespace Regex

variable {onSet : CodeSet → Bool}

theorem everyLeaf_of_mem {onText : String → Bool} {items : List Regex}
    (every : everyLeafOf onSet onText items = true) {item : Regex}
    (member : item ∈ items) : item.everyLeaf onSet onText = true := by
  induction items with
  | nil => cases member
  | cons first later induction =>
      rw [everyLeafOf, Bool.and_eq_true] at every
      cases List.mem_cons.mp member with
      | inl isFirst => exact isFirst ▸ every.1
      | inr inLater => exact induction every.2 inLater

theorem flowsCodes_crossing {codes : List Int}
    (inDomain : ∀ code ∈ codes, code ∈ Code.domain) :
    flowsCodes codes .entry codes .exit := by
  induction codes with
  | nil => rfl
  | cons code codes induction =>
      obtain ⟨isCode, areCodes⟩ := List.forall_mem_cons.mp inDomain
      have passes : (CodeSet.singleton code).Passes [code] :=
        .inr ⟨code, CodeSet.mem_singleton.mpr ⟨rfl, isCode⟩, rfl⟩
      exact Flow.series_crossing (Flow.wire_crossing_iff.mpr passes)
        (induction areCodes)

theorem flowsBranches_of_mem {items : List Regex} {item : Regex}
    {word : List Int} (member : item ∈ items)
    (flows : item.Flows .entry word .exit) :
    FlowsBranches items .entry word .exit := by
  induction items with
  | nil => cases member
  | cons first later induction =>
      cases List.mem_cons.mp member with
      | inl isFirst =>
          subst isFirst
          have crossing :=
            (Flow.behindWire_crossing_iff item.flows_isClosed).mpr flows
          exact .single (.inl crossing)
      | inr inLater => exact .single (.inr (induction inLater))

theorem flows_alternative_of_mem {items : List Regex} {item : Regex}
    {word : List Int} (member : item ∈ items)
    (flows : item.Flows .entry word .exit) :
    (Regex.alternative items).Flows .entry word .exit := by
  match items with
  | [] => cases member
  | [only] =>
      cases List.mem_singleton.mp member
      exact flows
  | first :: second :: later => exact flowsBranches_of_mem member flows

/-- Repetitions go on from the exit, which is joined with the entry. -/
theorem flows_many_append {inner : Regex} {first later : List Int}
    (flows : inner.Flows .entry first .exit)
    (further : (Regex.many inner).Flows .entry later .exit) :
    (Regex.many inner).Flows .entry (first ++ later) .exit := by
  have crossing : (Regex.many inner).Flows .entry first .exit :=
    .single (.inl flows)
  have back : (Regex.many inner).Flows .exit [] .entry := .single (.inr rfl)
  exact Chain.append crossing (Chain.append back further)

theorem Matches.flows {regex : Regex} {word : List Int}
    (inLanguage : regex.Matches word)
    (narrow : regex.everyLeaf onSet Code.areNarrow = true) :
    regex.Flows .entry word .exit := by
  induction inLanguage with
  | oneOf member => exact Flow.wire_crossing_iff.mpr (.inr ⟨_, member, rfl⟩)
  | literal text =>
      apply flowsCodes_crossing
      intro code member
      exact Code.mem_domain_of_areNarrow narrow member
  | manyNil inner => exact .single (.inr rfl)
  | manyCons _ _ onFirst onLater =>
      exact flows_many_append (onFirst narrow) (onLater narrow)
  | optionalNil inner =>
      have free : Flow.wire ∅ .entry [] .exit :=
        Flow.wire_crossing_iff.mpr (CodeSet.passes_empty_iff.mpr rfl)
      exact .single (.inr free)
  | optional _ onInner => exact .single (.inl (onInner narrow))
  | sequenceNil => rfl
  | sequenceCons _ _ onItem onItems =>
      obtain ⟨ofItem, ofItems⟩ := Bool.and_eq_true_iff.mp narrow
      exact Flow.series_crossing (onItem ofItem) (onItems ofItems)
  | alternativeNil => rfl
  | alternative member _ onItem =>
      exact flows_alternative_of_mem member
        (onItem (everyLeaf_of_mem narrow member))

theorem Matches.of_sequence_cons {item : Regex} {items : List Regex}
    {word : List Int} (inLanguage : (sequence (item :: items)).Matches word) :
    ∃ first later, word = first ++ later ∧ item.Matches first ∧
      (sequence items).Matches later := by
  cases inLanguage with
  | sequenceCons onItem onItems => exact ⟨_, _, rfl, onItem, onItems⟩

theorem Matches.mem_of_many {text : String} {word : List Int}
    (inLanguage : (many (.literal text)).Matches word) :
    ∀ code ∈ word, code ∈ Code.ofText text := by
  generalize isMany : many (.literal text) = regex at inLanguage
  induction inLanguage with
  | manyNil inner =>
      intro code member
      cases member
  | manyCons onFirst _ _ onLater =>
      cases isMany
      cases onFirst
      intro code member
      exact (List.mem_append.mp member).elim id (onLater rfl code)
  | _ => cases isMany

/-- In a sequence of two repetitions of literal texts, codes of the second text
are not followed by codes of the first one. -/
theorem not_matches_of_turn {first second : String} {before after : Int}
    (turn : before ∉ Code.ofText first) (back : after ∉ Code.ofText second) :
    ¬ (sequence [many (.literal first), many (.literal second)]).Matches
      [before, after] := by
  intro inLanguage
  obtain ⟨start, rest, isWord, onFirst, onRest⟩ := inLanguage.of_sequence_cons
  obtain ⟨middle, nothing, isRest, onSecond, onNothing⟩ :=
    onRest.of_sequence_cons
  cases onNothing
  rw [List.append_nil] at isRest
  subst isRest
  cases start with
  | nil =>
      have isWhole : [before, after] = rest := isWord
      subst isWhole
      exact back (onSecond.mem_of_many after (by simp))
  | cons code start =>
      obtain ⟨isCode, _⟩ := List.cons.inj isWord
      subst isCode
      exact turn (onFirst.mem_of_many before List.mem_cons_self)

end Regex

namespace Automaton

variable {ι : Type} [LE ι] [DecidableLE ι] [Std.IsLinearOrder ι]
  {items : List (ι × Regex)}

/-- The deterministic automaton of items accepts the smallest item that a word
flows through, and this is the smallest one whose language has the word exactly
if every item that the word flows through without being in its language is no
smaller than one whose language has the word. -/
theorem ofItems_accepts_language_iff
    (proper : ∀ entry ∈ items, entry.2.hasProperLeaves = true)
    (order : VisitOrder) :
    ∃ deterministic, (ofItems items).determinize order = .ok deterministic ∧
      ∀ word, ∃ answer, deterministic.accept? word = .ok answer ∧
        IsSmallest
          (fun item => ∃ regex, (item, regex) ∈ items ∧
            regex.Flows .entry word .exit) answer ∧
        (IsSmallest
            (fun item => ∃ regex, (item, regex) ∈ items ∧ regex.Matches word)
            answer ↔
          ∀ item regex, (item, regex) ∈ items →
            regex.Flows .entry word .exit → ¬ regex.Matches word →
            ∃ other matched, other ≤ item ∧ (other, matched) ∈ items ∧
              matched.Matches word) := by
  obtain ⟨deterministic, isDeterminized, accepts⟩ := ofItems_accept? items order
  refine ⟨deterministic, isDeterminized, ?_⟩
  intro word
  obtain ⟨answer, isAnswer, smallest⟩ := accepts word
  refine ⟨answer, isAnswer, smallest, ?_⟩
  have implies (item : ι)
      (described : ∃ regex, (item, regex) ∈ items ∧ regex.Matches word) :
      ∃ regex, (item, regex) ∈ items ∧ regex.Flows .entry word .exit := by
    obtain ⟨regex, member, inLanguage⟩ := described
    exact ⟨regex, member, inLanguage.flows (proper _ member)⟩
  rw [smallest.iff_of_imp implies]
  constructor
  · intro covered item regex member isFlow _
    obtain ⟨other, ⟨matched, isItem, inLanguage⟩, below⟩ :=
      covered item ⟨regex, member, isFlow⟩
    exact ⟨other, matched, below, isItem, inLanguage⟩
  · rintro covered item ⟨regex, member, isFlow⟩
    by_cases inLanguage : regex.Matches word
    · exact ⟨item, ⟨regex, member, inLanguage⟩, Std.le_refl item⟩
    · obtain ⟨other, matched, below, isItem, otherLanguage⟩ :=
        covered item regex member isFlow inLanguage
      exact ⟨other, ⟨matched, isItem, otherLanguage⟩, below⟩

/-- Two repetitions one after the other, beside the reverse order of one code
each. -/
theorem meeting_loops_accept_language_iff :
    let items : List (Nat × Regex) :=
      [(1, .sequence [.many (.literal "a"), .many (.literal "b")]),
        (0, .literal "ba")]
    (∀ entry ∈ items, entry.2.hasProperLeaves = true) ∧
      ∃ deterministic,
        (ofItems items).determinize .depthFirst = .ok deterministic ∧
          ∀ word, ∃ answer, deterministic.accept? word = .ok answer ∧
            IsSmallest
              (fun item => ∃ regex, (item, regex) ∈ items ∧
                regex.Flows .entry word .exit) answer ∧
            (IsSmallest
                (fun item => ∃ regex, (item, regex) ∈ items ∧
                  regex.Matches word) answer ↔
              ∀ item regex, (item, regex) ∈ items →
                regex.Flows .entry word .exit → ¬ regex.Matches word →
                ∃ other matched, other ≤ item ∧ (other, matched) ∈ items ∧
                  matched.Matches word) := by
  intro items
  have proper : ∀ entry ∈ items, entry.2.hasProperLeaves = true := by decide
  exact ⟨proper, ofItems_accepts_language_iff proper .depthFirst⟩

/-- Words turn back between two repetitions: "ba" is accepted, though it is not
in the language of the only item. -/
theorem meeting_loops_accept_outside_language :
    let regex : Regex := .sequence [.many (.literal "a"), .many (.literal "b")]
    regex.hasProperLeaves = true ∧
      ((ofItems [((0 : Nat), regex)]).determinize .breadthFirst >>=
        fun deterministic => deterministic.accept? [98, 97]) = .ok (some 0) ∧
      ¬ IsSmallest
        (fun item => ∃ expression, (item, expression) ∈ [(0, regex)] ∧
          expression.Matches [98, 97]) (some 0) := by
  intro regex
  refine ⟨by decide, by decide +kernel, ?_⟩
  rintro ⟨⟨expression, member, inLanguage⟩, _⟩
  cases List.mem_singleton.mp member
  exact Regex.not_matches_of_turn (by decide) (by decide) inLanguage

end Automaton

/-! ## No match is lost -/

namespace Automaton

variable {ι : Type} [LE ι] [DecidableLE ι] [Std.IsLinearOrder ι]
  {items : List (ι × Regex)}

/-- The deterministic automaton of items accepts every word in the language of
an item, as this item or a smaller one, and its longest match on an input that
begins with the word is no shorter than the word. -/
theorem ofItems_accepts_every_match
    (narrow : ∀ entry ∈ items, entry.2.isNarrow = true) (order : VisitOrder) :
    ∃ deterministic, (ofItems items).determinize order = .ok deterministic ∧
      ∀ item regex word, (item, regex) ∈ items → regex.Matches word →
        (∃ winner, deterministic.accept? word = .ok (some winner) ∧
          winner ≤ item) ∧
        ∀ later, ∃ length winner,
          deterministic.longestMatch (word ++ later) =
              .ok (some (length, winner)) ∧
            word.length ≤ length := by
  obtain ⟨deterministic, isDeterminized, accepts⟩ := ofItems_accept? items order
  have closed := (ofItems_isClosed items).determinize_isClosed isDeterminized
  refine ⟨deterministic, isDeterminized, ?_⟩
  intro item regex word member inLanguage
  obtain ⟨answer, isAnswer, smallest⟩ := accepts word
  have flows := inLanguage.flows (narrow _ member)
  obtain ⟨winner, rfl, below⟩ :=
    smallest.exists_le ⟨regex, member, flows⟩
  refine ⟨⟨winner, isAnswer, below⟩, ?_⟩
  intro later
  exact closed.le_longestMatch isAnswer later

/-- Nested and neighbouring repetitions beside a set without codes. -/
theorem nested_loops_accept_match :
    let regex : Regex :=
      .many (.sequence [.many (.literal "a"), .optional (.literal "b")])
    let items : List (Nat × Regex) :=
      [(3, regex), (1, .alternative [.oneOf ∅, .many (.literal "ab")])]
    (∀ entry ∈ items, entry.2.isNarrow = true) ∧ (3, regex) ∈ items ∧
      regex.Matches [97, 98, 97] ∧
      ∃ deterministic,
        (ofItems items).determinize .depthFirst = .ok deterministic ∧
          (∃ winner, deterministic.accept? [97, 98, 97] = .ok (some winner) ∧
            winner ≤ 3) ∧
          ∀ later, ∃ length winner,
            deterministic.longestMatch ([97, 98, 97] ++ later) =
                .ok (some (length, winner)) ∧
              3 ≤ length := by
  intro regex items
  have narrow : ∀ entry ∈ items, entry.2.isNarrow = true := by decide
  have member : (3, regex) ∈ items := List.mem_cons_self
  have once : (Regex.many (.literal "a")).Matches [97] :=
    .manyCons (.literal "a") (.manyNil _)
  have first : (Regex.sequence
      [.many (.literal "a"), .optional (.literal "b")]).Matches [97, 98] :=
    .sequenceCons once (.sequenceCons (.optional (.literal "b")) .sequenceNil)
  have second : (Regex.sequence
      [.many (.literal "a"), .optional (.literal "b")]).Matches [97] :=
    .sequenceCons once (.sequenceCons (.optionalNil _) .sequenceNil)
  have inLanguage : regex.Matches [97, 98, 97] :=
    .manyCons first (.manyCons second (.manyNil _))
  obtain ⟨deterministic, isDeterminized, accepts⟩ :=
    ofItems_accepts_every_match narrow .depthFirst
  exact ⟨narrow, member, inLanguage, deterministic, isDeterminized,
    accepts 3 regex [97, 98, 97] member inLanguage⟩

end Automaton

end LexGen
