import LexGen.Proofs.LongestMatch
import LexGen.Proofs.Thompson.Language
import LexGen.Translation.Basic

/-!
# The empty word

A code set without members labels a free transition, so that an expression which
is to match one of no codes matches the empty word instead.  Apart from that the
empty word flows through nullable expressions only, and loops that meet make no
difference to it.
-/

namespace LexGen

namespace Flow

variable {first second left right : Passage Terminal}

/-- The empty word crosses two devices in series exactly if it crosses both,
however often it turns back between them. -/
theorem series_nil_iff :
    series first second .entry [] .exit ↔
      first .entry [] .exit ∧ second .entry [] .exit := by
  constructor
  · intro path
    constructor
    · by_contra stuck
      have steps (here there : Joint)
          (step : joints first second here [] there) (isEntry : here = .entry) :
          there = .entry := by
        subst isEntry
        cases step with
        | inl onFirst =>
            obtain ⟨source, target, isSource, isTarget, flows⟩ := onFirst
            cases source with
            | entry =>
                cases target with
                | entry => exact isTarget
                | exit => exact absurd flows stuck
            | exit => cases isSource
        | inr onSecond =>
            obtain ⟨source, _, isSource, _⟩ := onSecond
            cases source <;> cases isSource
      have atEntry := path.mem_region_of_nil (· = .entry) steps rfl
      cases atEntry
    · by_contra stuck
      have steps (here there : Joint)
          (step : joints first second here [] there) (notExit : here ≠ .exit) :
          there ≠ .exit := by
        cases step with
        | inl onFirst =>
            obtain ⟨_, target, _, isTarget, _⟩ := onFirst
            subst isTarget
            cases target <;> exact nofun
        | inr onSecond =>
            obtain ⟨source, target, isSource, isTarget, flows⟩ := onSecond
            subst isSource isTarget
            cases source with
            | entry =>
                cases target with
                | entry => exact nofun
                | exit => exact absurd flows stuck
            | exit => exact absurd rfl notExit
      exact path.mem_region_of_nil (· ≠ .exit) steps nofun rfl
  · intro crossings
    exact series_crossing crossings.1 crossings.2

theorem parallel_nil_iff :
    parallel left right .entry [] .exit ↔
      left .entry [] .exit ∨ right .entry [] .exit := by
  constructor
  · intro path
    by_contra stuck
    have steps (here there : Terminal) (step : left.or right here [] there)
        (isEntry : here = .entry) : there = .entry := by
      subst isEntry
      cases there with
      | entry => rfl
      | exit => exact absurd step stuck
    have atEntry := path.mem_region_of_nil (· = .entry) steps rfl
    cases atEntry
  · intro crossing
    exact .single crossing

theorem wire_nil_iff {label : CodeSet} :
    wire label .entry [] .exit ↔ label.isEmpty = true := by
  rw [wire_crossing_iff]
  constructor
  · intro passes
    cases passes with
    | inl isFree => exact isFree.1
    | inr consumes =>
        obtain ⟨code, _, isWord⟩ := consumes
        cases isWord
  · intro isEmpty
    exact .inl ⟨isEmpty, rfl⟩

end Flow

namespace Regex

mutual

/-- Whether free transitions lead from the entry of the expression to its exit.
The rules are those for nullable expressions, except that a code set lets the
empty word pass if it has no members. -/
def hasFreeCrossing : Regex → Bool
  | .oneOf set => set.isEmpty
  | .literal text => text.isEmpty
  | .many _ | .optional _ => true
  | .sequence items => haveFreeCrossings items
  | .alternative items => items.isEmpty || someHasFreeCrossing items

def haveFreeCrossings : List Regex → Bool
  | [] => true
  | item :: items => hasFreeCrossing item && haveFreeCrossings items

def someHasFreeCrossing : List Regex → Bool
  | [] => false
  | item :: items => hasFreeCrossing item || someHasFreeCrossing items

end

theorem flowsCodes_nil_iff {codes : List Int}
    (inDomain : ∀ code ∈ codes, code ∈ Code.domain) :
    flowsCodes codes .entry [] .exit ↔ codes = [] := by
  cases codes with
  | nil => exact iff_of_true rfl rfl
  | cons code codes =>
      obtain ⟨isCode, _⟩ := List.forall_mem_cons.mp inDomain
      have member : code ∈ CodeSet.singleton code :=
        CodeSet.mem_singleton.mpr ⟨rfl, isCode⟩
      have consumes : ¬ Flow.wire (.singleton code) .entry [] .exit := by
        intro free
        rw [CodeSet.isEmpty_iff.mp (Flow.wire_nil_iff.mp free)] at member
        exact CodeSet.not_mem_empty member
      constructor
      · intro flows
        exact absurd (Flow.series_nil_iff.mp flows).1 consumes
      · intro isEmpty
        cases isEmpty

mutual

theorem flows_nil_iff (regex : Regex) (narrow : regex.isNarrow = true) :
    regex.Flows .entry [] .exit ↔ regex.hasFreeCrossing = true := by
  cases regex with
  | oneOf set => exact Flow.wire_nil_iff
  | literal text =>
      have inDomain (code : Int) (member : code ∈ Code.ofText text) :=
        Code.mem_domain_of_areNarrow narrow member
      rw [Flows, flowsCodes_nil_iff inDomain, Code.ofText, List.map_eq_nil_iff,
        String.toList_eq_nil_iff, hasFreeCrossing, String.isEmpty_iff]
  | many inner =>
      have joined : Flow.joined .entry [] .exit := rfl
      exact iff_of_true (Flow.parallel_nil_iff.mpr (.inr joined)) rfl
  | optional inner =>
      have free : Flow.wire ∅ .entry [] .exit :=
        Flow.wire_nil_iff.mpr (CodeSet.isEmpty_iff.mpr rfl)
      exact iff_of_true (Flow.parallel_nil_iff.mpr (.inr free)) rfl
  | sequence items => exact flowsSequence_nil_iff items narrow
  | alternative items =>
      match items with
      | [] => exact iff_of_true rfl rfl
      | [only] =>
          have onlyNarrow := (Bool.and_eq_true_iff.mp narrow).1
          rw [Flows, flows_nil_iff only onlyNarrow]
          simp [hasFreeCrossing, someHasFreeCrossing]
      | first :: second :: later =>
          exact flowsBranches_nil_iff (first :: second :: later) narrow

theorem flowsSequence_nil_iff (items : List Regex)
    (narrow : (sequence items).isNarrow = true) :
    FlowsSequence items .entry [] .exit ↔ haveFreeCrossings items = true := by
  cases items with
  | nil => exact iff_of_true rfl rfl
  | cons item items =>
      obtain ⟨itemNarrow, itemsNarrow⟩ := Bool.and_eq_true_iff.mp narrow
      rw [FlowsSequence, Flow.series_nil_iff, flows_nil_iff item itemNarrow,
        flowsSequence_nil_iff items itemsNarrow, haveFreeCrossings,
        Bool.and_eq_true]

theorem flowsBranches_nil_iff (items : List Regex)
    (narrow : (alternative items).isNarrow = true) :
    FlowsBranches items .entry [] .exit ↔ someHasFreeCrossing items = true := by
  cases items with
  | nil => exact iff_of_false (fun flows => nomatch flows.1) nofun
  | cons item items =>
      obtain ⟨itemNarrow, itemsNarrow⟩ := Bool.and_eq_true_iff.mp narrow
      have isBranch : Flow.series (Flow.wire ∅) item.Flows .entry [] .exit ↔
          item.hasFreeCrossing = true := by
        rw [Flow.behindWire_crossing_iff item.flows_isClosed,
          flows_nil_iff item itemNarrow]
      rw [FlowsBranches, Flow.parallel_nil_iff, isBranch,
        flowsBranches_nil_iff items itemsNarrow, someHasFreeCrossing,
        Bool.or_eq_true]

end

mutual

theorem hasFreeCrossing_eq_isNullable (regex : Regex)
    (proper : regex.hasProperLeaves = true) :
    regex.hasFreeCrossing = regex.isNullable := by
  cases regex with
  | oneOf set =>
      simpa [hasProperLeaves, everyLeaf, hasFreeCrossing, isNullable] using proper
  | literal text => rfl
  | many inner => rfl
  | optional inner => rfl
  | sequence items => exact haveFreeCrossings_eq_areNullable items proper
  | alternative items =>
      rw [hasFreeCrossing, isNullable,
        someHasFreeCrossing_eq_isSomeNullable items proper]

theorem haveFreeCrossings_eq_areNullable (items : List Regex)
    (proper : (sequence items).hasProperLeaves = true) :
    haveFreeCrossings items = areNullable items := by
  cases items with
  | nil => rfl
  | cons item items =>
      obtain ⟨itemProper, itemsProper⟩ := Bool.and_eq_true_iff.mp proper
      rw [haveFreeCrossings, areNullable,
        hasFreeCrossing_eq_isNullable item itemProper,
        haveFreeCrossings_eq_areNullable items itemsProper]

theorem someHasFreeCrossing_eq_isSomeNullable (items : List Regex)
    (proper : (alternative items).hasProperLeaves = true) :
    someHasFreeCrossing items = isSomeNullable items := by
  cases items with
  | nil => rfl
  | cons item items =>
      obtain ⟨itemProper, itemsProper⟩ := Bool.and_eq_true_iff.mp proper
      rw [someHasFreeCrossing, isSomeNullable,
        hasFreeCrossing_eq_isNullable item itemProper,
        someHasFreeCrossing_eq_isSomeNullable items itemsProper]

end

end Regex

namespace Automaton

variable {ι : Type} [LE ι] [DecidableLE ι] [Std.IsLinearOrder ι]

/-- The deterministic automaton of an expression accepts the empty word exactly
if the expression has a free crossing, has matches of length zero only then, and
free crossings are nullability if all code sets have members. -/
theorem ofItem_accepts_empty_word_iff {regex : Regex}
    (narrow : regex.isNarrow = true) (item : ι) (order : VisitOrder) :
    ∃ deterministic,
      (ofItems [(item, regex)]).determinize order = .ok deterministic ∧
        deterministic.accept? [] =
          .ok (if regex.hasFreeCrossing then some item else none) ∧
        (∀ input winner,
          deterministic.longestMatch input = .ok (some (0, winner)) →
            regex.hasFreeCrossing = true) ∧
        (regex.hasProperLeaves = true →
          regex.hasFreeCrossing = regex.isNullable) := by
  obtain ⟨deterministic, isDeterminized, accepts⟩ :=
    ofItem_accept? order item regex
  have closed :=
    (ofItems_isClosed [(item, regex)]).determinize_isClosed isDeterminized
  have onEmpty : deterministic.accept? [] =
      .ok (if regex.hasFreeCrossing then some item else none) := by
    cases accepts [] with
    | inl flowing =>
        rw [if_pos ((regex.flows_nil_iff narrow).mp flowing.1)]
        exact flowing.2
    | inr stuck =>
        rw [if_neg (mt (regex.flows_nil_iff narrow).mpr stuck.1)]
        exact stuck.2
  refine ⟨deterministic, isDeterminized, onEmpty, ?_,
    regex.hasFreeCrossing_eq_isNullable⟩
  intro input winner isMatch
  obtain ⟨answer, isAnswer, longest⟩ := closed.longestMatch_isLongest input
  rw [isMatch] at isAnswer
  cases isAnswer
  have accepted := longest.2.1
  rw [List.take_zero, acceptFrom?_start, onEmpty] at accepted
  by_contra noCrossing
  rw [if_neg noCrossing] at accepted
  cases accepted

/-- An option before a repetition, whose loop leads back to its entry. -/
theorem sign_and_digits_accept_empty_word_iff :
    let digit : CodeSet := .range 48 57
    let regex : Regex :=
      .sequence [.optional (.literal "-"), .oneOf digit, .many (.oneOf digit)]
    regex.isNarrow = true ∧ regex.hasProperLeaves = true ∧
      ∃ deterministic,
        (ofItems [((4 : Nat), regex)]).determinize .depthFirst =
            .ok deterministic ∧
          deterministic.accept? [] =
            .ok (if regex.hasFreeCrossing then some 4 else none) ∧
          (∀ input winner,
            deterministic.longestMatch input = .ok (some (0, winner)) →
              regex.hasFreeCrossing = true) ∧
          (regex.hasProperLeaves = true →
            regex.hasFreeCrossing = regex.isNullable) := by
  intro digit regex
  have narrow : regex.isNarrow = true := by decide
  have proper : regex.hasProperLeaves = true := by decide +kernel
  exact ⟨narrow, proper, ofItem_accepts_empty_word_iff narrow 4 .depthFirst⟩

/-- The difference of a code and itself is a set without members.  The token of
this set is not nullable, and yet it is accepted on the empty word. -/
theorem token_of_no_codes_accepts_empty_word :
    let place : Location := .single ⟨0, 1, 1⟩
    let nothing : Expr :=
      .difference place (.character place 'a') (.character place 'a')
    let document : Document :=
      { extended := none
        tokens := [⟨"nothing", place, nothing⟩]
        comments := []
        whitespace := none
        fragments := [] }
    let regex : Regex := .oneOf ∅
    document.translate.map Definition.tokens = .ok [⟨"nothing", regex⟩] ∧
      regex.isNarrow = true ∧ regex.isNullable = false ∧
      ((ofItems [((0 : Nat), regex)]).determinize .breadthFirst >>=
        fun deterministic => deterministic.accept? []) = .ok (some 0) := by
  decide +kernel

end Automaton

end LexGen
