import LexGen.Proofs.Thompson.Language

/-!
# Expressions whose loops cannot meet

A repetition joins the entry and the exit of its body, and what is joined to it
at a shared node is repeated as well.  An expression is separated if no
repetition or option has a body that loops at one of its ends, no branch loops
at the exit that the branches share, and no two loops meet between the items of
a sequence.  Exactly the language of a separated expression flows through it.
-/

namespace LexGen

namespace Regex

mutual

/-- Whether nothing but free transitions leads through the expression, in either
direction. -/
def isPassThrough : Regex → Bool
  | .oneOf _ => false
  | .literal text => text.isEmpty
  | .many inner | .optional inner => isPassThrough inner
  | .sequence items => arePassThrough items
  | .alternative items =>
      match items with
      | [] => true
      | [only] => isPassThrough only
      | _ :: _ :: _ => false

def arePassThrough : List Regex → Bool
  | [] => true
  | item :: items => isPassThrough item && arePassThrough items

end

mutual

/-- Whether a repetition begins at the entry of the expression. -/
def loopsAtEntry : Regex → Bool
  | .oneOf _ | .literal _ => false
  | .many _ => true
  | .optional inner => loopsAtEntry inner
  | .sequence items => sequenceLoopsAtEntry items
  | .alternative items =>
      match items with
      | [] => false
      | [only] => loopsAtEntry only
      | _ :: _ :: _ => false

def sequenceLoopsAtEntry : List Regex → Bool
  | [] => false
  | item :: items =>
      loopsAtEntry item || (isPassThrough item && sequenceLoopsAtEntry items)

end

mutual

/-- Whether a repetition ends at the exit of the expression. -/
def loopsAtExit : Regex → Bool
  | .oneOf _ | .literal _ => false
  | .many _ => true
  | .optional inner => loopsAtExit inner
  | .sequence items => sequenceLoopsAtExit items
  | .alternative items => someLoopsAtExit items

def sequenceLoopsAtExit : List Regex → Bool
  | [] => false
  | item :: items =>
      sequenceLoopsAtExit items || (loopsAtExit item && arePassThrough items)

def someLoopsAtExit : List Regex → Bool
  | [] => false
  | item :: items => loopsAtExit item || someLoopsAtExit items

end

mutual

/-- Whether no repetition shares a node with what it must not repeat. -/
def keepsLoopsApart : Regex → Bool
  | .oneOf _ | .literal _ => true
  | .many inner | .optional inner =>
      !loopsAtEntry inner && !loopsAtExit inner && keepsLoopsApart inner
  | .sequence items => sequenceKeepsLoopsApart items
  | .alternative items =>
      match items with
      | [] => true
      | [only] => keepsLoopsApart only
      | first :: second :: later =>
          !someLoopsAtExit (first :: second :: later) &&
            allKeepLoopsApart (first :: second :: later)

/-- Whether the items keep their loops apart from each other as well. -/
def sequenceKeepsLoopsApart : List Regex → Bool
  | [] => true
  | item :: items =>
      !(loopsAtExit item && sequenceLoopsAtEntry items) &&
        keepsLoopsApart item && sequenceKeepsLoopsApart items

def allKeepLoopsApart : List Regex → Bool
  | [] => true
  | item :: items => keepsLoopsApart item && allKeepLoopsApart items

end

/-- Whether all leaves are proper and no loops meet. -/
def isSeparated (regex : Regex) : Bool :=
  regex.hasProperLeaves && regex.keepsLoopsApart

mutual

theorem flows_isSilent (regex : Regex) (passes : regex.isPassThrough = true) :
    Flow.IsSilent regex.Flows := by
  cases regex with
  | oneOf set => cases passes
  | literal text =>
      have isEmpty : text = "" := String.isEmpty_iff.mp passes
      subst isEmpty
      exact Flow.joined_isSilent
  | many inner =>
      exact Flow.parallel_isSilent (flows_isSilent inner passes)
        Flow.joined_isSilent
  | optional inner =>
      exact Flow.parallel_isSilent (flows_isSilent inner passes)
        Flow.wire_empty_isSilent
  | sequence items => exact flowsSequence_isSilent items passes
  | alternative items =>
      match items with
      | [] => exact Flow.joined_isSilent
      | [only] => exact flows_isSilent only passes
      | _ :: _ :: _ => cases passes

theorem flowsSequence_isSilent (items : List Regex)
    (pass : arePassThrough items = true) :
    Flow.IsSilent (FlowsSequence items) := by
  cases items with
  | nil => exact Flow.joined_isSilent
  | cons item items =>
      obtain ⟨itemPasses, itemsPass⟩ := Bool.and_eq_true_iff.mp pass
      exact Flow.series_isSilent (flows_isSilent item itemPasses)
        (flowsSequence_isSilent items itemsPass)

end

theorem flowsCodes_isQuietAtExit (codes : List Int) :
    Flow.IsQuietAtExit (flowsCodes codes) (codes = []) := by
  induction codes with
  | nil => exact Flow.joined_isSilent.isQuietAtExit rfl
  | cons code codes induction =>
      have silent (isEmpty : codes = []) : Flow.IsSilent (flowsCodes codes) :=
        isEmpty ▸ Flow.joined_isSilent
      have isWire (_ : codes = []) :=
        (Flow.wire_isOneWay (.singleton code)).at_exit
      apply (Flow.series_isQuietAtExit isWire induction False.elim silent).mono
      exact fun both => both.1.elim

theorem flowsCodes_isQuietAtEntry (codes : List Int) :
    Flow.IsQuietAtEntry (flowsCodes codes) (codes = []) := by
  cases codes with
  | nil => exact Flow.joined_isSilent.isQuietAtEntry rfl
  | cons code codes =>
      have isWire := (Flow.wire_isOneWay (.singleton code)).at_entry
      have noSecond : False → Flow.IsQuietAtEntry (flowsCodes codes) False :=
        False.elim
      apply (Flow.series_isQuietAtEntry isWire noSecond False.elim
        False.elim).mono
      exact fun both => both.1.elim

theorem isEmpty_of_ofText_eq_nil {text : String}
    (isEmpty : Code.ofText text = []) : text.isEmpty = true := by
  rw [Code.ofText, List.map_eq_nil_iff] at isEmpty
  exact String.isEmpty_iff.mpr (String.toList_eq_nil_iff.mp isEmpty)

mutual

/-- Words that come from an exit where no repetition ends turn back only if the
expression lets them through for free. -/
theorem flows_isQuietAtExit (regex : Regex)
    (noLoop : regex.loopsAtExit = false) :
    Flow.IsQuietAtExit regex.Flows (regex.isPassThrough = true) := by
  cases regex with
  | oneOf set => exact (Flow.wire_isOneWay set).at_exit.mono False.elim
  | literal text =>
      exact (flowsCodes_isQuietAtExit _).mono isEmpty_of_ofText_eq_nil
  | many inner => cases noLoop
  | optional inner =>
      apply Flow.parallel_isQuietAtExit (flows_isQuietAtExit inner noLoop)
      · exact (Flow.wire_isOneWay ∅).at_exit.mono False.elim
      · intro passes
        exact ⟨flows_isSilent inner passes, Flow.wire_empty_isSilent⟩
  | sequence items => exact flowsSequence_isQuietAtExit items noLoop
  | alternative items =>
      match items with
      | [] => exact Flow.joined_isSilent.isQuietAtExit rfl
      | [only] =>
          exact flows_isQuietAtExit only (Bool.or_eq_false_iff.mp noLoop).1
      | first :: second :: later =>
          have isOneWay := flowsBranches_isOneWay (first :: second :: later) noLoop
          exact isOneWay.at_exit.mono False.elim

theorem flowsSequence_isQuietAtExit (items : List Regex)
    (noLoop : sequenceLoopsAtExit items = false) :
    Flow.IsQuietAtExit (FlowsSequence items) (arePassThrough items = true) := by
  cases items with
  | nil => exact Flow.joined_isSilent.isQuietAtExit rfl
  | cons item items =>
      obtain ⟨laterNoLoop, noLoopOrStop⟩ := Bool.or_eq_false_iff.mp noLoop
      have itemQuiet (pass : arePassThrough items = true) :
          Flow.IsQuietAtExit item.Flows (item.isPassThrough = true) := by
        rw [pass, Bool.and_true] at noLoopOrStop
        exact flows_isQuietAtExit item noLoopOrStop
      apply (Flow.series_isQuietAtExit itemQuiet
        (flowsSequence_isQuietAtExit items laterNoLoop) (flows_isSilent item)
        (flowsSequence_isSilent items)).mono
      exact Bool.and_eq_true_iff.mpr

theorem flowsBranches_isOneWay (items : List Regex)
    (noLoop : someLoopsAtExit items = false) :
    Flow.IsOneWay (FlowsBranches items) := by
  cases items with
  | nil => exact Flow.apart_isOneWay
  | cons item items =>
      obtain ⟨itemNoLoop, laterNoLoop⟩ := Bool.or_eq_false_iff.mp noLoop
      have isBranch := Flow.behindWire_isOneWay
        (flows_isQuietAtExit item itemNoLoop) (flows_isSilent item)
      exact Flow.parallel_isOneWay isBranch
        (flowsBranches_isOneWay items laterNoLoop)

end

/-- Branches begin behind wires of their own, whatever loops in them. -/
theorem flowsBranches_isQuietAtEntry (items : List Regex) :
    Flow.IsQuietAtEntry (FlowsBranches items) False := by
  induction items with
  | nil => exact Flow.apart_isOneWay.at_entry
  | cons item items induction =>
      exact Flow.parallel_isQuietAtEntry
        (Flow.behindWire_isQuietAtEntry item.Flows) induction False.elim

mutual

theorem flows_isQuietAtEntry (regex : Regex)
    (noLoop : regex.loopsAtEntry = false) :
    Flow.IsQuietAtEntry regex.Flows (regex.isPassThrough = true) := by
  cases regex with
  | oneOf set => exact (Flow.wire_isOneWay set).at_entry.mono False.elim
  | literal text =>
      exact (flowsCodes_isQuietAtEntry _).mono isEmpty_of_ofText_eq_nil
  | many inner => cases noLoop
  | optional inner =>
      apply Flow.parallel_isQuietAtEntry (flows_isQuietAtEntry inner noLoop)
      · exact (Flow.wire_isOneWay ∅).at_entry.mono False.elim
      · intro passes
        exact ⟨flows_isSilent inner passes, Flow.wire_empty_isSilent⟩
  | sequence items => exact flowsSequence_isQuietAtEntry items noLoop
  | alternative items =>
      match items with
      | [] => exact Flow.joined_isSilent.isQuietAtEntry rfl
      | [only] => exact flows_isQuietAtEntry only noLoop
      | first :: second :: later =>
          exact (flowsBranches_isQuietAtEntry _).mono False.elim

theorem flowsSequence_isQuietAtEntry (items : List Regex)
    (noLoop : sequenceLoopsAtEntry items = false) :
    Flow.IsQuietAtEntry (FlowsSequence items) (arePassThrough items = true) := by
  cases items with
  | nil => exact Flow.joined_isSilent.isQuietAtEntry rfl
  | cons item items =>
      obtain ⟨itemNoLoop, stopOrNoLoop⟩ := Bool.or_eq_false_iff.mp noLoop
      have laterQuiet (passes : item.isPassThrough = true) :
          Flow.IsQuietAtEntry (FlowsSequence items)
            (arePassThrough items = true) := by
        rw [passes, Bool.true_and] at stopOrNoLoop
        exact flowsSequence_isQuietAtEntry items stopOrNoLoop
      apply (Flow.series_isQuietAtEntry (flows_isQuietAtEntry item itemNoLoop)
        laterQuiet (flows_isSilent item) (flowsSequence_isSilent items)).mono
      exact Bool.and_eq_true_iff.mpr

end

theorem eq_of_flowsCodes {codes word : List Int}
    (inDomain : ∀ code ∈ codes, code ∈ Code.domain)
    (flows : flowsCodes codes .entry word .exit) : word = codes := by
  induction codes generalizing word with
  | nil => exact flows
  | cons code codes induction =>
      obtain ⟨isCode, areCodes⟩ := List.forall_mem_cons.mp inDomain
      obtain ⟨before, after, rfl, crossing, further⟩ :=
        Flow.series_crossings_of_exit (Chain.isClosed _)
          (flowsCodes_isClosed codes) (Flow.wire_isOneWay _).at_exit False.elim
          flows
      rw [induction areCodes further]
      have member : code ∈ CodeSet.singleton code :=
        CodeSet.mem_singleton.mpr ⟨rfl, isCode⟩
      rcases Flow.wire_crossing_iff.mp crossing with ⟨isEmpty, _⟩ |
        ⟨other, isMember, rfl⟩
      · rw [CodeSet.isEmpty_iff.mp isEmpty] at member
        exact absurd member CodeSet.not_mem_empty
      · rw [(CodeSet.mem_singleton.mp isMember).1]
        rfl

/-- Words repeat the body of a repetition if it does not loop itself. -/
theorem matches_many_of_flows {inner : Regex}
    (noEntryLoop : inner.loopsAtEntry = false)
    (noExitLoop : inner.loopsAtExit = false)
    (ofInner : ∀ word, inner.Flows .entry word .exit → inner.Matches word)
    {source target : Terminal} {word : List Int}
    (flows : (Regex.many inner).Flows source word target) :
    (Regex.many inner).Matches word := by
  have steps (here : Terminal) (word : List Int) (there : Terminal)
      (after : List Int) (step : (inner.Flows.or Flow.joined) here word there)
      (inLanguage : (Regex.many inner).Matches after) :
      (Regex.many inner).Matches (word ++ after) := by
    have silent (isEmpty : word = []) :
        (Regex.many inner).Matches (word ++ after) := by
      rw [isEmpty]
      exact inLanguage
    cases step with
    | inl flows =>
        cases here with
        | entry =>
            cases there with
            | entry =>
                exact silent (flows_isQuietAtEntry inner noEntryLoop _ _ flows).1
            | exit => exact .manyCons (ofInner word flows) inLanguage
        | exit => exact silent (flows_isQuietAtExit inner noExitLoop _ _ flows).1
    | inr isEmpty => exact silent isEmpty
  have inLanguage := Chain.backward flows
    (fun _ after => (Regex.many inner).Matches after) steps (.manyNil inner)
  rw [List.append_nil] at inLanguage
  exact inLanguage

theorem matches_optional_of_flows {inner : Regex}
    (noEntryLoop : inner.loopsAtEntry = false)
    (noExitLoop : inner.loopsAtExit = false)
    (ofInner : ∀ word, inner.Flows .entry word .exit → inner.Matches word)
    {word : List Int} (flows : (Regex.optional inner).Flows .entry word .exit) :
    (Regex.optional inner).Matches word := by
  by_cases passes : inner.isPassThrough = true
  · have isEmpty := flows_isSilent (.optional inner) passes _ _ _ flows
    rw [isEmpty]
    exact .optionalNil inner
  · have isInner : Flow.IsOneWay inner.Flows :=
      ⟨(flows_isQuietAtExit inner noExitLoop).mono passes,
        (flows_isQuietAtEntry inner noEntryLoop).mono passes⟩
    cases (Flow.parallel_crossing_iff isInner (Flow.wire_isOneWay ∅)).mp flows with
    | inl crossing => exact .optional (ofInner word crossing)
    | inr free =>
        rw [Flow.wire_empty_word free]
        exact .optionalNil inner

/-- Words cross an item and later ones one after the other if their loops do not
meet between them. -/
theorem crossings_of_flowsSequence {item : Regex} {items : List Regex}
    (apart : (item.loopsAtExit && sequenceLoopsAtEntry items) = false)
    {word : List Int}
    (flows : FlowsSequence (item :: items) .entry word .exit) :
    Flow.Crossings item.Flows (FlowsSequence items) word := by
  cases Bool.and_eq_false_iff.mp apart with
  | inl noLoop =>
      exact Flow.series_crossings_of_exit item.flows_isClosed
        (flowsSequence_isClosed items) (flows_isQuietAtExit item noLoop)
        (flows_isSilent item) flows
  | inr noLoop =>
      exact Flow.series_crossings_of_entry item.flows_isClosed
        (flowsSequence_isClosed items)
        (flowsSequence_isQuietAtEntry items noLoop)
        (flowsSequence_isSilent items) flows

mutual

theorem matches_of_flows (regex : Regex) (proper : regex.hasProperLeaves = true)
    (apart : regex.keepsLoopsApart = true) (word : List Int)
    (flows : regex.Flows .entry word .exit) : regex.Matches word := by
  cases regex with
  | oneOf set =>
      rcases Flow.wire_crossing_iff.mp flows with ⟨isEmpty, _⟩ |
        ⟨code, member, rfl⟩
      · simp [hasProperLeaves, everyLeaf, isEmpty] at proper
      · exact .oneOf member
  | literal text =>
      have inDomain (code : Int) (member : code ∈ Code.ofText text) :=
        Code.mem_domain_of_areNarrow proper member
      rw [eq_of_flowsCodes inDomain flows]
      exact .literal text
  | many inner =>
      simp only [keepsLoopsApart, Bool.and_eq_true, Bool.not_eq_true'] at apart
      exact matches_many_of_flows apart.1.1 apart.1.2
        (matches_of_flows inner proper apart.2) flows
  | optional inner =>
      simp only [keepsLoopsApart, Bool.and_eq_true, Bool.not_eq_true'] at apart
      exact matches_optional_of_flows apart.1.1 apart.1.2
        (matches_of_flows inner proper apart.2) flows
  | sequence items => exact matches_of_flowsSequence items proper apart word flows
  | alternative items =>
      match items with
      | [] =>
          rw [show word = [] from flows]
          exact .alternativeNil
      | [only] =>
          have isProper := (Bool.and_eq_true_iff.mp proper).1
          have inLanguage := matches_of_flows only isProper apart word flows
          exact .alternative (List.mem_singleton_self only) inLanguage
      | first :: second :: later =>
          obtain ⟨noLoop, apart⟩ := Bool.and_eq_true_iff.mp apart
          rw [Bool.not_eq_true'] at noLoop
          obtain ⟨item, member, inLanguage⟩ := exists_matches_of_flowsBranches
            (first :: second :: later) proper apart noLoop word flows
          exact .alternative member inLanguage

theorem matches_of_flowsSequence (items : List Regex)
    (proper : (sequence items).hasProperLeaves = true)
    (apart : sequenceKeepsLoopsApart items = true) (word : List Int)
    (flows : FlowsSequence items .entry word .exit) :
    (sequence items).Matches word := by
  cases items with
  | nil =>
      rw [show word = [] from flows]
      exact .sequenceNil
  | cons item items =>
      obtain ⟨itemProper, itemsProper⟩ := Bool.and_eq_true_iff.mp proper
      simp only [sequenceKeepsLoopsApart, Bool.and_eq_true,
        Bool.not_eq_true'] at apart
      obtain ⟨⟨loopsApart, itemApart⟩, itemsApart⟩ := apart
      obtain ⟨before, after, rfl, crossing, further⟩ :=
        crossings_of_flowsSequence loopsApart flows
      exact .sequenceCons
        (matches_of_flows item itemProper itemApart before crossing)
        (matches_of_flowsSequence items itemsProper itemsApart after further)

theorem exists_matches_of_flowsBranches (items : List Regex)
    (proper : (alternative items).hasProperLeaves = true)
    (apart : allKeepLoopsApart items = true)
    (noLoop : someLoopsAtExit items = false) (word : List Int)
    (flows : FlowsBranches items .entry word .exit) :
    ∃ item ∈ items, item.Matches word := by
  cases items with
  | nil => cases flows.1
  | cons item items =>
      obtain ⟨itemProper, itemsProper⟩ := Bool.and_eq_true_iff.mp proper
      obtain ⟨itemApart, itemsApart⟩ := Bool.and_eq_true_iff.mp apart
      obtain ⟨itemNoLoop, laterNoLoop⟩ := Bool.or_eq_false_iff.mp noLoop
      have isBranch := Flow.behindWire_isOneWay
        (flows_isQuietAtExit item itemNoLoop) (flows_isSilent item)
      have areBranches := flowsBranches_isOneWay items laterNoLoop
      cases (Flow.parallel_crossing_iff isBranch areBranches).mp flows with
      | inl onBranch =>
          have crossing :=
            (Flow.behindWire_crossing_iff item.flows_isClosed).mp onBranch
          exact ⟨item, List.mem_cons_self,
            matches_of_flows item itemProper itemApart word crossing⟩
      | inr onLater =>
          obtain ⟨other, member, inLanguage⟩ := exists_matches_of_flowsBranches
            items itemsProper itemsApart laterNoLoop word onLater
          exact ⟨other, List.mem_cons_of_mem item member, inLanguage⟩

end

theorem flows_iff_matches {regex : Regex} (separated : regex.isSeparated = true)
    {word : List Int} :
    regex.Flows .entry word .exit ↔ regex.Matches word := by
  obtain ⟨proper, apart⟩ := Bool.and_eq_true_iff.mp separated
  constructor
  · exact matches_of_flows regex proper apart word
  · intro inLanguage
    exact inLanguage.flows proper

example :
    isSeparated (.sequence [.many (.literal "a"), .literal "-",
      .many (.literal "b")]) = true ∧
    isSeparated (.sequence [.many (.literal "a"), .optional (.literal ""),
      .many (.literal "b")]) = false := by
  decide

end Regex

namespace Automaton

variable {ι : Type} [LE ι] [DecidableLE ι] [Std.IsLinearOrder ι]
  {items : List (ι × Regex)}

/-- The deterministic automaton of items with separated expressions accepts the
smallest item whose language has the word. -/
theorem ofItems_accepts_language
    (separated : ∀ entry ∈ items, entry.2.isSeparated = true)
    (order : VisitOrder) :
    ∃ deterministic, (ofItems items).determinize order = .ok deterministic ∧
      ∀ word, ∃ answer, deterministic.accept? word = .ok answer ∧
        IsSmallest
          (fun item => ∃ regex, (item, regex) ∈ items ∧ regex.Matches word)
          answer := by
  obtain ⟨deterministic, isDeterminized, accepts⟩ := ofItems_accept? items order
  refine ⟨deterministic, isDeterminized, ?_⟩
  intro word
  obtain ⟨answer, isAnswer, smallest⟩ := accepts word
  refine ⟨answer, isAnswer, smallest.congr ?_⟩
  intro item
  apply exists_congr
  intro regex
  apply and_congr_right
  intro member
  exact Regex.flows_iff_matches (separated _ member)

/-- A keyword, names that do not begin with a digit, and signed numbers. -/
theorem names_and_numbers_accept_language :
    let digit : CodeSet := .range 48 57
    let letter : CodeSet := .range 97 122
    let items : List (Nat × Regex) :=
      [(0, .literal "if"),
        (1, .sequence [.oneOf letter, .many (.oneOf (letter ∪ digit))]),
        (2, .sequence [.optional (.alternative [.literal "+", .literal "-"]),
          .oneOf digit, .many (.oneOf digit)])]
    (∀ entry ∈ items, entry.2.isSeparated = true) ∧
      ∃ deterministic,
        (ofItems items).determinize .breadthFirst = .ok deterministic ∧
          ∀ word, ∃ answer, deterministic.accept? word = .ok answer ∧
            IsSmallest
              (fun item => ∃ regex, (item, regex) ∈ items ∧ regex.Matches word)
              answer := by
  intro digit letter items
  have separated : ∀ entry ∈ items, entry.2.isSeparated = true := by
    decide +kernel
  exact ⟨separated, ofItems_accepts_language separated .breadthFirst⟩

end Automaton

end LexGen
