import LexGen.Proofs.Recognizer
import LexGen.Recognizer

/-!
# What the top level accepts

The items of the top level are numbered in the order of their priority, so that
its recogniser accepts a word as the first of them whose own recogniser does.
The numbers it answers with are those of the items of the definition, and only
these stand for an item.
-/

namespace LexGen

section Alone

theorem Regex.acceptsAlone_iff_flows {regex : Regex} {word : List Int} :
    regex.acceptsAlone word = true ↔ regex.Flows .entry word .exit := by
  classical
  obtain ⟨own, isOwn, accepts⟩ := recognizer_singleton_accept? (0 : Nat) regex
  simp only [acceptsAlone, isOwn, bind, Except.bind, accepts word]
  by_cases flows : regex.Flows .entry word .exit
  · simp [flows]
  · simp [flows]

/-- The recogniser of an expression answers every word, and tells whether it is
accepted. -/
theorem recognizer_alone (regex : Regex) :
    ∃ own, recognizer [((0 : Nat), regex)] = .ok own ∧
      ∀ word, own.accept? word =
        .ok (if regex.acceptsAlone word then some 0 else none) := by
  classical
  obtain ⟨own, isOwn, accepts⟩ := recognizer_singleton_accept? (0 : Nat) regex
  refine ⟨own, isOwn, ?_⟩
  intro word
  simp only [accepts word, Regex.acceptsAlone_iff_flows]

theorem recognizer_accepts_first {items : List (Nat × Regex)}
    (ascending : items.Pairwise fun earlier later => earlier.1 ≤ later.1) :
    ∃ automaton, recognizer items = .ok automaton ∧
      ∀ word, automaton.accept? word =
        .ok ((items.find? fun entry => entry.2.acceptsAlone word).map Prod.fst) := by
  classical
  obtain ⟨automaton, isRecognizer, accepts⟩ := recognizer_accept? ascending
  refine ⟨automaton, isRecognizer, ?_⟩
  intro word
  have alone (entry : Nat × Regex) :
      decide (entry.2.Flows .entry word .exit) = entry.2.acceptsAlone word := by
    rw [Bool.eq_iff_iff, decide_eq_true_iff, Regex.acceptsAlone_iff_flows]
  rw [accepts word]
  simp only [alone]

theorem Regex.acceptsAlone_endOfStream {word : List Int} :
    (oneOf (.singleton Code.endOfStream)).acceptsAlone word =
      decide (word = [Code.endOfStream]) := by
  have isMember (code : Int) :
      code ∈ CodeSet.singleton Code.endOfStream ↔ code = Code.endOfStream := by
    rw [CodeSet.mem_singleton]
    exact and_iff_left (by decide)
  have inhabited := (isMember Code.endOfStream).mpr rfl
  rw [Bool.eq_iff_iff, acceptsAlone_iff_flows, decide_eq_true_iff,
    flows_oneOf_iff inhabited]
  constructor
  · intro isCode
    obtain ⟨code, member, isWord⟩ := isCode
    rw [isWord, (isMember code).mp member]
  · intro isWord
    exact ⟨Code.endOfStream, inhabited, isWord⟩

end Alone

namespace TopLevelItem

theorem ofNumber?_number {definition : Definition} {item : TopLevelItem}
    (isIn : item.IsIn definition) :
    ofNumber? definition (item.number definition) = some item := by
  cases item with
  | token index => exact if_pos isIn
  | endOfStream => simp [ofNumber?, TopLevelItem.number]
  | comment index =>
      have bound : index < definition.comments.length := isIn
      have notToken :
          ¬ definition.tokens.length + 2 + index < definition.tokens.length := by
        omega
      have notEnd :
          ¬ definition.tokens.length + 2 + index = definition.tokens.length := by
        omega
      have offset : definition.tokens.length + 2 + index -
          definition.tokens.length - 2 = index := by
        omega
      simp only [ofNumber?, TopLevelItem.number, notToken, notEnd, offset, bound,
        Nat.le_add_right, and_self, if_true, if_false]

theorem isIn_of_ofNumber? {definition : Definition} {number : Nat}
    {item : TopLevelItem} (stands : ofNumber? definition number = some item) :
    item.IsIn definition ∧ item.number definition = number := by
  simp only [ofNumber?] at stands
  split at stands
  next isToken =>
    cases stands
    exact ⟨isToken, rfl⟩
  next notToken =>
    split at stands
    next isEnd =>
      cases stands
      exact ⟨trivial, isEnd.symm⟩
    next notEnd =>
      split at stands
      next isComment =>
        cases stands
        refine ⟨isComment.2, ?_⟩
        simp only [TopLevelItem.number]
        omega
      next beyond => cases stands

theorem ofNumber?_eq_some_iff {definition : Definition} {number : Nat}
    {item : TopLevelItem} :
    ofNumber? definition number = some item ↔
      item.IsIn definition ∧ item.number definition = number := by
  constructor
  · exact isIn_of_ofNumber?
  · intro isItem
    rw [← isItem.2]
    exact ofNumber?_number isItem.1

theorem ofNumber?_reserved (definition : Definition) :
    ofNumber? definition (definition.tokens.length + 1) = none := by
  simp [ofNumber?]

theorem ofNumber?_beyond (definition : Definition) (index : Nat) :
    ofNumber? definition
      (definition.tokens.length + 2 + definition.comments.length + index) =
        none := by
  simp only [ofNumber?]
  grind

end TopLevelItem

section Numbered

variable {α β : Type}

theorem find?_numbered (number : Nat → Nat) (content : α → β)
    (property : β → Bool) (entries : List α) :
    ((entries.mapIdx fun index entry => (number index, content entry)).find?
        fun pair => property pair.2).map Prod.fst =
      (entries.findIdx? fun entry => property (content entry)).map number := by
  induction entries generalizing number with
  | nil => rfl
  | cons entry entries induction =>
      rw [List.mapIdx_cons, List.find?_cons, List.findIdx?_cons]
      cases holds : property (content entry) with
      | true => simp
      | false =>
          simp only [Bool.false_eq_true, if_false, Option.map_map]
          exact induction fun index => number (index + 1)

theorem numbered_ascending {number : Nat → Nat} (content : α → β)
    (monotone : ∀ {earlier later}, earlier ≤ later → number earlier ≤ number later)
    (entries : List α) :
    (entries.mapIdx fun index entry => (number index, content entry)).Pairwise
      fun earlier later => earlier.1 ≤ later.1 := by
  rw [List.pairwise_iff_getElem]
  intro earlier later _ _ before
  simp only [List.getElem_mapIdx]
  exact monotone (Nat.le_of_lt before)

end Numbered

namespace Definition

theorem topLevelItems_ascending (definition : Definition) :
    definition.topLevelItems.Pairwise
      fun earlier later => earlier.1 ≤ later.1 := by
  have tokensBelow : ∀ entry ∈ definition.tokens.mapIdx fun index token =>
      (TopLevelItem.number definition (.token index), token.pattern),
      entry.1 ≤ definition.tokens.length := by
    intro entry member
    obtain ⟨index, bound, isEntry⟩ := List.mem_mapIdx.mp member
    rw [← isEntry]
    exact Nat.le_of_lt bound
  have commentsAbove : ∀ entry ∈ definition.comments.mapIdx fun index comment =>
      (TopLevelItem.number definition (.comment index), comment.opening),
      definition.tokens.length ≤ entry.1 := by
    intro entry member
    obtain ⟨index, _, isEntry⟩ := List.mem_mapIdx.mp member
    rw [← isEntry]
    simp only [TopLevelItem.number]
    omega
  rw [topLevelItems, List.append_assoc, List.singleton_append]
  apply List.pairwise_append.mpr
  refine ⟨numbered_ascending _ (fun less => less) _, ?_, ?_⟩
  · apply List.pairwise_cons.mpr
    refine ⟨commentsAbove, numbered_ascending _ (fun less => ?_) _⟩
    simp only [TopLevelItem.number]
    omega
  · intro token isToken later isLater
    have below := tokensBelow token isToken
    cases List.mem_cons.mp isLater with
    | inl isEnd =>
        rw [isEnd]
        exact below
    | inr isComment => exact Nat.le_trans below (commentsAbove later isComment)

/-- The first item of the top level that accepts a word on its own is what the
word is. -/
theorem find?_topLevelItems (definition : Definition) (word : List Int) :
    (definition.topLevelItems.find?
        fun entry => entry.2.acceptsAlone word).map Prod.fst =
      (definition.classify word).map (TopLevelItem.number definition) := by
  have tokens := find?_numbered
    (fun index => TopLevelItem.number definition (.token index)) Token.pattern
    (fun pattern => pattern.acceptsAlone word) definition.tokens
  have comments := find?_numbered
    (fun index => TopLevelItem.number definition (.comment index))
    Comment.opening (fun opening => opening.acceptsAlone word)
    definition.comments
  rw [topLevelItems, List.find?_append, List.find?_append, Option.map_or,
    Option.map_or, tokens, comments, classify]
  cases definition.tokens.findIdx? fun token =>
      token.pattern.acceptsAlone word with
  | some index => rfl
  | none =>
      rw [List.find?_singleton, Regex.acceptsAlone_endOfStream]
      by_cases isEnd : word = [Code.endOfStream]
      · simp [isEnd]
      · simp [isEnd, Function.comp_def]

theorem topLevel_accept? (definition : Definition) :
    ∃ topLevel, definition.topLevel = .ok topLevel ∧
      ∀ word, topLevel.accept? word =
        .ok ((definition.classify word).map (TopLevelItem.number definition)) := by
  obtain ⟨topLevel, isRecognizer, accepts⟩ :=
    recognizer_accepts_first definition.topLevelItems_ascending
  refine ⟨topLevel, isRecognizer, ?_⟩
  intro word
  rw [accepts word, find?_topLevelItems]

theorem isIn_of_classify {definition : Definition} {word : List Int}
    {item : TopLevelItem} (isItem : definition.classify word = some item) :
    item.IsIn definition := by
  rw [classify] at isItem
  cases isToken : definition.tokens.findIdx? fun token =>
      token.pattern.acceptsAlone word with
  | some index =>
      simp only [isToken, Option.some.injEq] at isItem
      rw [← isItem]
      exact (List.findIdx?_eq_some_iff_getElem.mp isToken).1
  | none =>
      simp only [isToken] at isItem
      split at isItem
      next isEnd =>
        cases isItem
        trivial
      next notEnd =>
        obtain ⟨index, isComment, same⟩ := Option.map_eq_some_iff.mp isItem
        rw [← same]
        exact (List.findIdx?_eq_some_iff_getElem.mp isComment).1

/-- The recogniser of the top level accepts a word as the first token whose own
recogniser does, else as the end of the stream, else as the first comment whose
opening mark's own recogniser does.  What it accepts a word as reads back as this
item, and the numbers that stand for an item are those of the items of the
definition. -/
theorem topLevel_classifies (definition : Definition) :
    (∀ regex, ∃ own, recognizer [((0 : Nat), regex)] = .ok own ∧
      ∀ word, own.accept? word =
        .ok (if regex.acceptsAlone word then some 0 else none)) ∧
    (∃ topLevel, definition.topLevel = .ok topLevel ∧
      ∀ word, ∃ answer, topLevel.accept? word = .ok answer ∧
        answer = (definition.classify word).map (TopLevelItem.number definition) ∧
        answer.map (TopLevelItem.ofNumber? definition) =
          (definition.classify word).map some ∧
        ∀ item ∈ definition.classify word, item.IsIn definition) ∧
    (∀ number item, TopLevelItem.ofNumber? definition number = some item ↔
      item.IsIn definition ∧ item.number definition = number) ∧
    TopLevelItem.ofNumber? definition (definition.tokens.length + 1) = none ∧
    ∀ index, TopLevelItem.ofNumber? definition
      (definition.tokens.length + 2 + definition.comments.length + index) =
        none := by
  refine ⟨recognizer_alone, ?_,
    fun number item => TopLevelItem.ofNumber?_eq_some_iff,
    TopLevelItem.ofNumber?_reserved definition,
    TopLevelItem.ofNumber?_beyond definition⟩
  obtain ⟨topLevel, isTopLevel, accepts⟩ := definition.topLevel_accept?
  refine ⟨topLevel, isTopLevel, ?_⟩
  intro word
  refine ⟨_, accepts word, rfl, ?_, fun item => isIn_of_classify⟩
  cases isItem : definition.classify word with
  | none => rfl
  | some item =>
      have readsBack := TopLevelItem.ofNumber?_number (isIn_of_classify isItem)
      simp only [Option.map_some, readsBack]

end Definition

end LexGen
