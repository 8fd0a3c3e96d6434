import LexGen.Proofs.Thompson.Flow

/-!
# Devices that words cannot flow back through

A device is silent if it reads nothing, and quiet at a terminal if words that
come from its exit, or return to its entry, read nothing on their way.  Where
one of two devices in series is quiet at the terminal between them, words cross
the two one after the other, and where two devices in parallel let nothing back,
words cross one of them.
-/

namespace LexGen.Flow

/-- Nothing that flows through the device reads a code. -/
def IsSilent (flow : Passage Terminal) : Prop :=
  ∀ source word target, flow source word target → word = []

/-- What comes from the exit reads nothing and stays there, except that it may
go through the device if `through` holds. -/
def IsQuietAtExit (flow : Passage Terminal) (through : Prop) : Prop :=
  ∀ word target, flow .exit word target →
    word = [] ∧ (target = .exit ∨ through)

/-- What returns to the entry reads nothing and was there before, except that it
may come through the device if `through` holds. -/
def IsQuietAtEntry (flow : Passage Terminal) (through : Prop) : Prop :=
  ∀ source word, flow source word .entry →
    word = [] ∧ (source = .entry ∨ through)

theorem IsQuietAtExit.mono {flow : Passage Terminal} {through more : Prop}
    (quiet : IsQuietAtExit flow through) (weaker : through → more) :
    IsQuietAtExit flow more := by
  intro word target flows
  exact (quiet word target flows).imp_right (Or.imp_right weaker)

theorem IsQuietAtEntry.mono {flow : Passage Terminal} {through more : Prop}
    (quiet : IsQuietAtEntry flow through) (weaker : through → more) :
    IsQuietAtEntry flow more := by
  intro source word flows
  exact (quiet source word flows).imp_right (Or.imp_right weaker)

/-- Words only cross the device from its entry to its exit. -/
structure IsOneWay (flow : Passage Terminal) : Prop where
  at_exit : IsQuietAtExit flow False
  at_entry : IsQuietAtEntry flow False

theorem IsOneWay.of_exit {flow : Passage Terminal} (oneWay : IsOneWay flow)
    {word : List Int} {target : Terminal} (flows : flow .exit word target) :
    word = [] ∧ target = .exit :=
  (oneWay.at_exit word target flows).imp_right (Or.resolve_right · id)

theorem IsOneWay.of_entry {flow : Passage Terminal} (oneWay : IsOneWay flow)
    {source : Terminal} {word : List Int} (flows : flow source word .entry) :
    word = [] ∧ source = .entry :=
  (oneWay.at_entry source word flows).imp_right (Or.resolve_right · id)

theorem apart_isOneWay : IsOneWay apart := by
  constructor
  · intro word target flows
    exact ⟨flows.2, .inl flows.1.symm⟩
  · intro source word flows
    exact ⟨flows.2, .inl flows.1⟩

theorem joined_isSilent : IsSilent joined :=
  fun _ _ _ isEmpty => isEmpty

theorem IsSilent.isQuietAtExit {flow : Passage Terminal} (silent : IsSilent flow)
    {through : Prop} (passes : through) : IsQuietAtExit flow through :=
  fun word target flows => ⟨silent .exit word target flows, .inr passes⟩

theorem IsSilent.isQuietAtEntry {flow : Passage Terminal}
    (silent : IsSilent flow) {through : Prop} (passes : through) :
    IsQuietAtEntry flow through :=
  fun source word flows => ⟨silent source word .entry flows, .inr passes⟩

section Wire

variable {label : CodeSet}

theorem wire_isOneWay (label : CodeSet) : IsOneWay (wire label) := by
  constructor
  · intro word target path
    refine (path.silent_from (fun terminal => terminal = .exit) ?_ rfl).imp_right
      .inl
    intro first word last step isExit
    cases step.1.symm.trans isExit
  · intro source word path
    refine (path.silent_to (fun terminal => terminal = .entry) ?_ rfl).imp_right
      .inl
    intro first word last step isEntry
    cases step.2.1.symm.trans isEntry

theorem wire_crossing_iff {word : List Int} :
    wire label .entry word .exit ↔ label.Passes word := by
  constructor
  · intro path
    cases path with
    | cons step rest =>
        obtain ⟨_, isExit, passes⟩ := step
        subst isExit
        have isEmpty := ((wire_isOneWay label).of_exit rest).1
        rw [isEmpty, List.append_nil]
        exact passes
  · intro passes
    exact .single ⟨rfl, rfl, passes⟩

theorem wire_empty_isSilent : IsSilent (wire ∅) :=
  fun _ _ _ => wire_empty_word

end Wire

section Series

variable {first second : Passage Terminal} {firstThrough secondThrough : Prop}

theorem series_isSilent (isFirst : IsSilent first) (isSecond : IsSilent second) :
    IsSilent (series first second) := by
  intro source word target path
  apply path.word_eq_nil
  intro here word there step
  rcases step with ⟨source, target, _, _, flows⟩ | ⟨source, target, _, _, flows⟩
  · exact isFirst source word target flows
  · exact isSecond source word target flows

/-- Two devices are quiet at the exit if the second one is, and the first one as
well if words come through the second one. -/
theorem series_isQuietAtExit
    (isFirst : secondThrough → IsQuietAtExit first firstThrough)
    (isSecond : IsQuietAtExit second secondThrough)
    (firstSilent : firstThrough → IsSilent first)
    (secondSilent : secondThrough → IsSilent second) :
    IsQuietAtExit (series first second) (firstThrough ∧ secondThrough) := by
  let region : Joint → Prop
    | .exit => True
    | .middle => secondThrough
    | .entry => firstThrough ∧ secondThrough
  have steps (here : Joint) (word : List Int) (there : Joint)
      (step : joints first second here word there) (inRegion : region here) :
      word = [] ∧ region there := by
    rcases step with ⟨source, target, rfl, rfl, flows⟩ |
      ⟨source, target, rfl, rfl, flows⟩
    · cases source with
      | entry =>
          refine ⟨firstSilent inRegion.1 _ _ _ flows, ?_⟩
          cases target with
          | entry => exact inRegion
          | exit => exact inRegion.2
      | exit =>
          obtain ⟨isEmpty, stays⟩ := isFirst inRegion word target flows
          refine ⟨isEmpty, ?_⟩
          cases target with
          | entry => exact ⟨stays.resolve_left nofun, inRegion⟩
          | exit => exact inRegion
    · cases source with
      | entry =>
          refine ⟨secondSilent inRegion _ _ _ flows, ?_⟩
          cases target with
          | entry => exact inRegion
          | exit => exact trivial
      | exit =>
          obtain ⟨isEmpty, stays⟩ := isSecond word target flows
          refine ⟨isEmpty, ?_⟩
          cases target with
          | entry => exact stays.resolve_left nofun
          | exit => exact trivial
  intro word target path
  obtain ⟨isEmpty, inRegion⟩ := path.silent_from region steps trivial
  refine ⟨isEmpty, ?_⟩
  cases target with
  | entry => exact .inr inRegion
  | exit => exact .inl rfl

theorem series_isQuietAtEntry
    (isFirst : IsQuietAtEntry first firstThrough)
    (isSecond : firstThrough → IsQuietAtEntry second secondThrough)
    (firstSilent : firstThrough → IsSilent first)
    (secondSilent : secondThrough → IsSilent second) :
    IsQuietAtEntry (series first second) (firstThrough ∧ secondThrough) := by
  let region : Joint → Prop
    | .entry => True
    | .middle => firstThrough
    | .exit => firstThrough ∧ secondThrough
  have steps (here : Joint) (word : List Int) (there : Joint)
      (step : joints first second here word there) (inRegion : region there) :
      word = [] ∧ region here := by
    rcases step with ⟨source, target, rfl, rfl, flows⟩ |
      ⟨source, target, rfl, rfl, flows⟩
    · cases target with
      | entry =>
          obtain ⟨isEmpty, stays⟩ := isFirst source word flows
          refine ⟨isEmpty, ?_⟩
          cases source with
          | entry => exact trivial
          | exit => exact stays.resolve_left nofun
      | exit =>
          refine ⟨firstSilent inRegion _ _ _ flows, ?_⟩
          cases source with
          | entry => exact trivial
          | exit => exact inRegion
    · cases target with
      | entry =>
          obtain ⟨isEmpty, stays⟩ := isSecond inRegion source word flows
          refine ⟨isEmpty, ?_⟩
          cases source with
          | entry => exact inRegion
          | exit => exact ⟨inRegion, stays.resolve_left nofun⟩
      | exit =>
          refine ⟨secondSilent inRegion.2 _ _ _ flows, ?_⟩
          cases source with
          | entry => exact inRegion.1
          | exit => exact inRegion
  intro source word path
  obtain ⟨isEmpty, inRegion⟩ := path.silent_to region steps trivial
  refine ⟨isEmpty, ?_⟩
  cases source with
  | entry => exact .inl rfl
  | exit => exact .inr inRegion

theorem series_crossing {word later : List Int}
    (firstCrossing : first .entry word .exit)
    (secondCrossing : second .entry later .exit) :
    series first second .entry (word ++ later) .exit := by
  have toMiddle : Chain (joints first second) .entry word .middle :=
    .single (.inl ⟨.entry, .exit, rfl, rfl, firstCrossing⟩)
  have toExit : Chain (joints first second) .middle later .exit :=
    .single (.inr ⟨.entry, .exit, rfl, rfl, secondCrossing⟩)
  exact toMiddle.append toExit

def Crossings (first second : Passage Terminal) (word : List Int) : Prop :=
  ∃ before after, word = before ++ after ∧
    first .entry before .exit ∧ second .entry after .exit

/-- Words do not turn back between the devices if the first one is quiet at its
exit. -/
theorem series_crossings_of_exit (firstClosed : first.IsClosed)
    (secondClosed : second.IsClosed) (quiet : IsQuietAtExit first firstThrough)
    (firstSilent : firstThrough → IsSilent first) {word : List Int}
    (path : series first second .entry word .exit) :
    Crossings first second word := by
  let ending : Joint → List Int → Prop
    | .entry, word => Crossings first second word
    | .middle, word => second .entry word .exit
    | .exit, word => second .exit word .exit
  have atSecond (terminal : Terminal) (word : List Int) :
      ending (Joint.second terminal) word = second terminal word .exit := by
    cases terminal <;> rfl
  have steps (here : Joint) (word : List Int) (there : Joint) (after : List Int)
      (step : joints first second here word there) (isEnding : ending there after) :
      ending here (word ++ after) := by
    rcases step with ⟨source, target, rfl, rfl, flows⟩ |
      ⟨source, target, rfl, rfl, flows⟩
    · cases source with
      | entry =>
          cases target with
          | entry =>
              obtain ⟨middle, last, rfl, crossing, later⟩ := isEnding
              exact ⟨word ++ middle, last, (List.append_assoc ..).symm,
                firstClosed.append flows crossing, later⟩
          | exit => exact ⟨word, after, rfl, flows, isEnding⟩
      | exit =>
          obtain ⟨rfl, stays⟩ := quiet word target flows
          cases target with
          | entry =>
              obtain ⟨middle, last, rfl, crossing, later⟩ := isEnding
              have silent := firstSilent (stays.resolve_left nofun)
              rw [silent .entry middle .exit crossing]
              exact later
          | exit => exact isEnding
    · rw [atSecond] at isEnding ⊢
      exact secondClosed.append flows isEnding
  have isEnding := path.backward ending steps (secondClosed.nil .exit)
  rw [List.append_nil] at isEnding
  exact isEnding

theorem series_crossings_of_entry (firstClosed : first.IsClosed)
    (secondClosed : second.IsClosed) (quiet : IsQuietAtEntry second secondThrough)
    (secondSilent : secondThrough → IsSilent second) {word : List Int}
    (path : series first second .entry word .exit) :
    Crossings first second word := by
  let reached : Joint → List Int → Prop
    | .entry, word => first .entry word .entry
    | .middle, word => first .entry word .exit
    | .exit, word => Crossings first second word
  have atFirst (terminal : Terminal) (word : List Int) :
      reached (Joint.first terminal) word = first .entry word terminal := by
    cases terminal <;> rfl
  have steps (here : Joint) (before word : List Int) (there : Joint)
      (step : joints first second here word there)
      (isReached : reached here before) : reached there (before ++ word) := by
    rcases step with ⟨source, target, rfl, rfl, flows⟩ |
      ⟨source, target, rfl, rfl, flows⟩
    · rw [atFirst] at isReached ⊢
      exact firstClosed.append isReached flows
    · cases target with
      | entry =>
          obtain ⟨rfl, stays⟩ := quiet source word flows
          rw [List.append_nil]
          cases source with
          | entry => exact isReached
          | exit =>
              obtain ⟨start, middle, rfl, earlier, crossing⟩ := isReached
              have silent := secondSilent (stays.resolve_left nofun)
              rw [silent .entry middle .exit crossing, List.append_nil]
              exact earlier
      | exit =>
          cases source with
          | entry => exact ⟨before, word, rfl, isReached, flows⟩
          | exit =>
              obtain ⟨start, middle, rfl, earlier, crossing⟩ := isReached
              exact ⟨start, middle ++ word, List.append_assoc .., earlier,
                secondClosed.append crossing flows⟩
  exact path.forward reached steps (firstClosed.nil .entry)

end Series

section BehindWire

variable {flow : Passage Terminal} {through : Prop}

theorem behindWire_isQuietAtEntry (flow : Passage Terminal) :
    IsQuietAtEntry (series (wire ∅) flow) False := by
  have noSecond : False → IsQuietAtEntry flow False := False.elim
  apply (series_isQuietAtEntry (wire_isOneWay ∅).at_entry noSecond False.elim
    False.elim).mono
  exact And.left

theorem behindWire_isOneWay (quiet : IsQuietAtExit flow through)
    (silent : through → IsSilent flow) :
    IsOneWay (series (wire ∅) flow) := by
  constructor
  · have isWire (_ : through) := (wire_isOneWay ∅).at_exit
    apply (series_isQuietAtExit isWire quiet False.elim silent).mono
    exact And.left
  · exact behindWire_isQuietAtEntry flow

theorem behindWire_crossing_iff (closed : flow.IsClosed) {word : List Int} :
    series (wire ∅) flow .entry word .exit ↔ flow .entry word .exit := by
  constructor
  · intro path
    obtain ⟨before, after, rfl, free, crossing⟩ :=
      series_crossings_of_exit (Chain.isClosed _) closed
        (wire_isOneWay ∅).at_exit False.elim path
    rw [wire_empty_word free]
    exact crossing
  · intro crossing
    have free : wire ∅ .entry [] .exit :=
      wire_crossing_iff.mpr (CodeSet.passes_empty_iff.mpr rfl)
    exact series_crossing free crossing

end BehindWire

section Parallel

variable {left right : Passage Terminal} {through : Prop}

theorem parallel_isSilent (isLeft : IsSilent left) (isRight : IsSilent right) :
    IsSilent (parallel left right) := by
  intro source word target path
  apply path.word_eq_nil
  intro here word there step
  cases step with
  | inl flows => exact isLeft here word there flows
  | inr flows => exact isRight here word there flows

theorem parallel_isQuietAtExit (isLeft : IsQuietAtExit left through)
    (isRight : IsQuietAtExit right through)
    (silent : through → IsSilent left ∧ IsSilent right) :
    IsQuietAtExit (parallel left right) through := by
  intro word target path
  refine path.silent_from (fun terminal => terminal = .exit ∨ through) ?_
    (.inl rfl)
  intro here word there step inRegion
  cases inRegion with
  | inl isExit =>
      subst isExit
      cases step with
      | inl flows => exact isLeft word there flows
      | inr flows => exact isRight word there flows
  | inr passes =>
      refine ⟨?_, .inr passes⟩
      cases step with
      | inl flows => exact (silent passes).1 here word there flows
      | inr flows => exact (silent passes).2 here word there flows

theorem parallel_isQuietAtEntry (isLeft : IsQuietAtEntry left through)
    (isRight : IsQuietAtEntry right through)
    (silent : through → IsSilent left ∧ IsSilent right) :
    IsQuietAtEntry (parallel left right) through := by
  intro source word path
  refine path.silent_to (fun terminal => terminal = .entry ∨ through) ?_
    (.inl rfl)
  intro here word there step inRegion
  cases inRegion with
  | inl isEntry =>
      subst isEntry
      cases step with
      | inl flows => exact isLeft here word flows
      | inr flows => exact isRight here word flows
  | inr passes =>
      refine ⟨?_, .inr passes⟩
      cases step with
      | inl flows => exact (silent passes).1 here word there flows
      | inr flows => exact (silent passes).2 here word there flows

theorem parallel_isOneWay (isLeft : IsOneWay left) (isRight : IsOneWay right) :
    IsOneWay (parallel left right) := by
  constructor
  · exact parallel_isQuietAtExit isLeft.at_exit isRight.at_exit
      False.elim
  · exact parallel_isQuietAtEntry isLeft.at_entry isRight.at_entry
      False.elim

theorem parallel_crossing_iff (isLeft : IsOneWay left)
    (isRight : IsOneWay right) {word : List Int} :
    parallel left right .entry word .exit ↔
      left .entry word .exit ∨ right .entry word .exit := by
  constructor
  · intro path
    let ending : Terminal → List Int → Prop
      | .entry, word => left .entry word .exit ∨ right .entry word .exit
      | .exit, word => word = []
    have steps (here : Terminal) (word : List Int) (there : Terminal)
        (after : List Int) (step : left.or right here word there)
        (isEnding : ending there after) : ending here (word ++ after) := by
      cases here with
      | entry =>
          cases there with
          | entry =>
              have isEmpty : word = [] := by
                cases step with
                | inl flows => exact (isLeft.of_entry flows).1
                | inr flows => exact (isRight.of_entry flows).1
              rw [isEmpty]
              exact isEnding
          | exit =>
              rw [show after = [] from isEnding, List.append_nil]
              exact step
      | exit =>
          have stays : word = [] ∧ there = .exit := by
            cases step with
            | inl flows => exact isLeft.of_exit flows
            | inr flows => exact isRight.of_exit flows
          obtain ⟨rfl, rfl⟩ := stays
          exact isEnding
    have isEnding := path.backward ending steps rfl
    rw [List.append_nil] at isEnding
    exact isEnding
  · intro crossing
    exact .single crossing

end Parallel

end LexGen.Flow
