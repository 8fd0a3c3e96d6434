/-!
# Passages and networks

A passage says which words lead from one place to another, and a chain takes
passages one after the other.  Two graphs that meet only at common ports can be
crossed from port to port by crossing either of them at a time, which is what
`Chain.glue` says.
-/

namespace LexGen

/-- Which words lead from one place to another. -/
abbrev Passage (α : Type) : Type := α → List Int → α → Prop

/-- Passages taken one after the other, reading their words in this order. -/
inductive Chain {α : Type} (passage : Passage α) : α → List Int → α → Prop where
  | nil (place : α) : Chain passage place [] place
  | cons {first middle last : α} {word later : List Int} :
      passage first word middle → Chain passage middle later last →
      Chain passage first (word ++ later) last

namespace Passage

variable {α β : Type}

def or (left right : Passage α) : Passage α := fun first word last =>
  left first word last ∨ right first word last

def Between (passage : Passage α) (port : α → Prop) : Passage α :=
  fun first word last => port first ∧ port last ∧ Chain passage first word last

def Image (passage : Passage α) (place : α → β) : Passage β :=
  fun first word last => ∃ source target,
    first = place source ∧ last = place target ∧ passage source word target

theorem image_id (passage : Passage α) : passage.Image id = passage := by
  funext first word last
  apply propext
  constructor
  · rintro ⟨source, target, rfl, rfl, step⟩
    exact step
  · intro step
    exact ⟨first, last, rfl, rfl, step⟩

/-- The passage never leaves the region, nor enters it. -/
def IsConfined (passage : Passage α) (region : α → Prop) : Prop :=
  ∀ first word last, passage first word last → region first ∧ region last

/-- Staying in place reads nothing, and chains add nothing to the passage. -/
structure IsClosed (passage : Passage α) : Prop where
  nil : ∀ place, passage place [] place
  append : ∀ {first middle last : α} {word later : List Int},
    passage first word middle → passage middle later last →
      passage first (word ++ later) last

end Passage

namespace Chain

variable {α β : Type} {passage other : Passage α}

theorem single {first last : α} {word : List Int}
    (step : passage first word last) : Chain passage first word last := by
  rw [← List.append_nil word]
  exact .cons step (.nil last)

theorem append {first middle last : α} {word later : List Int}
    (before : Chain passage first word middle)
    (after : Chain passage middle later last) :
    Chain passage first (word ++ later) last := by
  induction before with
  | nil place => exact after
  | cons step _ induction =>
      rw [List.append_assoc]
      exact .cons step (induction after)

theorem isClosed (passage : Passage α) : Passage.IsClosed (Chain passage) :=
  ⟨.nil, append⟩

theorem flatten (steps : ∀ first word last, passage first word last →
      Chain other first word last)
    {first last : α} {word : List Int} (path : Chain passage first word last) :
    Chain other first word last := by
  induction path with
  | nil place => exact .nil place
  | cons step _ induction => exact (steps _ _ _ step).append induction

theorem mono (steps : ∀ first word last, passage first word last →
      other first word last)
    {first last : α} {word : List Int} (path : Chain passage first word last) :
    Chain other first word last :=
  path.flatten fun first word last step => single (steps first word last step)

theorem image {steps : Passage β} {place : α → β}
    (carries : ∀ first word last, passage first word last →
      Chain steps (place first) word (place last))
    {first last : α} {word : List Int} (path : Chain passage first word last) :
    Chain steps (place first) word (place last) := by
  induction path with
  | nil first => exact .nil (place first)
  | cons step _ induction => exact (carries _ _ _ step).append induction

/-- When places that are taken to one place lead to each other for free, chains
between the images are images of chains. -/
theorem of_image {place : α → β}
    (together : ∀ first last, place first = place last →
      Chain passage first [] last)
    {first last : α} {word : List Int}
    (path : Chain (passage.Image place) (place first) word (place last)) :
    Chain passage first word last := by
  generalize isFirst : place first = start at path
  generalize isLast : place last = finish at path
  induction path generalizing first with
  | nil start =>
      exact together first last (isFirst.trans isLast.symm)
  | cons step _ induction =>
      obtain ⟨source, target, isSource, isTarget, taken⟩ := step
      have atSource := together first source (isFirst.trans isSource)
      exact atSource.append ((single taken).append
        (induction isTarget.symm isLast))

/-- What every passage carries from its first place to its last one, chains
carry as well. -/
theorem forward {first last : α} {before word : List Int}
    (path : Chain passage first word last) (reached : α → List Int → Prop)
    (steps : ∀ first before word last, passage first word last →
      reached first before → reached last (before ++ word))
    (isReached : reached first before) : reached last (before ++ word) := by
  induction path generalizing before with
  | nil place =>
      rw [List.append_nil]
      exact isReached
  | cons step _ induction =>
      rw [← List.append_assoc]
      exact induction (steps _ _ _ _ step isReached)

theorem backward {first last : α} {word after : List Int}
    (path : Chain passage first word last) (ending : α → List Int → Prop)
    (steps : ∀ first word last after, passage first word last →
      ending last after → ending first (word ++ after))
    (isEnding : ending last after) : ending first (word ++ after) := by
  induction path with
  | nil place => exact isEnding
  | cons step _ induction =>
      rw [List.append_assoc]
      exact steps _ _ _ _ step (induction isEnding)

/-- Where passages read nothing and do not leave a region, chains that begin
there do neither. -/
theorem silent_from {first last : α} {word : List Int}
    (path : Chain passage first word last) (region : α → Prop)
    (steps : ∀ first word last, passage first word last → region first →
      word = [] ∧ region last)
    (inRegion : region first) : word = [] ∧ region last := by
  refine path.forward (fun place before => before = [] ∧ region place) ?_
    ⟨rfl, inRegion⟩
  intro first before word last step isReached
  obtain ⟨isEmpty, inRegion⟩ := steps first word last step isReached.2
  rw [isReached.1, isEmpty]
  exact ⟨rfl, inRegion⟩

theorem silent_to {first last : α} {word : List Int}
    (path : Chain passage first word last) (region : α → Prop)
    (steps : ∀ first word last, passage first word last → region last →
      word = [] ∧ region first)
    (inRegion : region last) : word = [] ∧ region first := by
  have ending : word ++ [] = [] ∧ region first := by
    refine path.backward (fun place after => after = [] ∧ region place) ?_
      ⟨rfl, inRegion⟩
    intro first word last after step isEnding
    obtain ⟨isEmpty, inRegion⟩ := steps first word last step isEnding.2
    rw [isEnding.1, isEmpty]
    exact ⟨rfl, inRegion⟩
  rw [List.append_nil] at ending
  exact ending

theorem word_eq_nil
    (silent : ∀ first word last, passage first word last → word = [])
    {first last : α} {word : List Int} (path : Chain passage first word last) :
    word = [] := by
  refine (path.silent_from (fun _ => True) ?_ trivial).1
  intro first word last step _
  exact ⟨silent first word last step, trivial⟩

/-- Chains that read nothing do not leave a region that single passages which
read nothing do not leave. -/
theorem mem_region_of_nil {first last : α} (path : Chain passage first [] last)
    (region : α → Prop)
    (steps : ∀ first last, passage first [] last → region first → region last)
    (inRegion : region first) : region last := by
  have reached : [] ++ ([] : List Int) = [] → region last := by
    apply path.forward (fun place before => before = [] → region place)
    · intro first before word last step isReached isEmpty
      obtain ⟨beforeEmpty, wordEmpty⟩ := List.append_eq_nil_iff.mp isEmpty
      subst wordEmpty
      exact steps first last step (isReached beforeEmpty)
    · intro _
      exact inRegion
  exact reached rfl

theorem mem_region {region : α → Prop} (confined : passage.IsConfined region)
    {first last : α} {word : List Int} (path : Chain passage first word last)
    (inRegion : region last) : region first := by
  cases path with
  | nil => exact inRegion
  | cons step _ => exact (confined _ _ _ step).1

theorem last_mem_region {region : α → Prop}
    (confined : passage.IsConfined region) {first last : α} {word : List Int}
    (path : Chain passage first word last) (inRegion : region first) :
    region last := by
  induction path with
  | nil => exact inRegion
  | cons step _ induction => exact induction (confined _ _ _ step).2

/-- Where no passage leads to a place on both sides, chains stay on one side. -/
theorem one_side {left right : Passage α} {leftRegion rightRegion : α → Prop}
    (leftConfined : left.IsConfined leftRegion)
    (rightConfined : right.IsConfined rightRegion)
    (noReturn : ∀ first word last, left.or right first word last →
      ¬ (leftRegion last ∧ rightRegion last))
    {first last : α} {word : List Int}
    (path : Chain (left.or right) first word last) :
    Chain left first word last ∨ Chain right first word last := by
  induction path with
  | nil place => exact .inl (.nil place)
  | cons step _ induction =>
      have noBoth := noReturn _ _ _ step
      cases step with
      | inl onLeft =>
          have inLeft := (leftConfined _ _ _ onLeft).2
          cases induction with
          | inl path => exact .inl (.cons onLeft path)
          | inr path =>
              cases path with
              | nil => exact .inl (.cons onLeft (.nil _))
              | cons next _ =>
                  have inRight := (rightConfined _ _ _ next).1
                  exact absurd ⟨inLeft, inRight⟩ noBoth
      | inr onRight =>
          have inRight := (rightConfined _ _ _ onRight).2
          cases induction with
          | inl path =>
              cases path with
              | nil => exact .inr (.cons onRight (.nil _))
              | cons next _ =>
                  have inLeft := (leftConfined _ _ _ next).1
                  exact absurd ⟨inLeft, inRight⟩ noBoth
          | inr path => exact .inr (.cons onRight path)

section Glue

variable {left right : Passage α} {leftRegion rightRegion : α → Prop}
  {leftPort rightPort : α → Prop}

/-- The regions hold their ports and meet only at common ones. -/
structure MeetAtPorts (leftRegion rightRegion leftPort rightPort : α → Prop) :
    Prop where
  left_region : ∀ place, leftPort place → leftRegion place
  right_region : ∀ place, rightPort place → rightRegion place
  left_port : ∀ place, leftRegion place → rightRegion place → leftPort place
  right_port : ∀ place, leftRegion place → rightRegion place → rightPort place

theorem MeetAtPorts.symm
    (meet : MeetAtPorts leftRegion rightRegion leftPort rightPort) :
    MeetAtPorts rightRegion leftRegion rightPort leftPort :=
  ⟨meet.right_region, meet.left_region,
    fun place inRight inLeft => meet.right_port place inLeft inRight,
    fun place inRight inLeft => meet.left_port place inLeft inRight⟩

/-- A way to the last place that first crosses one side up to a port of it. -/
def Leaves (side : Passage α) (port : α → Prop) (rest : Passage α)
    (first : α) (word : List Int) (last : α) : Prop :=
  ∃ before after middle, word = before ++ after ∧ port middle ∧
    Chain side first before middle ∧ Chain rest middle after last

/-- One more step on a side goes before the crossing of that side, or crosses
over at the port it leads to. -/
theorem Leaves.cons {side across : Passage α}
    {sideRegion acrossRegion sidePort acrossPort : α → Prop} {rest : Passage α}
    (confined : side.IsConfined sideRegion)
    (acrossConfined : across.IsConfined acrossRegion)
    (meet : MeetAtPorts sideRegion acrossRegion sidePort acrossPort)
    (crosses : ∀ first word last,
      across.Between acrossPort first word last → rest first word last)
    {first middle last : α} {word later : List Int}
    (step : side first word middle)
    (further : Leaves side sidePort rest middle later last ∨
      Leaves across acrossPort rest middle later last) :
    Leaves side sidePort rest first (word ++ later) last := by
  rcases further with ⟨before, after, port, rfl, isPort, crossing, ending⟩ |
    ⟨before, after, port, rfl, isPort, crossing, ending⟩
  · refine ⟨word ++ before, after, port, ?_, isPort, .cons step crossing, ending⟩
    rw [List.append_assoc]
  · have inSide := (confined _ _ _ step).2
    have inAcross :=
      crossing.mem_region acrossConfined (meet.right_region port isPort)
    have isAcrossPort := meet.right_port middle inSide inAcross
    exact ⟨word, before ++ after, middle, rfl,
      meet.left_port middle inSide inAcross, single step,
      .cons (crosses _ _ _ ⟨isAcrossPort, isPort, crossing⟩) ending⟩

/-- Two graphs that meet only at common ports are crossed from port to port by
crossing one of them at a time. -/
theorem glue (leftConfined : left.IsConfined leftRegion)
    (rightConfined : right.IsConfined rightRegion)
    (meet : MeetAtPorts leftRegion rightRegion leftPort rightPort)
    {first last : α} {word : List Int}
    (firstPort : leftPort first ∨ rightPort first)
    (lastPort : leftPort last ∨ rightPort last)
    (path : Chain (left.or right) first word last) :
    Chain ((left.Between leftPort).or (right.Between rightPort))
      first word last := by
  let glued : Passage α := (left.Between leftPort).or (right.Between rightPort)
  have leaves : Leaves left leftPort glued first word last ∨
      Leaves right rightPort glued first word last := by
    clear firstPort
    induction path with
    | nil place =>
        rcases lastPort with isPort | isPort
        · exact .inl ⟨[], [], place, rfl, isPort, .nil place, .nil place⟩
        · exact .inr ⟨[], [], place, rfl, isPort, .nil place, .nil place⟩
    | cons step _ induction =>
        have further := induction lastPort
        rcases step with onLeft | onRight
        · left
          exact .cons leftConfined rightConfined meet
            (fun _ _ _ => .inr) onLeft further
        · right
          exact .cons rightConfined leftConfined meet.symm
            (fun _ _ _ => .inl) onRight further.symm
  rcases leaves with
    ⟨before, after, port, rfl, isPort, crossing, ending⟩ |
    ⟨before, after, port, rfl, isPort, crossing, ending⟩
  · have inLeft :=
      crossing.mem_region leftConfined (meet.left_region port isPort)
    have isFirst : leftPort first := firstPort.elim id fun isRight =>
      meet.left_port first inLeft (meet.right_region first isRight)
    exact .cons (.inl ⟨isFirst, isPort, crossing⟩) ending
  · have inRight :=
      crossing.mem_region rightConfined (meet.right_region port isPort)
    have isFirst : rightPort first := firstPort.elim (fun isLeft =>
      meet.right_port first (meet.left_region first isLeft) inRight) id
    exact .cons (.inr ⟨isFirst, isPort, crossing⟩) ending

end Glue

end Chain

end LexGen
