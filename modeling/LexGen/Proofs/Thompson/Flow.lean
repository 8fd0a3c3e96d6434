import LexGen.CodeSet.Lemmas
import LexGen.Proofs.Thompson.Network
import LexGen.Regex.Basic

/-!
# How words flow through expressions

An expression is seen as a device with an entry and an exit that words flow
between, in either direction.  Devices are put together as circuits are: in
series, sharing the terminal between them, and in parallel, sharing both
terminals.  A word may pass shared terminals any number of times, so that a
device flows more than the language of its expression where repetitions meet at
a terminal.
-/

namespace LexGen

inductive Terminal where
  | entry
  | exit
deriving DecidableEq

/-- The three ends of two devices in series. -/
inductive Joint where
  | entry
  | middle
  | exit
deriving DecidableEq

namespace Joint

def first : Terminal → Joint
  | .entry => .entry
  | .exit => .middle

def second : Terminal → Joint
  | .entry => .middle
  | .exit => .exit

def outer : Terminal → Joint
  | .entry => .entry
  | .exit => .exit

end Joint

/-- The words that a transition with the label reads. -/
def CodeSet.Passes (label : CodeSet) (word : List Int) : Prop :=
  label.isEmpty = true ∧ word = [] ∨ ∃ code ∈ label, word = [code]

theorem CodeSet.passes_empty_iff {word : List Int} :
    (∅ : CodeSet).Passes word ↔ word = [] := by
  constructor
  · rintro (⟨_, isEmpty⟩ | ⟨code, member, _⟩)
    · exact isEmpty
    · exact absurd member CodeSet.not_mem_empty
  · intro isEmpty
    exact .inl ⟨CodeSet.isEmpty_iff.mpr rfl, isEmpty⟩

theorem CodeSet.exists_passes (label : CodeSet) : ∃ word, label.Passes word := by
  by_cases isEmpty : label.isEmpty = true
  · exact ⟨[], .inl ⟨isEmpty, rfl⟩⟩
  · by_cases hasMember : ∃ code, code ∈ label
    · obtain ⟨code, member⟩ := hasMember
      exact ⟨[code], .inr ⟨code, member, rfl⟩⟩
    · have noMembers : label = ∅ := by
        apply CodeSet.ext
        intro code
        constructor
        · intro member
          exact absurd ⟨code, member⟩ hasMember
        · intro member
          exact absurd member CodeSet.not_mem_empty
      exact absurd (CodeSet.isEmpty_iff.mpr noMembers) isEmpty

namespace Flow

/-- One transition from the entry to the exit. -/
def wire (label : CodeSet) : Passage Terminal :=
  Chain fun source word target =>
    source = .entry ∧ target = .exit ∧ label.Passes word

/-- The entry and the exit are one. -/
def joined : Passage Terminal := fun _ word _ => word = []

/-- Nothing leads from one terminal to the other. -/
def apart : Passage Terminal := fun source word target =>
  source = target ∧ word = []

/-- Two devices that share both terminals. -/
def parallel (left right : Passage Terminal) : Passage Terminal :=
  Chain (left.or right)

def joints (first second : Passage Terminal) : Passage Joint :=
  (first.Image Joint.first).or (second.Image Joint.second)

/-- Two devices one after the other, the exit of the first being the entry of
the second. -/
def series (first second : Passage Terminal) : Passage Terminal :=
  fun source word target =>
    Chain (joints first second) (Joint.outer source) word (Joint.outer target)

theorem wire_empty_word {source target : Terminal} {word : List Int}
    (flows : wire ∅ source word target) : word = [] := by
  apply Chain.word_eq_nil _ flows
  rintro _ word _ ⟨_, _, passes⟩
  exact CodeSet.passes_empty_iff.mp passes

/-- Where words pass a device for free both ways, joining its terminals adds no
more than a free wire does. -/
theorem parallel_joined_eq {flow : Passage Terminal}
    (joins : ∀ source target, flow source [] target) :
    parallel flow joined = parallel flow (wire ∅) := by
  funext source word target
  apply propext
  constructor
  · intro path
    apply path.mono
    intro first word last step
    cases step with
    | inl flows => exact .inl flows
    | inr isEmpty =>
        rw [show word = [] from isEmpty]
        exact .inl (joins first last)
  · intro path
    apply path.mono
    intro first word last step
    cases step with
    | inl flows => exact .inl flows
    | inr flows => exact .inr (wire_empty_word flows)

end Flow

namespace Regex

def flowsCodes : List Int → Passage Terminal
  | [] => Flow.joined
  | code :: codes =>
      Flow.series (Flow.wire (.singleton code)) (flowsCodes codes)

mutual

/-- The words that lead from one terminal of an expression to another one. -/
def Flows : Regex → Passage Terminal
  | .oneOf set => Flow.wire set
  | .literal text => flowsCodes (Code.ofText text)
  | .many inner => Flow.parallel (Flows inner) Flow.joined
  | .optional inner => Flow.parallel (Flows inner) (Flow.wire ∅)
  | .sequence items => FlowsSequence items
  | .alternative items =>
      match items with
      | [] => Flow.joined
      | [only] => Flows only
      | first :: second :: later => FlowsBranches (first :: second :: later)

def FlowsSequence : List Regex → Passage Terminal
  | [] => Flow.joined
  | item :: items => Flow.series (Flows item) (FlowsSequence items)

/-- Branches are in parallel, each behind a free transition of its own. -/
def FlowsBranches : List Regex → Passage Terminal
  | [] => Flow.apart
  | item :: items =>
      Flow.parallel (Flow.series (Flow.wire ∅) (Flows item))
        (FlowsBranches items)

end

end Regex

end LexGen
