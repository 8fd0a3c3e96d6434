import LexGen.Proofs.Thompson.Flow
import LexGen.Thompson.Lowering

/-!
# Fragments realize the flow of their expressions

The edges of a lowered expression are crossed between its entry and its exit by
exactly the words that flow between the terminals of the expression.  Fragments
touch each other at the terminals they share and nowhere else, so that what is
glued together flows as the circuit says.
-/

namespace LexGen

namespace Edge

/-- The passages that the edges make between their nodes. -/
def crosses (edges : List Edge) : Passage Nat := fun source word target =>
  ∃ edge ∈ edges, edge.source = source ∧ edge.transition.target = target ∧
    edge.transition.label.Passes word

theorem mem_region {edges : List Edge} {region : Nat → Prop}
    (confined : (crosses edges).IsConfined region) {edge : Edge}
    (member : edge ∈ edges) :
    region edge.source ∧ region edge.transition.target := by
  obtain ⟨word, passes⟩ := edge.transition.label.exists_passes
  exact confined _ word _ ⟨edge, member, rfl, rfl, passes⟩

theorem crosses_eq_or {edges left right : List Edge}
    (isUnion : ∀ edge, edge ∈ edges ↔ edge ∈ left ∨ edge ∈ right) :
    crosses edges = (crosses left).or (crosses right) := by
  funext source word target
  apply propext
  constructor
  · rintro ⟨edge, member, crossing⟩
    exact ((isUnion edge).mp member).imp
      (fun inLeft => ⟨edge, inLeft, crossing⟩)
      (fun inRight => ⟨edge, inRight, crossing⟩)
  · rintro (⟨edge, inLeft, crossing⟩ | ⟨edge, inRight, crossing⟩)
    · exact ⟨edge, (isUnion edge).mpr (.inl inLeft), crossing⟩
    · exact ⟨edge, (isUnion edge).mpr (.inr inRight), crossing⟩

/-- The edges lie in the region and are crossed between the two places as words
flow between the terminals. -/
structure Realizes (edges : List Edge) (place : Terminal → Nat)
    (region : Nat → Prop) (flow : Passage Terminal) : Prop where
  place_mem : ∀ terminal, region (place terminal)
  confined : (crosses edges).IsConfined region
  chain_iff : ∀ source word target,
    Chain (crosses edges) (place source) word (place target) ↔
      flow source word target

variable {edges left right : List Edge} {place : Terminal → Nat}
  {region leftRegion rightRegion : Nat → Prop}
  {flow leftFlow rightFlow : Passage Terminal}

theorem Realizes.isClosed (realizes : Realizes edges place region flow) :
    flow.IsClosed := by
  constructor
  · intro terminal
    exact (realizes.chain_iff terminal [] terminal).mp (.nil _)
  · intro first middle last word later before after
    apply (realizes.chain_iff first (word ++ later) last).mp
    exact ((realizes.chain_iff first word middle).mpr before).append
      ((realizes.chain_iff middle later last).mpr after)

theorem Realizes.flow_nil (realizes : Realizes edges place region flow)
    {source target : Terminal} (same : place source = place target) :
    flow source [] target := by
  apply (realizes.chain_iff source [] target).mp
  rw [same]
  exact .nil _

theorem Realizes.mono (realizes : Realizes edges place region flow)
    {larger : Nat → Prop} (subset : ∀ node, region node → larger node) :
    Realizes edges place larger flow := by
  refine ⟨?_, ?_, realizes.chain_iff⟩
  · intro terminal
    exact subset _ (realizes.place_mem terminal)
  · intro first word last crossing
    have inRegion := realizes.confined first word last crossing
    exact ⟨subset _ inRegion.1, subset _ inRegion.2⟩

theorem confined_or (leftConfined : (crosses left).IsConfined leftRegion)
    (rightConfined : (crosses right).IsConfined rightRegion)
    (isUnion : ∀ edge, edge ∈ edges ↔ edge ∈ left ∨ edge ∈ right) :
    (crosses edges).IsConfined fun node => leftRegion node ∨ rightRegion node := by
  rw [crosses_eq_or isUnion]
  intro first word last crossing
  rcases crossing with onLeft | onRight
  · have inRegion := leftConfined first word last onLeft
    exact ⟨.inl inRegion.1, .inl inRegion.2⟩
  · have inRegion := rightConfined first word last onRight
    exact ⟨.inr inRegion.1, .inr inRegion.2⟩

section Glue

variable {κ : Type} {joint : κ → Nat} {leftEnd rightEnd : Terminal → κ}

/-- The edges consist of the edges of two devices that are connected at joints
and meet only at those they share. -/
structure Glues (edges left right : List Edge) (joint : κ → Nat)
    (leftEnd rightEnd : Terminal → κ) (leftRegion rightRegion : Nat → Prop)
    (leftFlow rightFlow : Passage Terminal) : Prop where
  isLeft : Realizes left (joint ∘ leftEnd) leftRegion leftFlow
  isRight : Realizes right (joint ∘ rightEnd) rightRegion rightFlow
  isUnion : ∀ edge, edge ∈ edges ↔ edge ∈ left ∨ edge ∈ right
  covered : ∀ place, (∃ terminal, leftEnd terminal = place) ∨
    ∃ terminal, rightEnd terminal = place
  meet : ∀ node, leftRegion node → rightRegion node →
    ∃ source target, leftEnd source = rightEnd target ∧
      joint (leftEnd source) = node

/-- Joints that stand for one node lead to each other for free. -/
theorem Glues.together
    (glues : Glues edges left right joint leftEnd rightEnd leftRegion
      rightRegion leftFlow rightFlow)
    (first last : κ) (same : joint first = joint last) :
    Chain ((leftFlow.Image leftEnd).or (rightFlow.Image rightEnd))
      first [] last := by
  have onLeft {source target : Terminal}
      (same : joint (leftEnd source) = joint (leftEnd target)) :
      Chain ((leftFlow.Image leftEnd).or (rightFlow.Image rightEnd))
        (leftEnd source) [] (leftEnd target) :=
    .single (.inl ⟨source, target, rfl, rfl, glues.isLeft.flow_nil same⟩)
  have onRight {source target : Terminal}
      (same : joint (rightEnd source) = joint (rightEnd target)) :
      Chain ((leftFlow.Image leftEnd).or (rightFlow.Image rightEnd))
        (rightEnd source) [] (rightEnd target) :=
    .single (.inr ⟨source, target, rfl, rfl, glues.isRight.flow_nil same⟩)
  have shared (source target : Terminal)
      (same : joint (leftEnd source) = joint (rightEnd target)) :
      ∃ here there, leftEnd here = rightEnd there ∧
        joint (leftEnd here) = joint (leftEnd source) := by
    have inRight : rightRegion (joint (leftEnd source)) := by
      rw [same]
      exact glues.isRight.place_mem target
    exact glues.meet _ (glues.isLeft.place_mem source) inRight
  rcases glues.covered first with ⟨source, rfl⟩ | ⟨source, rfl⟩
  · rcases glues.covered last with ⟨target, rfl⟩ | ⟨target, rfl⟩
    · exact onLeft same
    · obtain ⟨here, there, isShared, atSource⟩ := shared source target same
      have before := onLeft atSource.symm
      rw [isShared] at before
      exact before.append (onRight (by rw [← isShared, atSource, same]))
  · rcases glues.covered last with ⟨target, rfl⟩ | ⟨target, rfl⟩
    · obtain ⟨here, there, isShared, atTarget⟩ :=
        shared target source same.symm
      have after := onLeft atTarget
      rw [isShared] at after
      have before : Chain ((leftFlow.Image leftEnd).or
          (rightFlow.Image rightEnd)) (rightEnd source) [] (rightEnd there) :=
        onRight (by rw [← isShared, atTarget, same])
      exact before.append after
    · exact onRight same

theorem Glues.meetAtPorts
    (glues : Glues edges left right joint leftEnd rightEnd leftRegion
      rightRegion leftFlow rightFlow) :
    Chain.MeetAtPorts leftRegion rightRegion
      (fun node => ∃ terminal, joint (leftEnd terminal) = node)
      (fun node => ∃ terminal, joint (rightEnd terminal) = node) := by
  constructor
  · rintro _ ⟨terminal, rfl⟩
    exact glues.isLeft.place_mem terminal
  · rintro _ ⟨terminal, rfl⟩
    exact glues.isRight.place_mem terminal
  · intro node inLeft inRight
    obtain ⟨source, _, _, isNode⟩ := glues.meet node inLeft inRight
    exact ⟨source, isNode⟩
  · intro node inLeft inRight
    obtain ⟨_, target, isShared, isNode⟩ := glues.meet node inLeft inRight
    exact ⟨target, isShared ▸ isNode⟩

/-- Glued edges are crossed between joints as the two devices together are. -/
theorem Glues.chain_iff
    (glues : Glues edges left right joint leftEnd rightEnd leftRegion
      rightRegion leftFlow rightFlow)
    (first : κ) (word : List Int) (last : κ) :
    Chain (crosses edges) (joint first) word (joint last) ↔
      Chain ((leftFlow.Image leftEnd).or (rightFlow.Image rightEnd))
        first word last := by
  rw [crosses_eq_or glues.isUnion]
  constructor
  · intro path
    have isPort (place : κ) :
        (∃ terminal, joint (leftEnd terminal) = joint place) ∨
          ∃ terminal, joint (rightEnd terminal) = joint place :=
      (glues.covered place).imp
        (fun ⟨terminal, isEnd⟩ => ⟨terminal, congrArg joint isEnd⟩)
        (fun ⟨terminal, isEnd⟩ => ⟨terminal, congrArg joint isEnd⟩)
    have glued := Chain.glue glues.isLeft.confined glues.isRight.confined
      glues.meetAtPorts (isPort first) (isPort last) path
    apply Chain.of_image glues.together
    apply glued.mono
    rintro _ word _ (⟨⟨source, rfl⟩, ⟨target, rfl⟩, crossing⟩ |
      ⟨⟨source, rfl⟩, ⟨target, rfl⟩, crossing⟩)
    · have flows := (glues.isLeft.chain_iff source word target).mp crossing
      exact ⟨leftEnd source, leftEnd target, rfl, rfl,
        .inl ⟨source, target, rfl, rfl, flows⟩⟩
    · have flows := (glues.isRight.chain_iff source word target).mp crossing
      exact ⟨rightEnd source, rightEnd target, rfl, rfl,
        .inr ⟨source, target, rfl, rfl, flows⟩⟩
  · intro path
    apply path.image
    rintro _ word _ (⟨source, target, rfl, rfl, flows⟩ |
      ⟨source, target, rfl, rfl, flows⟩)
    · exact ((glues.isLeft.chain_iff source word target).mpr flows).mono
        fun _ _ _ => .inl
    · exact ((glues.isRight.chain_iff source word target).mpr flows).mono
        fun _ _ _ => .inr

end Glue

def ends (entry exit : Nat) : Terminal → Nat
  | .entry => entry
  | .exit => exit

theorem Realizes.series {first second : List Edge} {entry middle exit : Nat}
    {firstRegion secondRegion : Nat → Prop}
    {firstFlow secondFlow : Passage Terminal}
    (isFirst : Realizes first (ends entry middle) firstRegion firstFlow)
    (isSecond : Realizes second (ends middle exit) secondRegion secondFlow)
    (isUnion : ∀ edge, edge ∈ edges ↔ edge ∈ first ∨ edge ∈ second)
    (meet : ∀ node, firstRegion node → secondRegion node → node = middle) :
    Realizes edges (ends entry exit)
      (fun node => firstRegion node ∨ secondRegion node)
      (Flow.series firstFlow secondFlow) := by
  let joint : Joint → Nat
    | .entry => entry
    | .middle => middle
    | .exit => exit
  have firstEnds : ends entry middle = joint ∘ Joint.first := by
    funext terminal
    cases terminal <;> rfl
  have secondEnds : ends middle exit = joint ∘ Joint.second := by
    funext terminal
    cases terminal <;> rfl
  have outerEnds (terminal : Terminal) :
      ends entry exit terminal = joint (Joint.outer terminal) := by
    cases terminal <;> rfl
  have covered (place : Joint) : (∃ terminal, Joint.first terminal = place) ∨
      ∃ terminal, Joint.second terminal = place := by
    cases place with
    | entry => exact .inl ⟨.entry, rfl⟩
    | middle => exact .inl ⟨.exit, rfl⟩
    | exit => exact .inr ⟨.exit, rfl⟩
  have glues : Glues edges first second joint Joint.first Joint.second
      firstRegion secondRegion firstFlow secondFlow := by
    refine ⟨firstEnds ▸ isFirst, secondEnds ▸ isSecond, isUnion, covered, ?_⟩
    intro node inFirst inSecond
    exact ⟨.exit, .entry, rfl, (meet node inFirst inSecond).symm⟩
  constructor
  · intro terminal
    cases terminal with
    | entry => exact .inl (isFirst.place_mem .entry)
    | exit => exact .inr (isSecond.place_mem .exit)
  · exact confined_or isFirst.confined isSecond.confined isUnion
  · intro source word target
    rw [outerEnds, outerEnds]
    exact glues.chain_iff _ word _

theorem Realizes.parallel
    (isLeft : Realizes left place leftRegion leftFlow)
    (isRight : Realizes right place rightRegion rightFlow)
    (isUnion : ∀ edge, edge ∈ edges ↔ edge ∈ left ∨ edge ∈ right)
    (meet : ∀ node, leftRegion node → rightRegion node →
      ∃ terminal, place terminal = node) :
    Realizes edges place (fun node => leftRegion node ∨ rightRegion node)
      (Flow.parallel leftFlow rightFlow) := by
  have glues : Glues edges left right place id id leftRegion rightRegion
      leftFlow rightFlow := by
    refine ⟨isLeft, isRight, isUnion, fun terminal => .inl ⟨terminal, rfl⟩, ?_⟩
    intro node inLeft inRight
    obtain ⟨terminal, isNode⟩ := meet node inLeft inRight
    exact ⟨terminal, terminal, rfl, isNode⟩
  constructor
  · intro terminal
    exact .inl (isLeft.place_mem terminal)
  · exact confined_or isLeft.confined isRight.confined isUnion
  · intro source word target
    have glued := glues.chain_iff source word target
    rw [Passage.image_id, Passage.image_id] at glued
    exact glued

theorem ends_injective {entry exit : Nat} (different : entry ≠ exit)
    {source target : Terminal}
    (same : ends entry exit source = ends entry exit target) :
    source = target := by
  cases source with
  | entry =>
      cases target with
      | entry => rfl
      | exit => exact absurd same different
  | exit =>
      cases target with
      | entry => exact absurd same.symm different
      | exit => rfl

theorem mem_ends {entry exit : Nat} (terminal : Terminal) :
    ends entry exit terminal = entry ∨ ends entry exit terminal = exit := by
  cases terminal with
  | entry => exact .inl rfl
  | exit => exact .inr rfl

theorem realizes_wire {source target : Nat} (different : source ≠ target)
    (label : CodeSet) :
    Realizes [labelled source label target] (ends source target)
      (fun node => node = source ∨ node = target) (Flow.wire label) := by
  refine ⟨mem_ends, ?_, ?_⟩
  · rintro first word last ⟨edge, member, rfl, rfl, _⟩
    rw [List.mem_singleton.mp member]
    exact ⟨.inl rfl, .inr rfl⟩
  · intro first word last
    constructor
    · intro path
      have together (here there : Terminal)
          (same : ends source target here = ends source target there) :
          Flow.wire label here [] there := by
        rw [ends_injective different same]
        exact .nil there
      apply Chain.of_image together
      apply path.mono
      rintro _ word _ ⟨edge, member, rfl, rfl, passes⟩
      rw [List.mem_singleton.mp member] at passes ⊢
      exact ⟨.entry, .exit, rfl, rfl, rfl, rfl, passes⟩
    · intro path
      apply path.image
      rintro _ word _ ⟨rfl, rfl, passes⟩
      exact .single ⟨_, List.mem_singleton_self _, rfl, rfl, passes⟩

theorem realizes_joined (entry exit : Nat) :
    Realizes [free exit entry, free entry exit] (ends entry exit)
      (fun node => node = entry ∨ node = exit) Flow.joined := by
  have isEdge {edge : Edge}
      (member : edge ∈ [free exit entry, free entry exit]) :
      edge = free exit entry ∨ edge = free entry exit := by
    simpa using member
  have isFree := CodeSet.passes_empty_iff.mpr rfl
  refine ⟨mem_ends, ?_, ?_⟩
  · rintro first word last ⟨edge, member, rfl, rfl, _⟩
    rcases isEdge member with rfl | rfl
    · exact ⟨.inr rfl, .inl rfl⟩
    · exact ⟨.inl rfl, .inr rfl⟩
  · intro source word target
    constructor
    · apply Chain.word_eq_nil
      rintro first word last ⟨edge, member, _, _, passes⟩
      rcases isEdge member with rfl | rfl
      · exact CodeSet.passes_empty_iff.mp passes
      · exact CodeSet.passes_empty_iff.mp passes
    · rintro rfl
      cases source with
      | entry =>
          cases target with
          | entry => exact .nil entry
          | exit =>
              exact .single ⟨free entry exit, by simp, rfl, rfl, isFree⟩
      | exit =>
          cases target with
          | entry =>
              exact .single ⟨free exit entry, by simp, rfl, rfl, isFree⟩
          | exit => exact .nil exit

/-- Free edges from a node to itself leave its entry and its exit one. -/
theorem realizes_point {exit : Nat}
    (loops : ∀ edge ∈ edges, edge = free exit exit) :
    Realizes edges (ends exit exit) (fun node => node = exit) Flow.joined := by
  have atExit (terminal : Terminal) : ends exit exit terminal = exit :=
    (mem_ends terminal).elim id id
  refine ⟨atExit, ?_, ?_⟩
  · rintro first word last ⟨edge, member, rfl, rfl, _⟩
    rw [loops edge member]
    exact ⟨rfl, rfl⟩
  · intro source word target
    rw [atExit, atExit]
    constructor
    · apply Chain.word_eq_nil
      rintro first word last ⟨edge, member, _, _, passes⟩
      rw [loops edge member] at passes
      exact CodeSet.passes_empty_iff.mp passes
    · intro isEmpty
      rw [isEmpty]
      exact .nil exit

theorem realizes_apart {entry exit : Nat} (different : entry ≠ exit) :
    Realizes [] (ends entry exit) (fun node => node = entry ∨ node = exit)
      Flow.apart := by
  refine ⟨mem_ends, ?_, ?_⟩
  · rintro first word last ⟨edge, member, _⟩
    cases member
  · intro source word target
    constructor
    · intro path
      generalize isFirst : ends entry exit source = first at path
      generalize isLast : ends entry exit target = last at path
      cases path with
      | nil =>
          exact ⟨ends_injective different (isFirst.trans isLast.symm), rfl⟩
      | cons step _ =>
          obtain ⟨edge, member, _⟩ := step
          cases member
    · rintro ⟨rfl, rfl⟩
      exact .nil _

end Edge

end LexGen
