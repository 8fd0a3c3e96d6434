import LexGen.Proofs.Thompson.Fragment

/-!
# Lowering realizes the flow of expressions

Lowering an expression to a fragment takes unused numbers for the nodes of the
fragment, so that fragments with an exit in common meet there only.  The edges
of a lowered expression are then crossed as words flow through the expression.
-/

namespace LexGen

open Edge

/-- The exit of a fragment and the numbers that its other nodes may have. -/
def Within (exit next bound node : Nat) : Prop :=
  node = exit ∨ next ≤ node ∧ node < bound

namespace Within

theorem mono {exit next bound lower higher node : Nat}
    (within : Within exit next bound node) (below : lower ≤ next)
    (above : bound ≤ higher) : Within exit lower higher node := by
  rcases within with isExit | ⟨low, high⟩
  · exact .inl isExit
  · exact .inr ⟨Nat.le_trans below low, Nat.lt_of_lt_of_le high above⟩

theorem lt {exit next bound node : Nat} (within : Within exit next bound node)
    (exitBound : exit < bound) : node < bound := by
  rcases within with isExit | ⟨_, high⟩
  · exact isExit ▸ exitBound
  · exact high

/-- A fragment that is numbered after another one meets it at its exit only. -/
theorem eq_of_both {exit next middle last bound node : Nat}
    (exitBound : exit < next) (order : next ≤ middle)
    (earlier : Within exit next middle node)
    (later : Within last middle bound node) : node = last := by
  rcases later with isLast | ⟨low, _⟩
  · exact isLast
  · rcases earlier with isExit | ⟨_, high⟩
    · omega
    · omega

end Within

namespace Lowered

/-- The fragment numbers its nodes from the given number on, and its edges are
crossed between its ends as words flow between the terminals. -/
structure IsSound (fragment : Lowered) (exit next : Nat)
    (flow : Passage Terminal) : Prop where
  next_le : next ≤ fragment.next
  realizes : Realizes fragment.edges (ends fragment.entry exit)
    (Within exit next fragment.next) flow

variable {fragment first later : Lowered} {exit next : Nat}
  {flow firstFlow laterFlow : Passage Terminal}

theorem IsSound.entry_mem (sound : fragment.IsSound exit next flow) :
    Within exit next fragment.next fragment.entry :=
  sound.realizes.place_mem .entry

theorem IsSound.entry_lt (sound : fragment.IsSound exit next flow)
    (bound : exit < next) : fragment.entry < fragment.next :=
  sound.entry_mem.lt (Nat.lt_of_lt_of_le bound sound.next_le)

theorem trivial_isSound (exit next : Nat) :
    (trivial exit next).IsSound exit next Flow.joined := by
  constructor
  · exact Nat.le_refl next
  · have noLoops : ∀ edge ∈ ([] : List Edge), edge = free exit exit := nofun
    exact (realizes_point noLoops).mono fun node isExit => .inl isExit

theorem IsSound.behindWire (sound : later.IsSound exit next laterFlow)
    (bound : exit < next) (label : CodeSet) :
    IsSound ⟨later.next, later.next + 1,
        later.edges ++ [labelled later.next label later.entry]⟩
      exit next (Flow.series (Flow.wire label) laterFlow) := by
  have entryBound := sound.entry_lt bound
  constructor
  · exact Nat.le_succ_of_le sound.next_le
  · have isWire := realizes_wire (Nat.ne_of_gt entryBound) label
    have isUnion (edge : Edge) :
        edge ∈ later.edges ++ [labelled later.next label later.entry] ↔
          edge ∈ [labelled later.next label later.entry] ∨
            edge ∈ later.edges := by
      rw [List.mem_append, or_comm]
    have meet (node : Nat) (onWire : node = later.next ∨ node = later.entry)
        (inLater : Within exit next later.next node) : node = later.entry := by
      have nodeBound := inLater.lt (Nat.lt_of_lt_of_le bound sound.next_le)
      exact onWire.resolve_left (Nat.ne_of_lt nodeBound)
    apply (isWire.series sound.realizes isUnion meet).mono
    rintro node ((isNew | isEntry) | inLater)
    · rw [isNew]
      exact .inr ⟨sound.next_le, Nat.lt_succ_self _⟩
    · rw [isEntry]
      exact sound.entry_mem.mono (Nat.le_refl _) (Nat.le_succ _)
    · exact inLater.mono (Nat.le_refl _) (Nat.le_succ _)

theorem IsSound.before (isFirst : first.IsSound later.entry later.next firstFlow)
    (isLater : later.IsSound exit next laterFlow) (bound : exit < next) :
    IsSound ⟨first.entry, first.next, later.edges ++ first.edges⟩ exit next
      (Flow.series firstFlow laterFlow) := by
  constructor
  · exact Nat.le_trans isLater.next_le isFirst.next_le
  · have isUnion (edge : Edge) : edge ∈ later.edges ++ first.edges ↔
        edge ∈ first.edges ∨ edge ∈ later.edges := by
      rw [List.mem_append, or_comm]
    have meet (node : Nat)
        (inFirst : Within later.entry later.next first.next node)
        (inLater : Within exit next later.next node) : node = later.entry :=
      inLater.eq_of_both bound isLater.next_le inFirst
    apply (isFirst.realizes.series isLater.realizes isUnion meet).mono
    rintro node ((isEntry | ⟨low, high⟩) | inLater)
    · rw [isEntry]
      exact isLater.entry_mem.mono (Nat.le_refl _) isFirst.next_le
    · exact .inr ⟨Nat.le_trans isLater.next_le low, high⟩
    · exact inLater.mono (Nat.le_refl _) isFirst.next_le

theorem IsSound.beside (sound : fragment.IsSound exit next flow)
    {edges : List Edge} {otherFlow : Passage Terminal}
    (other : Realizes edges (ends fragment.entry exit)
      (fun node => node = fragment.entry ∨ node = exit) otherFlow) :
    (fragment.withEdges edges).IsSound exit next
      (Flow.parallel flow otherFlow) := by
  constructor
  · exact sound.next_le
  · have meet (node : Nat) (_ : Within exit next fragment.next node)
        (isEnd : node = fragment.entry ∨ node = exit) :
        ∃ terminal, ends fragment.entry exit terminal = node := by
      cases isEnd with
      | inl isEntry => exact ⟨.entry, isEntry.symm⟩
      | inr isExit => exact ⟨.exit, isExit.symm⟩
    have isUnion (edge : Edge) : edge ∈ fragment.edges ++ edges ↔
        edge ∈ fragment.edges ∨ edge ∈ edges := List.mem_append
    apply (sound.realizes.parallel other isUnion meet).mono
    rintro node (inFragment | isEntry | isExit)
    · exact inFragment
    · rw [isEntry]
      exact sound.entry_mem
    · exact .inl isExit

theorem IsSound.loop (sound : fragment.IsSound exit next flow) :
    (fragment.withEdges
        [free exit fragment.entry, free fragment.entry exit]).IsSound
      exit next (Flow.parallel flow Flow.joined) :=
  sound.beside (realizes_joined fragment.entry exit)

theorem IsSound.bypass (sound : fragment.IsSound exit next flow) :
    (fragment.withEdges [free fragment.entry exit]).IsSound exit next
      (Flow.parallel flow (Flow.wire ∅)) := by
  obtain ⟨entry, bound, edges⟩ := fragment
  by_cases same : entry = exit
  · subst same
    have joins (source target : Terminal) : flow source [] target := by
      apply sound.realizes.flow_nil
      cases source <;> cases target <;> rfl
    have loops : ∀ edge ∈ [free entry entry], edge = free entry entry :=
      fun edge => List.mem_singleton.mp
    rw [← Flow.parallel_joined_eq joins]
    exact sound.beside ((realizes_point loops).mono fun node => .inl)
  · exact sound.beside (realizes_wire same ∅)

theorem IsSound.behindNode (sound : fragment.IsSound exit next flow) {node : Nat}
    (outside : ¬ Within exit next fragment.next node) :
    Realizes (free node fragment.entry :: fragment.edges) (ends node exit)
      (fun other => other = node ∨ Within exit next fragment.next other)
      (Flow.series (Flow.wire ∅) flow) := by
  have different : node ≠ fragment.entry := by
    intro same
    rw [same] at outside
    exact outside sound.entry_mem
  have isUnion (edge : Edge) :
      edge ∈ free node fragment.entry :: fragment.edges ↔
        edge ∈ [free node fragment.entry] ∨ edge ∈ fragment.edges := by
    rw [← List.singleton_append, List.mem_append]
  have meet (other : Nat) (onWire : other = node ∨ other = fragment.entry)
      (inFragment : Within exit next fragment.next other) :
      other = fragment.entry := by
    apply onWire.resolve_left
    intro isNode
    exact outside (isNode ▸ inFragment)
  have isWire := realizes_wire different ∅
  apply (isWire.series sound.realizes isUnion meet).mono
  rintro other ((isNode | isEntry) | inFragment)
  · exact .inl isNode
  · exact .inr (isEntry ▸ sound.entry_mem)
  · exact .inr inFragment

end Lowered

namespace Regex

open Lowered

theorem lowerCodes_isSound (codes : List Int) {exit next : Nat}
    (bound : exit < next) :
    (lowerCodes codes exit next).IsSound exit next (flowsCodes codes) := by
  induction codes with
  | nil => exact trivial_isSound exit next
  | cons code codes induction => exact induction.behindWire bound _

/-- A branch behind a free wire goes beside later ones that are entered from
the same node. -/
theorem realizes_branch {branch exit next : Nat} {first later : Lowered}
    {firstFlow laterFlow : Passage Terminal} (exitBound : exit < branch)
    (branchBound : branch < next) (isFirst : first.IsSound exit next firstFlow)
    (isLater : Realizes later.edges (ends branch exit)
      (fun node => node = branch ∨ Within exit first.next later.next node)
      laterFlow)
    (laterBound : first.next ≤ later.next) :
    Realizes (first.edges ++ free branch first.entry :: later.edges)
      (ends branch exit)
      (fun node => node = branch ∨ Within exit next later.next node)
      (Flow.parallel (Flow.series (Flow.wire ∅) firstFlow) laterFlow) := by
  have branchOutside : ¬ Within exit next first.next branch := by
    intro within
    cases within with
    | inl isExit => omega
    | inr between => omega
  have isBranch := isFirst.behindNode branchOutside
  have isUnion (edge : Edge) :
      edge ∈ first.edges ++ free branch first.entry :: later.edges ↔
        edge ∈ free branch first.entry :: first.edges ∨
          edge ∈ later.edges := by
    simp only [List.mem_append, List.mem_cons]
    exact or_left_comm.trans or_assoc.symm
  have meet (node : Nat)
      (inFirst : node = branch ∨ Within exit next first.next node)
      (inLater : node = branch ∨ Within exit first.next later.next node) :
      ∃ terminal, ends branch exit terminal = node := by
    rcases inFirst with isBranch | inFirst
    · exact ⟨.entry, isBranch.symm⟩
    · rcases inLater with isBranch | inLater
      · exact ⟨.entry, isBranch.symm⟩
      · have nextBound := Nat.lt_trans exitBound branchBound
        have isExit := inFirst.eq_of_both nextBound isFirst.next_le inLater
        exact ⟨.exit, isExit.symm⟩
  apply (isBranch.parallel isLater isUnion meet).mono
  rintro node ((isBranch | inFirst) | isBranch | inLater)
  · exact .inl isBranch
  · exact .inr (inFirst.mono (Nat.le_refl _) laterBound)
  · exact .inl isBranch
  · exact .inr (inLater.mono isFirst.next_le (Nat.le_refl _))

mutual

/-- A lowered expression is crossed as words flow through the expression. -/
theorem lower_isSound (regex : Regex) {exit next : Nat} (bound : exit < next) :
    (regex.lower exit next).IsSound exit next regex.Flows := by
  cases regex with
  | oneOf set =>
      have isWire := realizes_wire (Nat.ne_of_gt bound) set
      refine ⟨Nat.le_succ next, isWire.mono ?_⟩
      intro node isEnd
      cases isEnd with
      | inl isNew =>
          exact .inr ⟨Nat.le_of_eq isNew.symm, isNew ▸ Nat.lt_succ_self _⟩
      | inr isExit => exact .inl isExit
  | literal text => exact lowerCodes_isSound _ bound
  | many inner => exact (lower_isSound inner bound).loop
  | optional inner => exact (lower_isSound inner bound).bypass
  | sequence items => exact lowerSequence_isSound items bound
  | alternative items =>
      match items with
      | [] => exact trivial_isSound exit next
      | [only] => exact lower_isSound only bound
      | first :: second :: later =>
          obtain ⟨nextBound, realizes⟩ :=
            lowerBranches_realizes (first :: second :: later) bound
              (Nat.lt_succ_self next)
          refine ⟨Nat.le_of_succ_le nextBound, realizes.mono ?_⟩
          intro node inBranches
          cases inBranches with
          | inl isBranch =>
              exact .inr ⟨Nat.le_of_eq isBranch.symm, isBranch ▸ nextBound⟩
          | inr within => exact within.mono (Nat.le_succ next) (Nat.le_refl _)

theorem lowerSequence_isSound (items : List Regex) {exit next : Nat}
    (bound : exit < next) :
    (lowerSequence items exit next).IsSound exit next
      (FlowsSequence items) := by
  cases items with
  | nil => exact trivial_isSound exit next
  | cons item items =>
      have later := lowerSequence_isSound items bound
      exact (lower_isSound item (later.entry_lt bound)).before later bound

theorem lowerBranches_realizes (items : List Regex) {branch exit next : Nat}
    (exitBound : exit < branch) (branchBound : branch < next) :
    let fragment := lowerBranches branch items exit next
    next ≤ fragment.next ∧ Realizes fragment.edges (ends branch exit)
      (fun node => node = branch ∨ Within exit next fragment.next node)
      (FlowsBranches items) := by
  cases items with
  | nil =>
      refine ⟨Nat.le_refl next, ?_⟩
      apply (realizes_apart (Nat.ne_of_gt exitBound)).mono
      intro node isEnd
      exact isEnd.imp id .inl
  | cons item items =>
      have isFirst := lower_isSound item (Nat.lt_trans exitBound branchBound)
      obtain ⟨laterBound, isLater⟩ := lowerBranches_realizes items exitBound
        (Nat.lt_of_lt_of_le branchBound isFirst.next_le)
      exact ⟨Nat.le_trans isFirst.next_le laterBound,
        realizes_branch exitBound branchBound isFirst isLater laterBound⟩

end

theorem flows_isClosed (regex : Regex) : regex.Flows.IsClosed :=
  (lower_isSound regex Nat.zero_lt_one).realizes.isClosed

theorem flowsSequence_isClosed (items : List Regex) :
    (FlowsSequence items).IsClosed :=
  (lowerSequence_isSound items Nat.zero_lt_one).realizes.isClosed

theorem flowsCodes_isClosed (codes : List Int) : (flowsCodes codes).IsClosed :=
  (lowerCodes_isSound codes Nat.zero_lt_one).realizes.isClosed

end Regex

end LexGen
