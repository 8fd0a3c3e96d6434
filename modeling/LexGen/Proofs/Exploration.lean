import LexGen.Exploration
import Mathlib.Data.List.Forall2
import Mathlib.Data.List.Nodup
import Mathlib.Data.List.Perm.Subperm
import Mathlib.Logic.Relation

/-!
# Explorations find what can be reached

Between two visits an exploration holds everything found so far once, and what
was visited has all its neighbours among the found.  When the things that can be
reached are finitely many and every visit succeeds, as many visits as there are
such things leave nothing pending, and exactly what can be reached is found.

Two explorations may visit things of different kinds.  Where a one-to-one
relation pairs the things of the one with those of the other, and visits of paired
things answer with paired neighbours in the same order, the two stay in lockstep:
what they find is paired, in the order of its discovery.
-/

namespace LexGen

namespace Exploration

variable {σ ε : Type}

def Neighbour (visit : σ → List σ × Option ε) (source target : σ) : Prop :=
  target ∈ (visit source).1

abbrev Reaches (visit : σ → List σ × Option ε) : σ → σ → Prop :=
  Relation.ReflTransGen (Neighbour visit)

/-- What holds of an exploration between two visits. -/
structure Invariant (visit : σ → List σ × Option ε) (start : σ)
    (exploration : Exploration σ ε) : Prop where
  head_found : exploration.found.head? = some start
  found_nodup : exploration.found.Nodup
  pending_nodup : exploration.pending.Nodup
  found_of_pending : ∀ thing ∈ exploration.pending, thing ∈ exploration.found
  reaches_of_found : ∀ thing ∈ exploration.found, Reaches visit start thing
  visited_or_pending : ∀ thing ∈ exploration.found,
    thing ∈ exploration.pending ∨
      ∀ neighbour, Neighbour visit thing neighbour →
        neighbour ∈ exploration.found

theorem Invariant.startingAt (visit : σ → List σ × Option ε) (start : σ) :
    Invariant visit start (startingAt start) := by
  constructor
  · rfl
  · exact List.nodup_singleton start
  · exact List.nodup_singleton start
  · intro thing member
    exact member
  · intro thing member
    rw [List.mem_singleton.mp member]
  · intro thing member
    exact .inl member

section Visits

variable [DecidableEq σ]

/-- What noting neighbours adds to an exploration. -/
structure Adds (added : List σ) (before after : Exploration σ ε) : Prop where
  found_eq : after.found = before.found ++ added
  pending_perm : after.pending.Perm (before.pending ++ added)
  failure_eq : after.failure = before.failure
  added_nodup : added.Nodup
  added_new : ∀ thing ∈ added, thing ∉ before.found

theorem discover_adds (order : VisitOrder) (exploration : Exploration σ ε)
    (neighbour : σ) :
    ∃ added, Adds added exploration (discover order exploration neighbour) ∧
      ∀ thing, thing ∈ exploration.found ++ added ↔
        thing ∈ exploration.found ∨ thing = neighbour := by
  by_cases known : neighbour ∈ exploration.found
  · refine ⟨[], ?_, ?_⟩
    · have unchanged : discover order exploration neighbour = exploration :=
        if_pos known
      rw [unchanged]
      constructor <;> simp
    · intro thing
      rw [List.append_nil]
      constructor
      · exact .inl
      · rintro (member | rfl)
        · exact member
        · exact known
  · refine ⟨[neighbour], ?_, ?_⟩
    · unfold discover
      rw [if_neg known]
      constructor
      · rfl
      · cases order with
        | breadthFirst => exact .refl _
        | depthFirst => exact (List.perm_append_singleton _ _).symm
      · rfl
      · exact List.nodup_singleton neighbour
      · intro thing member
        rw [List.mem_singleton.mp member]
        exact known
    · intro thing
      rw [List.mem_append, List.mem_singleton]

theorem discoverAll_adds (order : VisitOrder) (exploration : Exploration σ ε)
    (neighbours : List σ) :
    ∃ added,
      Adds added exploration (discoverAll order exploration neighbours) ∧
      ∀ thing, thing ∈ exploration.found ++ added ↔
        thing ∈ exploration.found ∨ thing ∈ neighbours := by
  induction neighbours generalizing exploration with
  | nil =>
      refine ⟨[], ?_, by simp⟩
      constructor <;> simp [discoverAll]
  | cons neighbour neighbours induction =>
      obtain ⟨first, firstAdds, firstMember⟩ :=
        discover_adds order exploration neighbour
      obtain ⟨later, laterAdds, laterMember⟩ :=
        induction (discover order exploration neighbour)
      rw [firstAdds.found_eq] at laterMember
      refine ⟨first ++ later, ?_, ?_⟩
      · constructor
        · rw [← List.append_assoc, ← firstAdds.found_eq]
          exact laterAdds.found_eq
        · rw [← List.append_assoc]
          exact laterAdds.pending_perm.trans
            (firstAdds.pending_perm.append_right later)
        · exact laterAdds.failure_eq.trans firstAdds.failure_eq
        · have laterNew := laterAdds.added_new
          rw [firstAdds.found_eq] at laterNew
          apply List.nodup_append.mpr
          refine ⟨firstAdds.added_nodup, laterAdds.added_nodup, ?_⟩
          intro thing inFirst other inLater same
          subst same
          exact laterNew thing inLater
            (List.mem_append.mpr (.inr inFirst))
        · intro thing member known
          rcases List.mem_append.mp member with inFirst | inLater
          · exact firstAdds.added_new thing inFirst known
          · apply laterAdds.added_new thing inLater
            rw [firstAdds.found_eq]
            exact List.mem_append.mpr (.inl known)
      · intro thing
        rw [← List.append_assoc, laterMember, firstMember, List.mem_cons,
          or_assoc]

/-- A visit keeps the invariant and removes one thing from the pending ones. -/
theorem Invariant.visit {visit : σ → List σ × Option ε} {start next : σ}
    {later : List σ} {exploration : Exploration σ ε}
    (invariant : Invariant visit start exploration)
    (isNext : exploration.pending = next :: later) (order : VisitOrder) :
    let noted := discoverAll order { exploration with pending := later }
      (visit next).1
    Invariant visit start noted ∧
      noted.failure = exploration.failure ∧
      noted.found.length + exploration.pending.length =
        exploration.found.length + noted.pending.length + 1 := by
  intro noted
  obtain ⟨added, adds, member⟩ := discoverAll_adds order
    { exploration with pending := later } (visit next).1
  have foundEq : noted.found = exploration.found ++ added := adds.found_eq
  have pendingPerm : noted.pending.Perm (later ++ added) := adds.pending_perm
  have pendingNodup := invariant.pending_nodup
  rw [isNext, List.nodup_cons] at pendingNodup
  have nextFound : next ∈ exploration.found :=
    invariant.found_of_pending next (isNext ▸ List.mem_cons_self)
  have laterFound : ∀ thing ∈ later, thing ∈ exploration.found := by
    intro thing inLater
    exact invariant.found_of_pending thing
      (isNext ▸ List.mem_cons_of_mem next inLater)
  refine ⟨?_, adds.failure_eq, ?_⟩
  · constructor
    · rw [foundEq, List.head?_append, invariant.head_found]
      rfl
    · rw [foundEq]
      apply List.nodup_append.mpr
      refine ⟨invariant.found_nodup, adds.added_nodup, ?_⟩
      intro thing known other inAdded same
      subst same
      exact adds.added_new thing inAdded known
    · apply pendingPerm.nodup_iff.mpr
      apply List.nodup_append.mpr
      refine ⟨pendingNodup.2, adds.added_nodup, ?_⟩
      intro thing inLater other inAdded same
      subst same
      exact adds.added_new thing inAdded (laterFound thing inLater)
    · intro thing isPending
      rw [foundEq, List.mem_append]
      rcases List.mem_append.mp (pendingPerm.mem_iff.mp isPending) with
        inLater | inAdded
      · exact .inl (laterFound thing inLater)
      · exact .inr inAdded
    · intro thing isFound
      rw [foundEq] at isFound
      rcases (member thing).mp isFound with known | isNeighbour
      · exact invariant.reaches_of_found thing known
      · exact (invariant.reaches_of_found next nextFound).tail isNeighbour
    · intro thing isFound
      rw [foundEq, List.mem_append] at isFound
      rcases isFound with known | inAdded
      · by_cases isVisited : thing = next
        · right
          intro neighbour isNeighbour
          rw [isVisited] at isNeighbour
          rw [foundEq]
          exact (member neighbour).mpr (.inr isNeighbour)
        · rcases invariant.visited_or_pending thing known with
            isPending | visited
          · left
            rw [isNext, List.mem_cons] at isPending
            apply pendingPerm.mem_iff.mpr
            exact List.mem_append.mpr (.inl (isPending.resolve_left isVisited))
          · right
            intro neighbour isNeighbour
            rw [foundEq]
            exact List.mem_append.mpr (.inl (visited neighbour isNeighbour))
      · left
        exact pendingPerm.mem_iff.mpr (List.mem_append.mpr (.inr inAdded))
  · have pendingLength := pendingPerm.length_eq
    rw [List.length_append] at pendingLength
    rw [foundEq, isNext, List.length_append, List.length_cons]
    omega

end Visits

/-- Exactly what can be reached was found, each thing once, the start first, and
nothing went wrong. -/
structure IsComplete (visit : σ → List σ × Option ε) (start : σ)
    (exploration : Exploration σ ε) : Prop where
  failure_eq_none : exploration.failure = none
  head_found : exploration.found.head? = some start
  found_nodup : exploration.found.Nodup
  mem_found_iff : ∀ thing,
    thing ∈ exploration.found ↔ Reaches visit start thing

theorem Invariant.isComplete {visit : σ → List σ × Option ε} {start : σ}
    {exploration : Exploration σ ε}
    (invariant : Invariant visit start exploration)
    (nothingPending : exploration.pending = [])
    (noFailure : exploration.failure = none) :
    IsComplete visit start exploration := by
  refine ⟨noFailure, invariant.head_found, invariant.found_nodup, ?_⟩
  intro thing
  constructor
  · exact invariant.reaches_of_found thing
  · intro reaches
    induction reaches with
    | refl => exact List.mem_of_mem_head? invariant.head_found
    | @tail middle target _ isNeighbour middleFound =>
        rcases invariant.visited_or_pending middle middleFound with
          isPending | visited
        · rw [nothingPending] at isPending
          cases isPending
        · exact visited target isNeighbour

theorem Invariant.found_length_le {visit : σ → List σ × Option ε} {start : σ}
    {exploration : Exploration σ ε} {candidates : List σ}
    (invariant : Invariant visit start exploration)
    (inCandidates : ∀ thing, Reaches visit start thing → thing ∈ candidates) :
    exploration.found.length ≤ candidates.length := by
  have subset : exploration.found ⊆ candidates := by
    intro thing isFound
    exact inCandidates thing (invariant.reaches_of_found thing isFound)
  exact (List.subperm_of_subset invariant.found_nodup subset).length_le

variable [DecidableEq σ]

/-- The visits still allowed and those already made are as many as there are
things to visit, so the fuel lasts until nothing is pending or a visit fails. -/
theorem Invariant.run_cases {visit : σ → List σ × Option ε} {start : σ}
    {exploration : Exploration σ ε} {candidates : List σ} {fuel : Nat}
    (order : VisitOrder)
    (inCandidates : ∀ thing, Reaches visit start thing → thing ∈ candidates)
    (invariant : Invariant visit start exploration)
    (noFailure : exploration.failure = none)
    (enough : candidates.length + exploration.pending.length ≤
      fuel + exploration.found.length) :
    ((run order visit fuel exploration).pending = [] ∧
      IsComplete visit start (run order visit fuel exploration)) ∨
    ∃ thing failure, Reaches visit start thing ∧
      (visit thing).2 = some failure ∧
      (run order visit fuel exploration).failure = some failure := by
  induction fuel generalizing exploration with
  | zero =>
      have limit := invariant.found_length_le inCandidates
      have nothingPending : exploration.pending = [] :=
        List.eq_nil_of_length_eq_zero (by omega)
      exact .inl ⟨nothingPending, invariant.isComplete nothingPending noFailure⟩
  | succ fuel induction =>
      rw [Exploration.run]
      cases isNext : exploration.pending with
      | nil => exact .inl ⟨isNext, invariant.isComplete isNext noFailure⟩
      | cons next later =>
          have nextFound : next ∈ exploration.found :=
            invariant.found_of_pending next (isNext ▸ List.mem_cons_self)
          have nextReaches := invariant.reaches_of_found next nextFound
          cases outcome : (visit next).2 with
          | some failure =>
              simp only [outcome]
              exact .inr ⟨next, failure, nextReaches, outcome, rfl⟩
          | none =>
              obtain ⟨notedInvariant, notedFailure, notedLength⟩ :=
                invariant.visit isNext order
              simp only [outcome]
              apply induction notedInvariant
              · rw [notedFailure]
                exact noFailure
              · omega

section Finite

variable {visit : σ → List σ × Option ε} {start : σ} {candidates : List σ}
  {fuel : Nat}

/-- Exploring a finite universe with a visit for each of its things leaves nothing
pending and finds exactly what can be reached, whichever pending thing is visited
next, or it ends with the failure of something that can be reached. -/
theorem run_startingAt_cases (order : VisitOrder)
    (inCandidates : ∀ thing, Reaches visit start thing → thing ∈ candidates)
    (enough : candidates.length ≤ fuel) :
    ((run order visit fuel (startingAt start)).pending = [] ∧
      IsComplete visit start (run order visit fuel (startingAt start))) ∨
    ∃ thing failure, Reaches visit start thing ∧
      (visit thing).2 = some failure ∧
      (run order visit fuel (startingAt start)).failure = some failure := by
  apply Invariant.run_cases order inCandidates (.startingAt visit start) rfl
  have pendingLength :
      (startingAt start : Exploration σ ε).pending.length = 1 := rfl
  have foundLength :
      (startingAt start : Exploration σ ε).found.length = 1 := rfl
  omega

theorem run_startingAt (order : VisitOrder)
    (inCandidates : ∀ thing, Reaches visit start thing → thing ∈ candidates)
    (succeeds : ∀ thing, Reaches visit start thing → (visit thing).2 = none)
    (enough : candidates.length ≤ fuel) :
    (run order visit fuel (startingAt start)).pending = [] ∧
      IsComplete visit start (run order visit fuel (startingAt start)) := by
  apply (run_startingAt_cases order inCandidates enough).resolve_right
  intro fails
  obtain ⟨thing, failure, reaches, isFailure, _⟩ := fails
  rw [succeeds thing reaches] at isFailure
  cases isFailure

end Finite

theorem run_add {visit : σ → List σ × Option ε} {order : VisitOrder} {fuel : Nat}
    {exploration : Exploration σ ε}
    (nothingPending : (run order visit fuel exploration).pending = [])
    (extra : Nat) :
    run order visit (fuel + extra) exploration =
      run order visit fuel exploration := by
  induction fuel generalizing exploration with
  | zero =>
      have isEmpty : exploration.pending = [] := nothingPending
      cases extra with
      | zero => rfl
      | succ extra => rw [Nat.zero_add, run, run, isEmpty]
  | succ fuel induction =>
      rw [Nat.succ_add_eq_add_succ, Nat.add_succ]
      rw [run] at nothingPending ⊢
      rw [run]
      cases isNext : exploration.pending with
      | nil => rfl
      | cons next later =>
          simp only [isNext] at nothingPending ⊢
          split at nothingPending
          next failure failed => rfl
          next succeeded => exact induction nothingPending

end Exploration

/-! ## Explorations in lockstep -/

variable {σ τ ε : Type} {paired : σ → τ → Prop}

theorem idxOf_eq_of_forall₂ [DecidableEq σ] [DecidableEq τ]
    (oneToOne : Relator.BiUnique paired) {lefts : List σ} {rights : List τ}
    (inOrder : List.Forall₂ paired lefts rights) {left : σ} {right : τ}
    (isPair : paired left right) : lefts.idxOf left = rights.idxOf right := by
  induction inOrder with
  | nil => rfl
  | @cons first other lefts rights isFirst _ induction =>
      have sameHere : first = left ↔ other = right :=
        Relator.rel_eq oneToOne isFirst isPair
      rw [List.idxOf_cons, List.idxOf_cons, induction]
      have sameTest : (first == left) = (other == right) := by
        rw [Bool.eq_iff_iff, beq_iff_eq, beq_iff_eq]
        exact sameHere
      rw [sameTest]

theorem getElem?_of_forall₂ {lefts : List σ} {rights : List τ}
    (inOrder : List.Forall₂ paired lefts rights) (place : Nat) :
    Option.Rel paired lefts[place]? rights[place]? := by
  induction inOrder generalizing place with
  | nil => exact .none
  | cons isFirst _ induction =>
      cases place with
      | zero => exact .some isFirst
      | succ place => exact induction place

namespace Exploration

/-- What was found and what is pending is paired, and the same went wrong. -/
structure InLockstep (paired : σ → τ → Prop) (left : Exploration σ ε)
    (right : Exploration τ ε) : Prop where
  found : List.Forall₂ paired left.found right.found
  pending : List.Forall₂ paired left.pending right.pending
  failure_eq : left.failure = right.failure

variable {left : Exploration σ ε} {right : Exploration τ ε}

theorem InLockstep.startingAt {start : σ} {other : τ} (isPair : paired start other) :
    InLockstep (ε := ε) paired (.startingAt start) (.startingAt other) :=
  ⟨.cons isPair .nil, .cons isPair .nil, rfl⟩

variable [DecidableEq σ] [DecidableEq τ] (order : VisitOrder)

theorem InLockstep.discover (oneToOne : Relator.BiUnique paired)
    (lockstep : InLockstep paired left right) {neighbour : σ} {other : τ}
    (isPair : paired neighbour other) :
    InLockstep paired (discover order left neighbour)
      (discover order right other) := by
  have sameKnown : neighbour ∈ left.found ↔ other ∈ right.found :=
    List.rel_mem oneToOne isPair lockstep.found
  by_cases known : neighbour ∈ left.found
  · unfold Exploration.discover
    rw [if_pos known, if_pos (sameKnown.mp known)]
    exact lockstep
  · unfold Exploration.discover
    rw [if_neg known, if_neg (sameKnown.not.mp known)]
    have single : List.Forall₂ paired [neighbour] [other] := .cons isPair .nil
    refine ⟨List.rel_append lockstep.found single, ?_, lockstep.failure_eq⟩
    cases order with
    | breadthFirst => exact List.rel_append lockstep.pending single
    | depthFirst => exact .cons isPair lockstep.pending

theorem InLockstep.discoverAll (oneToOne : Relator.BiUnique paired)
    (lockstep : InLockstep paired left right) {neighbours : List σ}
    {others : List τ} (inOrder : List.Forall₂ paired neighbours others) :
    InLockstep paired (discoverAll order left neighbours)
      (discoverAll order right others) := by
  induction inOrder generalizing left right with
  | nil => exact lockstep
  | cons isPair _ induction => exact induction (lockstep.discover order oneToOne isPair)

/-- As many visits on both sides keep two explorations in lockstep. -/
theorem InLockstep.run (oneToOne : Relator.BiUnique paired)
    {visit : σ → List σ × Option ε} {visitOther : τ → List τ × Option ε}
    (visits : ∀ {thing other}, paired thing other →
      List.Forall₂ paired (visit thing).1 (visitOther other).1 ∧
        (visit thing).2 = (visitOther other).2)
    (lockstep : InLockstep paired left right) (fuel : Nat) :
    InLockstep paired (run order visit fuel left)
      (run order visitOther fuel right) := by
  induction fuel generalizing left right with
  | zero => exact lockstep
  | succ fuel induction =>
      have pending := lockstep.pending
      rw [Exploration.run, Exploration.run]
      cases isPending : left.pending with
      | nil =>
          rw [isPending, List.forall₂_nil_left_iff] at pending
          rw [pending]
          exact lockstep
      | cons next later =>
          rw [isPending] at pending
          obtain ⟨other, others, isPair, laterPending, otherPending⟩ :=
            List.forall₂_cons_left_iff.mp pending
          rw [otherPending]
          obtain ⟨neighbours, sameFailure⟩ := visits isPair
          have taken : InLockstep paired { left with pending := later }
              { right with pending := others } :=
            ⟨lockstep.found, laterPending, lockstep.failure_eq⟩
          have noted := taken.discoverAll order oneToOne neighbours
          simp only [← sameFailure]
          cases (visit next).2 with
          | none => exact induction noted
          | some failure => exact ⟨noted.found, noted.pending, rfl⟩

end Exploration

end LexGen
