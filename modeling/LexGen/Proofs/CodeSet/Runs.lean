import LexGen.CodeSet.Lemmas
import LexGen.CodeSet.Order
import Mathlib.Data.List.Chain

/-!
# Runs are the only decomposition of their set

No run of consecutive codes is empty, and together they hold the codes they were made
of.  So the runs of a code set determine the set.

Codes are taken up one after the other, and only the last run may still grow.  So the
runs made of ascending codes ascend with gaps between them, whatever codes they are made
of.  A list of runs with gaps is determined by the codes it holds: its first run begins
at the smallest of them and ends where the next code is missing.
-/

namespace LexGen

namespace Run

variable {run : Run} {codes : List Int}

theorem contains_iff {code : Int} :
    run.contains code = true ↔ run.low ≤ code ∧ code ≤ run.high := by
  simp [contains]

/-- A code before the others begins a run of its own, or it is put in front of their
first run. -/
theorem ofCodes_cons (code : Int) (later : List Int) :
    ofCodes (code :: later) = ⟨code, code⟩ :: ofCodes later ∨
      ∃ run runs, ofCodes later = run :: runs ∧ run.low = code + 1 ∧
        ofCodes (code :: later) = ⟨code, run.high⟩ :: runs := by
  cases isLater : ofCodes later with
  | nil => exact .inl (by simp [ofCodes, isLater])
  | cons run runs =>
      by_cases joins : code + 1 = run.low
      · exact .inr ⟨run, runs, rfl, joins.symm, by simp [ofCodes, isLater, joins]⟩
      · exact .inl (by simp [ofCodes, isLater, joins])

theorem low_le_high_of_mem_ofCodes (member : run ∈ ofCodes codes) :
    run.low ≤ run.high := by
  induction codes generalizing run with
  | nil => simp [ofCodes] at member
  | cons code later induction =>
      cases ofCodes_cons code later with
      | inl isAlone =>
          rw [isAlone, List.mem_cons] at member
          cases member with
          | inl isFirst => simp [isFirst]
          | inr isLater => exact induction isLater
      | inr joined =>
          obtain ⟨first, runs, isLater, adjacent, isJoined⟩ := joined
          rw [isLater] at induction
          rw [isJoined, List.mem_cons] at member
          cases member with
          | inl isFirst =>
              have notEmpty := induction List.mem_cons_self
              simp only [isFirst]
              omega
          | inr isFurther => exact induction (List.mem_cons_of_mem first isFurther)

theorem exists_contains_ofCodes {code : Int} :
    (∃ run ∈ ofCodes codes, run.contains code = true) ↔ code ∈ codes := by
  induction codes with
  | nil => simp [ofCodes]
  | cons added later induction =>
      rw [List.mem_cons, ← induction]
      cases ofCodes_cons added later with
      | inl isAlone =>
          have isAdded : added ≤ code ∧ code ≤ added ↔ code = added := by omega
          simp [isAlone, contains_iff, isAdded]
      | inr joined =>
          obtain ⟨first, runs, isLater, adjacent, isJoined⟩ := joined
          have inLater : first ∈ ofCodes later := by simp [isLater]
          have notEmpty : first.low ≤ first.high := low_le_high_of_mem_ofCodes inLater
          have inJoined : added ≤ code ∧ code ≤ first.high ↔
              code = added ∨ first.low ≤ code ∧ code ≤ first.high := by
            omega
          simp [isJoined, isLater, contains_iff, inJoined, or_assoc]

end Run

namespace CodeSet

theorem mem_iff_exists_run {set : CodeSet} {code : Int} :
    code ∈ set ↔ ∃ run ∈ set.runs, run.contains code = true := by
  rw [runs, Run.exists_contains_ofCodes, mem_toList]

theorem runs_injective {left right : CodeSet} (same : left.runs = right.runs) :
    left = right := by
  apply ext
  intro code
  rw [mem_iff_exists_run, mem_iff_exists_run, same]

end CodeSet

/-! ## Decompositions -/

namespace Run

variable {run : Run} {runs others : List Run} {codes : Int → Prop} {code : Int}

section TakingUp

theorem takeUp_concat {last : Run} :
    takeUp (runs ++ [last]) code =
      if last.high + 1 = code then runs ++ [⟨last.low, code⟩]
      else runs ++ [last, ⟨code, code⟩] := by
  simp [takeUp]

/-- Only the last run may grow. -/
theorem takeUp_cons (notLast : runs ≠ []) :
    takeUp (run :: runs) code = run :: takeUp runs code := by
  cases List.eq_nil_or_concat runs with
  | inl isNil => exact absurd isNil notLast
  | inr split =>
      obtain ⟨earlier, last, rfl⟩ := split
      rw [List.concat_eq_append, ← List.cons_append, takeUp_concat, takeUp_concat]
      split
      · rfl
      · rfl

/-- Growing the runs at the back makes the same ones as growing them at the front. -/
theorem ofCodes_concat (codes : List Int) (code : Int) :
    ofCodes (codes ++ [code]) = takeUp (ofCodes codes) code := by
  induction codes with
  | nil => rfl
  | cons first later induction =>
      rw [List.cons_append, ofCodes, induction, ofCodes]
      cases ofCodes later with
      | nil => by_cases joins : first + 1 = code <;> simp [takeUp, joins]
      | cons run runs =>
          cases runs with
          | nil =>
              by_cases grows : run.high + 1 = code
              · by_cases joins : first + 1 = run.low <;> simp [takeUp, grows, joins]
              · by_cases joins : first + 1 = run.low <;> simp [takeUp, grows, joins]
          | cons next runs =>
              rw [takeUp_cons (List.cons_ne_nil next runs)]
              by_cases joins : first + 1 = run.low
              · simp [joins, takeUp_cons]
              · simp [joins, takeUp_cons]

theorem foldl_takeUp (codes : List Int) : codes.foldl takeUp [] = ofCodes codes := by
  induction codes using List.reverseRecOn with
  | nil => rfl
  | append_singleton earlier code induction =>
      rw [List.foldl_concat, induction, ofCodes_concat]

end TakingUp

/-- No run is empty, they ascend with a gap between any two, and together they hold
exactly these codes. -/
structure IsDecomposition (runs : List Run) (codes : Int → Prop) : Prop where
  low_le_high : ∀ run ∈ runs, run.low ≤ run.high
  apart : runs.IsChain fun earlier later => earlier.high + 1 < later.low
  holds_iff : ∀ code, (∃ run ∈ runs, run.contains code = true) ↔ codes code

namespace IsDecomposition

theorem nil : IsDecomposition [] fun _ => False := by
  constructor
  · simp
  · exact .nil
  · simp

theorem congr {others : Int → Prop} (isDecomposition : IsDecomposition runs codes)
    (same : ∀ code, codes code ↔ others code) : IsDecomposition runs others where
  low_le_high := isDecomposition.low_le_high
  apart := isDecomposition.apart
  holds_iff code := (isDecomposition.holds_iff code).trans (same code)

section Loop

theorem concat (isDecomposition : IsDecomposition runs codes)
    (gap : ∀ last ∈ runs.getLast?, last.high + 1 < code) :
    IsDecomposition (runs ++ [⟨code, code⟩]) fun held => codes held ∨ held = code := by
  constructor
  · intro run member
    rw [List.mem_append, List.mem_singleton] at member
    cases member with
    | inl isEarlier => exact isDecomposition.low_le_high run isEarlier
    | inr isAdded => simp [isAdded]
  · apply List.isChain_append.mpr
    exact ⟨isDecomposition.apart, .singleton _, by simpa using gap⟩
  · intro held
    have isAdded : code ≤ held ∧ held ≤ code ↔ held = code := by omega
    simp [← isDecomposition.holds_iff, or_and_right, exists_or, contains_iff, isAdded]

theorem grow {last : Run} (isDecomposition : IsDecomposition (runs ++ [last]) codes) :
    IsDecomposition (runs ++ [⟨last.low, last.high + 1⟩])
      fun held => codes held ∨ held = last.high + 1 := by
  obtain ⟨low_le_high, apart, holds_iff⟩ := isDecomposition
  have notEmpty : last.low ≤ last.high := low_le_high last (by simp)
  constructor
  · intro run member
    rw [List.mem_append, List.mem_singleton] at member
    cases member with
    | inl isEarlier => exact low_le_high run (List.mem_append_left _ isEarlier)
    | inr isLast =>
        simp only [isLast]
        omega
  · obtain ⟨earlierApart, _, gap⟩ := List.isChain_append.mp apart
    apply List.isChain_append.mpr
    exact ⟨earlierApart, .singleton _, by simpa using gap⟩
  · intro held
    have inLast : last.low ≤ held ∧ held ≤ last.high + 1 ↔
        (last.low ≤ held ∧ held ≤ last.high) ∨ held = last.high + 1 := by
      omega
    simp [← holds_iff, or_and_right, exists_or, contains_iff, inLast, or_assoc]

theorem takeUp (isDecomposition : IsDecomposition runs codes)
    (above : ∀ held, codes held → held < code) :
    IsDecomposition (takeUp runs code) fun held => codes held ∨ held = code := by
  cases List.eq_nil_or_concat runs with
  | inl isNil =>
      subst isNil
      exact isDecomposition.concat (by simp)
  | inr split =>
      obtain ⟨earlier, last, rfl⟩ := split
      rw [List.concat_eq_append] at isDecomposition ⊢
      have lastBelow : last.high < code := by
        apply above
        apply (isDecomposition.holds_iff last.high).mp
        have notEmpty : last.low ≤ last.high :=
          isDecomposition.low_le_high last (by simp)
        exact ⟨last, by simp, contains_iff.mpr ⟨notEmpty, Int.le_refl _⟩⟩
      rw [takeUp_concat]
      split
      case isTrue grows =>
        subst grows
        exact isDecomposition.grow
      case isFalse begins =>
        have behindGap : ∀ other ∈ (earlier ++ [last]).getLast?, other.high + 1 < code := by
          simp only [List.getLast?_concat, Option.mem_def, Option.some.injEq, forall_eq']
          omega
        have added := isDecomposition.concat behindGap
        simpa using added

/-- Taking up ascending codes one after the other keeps the runs apart. -/
theorem foldl_takeUp {later : List Int} (isDecomposition : IsDecomposition runs codes)
    (ascending : later.Pairwise (· < ·))
    (above : ∀ held, codes held → ∀ code ∈ later, held < code) :
    IsDecomposition (later.foldl Run.takeUp runs) fun held => codes held ∨ held ∈ later := by
  induction later generalizing runs codes with
  | nil => simpa using isDecomposition
  | cons code later induction =>
      obtain ⟨belowLater, laterAscending⟩ := List.pairwise_cons.mp ascending
      have next := isDecomposition.takeUp fun held isHeld =>
        above held isHeld code List.mem_cons_self
      have further := induction next laterAscending (by
        intro held isHeld other inLater
        cases isHeld with
        | inl isEarlier => exact above held isEarlier other (List.mem_cons_of_mem code inLater)
        | inr isCode => exact isCode ▸ belowLater other inLater)
      exact further.congr fun held => by rw [List.mem_cons, or_assoc]

theorem ofCodes {codes : List Int} (ascending : codes.Pairwise (· < ·)) :
    IsDecomposition (ofCodes codes) (· ∈ codes) := by
  rw [← Run.foldl_takeUp]
  exact (nil.foldl_takeUp ascending (by simp)).congr (by simp)

end Loop

section Unique

theorem high_lt_low (isDecomposition : IsDecomposition (run :: runs) codes) :
    ∀ later ∈ runs, run.high + 1 < later.low := by
  have low_le_high := isDecomposition.low_le_high
  have apart := isDecomposition.apart
  clear isDecomposition
  induction runs generalizing run with
  | nil => simp
  | cons next runs induction =>
      obtain ⟨gap, laterApart⟩ := List.isChain_cons.mp apart
      have beforeNext : run.high + 1 < next.low := gap next rfl
      have notEmpty : next.low ≤ next.high := low_le_high next (by simp)
      intro later member
      cases List.mem_cons.mp member with
      | inl isNext => exact isNext ▸ beforeNext
      | inr inLater =>
          have behindNext := induction
            (fun run member => low_le_high run (List.mem_cons_of_mem _ member)) laterApart
            later inLater
          omega

theorem tail (isDecomposition : IsDecomposition (run :: runs) codes) :
    IsDecomposition runs fun code => codes code ∧ run.high < code := by
  have behind := isDecomposition.high_lt_low
  obtain ⟨low_le_high, apart, holds_iff⟩ := isDecomposition
  refine ⟨fun later member => low_le_high later (List.mem_cons_of_mem run member),
    apart.tail, ?_⟩
  intro code
  rw [← holds_iff]
  constructor
  · intro isHeld
    obtain ⟨later, member, holds⟩ := isHeld
    have gap := behind later member
    have within := contains_iff.mp holds
    exact ⟨⟨later, List.mem_cons_of_mem run member, holds⟩, by omega⟩
  · intro isHeld
    obtain ⟨⟨later, member, holds⟩, isAbove⟩ := isHeld
    cases List.mem_cons.mp member with
    | inl isFirst =>
        have within := contains_iff.mp holds
        rw [isFirst] at within
        omega
    | inr inLater => exact ⟨later, inLater, holds⟩

theorem low_le (isDecomposition : IsDecomposition (run :: runs) codes)
    (isHeld : codes code) : run.low ≤ code := by
  have behind := isDecomposition.high_lt_low
  have notEmpty : run.low ≤ run.high := isDecomposition.low_le_high run (by simp)
  obtain ⟨holder, member, holds⟩ := (isDecomposition.holds_iff code).mpr isHeld
  have within := contains_iff.mp holds
  cases List.mem_cons.mp member with
  | inl isFirst => exact isFirst ▸ within.1
  | inr inLater =>
      have gap := behind holder inLater
      omega

theorem holds_between (isDecomposition : IsDecomposition (run :: runs) codes)
    (isAbove : run.low ≤ code) (isBelow : code ≤ run.high) : codes code :=
  (isDecomposition.holds_iff code).mp
    ⟨run, List.mem_cons_self, contains_iff.mpr ⟨isAbove, isBelow⟩⟩

/-- The first run ends where the next code is missing. -/
theorem gap (isDecomposition : IsDecomposition (run :: runs) codes) :
    ¬ codes (run.high + 1) := by
  intro isHeld
  obtain ⟨later, member, holds⟩ :=
    (isDecomposition.tail.holds_iff (run.high + 1)).mpr ⟨isHeld, by omega⟩
  have behind := isDecomposition.high_lt_low later member
  have within := contains_iff.mp holds
  omega

/-- First runs of the same codes begin alike, and neither ends before the other. -/
theorem head_eq {other : Run} (left : IsDecomposition (run :: runs) codes)
    (right : IsDecomposition (other :: others) codes) : run = other := by
  have leftNotEmpty : run.low ≤ run.high := left.low_le_high run (by simp)
  have rightNotEmpty : other.low ≤ other.high := right.low_le_high other (by simp)
  have sameLow : run.low = other.low := by
    apply Int.le_antisymm
    · exact left.low_le (right.holds_between (Int.le_refl _) rightNotEmpty)
    · exact right.low_le (left.holds_between (Int.le_refl _) leftNotEmpty)
  have sameHigh : run.high = other.high := by
    apply Int.le_antisymm
    · apply Int.not_lt.mp
      intro longer
      exact right.gap (left.holds_between (by omega) (by omega))
    · apply Int.not_lt.mp
      intro longer
      exact left.gap (right.holds_between (by omega) (by omega))
  cases run
  cases other
  exact congrArg₂ Run.mk sameLow sameHigh

theorem not_nil (isDecomposition : IsDecomposition (run :: runs) codes) :
    ¬ IsDecomposition [] codes := by
  intro isNil
  have notEmpty : run.low ≤ run.high := isDecomposition.low_le_high run (by simp)
  have isHeld := isDecomposition.holds_between (Int.le_refl run.low) notEmpty
  simpa using (isNil.holds_iff run.low).mpr isHeld

/-- Codes have one decomposition into runs at most. -/
theorem unique (left : IsDecomposition runs codes) (right : IsDecomposition others codes) :
    runs = others := by
  induction runs generalizing others codes with
  | nil =>
      cases others with
      | nil => rfl
      | cons other others => exact absurd left right.not_nil
  | cons run runs induction =>
      cases others with
      | nil => exact absurd right left.not_nil
      | cons other others =>
          have sameFirst : run = other := left.head_eq right
          subst sameFirst
          rw [induction left.tail right.tail]

end Unique

end IsDecomposition

end Run

namespace CodeSet

theorem mem_ofRuns {runs : List Run} {code : Int} :
    code ∈ ofRuns runs ↔
      (∃ run ∈ runs, run.contains code = true) ∧ code ∈ Code.domain := by
  have addsTo (set : CodeSet) :
      code ∈ runs.foldl (fun set run => set ∪ range run.low run.high) set ↔
        code ∈ set ∨ (∃ run ∈ runs, run.contains code = true) ∧ code ∈ Code.domain := by
    induction runs generalizing set with
    | nil => simp
    | cons run runs induction =>
        rw [List.foldl_cons, induction, mem_union, mem_range, ← Run.contains_iff,
          List.exists_mem_cons_iff, or_and_right, or_assoc]
  simpa [ofRuns] using addsTo ∅

/-- The runs of a set come of its codes taken up one after the other.  They are not
empty, ascend with gaps and hold exactly the members of the set, and nothing else does
so.  The union of their ranges is the set. -/
theorem isDecomposition_iff_eq_runs (set : CodeSet) :
    set.toList.foldl Run.takeUp [] = set.runs ∧
    (∀ runs, Run.IsDecomposition runs (· ∈ set) ↔ runs = set.runs) ∧
    ofRuns set.runs = set := by
  have isDecomposition : Run.IsDecomposition set.runs (· ∈ set) :=
    (Run.IsDecomposition.ofCodes set.toList_ascending).congr fun _ => mem_toList
  refine ⟨Run.foldl_takeUp set.toList, ?_, ?_⟩
  · intro runs
    constructor
    · intro isOther
      exact isOther.unique isDecomposition
    · intro isRuns
      exact isRuns ▸ isDecomposition
  · apply ext
    intro code
    rw [mem_ofRuns, isDecomposition.holds_iff]
    exact ⟨And.left, fun member => ⟨member, mem_domain_of_mem member⟩⟩

example : (CodeSet.ofList [97, -1, 32, 255, 0]).runs =
    [⟨-1, 0⟩, ⟨32, 32⟩, ⟨97, 97⟩, ⟨255, 255⟩] := by
  decide +kernel

end CodeSet

end LexGen
