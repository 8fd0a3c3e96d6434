import LexGen.Proofs.Thompson.Items
import LexGen.Recognizer

/-!
# Items in the order of their priority

Recognisers are given their items in ascending order.  What they accept is then
the first item whose expression a word flows through, and a recogniser of one
expression tells whether a word flows through it.

Any byte is the first item of a body, so that it wins over a mark that is a
single byte.  All other words are accepted as the mark whose own recogniser
accepts them, the opening mark before the closing one.
-/

namespace LexGen

theorem Regex.flows_oneOf_iff {set : CodeSet} {member : Int}
    (inhabited : member ∈ set) {word : List Int} :
    (oneOf set).Flows .entry word .exit ↔ ∃ code ∈ set, word = [code] := by
  rw [Flows, Flow.wire_crossing_iff]
  apply or_iff_right
  intro isFree
  rw [CodeSet.isEmpty_iff.mp isFree.1] at inhabited
  exact CodeSet.not_mem_empty inhabited

variable {ι : Type} [LE ι] [DecidableLE ι] [Std.IsLinearOrder ι]

open scoped Classical in
theorem recognizer_accept? {items : List (ι × Regex)}
    (ascending : items.Pairwise fun earlier later => earlier.1 ≤ later.1) :
    ∃ automaton, recognizer items = .ok automaton ∧
      ∀ word, automaton.accept? word =
        .ok ((items.find? fun entry => entry.2.Flows .entry word .exit).map
          Prod.fst) := by
  obtain ⟨automaton, isDeterminized, accepts⟩ :=
    Automaton.ofItems_accept? items .breadthFirst
  refine ⟨automaton, isDeterminized, ?_⟩
  intro word
  obtain ⟨answer, isAnswer, smallest⟩ := accepts word
  rw [isAnswer]
  have isFirst := IsSmallest.find?
    (fun regex : Regex => decide (regex.Flows .entry word .exit)) ascending
  simp only [decide_eq_true_eq] at isFirst
  rw [smallest.unique isFirst]

open scoped Classical in
theorem recognizer_singleton_accept? (item : ι) (regex : Regex) :
    ∃ automaton, recognizer [(item, regex)] = .ok automaton ∧
      ∀ word, automaton.accept? word =
        .ok (if regex.Flows .entry word .exit then some item else none) := by
  obtain ⟨automaton, isRecognizer, accepts⟩ :=
    recognizer_accept? (List.pairwise_singleton _ (item, regex))
  refine ⟨automaton, isRecognizer, ?_⟩
  intro word
  rw [accepts word]
  by_cases flows : regex.Flows .entry word .exit
  · simp [flows]
  · simp [flows]

/-! ## Bodies of comments -/

def Code.isByteWord : List Int → Bool
  | [code] => CodeSet.all.contains code
  | _ => false

namespace Regex

theorem flows_all_iff {word : List Int} :
    (oneOf .all).Flows .entry word .exit ↔ Code.isByteWord word = true := by
  have hasByte : (0 : Int) ∈ CodeSet.all :=
    CodeSet.mem_range.mpr ⟨by decide, by decide⟩
  rw [flows_oneOf_iff hasByte]
  constructor
  · intro passes
    obtain ⟨code, member, isWord⟩ := passes
    subst isWord
    exact member
  · intro isByte
    cases word with
    | nil => cases isByte
    | cons code later =>
        cases later with
        | nil => exact ⟨code, isByte, rfl⟩
        | cons next later => cases isByte

end Regex

open scoped Classical in
/-- Where any byte is the first item, it hides the others on single bytes and on
no other words. -/
theorem recognizer_accept?_of_bytes {marks : List (Nat × Regex)}
    (ascending : marks.Pairwise fun earlier later => earlier.1 ≤ later.1) :
    ∃ body, recognizer ((0, .oneOf .all) :: marks) = .ok body ∧
      ∀ word, body.accept? word =
        .ok (if Code.isByteWord word then some 0
          else (marks.find? fun entry => entry.2.Flows .entry word .exit).map
            Prod.fst) := by
  have allAscending : ((0, .oneOf .all) :: marks).Pairwise
      fun earlier later => earlier.1 ≤ later.1 :=
    List.pairwise_cons.mpr ⟨fun entry _ => Nat.zero_le entry.1, ascending⟩
  obtain ⟨body, isBody, accepts⟩ := recognizer_accept? allAscending
  refine ⟨body, isBody, ?_⟩
  intro word
  rw [accepts word, List.find?_cons]
  by_cases isByte : Code.isByteWord word = true
  · simp [Regex.flows_all_iff, isByte]
  · simp [Regex.flows_all_iff, isByte]

/-- A body accepts a single byte as such, and any other word as the mark that a
recogniser of the mark alone accepts it as: an opening mark, if the body may
hold further comments, or else a closing one. -/
theorem bodies_accept_marks (opening close : Regex) :
    ∃ ownOpening ownClose body nestedBody : Automaton Nat,
      recognizer [(0, opening)] = .ok ownOpening ∧
      recognizer [(0, close)] = .ok ownClose ∧
      bodyRecognizer close = .ok body ∧
      nestedBodyRecognizer opening close = .ok nestedBody ∧
      ∀ word, ∃ byOpening byClose : Option Nat,
        ownOpening.accept? word = .ok byOpening ∧
        ownClose.accept? word = .ok byClose ∧
        body.accept? word =
          .ok (if Code.isByteWord word then some 0
            else if byClose.isSome then some 1
            else none) ∧
        nestedBody.accept? word =
          .ok (if Code.isByteWord word then some 0
            else if byOpening.isSome then some 1
            else if byClose.isSome then some 2
            else none) := by
  classical
  obtain ⟨ownOpening, isOwnOpening, onOpening⟩ :=
    recognizer_singleton_accept? (0 : Nat) opening
  obtain ⟨ownClose, isOwnClose, onClose⟩ :=
    recognizer_singleton_accept? (0 : Nat) close
  have oneMark : [(1, close)].Pairwise
      fun earlier later => earlier.1 ≤ later.1 := by
    simp
  have twoMarks : [(1, opening), (2, close)].Pairwise
      fun earlier later => earlier.1 ≤ later.1 := by
    simp
  obtain ⟨body, isBody, onBody⟩ := recognizer_accept?_of_bytes oneMark
  obtain ⟨nestedBody, isNestedBody, onNestedBody⟩ :=
    recognizer_accept?_of_bytes twoMarks
  refine ⟨ownOpening, ownClose, body, nestedBody, isOwnOpening, isOwnClose,
    isBody, isNestedBody, ?_⟩
  intro word
  refine ⟨_, _, onOpening word, onClose word, ?_, ?_⟩
  · rw [onBody word]
    by_cases isClose : close.Flows .entry word .exit
    · simp [isClose]
    · simp [isClose]
  · rw [onNestedBody word]
    by_cases isOpening : opening.Flows .entry word .exit
    · simp [isOpening]
    · by_cases isClose : close.Flows .entry word .exit
      · simp [isOpening, isClose]
      · simp [isOpening, isClose]

/-- A brace that closes a comment is taken for any other byte of the body, and a
comment between braces never ends. -/
theorem one_byte_marks_are_bytes :
    let opening : Regex := .literal "\x7b"
    let close : Regex := .literal "\x7d"
    (recognizer [((0 : Nat), close)] >>= fun own => own.accept? [125]) =
        .ok (some 0) ∧
      (recognizer [((0 : Nat), opening)] >>= fun own => own.accept? [125]) =
        .ok none ∧
      (recognizer [((0 : Nat), opening)] >>= fun own => own.accept? [123]) =
        .ok (some 0) ∧
      (bodyRecognizer close >>= fun body => body.accept? [125]) =
        .ok (some 0) ∧
      (nestedBodyRecognizer opening close >>= fun body => body.accept? [125]) =
        .ok (some 0) ∧
      (nestedBodyRecognizer opening close >>= fun body => body.accept? [123]) =
        .ok (some 0) := by
  decide +kernel

end LexGen
