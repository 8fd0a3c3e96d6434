import LexGen.Assembly.Scan
import LexGen.Automaton.Matching
import LexGen.Proofs.Assembly.TopLevel
import LexGen.Proofs.LongestMatch
import LexGen.Proofs.Recognizer

/-!
# Progress in the bodies of comments

On a byte the longest match in a body takes one code at least: the byte alone is
accepted, whatever the marks do.  A loop that takes such matches off its input
therefore runs through all bytes, and only the end of the comment stops it before.
-/

namespace LexGen

variable {ι : Type}

namespace Automaton

/-- The longest match on every input that begins with a byte takes a code. -/
def TakesBytes (automaton : Automaton ι) : Prop :=
  ∀ code later, 0 ≤ code ∧ code ≤ 255 →
    ∃ length item,
      automaton.longestMatch (code :: later) = .ok (some (length, item)) ∧
        0 < length

section Loops

variable {automaton : Automaton ι}

/-- What holds of an input on which the longest match takes nothing, and of an input
if it holds after the longest match, holds of every input.  Where bytes are taken,
none are left when nothing is taken. -/
theorem TakesBytes.induction (takes : automaton.TakesBytes)
    (closed : automaton.IsClosed) {motive : List Int → List Int → Prop}
    (stops : ∀ later answer, automaton.longestMatch later = .ok answer →
      (∀ found ∈ answer, found.1 = 0) → motive [] later)
    (goesOn : ∀ bytes later length item,
      automaton.longestMatch (bytes ++ later) = .ok (some (length, item)) →
        0 < length → length ≤ (bytes ++ later).length →
          motive (bytes.drop length) (later.drop (length - bytes.length)) →
            motive bytes later)
    (bytes later : List Int) (areBytes : ∀ code ∈ bytes, 0 ≤ code ∧ code ≤ 255) :
    motive bytes later := by
  obtain ⟨answer, isMatch, longest⟩ :=
    closed.longestMatch_isLongest (bytes ++ later)
  by_cases progress : ∃ found ∈ answer, 0 < found.1
  · obtain ⟨found, isFound, positive⟩ := progress
    obtain ⟨length, item⟩ := found
    cases isFound
    have bound : length ≤ (bytes ++ later).length := longest.1
    apply goesOn bytes later length item isMatch positive bound
    have areStill : ∀ code ∈ bytes.drop length, 0 ≤ code ∧ code ≤ 255 := by
      intro code member
      exact areBytes code (List.mem_of_mem_drop member)
    exact takes.induction closed stops goesOn _ _ areStill
  · have nothing : ∀ found ∈ answer, found.1 = 0 := by
      intro found isFound
      apply Nat.eq_zero_of_not_pos
      intro positive
      exact progress ⟨found, isFound, positive⟩
    cases bytes with
    | nil => exact stops later answer isMatch nothing
    | cons code bytes =>
        obtain ⟨length, item, isTaken, positive⟩ :=
          takes code (bytes ++ later) (areBytes code List.mem_cons_self)
        rw [List.cons_append, isTaken] at isMatch
        cases isMatch
        exact absurd ⟨_, rfl, positive⟩ progress
termination_by bytes.length + later.length
decreasing_by
  simp only [List.length_append, List.length_drop] at *
  omega

theorem TakesBytes.exists_munch (takes : automaton.TakesBytes)
    (closed : automaton.IsClosed) (bytes later : List Int)
    (areBytes : ∀ code ∈ bytes, 0 ≤ code ∧ code ≤ 255) :
    ∃ taken left, automaton.munch (bytes ++ later) = .ok (taken, left) ∧
      (∀ found ∈ taken, 1 ≤ found.1) ∧
      left = (bytes ++ later).drop (taken.map Prod.fst).sum ∧
      left <:+ later := by
  apply takes.induction closed ?stops ?goesOn bytes later areBytes
  case stops =>
    intro later answer isMatch nothing
    refine ⟨[], later, ?_, List.forall_mem_nil _, rfl, List.suffix_refl later⟩
    rw [List.nil_append, munch, isMatch]
    cases answer with
    | none => rfl
    | some found =>
        obtain ⟨length, item⟩ := found
        have isZero : length = 0 := nothing (length, item) rfl
        subst isZero
        rfl
  case goesOn =>
    intro bytes later length item isMatch positive bound further
    obtain ⟨taken, left, munches, areTaken, isLeft, isSuffix⟩ := further
    rw [← List.drop_append] at munches isLeft
    refine ⟨(length, item) :: taken, left, ?munches, ?areTaken, ?isLeft,
      isSuffix.trans (List.drop_suffix _ later)⟩
    case munches =>
      rw [munch, isMatch]
      simp only [bind, Except.bind, positive, bound, and_self, dite_true, munches]
      rfl
    case areTaken => exact List.forall_mem_cons.mpr ⟨positive, areTaken⟩
    case isLeft =>
      rw [List.map_cons, List.sum_cons, ← List.drop_drop]
      exact isLeft

theorem TakesBytes.exists_scanBody {body : Automaton Nat} (takes : body.TakesBytes)
    (closed : body.IsClosed) (closeNumber depth : Nat) (bytes later : List Int)
    (areBytes : ∀ code ∈ bytes, 0 ≤ code ∧ code ≤ 255) :
    ∃ taken depthLeft,
      scanBody body closeNumber depth (bytes ++ later) = .ok (taken, depthLeft) ∧
        (depthLeft = 0 ∨ bytes.length ≤ taken) := by
  revert depth
  apply takes.induction closed ?stops ?goesOn bytes later areBytes
  case stops =>
    intro later answer isMatch nothing depth
    by_cases hasEnded : depth = 0
    · refine ⟨0, 0, ?_, Or.inl rfl⟩
      rw [scanBody, if_pos hasEnded]
      rfl
    · rw [List.nil_append, scanBody, if_neg hasEnded, isMatch]
      cases answer with
      | none => exact ⟨0, depth, rfl, Or.inr (Nat.le_refl 0)⟩
      | some found =>
          obtain ⟨length, item⟩ := found
          have isZero : length = 0 := nothing (length, item) rfl
          subst isZero
          exact ⟨0, _, rfl, Or.inr (Nat.le_refl 0)⟩
  case goesOn =>
    intro bytes later length item isMatch positive bound further depth
    by_cases hasEnded : depth = 0
    · refine ⟨0, 0, ?_, Or.inl rfl⟩
      rw [scanBody, if_pos hasEnded]
      rfl
    · obtain ⟨taken, depthLeft, scans, passes⟩ :=
        further (depthAfter closeNumber depth item)
      rw [← List.drop_append] at scans
      refine ⟨length + taken, depthLeft, ?_, ?_⟩
      · rw [scanBody, if_neg hasEnded, isMatch]
        simp only [bind, Except.bind, positive, bound, and_self, dite_true, scans]
        rfl
      · apply passes.imp_right
        intro enough
        rw [List.length_drop] at enough
        omega

end Loops

/-- On a byte the longest match of a body takes a code, and reports 0 or the number of a
mark whose own recogniser accepts the prefix.  Neither munching nor scanning gets stuck
before the bytes have been passed.  What munching leaves is the input without the
lengths it took. -/
structure AdvancesOnBytes (body : Automaton Nat) (marks : List (Nat × Regex)) :
    Prop where
  exists_match : ∀ code later, 0 ≤ code ∧ code ≤ 255 →
    ∃ length item,
      body.longestMatch (code :: later) = .ok (some (length, item)) ∧
        1 ≤ length ∧ length ≤ (code :: later).length ∧
        (item = 0 ∨ ∃ mark, (item, mark) ∈ marks ∧
          mark.acceptsAlone ((code :: later).take length) = true)
  munch_passes : ∀ bytes later, (∀ code ∈ bytes, 0 ≤ code ∧ code ≤ 255) →
    ∃ taken left, body.munch (bytes ++ later) = .ok (taken, left) ∧
      (∀ found ∈ taken, 1 ≤ found.1) ∧
      left = (bytes ++ later).drop (taken.map Prod.fst).sum ∧
      left <:+ later
  scanBody_passes : ∀ closeNumber depth bytes later,
    (∀ code ∈ bytes, 0 ≤ code ∧ code ≤ 255) →
      ∃ taken depthLeft,
        scanBody body closeNumber depth (bytes ++ later) =
            .ok (taken, depthLeft) ∧
          (depthLeft = 0 ∨ bytes.length ≤ taken)

end Automaton

open Automaton

open scoped Classical in
/-- The step of a scan: a byte alone is accepted, so that the longest match on it takes
a code, and what is accepted as a mark is accepted by the mark alone. -/
theorem exists_match_of_byte {body : Automaton Nat} {marks : List (Nat × Regex)}
    (closed : body.IsClosed)
    (accepts : ∀ word, body.accept? word =
      .ok (if Code.isByteWord word then some 0
        else (marks.find? fun entry => entry.2.Flows .entry word .exit).map
          Prod.fst))
    (code : Int) (later : List Int) (isByte : 0 ≤ code ∧ code ≤ 255) :
    ∃ length item,
      body.longestMatch (code :: later) = .ok (some (length, item)) ∧
        1 ≤ length ∧ length ≤ (code :: later).length ∧
        (item = 0 ∨ ∃ mark, (item, mark) ∈ marks ∧
          mark.acceptsAlone ((code :: later).take length) = true) := by
  have isByteWord : Code.isByteWord [code] = true := CodeSet.mem_all.mpr isByte
  have alone : body.accept? [code] = .ok (some 0) := by
    rw [accepts, if_pos isByteWord]
  obtain ⟨length, item, isMatch, positive⟩ := closed.le_longestMatch alone later
  obtain ⟨bound, accepted, _⟩ := closed.longestMatch_eq_ok_iff.mp isMatch
  refine ⟨length, item, isMatch, positive, bound, ?_⟩
  rw [acceptFrom?_start, accepts] at accepted
  split at accepted
  next byte =>
    cases accepted
    exact Or.inl rfl
  next noByte =>
    right
    obtain ⟨entry, isFirst, isItem⟩ :=
      Option.map_eq_some_iff.mp (Except.ok.inj accepted)
    have flows : entry.2.Flows .entry ((code :: later).take length) .exit := by
      have isFlowing := List.find?_some isFirst
      exact of_decide_eq_true isFlowing
    refine ⟨entry.2, ?_, Regex.acceptsAlone_iff_flows.mpr flows⟩
    rw [← isItem]
    exact List.mem_of_find?_eq_some isFirst

theorem recognizer_advancesOnBytes {marks : List (Nat × Regex)}
    (ascending : marks.Pairwise fun earlier later => earlier.1 ≤ later.1) :
    ∃ body, recognizer ((0, .oneOf .all) :: marks) = .ok body ∧
      body.AdvancesOnBytes marks := by
  obtain ⟨body, isBody, accepts⟩ := recognizer_accept?_of_bytes ascending
  have closed : body.IsClosed := (ofItems_isClosed _).determinize_isClosed isBody
  have takes : body.TakesBytes := by
    intro code later isByte
    obtain ⟨length, item, isMatch, positive, _⟩ :=
      exists_match_of_byte closed accepts code later isByte
    exact ⟨length, item, isMatch, positive⟩
  exact ⟨body, isBody, exists_match_of_byte closed accepts,
    takes.exists_munch closed, takes.exists_scanBody closed⟩

/-- Whatever the marks are, no byte holds up the scanning of a body.  Its longest match
on a byte takes a code or more, as a byte or as a mark that accepts the prefix alone. -/
theorem bodies_advance_on_bytes (opening close : Regex) :
    ∃ body nestedBody,
      bodyRecognizer close = .ok body ∧
      nestedBodyRecognizer opening close = .ok nestedBody ∧
      body.AdvancesOnBytes [(1, close)] ∧
      nestedBody.AdvancesOnBytes [(1, opening), (2, close)] := by
  have oneMark : [(1, close)].Pairwise
      fun earlier later => earlier.1 ≤ later.1 := by
    simp
  have twoMarks : [(1, opening), (2, close)].Pairwise
      fun earlier later => earlier.1 ≤ later.1 := by
    simp
  obtain ⟨body, isBody, advances⟩ := recognizer_advancesOnBytes oneMark
  obtain ⟨nestedBody, isNestedBody, nestedAdvances⟩ :=
    recognizer_advancesOnBytes twoMarks
  exact ⟨body, nestedBody, isBody, isNestedBody, advances, nestedAdvances⟩

/-- The closing mark accepts the empty word, and reads two codes in vain.  The end of the
stream is no byte and is left. -/
example :
    let close : Regex := .many (.literal "abc")
    (bodyRecognizer close >>= fun body => body.munch [97, 98, 120, -1]) =
      .ok ([(1, 0), (1, 0), (1, 0)], [-1]) := by
  decide +kernel

end LexGen
