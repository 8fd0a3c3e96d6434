import LexGen.Proofs.CodeSet.Runs
import LexGen.Proofs.Unambiguous

/-!
# Printed code sets are unambiguous

The end of the stream, a character in quotes and a number begin differently, and a
number ends where no digit follows.  A run is told from a single code by the dash
after its first code.  So the text of a code set ends at its closing brace and
determines the set.
-/

namespace LexGen

open Text

namespace Code

/-- How a code is written. -/
inductive IsShownAs (code : Int) : List Char → Prop where
  | endOfStream (isEnd : code = Code.endOfStream) : IsShownAs code ['e', 'o', 's']
  | character {shown : Char} (isCode : code = shown.toNat) :
      IsShownAs code ['\'', shown, '\'']
  | natural {value : Nat} (isCode : code = value) :
      IsShownAs code (Nat.toDigits 10 value)
  | negative {value : Nat} (isCode : code = -value) :
      IsShownAs code ('-' :: Nat.toDigits 10 value)

theorem isShownAs_toString (code : Int) : IsShownAs code (toString code).toList := by
  rw [Int.toString_eq_repr, Int.repr_eq_if]
  by_cases isNatural : 0 ≤ code
  · have isCode : code = code.toNat := by omega
    simpa [isNatural, Nat.toList_repr] using IsShownAs.natural isCode
  · have isCode : code = -(-code).toNat := by omega
    simpa [isNatural, Nat.toList_repr] using IsShownAs.negative isCode

theorem isShownAs_render (code : Int) : IsShownAs code (render code).toList := by
  have isAscii : ∀ value < 0x7f, (Char.ofNat value).toNat = value := by decide
  unfold render
  split
  case isTrue isEnd => simpa using IsShownAs.endOfStream isEnd
  case isFalse notEnd =>
    split
    case isTrue isShown =>
      simp only [isShownAsCharacter, Bool.and_eq_true, decide_eq_true_eq] at isShown
      have isCode : code = (Char.ofNat code.toNat).toNat := by
        rw [isAscii code.toNat (by omega)]
        omega
      simpa using IsShownAs.character isCode
    case isFalse notShown => exact isShownAs_toString code

theorem isDigit_of_mem_toDigits {value : Nat} :
    ∀ character ∈ Nat.toDigits 10 value, character.isDigit = true :=
  fun _ member => Nat.isDigit_of_mem_toDigits (by decide) (by decide) member

theorem exists_digit_cons (value : Nat) :
    ∃ first later, Nat.toDigits 10 value = first :: later ∧ first.isDigit = true := by
  cases isDigits : Nat.toDigits 10 value with
  | nil => exact absurd isDigits Nat.toDigits_ne_nil
  | cons first later =>
      have member : first ∈ Nat.toDigits 10 value := by simp [isDigits]
      exact ⟨first, later, rfl, isDigit_of_mem_toDigits first member⟩

def readNatural (text : List Char) : Nat × List Char :=
  (Nat.ofDigitChars 10 (text.takeWhile Char.isDigit) 0, text.dropWhile Char.isDigit)

def read : List Char → Int × List Char
  | 'e' :: _ :: _ :: rest => (endOfStream, rest)
  | '\'' :: shown :: _ :: rest => (shown.toNat, rest)
  | '-' :: text => (-(readNatural text).1, (readNatural text).2)
  | text => ((readNatural text).1, (readNatural text).2)

theorem readNatural_toDigits (value : Nat) {rest : List Char}
    (mayFollow : StartsOutside Char.isDigit rest) :
    readNatural (Nat.toDigits 10 value ++ rest) = (value, rest) := by
  have noDigit : rest.takeWhile Char.isDigit = [] ∧ rest.dropWhile Char.isDigit = rest := by
    cases rest with
    | nil => simp
    | cons first rest =>
        have isOutside := mayFollow first (by simp)
        simp [isOutside]
  rw [readNatural, List.takeWhile_append_of_pos isDigit_of_mem_toDigits,
    List.dropWhile_append_of_pos isDigit_of_mem_toDigits, noDigit.1, noDigit.2,
    List.append_nil, Nat.ofDigitChars_ten_toDigits]

theorem toDigits_determines (value : Nat) :
    Determines (Nat.toDigits 10) Eq (StartsOutside Char.isDigit) value :=
  determines_of_reads (fun value _ mayFollow => readNatural_toDigits value mayFollow) value

theorem read_of_isDigit {first : Char} {later : List Char} (isDigit : first.isDigit = true) :
    read (first :: later) =
      (((readNatural (first :: later)).1 : Int), (readNatural (first :: later)).2) := by
  apply read.eq_4
  · intro _ _ _ isEnd
    simp [(List.cons.inj isEnd).1] at isDigit
  · intro _ _ _ isQuote
    simp [(List.cons.inj isQuote).1] at isDigit
  · intro _ isDash
    simp [(List.cons.inj isDash).1] at isDigit

theorem IsShownAs.read_append {code : Int} {text rest : List Char}
    (isShown : IsShownAs code text) (mayFollow : StartsOutside Char.isDigit rest) :
    read (text ++ rest) = (code, rest) := by
  cases isShown with
  | endOfStream isEnd => simp [read, isEnd]
  | character isCode => simp [read, isCode]
  | @natural value isCode =>
      obtain ⟨first, later, isDigits, isDigit⟩ := exists_digit_cons value
      have isRead := readNatural_toDigits value mayFollow
      rw [isDigits, List.cons_append] at isRead ⊢
      rw [read_of_isDigit isDigit, isRead, isCode]
  | negative isCode => simp [read, readNatural_toDigits _ mayFollow, isCode]

theorem toString_injective : Function.Injective (toString : Int → String) := by
  intro code other same
  have noDigit : StartsOutside Char.isDigit [] := by simp [StartsOutside]
  have isRead := (isShownAs_toString code).read_append noDigit
  rw [same, (isShownAs_toString other).read_append noDigit] at isRead
  exact (Prod.mk.inj isRead).1.symm

/-- The text of a code ends where no digit follows. -/
theorem render_determines (code : Int) :
    Determines (fun code => (render code).toList) Eq (StartsOutside Char.isDigit) code :=
  determines_of_reads (fun code _ mayFollow => (isShownAs_render code).read_append mayFollow) code

def isMark (character : Char) : Bool :=
  character == 'e' || character == '\'' || character == '-' || character.isDigit

theorem IsShownAs.isMark_head {code : Int} {text : List Char}
    (isShown : IsShownAs code text) (tail : List Char) :
    ∃ first, (text ++ tail).head? = some first ∧ isMark first = true := by
  cases isShown with
  | endOfStream _ => exact ⟨'e', rfl, rfl⟩
  | character _ => exact ⟨'\'', rfl, rfl⟩
  | @natural value _ =>
      obtain ⟨first, later, isDigits, isDigit⟩ := exists_digit_cons value
      exact ⟨first, by simp [isDigits], by simp [isMark, isDigit]⟩
  | negative _ => exact ⟨'-', rfl, rfl⟩

end Code

namespace Run

/-- What is written of a run after its first code. -/
def afterLow (run : Run) : List Char :=
  if run.low = run.high then [] else '-' :: (Code.render run.high).toList

theorem toList_render (run : Run) :
    run.render.toList = (Code.render run.low).toList ++ run.afterLow := by
  by_cases isOne : run.low = run.high
  · simp [render, afterLow, isOne]
  · simp [render, afterLow, isOne]

/-- What may follow a run: nothing that goes on with a number or with a run. -/
def MayFollow (rest : List Char) : Prop :=
  StartsOutside (fun character => character.isDigit || character == '-') rest

theorem MayFollow.noDigit {rest : List Char} (mayFollow : MayFollow rest) :
    StartsOutside Char.isDigit rest := by
  intro character isFirst
  have isOutside := mayFollow character isFirst
  rw [Bool.or_eq_false_iff] at isOutside
  exact isOutside.1

theorem MayFollow.ne_dash {rest later : List Char} (mayFollow : MayFollow rest) :
    rest ≠ '-' :: later := by
  intro isDash
  have isOutside := mayFollow '-' (by simp [isDash])
  cases isOutside

theorem noDigit_afterLow (run : Run) {rest : List Char} (mayFollow : MayFollow rest) :
    StartsOutside Char.isDigit (run.afterLow ++ rest) := by
  by_cases isOne : run.low = run.high
  · simpa [afterLow, isOne] using mayFollow.noDigit
  · simp [afterLow, isOne, StartsOutside]

theorem render_determines (run : Run) :
    Determines (fun run => (render run).toList) Eq MayFollow run := by
  intro other rest more restFollows moreFollows same
  simp only [toList_render, List.append_assoc] at same
  obtain ⟨sameLow, sameAfter⟩ := Code.render_determines run.low
    (noDigit_afterLow run restFollows) (noDigit_afterLow other moreFollows) same
  have isSame (sameHigh : run.high = other.high) : run = other := by
    cases run
    cases other
    exact congrArg₂ Run.mk sameLow sameHigh
  rw [afterLow, afterLow] at sameAfter
  by_cases isOne : run.low = run.high
  · by_cases isOneToo : other.low = other.high
    · rw [if_pos isOne, if_pos isOneToo] at sameAfter
      exact ⟨isSame (by rw [← isOne, ← isOneToo, sameLow]), sameAfter⟩
    · rw [if_pos isOne, if_neg isOneToo] at sameAfter
      exact absurd sameAfter restFollows.ne_dash
  · by_cases isOneToo : other.low = other.high
    · rw [if_neg isOne, if_pos isOneToo] at sameAfter
      exact absurd sameAfter.symm moreFollows.ne_dash
    · rw [if_neg isOne, if_neg isOneToo] at sameAfter
      obtain ⟨sameHigh, sameRest⟩ := Code.render_determines run.high restFollows.noDigit
        moreFollows.noDigit (List.tail_eq_of_cons_eq sameAfter)
      exact ⟨isSame sameHigh, sameRest⟩

theorem isMark_head_render (run : Run) (tail : List Char) :
    ∃ first, (run.render.toList ++ tail).head? = some first ∧ Code.isMark first = true := by
  rw [toList_render, List.append_assoc]
  exact (Code.isShownAs_render run.low).isMark_head (run.afterLow ++ tail)

theorem render_separates :
    Separates (fun run => (render run).toList) MayFollow [',', ' '] '\x7d' where
  begins run tail := by
    obtain ⟨first, isFirst, isMark⟩ := run.isMark_head_render tail
    intro isClose
    rw [isFirst, Option.some.injEq] at isClose
    rw [isClose] at isMark
    cases isMark
  continues run tail := by simp
  afterItem tail := by simp [MayFollow, StartsOutside]
  atEnd tail := by simp [MayFollow, StartsOutside]

end Run

namespace CodeSet

theorem toList_render (set : CodeSet) :
    set.render.toList = '\x7b' ::
      closed [',', ' '] '\x7d' (set.runs.map fun run => run.render.toList) := by
  rw [← closed_eq_intercalate]
  simp [render, String.toList_intercalate, Function.comp_def]

/-- The text of a code set ends at its closing brace and determines the set. -/
theorem render_determines (set : CodeSet) :
    Determines (fun set => (render set).toList) Eq (fun _ => True) set := by
  intro other rest more _ _ same
  simp only [toList_render, List.cons_append, List.cons.injEq, true_and] at same
  obtain ⟨sameRuns, sameRest⟩ := Run.render_separates.closed_determines
    (fun run _ => run.render_determines) trivial trivial same
  exact ⟨runs_injective (List.forall₂_eq_eq_eq ▸ sameRuns), sameRest⟩

theorem render_injective {left right : CodeSet} (same : left.render = right.render) :
    left = right := by
  have sameText : left.render.toList ++ [] = right.render.toList ++ [] := by rw [same]
  exact (left.render_determines trivial trivial sameText).1

end CodeSet

end LexGen
