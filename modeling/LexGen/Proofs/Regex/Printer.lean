import LexGen.Proofs.CodeSet.Printer
import LexGen.Proofs.Unambiguous
import LexGen.Regex.Printer
import LexGen.Regex.Variants

/-!
# Printed expressions are unambiguous

In a quoted text a character is written as itself, as a backslash and a mark, or as
its code point between braces.  No two characters have the same mark, a character
written as itself is no backslash, and the braces say where the code point ends.  So
what is written for a character is never the beginning of what is written for another
one, and none begins with the quote that closes the text.

The first character of an expression says which kind it is of, up to braces, which
enclose a class or a repetition, and parentheses, which enclose a sequence or an
alternative.  No class begins like an expression behind its brace, and what separates
two items tells a sequence from an alternative.  So the text of an expression ends
with the mark that closes it, and only twins have the same text.
-/

namespace LexGen

namespace Text

/-- The characters that have a mark of their own, each behind its mark. -/
def marks : List (Char × Char) :=
  [('0', '\x00'), ('t', '\t'), ('n', '\n'), ('r', '\r'), ('"', '"'), ('\\', '\\')]

/-- How a character is written in quotes. -/
inductive IsQuotedAs (character : Char) : List Char → Prop where
  | raw (noQuote : character ≠ '"') (noBackslash : character ≠ '\\') :
      IsQuotedAs character [character]
  | marked {mark : Char} (member : (mark, character) ∈ marks) :
      IsQuotedAs character ['\\', mark]
  | coded :
      IsQuotedAs character
        ('\\' :: 'u' :: '\x7b' :: (Nat.toDigits 16 character.toNat ++ ['\x7d']))

theorem isQuotedAs_quotedCharacter (character : Char) :
    IsQuotedAs character (quotedCharacter character).toList := by
  have isMarked (mark marked : Char) (member : (mark, marked) ∈ marks)
      (same : character.toNat = marked.toNat) : IsQuotedAs character ['\\', mark] := by
    rw [Char.toNat_inj.mp same]
    exact .marked member
  unfold quotedCharacter
  split
  case h_1 same => exact isMarked '0' '\x00' (by decide) same
  case h_2 same => exact isMarked 't' '\t' (by decide) same
  case h_3 same => exact isMarked 'n' '\n' (by decide) same
  case h_4 same => exact isMarked 'r' '\r' (by decide) same
  case h_5 same => exact isMarked '"' '"' (by decide) same
  case h_6 same => exact isMarked '\\' '\\' (by decide) same
  case h_7 code _ _ _ _ notQuote notBackslash =>
    split
    · have isCoded : IsQuotedAs character _ := .coded
      simpa [hexadecimal] using isCoded
    · have isRaw : IsQuotedAs character [character] := by
        apply IsQuotedAs.raw
        · intro isQuote
          exact notQuote (congrArg Char.toNat isQuote)
        · intro isBackslash
          exact notBackslash (congrArg Char.toNat isBackslash)
      simpa using isRaw

theorem IsQuotedAs.head?_ne {character : Char} {text : List Char}
    (isQuoted : IsQuotedAs character text) (tail : List Char) :
    (text ++ tail).head? ≠ some '"' := by
  cases isQuoted with
  | raw noQuote _ => simpa using noQuote
  | marked _ => simp
  | coded => simp

theorem marks_unambiguous : ∀ first ∈ marks, first.1 ≠ 'u' ∧
    ∀ second ∈ marks, first.1 = second.1 → first = second := by
  decide

theorem startsOutside_brace (tail : List Char) :
    StartsOutside (· != '\x7d') ('\x7d' :: tail) := by
  simp [StartsOutside]

theorem ne_brace_of_mem_hexadecimal {value : Nat} {character : Char}
    (member : character ∈ Nat.toDigits 16 value) : (character != '\x7d') = true := by
  have noBrace : ∀ digit < 16, (Nat.digitChar digit != '\x7d') = true := by decide
  obtain ⟨digit, isSmall, rfl⟩ := exists_digit_of_mem_toDigits (by decide) member
  exact noBrace digit isSmall

theorem codePoint_determines {first second : Nat} {rest more : List Char}
    (same : Nat.toDigits 16 first ++ '\x7d' :: rest =
      Nat.toDigits 16 second ++ '\x7d' :: more) : first = second ∧ rest = more := by
  obtain ⟨sameDigits, sameRest⟩ := eq_of_append_eq
    (fun _ member => ne_brace_of_mem_hexadecimal member)
    (fun _ member => ne_brace_of_mem_hexadecimal member)
    (startsOutside_brace rest) (startsOutside_brace more) same
  exact ⟨toDigits_injective (by decide) (by decide) sameDigits,
    List.tail_eq_of_cons_eq sameRest⟩

theorem IsQuotedAs.determines {first second : Char} {left right rest more : List Char}
    (firstQuoted : IsQuotedAs first left) (secondQuoted : IsQuotedAs second right)
    (same : left ++ rest = right ++ more) : first = second ∧ rest = more := by
  cases firstQuoted with
  | raw _ noBackslash =>
      cases secondQuoted with
      | raw _ _ => simpa using same
      | marked _ => exact absurd (List.head_eq_of_cons_eq same) noBackslash
      | coded => exact absurd (List.head_eq_of_cons_eq same) noBackslash
  | @marked mark member =>
      cases secondQuoted with
      | raw _ noBackslash => exact absurd (List.head_eq_of_cons_eq same).symm noBackslash
      | @marked otherMark otherMember =>
          have both : mark = otherMark ∧ rest = more := by simpa using same
          have isSame := (marks_unambiguous _ member).2 _ otherMember both.1
          exact ⟨congrArg Prod.snd isSame, both.2⟩
      | coded =>
          have isMark : mark = 'u' :=
            List.head_eq_of_cons_eq (List.tail_eq_of_cons_eq same)
          exact absurd isMark (marks_unambiguous _ member).1
  | coded =>
      cases secondQuoted with
      | raw _ noBackslash => exact absurd (List.head_eq_of_cons_eq same).symm noBackslash
      | @marked otherMark otherMember =>
          have isMark : 'u' = otherMark :=
            List.head_eq_of_cons_eq (List.tail_eq_of_cons_eq same)
          exact absurd isMark.symm (marks_unambiguous _ otherMember).1
      | coded =>
          obtain ⟨sameCode, sameRest⟩ := codePoint_determines (by simpa using same)
          exact ⟨Char.toNat_inj.mp sameCode, sameRest⟩

theorem quotedCharacter_separates :
    Separates (fun character => (quotedCharacter character).toList) (fun _ => True)
      [] '"' where
  begins character tail := (isQuotedAs_quotedCharacter character).head?_ne tail
  continues character tail := (isQuotedAs_quotedCharacter character).head?_ne tail
  afterItem _ := trivial
  atEnd _ := trivial

theorem toList_quoted (text : String) :
    (quoted text).toList = '"' ::
      closed [] '"' (text.toList.map fun character => (quotedCharacter character).toList) := by
  rw [closed_nil_eq_flatten]
  simp [quoted, List.flatMap, Function.comp_def]

/-- A quoted text ends at its closing quote and determines the text. -/
theorem quoted_determines (text : String) :
    Determines (fun text => (quoted text).toList) Eq (fun _ => True) text := by
  intro other rest more _ _ same
  simp only [toList_quoted, List.cons_append, List.cons.injEq, true_and] at same
  obtain ⟨sameCharacters, sameRest⟩ := quotedCharacter_separates.closed_determines
    (fun character _ => fun _ _ _ _ _ same =>
      (isQuotedAs_quotedCharacter character).determines (isQuotedAs_quotedCharacter _) same)
    trivial trivial same
  exact ⟨String.toList_injective (List.forall₂_eq_eq_eq ▸ sameCharacters), sameRest⟩

end Text

/-! ## Expressions -/

namespace Regex

open Text

variable {regex other inner : Regex} {items others : List Regex}

theorem renderAll_eq_map (items : List Regex) : renderAll items = items.map render := by
  induction items with
  | nil => rfl
  | cons item items induction => rw [renderAll, induction, List.map_cons]

/-- The characters of the written form. -/
def written (regex : Regex) : List Char := regex.render.toList

/-- The first character of the written form. -/
def opening : Regex → Char
  | .oneOf _ | .many _ => '\x7b'
  | .literal _ => '"'
  | .optional _ => '['
  | .sequence _ | .alternative _ => '('

def body : Regex → List Char
  | .oneOf set =>
      closed [',', ' '] '\x7d' (set.runs.map fun run => run.render.toList)
  | .literal text =>
      closed [] '"' (text.toList.map fun character => (quotedCharacter character).toList)
  | .many inner => written inner ++ ['\x7d']
  | .optional inner => written inner ++ [']']
  | .sequence items => closed [' '] ')' (items.map written)
  | .alternative items => closed [' ', '|', ' '] ')' (items.map written)

theorem written_eq (regex : Regex) : written regex = opening regex :: body regex := by
  cases regex with
  | oneOf set => rw [written, render, CodeSet.toList_render, opening, body]
  | literal text => rw [written, render, toList_quoted, opening, body]
  | many inner => simp [written, render, opening, body]
  | optional inner => simp [written, render, opening, body]
  | sequence items =>
      have areWritten : items.map written = items.map (·.render.toList) := rfl
      rw [opening, body, ← closed_eq_intercalate, areWritten]
      simp [written, render, renderAll_eq_map, Function.comp_def]
  | alternative items =>
      have areWritten : items.map written = items.map (·.render.toList) := rfl
      rw [opening, body, ← closed_eq_intercalate, areWritten]
      simp [written, render, renderAll_eq_map, Function.comp_def]

/-- The first character of an expression neither closes a list, nor separates two items,
nor begins a code. -/
theorem opening_ne (regex : Regex) :
    opening regex ≠ ')' ∧ opening regex ≠ '|' ∧ opening regex ≠ '\x7d' ∧
      Code.isMark (opening regex) = false := by
  cases regex with
  | oneOf _ | literal _ | many _ | optional _ | sequence _ | alternative _ =>
      simp [opening, Code.isMark]

theorem written_separates {separator : List Char}
    (beginsWithSpace : separator.head? = some ' ') :
    Separates written (fun _ => True) separator ')' where
  begins regex tail := by
    rw [written_eq]
    simpa using (opening_ne regex).1
  continues regex tail := by
    rw [List.head?_append, beginsWithSpace]
    simp
  afterItem _ := trivial
  atEnd _ := trivial

theorem body_eq_of_written_eq {rest more : List Char}
    (same : written regex ++ rest = written other ++ more) :
    opening regex = opening other ∧ body regex ++ rest = body other ++ more := by
  rw [written_eq, written_eq] at same
  exact List.cons.inj same

theorem body_many_append (inner : Regex) (rest : List Char) :
    body (.many inner) ++ rest = written inner ++ '\x7d' :: rest := by
  simp [body]

theorem body_optional_append (inner : Regex) (rest : List Char) :
    body (.optional inner) ++ rest = written inner ++ ']' :: rest := by
  simp [body]

/-- Behind the brace, no class goes on like an expression. -/
theorem body_oneOf_ne (set : CodeSet) (inner : Regex) (rest more : List Char) :
    body (.oneOf set) ++ rest ≠ written inner ++ more := by
  intro same
  obtain ⟨_, _, noClose, noCode⟩ := opening_ne inner
  rw [written_eq, body] at same
  cases areRuns : set.runs with
  | nil =>
      rw [areRuns] at same
      exact noClose (List.head_eq_of_cons_eq same).symm
  | cons run runs =>
      obtain ⟨first, isFirst, isMark⟩ := run.isMark_head_render
        (continued [',', ' '] '\x7d' (runs.map fun run => run.render.toList) ++ rest)
      have begins := congrArg List.head? same
      rw [areRuns, List.map_cons, closed, List.append_assoc, isFirst] at begins
      have isOpening : first = opening inner := Option.some.inj begins
      rw [isOpening, noCode] at isMark
      cases isMark

section Unambiguous

/-- Any expression whose written form begins the same text is a twin. -/
def IsUnambiguous (regex : Regex) : Prop :=
  Determines written Twin (fun _ => True) regex

theorem oneOf_unambiguous (set : CodeSet) : IsUnambiguous (.oneOf set) := by
  intro other rest more _ _ same
  obtain ⟨sameOpening, sameBody⟩ := body_eq_of_written_eq same
  cases other with
  | oneOf otherSet =>
      have sameText : set.render.toList ++ rest = otherSet.render.toList ++ more := same
      obtain ⟨isSet, sameRest⟩ := set.render_determines trivial trivial sameText
      exact ⟨isSet ▸ .oneOf set, sameRest⟩
  | many inner =>
      rw [body_many_append] at sameBody
      exact absurd sameBody (body_oneOf_ne set inner _ _)
  | literal _ | optional _ | sequence _ | alternative _ => simp [opening] at sameOpening

theorem literal_unambiguous (text : String) : IsUnambiguous (.literal text) := by
  intro other rest more _ _ same
  obtain ⟨sameOpening, _⟩ := body_eq_of_written_eq same
  cases other with
  | literal otherText =>
      have sameQuoted : (quoted text).toList ++ rest = (quoted otherText).toList ++ more := same
      obtain ⟨isText, sameRest⟩ := quoted_determines text trivial trivial sameQuoted
      exact ⟨isText ▸ .literal text, sameRest⟩
  | oneOf _ | many _ | optional _ | sequence _ | alternative _ => simp [opening] at sameOpening

theorem many_unambiguous (unambiguous : IsUnambiguous inner) :
    IsUnambiguous (.many inner) := by
  intro other rest more _ _ same
  obtain ⟨sameOpening, sameBody⟩ := body_eq_of_written_eq same
  cases other with
  | oneOf set =>
      rw [body_many_append] at sameBody
      exact absurd sameBody.symm (body_oneOf_ne set inner _ _)
  | many other =>
      rw [body_many_append, body_many_append] at sameBody
      obtain ⟨isTwin, sameRest⟩ := unambiguous trivial trivial sameBody
      exact ⟨.many isTwin, List.tail_eq_of_cons_eq sameRest⟩
  | literal _ | optional _ | sequence _ | alternative _ => simp [opening] at sameOpening

theorem optional_unambiguous (unambiguous : IsUnambiguous inner) :
    IsUnambiguous (.optional inner) := by
  intro other rest more _ _ same
  obtain ⟨sameOpening, sameBody⟩ := body_eq_of_written_eq same
  cases other with
  | optional other =>
      rw [body_optional_append, body_optional_append] at sameBody
      obtain ⟨isTwin, sameRest⟩ := unambiguous trivial trivial sameBody
      exact ⟨.optional isTwin, List.tail_eq_of_cons_eq sameRest⟩
  | oneOf _ | literal _ | many _ | sequence _ | alternative _ => simp [opening] at sameOpening

theorem spaces_separate : Separates written (fun _ => True) [' '] ')' :=
  written_separates rfl

theorem bars_separate : Separates written (fun _ => True) [' ', '|', ' '] ')' :=
  written_separates rfl

/-- No expression begins with the bar, so a second item tells a sequence from an
alternative. -/
theorem space_append_ne (item other : Regex) (tail rest : List Char) :
    [' '] ++ (written item ++ tail) ≠ [' ', '|', ' '] ++ (written other ++ rest) := by
  intro same
  have isBar : opening item = '|' := by
    rw [written_eq item] at same
    exact List.head_eq_of_cons_eq (List.tail_eq_of_cons_eq same)
  exact (opening_ne item).2.1 isBar

theorem sequence_unambiguous (each : ∀ item ∈ items, IsUnambiguous item) :
    IsUnambiguous (.sequence items) := by
  intro other rest more _ _ same
  obtain ⟨sameOpening, sameBody⟩ := body_eq_of_written_eq same
  cases other with
  | sequence others =>
      obtain ⟨areTwins, sameRest⟩ := spaces_separate.closed_determines each trivial trivial
        sameBody
      exact ⟨.sequence areTwins, sameRest⟩
  | alternative others =>
      obtain ⟨few, areTwins, sameRest⟩ := spaces_separate.closed_determines_few
        bars_separate space_append_ne each sameBody
      exact ⟨.asAlternative few areTwins, sameRest⟩
  | oneOf _ | literal _ | many _ | optional _ => simp [opening] at sameOpening

theorem alternative_unambiguous (each : ∀ item ∈ items, IsUnambiguous item) :
    IsUnambiguous (.alternative items) := by
  intro other rest more _ _ same
  obtain ⟨sameOpening, sameBody⟩ := body_eq_of_written_eq same
  cases other with
  | sequence others =>
      obtain ⟨few, areTwins, sameRest⟩ := bars_separate.closed_determines_few
        spaces_separate (fun item other tail rest => (space_append_ne other item rest tail).symm)
        each sameBody
      exact ⟨.asSequence few areTwins, sameRest⟩
  | alternative others =>
      obtain ⟨areTwins, sameRest⟩ := bars_separate.closed_determines each trivial trivial
        sameBody
      exact ⟨.alternative areTwins, sameRest⟩
  | oneOf _ | literal _ | many _ | optional _ => simp [opening] at sameOpening

mutual

/-- The recursion is on one of the expressions only: the text says which parts the other
one has. -/
theorem unambiguous (regex : Regex) : IsUnambiguous regex := by
  match regex with
  | .oneOf set => exact oneOf_unambiguous set
  | .literal text => exact literal_unambiguous text
  | .many inner => exact many_unambiguous (unambiguous inner)
  | .optional inner => exact optional_unambiguous (unambiguous inner)
  | .sequence items => exact sequence_unambiguous (all_unambiguous items)
  | .alternative items => exact alternative_unambiguous (all_unambiguous items)

theorem all_unambiguous (items : List Regex) : ∀ item ∈ items, IsUnambiguous item := by
  match items with
  | [] => simp
  | first :: later =>
      intro item member
      cases List.mem_cons.mp member with
      | inl isFirst => exact isFirst ▸ unambiguous first
      | inr isLater => exact all_unambiguous later item isLater

end

end Unambiguous

section Twins

theorem render_sequence_of_few (few : items.length ≤ 1) :
    (sequence items).render = (alternative items).render := by
  match items with
  | [] => rw [render, render, renderAll, String.intercalate_nil, String.intercalate_nil]
  | [item] =>
      rw [render, render, renderAll, renderAll, String.intercalate_singleton,
        String.intercalate_singleton]
  | _ :: _ :: _ => simp at few

mutual

theorem Twin.render_eq {regex other : Regex} (twin : Twin regex other) :
    regex.render = other.render := by
  match twin with
  | .oneOf _ | .literal _ => rfl
  | .many twin | .optional twin => rw [render, render, twin.render_eq]
  | .sequence twins | .alternative twins => rw [render, render, renderAll_eq twins]
  | .asAlternative few twins =>
      rw [render_sequence_of_few few, render, render, renderAll_eq twins]
  | .asSequence few twins =>
      rw [← render_sequence_of_few few, render, render, renderAll_eq twins]

theorem renderAll_eq {items others : List Regex} (twins : List.Forall₂ Twin items others) :
    renderAll items = renderAll others := by
  match twins with
  | .nil => rfl
  | .cons twin twins => rw [renderAll, renderAll, twin.render_eq, renderAll_eq twins]

end

theorem render_eq_iff_twin : regex.render = other.render ↔ Twin regex other := by
  constructor
  · intro same
    have sameText : written regex ++ [] = written other ++ [] := by
      rw [written, same, written]
    exact (unambiguous regex trivial trivial sameText).1
  · exact Twin.render_eq

end Twins

end Regex

end LexGen
