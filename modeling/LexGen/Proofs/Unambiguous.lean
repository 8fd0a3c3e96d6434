import Mathlib.Data.List.Forall2

/-!
# Unambiguous writing

A way to write values is unambiguous if no text begins with what is written for two
of them.  Numerals need something after them that is no digit.  A list is
unambiguous if its items are, up to the mark that closes it, provided that neither an
item nor what separates two of them can be taken for this mark.
-/

namespace LexGen.Text

variable {α : Type}

/-- The value is alike to every value whose text, before something that may follow it,
begins the same text. -/
def Determines (write : α → List Char) (alike : α → α → Prop)
    (follows : List Char → Prop) (value : α) : Prop :=
  ∀ ⦃other : α⦄ ⦃rest more : List Char⦄, follows rest → follows more →
    write value ++ rest = write other ++ more → alike value other ∧ rest = more

def StartsOutside (inside : Char → Bool) (text : List Char) : Prop :=
  ∀ character ∈ text.head?, inside character = false

theorem determines_of_reads {write : α → List Char} {follows : List Char → Prop}
    {read : List Char → α × List Char}
    (reads : ∀ value rest, follows rest → read (write value ++ rest) = (value, rest))
    (value : α) : Determines write Eq follows value := by
  intro other rest more mayFollow mayFollowOther same
  have isRead := reads value rest mayFollow
  rw [same, reads other more mayFollowOther] at isRead
  exact ⟨(Prod.mk.inj isRead).1.symm, (Prod.mk.inj isRead).2.symm⟩

/-- Two texts of certain characters are the same if they begin a text that goes on with
another character after each of them. -/
theorem eq_of_append_eq {inside : Char → Bool} {left right rest more : List Char}
    (leftInside : ∀ character ∈ left, inside character = true)
    (rightInside : ∀ character ∈ right, inside character = true)
    (restOutside : StartsOutside inside rest) (moreOutside : StartsOutside inside more)
    (same : left ++ rest = right ++ more) : left = right ∧ rest = more := by
  induction left generalizing right with
  | nil =>
      cases right with
      | nil => exact ⟨rfl, same⟩
      | cons character right =>
          have isInside := rightInside character List.mem_cons_self
          have isRest : rest = character :: (right ++ more) := same
          have isOutside := restOutside character (by simp [isRest])
          simp [isInside] at isOutside
  | cons character left induction =>
      cases right with
      | nil =>
          have isInside := leftInside character List.mem_cons_self
          have isMore : more = character :: (left ++ rest) := same.symm
          have isOutside := moreOutside character (by simp [isMore])
          simp [isInside] at isOutside
      | cons other right =>
          obtain ⟨sameFirst, sameLater⟩ := List.cons.inj same
          obtain ⟨sameText, sameRest⟩ := induction
            (fun character member => leftInside character (List.mem_cons_of_mem _ member))
            (fun character member => rightInside character (List.mem_cons_of_mem _ member))
            sameLater
          exact ⟨by rw [sameFirst, sameText], sameRest⟩

section Digits

theorem digitChar_injective : ∀ first < 16, ∀ second < 16,
    Nat.digitChar first = Nat.digitChar second → first = second := by
  decide

theorem toDigits_injective {base : Nat} (several : 1 < base) (few : base ≤ 16)
    {first second : Nat}
    (same : Nat.toDigits base first = Nat.toDigits base second) : first = second := by
  induction first using Nat.strongRecOn generalizing second with
  | ind first induction =>
      have remainder (value : Nat) : value % base < 16 :=
        Nat.lt_of_lt_of_le (Nat.mod_lt value (by omega)) few
      by_cases isSmall : first < base
      · rw [Nat.toDigits_of_lt_base isSmall] at same
        by_cases isSmallToo : second < base
        · rw [Nat.toDigits_of_lt_base isSmallToo] at same
          exact digitChar_injective first (by omega) second (by omega)
            (List.singleton_inj.mp same)
        · rw [Nat.toDigits_of_base_le several (by omega)] at same
          simp [List.singleton_eq_append_iff] at same
      · rw [Nat.toDigits_of_base_le several (by omega)] at same
        by_cases isSmallToo : second < base
        · rw [Nat.toDigits_of_lt_base isSmallToo] at same
          simp [List.append_eq_singleton_iff] at same
        · rw [Nat.toDigits_of_base_le several (Nat.le_of_not_lt isSmallToo)] at same
          obtain ⟨sameHigh, sameLow⟩ := List.append_inj' same rfl
          have sameQuotient := induction (first / base)
            (Nat.div_lt_self (by omega) several) sameHigh
          have sameRemainder := digitChar_injective _ (remainder first) _
            (remainder second) (List.singleton_inj.mp sameLow)
          rw [← Nat.div_add_mod first base, ← Nat.div_add_mod second base, sameQuotient,
            sameRemainder]

theorem exists_digit_of_mem_toDigits {base : Nat} (several : 1 < base) {value : Nat}
    {character : Char} (member : character ∈ Nat.toDigits base value) :
    ∃ digit < base, character = Nat.digitChar digit := by
  induction value using Nat.strongRecOn with
  | ind value induction =>
      rw [Nat.toDigits_eq_if several] at member
      by_cases isSmall : value < base
      · rw [if_pos isSmall] at member
        exact ⟨value, isSmall, List.mem_singleton.mp member⟩
      · rw [if_neg isSmall, List.mem_append] at member
        cases member with
        | inl isHigher =>
            exact induction (value / base) (Nat.div_lt_self (by omega) several) isHigher
        | inr isLowest =>
            exact ⟨value % base, Nat.mod_lt value (by omega), List.mem_singleton.mp isLowest⟩

end Digits

section Lists

variable {write : α → List Char} {alike : α → α → Prop}
  {follows : List Char → Prop} {separator : List Char} {close : Char}

/-- The text after an item: further ones behind separators, and the closing mark. -/
def continued (separator : List Char) (close : Char) (texts : List (List Char)) :
    List Char :=
  texts.flatMap (separator ++ ·) ++ [close]

/-- Texts between separators, closed by a mark. -/
def closed (separator : List Char) (close : Char) : List (List Char) → List Char
  | [] => [close]
  | first :: later => first ++ continued separator close later

theorem closed_eq_intercalate (separator : List Char) (close : Char)
    (texts : List (List Char)) :
    separator.intercalate texts ++ [close] = closed separator close texts := by
  cases texts with
  | nil => rfl
  | cons first later =>
      induction later generalizing first with
      | nil => simp [closed, continued]
      | cons second later induction =>
          rw [List.intercalate_cons_cons, List.append_assoc, induction second]
          simp [closed, continued]

theorem closed_nil_eq_flatten (close : Char) (texts : List (List Char)) :
    closed [] close texts = texts.flatten ++ [close] := by
  cases texts with
  | nil => rfl
  | cons first later => simp [closed, continued, List.flatMap]

/-- The items can be told from the mark that closes their list, and both a separator
and this mark may follow an item. -/
structure Separates (write : α → List Char) (follows : List Char → Prop)
    (separator : List Char) (close : Char) : Prop where
  begins : ∀ item tail, (write item ++ tail).head? ≠ some close
  continues : ∀ item tail, (separator ++ (write item ++ tail)).head? ≠ some close
  afterItem : ∀ tail, follows (separator ++ tail)
  atEnd : ∀ tail, follows (close :: tail)

variable (separates : Separates write follows separator close)

include separates

theorem Separates.follows_continued (items : List α) (tail : List Char) :
    follows (continued separator close (items.map write) ++ tail) := by
  cases items with
  | nil => exact separates.atEnd tail
  | cons item items =>
      have isAfter := separates.afterItem
        (write item ++ (continued separator close (items.map write) ++ tail))
      simpa [continued] using isAfter

theorem Separates.closed_cons_ne (item : α) (items : List α) (tail rest : List Char) :
    closed separator close ((item :: items).map write) ++ tail ≠ close :: rest := by
  intro same
  have isClosed : write item ++ (continued separator close (items.map write) ++ tail) =
      close :: rest := by
    simpa [closed] using same
  exact separates.begins item _ (congrArg List.head? isClosed)

theorem Separates.continued_cons_ne (item : α) (items : List α) (tail rest : List Char) :
    continued separator close ((item :: items).map write) ++ tail ≠ close :: rest := by
  intro same
  have isClosed : separator ++ (write item ++
      (continued separator close (items.map write) ++ tail)) = close :: rest := by
    simpa [continued] using same
  exact separates.continues item _ (congrArg List.head? isClosed)

/-- What comes after an item determines how many further ones there are and what is
written for each. -/
theorem Separates.continued_determines {items : List α}
    (each : ∀ item ∈ items, Determines write alike follows item) :
    Determines (fun items => continued separator close (items.map write))
      (List.Forall₂ alike) (fun _ => True) items := by
  intro others rest more _ _ same
  induction items generalizing others with
  | nil =>
      cases others with
      | nil => exact ⟨.nil, List.tail_eq_of_cons_eq same⟩
      | cons other others =>
          exact absurd same.symm (separates.continued_cons_ne other others more rest)
  | cons item items induction =>
      cases others with
      | nil => exact absurd same (separates.continued_cons_ne item items rest more)
      | cons other others =>
          have behind : write item ++ (continued separator close (items.map write) ++ rest) =
              write other ++ (continued separator close (others.map write) ++ more) := by
            apply (List.append_right_inj separator).mp
            simpa [continued] using same
          obtain ⟨isAlike, sameLater⟩ := each item List.mem_cons_self
            (separates.follows_continued items rest)
            (separates.follows_continued others more) behind
          obtain ⟨areAlike, sameRest⟩ := induction
            (fun later member => each later (List.mem_cons_of_mem item member)) sameLater
          exact ⟨.cons isAlike areAlike, sameRest⟩

theorem Separates.closed_determines {items : List α}
    (each : ∀ item ∈ items, Determines write alike follows item) :
    Determines (fun items => closed separator close (items.map write))
      (List.Forall₂ alike) (fun _ => True) items := by
  intro others rest more _ _ same
  cases items with
  | nil =>
      cases others with
      | nil => exact ⟨.nil, List.tail_eq_of_cons_eq same⟩
      | cons other others =>
          exact absurd same.symm (separates.closed_cons_ne other others more rest)
  | cons item items =>
      cases others with
      | nil => exact absurd same (separates.closed_cons_ne item items rest more)
      | cons other others =>
          obtain ⟨isAlike, sameLater⟩ := each item List.mem_cons_self
            (separates.follows_continued items rest)
            (separates.follows_continued others more) (by simpa [closed] using same)
          obtain ⟨areAlike, sameRest⟩ := separates.continued_determines
            (fun later member => each later (List.mem_cons_of_mem item member))
            trivial trivial sameLater
          exact ⟨.cons isAlike areAlike, sameRest⟩

/-- Lists with different separators have the same text only if there is nothing to
separate. -/
theorem Separates.closed_determines_few {wider : List Char}
    (alsoSeparates : Separates write follows wider close)
    (distinct : ∀ item other tail rest,
      separator ++ (write item ++ tail) ≠ wider ++ (write other ++ rest))
    {items others : List α} (each : ∀ item ∈ items, Determines write alike follows item)
    {rest more : List Char}
    (same : closed separator close (items.map write) ++ rest =
      closed wider close (others.map write) ++ more) :
    items.length ≤ 1 ∧ List.Forall₂ alike items others ∧ rest = more := by
  cases items with
  | nil =>
      cases others with
      | nil => exact ⟨by simp, .nil, List.tail_eq_of_cons_eq same⟩
      | cons other others =>
          exact absurd same.symm (alsoSeparates.closed_cons_ne other others more rest)
  | cons item items =>
      cases others with
      | nil => exact absurd same (separates.closed_cons_ne item items rest more)
      | cons other others =>
          obtain ⟨isAlike, sameLater⟩ := each item List.mem_cons_self
            (separates.follows_continued items rest)
            (alsoSeparates.follows_continued others more) (by simpa [closed] using same)
          cases items with
          | nil =>
              cases others with
              | nil => exact ⟨by simp, .cons isAlike .nil, List.tail_eq_of_cons_eq sameLater⟩
              | cons second others =>
                  exact absurd sameLater.symm
                    (alsoSeparates.continued_cons_ne second others more rest)
          | cons second items =>
              cases others with
              | nil =>
                  exact absurd sameLater
                    (separates.continued_cons_ne second items rest more)
              | cons otherSecond others =>
                  have bothSeparated : separator ++ (write second ++
                        (continued separator close (items.map write) ++ rest)) =
                      wider ++ (write otherSecond ++
                        (continued wider close (others.map write) ++ more)) := by
                    simpa [continued] using sameLater
                  exact absurd bothSeparated (distinct _ _ _ _)

end Lists

end LexGen.Text
