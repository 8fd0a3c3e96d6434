import LexGen.Proofs.Translation.Documents
import LexGen.Translation.Rewriting
import Mathlib.Data.List.Nodup

/-!
# Unfolded documents translate to the same definition

The body of a fragment is read under the fragments before it, and a reference to it
stands where there may be further ones.  A table of fragments is grounded if every
body has under the table itself the value that the table gives the fragment.  Reading
fragments one after the other keeps their table grounded, and under a grounded table
unfolding a reference does not change what an expression means.

Along two orders of the same fragments the tables grow differently, and a body is read
under different ones.  A fragment has the same value in the end: the tables along one
order stay within the last table of the other, since that one is grounded and so gives
every fragment the value of its body.
-/

namespace LexGen

/-- The table gives every fragment that it has the value of its body. -/
def Declaration.AreGrounded (fragments : List Declaration)
    (table : Table String Fragment) : Prop :=
  ∀ declaration ∈ fragments, ∀ value, table.get? declaration.name = some value →
    declaration.body.meaning? table = some value

namespace Expr

open Declaration (AreGrounded)

variable {fragments : List Declaration} {table further : Table String Fragment}

mutual

/-- What an expression means, an unfolding of it means as well, also under a table
with further fragments.  The recursion is on the unfolding: the body of a fragment is
no part of the expression that refers to it. -/
theorem Unfolds.meaning?_eq {expr unfolded : Expr} {table : Table String Fragment}
    {value : Fragment} (unfolds : Unfolds fragments expr unfolded)
    (grounded : AreGrounded fragments further) (within : table.IsWithin further)
    (isMeaning : expr.meaning? table = some value) :
    unfolded.meaning? further = some value := by
  match unfolds with
  | .code | .character | .text => exact isMeaning
  | .paren unfolds =>
      rw [meaning?] at isMeaning ⊢
      exact unfolds.meaning?_eq grounded within isMeaning
  | .many unfolds | .optional unfolds =>
      simp only [meaning?, Option.bind_eq_bind, Option.bind_eq_some_iff] at isMeaning ⊢
      obtain ⟨inner, isInner, isValue⟩ := isMeaning
      exact ⟨inner, unfolds.meaning?_eq grounded within isInner, isValue⟩
  | .reference => exact within _ _ isMeaning
  | .range unfoldsLow unfoldsHigh | .difference unfoldsLow unfoldsHigh =>
      simp only [meaning?, Option.bind_eq_bind, Option.bind_eq_some_iff] at isMeaning ⊢
      obtain ⟨low, isLow, first, isFirst, high, isHigh, last, isLast, isValue⟩ := isMeaning
      exact ⟨low, unfoldsLow.meaning?_eq grounded within isLow, first, isFirst, high,
        unfoldsHigh.meaning?_eq grounded within isHigh, last, isLast, isValue⟩
  | .complement unfolds =>
      simp only [meaning?, Option.bind_eq_bind, Option.bind_eq_some_iff] at isMeaning ⊢
      obtain ⟨inner, isInner, codes, areCodes, isValue⟩ := isMeaning
      exact ⟨inner, unfolds.meaning?_eq grounded within isInner, codes, areCodes, isValue⟩
  | .union unfold =>
      simp only [meaning?, Option.bind_eq_bind, Option.bind_eq_some_iff] at isMeaning ⊢
      obtain ⟨members, areMembers, sets, areSets, isValue⟩ := isMeaning
      exact ⟨members, unfold.meanings?_eq grounded within areMembers, sets, areSets, isValue⟩
  | .sequence unfold | .alternative unfold =>
      simp only [meaning?, Option.bind_eq_bind, Option.bind_eq_some_iff] at isMeaning ⊢
      obtain ⟨items, areItems, isValue⟩ := isMeaning
      exact ⟨items, unfold.meanings?_eq grounded within areItems, isValue⟩
  | .body member unfolds =>
      have isBody := grounded _ member value (within _ value isMeaning)
      exact unfolds.meaning?_eq grounded (.refl further) isBody
  | .enclosed unfolds =>
      rw [meaning?]
      exact unfolds.meaning?_eq grounded within isMeaning

theorem UnfoldAll.meanings?_eq {exprs unfolded : List Expr}
    {table : Table String Fragment} {values : List Fragment}
    (unfold : UnfoldAll fragments exprs unfolded)
    (grounded : AreGrounded fragments further) (within : table.IsWithin further)
    (areMeanings : meanings? table exprs = some values) :
    meanings? further unfolded = some values := by
  match unfold with
  | .nil => exact areMeanings
  | .cons unfolds unfold =>
      simp only [meanings?, Option.bind_eq_bind, Option.bind_eq_some_iff] at areMeanings ⊢
      obtain ⟨first, isFirst, later, areLater, isValue⟩ := areMeanings
      exact ⟨first, unfolds.meaning?_eq grounded within isFirst, later,
        unfold.meanings?_eq grounded within areLater, isValue⟩

end

mutual

theorem Unfolds.refl (fragments : List Declaration) (expr : Expr) :
    Unfolds fragments expr expr := by
  cases expr with
  | code location value => exact .code
  | character location value => exact .character
  | text location value => exact .text
  | paren location inner => exact .paren (.refl fragments inner)
  | many location inner => exact .many (.refl fragments inner)
  | optional location inner => exact .optional (.refl fragments inner)
  | reference location target => exact .reference
  | range location low high => exact .range (.refl fragments low) (.refl fragments high)
  | complement location inner => exact .complement (.refl fragments inner)
  | difference location source removed =>
      exact .difference (.refl fragments source) (.refl fragments removed)
  | union location members => exact .union (.refl fragments members)
  | sequence location items => exact .sequence (.refl fragments items)
  | alternative location items => exact .alternative (.refl fragments items)

theorem UnfoldAll.refl (fragments : List Declaration) (exprs : List Expr) :
    UnfoldAll fragments exprs exprs := by
  cases exprs with
  | nil => exact .nil
  | cons expr exprs => exact .cons (.refl fragments expr) (.refl fragments exprs)

end

theorem meaning?_of_isWithin {expr : Expr} {value : Fragment}
    (within : table.IsWithin further) (isMeaning : expr.meaning? table = some value) :
    expr.meaning? further = some value :=
  (Unfolds.refl [] expr).meaning?_eq nofun within isMeaning

end Expr

namespace Declaration

variable {fragments : List Declaration} {table : Table String Fragment}

/-- The table has what the fragments before the later ones declare. -/
structure IsStage (fragments : List Declaration) (table : Table String Fragment)
    (later : List Declaration) : Prop where
  isSuffix : later <:+ fragments
  areNew : ∀ declaration ∈ later, table.get? declaration.name = none
  grounded : AreGrounded fragments table

namespace IsStage

theorem start (fragments : List Declaration) : IsStage fragments ∅ fragments where
  isSuffix := List.suffix_refl fragments
  areNew := fun _ _ => rfl
  grounded := nofun

variable (distinct : (fragments.map Declaration.name).Nodup)
include distinct

theorem next {declaration : Declaration} {later : List Declaration} {value : Fragment}
    (stage : IsStage fragments table (declaration :: later))
    (isMeaning : declaration.body.meaning? table = some value) :
    IsStage fragments (table.insert declaration.name value) later where
  isSuffix := (List.suffix_cons declaration later).trans stage.isSuffix
  areNew := by
    intro other member
    have laterDistinct := distinct.sublist (stage.isSuffix.sublist.map Declaration.name)
    have differs : other.name ≠ declaration.name := by
      intro isSame
      apply (List.nodup_cons.mp laterDistinct).1
      rw [← isSame]
      exact List.mem_map_of_mem member
    rw [Table.get?_insert]
    simpa [differs] using stage.areNew other (List.mem_cons_of_mem declaration member)
  grounded := by
    have member := stage.isSuffix.subset List.mem_cons_self
    have within : table.IsWithin (table.insert declaration.name value) :=
      Table.isWithin_insert (stage.areNew declaration List.mem_cons_self)
    intro other otherMember content isContent
    apply Expr.meaning?_of_isWithin within
    rw [Table.get?_insert] at isContent
    by_cases isSame : other.name = declaration.name
    · have isDeclaration : other = declaration :=
        List.inj_on_of_nodup_map distinct otherMember member isSame
      subst isDeclaration
      rw [isMeaning]
      simpa using isContent
    · exact stage.grounded other otherMember content (by simpa [isSame] using isContent)

theorem run {later : List Declaration} {result : Table String Fragment}
    (stage : IsStage fragments table later)
    (isTable : tableFrom? table later = some result) : IsStage fragments result [] := by
  induction later generalizing table with
  | nil =>
      cases isTable
      exact stage
  | cons declaration later induction =>
      obtain ⟨value, isMeaning, isTable⟩ := Option.bind_eq_some_iff.mp isTable
      exact induction (stage.next distinct isMeaning) isTable

/-- The table of unfolded fragments is that of the fragments. -/
theorem tableFrom?_unfolded {later unfolded : List Declaration}
    {result : Table String Fragment} (stage : IsStage fragments table later)
    (unfold : List.Forall₂ (Declaration.Unfolds fragments) later unfolded)
    (isTable : tableFrom? table later = some result) :
    tableFrom? table unfolded = some result := by
  induction unfold generalizing table with
  | nil => exact isTable
  | @cons declaration other later others unfolds _ induction =>
      obtain ⟨value, isMeaning, isTable⟩ := Option.bind_eq_some_iff.mp isTable
      obtain ⟨sameName, unfolds⟩ := unfolds
      have isOther := unfolds.meaning?_eq stage.grounded (.refl table) isMeaning
      rw [tableFrom?, isOther, ← sameName]
      exact induction (stage.next distinct isMeaning) isTable

end IsStage

theorem areGrounded_of_fragmentTable? {document : Document}
    (distinct : (document.fragments.map Declaration.name).Nodup)
    (isTable : document.fragmentTable? = some table) :
    AreGrounded document.fragments table :=
  ((IsStage.start document.fragments).run distinct isTable).grounded

theorem Unfolds.token?_eq {declaration unfolded : Declaration} {token : Token}
    (unfolds : declaration.Unfolds fragments unfolded)
    (grounded : AreGrounded fragments table)
    (isToken : declaration.token? table = some token) :
    unfolded.token? table = some token := by
  obtain ⟨sameName, unfolds⟩ := unfolds
  obtain ⟨fragment, isMeaning, isToken⟩ := Option.bind_eq_some_iff.mp isToken
  rw [token?, unfolds.meaning?_eq grounded (.refl table) isMeaning, ← sameName]
  exact isToken

end Declaration

theorem CommentSyntax.Unfolds.meaning?_eq {fragments : List Declaration}
    {table : Table String Fragment} {written unfolded : CommentSyntax} {comment : Comment}
    (unfolds : written.Unfolds fragments unfolded)
    (grounded : Declaration.AreGrounded fragments table)
    (isMeaning : written.meaning? table = some comment) :
    unfolded.meaning? table = some comment := by
  cases unfolds with
  | line unfolds =>
      obtain ⟨pattern, isPattern, isComment⟩ := Option.bind_eq_some_iff.mp isMeaning
      rw [meaning?, unfolds.meaning?_eq grounded (.refl table) isPattern]
      exact isComment
  | block unfoldsOpening unfoldsClose =>
      obtain ⟨opening, isOpening, isMeaning⟩ := Option.bind_eq_some_iff.mp isMeaning
      obtain ⟨close, isClose, isComment⟩ := Option.bind_eq_some_iff.mp isMeaning
      rw [meaning?, unfoldsOpening.meaning?_eq grounded (.refl table) isOpening,
        unfoldsClose.meaning?_eq grounded (.refl table) isClose]
      exact isComment

namespace Document

theorem mapM_eq_some_of_forall₂ {α β γ : Type} {read? : α → Option γ}
    {readOther? : β → Option γ} {items : List α} {others : List β} {values : List γ}
    (agree : List.Forall₂
      (fun item other => ∀ value, read? item = some value → readOther? other = some value)
      items others)
    (areValues : items.mapM read? = some values) :
    others.mapM readOther? = some values := by
  induction agree generalizing values with
  | nil => exact areValues
  | cons agrees _ induction =>
      simp only [List.mapM_cons, Option.bind_eq_bind, Option.bind_eq_some_iff]
        at areValues ⊢
      obtain ⟨first, isFirst, later, areLater, areValues⟩ := areValues
      exact ⟨first, agrees first isFirst, later, induction areLater, areValues⟩

variable {document unfolded : Document} {definition : Definition}

theorem Unfolds.whitespaceSet?_eq {table : Table String Fragment} {codes : CodeSet}
    (unfolds : document.Unfolds unfolded)
    (grounded : Declaration.AreGrounded document.fragments table)
    (areCodes : document.whitespaceSet? table = some codes) :
    unfolded.whitespaceSet? table = some codes := by
  have unfoldsWhitespace := unfolds.whitespace
  rw [whitespaceSet?] at areCodes ⊢
  generalize document.whitespace = whitespace at areCodes unfoldsWhitespace
  generalize unfolded.whitespace = other at unfoldsWhitespace
  cases unfoldsWhitespace with
  | none => exact areCodes
  | some unfolds =>
      obtain ⟨fragment, isMeaning, areCodes⟩ := Option.bind_eq_some_iff.mp areCodes
      simpa [unfolds.meaning?_eq grounded (.refl table) isMeaning] using areCodes

theorem Unfolds.describes (unfolds : document.Unfolds unfolded)
    (distinct : (document.fragments.map Declaration.name).Nodup)
    (describes : document.Describes definition) : unfolded.Describes definition := by
  have grounded := Declaration.areGrounded_of_fragmentTable? distinct describes.fragments
  refine ⟨?_, ?_, ?_, unfolds.whitespaceSet?_eq grounded describes.whitespace⟩
  · exact (Declaration.IsStage.start document.fragments).tableFrom?_unfolded distinct
      unfolds.fragments describes.fragments
  · apply mapM_eq_some_of_forall₂ (unfolds.tokens.imp ?_) describes.tokens
    intro declaration other unfolds token isToken
    exact unfolds.token?_eq grounded isToken
  · apply mapM_eq_some_of_forall₂ (unfolds.comments.imp ?_) describes.comments
    intro comment other unfolds value isMeaning
    exact unfolds.meaning?_eq grounded isMeaning

theorem names_eq_of_unfolds {fragments declarations others : List Declaration}
    (unfold : List.Forall₂ (Declaration.Unfolds fragments) declarations others) :
    others.map Declaration.name = declarations.map Declaration.name := by
  induction unfold with
  | nil => rfl
  | cons unfolds _ induction => rw [List.map_cons, List.map_cons, induction, unfolds.1]

/-- A document with any number of its references unfolded has the same definition. -/
theorem translate_unfolded (unfolds : document.Unfolds unfolded)
    (isOk : document.translate = .ok definition) :
    unfolded.translate = .ok definition := by
  obtain ⟨notExtended, fragmentNames, tokenNames, describes⟩ :=
    translate_eq_ok_iff.mp isOk
  apply translate_eq_ok_iff.mpr
  rw [← unfolds.extended, names_eq_of_unfolds unfolds.fragments,
    names_eq_of_unfolds unfolds.tokens]
  exact ⟨notExtended, fragmentNames, tokenNames, unfolds.describes fragmentNames describes⟩

/-- Words of letters, with comments up to the end of the line.  Everything is written
in terms of fragments. -/
def words : Document :=
  let here : Location := .single ⟨0, 1, 1⟩
  { extended := none
    fragments :=
      [⟨"letter", here, .range here (.character here 'a') (.character here 'z')⟩,
        ⟨"break", here, .code here 10⟩,
        ⟨"letters", here, .many here (.reference here "letter")⟩]
    tokens :=
      [⟨"word", here,
        .sequence here [.reference here "letter", .reference here "letters"]⟩]
    comments :=
      [.line (.sequence here
        [.text here "--", .many here (.complement here (.reference here "break"))])]
    whitespace := some (.union here [.code here 32, .reference here "break"]) }

/-- The same with bodies in the place of some references in each section. -/
def unfoldedWords : Document :=
  let here : Location := .single ⟨0, 1, 1⟩
  let there : Location := .single ⟨70, 3, 7⟩
  let letter : Expr := .range there (.character there 'a') (.character there 'z')
  { extended := none
    fragments :=
      [⟨"letter", here, .range here (.character here 'a') (.character here 'z')⟩,
        ⟨"break", here, .code here 10⟩,
        ⟨"letters", here, .many here letter⟩]
    tokens :=
      [⟨"word", here,
        .sequence here
          [.reference here "letter", .paren there (.many there (.paren there letter))]⟩]
    comments :=
      [.line (.sequence here
        [.text here "--", .many here (.complement here (.paren there (.code there 10)))])]
    whitespace := some (.union here [.code here 32, .code there 10]) }

theorem words_unfold : words.Unfolds unfoldedWords where
  extended := rfl
  tokens := .cons ⟨rfl, .sequence (.cons .reference (.cons
    (.enclosed (.body (.tail _ (.tail _ (.head _)))
      (.many (.enclosed (.body (.head _) (.range .character .character)))))) .nil))⟩ .nil
  comments := .cons (.line (.sequence (.cons .text (.cons
    (.many (.complement (.enclosed (.body (.tail _ (.head _)) .code)))) .nil)))) .nil
  whitespace := .some (.union (.cons .code (.cons
    (.body (.tail _ (.head _)) .code) .nil)))
  fragments := .cons ⟨rfl, .refl _ _⟩ (.cons ⟨rfl, .refl _ _⟩ (.cons
    ⟨rfl, .many (.body (.head _) (.range .character .character))⟩ .nil))

theorem words_translate_isOk : words.translate.isOk = true := by
  decide +kernel

theorem words_translate_unfolded :
    words.Unfolds unfoldedWords ∧ ∃ definition, words.translate = .ok definition ∧
      unfoldedWords.translate = .ok definition := by
  obtain ⟨definition, isOk⟩ := exists_translate_eq_ok words_translate_isOk
  exact ⟨words_unfold, definition, isOk, translate_unfolded words_unfold isOk⟩

end Document

/-! ## The order of fragments -/

namespace Declaration

variable {table result other : Table String Fragment} {declarations : List Declaration}

theorem exists_get?_tableFrom? (isTable : tableFrom? table declarations = some result)
    {name : String}
    (isKnown : (∃ value, table.get? name = some value) ∨
      name ∈ declarations.map Declaration.name) :
    ∃ value, result.get? name = some value := by
  induction declarations generalizing table with
  | nil =>
      cases isTable
      exact isKnown.resolve_right List.not_mem_nil
  | cons declaration later induction =>
      obtain ⟨value, _, isTable⟩ := Option.bind_eq_some_iff.mp isTable
      apply induction isTable
      by_cases isFirst : name = declaration.name
      · exact .inl ⟨value, by simp [Table.get?_insert, isFirst]⟩
      · simpa [Table.get?_insert, isFirst] using isKnown

/-- Fragments lead to values that a grounded table has for them already. -/
theorem isWithin_of_areGrounded (isTable : tableFrom? table declarations = some result)
    (within : table.IsWithin other) (grounded : AreGrounded declarations other)
    (known : ∀ declaration ∈ declarations, ∃ value,
      other.get? declaration.name = some value) :
    result.IsWithin other := by
  induction declarations generalizing table with
  | nil =>
      cases isTable
      exact within
  | cons declaration later induction =>
      obtain ⟨value, isMeaning, isTable⟩ := Option.bind_eq_some_iff.mp isTable
      obtain ⟨content, isContent⟩ := known declaration List.mem_cons_self
      have isOther := grounded declaration List.mem_cons_self content isContent
      rw [Expr.meaning?_of_isWithin within isMeaning] at isOther
      cases isOther
      apply induction isTable (within.insert isContent)
      · exact fun declaration member =>
          grounded declaration (List.mem_cons_of_mem _ member)
      · exact fun declaration member => known declaration (List.mem_cons_of_mem _ member)

/-- Of two orders of the same fragments, each leads to a table within that of the
other one. -/
theorem isWithin_of_perm {others : List Declaration}
    (permuted : declarations.Perm others)
    (distinct : (others.map Declaration.name).Nodup)
    (isTable : tableFrom? ∅ declarations = some result)
    (isOther : tableFrom? ∅ others = some other) : result.IsWithin other := by
  have grounded := ((IsStage.start others).run distinct isOther).grounded
  apply isWithin_of_areGrounded isTable nofun
  · intro declaration member
    exact grounded declaration (permuted.mem_iff.mp member)
  · intro declaration member
    apply exists_get?_tableFrom? isOther
    exact .inr (List.mem_map_of_mem (permuted.mem_iff.mp member))

end Declaration

namespace Document

variable {document : Document} {definition other : Definition}

/-- What a document describes depends on its fragments only through their values. -/
theorem Describes.eq_of_fragments_eq {fragments : List Declaration}
    (describes : document.Describes definition)
    (describesOther : { document with fragments }.Describes other)
    (sameFragments : definition.fragments = other.fragments) : definition = other := by
  have sameTokens := describes.tokens
  have sameComments := describes.comments
  have sameWhitespace := describes.whitespace
  rw [sameFragments] at sameTokens sameComments sameWhitespace
  obtain ⟨tokens, comments, whitespace, table⟩ := definition
  obtain ⟨otherTokens, otherComments, otherWhitespace, otherTable⟩ := other
  simp only [Definition.mk.injEq]
  refine ⟨?_, ?_, ?_, sameFragments⟩
  · exact Option.some.inj (sameTokens.symm.trans describesOther.tokens)
  · exact Option.some.inj (sameComments.symm.trans describesOther.comments)
  · exact Option.some.inj (sameWhitespace.symm.trans describesOther.whitespace)

/-- Wherever two orders of the fragments both translate, they translate to the same
definition. -/
theorem translate_eq_of_fragments_perm {fragments : List Declaration}
    (permuted : document.fragments.Perm fragments)
    (isOk : document.translate = .ok definition)
    (isOtherOk : { document with fragments }.translate = .ok other) :
    definition = other := by
  obtain ⟨_, names, _, describes⟩ := translate_eq_ok_iff.mp isOk
  obtain ⟨_, otherNames, _, describesOther⟩ := translate_eq_ok_iff.mp isOtherOk
  apply describes.eq_of_fragments_eq describesOther
  apply Table.IsWithin.antisymm
  · exact Declaration.isWithin_of_perm permuted otherNames describes.fragments
      describesOther.fragments
  · exact Declaration.isWithin_of_perm permuted.symm names describesOther.fragments
      describes.fragments

/-- The fragments of `words`, with the line break after the others. -/
def wordFragments : List Declaration :=
  let here : Location := .single ⟨0, 1, 1⟩
  [⟨"letter", here, .range here (.character here 'a') (.character here 'z')⟩,
    ⟨"letters", here, .many here (.reference here "letter")⟩,
    ⟨"break", here, .code here 10⟩]

theorem words_translate_eq_in_other_order :
    words.fragments.Perm wordFragments ∧ ∃ definition,
      words.translate = .ok definition ∧
        { words with fragments := wordFragments }.translate = .ok definition := by
  have permuted : words.fragments.Perm wordFragments := (List.Perm.swap _ _ []).cons _
  have isOtherOk : { words with fragments := wordFragments }.translate.isOk = true := by
    decide +kernel
  obtain ⟨definition, isOk⟩ := exists_translate_eq_ok words_translate_isOk
  obtain ⟨other, isOther⟩ := exists_translate_eq_ok isOtherOk
  refine ⟨permuted, definition, isOk, ?_⟩
  rw [translate_eq_of_fragments_perm permuted isOk isOther]
  exact isOther

end Document

end LexGen
