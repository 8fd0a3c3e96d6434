import LexGen.Proofs.Translation.Sections

/-!
# Issues about names

A section goes on with what its earlier declarations define, so that a declaration
whose body yields no value is as good as absent: its name may be given again, and is
unknown where it is referred to.  Where every body yields a value, the names that are
declared decide.
-/

namespace LexGen

theorem Draft.empty_addExtension_definition (extended : Option Expr) :
    (empty.addExtension extended).definition = ∅ := by
  cases extended with
  | none => rfl
  | some expr => rfl

def Draft.ofFragments (document : Document) : Draft :=
  document.fragments.foldl addFragment (empty.addExtension document.extended)

theorem Draft.ofFragments_definition (document : Document) :
    (ofFragments document).definition =
      { (∅ : Definition) with
        fragments := Declaration.fragmentsOf document.fragments } := by
  rw [ofFragments, foldl_addFragment_definition, empty_addExtension_definition]
  rfl

namespace Document

open Declaration (fragmentsOf Defines)

theorem reported_eq (document : Document) :
    document.reported = (Draft.ofDocument document).issues := by
  rw [reported, translate]
  cases isIssues : (Draft.ofDocument document).issues with
  | nil => simp
  | cons issue issues => simp

/-- The issues about names are those of the fragments, those of tokens whose name is
taken and those of references outside fragments. -/
theorem mem_reported_iff (document : Document) {issue : Issue}
    (isName : issue.cause.isAboutName = true) :
    issue ∈ document.reported ↔
      AtSome
        (fun before declaration =>
          Defines before declaration.name ∧
              issue = ⟨declaration.location, .duplicateFragment declaration.name⟩ ∨
            ¬ Defines before declaration.name ∧
              issue ∈
                Expr.unknownAmong (fragmentsOf before) declaration.body.references)
        document.fragments ∨
      AtSome
        (fun before declaration =>
          issue = ⟨declaration.location, .duplicateToken declaration.name⟩ ∧
            ∃ earlier ∈ before, earlier.name = declaration.name ∧
              earlier.body.yields (fragmentsOf document.fragments) = true)
        document.tokens ∨
      ∃ expr ∈ document.expressions,
        issue ∈ Expr.unknownAmong (fragmentsOf document.fragments) expr.references := by
  let withTokens := document.tokens.foldl Draft.addToken (Draft.ofFragments document)
  let withComments := document.comments.foldl Draft.addComment withTokens
  have notStarted : issue ∉ (Draft.empty.addExtension document.extended).issues := by
    cases document.extended with
    | none => exact List.not_mem_nil
    | some expr =>
        intro isExtension
        rw [List.mem_singleton.mp isExtension] at isName
        cases isName
  have noFragments :
      (Draft.empty.addExtension document.extended).definition.fragments = ∅ :=
    congrArg Definition.fragments (Draft.empty_addExtension_definition document.extended)
  have isTable : (Draft.ofFragments document).definition.fragments =
      fragmentsOf document.fragments :=
    congrArg Definition.fragments (Draft.ofFragments_definition document)
  have noTokens : (Draft.ofFragments document).definition.tokens = [] :=
    congrArg Definition.tokens (Draft.ofFragments_definition document)
  have sameTable := (Draft.foldl_addToken (Draft.ofFragments document) document.tokens).1
  have stillTable :=
    Draft.foldl_addComment_fragments withTokens document.comments
  have isDraft : Draft.ofDocument document = withComments.addWhitespace document.whitespace :=
    rfl
  rw [reported_eq, isDraft, Draft.mem_addWhitespace_iff isName,
    Draft.mem_addComments_iff isName, Draft.mem_addTokens_iff isName noTokens,
    stillTable, sameTable, isTable, Draft.ofFragments,
    Draft.mem_addFragments_iff isName noFragments, or_iff_right notStarted]
  simp only [expressions, List.mem_append, List.mem_map, or_and_right, exists_or,
    exists_exists_and_eq_and, or_assoc]

section Issues

variable {document : Document} {location : Location} {name : String}

theorem duplicateFragment_reported_iff :
    ⟨location, .duplicateFragment name⟩ ∈ document.reported ↔
      AtSome
        (fun before declaration => declaration.location = location ∧
          declaration.name = name ∧ Defines before name)
        document.fragments := by
  rw [mem_reported_iff document rfl]
  simp only [Expr.mem_unknownAmong_iff, Issue.mk.injEq, Cause.duplicateFragment.injEq,
    reduceCtorEq, false_and, and_false, exists_false, or_false, AtSome.false_iff]
  apply AtSome.congr
  intro before declaration _ _
  constructor
  · intro isIssue
    obtain ⟨isDefined, isLocation, isName⟩ := isIssue
    subst isLocation
    subst isName
    exact ⟨rfl, rfl, isDefined⟩
  · intro isDeclared
    obtain ⟨isLocation, isName, isDefined⟩ := isDeclared
    subst isLocation
    subst isName
    exact ⟨isDefined, rfl, rfl⟩

theorem duplicateToken_reported_iff :
    ⟨location, .duplicateToken name⟩ ∈ document.reported ↔
      AtSome
        (fun before declaration => declaration.location = location ∧
          declaration.name = name ∧
          ∃ earlier ∈ before, earlier.name = name ∧
            earlier.body.yields (fragmentsOf document.fragments) = true)
        document.tokens := by
  rw [mem_reported_iff document rfl]
  simp only [Expr.mem_unknownAmong_iff, Issue.mk.injEq, Cause.duplicateToken.injEq,
    reduceCtorEq, false_and, and_false, exists_false, or_false, false_or,
    AtSome.false_iff]
  apply AtSome.congr
  intro before declaration _ _
  constructor
  · intro isIssue
    obtain ⟨⟨isLocation, isName⟩, isTaken⟩ := isIssue
    subst isLocation
    subst isName
    exact ⟨rfl, rfl, isTaken⟩
  · intro isDeclared
    obtain ⟨isLocation, isName, isTaken⟩ := isDeclared
    subst isLocation
    subst isName
    exact ⟨⟨rfl, rfl⟩, isTaken⟩

theorem unknownFragment_reported_iff :
    ⟨location, .unknownFragment name⟩ ∈ document.reported ↔
      AtSome
        (fun before declaration => ¬ Defines before declaration.name ∧
          (location, name) ∈ declaration.body.references ∧ ¬ Defines before name)
        document.fragments ∨
      ¬ Defines document.fragments name ∧
        ∃ expr ∈ document.expressions, (location, name) ∈ expr.references := by
  rw [mem_reported_iff document rfl]
  simp only [Expr.mem_unknownAmong_iff, Issue.mk.injEq, Cause.unknownFragment.injEq,
    Declaration.contains_fragmentsOf_eq_false_iff, reduceCtorEq, false_and, and_false,
    exists_eq_left', false_or, AtSome.false_iff]
  apply or_congr Iff.rfl
  constructor
  · intro isUnknown
    obtain ⟨expr, member, isReference, isUndefined⟩ := isUnknown
    exact ⟨isUndefined, expr, member, isReference⟩
  · intro isUnknown
    obtain ⟨isUndefined, expr, member, isReference⟩ := isUnknown
    exact ⟨expr, member, isReference, isUndefined⟩

end Issues

/-- What decides over the issues about names are the declarations whose bodies yield
a value.  A fragment or token has a duplicate name exactly if one of these before it
has the name, and a reference is unknown exactly if none of these that it may refer
to has the name. -/
theorem reported_names_iff (document : Document) (location : Location)
    (name : String) :
    (⟨location, .duplicateFragment name⟩ ∈ document.reported ↔
      AtSome
        (fun before declaration => declaration.location = location ∧
          declaration.name = name ∧ Defines before name)
        document.fragments) ∧
    (⟨location, .duplicateToken name⟩ ∈ document.reported ↔
      AtSome
        (fun before declaration => declaration.location = location ∧
          declaration.name = name ∧
          ∃ earlier ∈ before, earlier.name = name ∧
            earlier.body.yields (fragmentsOf document.fragments) = true)
        document.tokens) ∧
    (⟨location, .unknownFragment name⟩ ∈ document.reported ↔
      AtSome
        (fun before declaration => ¬ Defines before declaration.name ∧
          (location, name) ∈ declaration.body.references ∧ ¬ Defines before name)
        document.fragments ∨
      ¬ Defines document.fragments name ∧
        ∃ expr ∈ document.expressions, (location, name) ∈ expr.references) :=
  ⟨duplicateFragment_reported_iff, duplicateToken_reported_iff,
    unknownFragment_reported_iff⟩

/-- A fragment and a token that are declared, but whose bodies yield no value: the
name of the fragment is unknown, and that of the token may be given again. -/
theorem failed_bodies_hide_names :
    let spot (column : Nat) : Location := .single ⟨column, 1, column + 1⟩
    let document : Document :=
      { extended := none
        fragments := [⟨"f", spot 0, .code (spot 4) 300⟩]
        tokens :=
          [⟨"t", spot 10, .reference (spot 14) "f"⟩,
            ⟨"t", spot 20, .character (spot 24) 'x'⟩]
        comments := []
        whitespace := none }
    ((∃ declaration ∈ document.fragments, declaration.name = "f") ∧
      ⟨spot 14, .unknownFragment "f"⟩ ∈ document.reported) ∧
    AtSome
      (fun before declaration => declaration.location = spot 20 ∧
        declaration.name = "t" ∧ ∃ earlier ∈ before, earlier.name = "t")
      document.tokens ∧
    ⟨spot 20, .duplicateToken "t"⟩ ∉ document.reported := by
  intro spot document
  have reported : document.reported =
      [⟨spot 4, .codeOutOfRange 300⟩, ⟨spot 14, .unknownFragment "f"⟩] := by
    decide +kernel
  rw [reported]
  refine ⟨⟨⟨_, List.mem_singleton_self _, rfl⟩, ?_⟩, ?_, ?_⟩
  · exact List.mem_cons_of_mem _ (List.mem_singleton_self _)
  · exact ⟨[_], _, [], rfl, rfl, rfl, _, List.mem_singleton_self _, rfl⟩
  · decide

section Yielding

variable {document : Document}
  (fragmentsYield : ∀ before declaration after,
    document.fragments = before ++ declaration :: after →
      declaration.body.yields (fragmentsOf before) = true)
  (tokensYield : ∀ declaration ∈ document.tokens,
    declaration.body.yields (fragmentsOf document.fragments) = true)

include fragmentsYield in
theorem defines_iff_of_yielding {before after : List Declaration}
    (isSplit : document.fragments = before ++ after) {name : String} :
    Defines before name ↔ ∃ declaration ∈ before, declaration.name = name := by
  constructor
  · intro defines
    obtain ⟨earlier, declaration, later, isBefore, isName, _⟩ := defines
    rw [isBefore]
    exact ⟨declaration, List.mem_append_right earlier List.mem_cons_self, isName⟩
  · intro isDeclared
    obtain ⟨declaration, member, isName⟩ := isDeclared
    obtain ⟨earlier, later, isBefore⟩ := List.append_of_mem member
    refine ⟨earlier, declaration, later, isBefore, isName, ?_⟩
    apply fragmentsYield earlier declaration (later ++ after)
    rw [isSplit, isBefore, List.append_assoc, List.cons_append]

include fragmentsYield tokensYield in
/-- Where every body yields a value, with or without issues, the declared names
decide. -/
theorem reported_names_of_yielding (location : Location) (name : String) :
    (⟨location, .duplicateFragment name⟩ ∈ document.reported ↔
      AtSome
        (fun before declaration => declaration.location = location ∧
          declaration.name = name ∧ ∃ earlier ∈ before, earlier.name = name)
        document.fragments) ∧
    (⟨location, .duplicateToken name⟩ ∈ document.reported ↔
      AtSome
        (fun before declaration => declaration.location = location ∧
          declaration.name = name ∧ ∃ earlier ∈ before, earlier.name = name)
        document.tokens) ∧
    (⟨location, .unknownFragment name⟩ ∈ document.reported →
      AtSome
        (fun before declaration => (location, name) ∈ declaration.body.references ∧
          ¬ ∃ earlier ∈ before, earlier.name = name)
        document.fragments ∨
      (¬ ∃ declaration ∈ document.fragments, declaration.name = name) ∧
        ∃ expr ∈ document.expressions, (location, name) ∈ expr.references) := by
  refine ⟨?_, ?_, ?_⟩
  · rw [duplicateFragment_reported_iff]
    apply AtSome.congr
    intro before declaration after isSplit
    rw [defines_iff_of_yielding fragmentsYield isSplit]
  · rw [duplicateToken_reported_iff]
    apply AtSome.congr
    intro before declaration after isSplit
    apply and_congr Iff.rfl
    apply and_congr Iff.rfl
    apply exists_congr
    intro earlier
    apply and_congr_right
    intro member
    apply and_iff_left
    apply tokensYield
    rw [isSplit]
    exact List.mem_append_left _ member
  · rw [unknownFragment_reported_iff]
    intro isUnknown
    cases isUnknown with
    | inl inFragment =>
        obtain ⟨before, declaration, after, isSplit, _, isReference, isUndefined⟩ :=
          inFragment
        rw [defines_iff_of_yielding fragmentsYield isSplit] at isUndefined
        exact .inl ⟨before, declaration, after, isSplit, isReference, isUndefined⟩
    | inr outside =>
        obtain ⟨isUndefined, isReference⟩ := outside
        rw [defines_iff_of_yielding fragmentsYield (List.append_nil _).symm] at isUndefined
        exact .inr ⟨isUndefined, isReference⟩

end Yielding

end Document

end LexGen
