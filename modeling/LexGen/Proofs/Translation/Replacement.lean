import LexGen.Proofs.Translation.Names
import LexGen.Translation.Rewriting

/-!
# Replacing a part affects the issues of that part only

Where the names of tokens are given once, what is reported about a document consists
of a segment for what comes up to its fragments and one for each further part.  The
fragments do not depend on the other parts, and the segment of a part depends on the
fragments and the part alone.
-/

namespace LexGen

namespace Draft

variable (draft : Draft)

theorem foldl_addToken_issues {declarations : List Declaration}
    (distinct : (declarations.map Declaration.name).Nodup)
    (areNew : ∀ declaration ∈ declarations,
      draft.definition.hasToken declaration.name = false) :
    (declarations.foldl addToken draft).issues =
      draft.issues ++
        declarations.flatMap (Declaration.bodyIssues draft.definition.fragments) := by
  induction declarations generalizing draft with
  | nil => exact (List.append_nil draft.issues).symm
  | cons declaration later induction =>
      rw [List.map_cons, List.nodup_cons] at distinct
      have isNew := areNew declaration List.mem_cons_self
      have laterAreNew (other : Declaration) (member : other ∈ later) :
          (draft.addToken declaration).definition.hasToken other.name = false := by
        have differs : other.name ≠ declaration.name :=
          ne_of_mem_of_not_mem (List.mem_map_of_mem member) distinct.1
        rw [addToken_hasToken]
        simp [differs.symm, areNew other (List.mem_cons_of_mem declaration member)]
      rw [List.foldl_cons, induction (draft.addToken declaration) distinct.2 laterAreNew,
        addToken_issues, addToken_fragments, isNew]
      simp

end Draft

namespace Document

open Declaration (fragmentsOf bodyIssues)

section Segments

def preamble (document : Document) : Document :=
  { document with tokens := [], comments := [], whitespace := none }

/-- What is at issue about a token, given the fragments of the document. -/
def tokenIssues (document : Document) : Declaration → List Issue :=
  bodyIssues (fragmentsOf document.fragments)

def commentIssues (document : Document) : CommentSyntax → List Issue :=
  CommentSyntax.issues (fragmentsOf document.fragments)

def whitespaceIssues (document : Document) (whitespace : Option Expr) : List Issue :=
  whitespace.toList.flatMap (Expr.whitespaceIssues (fragmentsOf document.fragments))

@[simp] theorem whitespaceIssues_none (document : Document) :
    document.whitespaceIssues none = [] :=
  rfl

theorem reported_with_parts (document : Document) {tokens : List Declaration}
    (distinct : (tokens.map Declaration.name).Nodup) (comments : List CommentSyntax)
    (whitespace : Option Expr) :
    reported { document with tokens, comments, whitespace } =
      document.preamble.reported ++ tokens.flatMap document.tokenIssues ++
        comments.flatMap document.commentIssues ++
        document.whitespaceIssues whitespace := by
  let started := Draft.ofFragments document
  have isPreamble : Draft.ofDocument document.preamble = started := rfl
  have isDraft : Draft.ofDocument { document with tokens, comments, whitespace } =
      (comments.foldl Draft.addComment
        (tokens.foldl Draft.addToken started)).addWhitespace whitespace := rfl
  have isDefinition := Draft.ofFragments_definition document
  have areNew (declaration : Declaration) (_ : declaration ∈ tokens) :
      started.definition.hasToken declaration.name = false := by
    rw [isDefinition, Definition.hasToken_eq_any]
    rfl
  rw [reported_eq, reported_eq, isPreamble, isDraft, Draft.addWhitespace_issues,
    Draft.foldl_addComment_fragments, Draft.foldl_addComment_issues,
    Draft.foldl_addToken_issues started distinct areNew,
    (Draft.foldl_addToken started tokens).1, isDefinition]
  rfl

end Segments

section Lists

variable {α β γ : Type}

/-- A list of reports with one of them left out, as it is, and replaced. -/
theorem exists_segments (report : α → List β) (change : α → α) (items : List α)
    (index : Nat) :
    ∃ own changed after,
      (items.eraseIdx index).flatMap report =
        (items.take index).flatMap report ++ after ∧
      items.flatMap report = (items.take index).flatMap report ++ own ++ after ∧
      (items.modify index change).flatMap report =
        (items.take index).flatMap report ++ changed ++ after := by
  induction items generalizing index with
  | nil => exact ⟨[], [], [], by simp⟩
  | cons item items induction =>
      cases index with
      | zero => exact ⟨report item, report (change item), items.flatMap report, by simp⟩
      | succ index =>
          obtain ⟨own, changed, after, without, asIs, replaced⟩ := induction index
          refine ⟨own, changed, after, ?_, ?_, ?_⟩
          · simp [without]
          · simp [asIs]
          · simp [replaced]

/-- What is read from the other items is not affected by changing one of them. -/
theorem exists_eq_modify_of_mapM_modify [Nonempty γ] {read? : α → Option β}
    {change : α → α} (update : γ → β → β)
    (reads : ∀ {item value other}, read? item = some value →
      read? (change item) = some other → ∃ content, other = update content value)
    (items : List α) (index : Nat) {values others : List β}
    (areValues : items.mapM read? = some values)
    (areOthers : (items.modify index change).mapM read? = some others) :
    ∃ content, others = values.modify index (update content) := by
  induction items generalizing index values others with
  | nil =>
      cases areValues
      cases index <;> cases areOthers <;> exact ⟨Classical.ofNonempty, by simp⟩
  | cons item items induction =>
      simp only [List.mapM_cons, Option.bind_eq_bind, Option.bind_eq_some_iff] at areValues
      obtain ⟨value, isValue, laterValues, areLaterValues, areValues⟩ := areValues
      cases areValues
      cases index with
      | zero =>
          simp only [List.modify_zero_cons, List.mapM_cons, Option.bind_eq_bind,
            Option.bind_eq_some_iff] at areOthers
          obtain ⟨other, isOther, laterOthers, areLaterOthers, areOthers⟩ := areOthers
          cases areOthers
          rw [areLaterValues] at areLaterOthers
          cases areLaterOthers
          obtain ⟨content, isUpdated⟩ := reads isValue isOther
          exact ⟨content, by simp [isUpdated]⟩
      | succ index =>
          simp only [List.modify_succ_cons, List.mapM_cons, Option.bind_eq_bind,
            Option.bind_eq_some_iff] at areOthers
          obtain ⟨other, isOther, laterOthers, areLaterOthers, areOthers⟩ := areOthers
          cases areOthers
          rw [isValue] at isOther
          cases isOther
          obtain ⟨content, areUpdated⟩ := induction index areLaterValues areLaterOthers
          exact ⟨content, by simp [areUpdated]⟩

theorem map_modify_of_same {view : α → β} {change : α → α}
    (same : ∀ item, view (change item) = view item) (items : List α) (index : Nat) :
    (items.modify index change).map view = items.map view := by
  apply List.ext_getElem
  · simp
  · intro position _ _
    simp [List.getElem_modify, apply_ite view, same]

end Lists

section Replace

variable {document : Document}

/-- Whatever part is replaced, what is reported up to it and after it stays. -/
theorem reported_replace (distinct : (document.tokens.map Declaration.name).Nodup)
    (replacement : Replacement) :
    ∃ own changed after,
      (document.without replacement).reported =
        (document.upTo replacement).reported ++ after ∧
      document.reported = (document.upTo replacement).reported ++ own ++ after ∧
      (document.replace replacement).reported =
        (document.upTo replacement).reported ++ changed ++ after := by
  have asWritten := document.reported_with_parts distinct document.comments
    document.whitespace
  cases replacement with
  | token index body =>
      let change (declaration : Declaration) : Declaration := { declaration with body }
      obtain ⟨own, changed, after, leftOut, asIs, replaced⟩ :=
        exists_segments document.tokenIssues change document.tokens index
      have keepsName (declaration : Declaration) :
          (change declaration).name = declaration.name := rfl
      have sameNames := map_modify_of_same keepsName document.tokens index
      have distinctReplaced := sameNames ▸ distinct
      have distinctErased := distinct.sublist
        ((List.eraseIdx_sublist document.tokens index).map Declaration.name)
      have distinctEarlier := distinct.sublist
        ((List.take_sublist index document.tokens).map Declaration.name)
      refine ⟨own, changed, after ++ document.comments.flatMap document.commentIssues ++
        document.whitespaceIssues document.whitespace, ?_, ?_, ?_⟩
      · rw [Document.without, upTo, reported_with_parts _ distinctErased,
          reported_with_parts _ distinctEarlier, leftOut]
        simp
      · rw [asWritten, upTo, reported_with_parts _ distinctEarlier, asIs]
        simp
      · rw [Document.replace, upTo, reported_with_parts _ distinctReplaced,
          reported_with_parts _ distinctEarlier, replaced]
        simp
  | comment index comment =>
      obtain ⟨own, changed, after, leftOut, asIs, replaced⟩ :=
        exists_segments document.commentIssues (fun _ => comment) document.comments index
      refine ⟨own, changed, after ++ document.whitespaceIssues document.whitespace,
        ?_, ?_, ?_⟩
      · rw [Document.without, upTo, reported_with_parts _ distinct,
          reported_with_parts _ distinct, leftOut]
        simp
      · rw [asWritten, upTo, reported_with_parts _ distinct, asIs]
        simp
      · rw [Document.replace, upTo, reported_with_parts _ distinct,
          reported_with_parts _ distinct, replaced]
        simp
  | whitespace whitespace =>
      refine ⟨document.whitespaceIssues document.whitespace,
        document.whitespaceIssues whitespace, [], (List.append_nil _).symm, ?_, ?_⟩
      · rw [asWritten, upTo, reported_with_parts _ distinct]
        simp
      · rw [Document.replace, upTo, reported_with_parts _ distinct,
          reported_with_parts _ distinct]
        simp

theorem token?_withBody {fragments : Table String Fragment} {body : Expr}
    {declaration : Declaration} {token other : Token}
    (isToken : declaration.token? fragments = some token)
    (isOther : Declaration.token? fragments { declaration with body } = some other) :
    ∃ pattern, other = { token with pattern } := by
  obtain ⟨fragment, _, hasName⟩ := Option.bind_eq_some_iff.mp isToken
  obtain ⟨otherFragment, _, hasOtherName⟩ := Option.bind_eq_some_iff.mp isOther
  cases hasName
  cases hasOtherName
  exact ⟨otherFragment.toRegex, rfl⟩

/-- The other parts of the definition stay as well. -/
theorem translate_replace {replacement : Replacement} {definition other : Definition}
    (isOk : document.translate = .ok definition)
    (isOther : (document.replace replacement).translate = .ok other) :
    definition.DiffersOnlyIn replacement other := by
  obtain ⟨_, _, _, describes⟩ := translate_eq_ok_iff.mp isOk
  obtain ⟨_, _, _, describesOther⟩ := translate_eq_ok_iff.mp isOther
  have sameTable : (document.replace replacement).fragmentTable? =
      document.fragmentTable? := by
    cases replacement <;> rfl
  have sameFragments : definition.fragments = other.fragments := by
    apply Option.some.inj
    rw [← describes.fragments, ← sameTable]
    exact describesOther.fragments
  obtain ⟨tokens, comments, whitespace, fragments⟩ := definition
  obtain ⟨otherTokens, otherComments, otherWhitespace, otherFragments⟩ := other
  cases sameFragments
  cases replacement with
  | token index body =>
      have somePattern : Nonempty Regex := ⟨.sequence []⟩
      cases describes.comments.symm.trans describesOther.comments
      cases describes.whitespace.symm.trans describesOther.whitespace
      obtain ⟨pattern, isModified⟩ :=
        exists_eq_modify_of_mapM_modify
          (fun pattern token => ({ token with pattern } : Token)) token?_withBody
          document.tokens index describes.tokens describesOther.tokens
      cases isModified
      exact ⟨pattern, rfl⟩
  | comment index comment =>
      have someComment : Nonempty Comment := ⟨.line (.sequence [])⟩
      cases describes.tokens.symm.trans describesOther.tokens
      cases describes.whitespace.symm.trans describesOther.whitespace
      obtain ⟨read, isModified⟩ :=
        exists_eq_modify_of_mapM_modify (fun read _ => read)
          (fun _ _ => ⟨_, rfl⟩) document.comments index describes.comments
          describesOther.comments
      cases isModified
      exact ⟨read, rfl⟩
  | whitespace whitespace =>
      cases describes.tokens.symm.trans describesOther.tokens
      cases describes.comments.symm.trans describesOther.comments
      exact ⟨otherWhitespace, rfl⟩

/-- Replacing the body of a token, a comment or the whitespace changes one segment
of the issues, after what is reported up to that part.  Where both documents
translate, the definitions differ in what the part stands for. -/
theorem replace_affects_one_part
    (distinct : (document.tokens.map Declaration.name).Nodup)
    (replacement : Replacement) :
    (∃ own changed after,
      (document.without replacement).reported =
        (document.upTo replacement).reported ++ after ∧
      document.reported = (document.upTo replacement).reported ++ own ++ after ∧
      (document.replace replacement).reported =
        (document.upTo replacement).reported ++ changed ++ after) ∧
    ∀ definition other, document.translate = .ok definition →
      (document.replace replacement).translate = .ok other →
      definition.DiffersOnlyIn replacement other :=
  ⟨reported_replace distinct replacement, fun _ _ => translate_replace⟩

theorem numbers_replaced_part_by_part :
    let here : Location := .single ⟨0, 1, 1⟩
    let faulty := numbers.replace (.comment 0 (.line (.code here 300)))
    let signed : Replacement := .token 0 (.reference here "sign")
    let hashed : Replacement := .comment 0 (.line (.text here "#"))
    ((faulty.tokens.map Declaration.name).Nodup ∧ ∃ own changed after,
      (faulty.without signed).reported = (faulty.upTo signed).reported ++ after ∧
      faulty.reported = (faulty.upTo signed).reported ++ own ++ after ∧
      (faulty.replace signed).reported =
        (faulty.upTo signed).reported ++ changed ++ after) ∧
    (numbers.tokens.map Declaration.name).Nodup ∧ ∃ definition other,
      numbers.translate = .ok definition ∧
      (numbers.replace hashed).translate = .ok other ∧
      definition.DiffersOnlyIn hashed other := by
  intro here faulty signed hashed
  have distinct : (numbers.tokens.map Declaration.name).Nodup :=
    numbers_isWellFormed.tokenNames
  have faultyDistinct : (faulty.tokens.map Declaration.name).Nodup := distinct
  have isOk : numbers.translate.isOk = true := by decide +kernel
  have isOther : (numbers.replace hashed).translate.isOk = true := by decide +kernel
  obtain ⟨definition, isOk⟩ := exists_translate_eq_ok isOk
  obtain ⟨other, isOther⟩ := exists_translate_eq_ok isOther
  exact ⟨⟨faultyDistinct, (replace_affects_one_part faultyDistinct signed).1⟩,
    distinct, definition, other, isOk, isOther,
    (replace_affects_one_part distinct hashed).2 definition other isOk isOther⟩

end Replace

end Document

end LexGen
