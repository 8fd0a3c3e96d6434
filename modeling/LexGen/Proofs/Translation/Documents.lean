import LexGen.Proofs.Translation.Evaluation
import LexGen.Translation.Basic

/-!
# A document translates exactly if it describes a definition

Translating goes on after an issue, with a definition that lacks what could not
be read, and looks for taken names in what there is of it.  As for expressions,
each step settles what it means for a definition without issues, and issues stay
once they are met.  What the steps of a section mean together is what the section
describes.
-/

namespace LexGen

namespace Definition

/-- Extend a definition by a declaration whose name must not be taken. -/
def unlessTaken (taken : Definition → String → Bool)
    (extend? : Definition → Declaration → Option Definition)
    (definition : Definition) (declaration : Declaration) : Option Definition :=
  if taken definition declaration.name then none
  else extend? definition declaration

def withFragment? (definition : Definition) (declaration : Declaration) :
    Option Definition :=
  (declaration.body.meaning? definition.fragments).map fun fragment =>
    { definition with
      fragments := definition.fragments.insert declaration.name fragment }

def withTokens (definition : Definition) (tokens : List Token) : Definition :=
  { definition with tokens := definition.tokens ++ tokens }

def withToken? (definition : Definition) (declaration : Declaration) :
    Option Definition :=
  (declaration.token? definition.fragments).map fun token =>
    definition.withTokens [token]

def withComments (definition : Definition) (comments : List Comment) : Definition :=
  { definition with comments := definition.comments ++ comments }

def withComment? (definition : Definition) (comment : CommentSyntax) :
    Option Definition :=
  (comment.meaning? definition.fragments).map fun comment =>
    definition.withComments [comment]

def withWhitespace? (definition : Definition) : Option Expr → Option Definition
  | some expr =>
      ((expr.meaning? definition.fragments).bind Fragment.set?).map
        definition.setWhitespace
  | none => some definition

/-- Names of a section are new to the definition and given once. -/
theorem foldlM_unlessTaken_eq_some_iff {taken : Definition → String → Bool}
    {extend? : Definition → Declaration → Option Definition}
    (takes : ∀ {definition declaration extended},
      extend? definition declaration = some extended → ∀ name,
        taken extended name = (name == declaration.name || taken definition name))
    {definition result : Definition} {declarations : List Declaration} :
    declarations.foldlM (unlessTaken taken extend?) definition = some result ↔
      (declarations.map Declaration.name).Nodup ∧
        (∀ declaration ∈ declarations, taken definition declaration.name = false) ∧
        declarations.foldlM extend? definition = some result := by
  induction declarations generalizing definition with
  | nil => simp
  | cons first later induction =>
      rw [List.foldlM_cons, List.foldlM_cons, unlessTaken]
      cases isTaken : taken definition first.name with
      | true => simp [isTaken]
      | false =>
          cases isExtended : extend? definition first with
          | none => simp
          | some extended =>
              have laterFresh :
                  (∀ declaration ∈ later, taken extended declaration.name = false) ↔
                    first.name ∉ later.map Declaration.name ∧
                      ∀ declaration ∈ later,
                        taken definition declaration.name = false := by
                simp [takes isExtended, forall_and]
              simp only [Bool.false_eq_true, if_false, Option.bind_eq_bind,
                Option.bind_some, induction, laterFresh, List.map_cons,
                List.nodup_cons, List.forall_mem_cons, isTaken, true_and]
              simp only [and_assoc, and_left_comm]

theorem foldlM_eq_mapM {α β : Type} (read? : Table String Fragment → α → Option β)
    (extend : Definition → List β → Definition)
    (extend_nil : ∀ definition, extend definition [] = definition)
    (extend_extend : ∀ definition value values,
      extend (extend definition [value]) values = extend definition (value :: values))
    (sameFragments : ∀ definition values,
      (extend definition values).fragments = definition.fragments)
    (definition : Definition) (items : List α) :
    items.foldlM
        (fun definition item =>
          (read? definition.fragments item).map fun value => extend definition [value])
        definition =
      (items.mapM (read? definition.fragments)).map (extend definition) := by
  induction items generalizing definition with
  | nil => simp [extend_nil]
  | cons item items induction =>
      rw [List.foldlM_cons, List.mapM_cons]
      cases read? definition.fragments item with
      | none => rfl
      | some value =>
          have isLater := induction (extend definition [value])
          rw [sameFragments] at isLater
          rw [Option.map_some, Option.bind_eq_bind, Option.bind_some, isLater]
          cases items.mapM (read? definition.fragments) with
          | none => rfl
          | some values => exact congrArg some (extend_extend definition value values)

theorem foldlM_withFragment? (definition : Definition)
    (declarations : List Declaration) :
    declarations.foldlM withFragment? definition =
      (Declaration.tableFrom? definition.fragments declarations).map
        fun fragments => { definition with fragments } := by
  induction declarations generalizing definition with
  | nil => rfl
  | cons first later induction =>
      rw [List.foldlM_cons, withFragment?, Declaration.tableFrom?]
      cases first.body.meaning? definition.fragments with
      | none => rfl
      | some fragment =>
          simp [induction]

theorem withFragment?_takes {definition extended : Definition}
    {declaration : Declaration}
    (isExtended : withFragment? definition declaration = some extended)
    (name : String) :
    extended.hasFragment name =
      (name == declaration.name || definition.hasFragment name) := by
  obtain ⟨fragment, _, isResult⟩ := Option.map_eq_some_iff.mp isExtended
  subst isResult
  simp only [hasFragment, Table.contains, Table.get?_insert]
  cases name == declaration.name <;> simp

theorem hasToken_eq_any (definition : Definition) (name : String) :
    definition.hasToken name = definition.tokens.any fun token => token.name == name := by
  rw [hasToken, token?, Option.isSome_map, Bool.eq_iff_iff, List.find?_isSome,
    List.any_eq_true]

theorem withToken?_takes {definition extended : Definition}
    {declaration : Declaration}
    (isExtended : withToken? definition declaration = some extended)
    (name : String) :
    extended.hasToken name =
      (name == declaration.name || definition.hasToken name) := by
  obtain ⟨token, isToken, isResult⟩ := Option.map_eq_some_iff.mp isExtended
  obtain ⟨fragment, _, hasName⟩ := Option.bind_eq_some_iff.mp isToken
  cases hasName
  subst isResult
  simp only [hasToken_eq_any, withTokens, List.any_append, List.any_cons, List.any_nil,
    Bool.or_false]
  rw [Bool.or_comm, Bool.beq_comm]

theorem withWhitespace?_eq_map {document : Document} {definition : Definition}
    (isDefault : definition.whitespace = defaultWhitespace) :
    definition.withWhitespace? document.whitespace =
      (document.whitespaceSet? definition.fragments).map definition.setWhitespace := by
  rw [Document.whitespaceSet?]
  cases document.whitespace with
  | some expr => rfl
  | none =>
      have isSame : definition.setWhitespace defaultWhitespace = definition := by
        rw [← isDefault]
        rfl
      rw [withWhitespace?, Option.map_some, isSame]

end Definition

namespace Draft

open Definition (unlessTaken hasFragment withFragment? hasToken withToken?)

def clean (definition : Definition) : Draft := ⟨definition, []⟩

/-- The draft is the meaning, without any issue, or has issues if there is no
meaning. -/
def Settles (draft : Draft) : Option Definition → Prop
  | some definition => draft = clean definition
  | none => draft.issues ≠ []

/-- Go on to the definition that an outcome has, if it has one. -/
def proceed (draft : Draft) (further : Definition → Outcome Definition) : Draft :=
  let outcome := further draft.definition
  ⟨outcome.value.getD draft.definition, draft.issues ++ outcome.issues⟩

section Steps

variable (draft : Draft) (declaration : Declaration)

def fragmentOutcome (declaration : Declaration) (definition : Definition) :
    Outcome Definition :=
  if definition.hasFragment declaration.name then
    .fail declaration.location (.duplicateFragment declaration.name)
  else
    (declaration.body.evaluate definition.fragments).map fun fragment =>
      { definition with
        fragments := definition.fragments.insert declaration.name fragment }

theorem addFragment_eq_proceed :
    draft.addFragment declaration = draft.proceed (fragmentOutcome declaration) := by
  rw [Draft.addFragment, Draft.proceed, Draft.evaluate, fragmentOutcome]
  cases isTaken : draft.definition.hasFragment declaration.name with
  | true => rfl
  | false =>
      cases isValue : (declaration.body.evaluate draft.definition.fragments).value with
      | none => simp [isValue, Outcome.map, report]
      | some fragment =>
          simp [isTaken, isValue, Outcome.map, report, Definition.addFragment, keep]

/-- What declaring a token does to a definition.  The issues of a body are reported
even if the name is taken. -/
def tokenOutcome (declaration : Declaration) (definition : Definition) :
    Outcome Definition :=
  let outcome := (declaration.body.evaluate definition.fragments).map
    fun fragment => definition.withTokens [⟨declaration.name, fragment.toRegex⟩]
  if definition.hasToken declaration.name then
    ⟨none, outcome.issues ++
      [⟨declaration.location, .duplicateToken declaration.name⟩]⟩
  else outcome

theorem addToken_eq_proceed :
    draft.addToken declaration = draft.proceed (tokenOutcome declaration) := by
  rw [Draft.addToken, Draft.proceed, Draft.evaluate, tokenOutcome]
  cases isTaken : draft.definition.hasToken declaration.name with
  | true => simp [isTaken, Outcome.map, report]
  | false =>
      cases isValue : (declaration.body.evaluate draft.definition.fragments).value with
      | none => simp [isTaken, isValue, Outcome.map, report]
      | some fragment =>
          simp [isTaken, isValue, Outcome.map, report, Definition.addToken,
            Definition.withTokens, keep]

def commentOutcome (comment : CommentSyntax) (definition : Definition) :
    Outcome Definition :=
  ((clean definition).evaluateComment comment).map fun comment =>
    definition.withComments [comment]

theorem addComment_eq_proceed (comment : CommentSyntax) :
    draft.addComment comment = draft.proceed (commentOutcome comment) := by
  have sameFragments : draft.evaluateComment comment =
      (clean draft.definition).evaluateComment comment := by
    cases comment <;> rfl
  rw [Draft.addComment, sameFragments, Draft.proceed, commentOutcome]
  cases isValue : ((clean draft.definition).evaluateComment comment).value with
  | none => simp [Outcome.map, report, isValue]
  | some comment =>
      simp [Outcome.map, report, isValue, Definition.addComment,
        Definition.withComments]

def whitespaceOutcome (expr : Expr) (definition : Definition) : Outcome Definition :=
  ((expr.evaluate definition.fragments).asSet expr.location .whitespaceNotSet).map
    definition.setWhitespace

theorem addWhitespace_eq_proceed (expr : Expr) :
    draft.addWhitespace (some expr) = draft.proceed (whitespaceOutcome expr) := by
  rw [Draft.addWhitespace, Draft.proceed, Draft.evaluate, whitespaceOutcome]
  cases isValue : ((expr.evaluate draft.definition.fragments).asSet expr.location
      .whitespaceNotSet).value with
  | none => simp [Outcome.map, report, isValue]
  | some codes => simp [Outcome.map, report, isValue]

end Steps

namespace Settles

variable {draft : Draft} {meaning : Option Definition}

theorem proceed (settles : draft.Settles meaning)
    {further : Definition → Outcome Definition}
    {further? : Definition → Option Definition}
    (goesOn : ∀ definition, (further definition).Settles (further? definition)) :
    (draft.proceed further).Settles (meaning.bind further?) := by
  cases meaning with
  | none => exact List.append_ne_nil_of_left_ne_nil settles _
  | some definition =>
      have isClean : draft = clean definition := settles
      subst isClean
      have further_settles := goesOn definition
      rw [Option.bind_some]
      cases isFurther : further? definition with
      | none =>
          rw [isFurther] at further_settles
          exact further_settles
      | some next =>
          rw [isFurther] at further_settles
          have isNext : further definition = .succeed next := further_settles
          simp [Settles, Draft.proceed, clean, isNext, Outcome.succeed]

theorem addFragment (settles : draft.Settles meaning) (declaration : Declaration) :
    (draft.addFragment declaration).Settles
      (meaning.bind fun definition =>
        unlessTaken hasFragment withFragment? definition declaration) := by
  rw [addFragment_eq_proceed]
  apply settles.proceed
  intro definition
  rw [fragmentOutcome, unlessTaken]
  cases definition.hasFragment declaration.name with
  | true => exact List.cons_ne_nil _ _
  | false => exact (Expr.evaluate_settles _ _).map _

theorem addToken (settles : draft.Settles meaning) (declaration : Declaration) :
    (draft.addToken declaration).Settles
      (meaning.bind fun definition =>
        unlessTaken hasToken withToken? definition declaration) := by
  rw [addToken_eq_proceed]
  apply settles.proceed
  intro definition
  rw [tokenOutcome, unlessTaken]
  cases definition.hasToken declaration.name with
  | true => exact List.append_ne_nil_of_right_ne_nil _ (List.cons_ne_nil _ _)
  | false =>
      have isMeaning : withToken? definition declaration =
          (declaration.body.meaning? definition.fragments).map fun fragment =>
            definition.withTokens [⟨declaration.name, fragment.toRegex⟩] := by
        rw [withToken?, Declaration.token?, bind_pure_comp]
        exact Option.map_map _ _ _
      rw [if_neg Bool.false_ne_true, isMeaning]
      exact (Expr.evaluate_settles _ _).map _

theorem addComment (settles : draft.Settles meaning) (comment : CommentSyntax) :
    (draft.addComment comment).Settles
      (meaning.bind fun definition => definition.withComment? comment) := by
  rw [addComment_eq_proceed]
  apply settles.proceed
  intro definition
  apply Outcome.Settles.map
  cases comment with
  | line pattern =>
      rw [evaluateComment, CommentSyntax.meaning?, bind_pure_comp]
      exact (Expr.evaluate_settles _ _).map _
  | block location opening close nested =>
      have isMeaning :
          CommentSyntax.meaning? definition.fragments
              (.block location opening close nested) =
            ((opening.meaning? definition.fragments).bind fun opening =>
              (close.meaning? definition.fragments).map fun close =>
                (opening, close)).map
              fun marks => .block marks.1.toRegex marks.2.toRegex nested := by
        simp only [CommentSyntax.meaning?, Option.map_eq_bind, Option.bind_assoc]
        rfl
      rw [evaluateComment, isMeaning]
      exact ((Expr.evaluate_settles _ _).both (Expr.evaluate_settles _ _)).map _

theorem addWhitespace (settles : draft.Settles meaning) (whitespace : Option Expr) :
    (draft.addWhitespace whitespace).Settles
      (meaning.bind fun definition => definition.withWhitespace? whitespace) := by
  cases whitespace with
  | none =>
      have sameMeaning :
          (meaning.bind fun definition => definition.withWhitespace? none) = meaning :=
        Option.bind_fun_some meaning
      rw [sameMeaning]
      exact settles
  | some expr =>
      rw [addWhitespace_eq_proceed]
      apply settles.proceed
      intro definition
      exact ((Expr.evaluate_settles _ _).asSet _ _).map _

theorem foldl {α : Type} {step : Draft → α → Draft}
    {further? : Definition → α → Option Definition}
    (step_settles : ∀ {draft : Draft} {meaning : Option Definition},
      draft.Settles meaning → ∀ item,
        (step draft item).Settles
          (meaning.bind fun definition => further? definition item))
    (settles : draft.Settles meaning) (items : List α) :
    (items.foldl step draft).Settles
      (meaning.bind fun definition => items.foldlM further? definition) := by
  induction items generalizing draft meaning with
  | nil =>
      have sameMeaning :
          (meaning.bind fun definition => [].foldlM further? definition) = meaning :=
        Option.bind_fun_some meaning
      rw [sameMeaning]
      exact settles
  | cons item items induction =>
      have sameMeaning :
          (meaning.bind fun definition => (item :: items).foldlM further? definition) =
            (meaning.bind fun definition => further? definition item).bind
              fun definition => items.foldlM further? definition := by
        rw [Option.bind_assoc]
        rfl
      rw [sameMeaning]
      exact induction (step_settles settles item)

end Settles

end Draft

namespace Document

open Definition

/-- A document section by section, as if there was nothing to report. -/
def definition? (document : Document) : Option Definition :=
  if document.extended.isSome then none
  else do
    let definition ←
      document.fragments.foldlM (unlessTaken hasFragment withFragment?) ∅
    let definition ←
      document.tokens.foldlM (unlessTaken hasToken withToken?) definition
    let definition ← document.comments.foldlM withComment? definition
    definition.withWhitespace? document.whitespace

theorem draft_settles (document : Document) :
    (Draft.ofDocument document).Settles document.definition? := by
  have started : (Draft.empty.addExtension document.extended).Settles
      (if document.extended.isSome then none else some ∅) := by
    cases document.extended with
    | none => rfl
    | some expr => exact List.cons_ne_nil _ _
  have fragments := started.foldl Draft.Settles.addFragment document.fragments
  have tokens := fragments.foldl Draft.Settles.addToken document.tokens
  have comments := tokens.foldl Draft.Settles.addComment document.comments
  have whitespace := comments.addWhitespace document.whitespace
  rw [Draft.ofDocument, definition?]
  cases isExtended : document.extended with
  | none => simpa [isExtended, Option.bind_assoc] using whitespace
  | some expr => simpa [isExtended] using whitespace

theorem translate_eq_ok_iff_definition? {document : Document} {definition : Definition} :
    document.translate = .ok definition ↔ document.definition? = some definition := by
  have settles := document.draft_settles
  cases isMeaning : document.definition? with
  | none =>
      rw [isMeaning] at settles
      have faulty : (Draft.ofDocument document).issues ≠ [] := settles
      simp [translate, faulty]
  | some meaning =>
      rw [isMeaning] at settles
      have isClean : Draft.ofDocument document = .clean meaning := settles
      simp [translate, isClean, Draft.clean]

variable {document : Document} {definition : Definition}

theorem fragments_eq_some_iff :
    document.fragments.foldlM (unlessTaken hasFragment withFragment?) ∅ =
        some definition ↔
      (document.fragments.map Declaration.name).Nodup ∧
        ∃ fragments, document.fragmentTable? = some fragments ∧
          { (∅ : Definition) with fragments } = definition := by
  rw [foldlM_unlessTaken_eq_some_iff withFragment?_takes, foldlM_withFragment?,
    Option.map_eq_some_iff]
  have noneTaken (declaration : Declaration) :
      hasFragment ∅ declaration.name = false := rfl
  simp only [noneTaken, implies_true, true_and]
  rfl

theorem tokens_eq_some_iff {started : Definition} (noTokens : started.tokens = []) :
    document.tokens.foldlM (unlessTaken hasToken withToken?) started =
        some definition ↔
      (document.tokens.map Declaration.name).Nodup ∧
        ∃ tokens,
          document.tokens.mapM (Declaration.token? started.fragments) = some tokens ∧
          started.withTokens tokens = definition := by
  have isRead := foldlM_eq_mapM Declaration.token? withTokens
    (by simp [withTokens]) (by simp [withTokens]) (by simp [withTokens])
    started document.tokens
  rw [foldlM_unlessTaken_eq_some_iff withToken?_takes]
  have noneTaken (declaration : Declaration) :
      started.hasToken declaration.name = false := by
    rw [hasToken_eq_any, noTokens, List.any_nil]
  simp only [noneTaken, implies_true, true_and]
  rw [← Option.map_eq_some_iff, ← isRead]
  rfl

theorem comments_eq_some_iff {started : Definition} :
    document.comments.foldlM withComment? started = some definition ↔
      ∃ comments,
        document.comments.mapM (CommentSyntax.meaning? started.fragments) =
          some comments ∧
        started.withComments comments = definition := by
  have isRead := foldlM_eq_mapM CommentSyntax.meaning? withComments
    (by simp [withComments]) (by simp [withComments]) (by simp [withComments])
    started document.comments
  rw [← Option.map_eq_some_iff, ← isRead]
  rfl

theorem definition?_eq_some_iff :
    document.definition? = some definition ↔
      document.extended = none ∧
        (document.fragments.map Declaration.name).Nodup ∧
        (document.tokens.map Declaration.name).Nodup ∧
        document.Describes definition := by
  rw [definition?]
  cases document.extended with
  | some expr => simp
  | none =>
      simp only [Option.isSome_none, Bool.false_eq_true, if_false, true_and,
        Option.bind_eq_bind, Option.bind_eq_some_iff, fragments_eq_some_iff,
        comments_eq_some_iff]
      constructor
      · intro ⟨_, ⟨distinctFragments, fragments, areFragments, hasFragments⟩, _,
          readsTokens, _, ⟨comments, areComments, hasComments⟩, readsWhitespace⟩
        subst hasFragments
        obtain ⟨distinctTokens, tokens, areTokens, hasTokens⟩ :=
          (tokens_eq_some_iff rfl).mp readsTokens
        subst hasTokens
        subst hasComments
        rw [withWhitespace?_eq_map rfl, Option.map_eq_some_iff] at readsWhitespace
        obtain ⟨codes, isWhitespace, isDefinition⟩ := readsWhitespace
        subst isDefinition
        exact ⟨distinctFragments, distinctTokens, areFragments, areTokens, areComments,
          isWhitespace⟩
      · intro ⟨distinctFragments, distinctTokens, describes⟩
        refine ⟨_, ⟨distinctFragments, _, describes.fragments, rfl⟩, _,
          (tokens_eq_some_iff rfl).mpr ⟨distinctTokens, _, describes.tokens, rfl⟩, _,
          ⟨_, describes.comments, rfl⟩, ?_⟩
        rw [withWhitespace?_eq_map rfl, Option.map_eq_some_iff]
        exact ⟨_, describes.whitespace, rfl⟩

theorem translate_eq_ok_iff :
    document.translate = .ok definition ↔
      document.extended = none ∧
        (document.fragments.map Declaration.name).Nodup ∧
        (document.tokens.map Declaration.name).Nodup ∧
        document.Describes definition :=
  translate_eq_ok_iff_definition?.trans definition?_eq_some_iff

theorem exists_translate_eq_ok (isOk : document.translate.isOk = true) :
    ∃ definition, document.translate = .ok definition := by
  cases isResult : document.translate with
  | error issues =>
      rw [isResult] at isOk
      cases isOk
  | ok definition => exact ⟨definition, rfl⟩

theorem exists_mapM_iff {α β : Type} {read? : α → Option β} {items : List α} :
    (∃ values, items.mapM read? = some values) ↔ ∀ item ∈ items, (read? item).isSome := by
  induction items with
  | nil => simp
  | cons item items induction =>
      rw [List.forall_mem_cons, ← induction, List.mapM_cons]
      cases read? item with
      | none => simp
      | some value => cases items.mapM read? <;> simp

theorem exists_tokens_iff {fragments : Table String Fragment} :
    (∃ tokens, document.tokens.mapM (Declaration.token? fragments) = some tokens) ↔
      ∀ declaration ∈ document.tokens,
        (declaration.body.meaning? fragments).isSome := by
  have isSome_token (declaration : Declaration) :
      (declaration.token? fragments).isSome =
        (declaration.body.meaning? fragments).isSome := by
    rw [Declaration.token?]
    cases declaration.body.meaning? fragments <;> rfl
  simp only [exists_mapM_iff, isSome_token]

theorem exists_comments_iff {fragments : Table String Fragment} :
    (∃ comments,
        document.comments.mapM (CommentSyntax.meaning? fragments) = some comments) ↔
      ∀ comment ∈ document.comments, ∀ expr ∈ comment.exprs,
        (expr.meaning? fragments).isSome := by
  have isSome_comment (comment : CommentSyntax) :
      (comment.meaning? fragments).isSome ↔
        ∀ expr ∈ comment.exprs, (expr.meaning? fragments).isSome := by
    cases comment with
    | line pattern =>
        rw [CommentSyntax.meaning?, CommentSyntax.exprs]
        cases isMeaning : pattern.meaning? fragments <;> simp [isMeaning]
    | block location opening close nested =>
        rw [CommentSyntax.meaning?, CommentSyntax.exprs]
        cases isOpening : opening.meaning? fragments <;>
          cases isClose : close.meaning? fragments <;> simp [isOpening, isClose]
  simp only [exists_mapM_iff, isSome_comment]

theorem exists_whitespaceSet?_iff {fragments : Table String Fragment} :
    (∃ codes, document.whitespaceSet? fragments = some codes) ↔
      ∀ expr, document.whitespace = some expr →
        ∃ codes, expr.meaning? fragments = some (.set codes) := by
  rw [whitespaceSet?]
  cases document.whitespace with
  | none => simp
  | some expr =>
      cases isMeaning : expr.meaning? fragments with
      | none => simp [isMeaning]
      | some fragment => cases fragment <;> simp [isMeaning, Fragment.set?]

theorem isWellFormed_iff :
    document.IsWellFormed ↔
      document.extended = none ∧
        (document.fragments.map Declaration.name).Nodup ∧
        (document.tokens.map Declaration.name).Nodup ∧
        ∃ definition, document.Describes definition := by
  constructor
  · intro wellFormed
    obtain ⟨fragments, areFragments, tokensRead, commentsRead, whitespaceReads⟩ :=
      wellFormed.readable
    obtain ⟨tokens, areTokens⟩ := exists_tokens_iff.mpr tokensRead
    obtain ⟨comments, areComments⟩ := exists_comments_iff.mpr commentsRead
    obtain ⟨whitespace, isWhitespace⟩ := exists_whitespaceSet?_iff.mpr whitespaceReads
    exact ⟨wellFormed.notExtended, wellFormed.fragmentNames, wellFormed.tokenNames,
      ⟨tokens, comments, whitespace, fragments⟩,
      ⟨areFragments, areTokens, areComments, isWhitespace⟩⟩
  · intro ⟨notExtended, fragmentNames, tokenNames, definition, describes⟩
    exact ⟨notExtended, fragmentNames, tokenNames, definition.fragments,
      describes.fragments, exists_tokens_iff.mp ⟨_, describes.tokens⟩,
      exists_comments_iff.mp ⟨_, describes.comments⟩,
      exists_whitespaceSet?_iff.mp ⟨_, describes.whitespace⟩⟩

/-- Translating succeeds exactly on documents in which everything is readable, and
then yields what the document describes. -/
theorem translate_succeeds_iff_and_describes (document : Document) :
    ((∃ definition, document.translate = .ok definition) ↔ document.IsWellFormed) ∧
      ∀ definition, document.translate = .ok definition →
        document.Describes definition := by
  constructor
  · simp only [translate_eq_ok_iff_definition?, definition?_eq_some_iff,
      isWellFormed_iff, exists_and_left]
  · intro definition isOk
    have described := definition?_eq_some_iff.mp (translate_eq_ok_iff_definition?.mp isOk)
    exact described.2.2.2

/-- Numbers of at least one digit, with spaces and comments between them. -/
def numbers : Document :=
  let here : Location := .single ⟨0, 1, 1⟩
  { extended := none
    fragments :=
      [⟨"digit", here, .range here (.character here '0') (.character here '9')⟩,
        ⟨"digits", here, .many here (.reference here "digit")⟩]
    tokens :=
      [⟨"number", here,
        .sequence here [.reference here "digit", .reference here "digits"]⟩]
    comments := [.line (.text here "--")]
    whitespace := some (.code here 32) }

theorem numbers_fragmentTable?_isSome : numbers.fragmentTable?.isSome := by
  decide +kernel

theorem numbers_isWellFormed : numbers.IsWellFormed where
  notExtended := rfl
  fragmentNames := by decide
  tokenNames := by decide
  readable := by
    refine ⟨numbers.fragmentTable?.get numbers_fragmentTable?_isSome,
      (Option.some_get _).symm, ?_, ?_, ?_⟩
    · decide +kernel
    · decide +kernel
    · intro expr isExpr
      cases isExpr
      exact ⟨_, rfl⟩

theorem numbers_translate_to_their_description :
    numbers.IsWellFormed ∧
      ∃ definition, numbers.translate = .ok definition ∧ numbers.Describes definition := by
  obtain ⟨definition, isOk⟩ :=
    (translate_succeeds_iff_and_describes numbers).1.mpr numbers_isWellFormed
  exact ⟨numbers_isWellFormed, definition, isOk,
    (translate_succeeds_iff_and_describes numbers).2 definition isOk⟩

end Document

end LexGen
