import LexGen.Automaton.Graphviz
import LexGen.Automaton.Reachability
import LexGen.Proofs.CodeSet.Printer

/-!
# Drawings are unambiguous

No double quote is left of a label without a backslash before it, and every backslash
stands before the character it protects.  So a reader finds the closing quote, and the
label in front of it.

Every line of a drawing ends where its last number does, although the labels on it may
hold line breaks and look like further lines.  So a drawing can be taken apart into its
lines, and each edge belongs to the node drawn last before it.
-/

namespace LexGen

namespace Text

def escapedCharacter (character : Char) : List Char :=
  if character = '\\' then ['\\', '\\']
  else if character = '"' then ['\\', '"']
  else [character]

theorem toList_escapeLabel (label : String) :
    (escapeLabel label).toList = label.toList.flatMap escapedCharacter := by
  have isBackslash (character : Char) : character.toNat = 0x5c ↔ character = '\\' :=
    Char.toNat_inj (d := '\\')
  have isQuote (character : Char) : character.toNat = 0x22 ↔ character = '"' :=
    Char.toNat_inj (d := '"')
  rw [escapeLabel, String.toList_join, List.flatMap_map]
  congr
  funext character
  simp only [isBackslash, isQuote, escapedCharacter]
  split
  · rfl
  · split
    · rfl
    · exact String.toList_singleton character

theorem toList_replace (text : String) (replaced : Char) (replacement : String) :
    (replace text replaced replacement).toList = text.toList.flatMap fun character =>
      if character = replaced then replacement.toList else [character] := by
  rw [replace, String.toList_join, List.flatMap_map]
  congr
  funext character
  split
  · rfl
  · exact String.toList_singleton character

/-- Replacing the backslashes first and the double quotes afterwards escapes every
character once. -/
theorem escapeLabelInTurn_eq (label : String) :
    escapeLabelInTurn label = escapeLabel label := by
  apply String.toList_injective
  rw [escapeLabelInTurn, toList_replace, toList_replace, toList_escapeLabel,
    List.flatMap_assoc]
  congr
  funext character
  rw [escapedCharacter]
  split
  · rfl
  · split
    case isTrue isQuote => simp [isQuote]
    case isFalse notQuote => simp [notQuote]

theorem readLabel_cons {character : Char} (notQuote : character ≠ '"')
    (notBackslash : character ≠ '\\') (text : List Char) :
    readLabel (character :: text) =
      (readLabel text).map fun (label, rest) => (character :: label, rest) := by
  apply readLabel.eq_5
  · exact notQuote
  · intro isBackslash _
    exact notBackslash isBackslash
  · intro _ _ isBackslash _
    exact notBackslash isBackslash

theorem readLabel_escapedCharacter (character : Char) (text : List Char) :
    readLabel (escapedCharacter character ++ text) =
      (readLabel text).map fun (label, rest) => (character :: label, rest) := by
  rw [escapedCharacter]
  split
  case isTrue isBackslash => rw [isBackslash]; rfl
  case isFalse notBackslash =>
    split
    case isTrue isQuote => rw [isQuote]; rfl
    case isFalse notQuote => exact readLabel_cons notQuote notBackslash text

/-- An escaped label ends at its closing quote and reads as the label. -/
theorem readLabel_escapeLabel (label : String) (rest : List Char) :
    readLabel ((escapeLabel label).toList ++ '"' :: rest) = some (label.toList, rest) := by
  rw [toList_escapeLabel]
  induction label.toList with
  | nil => rfl
  | cons character later induction =>
      rw [List.flatMap_cons, List.append_assoc, readLabel_escapedCharacter, induction]
      rfl

theorem escapeLabel_determines {label other : String} {rest more : List Char}
    (same : (escapeLabel label).toList ++ '"' :: rest =
      (escapeLabel other).toList ++ '"' :: more) : label = other ∧ rest = more := by
  have isRead := readLabel_escapeLabel label rest
  rw [same, readLabel_escapeLabel, Option.some.injEq, Prod.mk.injEq] at isRead
  exact ⟨String.toList_injective isRead.1.symm, isRead.2.symm⟩

end Text

/-! ## Lines of a drawing -/

open Text

/-- What a line of a drawing shows: a node with its item, or an edge. -/
inductive DrawnLine where
  | node (name : Nat) (item : Option String)
  | edge (source : Nat) (transition : Transition)

namespace Transition

/-- What the label of an edge says before it is escaped. -/
def labelText (transition : Transition) : String :=
  if transition.isFree then "ε" else transition.label.render

theorem drawnLabel_eq (transition : Transition) :
    transition.drawnLabel = escapeLabel transition.labelText := by
  rw [drawnLabel, labelText]
  split
  · decide
  · rfl

theorem label_eq_of_labelText_eq {first second : Transition}
    (same : first.labelText = second.labelText) : first.label = second.label := by
  have differs (set : CodeSet) : "ε" ≠ set.render := by
    intro isLetter
    have sameText := congrArg String.toList isLetter
    rw [CodeSet.toList_render] at sameText
    simp at sameText
  rw [labelText, labelText] at same
  split at same
  case isTrue isFree =>
    split at same
    case isTrue isFreeToo =>
      rw [CodeSet.isEmpty_iff.mp isFree, CodeSet.isEmpty_iff.mp isFreeToo]
    case isFalse => exact absurd same (differs second.label)
  case isFalse =>
    split at same
    case isTrue => exact absurd same.symm (differs first.label)
    case isFalse => exact CodeSet.render_injective same

end Transition

namespace DrawnLine

/-- What stands between the two names on the line of a node. -/
def shape : Option String → List Char
  | none => '"' :: ", shape=circle] id".toList
  | some item =>
      ':' :: ' ' :: ((escapeLabel item).toList ++ '"' :: ", shape=doublecircle] id".toList)

def write : DrawnLine → List Char
  | node name item =>
      "node[label=\"".toList ++
        (Nat.toDigits 10 name ++ (shape item ++ (Nat.toDigits 10 name ++ ['\n'])))
  | edge source transition =>
      "id".toList ++ (Nat.toDigits 10 source ++ (" -> id".toList ++
        (Nat.toDigits 10 transition.target ++ (" [label=\"".toList ++
          ((escapeLabel transition.labelText).toList ++ '"' :: "]\n".toList)))))

theorem write_node (name : Nat) (item : Option String) :
    (node name item).write = "node[label=\"".toList ++
      (Nat.toDigits 10 name ++ (shape item ++ (Nat.toDigits 10 name ++ ['\n']))) :=
  rfl

theorem write_edge (source : Nat) (transition : Transition) :
    (edge source transition).write = "id".toList ++ (Nat.toDigits 10 source ++
      (" -> id".toList ++ (Nat.toDigits 10 transition.target ++ (" [label=\"".toList ++
        ((escapeLabel transition.labelText).toList ++ '"' :: "]\n".toList))))) :=
  rfl

theorem noDigit_shape (item : Option String) (tail : List Char) :
    StartsOutside Char.isDigit (shape item ++ tail) := by
  cases item with
  | none => simp [shape, StartsOutside]
  | some item => simp [shape, StartsOutside]

/-- The shape ends at its last letter, whatever its item says. -/
theorem shape_determines {first second : Option String} {rest more : List Char}
    (same : shape first ++ rest = shape second ++ more) : first = second ∧ rest = more := by
  cases first with
  | none =>
      cases second with
      | none => exact ⟨rfl, List.append_cancel_left same⟩
      | some item => simp [shape] at same
  | some item =>
      cases second with
      | none => simp [shape] at same
      | some other =>
          simp only [shape, List.cons_append, List.append_assoc, List.cons.injEq,
            true_and] at same
          obtain ⟨sameItem, sameRest⟩ := escapeLabel_determines same
          exact ⟨congrArg some sameItem, List.append_cancel_left sameRest⟩

theorem write_node_determines {name other : Nat} {item otherItem : Option String}
    {rest more : List Char}
    (same : (node name item).write ++ rest = (node other otherItem).write ++ more) :
    node name item = node other otherItem ∧ rest = more := by
  rw [write_node, write_node] at same
  simp only [List.append_assoc] at same
  obtain ⟨sameName, afterName⟩ := Code.toDigits_determines name (noDigit_shape item _)
    (noDigit_shape otherItem _) (List.append_cancel_left same)
  obtain ⟨sameItem, afterShape⟩ := shape_determines afterName
  rw [sameName] at afterShape
  have sameRest := List.append_cancel_left (List.append_cancel_left afterShape)
  exact ⟨by rw [sameName, sameItem], sameRest⟩

theorem write_edge_determines {source other : Nat} {first second : Transition}
    {rest more : List Char}
    (same : (edge source first).write ++ rest = (edge other second).write ++ more) :
    edge source first = edge other second ∧ rest = more := by
  rw [write_edge, write_edge] at same
  simp only [List.append_assoc] at same
  obtain ⟨sameSource, afterSource⟩ := Code.toDigits_determines source
    (by simp [StartsOutside]) (by simp [StartsOutside]) (List.append_cancel_left same)
  obtain ⟨sameTarget, afterTarget⟩ := Code.toDigits_determines first.target
    (by simp [StartsOutside]) (by simp [StartsOutside])
    (List.append_cancel_left afterSource)
  obtain ⟨sameText, afterText⟩ :=
    escapeLabel_determines (List.append_cancel_left afterTarget)
  have sameLabel := Transition.label_eq_of_labelText_eq sameText
  have sameTransition : first = second := by
    cases first
    cases second
    exact congrArg₂ Transition.mk sameLabel sameTarget
  exact ⟨by rw [sameSource, sameTransition], List.append_cancel_left afterText⟩

/-- No line of a node is the beginning of an edge, and none begins like the end of the
drawing. -/
theorem write_determines (line : DrawnLine) :
    Determines write Eq (fun _ => True) line := by
  intro other rest more _ _ same
  cases line with
  | node name item =>
      cases other with
      | node otherName otherItem => exact write_node_determines same
      | edge source transition => simp [write_node, write_edge] at same
  | edge source transition =>
      cases other with
      | node name item => simp [write_node, write_edge] at same
      | edge otherSource otherTransition => exact write_edge_determines same

theorem write_separates : Separates write (fun _ => True) [] '\x7d' where
  begins line tail := by
    cases line with
    | node name item => simp [write_node]
    | edge source transition => simp [write_edge]
  continues line tail := by
    cases line with
    | node name item => simp [write_node]
    | edge source transition => simp [write_edge]
  afterItem _ := trivial
  atEnd _ := trivial

/-- Take up a line in front of others: an edge waits for its node, and a node gets all
edges that wait. -/
def takeUp (line : DrawnLine) :
    List Transition × List (Node × Option String) →
      List Transition × List (Node × Option String)
  | (waiting, nodes) =>
      match line with
      | node name item => ([], (⟨name, waiting⟩, item) :: nodes)
      | edge _ transition => (transition :: waiting, nodes)

/-- The nodes that the lines show, with their items, behind the edges of no node. -/
def gather (lines : List DrawnLine) : List Transition × List (Node × Option String) :=
  lines.foldr takeUp ([], [])

end DrawnLine

namespace Automaton

variable {ι : Type} (showItem : ι → String) (automaton : Automaton ι)

def drawnItem? (node : Node) : Option String :=
  (automaton.item? node.name).map showItem

def linesOf (node : Node) : List DrawnLine :=
  .node node.name (automaton.drawnItem? showItem node) ::
    node.transitions.map (.edge node.name)

theorem foldr_linesOf (node : Node) (later : List (Node × Option String)) :
    (automaton.linesOf showItem node).foldr DrawnLine.takeUp ([], later) =
      ([], (node, automaton.drawnItem? showItem node) :: later) := by
  have edges (transitions : List Transition) :
      (transitions.map (DrawnLine.edge node.name)).foldr DrawnLine.takeUp ([], later) =
        (transitions, later) := by
    induction transitions with
    | nil => rfl
    | cons transition transitions induction =>
        rw [List.map_cons, List.foldr_cons, induction]
        rfl
  rw [linesOf, List.foldr_cons, edges]
  rfl

theorem gather_linesOf (nodes : List Node) :
    DrawnLine.gather (nodes.flatMap (automaton.linesOf showItem)) =
      ([], nodes.map fun node => (node, automaton.drawnItem? showItem node)) := by
  rw [DrawnLine.gather]
  induction nodes with
  | nil => rfl
  | cons node nodes induction =>
      rw [List.flatMap_cons, List.foldr_append, induction, foldr_linesOf, List.map_cons]

theorem toList_draw_edge (source : Nat) (transition : Transition) :
    (transition.draw source ++ "\n").toList = (DrawnLine.edge source transition).write := by
  rw [DrawnLine.write_edge, Transition.draw, Transition.drawnLabel_eq]
  simp [Nat.toList_repr]

theorem toList_drawNode (node : Node) :
    (automaton.drawNode showItem node).flatMap (fun line => (line ++ "\n").toList) =
      ((automaton.linesOf showItem node).map DrawnLine.write).flatten := by
  have edges : (node.transitions.map (Transition.draw node.name)).flatMap
        (fun line => (line ++ "\n").toList) =
      ((node.transitions.map (DrawnLine.edge node.name)).map DrawnLine.write).flatten := by
    rw [List.flatMap_map, List.map_map, List.flatMap_def]
    refine congrArg List.flatten (List.map_congr_left ?_)
    intro transition _
    exact toList_draw_edge node.name transition
  rw [drawNode, linesOf, List.flatMap_cons, List.map_cons, List.flatten_cons, edges]
  refine congrArg (· ++ _) ?_
  rw [DrawnLine.write_node, drawnItem?]
  cases automaton.item? node.name with
  | none => simp [DrawnLine.shape, Nat.toList_repr]
  | some item => simp [DrawnLine.shape, Nat.toList_repr]

theorem toList_draw :
    (automaton.draw showItem).toList =
      "digraph \x7b\nrankdir=LR\nstart[shape=point]\nstart -> id".toList ++
        (Nat.toDigits 10 automaton.start ++ ('\n' ::
          (closed [] '\x7d' ((automaton.nodes.flatMap
            (automaton.linesOf showItem)).map DrawnLine.write) ++ ['\n']))) := by
  have nodes : (automaton.nodes.flatMap (automaton.drawNode showItem)).flatMap
        (fun line => (line ++ "\n").toList) =
      ((automaton.nodes.flatMap (automaton.linesOf showItem)).map
        DrawnLine.write).flatten := by
    induction automaton.nodes with
    | nil => rfl
    | cons node nodes induction =>
        rw [List.flatMap_cons, List.flatMap_append, toList_drawNode, induction,
          List.flatMap_cons, List.map_append, List.flatten_append]
  rw [draw, String.toList_join, List.flatMap_map, drawLines, List.flatMap_append,
    List.flatMap_append, nodes, closed_nil_eq_flatten]
  simp [Nat.toList_repr]

variable {showItem} {left right : Automaton ι}

/-- Drawings show the start, the nodes and their items, and nothing else of an
automaton matters. -/
theorem shown_eq_of_draw_eq (same : left.draw showItem = right.draw showItem) :
    left.start = right.start ∧
      (left.nodes.map fun node => (node, left.drawnItem? showItem node)) =
        right.nodes.map fun node => (node, right.drawnItem? showItem node) := by
  have sameText := congrArg String.toList same
  rw [toList_draw, toList_draw] at sameText
  obtain ⟨sameStart, afterStart⟩ := Code.toDigits_determines left.start
    (by simp [StartsOutside]) (by simp [StartsOutside]) (List.append_cancel_left sameText)
  obtain ⟨sameLines, _⟩ := DrawnLine.write_separates.closed_determines
    (fun line _ => line.write_determines) trivial trivial
    (List.tail_eq_of_cons_eq afterStart)
  rw [List.forall₂_eq_eq_eq] at sameLines
  have gathered := left.gather_linesOf showItem left.nodes
  rw [sameLines, gather_linesOf, Prod.mk.injEq] at gathered
  exact ⟨sameStart, gathered.2.symm⟩

/-- Where nodes are named by their positions and items belong to nodes, the nodes and
what is shown of their items determine the items. -/
theorem items_eq_of_shown (injective : Function.Injective showItem)
    (leftNumbered : left.IsNumbered) (rightNumbered : right.IsNumbered)
    (sameNodes : left.nodes = right.nodes)
    (sameItems : ∀ node ∈ left.nodes,
      left.drawnItem? showItem node = right.drawnItem? showItem node) :
    left.items = right.items := by
  have noItem {automaton : Automaton ι} (numbered : automaton.IsNumbered) {number : Nat}
      (bound : automaton.nodes.length ≤ number) : automaton.item? number = none := by
    apply Option.eq_none_iff_forall_ne_some.mpr
    intro item isItem
    exact absurd (numbered.item_lt _ (item?_eq_some_iff.mp isItem)) (Nat.not_lt.mpr bound)
  apply Table.ext
  intro number
  change left.item? number = right.item? number
  by_cases bound : number < left.nodes.length
  · have isNode := List.getElem?_eq_getElem bound
    have isName := leftNumbered.name_eq number _ isNode
    have sameShown := sameItems _ (List.getElem_mem bound)
    rw [drawnItem?, drawnItem?, isName] at sameShown
    exact Option.map_injective injective sameShown
  · rw [noItem leftNumbered (Nat.not_lt.mp bound),
      noItem rightNumbered (sameNodes ▸ Nat.not_lt.mp bound)]

theorem eq_of_draw_eq (injective : Function.Injective showItem)
    (leftNumbered : left.IsNumbered) (rightNumbered : right.IsNumbered)
    (same : left.draw showItem = right.draw showItem) : left = right := by
  obtain ⟨sameStart, sameShown⟩ := shown_eq_of_draw_eq same
  have sameNodes : left.nodes = right.nodes := by
    simpa [Function.comp_def] using congrArg (List.map Prod.fst) sameShown
  have sameItems : left.items = right.items := by
    apply items_eq_of_shown injective leftNumbered rightNumbered sameNodes
    rw [← sameNodes] at sameShown
    intro node member
    exact (Prod.mk.inj (List.map_inj_left.mp sameShown node member)).2
  cases left
  cases right
  simp only [mk.injEq]
  exact ⟨sameStart, sameItems, sameNodes⟩

/-- The drawing determines an automaton whose nodes are named by their positions and
whose items belong to nodes, whatever its start, its targets, its labels and the texts of
its items are.  Escaping a label by two replacements in turn is escaping it character by
character, and an escaped label ends at its closing quote and reads as the label. -/
theorem draw_isFaithful :
    (∀ left right : Automaton String, left.IsNumbered → right.IsNumbered →
      (left.draw id = right.draw id ↔ left = right)) ∧
    (∀ left right : Automaton Int, left.IsNumbered → right.IsNumbered →
      (left.draw toString = right.draw toString ↔ left = right)) ∧
    ∀ label rest, escapeLabelInTurn label = escapeLabel label ∧
      readLabel ((escapeLabel label).toList ++ '"' :: rest) = some (label.toList, rest) := by
  refine ⟨?_, ?_, ?_⟩
  · intro left right leftNumbered rightNumbered
    constructor
    · exact eq_of_draw_eq Function.injective_id leftNumbered rightNumbered
    · exact congrArg (draw id)
  · intro left right leftNumbered rightNumbered
    constructor
    · exact eq_of_draw_eq Code.toString_injective leftNumbered rightNumbered
    · exact congrArg (draw toString)
  · intro label rest
    exact ⟨escapeLabelInTurn_eq label, readLabel_escapeLabel label rest⟩

/-- An item whose text looks like the end of its own label and an edge behind it. -/
theorem lookalike_items_drawn_apart :
    let drawn {ι : Type} (item : ι) (transitions : List Transition) : Automaton ι :=
      { start := 7, items := .ofList [(0, item)], nodes := [⟨0, transitions⟩] }
    let edge : Transition := ⟨∅, 9⟩
    let lookalike := "a\", shape=doublecircle] id0\nid0 -> id9 [label=\"ε\\"
    (∀ item transitions, (drawn (ι := String) item transitions).IsNumbered) ∧
      (∀ item transitions, (drawn (ι := Int) item transitions).IsNumbered) ∧
      (drawn "a" [edge]).draw id ≠ (drawn lookalike []).draw id ∧
      (drawn (12 : Int) [edge]).draw toString ≠ (drawn (-12 : Int) [edge]).draw toString ∧
      readLabel ((escapeLabel lookalike).toList ++ '"' :: ['"']) =
        some (lookalike.toList, ['"']) := by
  intro drawn edge lookalike
  have numbered {ι : Type} (item : ι) (transitions : List Transition) :
      (drawn item transitions).IsNumbered := by
    constructor
    · intro number node isNode
      have inNodes : [Node.mk 0 transitions][number]? = some node := isNode
      rw [List.getElem?_singleton] at inNodes
      split at inNodes
      case isTrue isFirst =>
        cases inNodes
        exact isFirst.symm
      case isFalse => cases inNodes
    · intro entry member
      have isEntry : entry ∈ [(0, item)] := member
      rw [List.mem_singleton.mp isEntry]
      exact Nat.one_pos
  obtain ⟨texts, numbers, labels⟩ := draw_isFaithful
  refine ⟨numbered, numbered, ?_, ?_, (labels lookalike ['"']).2⟩
  · intro same
    have isSame := (texts _ _ (numbered _ _) (numbered _ _)).mp same
    exact absurd (congrArg Automaton.nodes isSame) (by decide)
  · intro same
    have isSame := (numbers _ _ (numbered _ _) (numbered _ _)).mp same
    have sameItems := congrArg (fun automaton => automaton.item? 0) isSame
    exact absurd sameItems (by decide)

end Automaton

end LexGen
