/-!
# Sets of nodes

A `NodeSet` lists its nodes in strictly ascending order, so that two sets with
the same members are the same value and can serve as states of a deterministic
automaton.  `mem_union` and `mem_ofList` say what the operations hold, and `ext`
that nothing but the members matters.
-/

namespace LexGen

/-- A finite set of node numbers. -/
structure NodeSet where
  nodes : List Nat
  ascending : nodes.Pairwise (· < ·)
deriving DecidableEq

namespace NodeSet

/-- Merge a list that begins with `head` into another one, given how to merge
its tail. -/
def mergeFrom (head : Nat) (tail : List Nat) (mergeTail : List Nat → List Nat) :
    List Nat → List Nat
  | [] => head :: tail
  | other :: others =>
      if head < other then head :: mergeTail (other :: others)
      else if other < head then other :: mergeFrom head tail mergeTail others
      else head :: mergeTail others

/-- Merge two ascending lists, keeping one of each pair of equal nodes. -/
def merge : List Nat → List Nat → List Nat
  | [], right => right
  | head :: tail, right => mergeFrom head tail (merge tail) right

theorem mem_merge {left right : List Nat} {node : Nat} :
    node ∈ merge left right ↔ node ∈ left ∨ node ∈ right := by
  induction left generalizing right with
  | nil => simp [merge]
  | cons head tail tailMerge =>
      simp only [merge]
      induction right with
      | nil => simp [mergeFrom]
      | cons other others othersMerge =>
          simp only [mergeFrom]
          split
          · simp only [List.mem_cons, tailMerge, or_assoc]
          · split
            · simp only [List.mem_cons] at othersMerge ⊢
              rw [othersMerge, or_left_comm]
            · have same : head = other := by omega
              subst same
              simp only [List.mem_cons, tailMerge]
              constructor
              · rintro (here | inTail | inOthers)
                · exact .inl (.inl here)
                · exact .inl (.inr inTail)
                · exact .inr (.inr inOthers)
              · rintro ((here | inTail) | (here | inOthers))
                · exact .inl here
                · exact .inr (.inl inTail)
                · exact .inl here
                · exact .inr (.inr inOthers)

theorem merge_ascending {left right : List Nat}
    (leftAscending : left.Pairwise (· < ·))
    (rightAscending : right.Pairwise (· < ·)) :
    (merge left right).Pairwise (· < ·) := by
  induction left generalizing right with
  | nil => exact rightAscending
  | cons head tail tailMerge =>
      obtain ⟨headSmaller, tailAscending⟩ := List.pairwise_cons.mp leftAscending
      simp only [merge]
      induction right with
      | nil => exact leftAscending
      | cons other others othersMerge =>
          obtain ⟨otherSmaller, othersAscending⟩ :=
            List.pairwise_cons.mp rightAscending
          simp only [mergeFrom]
          split
          next before =>
            refine List.pairwise_cons.mpr
              ⟨fun node member => ?_, tailMerge tailAscending rightAscending⟩
            rcases mem_merge.mp member with inTail | inRight
            · exact headSmaller node inTail
            · rcases List.mem_cons.mp inRight with rfl | inOthers
              · exact before
              · exact Nat.lt_trans before (otherSmaller node inOthers)
          next notBefore =>
            split
            next after =>
              refine List.pairwise_cons.mpr
                ⟨fun node member => ?_, othersMerge othersAscending⟩
              have inEither : node ∈ merge (head :: tail) others := member
              rcases mem_merge.mp inEither with inLeft | inOthers
              · rcases List.mem_cons.mp inLeft with rfl | inTail
                · exact after
                · exact Nat.lt_trans after (headSmaller node inTail)
              · exact otherSmaller node inOthers
            next notAfter =>
              have same : head = other := by omega
              subst same
              refine List.pairwise_cons.mpr
                ⟨fun node member => ?_, tailMerge tailAscending othersAscending⟩
              rcases mem_merge.mp member with inTail | inOthers
              · exact headSmaller node inTail
              · exact otherSmaller node inOthers

def empty : NodeSet := ⟨[], .nil⟩

instance : EmptyCollection NodeSet := ⟨empty⟩

def singleton (node : Nat) : NodeSet := ⟨[node], List.pairwise_singleton _ _⟩

def union (left right : NodeSet) : NodeSet where
  nodes := merge left.nodes right.nodes
  ascending := merge_ascending left.ascending right.ascending

instance : Union NodeSet := ⟨union⟩

instance : Membership Nat NodeSet where
  mem set node := node ∈ set.nodes

instance (node : Nat) (set : NodeSet) : Decidable (node ∈ set) :=
  inferInstanceAs (Decidable (node ∈ set.nodes))

def ofList (nodes : List Nat) : NodeSet :=
  nodes.foldr (fun node set => singleton node ∪ set) ∅

theorem not_mem_empty {node : Nat} : node ∉ (∅ : NodeSet) :=
  List.not_mem_nil

theorem mem_singleton {node only : Nat} : node ∈ singleton only ↔ node = only :=
  List.mem_singleton

theorem mem_union {left right : NodeSet} {node : Nat} :
    node ∈ left ∪ right ↔ node ∈ left ∨ node ∈ right :=
  mem_merge

theorem mem_ofList {nodes : List Nat} {node : Nat} :
    node ∈ ofList nodes ↔ node ∈ nodes := by
  induction nodes with
  | nil => exact Iff.rfl
  | cons head tail inTail =>
      rw [List.mem_cons, ← inTail]
      exact mem_union.trans (or_congr mem_singleton Iff.rfl)

theorem ext {left right : NodeSet}
    (sameMembers : ∀ node, node ∈ left ↔ node ∈ right) : left = right := by
  obtain ⟨left, leftAscending⟩ := left
  obtain ⟨right, rightAscending⟩ := right
  congr
  have permuted : left.Perm right :=
    (List.perm_ext_iff_of_nodup
      (leftAscending.imp fun smaller => Nat.ne_of_lt smaller)
      (rightAscending.imp fun smaller => Nat.ne_of_lt smaller)).mpr sameMembers
  exact permuted.eq_of_pairwise
    (fun _ _ _ _ smaller larger => absurd smaller (Nat.lt_asymm larger))
    leftAscending rightAscending

end NodeSet

end LexGen
