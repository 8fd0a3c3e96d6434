import LexGen.Closure
import LexGen.NodeSet
import Mathlib.Data.List.Sort
import Mathlib.Data.List.Sublists
import Mathlib.Logic.Relation

/-!
# Closures are reachability

In the course of a sweep some rows have been joined and others have not.  Joining
one of them keeps what every row holds, adds nothing but what can be reached, and
fails exactly at a member that has no row.  A sweep that changes anything adds a
member, so that there is a last sweep, and rows that a sweep leaves alone are
closed under the relation.  Together this makes `transitiveClosure` the
reachability of the relation.

Sets of nodes are counted as sublists: subsets are no longer than their supersets,
and there are as many sets below a bound as subsets of a range.
-/

namespace LexGen

namespace NodeSet

theorem sublist_of_ascending {left right : List Nat}
    (leftAscending : left.Pairwise (· < ·))
    (rightAscending : right.Pairwise (· < ·))
    (subset : ∀ node, node ∈ left → node ∈ right) : left.Sublist right := by
  have leftNodup : left.Nodup := leftAscending.imp Nat.ne_of_lt
  have subperm : left.Subperm right :=
    List.subperm_of_subset leftNodup (fun node => subset node)
  exact List.sublist_of_subperm_of_pairwise subperm leftAscending rightAscending

theorem sublist_of_subset {left right : NodeSet}
    (subset : ∀ node, node ∈ left → node ∈ right) :
    left.nodes.Sublist right.nodes :=
  sublist_of_ascending left.ascending right.ascending subset

theorem sublist_range {set : NodeSet} {bound : Nat}
    (bounded : ∀ node, node ∈ set → node < bound) :
    set.nodes.Sublist (List.range bound) := by
  apply sublist_of_ascending set.ascending List.pairwise_lt_range
  intro node member
  exact List.mem_range.mpr (bounded node member)

theorem eq_of_subset_of_length_le {left right : NodeSet}
    (subset : ∀ node, node ∈ left → node ∈ right)
    (notShorter : right.nodes.length ≤ left.nodes.length) : left = right := by
  have sameNodes : left.nodes = right.nodes :=
    (sublist_of_subset subset).eq_of_length_le notShorter
  apply ext
  intro node
  change node ∈ left.nodes ↔ node ∈ right.nodes
  rw [sameNodes]

def below (bound : Nat) : List NodeSet :=
  (List.range bound).sublists.pmap NodeSet.mk fun _ isSublist =>
    List.pairwise_lt_range.sublist (List.mem_sublists.mp isSublist)

theorem length_below (bound : Nat) :
    (below bound).length = Nat.pow 2 bound := by
  rw [below, List.length_pmap, List.length_sublists, List.length_range]
  rfl

theorem mem_below {set : NodeSet} {bound : Nat}
    (bounded : ∀ node, node ∈ set → node < bound) : set ∈ below bound := by
  apply List.mem_pmap.mpr
  exact ⟨set.nodes, List.mem_sublists.mpr (sublist_range bounded), rfl⟩

end NodeSet

namespace Closure

/-- The target is a member of the row of the source. -/
def Steps (rows : List NodeSet) (source target : Nat) : Prop :=
  ∃ row, rows[source]? = some row ∧ target ∈ row

abbrev Reaches (rows : List NodeSet) : Nat → Nat → Prop :=
  Relation.ReflTransGen (Steps rows)

def IsBounded (rows : List NodeSet) : Prop :=
  ∀ row ∈ rows, ∀ node ∈ row, node < rows.length

/-- A member of some row that has no row itself. -/
def IsDangling (rows : List NodeSet) (node : Nat) : Prop :=
  rows.length ≤ node ∧ ∃ row ∈ rows, node ∈ row

/-- The second rows hold what can be reached by the relation of the first. -/
structure IsClosureOf (base closed : List NodeSet) : Prop where
  length_eq : closed.length = base.length
  mem_iff : ∀ {source target : Nat} {row : NodeSet},
    closed[source]? = some row → (target ∈ row ↔ Reaches base source target)

/-- Sweeping as long as it changes anything ends with the second rows. -/
inductive Settles : List NodeSet → List NodeSet → Prop where
  | still {rows closed : List NodeSet} :
      sweep rows = .ok ⟨closed, false⟩ → Settles rows closed
  | again {rows swept closed : List NodeSet} :
      sweep rows = .ok ⟨swept, true⟩ → Settles swept closed → Settles rows closed

/-- The rows lie between the relation and its closure. -/
structure IsBetween (base rows : List NodeSet) : Prop where
  length_eq : rows.length = base.length
  self_mem : ∀ {source : Nat} {row : NodeSet},
    rows[source]? = some row → source ∈ row
  mem_of_steps : ∀ {source target : Nat} {row : NodeSet},
    rows[source]? = some row → Steps base source target → target ∈ row
  reaches_of_mem : ∀ {source target : Nat} {row : NodeSet},
    rows[source]? = some row → target ∈ row → Reaches base source target

/-- The row at the place holds all that the rows of its members hold. -/
def IsStable (rows : List NodeSet) (place : Nat) : Prop :=
  ∀ {row : NodeSet} {middle target : Nat}, rows[place]? = some row →
    middle ∈ row → Steps rows middle target → target ∈ row

theorem IsClosureOf.steps_iff {base closed : List NodeSet}
    (isClosure : IsClosureOf base closed) {source target : Nat}
    (bound : source < base.length) :
    Steps closed source target ↔ Reaches base source target := by
  have isRow := List.getElem?_eq_getElem (isClosure.length_eq.symm ▸ bound)
  rw [← isClosure.mem_iff isRow, Steps, isRow]
  simp

theorem gather_cases (rows : List NodeSet) (nodes : List Nat) :
    (∃ set, gather rows nodes = .ok set ∧
      (∀ node ∈ nodes, node < rows.length) ∧
      ∀ target, target ∈ set ↔ ∃ node ∈ nodes, Steps rows node target) ∨
    ∃ dangling, gather rows nodes = .error dangling ∧
      dangling.node ∈ nodes ∧ rows.length ≤ dangling.node := by
  induction nodes with
  | nil =>
      left
      refine ⟨∅, rfl, nofun, ?_⟩
      intro target
      simp [NodeSet.not_mem_empty]
  | cons node nodes induction =>
      cases isRow : rows[node]? with
      | none =>
          right
          refine ⟨⟨node⟩, ?_, List.mem_cons_self, List.getElem?_eq_none_iff.mp isRow⟩
          rw [gather, isRow]
      | some row =>
          cases induction with
          | inl gathers =>
              obtain ⟨set, isSet, bounded, inSet⟩ := gathers
              left
              refine ⟨row ∪ set, ?_, ?_, ?_⟩
              · rw [gather, isRow, isSet]
                rfl
              · exact List.forall_mem_cons.mpr
                  ⟨(List.getElem?_eq_some_iff.mp isRow).1, bounded⟩
              · intro target
                rw [NodeSet.mem_union, inSet, List.exists_mem_cons_iff]
                simp [Steps, isRow]
          | inr fails =>
              obtain ⟨dangling, isDangling, member, outside⟩ := fails
              right
              refine ⟨dangling, ?_, List.mem_cons_of_mem node member, outside⟩
              rw [gather, isRow, isDangling]
              rfl

theorem reflexive_isBetween (base : List NodeSet) :
    IsBetween base (reflexive base) := by
  have member {source target : Nat} {row : NodeSet}
      (found : (reflexive base)[source]? = some row) :
      target ∈ row ↔ target = source ∨ Steps base source target := by
    rw [reflexive, List.getElem?_mapIdx] at found
    obtain ⟨original, isOriginal, rfl⟩ := Option.map_eq_some_iff.mp found
    rw [NodeSet.mem_union, NodeSet.mem_singleton]
    simp [Steps, isOriginal]
  constructor
  · exact List.length_mapIdx
  · intro source row found
    exact (member found).mpr (.inl rfl)
  · intro source target row found step
    exact (member found).mpr (.inr step)
  · intro source target row found inRow
    rcases (member found).mp inRow with rfl | step
    · exact .refl
    · exact .single step

section Rows

variable {base rows : List NodeSet}

theorem lt_length_of_steps (bounded : IsBounded base) {source target : Nat}
    (step : Steps base source target) : target < base.length := by
  obtain ⟨row, isRow, inRow⟩ := step
  exact bounded row (List.mem_of_getElem? isRow) target inRow

theorem isBounded_of_steps_lt
    (below : ∀ source, source < base.length →
      ∀ target, Steps base source target → target < base.length) :
    IsBounded base := by
  intro row inBase node inRow
  obtain ⟨source, isRow⟩ := List.mem_iff_getElem?.mp inBase
  exact below source (List.getElem?_eq_some_iff.mp isRow).1 node ⟨row, isRow, inRow⟩

theorem exists_isDangling (unbounded : ¬ IsBounded base) :
    ∃ node, IsDangling base node := by
  by_contra nothingDangles
  apply unbounded
  intro row inBase node inRow
  apply Nat.lt_of_not_le
  intro outside
  exact nothingDangles ⟨node, outside, row, inBase, inRow⟩

namespace IsBetween

variable (between : IsBetween base rows)
include between

theorem lt_length (bounded : IsBounded base) :
    ∀ row ∈ rows, ∀ node ∈ row, node < base.length := by
  intro row inRows node inRow
  obtain ⟨source, isRow⟩ := List.mem_iff_getElem?.mp inRows
  cases between.reaches_of_mem isRow inRow with
  | refl => exact between.length_eq ▸ (List.getElem?_eq_some_iff.mp isRow).1
  | tail _ step => exact lt_length_of_steps bounded step

theorem isDangling_of_mem {source node : Nat} {row : NodeSet}
    (isRow : rows[source]? = some row) (inRow : node ∈ row)
    (outside : base.length ≤ node) : IsDangling base node := by
  refine ⟨outside, ?_⟩
  cases between.reaches_of_mem isRow inRow with
  | refl =>
      have bound := (List.getElem?_eq_some_iff.mp isRow).1
      rw [between.length_eq] at bound
      exact absurd bound (Nat.not_lt.mpr outside)
  | tail _ step =>
      obtain ⟨original, isOriginal, member⟩ := step
      exact ⟨original, List.mem_of_getElem? isOriginal, member⟩

theorem set {place : Nat} {row joined : NodeSet} (isRow : rows[place]? = some row)
    (inJoined : ∀ target, target ∈ joined ↔
      target ∈ row ∨ ∃ middle ∈ row, Steps rows middle target) :
    IsBetween base (rows.set place joined) := by
  have old {source : Nat} {found : NodeSet}
      (isFound : (rows.set place joined)[source]? = some found) :
      source = place ∧ found = joined ∨ rows[source]? = some found := by
    rw [List.getElem?_set] at isFound
    split at isFound
    next same =>
      split at isFound
      · exact .inl ⟨same.symm, (Option.some.inj isFound).symm⟩
      · cases isFound
    next => exact .inr isFound
  constructor
  · rw [List.length_set, between.length_eq]
  · intro source found isFound
    rcases old isFound with ⟨rfl, rfl⟩ | isOld
    · exact (inJoined source).mpr (.inl (between.self_mem isRow))
    · exact between.self_mem isOld
  · intro source target found isFound step
    rcases old isFound with ⟨rfl, rfl⟩ | isOld
    · exact (inJoined target).mpr (.inl (between.mem_of_steps isRow step))
    · exact between.mem_of_steps isOld step
  · intro source target found isFound inFound
    rcases old isFound with ⟨rfl, rfl⟩ | isOld
    · cases (inJoined target).mp inFound with
      | inl inRow => exact between.reaches_of_mem isRow inRow
      | inr further =>
          obtain ⟨middle, inMiddle, middleRow, isMiddleRow, inMiddleRow⟩ := further
          exact (between.reaches_of_mem isRow inMiddle).trans
            (between.reaches_of_mem isMiddleRow inMiddleRow)
    · exact between.reaches_of_mem isOld inFound

theorem isClosureOf (stable : ∀ place, place < rows.length → IsStable rows place) :
    IsClosureOf base rows := by
  constructor
  · exact between.length_eq
  · intro source target row isRow
    constructor
    · exact between.reaches_of_mem isRow
    · intro reaches
      induction reaches with
      | refl => exact between.self_mem isRow
      | @tail middle target _ step inRow =>
          have bound : middle < rows.length := by
            obtain ⟨original, isOriginal, _⟩ := step
            rw [between.length_eq]
            exact (List.getElem?_eq_some_iff.mp isOriginal).1
          have isMiddleRow := List.getElem?_eq_getElem bound
          exact stable source (List.getElem?_eq_some_iff.mp isRow).1 isRow inRow
            ⟨rows[middle], isMiddleRow, between.mem_of_steps isMiddleRow step⟩

end IsBetween

end Rows

def weight : List NodeSet → Nat
  | [] => 0
  | row :: rows => row.nodes.length + weight rows

theorem weight_le_mul {rows : List NodeSet} {bound : Nat}
    (bounded : ∀ row ∈ rows, ∀ node ∈ row, node < bound) :
    weight rows ≤ rows.length * bound := by
  induction rows with
  | nil => exact Nat.zero_le _
  | cons row rows induction =>
      have rowLength : row.nodes.length ≤ bound := by
        have sublist := NodeSet.sublist_range (bounded row List.mem_cons_self)
        simpa using sublist.length_le
      have rowsWeight : weight rows ≤ rows.length * bound :=
        induction fun row member => bounded row (List.mem_cons_of_mem _ member)
      rw [weight, List.length_cons, Nat.succ_mul]
      omega

theorem weight_set {rows : List NodeSet} {place : Nat} {row joined : NodeSet}
    (isRow : rows[place]? = some row) :
    weight (rows.set place joined) + row.nodes.length =
      weight rows + joined.nodes.length := by
  induction rows generalizing place with
  | nil => cases isRow
  | cons first later induction =>
      cases place with
      | zero =>
          cases isRow
          rw [List.set_cons_zero, weight, weight]
          omega
      | succ place =>
          have inLater := induction isRow
          rw [List.set_cons_succ, weight, weight]
          omega

/-- What happens to a sweep: nothing, or it changes something and adds to the
weight. -/
def Grows (before after : Sweep) : Prop :=
  after = before ∨ after.changed = true ∧ weight before.rows < weight after.rows

theorem Grows.trans {first second third : Sweep} (earlier : Grows first second)
    (later : Grows second third) : Grows first third := by
  cases later with
  | inl same => exact same ▸ earlier
  | inr changes =>
      cases earlier with
      | inl same => exact .inr (same ▸ changes)
      | inr heavier => exact .inr ⟨changes.1, heavier.2.trans changes.2⟩

theorem Grows.eq_of_eq {first second third : Sweep} (earlier : Grows first second)
    (later : Grows second third) (same : third = first) : second = first := by
  cases earlier with
  | inl unchanged => exact unchanged
  | inr changes =>
      cases later with
      | inl unchanged => exact unchanged ▸ same
      | inr further =>
          have heavier := changes.2.trans further.2
          rw [same] at heavier
          exact absurd heavier (Nat.lt_irrefl _)

theorem grows_set {before : Sweep} {place : Nat} {row joined : NodeSet}
    (isRow : before.rows[place]? = some row)
    (subset : ∀ node, node ∈ row → node ∈ joined) :
    Grows before ⟨before.rows.set place joined,
      before.changed || joined.nodes.length != row.nodes.length⟩ := by
  by_cases longer : joined.nodes.length ≤ row.nodes.length
  · left
    have sameRow : row = joined := NodeSet.eq_of_subset_of_length_le subset longer
    have sameRows : before.rows.set place row = before.rows := by
      obtain ⟨bound, isPlace⟩ := List.getElem?_eq_some_iff.mp isRow
      rw [← isPlace]
      exact List.set_getElem_self bound
    rw [← sameRow, sameRows, bne_self_eq_false, Bool.or_false]
  · right
    have differ : (joined.nodes.length != row.nodes.length) = true :=
      bne_iff_ne.mpr (Nat.ne_of_gt (Nat.lt_of_not_le longer))
    have grown : weight (before.rows.set place joined) + row.nodes.length =
        weight before.rows + joined.nodes.length := weight_set isRow
    refine ⟨?_, ?_⟩
    · rw [differ, Bool.or_true]
    · change weight before.rows < weight (before.rows.set place joined)
      omega

/-- What joining the rows at some places does, one after another. -/
structure Joins (base : List NodeSet) (places : List Nat) (before after : Sweep) :
    Prop where
  isBetween : IsBetween base after.rows
  grows : Grows before after
  steps_lt : ∀ place ∈ places, ∀ target, Steps base place target →
    target < base.length
  stable : after = before → ∀ place ∈ places, IsStable before.rows place

theorem Joins.none {base : List NodeSet} {sweep : Sweep}
    (between : IsBetween base sweep.rows) : Joins base [] sweep sweep where
  isBetween := between
  grows := .inl rfl
  steps_lt := nofun
  stable := nofun

theorem Joins.cons {base : List NodeSet} {place : Nat} {places : List Nat}
    {first second third : Sweep} (head : Joins base [place] first second)
    (tail : Joins base places second third) :
    Joins base (place :: places) first third where
  isBetween := tail.isBetween
  grows := head.grows.trans tail.grows
  steps_lt := List.forall_mem_cons.mpr
    ⟨head.steps_lt place (List.mem_singleton_self place), tail.steps_lt⟩
  stable := by
    intro same
    have sameHead := head.grows.eq_of_eq tail.grows same
    refine List.forall_mem_cons.mpr
      ⟨head.stable sameHead place (List.mem_singleton_self place), ?_⟩
    rw [← sameHead]
    exact tail.stable (same.trans sameHead.symm)

section Joining

variable {base : List NodeSet} {before : Sweep}
  (between : IsBetween base before.rows)

include between

theorem Joins.single {place : Nat} {row joined : NodeSet}
    (isRow : before.rows[place]? = some row)
    (members : ∀ node ∈ row, node < before.rows.length)
    (inJoined : ∀ target, target ∈ joined ↔
      target ∈ row ∨ ∃ middle ∈ row, Steps before.rows middle target) :
    Joins base [place] before ⟨before.rows.set place joined,
      before.changed || joined.nodes.length != row.nodes.length⟩ where
  isBetween := between.set isRow inJoined
  grows := grows_set isRow fun node inRow => (inJoined node).mpr (.inl inRow)
  steps_lt := by
    intro source isPlace target step
    rw [List.mem_singleton.mp isPlace] at step
    rw [← between.length_eq]
    exact members target (between.mem_of_steps isRow step)
  stable := by
    intro same source isPlace found middle target isFound inFound step
    rw [List.mem_singleton.mp isPlace] at isFound
    have sameRows : before.rows.set place joined = before.rows :=
      congrArg Sweep.rows same
    have isJoined : before.rows[place]? = some joined := by
      rw [← sameRows]
      exact List.getElem?_set_self (List.getElem?_eq_some_iff.mp isRow).1
    rw [isRow] at isFound isJoined
    cases isFound
    cases isJoined
    exact (inJoined target).mpr (.inr ⟨middle, inFound, step⟩)

/-- The step of a sweep: a row is joined, or a dangling member is reported. -/
theorem joinRow_cases {place : Nat} (bound : place < base.length) :
    (∃ after, joinRow before place = .ok after ∧ Joins base [place] before after) ∨
    ∃ dangling, joinRow before place = .error dangling ∧
      IsDangling base dangling.node := by
  have inRange : place < before.rows.length := between.length_eq ▸ bound
  have isRow := List.getElem?_eq_getElem inRange
  generalize before.rows[place] = row at isRow
  cases gather_cases before.rows row.nodes with
  | inl gathers =>
      obtain ⟨set, isSet, members, inSet⟩ := gathers
      have inJoined : ∀ target, target ∈ row ∪ set ↔
          target ∈ row ∨ ∃ middle ∈ row, Steps before.rows middle target := by
        intro target
        rw [NodeSet.mem_union, inSet]
        rfl
      left
      refine ⟨_, ?_, Joins.single between isRow members inJoined⟩
      rw [joinRow, isRow]
      simp only [isSet]
      rfl
  | inr fails =>
      obtain ⟨dangling, isDangling, member, outside⟩ := fails
      right
      refine ⟨dangling, ?_, ?_⟩
      · rw [joinRow, isRow]
        simp only [isDangling]
        rfl
      · exact between.isDangling_of_mem isRow member (between.length_eq ▸ outside)

/-- The run of a sweep: its steps one after another, up to the first one that
fails. -/
theorem joinRows_cases {places : List Nat}
    (inRange : ∀ place ∈ places, place < base.length) :
    (∃ after, places.foldlM joinRow before = .ok after ∧
      Joins base places before after) ∨
    ∃ dangling, places.foldlM joinRow before = .error dangling ∧
      IsDangling base dangling.node := by
  induction places generalizing before with
  | nil => exact .inl ⟨before, rfl, .none between⟩
  | cons place places induction =>
      obtain ⟨bound, laterInRange⟩ := List.forall_mem_cons.mp inRange
      rw [List.foldlM_cons]
      cases joinRow_cases between bound with
      | inl joins =>
          obtain ⟨middle, isMiddle, head⟩ := joins
          rw [isMiddle]
          cases induction head.isBetween laterInRange with
          | inl joins =>
              obtain ⟨after, isAfter, tail⟩ := joins
              exact .inl ⟨after, isAfter, head.cons tail⟩
          | inr fails => exact .inr fails
      | inr fails =>
          obtain ⟨dangling, isDangling, dangles⟩ := fails
          rw [isDangling]
          exact .inr ⟨dangling, rfl, dangles⟩

end Joining

theorem mem_windows {count place : Nat} : place ∈ windows count ↔ place < count := by
  rw [windows, List.mem_flatMap]
  simp only [List.mem_range]
  constructor
  · intro inWindow
    obtain ⟨last, bound, below⟩ := inWindow
    omega
  · intro bound
    exact ⟨place, bound, Nat.lt_succ_self place⟩

/-- A sweep over rows between a relation and its closure finds the closure
unchanged, or it adds something, or it meets a dangling member. -/
theorem sweep_cases {base rows : List NodeSet} (between : IsBetween base rows) :
    (IsBounded base ∧ IsClosureOf base rows ∧ sweep rows = .ok ⟨rows, false⟩) ∨
    (IsBounded base ∧ ∃ swept, sweep rows = .ok ⟨swept, true⟩ ∧
      IsBetween base swept ∧ weight rows < weight swept) ∨
    ∃ dangling, sweep rows = .error dangling ∧ IsDangling base dangling.node := by
  have inRange : ∀ place ∈ windows rows.length, place < base.length := by
    intro place inWindows
    exact between.length_eq ▸ mem_windows.mp inWindows
  have start : IsBetween base (Sweep.mk rows false).rows := between
  cases joinRows_cases start inRange with
  | inr fails => exact .inr (.inr fails)
  | inl joins =>
      obtain ⟨⟨swept, changed⟩, isSwept, joins⟩ := joins
      have bounded : IsBounded base := by
        apply isBounded_of_steps_lt
        intro source bound target step
        have inWindows := mem_windows.mpr (between.length_eq.symm ▸ bound)
        exact joins.steps_lt source inWindows target step
      cases joins.grows with
      | inl same =>
          cases same
          left
          refine ⟨bounded, ?_, isSwept⟩
          apply between.isClosureOf
          intro place bound
          exact joins.stable rfl place (mem_windows.mpr bound)
      | inr heavier =>
          obtain ⟨isChanged, heavier⟩ := heavier
          cases isChanged
          exact .inr (.inl ⟨bounded, swept, isSwept, joins.isBetween, heavier⟩)

/-- A sweep that changes something adds to the weight, so that as many sweeps as
there is room for members, and one more, reach the closure. -/
theorem saturate_settles {base rows : List NodeSet} {fuel : Nat}
    (bounded : IsBounded base) (between : IsBetween base rows)
    (enough : base.length * base.length < fuel + weight rows) :
    ∃ closed, saturate fuel rows = .ok closed ∧ Settles rows closed ∧
      IsClosureOf base closed := by
  induction fuel generalizing rows with
  | zero =>
      have limit := weight_le_mul (between.lt_length bounded)
      rw [between.length_eq] at limit
      omega
  | succ fuel induction =>
      rw [saturate]
      obtain ⟨_, isClosure, isSwept⟩ | ⟨_, swept, isSwept, stillBetween, heavier⟩ |
        ⟨dangling, _, outside, row, inBase, inRow⟩ := sweep_cases between
      · rw [isSwept]
        exact ⟨rows, rfl, .still isSwept, isClosure⟩
      · rw [isSwept]
        obtain ⟨closed, isClosed, settles, isClosure⟩ :=
          induction stillBetween (by omega)
        exact ⟨closed, isClosed, .again isSwept settles, isClosure⟩
      · have inside := bounded row inBase dangling.node inRow
        exact absurd inside (Nat.not_lt.mpr outside)

theorem transitiveClosure_settles {rows : List NodeSet} (bounded : IsBounded rows) :
    ∃ closed, transitiveClosure rows = .ok closed ∧
      Settles (reflexive rows) closed ∧ IsClosureOf rows closed := by
  apply saturate_settles bounded (reflexive_isBetween rows)
  omega

theorem transitiveClosure_isClosureOf {rows : List NodeSet}
    (bounded : IsBounded rows) :
    ∃ closed, transitiveClosure rows = .ok closed ∧ IsClosureOf rows closed := by
  obtain ⟨closed, isClosed, _, isClosure⟩ := transitiveClosure_settles bounded
  exact ⟨closed, isClosed, isClosure⟩

theorem transitiveClosure_dangles {rows : List NodeSet} {node : Nat}
    (dangles : IsDangling rows node) :
    ∃ dangling, transitiveClosure rows = .error dangling ∧
      IsDangling rows dangling.node := by
  have unbounded : ¬ IsBounded rows := by
    intro bounded
    obtain ⟨outside, row, inRows, inRow⟩ := dangles
    exact absurd (bounded row inRows node inRow) (Nat.not_lt.mpr outside)
  rw [transitiveClosure, saturate]
  obtain ⟨bounded, _⟩ | ⟨bounded, _⟩ | ⟨dangling, isDangling, dangles⟩ :=
    sweep_cases (reflexive_isBetween rows)
  · exact absurd bounded unbounded
  · exact absurd bounded unbounded
  · rw [isDangling]
    exact ⟨dangling, rfl, dangles⟩

/-- Exactly where all members of the rows have rows, the sweeps come to an end, and
the row of a node then holds what can be reached from it in any number of steps.
Otherwise a member without a row is reported. -/
theorem transitiveClosure_isReachability (rows : List NodeSet) :
    (IsBounded rows ↔
      ∃ closed, transitiveClosure rows = .ok closed ∧
        Settles (reflexive rows) closed ∧ IsClosureOf rows closed) ∧
    ((∃ node, IsDangling rows node) ↔
      ∃ dangling, transitiveClosure rows = .error dangling ∧
        IsDangling rows dangling.node) := by
  have ok_or_dangles : IsBounded rows ∨ ∃ node, IsDangling rows node := by
    rw [Classical.or_iff_not_imp_right]
    intro nothingDangles row inRows node inRow
    apply Nat.lt_of_not_le
    intro outside
    exact nothingDangles ⟨node, outside, row, inRows, inRow⟩
  refine ⟨⟨transitiveClosure_settles, ?_⟩, ?_, ?_⟩
  · intro succeeds
    obtain ⟨closed, isClosed, _⟩ := succeeds
    apply ok_or_dangles.resolve_right
    intro dangles
    obtain ⟨node, dangles⟩ := dangles
    obtain ⟨dangling, isDangling, _⟩ := transitiveClosure_dangles dangles
    rw [isClosed] at isDangling
    cases isDangling
  · intro dangles
    obtain ⟨node, dangles⟩ := dangles
    exact transitiveClosure_dangles dangles
  · intro fails
    obtain ⟨dangling, _, dangles⟩ := fails
    exact ⟨dangling.node, dangles⟩

end Closure

end LexGen
