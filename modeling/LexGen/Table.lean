/-!
# Tables

A `Table` maps finitely many keys to values.  Its entries are kept in ascending
order of their keys, one for each key, so that two tables that answer every
lookup alike are the same value.  `get?_insert` says what inserting changes, and
`ext` that nothing but the lookups matters.
-/

namespace LexGen

/-- A finite map, listed in ascending order of its keys. -/
structure Table (κ α : Type) [LT κ] where
  entries : List (κ × α)
  ascending : entries.Pairwise fun earlier later => earlier.1 < later.1

namespace Table

variable {κ α : Type} [LT κ]

instance [DecidableEq κ] [DecidableEq α] : DecidableEq (Table κ α) :=
  fun left right =>
    decidable_of_iff (left.entries = right.entries) <| by
      cases left
      cases right
      simp

def empty : Table κ α := ⟨[], .nil⟩

instance : EmptyCollection (Table κ α) := ⟨empty⟩

def get? [BEq κ] (table : Table κ α) (key : κ) : Option α :=
  table.entries.lookup key

def contains [BEq κ] (table : Table κ α) (key : κ) : Bool :=
  (table.get? key).isSome

/-- Whatever value a key has in the table, it has the same one in the further
table. -/
def IsWithin [BEq κ] (table further : Table κ α) : Prop :=
  ∀ key value, table.get? key = some value → further.get? key = some value

theorem IsWithin.refl [BEq κ] (table : Table κ α) : table.IsWithin table :=
  fun _ _ isValue => isValue

section Lookups

variable [BEq κ] [LawfulBEq κ] [LE κ] [Std.LawfulOrderLT κ]

theorem lookup_eq_some_iff {entries : List (κ × α)}
    (ascending : entries.Pairwise fun earlier later => earlier.1 < later.1)
    {key : κ} {value : α} :
    entries.lookup key = some value ↔ (key, value) ∈ entries := by
  induction entries with
  | nil => simp
  | cons first later inLater =>
      obtain ⟨firstSmaller, laterAscending⟩ := List.pairwise_cons.mp ascending
      obtain ⟨name, content⟩ := first
      rw [List.lookup_cons, List.mem_cons, Prod.mk.injEq]
      by_cases isFirst : key = name
      · subst isFirst
        have notLater : (key, value) ∉ later := fun member =>
          absurd (firstSmaller (key, value) member) Std.lt_irrefl
        simp [notLater, eq_comm]
      · have differs : (key == name) = false := beq_false_of_ne isFirst
        simp [differs, isFirst, inLater laterAscending]

theorem ext [Std.IsLinearOrder κ] {left right : Table κ α}
    (sameLookups : ∀ key, left.get? key = right.get? key) : left = right := by
  obtain ⟨left, leftAscending⟩ := left
  obtain ⟨right, rightAscending⟩ := right
  congr
  have different {earlier later : κ × α} (smaller : earlier.1 < later.1) :
      earlier ≠ later := by
    rintro rfl
    exact Std.lt_irrefl smaller
  have permuted : left.Perm right := by
    refine (List.perm_ext_iff_of_nodup (leftAscending.imp different)
      (rightAscending.imp different)).mpr fun entry => ?_
    rw [← lookup_eq_some_iff leftAscending, ← lookup_eq_some_iff rightAscending]
    exact iff_of_eq (congrArg (· = some entry.2) (sameLookups entry.1))
  exact permuted.eq_of_pairwise
    (fun _ _ _ _ smaller larger => absurd (Std.lt_trans smaller larger) Std.lt_irrefl)
    leftAscending rightAscending

theorem IsWithin.antisymm [Std.IsLinearOrder κ] {left right : Table κ α}
    (within : left.IsWithin right) (contains : right.IsWithin left) : left = right := by
  apply ext
  intro key
  cases isLeft : left.get? key with
  | some value => exact (within key value isLeft).symm
  | none =>
      cases isRight : right.get? key with
      | none => rfl
      | some value =>
          rw [contains key value isRight] at isLeft
          exact absurd isLeft (Option.some_ne_none value)

end Lookups

variable [DecidableLT κ]

/-- Put an entry in its place, replacing the entry of the same key. -/
def insertEntry (key : κ) (value : α) : List (κ × α) → List (κ × α)
  | [] => [(key, value)]
  | entry :: later =>
      if key < entry.1 then (key, value) :: entry :: later
      else if entry.1 < key then entry :: insertEntry key value later
      else (key, value) :: later

theorem eq_or_mem_of_mem_insertEntry {key : κ} {value : α}
    {entries : List (κ × α)} {entry : κ × α}
    (member : entry ∈ insertEntry key value entries) :
    entry = (key, value) ∨ entry ∈ entries := by
  induction entries with
  | nil => exact .inl (List.mem_singleton.mp member)
  | cons first later inLater =>
      simp only [insertEntry] at member
      split at member
      · rcases List.mem_cons.mp member with here | there
        · exact .inl here
        · exact .inr there
      · split at member
        · rcases List.mem_cons.mp member with here | there
          · exact .inr (List.mem_cons.mpr (.inl here))
          · exact (inLater there).imp id (List.mem_cons_of_mem first)
        · rcases List.mem_cons.mp member with here | there
          · exact .inl here
          · exact .inr (List.mem_cons_of_mem first there)

variable [LE κ] [Std.IsLinearOrder κ] [Std.LawfulOrderLT κ]

theorem insertEntry_append {key : κ} {value : α} {entries : List (κ × α)}
    (isLargest : ∀ entry ∈ entries, entry.1 < key) :
    insertEntry key value entries = entries ++ [(key, value)] := by
  induction entries with
  | nil => rfl
  | cons first later induction =>
      have isLater := isLargest first List.mem_cons_self
      have notBefore : ¬ key < first.1 := fun before =>
        Std.lt_irrefl (Std.lt_trans isLater before)
      have inserted := induction fun entry member =>
        isLargest entry (List.mem_cons_of_mem first member)
      rw [insertEntry, if_neg notBefore, if_pos isLater, inserted]
      rfl

theorem insertEntry_ascending {key : κ} {value : α} {entries : List (κ × α)}
    (ascending : entries.Pairwise fun earlier later => earlier.1 < later.1) :
    (insertEntry key value entries).Pairwise
      fun earlier later => earlier.1 < later.1 := by
  induction entries with
  | nil => exact List.pairwise_singleton _ _
  | cons first later laterInserted =>
      obtain ⟨firstSmaller, laterAscending⟩ := List.pairwise_cons.mp ascending
      simp only [insertEntry]
      split
      next before =>
        refine List.pairwise_cons.mpr ⟨fun entry member => ?_, ascending⟩
        rcases List.mem_cons.mp member with rfl | inLater
        · exact before
        · exact Std.lt_trans before (firstSmaller entry inLater)
      next notBefore =>
        split
        next after =>
          refine List.pairwise_cons.mpr
            ⟨fun entry member => ?_, laterInserted laterAscending⟩
          rcases eq_or_mem_of_mem_insertEntry member with rfl | inLater
          · exact after
          · exact firstSmaller entry inLater
        next notAfter =>
          have same : key = first.1 :=
            Std.le_antisymm (Std.not_lt.mp notAfter) (Std.not_lt.mp notBefore)
          refine List.pairwise_cons.mpr
            ⟨fun entry member => ?_, laterAscending⟩
          exact same ▸ firstSmaller entry member

def insert (table : Table κ α) (key : κ) (value : α) : Table κ α where
  entries := insertEntry key value table.entries
  ascending := insertEntry_ascending table.ascending

/-- Insert pairs in order, so that the last of two pairs with one key counts. -/
def ofList (pairs : List (κ × α)) : Table κ α :=
  pairs.foldl (fun table pair => table.insert pair.1 pair.2) ∅

theorem lookup_insertEntry [BEq κ] [LawfulBEq κ] {key other : κ} {value : α}
    {entries : List (κ × α)} :
    (insertEntry key value entries).lookup other =
      if other == key then some value else entries.lookup other := by
  induction entries with
  | nil =>
      simp only [insertEntry, List.lookup_cons, List.lookup_nil]
      split <;> simp_all
  | cons first later inLater =>
      obtain ⟨name, content⟩ := first
      simp only [insertEntry]
      split
      next before =>
        rw [List.lookup_cons]
        split <;> simp_all
      next notBefore =>
        split
        next after =>
          rw [List.lookup_cons, List.lookup_cons, inLater]
          by_cases isKey : other = key
          · subst isKey
            have different : (other == name) = false := by
              refine beq_false_of_ne ?_
              rintro rfl
              exact Std.lt_irrefl after
            simp [different]
          · simp [isKey]
        next notAfter =>
          have same : key = name :=
            Std.le_antisymm (Std.not_lt.mp notAfter) (Std.not_lt.mp notBefore)
          subst same
          rw [List.lookup_cons, List.lookup_cons]
          split <;> simp_all

theorem get?_insert [BEq κ] [LawfulBEq κ] {table : Table κ α} {key other : κ}
    {value : α} :
    (table.insert key value).get? other =
      if other == key then some value else table.get? other :=
  lookup_insertEntry

theorem IsWithin.insert [BEq κ] [LawfulBEq κ] {table further : Table κ α} {key : κ}
    {value : α} (within : table.IsWithin further)
    (isValue : further.get? key = some value) :
    (table.insert key value).IsWithin further := by
  intro other content isContent
  rw [get?_insert] at isContent
  by_cases isKey : other = key
  · subst isKey
    rw [isValue]
    simpa using isContent
  · exact within other content (by simpa [isKey] using isContent)

theorem isWithin_insert [BEq κ] [LawfulBEq κ] {table : Table κ α} {key : κ} {value : α}
    (isNew : table.get? key = none) : table.IsWithin (table.insert key value) := by
  intro other content isContent
  have differs : other ≠ key := by
    intro isKey
    rw [isKey, isNew] at isContent
    exact absurd isContent.symm (Option.some_ne_none content)
  rw [get?_insert]
  simpa [differs] using isContent

theorem get?_ofList [BEq κ] [LawfulBEq κ] {pairs : List (κ × α)}
    (distinct : (pairs.map Prod.fst).Nodup) {key : κ} {value : α} :
    (ofList pairs).get? key = some value ↔ (key, value) ∈ pairs := by
  have inserted (table : Table κ α) :
      (pairs.foldl (fun table pair => table.insert pair.1 pair.2) table).get? key =
          some value ↔
        (key, value) ∈ pairs ∨
          key ∉ pairs.map Prod.fst ∧ table.get? key = some value := by
    induction pairs generalizing table with
    | nil => simp
    | cons first later induction =>
        obtain ⟨name, content⟩ := first
        rw [List.map_cons, List.nodup_cons] at distinct
        rw [List.foldl_cons, induction distinct.2, get?_insert]
        by_cases isFirst : key = name
        · subst isFirst
          have notLater : (key, value) ∉ later := fun member =>
            distinct.1 (List.mem_map.mpr ⟨(key, value), member, rfl⟩)
          simp only [notLater, distinct.1, BEq.rfl, if_true, List.mem_cons,
            Prod.mk.injEq, true_and, false_or, or_false, not_false_eq_true,
            List.map_cons, not_true_eq_false, false_and, Option.some.injEq]
          exact eq_comm
        · have differs : (key == name) = false := beq_false_of_ne isFirst
          simp [differs, isFirst]
  have empty : (∅ : Table κ α).get? key ≠ some value := nofun
  rw [ofList, inserted]
  simp only [empty, and_false, or_false]

end Table

end LexGen
