import LexGen.CodeSet.Basic

/-!
# Members of code sets

Every operation on code sets is described by the codes its result holds, and two
sets that hold the same codes are equal.
-/

namespace LexGen

namespace Code

theorem mem_domain {code : Int} : code ∈ domain ↔ -1 ≤ code ∧ code ≤ 255 := by
  simp only [domain, List.mem_map, List.mem_range, Int.ofNat_eq_natCast]
  constructor
  · rintro ⟨slot, bound, rfl⟩
    omega
  · rintro ⟨low, high⟩
    exact ⟨(code + 1).toNat, by omega, by omega⟩

theorem slot?_eq_some {code : Int} (member : code ∈ domain) :
    slot? code = some ⟨(code + 1).toNat, by
      have bounds := mem_domain.mp member
      omega⟩ := by
  have bounds := mem_domain.mp member
  exact dif_pos bounds

theorem slot?_eq_none {code : Int} (outside : code ∉ domain) :
    slot? code = none :=
  dif_neg fun bounds => outside (mem_domain.mpr bounds)

theorem domain_ascending : domain.Pairwise (· < ·) := by
  apply List.pairwise_map.mpr
  apply List.pairwise_lt_range.imp
  intro earlier later smaller
  simp only [Int.ofNat_eq_natCast]
  omega

theorem length_ofText (text : String) : (ofText text).length = text.length := by
  rw [ofText, List.length_map, String.length_toList]

theorem ofText_injective {first second : String}
    (same : ofText first = ofText second) : first = second := by
  apply String.toList_injective
  apply (List.map_inj_right ?_).mp same
  intro character other sameCode
  exact Char.toNat_inj.mp (Int.ofNat.inj sameCode)

end Code

namespace CodeSet

theorem mem_iff_contains {set : CodeSet} {code : Int} :
    code ∈ set ↔ set.contains code = true :=
  Iff.rfl

/-- A code of the domain is a member exactly if its bit is set. -/
theorem contains_eq_getLsbD {set : CodeSet} {code : Int}
    (member : code ∈ Code.domain) :
    set.contains code = set.bits.getLsbD (code + 1).toNat := by
  simp only [contains, Code.slot?_eq_some member]

theorem contains_eq_false {set : CodeSet} {code : Int}
    (outside : code ∉ Code.domain) : set.contains code = false := by
  simp only [contains, Code.slot?_eq_none outside]

theorem mem_domain_of_mem {set : CodeSet} {code : Int} (member : code ∈ set) :
    code ∈ Code.domain := by
  by_cases inDomain : code ∈ Code.domain
  · exact inDomain
  · rw [mem_iff_contains, contains_eq_false inDomain] at member
    cases member

@[simp] theorem not_mem_empty {code : Int} : code ∉ (∅ : CodeSet) := by
  intro member
  rw [mem_iff_contains, contains_eq_getLsbD (mem_domain_of_mem member)] at member
  have zero : (∅ : CodeSet).bits = 0#257 := rfl
  rw [zero, BitVec.getLsbD_zero] at member
  cases member

@[simp] theorem mem_union {left right : CodeSet} {code : Int} :
    code ∈ left ∪ right ↔ code ∈ left ∨ code ∈ right := by
  by_cases inDomain : code ∈ Code.domain
  · have bits : (left ∪ right).bits = left.bits ||| right.bits := rfl
    simp only [mem_iff_contains, contains_eq_getLsbD inDomain, bits,
      BitVec.getLsbD_or, Bool.or_eq_true]
  · simp only [mem_iff_contains, contains_eq_false inDomain,
      Bool.false_eq_true, or_false]

@[simp] theorem mem_inter {left right : CodeSet} {code : Int} :
    code ∈ left ∩ right ↔ code ∈ left ∧ code ∈ right := by
  by_cases inDomain : code ∈ Code.domain
  · have bits : (left ∩ right).bits = left.bits &&& right.bits := rfl
    simp only [mem_iff_contains, contains_eq_getLsbD inDomain, bits,
      BitVec.getLsbD_and, Bool.and_eq_true]
  · simp only [mem_iff_contains, contains_eq_false inDomain,
      Bool.false_eq_true, and_false]

@[simp] theorem mem_diff {left right : CodeSet} {code : Int} :
    code ∈ left \ right ↔ code ∈ left ∧ code ∉ right := by
  by_cases inDomain : code ∈ Code.domain
  · have bits : (left \ right).bits = left.bits &&& ~~~right.bits := rfl
    have bound : (code + 1).toNat < 257 := by
      have bounds := Code.mem_domain.mp inDomain
      omega
    simp only [mem_iff_contains, contains_eq_getLsbD inDomain, bits,
      BitVec.getLsbD_and, BitVec.getLsbD_not, bound, decide_true,
      Bool.true_and, Bool.and_eq_true, Bool.not_eq_true',
      Bool.not_eq_true]
  · simp only [mem_iff_contains, contains_eq_false inDomain,
      Bool.false_eq_true, false_and]

@[simp] theorem mem_insert {set : CodeSet} {code added : Int} :
    code ∈ set.insert added ↔
      code ∈ set ∨ code = added ∧ added ∈ Code.domain := by
  by_cases addedInDomain : added ∈ Code.domain
  · have bits : (set.insert added).bits =
        set.bits ||| BitVec.twoPow 257 (added + 1).toNat := by
      simp only [insert, Code.slot?_eq_some addedInDomain]
    by_cases inDomain : code ∈ Code.domain
    · have codeBounds := Code.mem_domain.mp inDomain
      have addedBounds := Code.mem_domain.mp addedInDomain
      have sameBit : (added + 1).toNat = (code + 1).toNat ↔ code = added := by
        omega
      have inRange : (added + 1).toNat < 257 := by omega
      simp only [mem_iff_contains, contains_eq_getLsbD inDomain, bits,
        BitVec.getLsbD_or, BitVec.getLsbD_twoPow, Bool.or_eq_true,
        Bool.and_eq_true, decide_eq_true_eq, inRange, sameBit,
        addedInDomain, true_and, and_true]
    · have different : code ≠ added := fun same => inDomain (same ▸ addedInDomain)
      simp only [mem_iff_contains, contains_eq_false inDomain,
        Bool.false_eq_true, different, false_and, or_false]
  · have unchanged : set.insert added = set := by
      simp only [insert, Code.slot?_eq_none addedInDomain]
    simp only [unchanged, addedInDomain, and_false, or_false]

@[simp] theorem mem_insertAll {set : CodeSet} {codes : List Int} {code : Int} :
    code ∈ set.insertAll codes ↔
      code ∈ set ∨ code ∈ codes ∧ code ∈ Code.domain := by
  induction codes generalizing set with
  | nil => simp [insertAll]
  | cons added later inLater =>
      have step : set.insertAll (added :: later) =
          (set.insert added).insertAll later := rfl
      rw [step, inLater, mem_insert, List.mem_cons, or_assoc, or_and_right]
      refine or_congr Iff.rfl (or_congr ?_ Iff.rfl)
      constructor
      · rintro ⟨rfl, inDomain⟩
        exact ⟨rfl, inDomain⟩
      · rintro ⟨rfl, inDomain⟩
        exact ⟨rfl, inDomain⟩

@[simp] theorem mem_ofList {codes : List Int} {code : Int} :
    code ∈ ofList codes ↔ code ∈ codes ∧ code ∈ Code.domain := by
  simp [ofList]

@[simp] theorem mem_singleton {code only : Int} :
    code ∈ singleton only ↔ code = only ∧ only ∈ Code.domain := by
  simp [singleton]

@[simp] theorem mem_range {low high code : Int} :
    code ∈ range low high ↔ (low ≤ code ∧ code ≤ high) ∧ code ∈ Code.domain := by
  simp only [range, mem_ofList, List.mem_filter, Bool.and_eq_true,
    decide_eq_true_eq]
  constructor
  · rintro ⟨⟨_, between⟩, inDomain⟩
    exact ⟨between, inDomain⟩
  · rintro ⟨between, inDomain⟩
    exact ⟨⟨inDomain, between⟩, inDomain⟩

theorem mem_all {code : Int} : code ∈ all ↔ 0 ≤ code ∧ code ≤ 255 := by
  rw [all, mem_range, Code.mem_domain, Code.largest]
  omega

@[simp] theorem mem_toList {set : CodeSet} {code : Int} :
    code ∈ set.toList ↔ code ∈ set := by
  rw [toList, List.mem_filter]
  exact ⟨fun both => both.2, fun member => ⟨mem_domain_of_mem member, member⟩⟩

theorem ext {left right : CodeSet}
    (sameMembers : ∀ code, code ∈ left ↔ code ∈ right) : left = right := by
  obtain ⟨left⟩ := left
  obtain ⟨right⟩ := right
  congr
  apply BitVec.eq_of_getLsbD_eq
  intro slot bound
  have inDomain : (slot : Int) - 1 ∈ Code.domain :=
    Code.mem_domain.mpr ⟨by omega, by omega⟩
  have bit : ((slot : Int) - 1 + 1).toNat = slot := by omega
  have same := sameMembers (slot - 1)
  simp only [mem_iff_contains, contains_eq_getLsbD inDomain, bit] at same
  exact Bool.eq_iff_iff.mpr same

theorem isEmpty_iff {set : CodeSet} : set.isEmpty = true ↔ set = ∅ := by
  obtain ⟨bits⟩ := set
  simp only [isEmpty, beq_iff_eq]
  constructor
  · rintro rfl
    rfl
  · intro same
    exact congrArg CodeSet.bits same

theorem isEmpty_iff_forall {set : CodeSet} :
    set.isEmpty = true ↔ ∀ code, code ∉ set := by
  rw [isEmpty_iff]
  constructor
  · intro isEmpty code
    rw [isEmpty]
    exact not_mem_empty
  · intro noMember
    apply ext
    intro code
    exact iff_of_false (noMember code) not_mem_empty

theorem isEmpty_eq_false_iff {set : CodeSet} :
    set.isEmpty = false ↔ ∃ code, code ∈ set := by
  rw [← Bool.not_eq_true, isEmpty_iff_forall, Classical.not_forall_not]

theorem isDisjoint_iff {left right : CodeSet} :
    left.isDisjoint right = true ↔ ∀ code ∈ left, code ∉ right := by
  rw [isDisjoint, isEmpty_iff_forall]
  simp only [mem_inter, not_and]

theorem isSingleton_iff {set : CodeSet} :
    set.isSingleton = true ↔ ∃ code, set.toList = [code] := by
  rw [isSingleton, beq_iff_eq, size, List.length_eq_one_iff]

theorem toList_ascending (set : CodeSet) : set.toList.Pairwise (· < ·) :=
  Code.domain_ascending.filter _

/-- The first code of a set is the smallest one. -/
theorem first?_eq_some_iff {set : CodeSet} {low : Int} :
    set.first? = some low ↔ low ∈ set ∧ ∀ code ∈ set, low ≤ code := by
  have ascending := set.toList_ascending
  simp only [first?, ← mem_toList]
  generalize set.toList = codes at ascending
  cases codes with
  | nil => simp
  | cons first later =>
      have firstBelow := (List.pairwise_cons.mp ascending).1
      rw [List.head?_cons, Option.some.injEq, List.forall_mem_cons]
      constructor
      · intro isFirst
        subst isFirst
        refine ⟨List.mem_cons_self, Int.le_refl _, ?_⟩
        intro code inLater
        exact Int.le_of_lt (firstBelow code inLater)
      · intro isLowest
        obtain ⟨member, belowFirst, _⟩ := isLowest
        cases List.mem_cons.mp member with
        | inl isFirst => exact isFirst.symm
        | inr inLater =>
            exact absurd (firstBelow low inLater) (Int.not_lt.mpr belowFirst)

theorem first?_insert_of_lt {set : CodeSet} {low code : Int}
    (isFirst : set.first? = some low) (larger : low < code) :
    (set.insert code).first? = some low := by
  obtain ⟨member, smallest⟩ := first?_eq_some_iff.mp isFirst
  apply first?_eq_some_iff.mpr
  refine ⟨mem_insert.mpr (.inl member), ?_⟩
  intro other isOther
  cases mem_insert.mp isOther with
  | inl inSet => exact smallest other inSet
  | inr isCode => exact isCode.1 ▸ Int.le_of_lt larger

theorem first?_singleton {code : Int} (inDomain : code ∈ Code.domain) :
    (singleton code).first? = some code := by
  apply first?_eq_some_iff.mpr
  refine ⟨mem_singleton.mpr ⟨rfl, inDomain⟩, ?_⟩
  intro other isOther
  exact Int.le_of_eq (mem_singleton.mp isOther).1.symm

end CodeSet

end LexGen
