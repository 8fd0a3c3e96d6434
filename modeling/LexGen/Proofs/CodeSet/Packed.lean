import LexGen.CodeSet.Lemmas
import LexGen.CodeSet.Packed

/-!
# Packed sets hold the bits of their codes

A packed set is told by its bits, and every operation on its words says what becomes of
each bit.  Bits beyond the domain are never set, so that the words are those of a code
set, and what is read off the words agrees with what is read off the codes.
-/

namespace LexGen

namespace PackedSet

variable {packed left right : PackedSet} {code : Int} {place : Nat}

section Bits

theorem bit_eq (bound : place / 64 < CodeSet.wordCount) :
    packed.bit place = packed.words[place / 64].getLsbD (place % 64) := by
  rw [bit, Vector.getElem?_eq_getElem bound, Option.getD_some]

theorem bit_eq_false (bound : ¬ place / 64 < CodeSet.wordCount) :
    packed.bit place = false := by
  rw [bit, Vector.getElem?_eq_none (Nat.not_lt.mp bound), Option.getD_none,
    BitVec.getLsbD_zero]

theorem ext (sameBits : ∀ place, left.bit place = right.bit place) : left = right := by
  obtain ⟨left⟩ := left
  obtain ⟨right⟩ := right
  congr
  apply Vector.ext
  intro index inWords
  apply BitVec.eq_of_getLsbD_eq
  intro offset inWord
  have isIndex : (64 * index + offset) / 64 = index := by omega
  have isOffset : (64 * index + offset) % 64 = offset := by omega
  have same := sameBits (64 * index + offset)
  rw [bit_eq (by omega), bit_eq (by omega)] at same
  simpa only [isIndex, isOffset] using same

theorem bit_empty : empty.bit place = false := by
  by_cases bound : place / 64 < CodeSet.wordCount
  · rw [bit_eq bound]
    simp [empty]
  · exact bit_eq_false bound

/-- Packed sets are combined bit by bit where their words are. -/
theorem bit_zipWith {combine : BitVec 64 → BitVec 64 → BitVec 64}
    (bitwise : Bool → Bool → Bool) (ofNone : bitwise false false = false)
    (isBitwise : ∀ left right offset, offset < 64 →
      (combine left right).getLsbD offset =
        bitwise (left.getLsbD offset) (right.getLsbD offset)) :
    (zipWith combine left right).bit place =
      bitwise (left.bit place) (right.bit place) := by
  by_cases bound : place / 64 < CodeSet.wordCount
  · rw [bit_eq bound, bit_eq bound, bit_eq bound, zipWith, Vector.getElem_zipWith,
      isBitwise _ _ _ (Nat.mod_lt place (by decide))]
  · rw [bit_eq_false bound, bit_eq_false bound, bit_eq_false bound, ofNone]

theorem bit_union : (left.union right).bit place = (left.bit place || right.bit place) :=
  bit_zipWith (· || ·) rfl fun _ _ _ _ => BitVec.getLsbD_or

theorem bit_inter : (left.inter right).bit place = (left.bit place && right.bit place) :=
  bit_zipWith (· && ·) rfl fun _ _ _ _ => BitVec.getLsbD_and

theorem bit_diff : (left.diff right).bit place = (left.bit place && !right.bit place) := by
  apply bit_zipWith (fun left right => left && !right) rfl
  intro left right offset inWord
  simp [inWord]

end Bits

section Slots

theorem slot_bound (member : code ∈ Code.domain) :
    (code + 1).toNat / 64 < CodeSet.wordCount := by
  have bounds := Code.mem_domain.mp member
  simp only [CodeSet.wordCount]
  omega

theorem slot?_eq_some (member : code ∈ Code.domain) :
    slot? code = some (⟨(code + 1).toNat / 64, slot_bound member⟩,
      1#64 <<< ((code + 1).toNat % 64)) := by
  rw [slot?, Code.slot?_eq_some member]
  rfl

theorem slot?_eq_none (outside : code ∉ Code.domain) : slot? code = none := by
  rw [slot?, Code.slot?_eq_none outside]
  rfl

/-- The mask of a code picks one bit out of its word. -/
theorem and_mask_eq_zero (word : BitVec 64) {offset : Nat} (bound : offset < 64) :
    (word &&& 1#64 <<< offset == 0#64) = !word.getLsbD offset := by
  have notZero : BitVec.twoPow 64 offset ≠ 0#64 := by
    intro isZero
    have isSet := BitVec.getLsbD_twoPow (w := 64) offset offset
    simp [isZero, bound] at isSet
  rw [← BitVec.twoPow_eq, BitVec.and_twoPow]
  cases word.getLsbD offset with
  | false => simp
  | true => simpa using notZero

theorem contains_eq_bit (member : code ∈ Code.domain) :
    packed.contains code = packed.bit (code + 1).toNat := by
  have inWord : (code + 1).toNat % 64 < 64 := Nat.mod_lt _ (by decide)
  rw [contains, slot?_eq_some member, bit_eq (slot_bound member)]
  simp only [bne, and_mask_eq_zero _ inWord, Bool.not_not]
  rfl

theorem contains_eq_false (outside : code ∉ Code.domain) : packed.contains code = false := by
  rw [contains, slot?_eq_none outside]

/-- Joining a mask to its word sets one bit. -/
theorem bit_mark {slot : Nat} (inWords : slot / 64 < CodeSet.wordCount) :
    let marked := packed.words[slot / 64] ||| 1#64 <<< (slot % 64)
    bit ⟨packed.words.set (slot / 64) marked⟩ place =
      (packed.bit place || decide (place = slot)) := by
  intro marked
  by_cases bound : place / 64 < CodeSet.wordCount
  · rw [bit_eq bound, bit_eq bound, Vector.getElem_set]
    split
    case isTrue sameWord =>
      have sameOffset : slot % 64 = place % 64 ↔ place = slot := by omega
      have inWord : slot % 64 < 64 := Nat.mod_lt slot (by decide)
      simp [marked, ← BitVec.twoPow_eq, inWord, sameOffset, ← sameWord]
    case isFalse otherWord =>
      have otherPlace : place ≠ slot := fun same => otherWord (same ▸ rfl)
      simp [otherPlace]
  · have otherPlace : place ≠ slot := fun same => bound (same ▸ inWords)
    rw [bit_eq_false bound, bit_eq_false bound]
    simp [otherPlace]

theorem bit_insert (member : code ∈ Code.domain) :
    (packed.insert code).1.bit place =
      (packed.bit place || decide (place = (code + 1).toNat)) := by
  rw [insert, slot?_eq_some member]
  exact bit_mark (slot_bound member)

theorem insert_eq_self (outside : code ∉ Code.domain) : (packed.insert code).1 = packed := by
  rw [insert, slot?_eq_none outside]

theorem insert_isNew :
    (packed.insert code).2 = (decide (code ∈ Code.domain) && !packed.contains code) := by
  by_cases member : code ∈ Code.domain
  · simp [insert, contains, slot?_eq_some member, member, bne]
  · simp [insert, slot?_eq_none member, member]

end Slots

theorem isEmpty_iff : packed.isEmpty = true ↔ packed = empty := by
  rw [isEmpty, Vector.all_eq_true]
  constructor
  · intro allZero
    obtain ⟨words⟩ := packed
    congr
    apply Vector.ext
    intro index bound
    rw [Vector.getElem_replicate]
    exact eq_of_beq (allZero index bound)
  · intro isEmpty
    simp [isEmpty, empty]

section Counting

theorem toNat_cpop_eq_countP {width : Nat} (word : BitVec width) :
    word.cpop.toNat = (List.range width).countP word.getLsbD := by
  have below (bound : Nat) :
      word.cpopNatRec bound 0 = (List.range bound).countP word.getLsbD := by
    induction bound with
    | zero => rfl
    | succ bound induction =>
        rw [BitVec.cpopNatRec_succ, BitVec.cpopNatRec_add, induction, List.range_succ,
          List.countP_append]
        cases isSet : word.getLsbD bound <;> simp [isSet]
  rw [BitVec.toNat_cpop, below]

/-- Counting in rows of one width is counting in one range. -/
theorem countP_range_mul (test : Nat → Bool) (rows width : Nat) :
    (List.range (width * rows)).countP test =
      ((List.range rows).map fun row =>
        (List.range width).countP fun offset => test (width * row + offset)).sum := by
  induction rows with
  | zero => rfl
  | succ rows induction =>
      rw [Nat.mul_succ, List.range_add, List.countP_append, induction, List.countP_map,
        List.range_succ, List.map_append, List.sum_append, List.map_singleton,
        List.sum_singleton]
      rfl

theorem words_toList :
    packed.words.toList = (List.range CodeSet.wordCount).map fun index =>
      packed.words[index]?.getD 0#64 := by
  apply List.ext_getElem
  · simp
  · intro index inWords inRange
    have bound : index < CodeSet.wordCount := by simpa using inRange
    rw [List.getElem_map, List.getElem_range, Vector.getElem?_eq_getElem bound,
      Option.getD_some, Vector.getElem_toList]

theorem size_eq_countP :
    packed.size = (List.range (64 * CodeSet.wordCount)).countP packed.bit := by
  rw [size, words_toList, List.map_map, countP_range_mul]
  congr 2
  funext index
  rw [Function.comp_apply, toNat_cpop_eq_countP]
  apply List.countP_congr
  intro offset inRange
  have inWord : offset < 64 := List.mem_range.mp inRange
  have isIndex : (64 * index + offset) / 64 = index := by omega
  have isOffset : (64 * index + offset) % 64 = offset := by omega
  rw [bit, isIndex, isOffset]

end Counting

end PackedSet

namespace CodeSet

variable {set left right : CodeSet} {code : Int} {place : Nat}

section Operations

theorem bit_pack : set.pack.bit place = set.bits.getLsbD place := by
  by_cases bound : place / 64 < wordCount
  · have inWord : place % 64 < 64 := Nat.mod_lt place (by decide)
    have isPlace : 64 * (place / 64) + place % 64 = place := Nat.div_add_mod place 64
    rw [PackedSet.bit_eq bound, pack, Vector.getElem_ofFn, word, BitVec.getLsbD_extractLsb',
      isPlace]
    simp [inWord]
  · rw [PackedSet.bit_eq_false bound, BitVec.getLsbD_of_ge]
    simp only [wordCount] at bound
    omega

theorem pack_injective (same : left.pack = right.pack) : left = right := by
  apply ext
  intro code
  by_cases member : code ∈ Code.domain
  · simp only [mem_iff_contains, contains_eq_getLsbD member, ← bit_pack, same]
  · simp only [mem_iff_contains, contains_eq_false member]

theorem pack_empty : pack ∅ = .empty := by
  apply PackedSet.ext
  intro place
  rw [bit_pack, PackedSet.bit_empty]
  exact BitVec.getLsbD_zero

theorem pack_insert : (set.pack.insert code).1 = (set.insert code).pack := by
  by_cases member : code ∈ Code.domain
  · apply PackedSet.ext
    intro place
    have bounds := Code.mem_domain.mp member
    have bound : (code + 1).toNat < 257 := by omega
    rw [PackedSet.bit_insert member, bit_pack, bit_pack, insert, Code.slot?_eq_some member]
    simp [BitVec.getLsbD_twoPow, bound, eq_comm]
  · rw [PackedSet.insert_eq_self member, insert, Code.slot?_eq_none member]

theorem pack_insertAll (codes : List Int) :
    set.pack.insertAll codes = (set.insertAll codes).pack := by
  induction codes generalizing set with
  | nil => rfl
  | cons code codes induction =>
      have next : set.pack.insertAll (code :: codes) =
          (set.pack.insert code).1.insertAll codes := rfl
      rw [next, pack_insert, induction]
      rfl

theorem pack_ofList (codes : List Int) : PackedSet.ofList codes = (ofList codes).pack := by
  rw [PackedSet.ofList, ← pack_empty, pack_insertAll, ofList]

theorem pack_singleton : PackedSet.singleton code = (singleton code).pack :=
  pack_ofList [code]

theorem mem_span {low high : Int} : code ∈ Code.span low high ↔ low ≤ code ∧ code ≤ high := by
  simp only [Code.span, List.mem_map, List.mem_range, Int.ofNat_eq_natCast]
  constructor
  · intro isOffset
    obtain ⟨offset, bound, rfl⟩ := isOffset
    omega
  · intro between
    exact ⟨(code - low).toNat, by omega, by omega⟩

/-- Inserting the codes of a span is inserting those of the domain among them. -/
theorem pack_range (low high : Int) : PackedSet.range low high = (range low high).pack := by
  have sameSet : ofList (Code.span low high) = range low high := by
    apply ext
    intro code
    rw [mem_ofList, mem_range, mem_span]
  rw [PackedSet.range, pack_ofList, sameSet]

theorem pack_union : left.pack.union right.pack = (left ∪ right).pack := by
  apply PackedSet.ext
  intro place
  have bits : (left ∪ right).bits = left.bits ||| right.bits := rfl
  rw [PackedSet.bit_union, bit_pack, bit_pack, bit_pack, bits, BitVec.getLsbD_or]

theorem pack_inter : left.pack.inter right.pack = (left ∩ right).pack := by
  apply PackedSet.ext
  intro place
  have bits : (left ∩ right).bits = left.bits &&& right.bits := rfl
  rw [PackedSet.bit_inter, bit_pack, bit_pack, bit_pack, bits, BitVec.getLsbD_and]

theorem pack_diff : left.pack.diff right.pack = (left \ right).pack := by
  apply PackedSet.ext
  intro place
  have bits : (left \ right).bits = left.bits &&& ~~~right.bits := rfl
  rw [PackedSet.bit_diff, bit_pack, bit_pack, bit_pack, bits, BitVec.getLsbD_and,
    BitVec.getLsbD_not]
  by_cases bound : place < 257
  · simp [bound]
  · simp [BitVec.getLsbD_of_ge left.bits place (by omega)]

/-- Whatever sequence of operations builds a set, it leaves the words of the set. -/
theorem Recipe.packed_eq (recipe : Recipe) : recipe.packed = recipe.set.pack := by
  induction recipe with
  | empty => exact pack_empty.symm
  | singleton code => exact pack_singleton
  | ofList codes => exact pack_ofList codes
  | range low high => exact pack_range low high
  | all => exact pack_range 0 Code.largest
  | insert recipe code induction => rw [packed, induction, pack_insert, set]
  | insertAll recipe codes induction => rw [packed, induction, pack_insertAll, set]
  | union left right leftInduction rightInduction =>
      rw [packed, leftInduction, rightInduction, pack_union, set]
  | inter left right leftInduction rightInduction =>
      rw [packed, leftInduction, rightInduction, pack_inter, set]
  | diff left right leftInduction rightInduction =>
      rw [packed, leftInduction, rightInduction, pack_diff, set]

end Operations

section Answers

theorem contains_pack : set.pack.contains code = set.contains code := by
  by_cases member : code ∈ Code.domain
  · rw [PackedSet.contains_eq_bit member, bit_pack, contains_eq_getLsbD member]
  · rw [PackedSet.contains_eq_false member, contains_eq_false member]

theorem toList_pack : set.pack.toList = set.toList := by
  have sameTest : set.pack.contains = set.contains := funext fun _ => contains_pack
  rw [PackedSet.toList, toList, sameTest]

theorem isEmpty_pack : set.pack.isEmpty = set.isEmpty := by
  rw [Bool.eq_iff_iff, PackedSet.isEmpty_iff, isEmpty_iff, ← pack_empty]
  exact ⟨pack_injective, congrArg pack⟩

theorem isDisjoint_pack : left.pack.isDisjoint right.pack = left.isDisjoint right := by
  rw [PackedSet.isDisjoint, pack_inter, isEmpty_pack, isDisjoint]

theorem size_pack : set.pack.size = set.size := by
  have beyond : (List.range 63).countP (set.pack.bit ∘ (257 + ·)) = 0 := by
    apply List.countP_eq_zero.mpr
    intro offset _
    rw [Function.comp_apply, bit_pack, BitVec.getLsbD_of_ge _ _ (by omega)]
    exact Bool.false_ne_true
  have bitCount : 64 * wordCount = 257 + 63 := rfl
  rw [PackedSet.size_eq_countP, bitCount, List.range_add, List.countP_append, List.countP_map, beyond,
    size, toList, ← List.countP_eq_length_filter, Code.domain, List.countP_map]
  apply List.countP_congr
  intro slot inRange
  have member : Int.ofNat slot - 1 ∈ Code.domain :=
    List.mem_map_of_mem inRange
  have isSlot : (Int.ofNat slot - 1 + 1).toNat = slot := by simp
  rw [Function.comp_apply, contains_eq_getLsbD member, isSlot, bit_pack]

theorem isFresh_iff : set.isFresh code = true ↔ code ∈ Code.domain ∧ code ∉ set := by
  by_cases member : code ∈ Code.domain
  · simp [isFresh, Code.slot?_eq_some member, member, mem_iff_contains]
  · simp [isFresh, Code.slot?_eq_none member, member]

theorem pack_presents (set : CodeSet) : set.pack.Presents set := by
  constructor
  · apply List.ext_getElem
    · simp [words]
    · intro index inWords inRange
      simp [pack, words]
  · intro code
    exact contains_pack
  · intro code
    apply Prod.ext
    · exact pack_insert
    · rw [Bool.eq_iff_iff, isFresh_iff, PackedSet.insert_isNew, contains_pack]
      simp [mem_iff_contains]
  · exact toList_pack
  · exact size_pack
  · exact isEmpty_pack
  · rw [PackedSet.isSingleton, size_pack, isSingleton]
  · rw [PackedSet.first?, toList_pack, first?]

theorem isSingleton_iff_unique :
    set.isSingleton = true ↔ ∃ only, ∀ code, code ∈ set ↔ code = only := by
  rw [isSingleton_iff]
  have ascending := set.toList_ascending
  simp only [← mem_toList]
  generalize set.toList = codes at ascending
  constructor
  · intro isOne
    obtain ⟨only, isOnly⟩ := isOne
    exact ⟨only, fun code => by rw [isOnly, List.mem_singleton]⟩
  · intro isUnique
    obtain ⟨only, members⟩ := isUnique
    cases codes with
    | nil => exact absurd ((members only).mpr rfl) List.not_mem_nil
    | cons first later =>
        have isFirst : first = only := (members first).mp List.mem_cons_self
        have noneLater : later = [] := by
          apply List.eq_nil_iff_forall_not_mem.mpr
          intro code inLater
          have larger := (List.pairwise_cons.mp ascending).1 code inLater
          have isOnly := (members code).mp (List.mem_cons_of_mem first inLater)
          omega
        exact ⟨only, by rw [isFirst, noneLater]⟩

theorem first?_eq_none_iff : set.first? = none ↔ ∀ code, code ∉ set := by
  rw [first?, List.head?_eq_none_iff, List.eq_nil_iff_forall_not_mem]
  simp only [mem_toList]

theorem pack_answers (set : CodeSet) : set.pack.Answers (· ∈ set) := by
  have presents := pack_presents set
  constructor
  · intro place outside
    rw [bit_pack, BitVec.getLsbD_of_ge _ _ outside]
  · intro code
    rw [presents.contains_eq, mem_iff_contains]
  · intro code
    rw [presents.insert_eq, isFresh_iff]
  · intro code
    rw [presents.toList_eq, mem_toList]
  · rw [presents.toList_eq]
    exact set.toList_ascending
  · rw [presents.size_eq, presents.toList_eq, size]
  · rw [presents.isEmpty_eq, isEmpty_iff_forall]
  · rw [presents.isSingleton_eq, isSingleton_iff_unique]
  · intro low
    rw [presents.first?_eq, first?_eq_some_iff]
  · rw [presents.first?_eq, first?_eq_none_iff]

end Answers

namespace Recipe

theorem mem_set_iff {recipe : Recipe} : code ∈ recipe.set ↔ recipe.Holds code := by
  induction recipe with
  | empty => simp [set, Holds]
  | singleton only => simp [set, Holds]
  | ofList codes => simp [set, Holds]
  | range low high => simp [set, Holds]
  | all => exact mem_all
  | insert recipe added induction => simp [set, Holds, induction]
  | insertAll recipe codes induction => simp [set, Holds, induction]
  | union left right leftInduction rightInduction =>
      simp [set, Holds, leftInduction, rightInduction]
  | inter left right leftInduction rightInduction =>
      simp [set, Holds, leftInduction, rightInduction]
  | diff left right leftInduction rightInduction =>
      simp [set, Holds, leftInduction, rightInduction]

/-- Whatever operations build a set, its five words have no bit beyond the domain set,
and all they answer agrees with the codes that the operations are for.  Two sets are the
same words exactly if they contain the same codes.  The code sets built alike have these
words and give these answers. -/
theorem packed_isCanonical (recipe other : Recipe) :
    recipe.packed.Answers recipe.Holds ∧
    (recipe.packed = other.packed ↔
      ∀ code, recipe.packed.contains code = other.packed.contains code) ∧
    (recipe.packed.isDisjoint other.packed = true ↔
      ∀ code, ¬ (recipe.Holds code ∧ other.Holds code)) ∧
    recipe.packed.Presents recipe.set ∧
    (recipe.packed = other.packed ↔ recipe.set = other.set) ∧
    recipe.packed.isDisjoint other.packed = recipe.set.isDisjoint other.set := by
  have holds (built : Recipe) : (· ∈ built.set) = built.Holds :=
    funext fun _ => propext mem_set_iff
  have sameWords : recipe.packed = other.packed ↔ recipe.set = other.set := by
    rw [packed_eq, packed_eq]
    exact ⟨pack_injective, congrArg pack⟩
  refine ⟨?_, ?_, ?_, ?_, sameWords, ?_⟩
  · rw [packed_eq, ← holds]
    exact pack_answers recipe.set
  · constructor
    · intro same code
      rw [same]
    · intro same
      apply sameWords.mpr
      apply ext
      intro code
      rw [mem_iff_contains, mem_iff_contains, ← contains_pack, ← contains_pack, ← packed_eq,
        ← packed_eq, same]
  · rw [packed_eq, packed_eq, isDisjoint_pack, isDisjoint_iff]
    simp only [← mem_set_iff, not_and]
  · rw [packed_eq]
    exact pack_presents recipe.set
  · rw [packed_eq, packed_eq, isDisjoint_pack]

end Recipe

end CodeSet

end LexGen
