import LexGen.Proofs.Exploration

/-!
# Everything found is visited once

Visits follow one another until nothing is pending.  The visit order decides which
thing is next, but in the end the visited things are those that were found, each of
them once.  Things are found in the order of their first mention as neighbours, and
breadth first they are visited in that order, too.
-/

namespace LexGen

variable {σ : Type}

/-- The first list holds the members of the second one in the order in which they
are mentioned there for the first time. -/
structure AreFirstMentions (found mentions : List σ) : Prop where
  mem_iff : ∀ thing, thing ∈ found ↔ thing ∈ mentions
  inOrder : found.Pairwise fun earlier later =>
    ∀ before after, mentions = before ++ later :: after → earlier ∈ before

theorem split_of_concat {mentions before after : List σ} {last thing : σ}
    (split : mentions ++ [last] = before ++ thing :: after) :
    mentions = before ∧ last = thing ∨
      ∃ rest, mentions = before ++ thing :: rest := by
  cases List.eq_nil_or_concat after with
  | inl isEmpty =>
      subst isEmpty
      have same := List.append_inj' split rfl
      exact .inl ⟨same.1, List.singleton_inj.mp same.2⟩
  | inr isConcat =>
      obtain ⟨rest, final, isConcat⟩ := isConcat
      rw [isConcat, List.concat_eq_append, ← List.cons_append,
        ← List.append_assoc] at split
      exact .inr ⟨rest, (List.append_inj' split rfl).1⟩

namespace AreFirstMentions

variable {found mentions : List σ}

theorem singleton (thing : σ) : AreFirstMentions [thing] [thing] :=
  ⟨fun _ => Iff.rfl, List.pairwise_singleton _ _⟩

theorem inOrder_concat (listed : AreFirstMentions found mentions) (thing : σ) :
    found.Pairwise fun earlier later =>
      ∀ before after, mentions ++ [thing] = before ++ later :: after →
        earlier ∈ before := by
  apply listed.inOrder.imp_of_mem
  intro earlier later isEarlier isLater precedes before after split
  cases split_of_concat split with
  | inl last => exact last.1 ▸ (listed.mem_iff earlier).mp isEarlier
  | inr further =>
      obtain ⟨rest, split⟩ := further
      exact precedes before rest split

theorem mention_known (listed : AreFirstMentions found mentions) {thing : σ}
    (known : thing ∈ found) : AreFirstMentions found (mentions ++ [thing]) := by
  constructor
  · intro other
    rw [List.mem_append, List.mem_singleton, ← listed.mem_iff]
    constructor
    · exact .inl
    · intro isOther
      cases isOther with
      | inl isFound => exact isFound
      | inr same => exact same ▸ known
  · exact listed.inOrder_concat thing

theorem mention_new (listed : AreFirstMentions found mentions) {thing : σ}
    (new : thing ∉ found) :
    AreFirstMentions (found ++ [thing]) (mentions ++ [thing]) := by
  constructor
  · intro other
    rw [List.mem_append, List.mem_append, listed.mem_iff]
  · apply List.pairwise_append.mpr
    refine ⟨listed.inOrder_concat thing, List.pairwise_singleton _ _, ?_⟩
    intro earlier isEarlier later isLater before after split
    rw [List.mem_singleton.mp isLater] at split
    cases split_of_concat split with
    | inl last => exact last.1 ▸ (listed.mem_iff earlier).mp isEarlier
    | inr further =>
        obtain ⟨rest, split⟩ := further
        have mentioned : thing ∈ mentions := by
          rw [split]
          exact List.mem_append_right before List.mem_cons_self
        exact absurd ((listed.mem_iff thing).mpr mentioned) new

/-- Other names for things change nothing, as long as they do not confuse any. -/
theorem map {τ : Type} (listed : AreFirstMentions found mentions) (name : σ → τ)
    (distinct : ∀ first ∈ mentions, ∀ second ∈ mentions,
      name first = name second → first = second) :
    AreFirstMentions (found.map name) (mentions.map name) := by
  constructor
  · intro other
    simp only [List.mem_map, listed.mem_iff]
  · apply List.pairwise_map.mpr
    apply listed.inOrder.imp_of_mem
    intro earlier later isEarlier isLater precedes before after split
    obtain ⟨front, back, isSplit, isBefore, isBack⟩ := List.map_eq_append_iff.mp split
    obtain ⟨thing, rest, isThing, sameName, _⟩ := List.map_eq_cons_iff.mp isBack
    have mentioned : thing ∈ mentions := by
      rw [isSplit, isThing]
      exact List.mem_append_right front List.mem_cons_self
    have same := distinct thing mentioned later ((listed.mem_iff later).mp isLater)
      sameName
    rw [isThing, same] at isSplit
    rw [← isBefore]
    exact List.mem_map_of_mem (precedes front rest isSplit)

end AreFirstMentions

namespace Exploration

variable {ε : Type} [DecidableEq σ]

/-- Visits that succeed lead from the first exploration to the last one, in which
nothing is pending.  The list holds the things that are visited, in order. -/
inductive Visits (order : VisitOrder) (visit : σ → List σ × Option ε) :
    Exploration σ ε → List σ → Exploration σ ε → Prop where
  | done {exploration : Exploration σ ε} :
      exploration.pending = [] → Visits order visit exploration [] exploration
  | next {exploration last : Exploration σ ε} {thing : σ} {later visited : List σ} :
      exploration.pending = thing :: later →
      (visit thing).2 = none →
      Visits order visit
        (discoverAll order { exploration with pending := later } (visit thing).1)
        visited last →
      Visits order visit exploration (thing :: visited) last

variable {order : VisitOrder} {visit : σ → List σ × Option ε}
  {before last : Exploration σ ε} {visited : List σ}

theorem visits_run {fuel : Nat}
    (nothingPending : (run order visit fuel before).pending = [])
    (noFailure : (run order visit fuel before).failure = none) :
    ∃ visited, Visits order visit before visited (run order visit fuel before) := by
  induction fuel generalizing before with
  | zero => exact ⟨[], .done nothingPending⟩
  | succ fuel induction =>
      rw [run] at nothingPending noFailure ⊢
      cases isNext : before.pending with
      | nil => exact ⟨[], .done isNext⟩
      | cons thing later =>
          cases outcome : (visit thing).2 with
          | none =>
              simp only [isNext, outcome] at nothingPending noFailure ⊢
              obtain ⟨visited, visits⟩ := induction nothingPending noFailure
              exact ⟨thing :: visited, .next isNext outcome visits⟩
          | some failure =>
              simp only [isNext, outcome] at noFailure
              cases noFailure

theorem Visits.exists_added (visits : Visits order visit before visited last) :
    ∃ added, last.found = before.found ++ added ∧
      visited.Perm (before.pending ++ added) := by
  induction visits with
  | done isDone =>
      refine ⟨[], (List.append_nil _).symm, ?_⟩
      rw [isDone]
      exact .refl _
  | @next exploration last thing later visited isNext succeeds _ induction =>
      obtain ⟨first, adds, _⟩ := discoverAll_adds order
        { exploration with pending := later } (visit thing).1
      obtain ⟨rest, isFound, isVisited⟩ := induction
      refine ⟨first ++ rest, ?_, ?_⟩
      · rw [isFound, adds.found_eq, List.append_assoc]
      · have onward := isVisited.trans (adds.pending_perm.append_right rest)
        rw [List.append_assoc] at onward
        rw [isNext]
        exact onward.cons thing

theorem Visits.succeeds (visits : Visits order visit before visited last) :
    ∀ thing ∈ visited, (visit thing).2 = none := by
  induction visits with
  | done => exact nofun
  | next _ succeeds _ induction => exact List.forall_mem_cons.mpr ⟨succeeds, induction⟩

theorem Visits.perm_found {start : σ}
    (visits : Visits order visit (startingAt start) visited last) :
    visited.Perm last.found := by
  obtain ⟨added, isFound, isVisited⟩ := visits.exists_added
  rw [isFound]
  exact isVisited

/-- A run that leaves nothing pending and meets no failure has visited all it found
with success. -/
theorem IsComplete.succeeds {start : σ} {fuel : Nat}
    (complete : IsComplete visit start (run order visit fuel (startingAt start)))
    (nothingPending : (run order visit fuel (startingAt start)).pending = []) :
    ∀ thing, Reaches visit start thing → (visit thing).2 = none := by
  intro thing reaches
  obtain ⟨visited, visits⟩ := visits_run nothingPending complete.failure_eq_none
  apply visits.succeeds
  rw [visits.perm_found.mem_iff]
  exact (complete.mem_found_iff thing).mpr reaches

theorem discoverAll_firstMentions {mentions : List σ}
    (listed : AreFirstMentions before.found mentions) (neighbours : List σ) :
    AreFirstMentions (discoverAll order before neighbours).found
      (mentions ++ neighbours) := by
  induction neighbours generalizing before mentions with
  | nil =>
      rw [List.append_nil]
      exact listed
  | cons neighbour neighbours induction =>
      rw [← List.singleton_append, ← List.append_assoc]
      apply induction
      unfold discover
      split
      next known => exact listed.mention_known known
      next new => exact listed.mention_new new

theorem Visits.firstMentions {mentions : List σ}
    (visits : Visits order visit before visited last)
    (listed : AreFirstMentions before.found mentions) :
    AreFirstMentions last.found
      (mentions ++ visited.flatMap fun thing => (visit thing).1) := by
  induction visits generalizing mentions with
  | done =>
      rw [List.flatMap_nil, List.append_nil]
      exact listed
  | @next exploration last thing later visited isNext succeeds _ induction =>
      rw [List.flatMap_cons, ← List.append_assoc]
      have taken : AreFirstMentions
          ({ exploration with pending := later } : Exploration σ ε).found mentions :=
        listed
      exact induction (discoverAll_firstMentions taken _)

section BreadthFirst

theorem discoverAll_breadthFirst (exploration : Exploration σ ε)
    (neighbours : List σ) :
    ∃ added,
      (discoverAll .breadthFirst exploration neighbours).found =
        exploration.found ++ added ∧
      (discoverAll .breadthFirst exploration neighbours).pending =
        exploration.pending ++ added := by
  induction neighbours generalizing exploration with
  | nil => exact ⟨[], (List.append_nil _).symm, (List.append_nil _).symm⟩
  | cons neighbour neighbours induction =>
      obtain ⟨added, isFound, isPending⟩ :=
        induction (discover .breadthFirst exploration neighbour)
      change (discoverAll _ exploration (neighbour :: neighbours)).found = _ at isFound
      change (discoverAll _ exploration (neighbour :: neighbours)).pending = _ at isPending
      rw [isFound, isPending]
      unfold discover
      split
      next known => exact ⟨added, rfl, rfl⟩
      next new =>
        exact ⟨neighbour :: added, List.append_assoc .., List.append_assoc ..⟩

/-- Breadth first the pending things are the last ones that were found, so that
things are visited in the order in which they are found. -/
theorem Visits.found_eq (visits : Visits .breadthFirst visit before visited last)
    {earlier : List σ} (split : before.found = earlier ++ before.pending) :
    last.found = earlier ++ visited := by
  induction visits generalizing earlier with
  | done isDone =>
      rw [split, isDone]
  | @next exploration last thing later visited isNext succeeds _ induction =>
      obtain ⟨added, isFound, isPending⟩ := discoverAll_breadthFirst
        { exploration with pending := later } (visit thing).1
      rw [← List.singleton_append, ← List.append_assoc]
      apply induction
      rw [isFound, isPending, split, isNext]
      simp

/-- Breadth first the things are found in the order in which they are mentioned as
neighbours, those of earlier things first. -/
theorem Visits.found_firstMentions {start : σ}
    (visits : Visits .breadthFirst visit (startingAt start) visited last) :
    AreFirstMentions last.found
      (start :: last.found.flatMap fun thing => (visit thing).1) := by
  have isVisited : last.found = [] ++ visited := visits.found_eq rfl
  have listed := visits.firstMentions (.singleton start)
  rw [List.nil_append] at isVisited
  rw [← isVisited] at listed
  exact listed

end BreadthFirst

end Exploration

end LexGen
