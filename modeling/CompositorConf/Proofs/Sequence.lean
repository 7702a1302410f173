import Mathlib.Data.List.Forall2
import Mathlib.Data.List.Induction

/-!
# Taking sequences apart at an item

Lines, assignments and messages come one after the other, and what happens at
one of them is told by what comes before it and after it.

* `concat_eq_append_cons_iff` takes a sequence apart that has grown at its end:
  the item is the new one, or it stood in the shorter sequence;
* `le_or_of_append_cons_eq` takes a sequence apart at two items, of which the
  second comes no later than the first, or behind it;
* `exists_split_of_getElem?` takes a sequence apart at a number, and
  `exists_split_of_flatMap` at the item that a result came from;
* `forall₂_append_cons` takes two sequences apart at items that correspond, and
  `mapM_eq_some_iff` says what corresponds where every item has a result;
* `exists_greatest` finds an item of greatest measure;
* `foldl_eq_some_iff` finds the item that was the last to be written, if each
  item that is selected overwrites what was seen before.
-/

namespace CompositorConf

variable {Item : Type} {front before after : List Item} {last item : Item}

theorem concat_eq_append_cons_iff :
    front ++ [last] = before ++ item :: after ↔
      (after = [] ∧ front = before ∧ last = item) ∨
        ∃ between, after = between ++ [last] ∧
          front = before ++ item :: between := by
  constructor
  · intro split
    rcases List.eq_nil_or_concat after with rfl | ⟨between, final, rfl⟩
    · obtain ⟨fronts, lasts⟩ := List.append_inj' split rfl
      exact Or.inl ⟨rfl, fronts, List.singleton_inj.mp lasts⟩
    · rw [List.concat_eq_append, ← List.cons_append, ← List.append_assoc]
        at split
      obtain ⟨fronts, lasts⟩ := List.append_inj' split rfl
      rw [List.concat_eq_append, List.singleton_inj.mp lasts]
      exact Or.inr ⟨between, rfl, fronts⟩
  · rintro (⟨rfl, rfl, rfl⟩ | ⟨between, rfl, rfl⟩)
    · rfl
    · rw [List.append_assoc, List.cons_append]

theorem le_or_of_append_cons_eq {other : Item}
    {otherBefore otherAfter : List Item}
    (split : before ++ item :: after = otherBefore ++ other :: otherAfter) :
    otherBefore.length ≤ before.length ∨
      ∃ between, otherBefore = before ++ item :: between ∧
        after = between ++ other :: otherAfter := by
  rcases List.append_eq_append_iff.mp split with
    ⟨between, rfl, rest⟩ | ⟨between, rfl, _⟩
  · cases between with
    | nil => exact Or.inl (by simp)
    | cons first between =>
        rw [List.cons_append, List.cons.injEq] at rest
        obtain ⟨rfl, rest⟩ := rest
        exact Or.inr ⟨between, rfl, rest⟩
  · exact Or.inl (by simp)

/-- A sequence is taken apart at the item with a given number. -/
theorem exists_split_of_getElem? {items : List Item} {number : Nat}
    (isItem : items[number]? = some item) :
    ∃ before after, items = before ++ item :: after ∧
      before.length = number := by
  obtain ⟨inside, rfl⟩ := List.getElem?_eq_some_iff.mp isItem
  refine ⟨items.take number, items.drop (number + 1), ?_,
    List.length_take_of_le (Nat.le_of_lt inside)⟩
  rw [← List.drop_eq_getElem_cons inside, List.take_append_drop]

/-- What becomes of one item stands behind what becomes of those before it. -/
theorem exists_split_of_flatMap {Result : Type}
    {results : Item → List Result} {items : List Item}
    {earlier later : List Result} {result : Result}
    (split : items.flatMap results = earlier ++ result :: later) :
    ∃ before item after front back, items = before ++ item :: after ∧
      results item = front ++ result :: back ∧
      earlier = before.flatMap results ++ front ∧
      later = back ++ after.flatMap results := by
  induction items generalizing earlier with
  | nil => simp at split
  | cons first rest inductionHypothesis =>
      rw [List.flatMap_cons] at split
      rcases List.append_eq_append_iff.mp split with
        ⟨between, rfl, deeper⟩ | ⟨between, whole, others⟩
      · obtain ⟨before, item, after, front, back, rfl, found, rfl, rfl⟩ :=
          inductionHypothesis deeper
        refine ⟨first :: before, item, after, front, back, rfl, found, ?_, rfl⟩
        rw [List.flatMap_cons, List.append_assoc]
      · cases between with
        | nil =>
            rw [List.append_nil] at whole
            have deeper : rest.flatMap results = [] ++ result :: later :=
              others.symm
            obtain ⟨before, item, after, front, back, rfl, found, empty, rfl⟩ :=
              inductionHypothesis deeper
            refine ⟨first :: before, item, after, front, back, rfl, found, ?_,
              rfl⟩
            rw [List.flatMap_cons, List.append_assoc, ← empty, whole,
              List.append_nil]
        | cons head between =>
            obtain ⟨rfl, rfl⟩ := List.cons.inj others
            exact ⟨[], first, rest, earlier, between, rfl, whole, rfl, rfl⟩

/-- A function that may refuse items has results for a sequence if it has one for
each item. -/
theorem mapM_eq_some_iff {Result : Type} {view : Item → Option Result}
    {items : List Item} {results : List Result} :
    items.mapM view = some results ↔
      List.Forall₂ (fun item result => view item = some result) items
        results := by
  induction items generalizing results with
  | nil =>
      rw [List.mapM_nil, List.forall₂_nil_left_iff]
      exact Option.some_inj.trans eq_comm
  | cons item rest inductionHypothesis =>
      rw [List.mapM_cons, List.forall₂_cons_left_iff]
      constructor
      · intro viewed
        obtain ⟨result, isResult, others⟩ := Option.bind_eq_some_iff.mp viewed
        obtain ⟨further, areFurther, same⟩ := Option.bind_eq_some_iff.mp others
        exact ⟨result, further, isResult, inductionHypothesis.mp areFurther,
          (Option.some.inj same).symm⟩
      · rintro ⟨result, further, isResult, areFurther, rfl⟩
        rw [isResult, inductionHypothesis.mpr areFurther]
        rfl

/-- Sequences that correspond are taken apart at the same place. -/
theorem forall₂_append_cons {Other : Type} {relation : Item → Other → Prop}
    {before after : List Item} {item : Item} {others : List Other}
    (all : List.Forall₂ relation (before ++ item :: after) others) :
    ∃ otherBefore other otherAfter,
      others = otherBefore ++ other :: otherAfter ∧
        List.Forall₂ relation before otherBefore ∧ relation item other ∧
          List.Forall₂ relation after otherAfter := by
  induction before generalizing others with
  | nil =>
      cases all with
      | cons here later => exact ⟨[], _, _, rfl, List.Forall₂.nil, here, later⟩
  | cons first rest inductionHypothesis =>
      cases all with
      | @cons _ otherFirst _ _ here later =>
          obtain ⟨otherBefore, other, otherAfter, rfl, earlier, found, behind⟩ :=
            inductionHypothesis later
          exact ⟨otherFirst :: otherBefore, other, otherAfter, rfl,
            List.Forall₂.cons here earlier, found, behind⟩

theorem exists_of_mem_of_forall₂ {Other : Type}
    {relation : Item → Other → Prop} {items : List Item} {others : List Other}
    (all : List.Forall₂ relation items others) {item : Item}
    (member : item ∈ items) : ∃ other ∈ others, relation item other := by
  obtain ⟨before, after, rfl⟩ := List.append_of_mem member
  obtain ⟨_, other, _, rfl, _, found, _⟩ := forall₂_append_cons all
  exact ⟨other, List.mem_append_right _ List.mem_cons_self, found⟩

/-- Some item of a kind has the greatest measure of all of its kind. -/
theorem exists_greatest {selected : Item → Prop} (measure : Item → Nat) :
    ∀ {items : List Item}, (∃ item ∈ items, selected item) →
      ∃ item ∈ items, selected item ∧
        ∀ other ∈ items, selected other → measure other ≤ measure item
  | [], nonempty => by
      obtain ⟨item, member, _⟩ := nonempty
      exact absurd member List.not_mem_nil
  | first :: rest, nonempty => by
      by_cases later : ∃ item ∈ rest, selected item
      · obtain ⟨item, member, chosen, greatest⟩ :=
          exists_greatest measure later
        by_cases exceeded : selected first ∧ measure item < measure first
        · refine ⟨first, List.mem_cons_self, exceeded.1, ?_⟩
          rw [List.forall_mem_cons]
          refine ⟨fun _ => Nat.le_refl _, ?_⟩
          intro other otherMember otherChosen
          have bound := greatest other otherMember otherChosen
          exact Nat.le_trans bound (Nat.le_of_lt exceeded.2)
        · refine ⟨item, List.mem_cons_of_mem _ member, chosen, ?_⟩
          rw [List.forall_mem_cons]
          refine ⟨?_, greatest⟩
          intro firstChosen
          exact Nat.le_of_not_lt fun more => exceeded ⟨firstChosen, more⟩
      · obtain ⟨item, member, chosen⟩ := nonempty
        rcases List.mem_cons.mp member with same | inRest
        · refine ⟨first, List.mem_cons_self, same ▸ chosen, ?_⟩
          rw [List.forall_mem_cons]
          refine ⟨fun _ => Nat.le_refl _, ?_⟩
          intro other otherMember otherChosen
          exact absurd ⟨other, otherMember, otherChosen⟩ later
        · exact absurd ⟨item, inRest, chosen⟩ later

section Writing

variable {State Seen : Type} {write : State → Item → State}
  (see : State → Option Seen) (selected : Item → Prop)
  [DecidablePred selected] (value : Item → Seen)

theorem foldl_eq_some_iff
    (written : ∀ state item, see (write state item) =
      if selected item then some (value item) else see state)
    {start : State} (blank : see start = none) (items : List Item)
    {seen : Seen} :
    see (items.foldl write start) = some seen ↔
      ∃ before item after, items = before ++ item :: after ∧
        selected item ∧ (∀ later ∈ after, ¬ selected later) ∧
        value item = seen := by
  induction items using List.reverseRecOn with
  | nil => simp [blank]
  | append_singleton earlier last inductionHypothesis =>
      rw [List.foldl_append, List.foldl_cons, List.foldl_nil, written]
      by_cases chosen : selected last
      · rw [if_pos chosen, Option.some.injEq]
        constructor
        · intro same
          exact ⟨earlier, last, [], rfl, chosen,
            fun _ member => absurd member List.not_mem_nil, same⟩
        · rintro ⟨before, item, after, split, _, none, same⟩
          rcases concat_eq_append_cons_iff.mp split with
            ⟨_, _, isLast⟩ | ⟨between, rfl, _⟩
          · rw [isLast]
            exact same
          · exact absurd chosen
              (none last (List.mem_append_right _ List.mem_cons_self))
      · rw [if_neg chosen, inductionHypothesis]
        constructor
        · rintro ⟨before, item, after, rfl, isChosen, none, same⟩
          refine ⟨before, item, after ++ [last], ?_, isChosen, ?_, same⟩
          · rw [List.append_assoc, List.cons_append]
          · rw [List.forall_mem_append, List.forall_mem_singleton]
            exact ⟨none, chosen⟩
        · rintro ⟨before, item, after, split, isChosen, none, same⟩
          rcases concat_eq_append_cons_iff.mp split with
            ⟨_, _, isLast⟩ | ⟨between, rfl, shorter⟩
          · rw [isLast] at chosen
            exact absurd isChosen chosen
          · refine ⟨before, item, between, shorter, isChosen, ?_, same⟩
            intro later member
            exact none later (List.mem_append_left _ member)

theorem foldl_isSome_iff
    (written : ∀ state item, see (write state item) =
      if selected item then some (value item) else see state)
    {start : State} (blank : see start = none) (items : List Item) :
    (see (items.foldl write start)).isSome ↔ ∃ item ∈ items, selected item := by
  induction items using List.reverseRecOn with
  | nil => simp [blank]
  | append_singleton earlier last inductionHypothesis =>
      rw [List.foldl_append, List.foldl_cons, List.foldl_nil, written]
      simp only [List.mem_append, List.mem_singleton, or_and_right,
        exists_or, exists_eq_left, ← inductionHypothesis]
      by_cases chosen : selected last
      · simp [chosen]
      · simp [chosen]

end Writing

end CompositorConf
