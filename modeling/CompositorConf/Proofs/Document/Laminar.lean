import CompositorConf.Proofs.Document.Tree
import Mathlib.Data.List.Chain

/-!
# Sections around a position

In a tree whose sections lie inside each other or apart from each other, the
sections around a position follow from where they lie.

* `Section.Laminar` says that everywhere in a tree the sections directly inside
  a section lie in it, one behind the other;
* `chainAt_eq_filter` finds the sections around a position among all of them;
* `chainAt_of_located` finds the section that a position belongs to.
-/

namespace CompositorConf

/-- One span lies inside another. -/
def Span.encloses (outer inner : Span) : Prop :=
  outer.start ≤ inner.start ∧ inner.stop ≤ outer.stop

namespace Span

variable {outer middle inner : Span} {position : Position}

theorem encloses_refl (span : Span) : span.encloses span :=
  ⟨Position.le_refl span.start, Position.le_refl span.stop⟩

theorem encloses.trans (first : outer.encloses middle)
    (second : middle.encloses inner) : outer.encloses inner :=
  ⟨Position.le_trans first.1 second.1, Position.le_trans second.2 first.2⟩

/-- A span contains what a span inside it contains. -/
theorem encloses.contains (inside : outer.encloses inner)
    (member : inner.contains position = true) :
    outer.contains position = true := by
  rw [contains_iff] at member ⊢
  exact ⟨Position.le_trans inside.1 member.1,
    Position.le_trans member.2 inside.2⟩

/-- Of two spans that are apart, only one contains a position. -/
theorem not_contains_of_apart (apart : outer.stop < inner.start)
    (member : outer.contains position = true) :
    ¬ inner.contains position = true := by
  intro other
  rw [contains_iff] at member other
  have reached : outer.stop < position :=
    Position.lt_of_lt_of_le apart other.1
  exact Position.not_lt_of_le member.2 reached

end Span

namespace Section

/-- The sections directly inside a section lie in its span, one behind the
other. -/
structure Arranged (current : Section) : Prop where
  inside : ∀ inner ∈ current.subsections, current.span.encloses inner.span
  apart :
    current.subsections.Pairwise fun earlier later =>
      earlier.span.stop < later.span.start

/-- Everywhere in a tree the sections directly inside a section lie in it, one
behind the other. -/
def Laminar (current : Section) : Prop :=
  ∀ outer ∈ current.preorder, outer.Arranged

section Trees

variable {current inner outer found : Section} {position : Position}

theorem Laminar.arranged (laminar : current.Laminar) : current.Arranged :=
  laminar current current.self_mem_preorder

theorem Laminar.subsection (laminar : current.Laminar)
    (member : inner ∈ current.subsections) : inner.Laminar := by
  intro below belowMember
  apply laminar below
  apply mem_preorder_of_mem_descendants
  exact mem_descendants_of_child member belowMember

/-- Every section of a tree lies in the span of its root. -/
theorem encloses_of_mem_preorder (current : Section) :
    current.Laminar → ∀ below ∈ current.preorder,
      current.span.encloses below.span := by
  induction current using induct with
  | step current inductionHypothesis =>
      intro laminar below member
      rcases mem_preorder_iff.mp member with same | inside
      · rw [same]
        exact Span.encloses_refl current.span
      · obtain ⟨inner, child, innerMember⟩ := mem_descendants_iff.mp inside
        have outer : current.span.encloses inner.span :=
          laminar.arranged.inside inner child
        exact outer.trans (inductionHypothesis inner child
          (laminar.subsection child) below innerMember)

/-- No section of a tree contains a position outside of the root. -/
theorem filter_preorder_eq_nil (laminar : inner.Laminar)
    (outside : ¬ inner.contains position = true) :
    inner.preorder.filter (·.contains position) = [] := by
  rw [List.filter_eq_nil_iff]
  intro below member contained
  have inside := encloses_of_mem_preorder inner laminar below member
  exact outside (inside.contains contained)

/-- Of sections one behind the other, only one contains a position, and the
chain leads into it. -/
theorem chainAtFirst_of_mem {sections : List Section}
    (apart : sections.Pairwise fun earlier later =>
      earlier.span.stop < later.span.start)
    (member : inner ∈ sections)
    (contained : inner.contains position = true) :
    chainAtFirst position sections = chainAt position inner := by
  induction sections with
  | nil => exact absurd member List.not_mem_nil
  | cons first rest inductionHypothesis =>
      rw [List.pairwise_cons] at apart
      rw [chainAtFirst]
      rcases List.mem_cons.mp member with same | later
      · rw [← same, if_pos contained]
      · have outside : ¬ first.contains position = true := by
          intro other
          have behind := apart.1 inner later
          exact Span.not_contains_of_apart behind other contained
        rw [if_neg outside]
        exact inductionHypothesis apart.2 later

theorem chainAtFirst_eq_nil {sections : List Section}
    (outside : ∀ inner ∈ sections, ¬ inner.contains position = true) :
    chainAtFirst position sections = [] := by
  induction sections with
  | nil => rfl
  | cons first rest inductionHypothesis =>
      rw [List.forall_mem_cons] at outside
      rw [chainAtFirst, if_neg outside.1]
      exact inductionHypothesis outside.2

/-- Sections one behind the other: the chain of the first that contains a
position lists all sections among them and inside them that do. -/
theorem chainAtFirst_eq_filter {sections : List Section}
    (apart : sections.Pairwise fun earlier later =>
      earlier.span.stop < later.span.start)
    (laminar : ∀ inner ∈ sections, inner.Laminar)
    (chains : ∀ inner ∈ sections,
      inner.chainAt position =
        inner :: inner.descendants.filter (·.contains position)) :
    chainAtFirst position sections =
      (preorderAll sections).filter (·.contains position) := by
  induction sections with
  | nil => rfl
  | cons first rest inductionHypothesis =>
      rw [List.forall_mem_cons] at laminar chains
      rw [List.pairwise_cons] at apart
      rw [chainAtFirst, preorderAll, List.filter_append]
      by_cases contained : first.contains position = true
      · -- Everything behind the first section is beyond the position.
        have others :
            (preorderAll rest).filter (·.contains position) = [] := by
          rw [preorderAll_eq_flatMap, List.filter_flatMap,
            List.flatMap_eq_nil_iff]
          intro later member
          apply filter_preorder_eq_nil (laminar.2 later member)
          exact Span.not_contains_of_apart (apart.1 later member) contained
        rw [if_pos contained, others, List.append_nil, chains.1, preorder_eq,
          List.filter_cons, if_pos contained]
      · rw [if_neg contained, filter_preorder_eq_nil laminar.1 contained,
          List.nil_append]
        exact inductionHypothesis apart.2 laminar.2 chains.2

/-- The chain at a position is the root and all sections inside it that contain
the position. -/
theorem chainAt_eq_filter (current : Section) (position : Position) :
    current.Laminar →
      current.chainAt position =
        current :: current.descendants.filter (·.contains position) := by
  induction current using induct with
  | step current inductionHypothesis =>
      intro laminar
      rw [chainAt_eq, descendants]
      congr 1
      apply chainAtFirst_eq_filter laminar.arranged.apart
      · intro inner member
        exact laminar.subsection member
      · intro inner member
        exact inductionHypothesis inner member (laminar.subsection member)

theorem chainAtFirst_eq_nil_or (position : Position)
    (sections : List Section) :
    chainAtFirst position sections = [] ∨
      ∃ inner ∈ sections, inner.contains position = true ∧
        chainAtFirst position sections = inner.chainAt position := by
  induction sections with
  | nil => exact Or.inl rfl
  | cons first rest inductionHypothesis =>
      rw [chainAtFirst]
      by_cases contained : first.contains position = true
      · rw [if_pos contained]
        exact Or.inr ⟨first, List.mem_cons_self, contained, rfl⟩
      · rw [if_neg contained]
        rcases inductionHypothesis with none | ⟨inner, member, inside, chain⟩
        · exact Or.inl none
        · exact Or.inr ⟨inner, List.mem_cons_of_mem _ member, inside, chain⟩

/-- Each section of a chain but the first lies directly inside the one before
it. -/
theorem chainAt_isChain (current : Section) (position : Position) :
    (current.chainAt position).IsChain fun outer inner =>
      inner ∈ outer.subsections := by
  induction current using induct with
  | step current inductionHypothesis =>
      rw [chainAt_eq]
      rcases chainAtFirst_eq_nil_or position current.subsections with
        none | ⟨inner, member, _, chain⟩
      · rw [none]
        exact List.isChain_singleton current
      · have deeper := inductionHypothesis inner member
        rw [chain]
        rw [chainAt_eq] at deeper ⊢
        exact List.isChain_cons_cons.mpr ⟨member, deeper⟩

/-- A position in a section, but in none of those directly inside it, leads to
that section, by the names that lead to it. -/
theorem chainAt_of_located (current : Section) :
    current.Laminar → ∀ {base path : List String} {found : Section},
      (path, found) ∈ current.located base →
      (found ∈ current.descendants → found.contains position = true) →
      (∀ inner ∈ found.subsections, ¬ inner.contains position = true) →
        (current.chainAt position).getLast? = some found ∧
          base ++ ((current.chainAt position).drop 1).map (·.name) = path := by
  induction current using induct with
  | step current inductionHypothesis =>
      intro laminar base path found located contained outside
      rw [chainAt_eq, List.drop_one, List.tail_cons]
      rcases mem_located_iff.mp located with same | ⟨inner, child, deeper⟩
      · cases same
        rw [chainAtFirst_eq_nil outside, List.map_nil, List.append_nil]
        exact ⟨rfl, rfl⟩
      · have below : found ∈ inner.preorder :=
          mem_preorder_of_mem_located inner deeper
        have reached : found.contains position = true :=
          contained (mem_descendants_of_child child below)
        have innerLaminar : inner.Laminar := laminar.subsection child
        have inside : inner.contains position = true :=
          (encloses_of_mem_preorder inner innerLaminar found below).contains
            reached
        obtain ⟨last, names⟩ :=
          inductionHypothesis inner child innerLaminar deeper
            (fun _ => reached) outside
        rw [chainAtFirst_of_mem laminar.arranged.apart child inside]
        rw [chainAt_eq, List.drop_one, List.tail_cons] at names
        rw [chainAt_eq] at last ⊢
        constructor
        · rw [List.getLast?_cons_cons]
          exact last
        · rw [List.map_cons, List.append_cons]
          exact names

end Trees

end Section

end CompositorConf
