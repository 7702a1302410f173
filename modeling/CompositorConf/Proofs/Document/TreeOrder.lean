import CompositorConf.Proofs.Document.Places
import CompositorConf.Proofs.Sequence
import Mathlib.Data.List.Flatten

/-!
# The order of the tree and the order of the lines

A tree lists a section before the sections inside it.  What a section holds
therefore comes before all that stands in the sections inside it, even where it
is written below them; everything else comes in the order of the lines.

* `Listing` is one of the three lists of a section, and `Listing.placed` the same
  list of a whole tree;
* `Listing.Precedes` is the order of the tree, said by lines and sections, and
  `Listing.placed_pairwise` says that it is;
* `Listing.pairwise_iff` says when the order of the lines is kept in the tree;
* `Listing.IsLast` comes last in the tree among those of a kind, and
  `Listing.IsLatest` stands on the greatest line;
* `Listing.isLast_iff_of_isLatest` says when the two are the same, and
  `Listing.Survives` how they compare.
-/

namespace CompositorConf

open Document

namespace Section

/-- Of two sections of a tree, the later one lies inside the earlier one or
behind it. -/
theorem preorder_pairwise (current : Section) :
    current.Laminar →
      current.preorder.Pairwise fun first second =>
        second ∈ first.descendants ∨ first.span.stop < second.span.start := by
  induction current using induct with
  | step current inductionHypothesis =>
      intro laminar
      rw [preorder_eq, List.pairwise_cons]
      refine ⟨fun inner member => Or.inl member, ?_⟩
      rw [descendants, preorderAll_eq_flatMap, List.pairwise_flatMap]
      constructor
      · intro child member
        exact inductionHypothesis child member (laminar.subsection member)
      · apply laminar.arranged.apart.imp_of_mem
        intro earlier later earlierMember laterMember apart first firstMember
          second secondMember
        have firstInside : earlier.span.encloses first.span :=
          encloses_of_mem_preorder earlier (laminar.subsection earlierMember)
            first firstMember
        have secondInside : later.span.encloses second.span :=
          encloses_of_mem_preorder later (laminar.subsection laterMember)
            second secondMember
        right
        apply Position.lt_of_le_of_lt firstInside.2
        exact Position.lt_of_lt_of_le apart secondInside.1

end Section

/-- One of the three lists of a section.  What it holds is recorded on lines of
its own. -/
structure Listing (Item : Type) where
  items : Section → List Item
  entry : Item → Entry
  mem_entries :
    ∀ {current : Section} {item : Item},
      item ∈ items current → entry item ∈ current.entries
  increasing :
    ∀ {current : Section}, current.LinesIncrease →
      (items current).Pairwise fun first second =>
        (entry first).position.line < (entry second).position.line

/-- Something in a section of a tree, with the names that lead to the section. -/
structure Placed (Item : Type) where
  path : List String
  holder : Section
  item : Item

namespace Listing

def assignments : Listing Assignment where
  items := Section.assignments
  entry := Entry.assignment
  mem_entries := Section.assignment_mem_entries
  increasing := Section.LinesIncrease.assignments

def customVariables : Listing Assignment where
  items := Section.customVariables
  entry := Entry.variable
  mem_entries := Section.variable_mem_entries
  increasing := Section.LinesIncrease.customVariables

def statements : Listing Statement where
  items := Section.statements
  entry := Entry.statement
  mem_entries := Section.statement_mem_entries
  increasing := Section.LinesIncrease.statements

variable {Item : Type} (listing : Listing Item)

/-- The line on which something was recorded. -/
def line (item : Item) : Nat :=
  (listing.entry item).position.line

/-- The list of a whole tree, in the order of `Section.preorder`. -/
def placed (root : Section) : List (Placed Item) :=
  (root.located []).flatMap fun place =>
    (listing.items place.2).map fun item => ⟨place.1, place.2, item⟩

/-- The order of a tree: what stands in a section comes before what stands in the
sections inside it, and otherwise lines decide. -/
def Precedes (first second : Placed Item) : Prop :=
  second.holder ∈ first.holder.descendants ∨
    first.holder ∉ second.holder.descendants ∧
      listing.line first.item < listing.line second.item

section Trees

variable {listing} {root : Section} {place first second : Placed Item}

theorem mem_placed_iff :
    place ∈ listing.placed root ↔
      (place.path, place.holder) ∈ root.located [] ∧
        place.item ∈ listing.items place.holder := by
  rw [placed, List.mem_flatMap]
  constructor
  · rintro ⟨⟨path, holder⟩, located, member⟩
    obtain ⟨item, itemMember, same⟩ := List.mem_map.mp member
    rw [← same]
    exact ⟨located, itemMember⟩
  · rintro ⟨located, member⟩
    exact ⟨(place.path, place.holder), located,
      List.mem_map.mpr ⟨place.item, member, rfl⟩⟩

theorem holder_mem_preorder (member : place ∈ listing.placed root) :
    place.holder ∈ root.preorder :=
  Section.mem_preorder_of_mem_located root (mem_placed_iff.mp member).1

theorem placed_map_item (listing : Listing Item) (root : Section) :
    (listing.placed root).map Placed.item =
      root.preorder.flatMap listing.items := by
  rw [← Section.located_map_snd root [], List.flatMap_map, placed,
    List.map_flatMap]
  simp only [List.map_map, Function.comp_def, List.map_id']

/-- What some section holds has a place in the tree. -/
theorem exists_placed {current : Section} {item : Item}
    (member : current ∈ root.preorder)
    (itemMember : item ∈ listing.items current) :
    ∃ place ∈ listing.placed root,
      place.holder = current ∧ place.item = item := by
  obtain ⟨path, located⟩ :=
    Section.exists_located_of_mem_preorder member []
  exact ⟨⟨path, current, item⟩, mem_placed_iff.mpr ⟨located, itemMember⟩, rfl,
    rfl⟩

theorem Precedes.asymm (precedes : listing.Precedes first second) :
    ¬ listing.Precedes second first := by
  rintro (back | ⟨outsideBack, earlierBack⟩)
  · rcases precedes with inside | ⟨outside, _⟩
    · exact Section.not_mem_descendants_of_mem inside back
    · exact outside back
  · rcases precedes with inside | ⟨_, earlier⟩
    · exact outsideBack inside
    · exact Nat.lt_asymm earlier earlierBack

end Trees

section Texts

variable {listing} {catalog : Catalog} {text : List Char} {root : Section}
  {first second : Section}

/-- What stands in a section that ends before another one begins stands on
earlier lines. -/
theorem line_lt_of_apart (parsed : parse catalog text = .ok root)
    (firstMember : first ∈ root.descendants)
    (secondMember : second ∈ root.descendants)
    (apart : first.span.stop < second.span.start) {earlier later : Item}
    (earlierMember : earlier ∈ listing.items first)
    (laterMember : later ∈ listing.items second) :
    listing.line earlier < listing.line later := by
  have spanned := spanned_of_parse parsed
  have ends := (spanned.closed first firstMember).within.keys
    (listing.entry earlier) (listing.mem_entries earlierMember)
  have begins := (spanned.closed second secondMember).follow
    (listing.entry later) (listing.mem_entries laterMember)
  have before :=
    Position.lt_of_le_of_lt ends
      (Position.lt_of_lt_of_le apart (Position.le_of_lt begins))
  rcases before with lineBefore | ⟨_, columnBefore⟩
  · exact lineBefore
  · exact absurd columnBefore (Nat.not_lt_zero _)

/-- A section that ends before another one begins does not lie inside it. -/
theorem not_mem_descendants_of_apart (parsed : parse catalog text = .ok root)
    (secondMember : second ∈ root.preorder)
    (apart : first.span.stop < second.span.start) :
    first ∉ second.descendants := by
  intro inside
  have laminar : second.Laminar := by
    intro below member
    apply laminar_of_parse parsed
    exact (Section.preorder_sublist root second secondMember).subset member
  have enclosed : second.span.encloses first.span :=
    Section.encloses_of_mem_preorder second laminar first
      (Section.mem_preorder_of_mem_descendants inside)
  have firstMember : first ∈ root.descendants :=
    Section.mem_descendants_of_mem_preorder secondMember inside
  have proper : first.span.start < first.span.stop :=
    proper_of_parse parsed firstMember
  have reached : first.span.stop ≤ first.span.start :=
    Position.le_of_lt (Position.lt_of_lt_of_le apart enclosed.1)
  exact Position.not_lt_of_le reached proper

/-- A tree is gone through in the order of the lines, except that what stands in
a section comes before what stands in the sections inside it. -/
theorem placed_pairwise (listing : Listing Item)
    (parsed : parse catalog text = .ok root) :
    (listing.placed root).Pairwise listing.Precedes := by
  have increase := linesIncrease_of_parse parsed
  have sections := Section.preorder_pairwise root (laminar_of_parse parsed)
  rw [← Section.located_map_snd root [], List.pairwise_map] at sections
  rw [placed, List.pairwise_flatMap]
  constructor
  · rintro ⟨path, holder⟩ located
    have member : holder ∈ root.preorder :=
      Section.mem_preorder_of_mem_located root located
    rw [List.pairwise_map]
    apply (listing.increasing (increase holder member)).imp
    intro earlier later before
    exact Or.inr ⟨Section.not_mem_descendants_self holder, before⟩
  · apply sections.imp_of_mem
    rintro ⟨firstPath, first⟩ ⟨secondPath, second⟩ firstLocated secondLocated
      order
    intro earlier earlierMember later laterMember
    obtain ⟨earlierItem, isEarlier, rfl⟩ := List.mem_map.mp earlierMember
    obtain ⟨laterItem, isLater, rfl⟩ := List.mem_map.mp laterMember
    have firstMember := Section.mem_preorder_of_mem_located root firstLocated
    have secondMember := Section.mem_preorder_of_mem_located root secondLocated
    by_cases inside : second ∈ first.descendants
    · exact Or.inl inside
    · -- Of two sections apart neither is the root, so spans decide the lines.
      have apart : first.span.stop < second.span.start :=
        order.resolve_left inside
      have secondBelow : second ∈ root.descendants := by
        rcases Section.mem_preorder_iff.mp secondMember with same | below
        · rw [same, (spanned_of_parse parsed).begins] at apart
          exact absurd apart
            (Position.not_lt_of_le (Position.origin_le _))
        · exact below
      have firstBelow : first ∈ root.descendants := by
        rcases Section.mem_preorder_iff.mp firstMember with same | below
        · rw [same] at inside
          exact absurd secondBelow inside
        · exact below
      right
      constructor
      · exact not_mem_descendants_of_apart parsed secondMember apart
      · exact line_lt_of_apart parsed firstBelow secondBelow apart isEarlier
          isLater

/-- A relation that follows from the order of the lines holds all along the tree
exactly if it holds between what stands in a section and what stands in the
sections inside it. -/
theorem pairwise_iff (listing : Listing Item)
    (parsed : parse catalog text = .ok root) {relation : Item → Item → Prop}
    (ofLines :
      ∀ first ∈ root.preorder.flatMap listing.items,
        ∀ second ∈ root.preorder.flatMap listing.items,
          listing.line first < listing.line second → relation first second) :
    (root.preorder.flatMap listing.items).Pairwise relation ↔
      ∀ outer ∈ root.preorder, ∀ inner ∈ outer.descendants,
        ∀ first ∈ listing.items outer, ∀ second ∈ listing.items inner,
          relation first second := by
  constructor
  · intro ordered outer member inner inside
    have part : (outer.preorder.flatMap listing.items).Sublist
        (root.preorder.flatMap listing.items) :=
      (Section.preorder_sublist root outer member).flatMap _
    have within := ordered.sublist part
    rw [Section.preorder_eq, List.flatMap_cons, List.pairwise_append] at within
    intro first firstMember second secondMember
    have below : second ∈ outer.descendants.flatMap listing.items :=
      List.mem_flatMap.mpr ⟨inner, inside, secondMember⟩
    exact within.2.2 first firstMember second below
  · intro above
    have listed {place : Placed Item} (placed : place ∈ listing.placed root) :
        place.item ∈ root.preorder.flatMap listing.items := by
      rw [← placed_map_item]
      exact List.mem_map_of_mem placed
    rw [← placed_map_item, List.pairwise_map]
    apply (placed_pairwise listing parsed).imp_of_mem
    intro first second firstPlaced secondPlaced precedes
    -- Only an inner section is listed out of the order of the lines.
    rcases precedes with inside | ⟨_, earlier⟩
    · exact above first.holder (holder_mem_preorder firstPlaced)
        second.holder inside
        first.item (mem_placed_iff.mp firstPlaced).2
        second.item (mem_placed_iff.mp secondPlaced).2
    · exact ofLines first.item (listed firstPlaced) second.item
        (listed secondPlaced) earlier

end Texts

variable (root : Section) (selected : Placed Item → Prop)

/-- Of all in a tree that are of a kind, this one comes last in the order of the
tree. -/
structure IsLast (place : Placed Item) : Prop where
  member : place ∈ listing.placed root
  chosen : selected place
  last :
    ∀ other ∈ listing.placed root, selected other →
      other = place ∨ listing.Precedes other place

/-- Of all in a tree that are of a kind, this one stands on the greatest line. -/
structure IsLatest (place : Placed Item) : Prop where
  member : place ∈ listing.placed root
  chosen : selected place
  greatest :
    ∀ other ∈ listing.placed root, selected other →
      listing.line other.item ≤ listing.line place.item

/-- What comes last in the tree against what stands on the greatest line: it
stands there itself, or in a section inside the section there.  The two are the
same exactly if nothing of the kind stands in such a section. -/
structure Survives (survivor latest : Placed Item) : Prop where
  isLast : listing.IsLast root selected survivor
  isLatest : listing.IsLatest root selected latest
  eq_or_deeper :
    survivor = latest ∨ survivor.holder ∈ latest.holder.descendants
  eq_iff :
    survivor = latest ↔
      ∀ other ∈ listing.placed root, selected other →
        other.holder ∉ latest.holder.descendants

section Last

variable {listing root selected} {catalog : Catalog} {text : List Char}
  {place latest survivor : Placed Item}

theorem exists_isLatest
    (nonempty : ∃ place ∈ listing.placed root, selected place) :
    ∃ latest, listing.IsLatest root selected latest := by
  obtain ⟨latest, member, chosen, greatest⟩ :=
    exists_greatest (fun place => listing.line place.item) nonempty
  exact ⟨latest, member, chosen, greatest⟩

theorem isLatest_of_cons {rest : List (Placed Item)}
    (placed : listing.placed root = latest :: rest)
    (chosen : selected latest)
    (bound : ∀ other ∈ rest,
      listing.line other.item ≤ listing.line latest.item) :
    listing.IsLatest root selected latest := by
  refine ⟨?_, chosen, ?_⟩
  · rw [placed]
    exact List.mem_cons_self
  · intro other member _
    rw [placed] at member
    rcases List.mem_cons.mp member with same | inRest
    · rw [same]
    · exact bound other inRest

theorem IsLast.unique {other : Placed Item}
    (first : listing.IsLast root selected place)
    (second : listing.IsLast root selected other) : place = other := by
  rcases first.last other second.member second.chosen with same | precedes
  · exact same.symm
  · rcases second.last place first.member first.chosen with same | back
    · exact same
    · exact absurd back precedes.asymm

theorem isLast_iff_split (parsed : parse catalog text = .ok root) :
    listing.IsLast root selected place ↔
      ∃ before after, listing.placed root = before ++ place :: after ∧
        selected place ∧ ∀ later ∈ after, ¬ selected later := by
  have ordered := placed_pairwise listing parsed
  constructor
  · rintro ⟨member, chosen, last⟩
    obtain ⟨before, after, split⟩ := List.append_of_mem member
    refine ⟨before, after, split, chosen, ?_⟩
    intro later laterMember laterChosen
    rw [split, List.pairwise_append, List.pairwise_cons] at ordered
    have follows : listing.Precedes place later :=
      ordered.2.1.1 later laterMember
    have laterPlaced : later ∈ listing.placed root := by
      rw [split]
      exact List.mem_append_right _ (List.mem_cons_of_mem _ laterMember)
    rcases last later laterPlaced laterChosen with same | precedes
    · rw [same] at follows
      exact follows.asymm follows
    · exact follows.asymm precedes
  · rintro ⟨before, after, split, chosen, none⟩
    rw [split, List.pairwise_append] at ordered
    refine ⟨?_, chosen, ?_⟩
    · rw [split]
      exact List.mem_append_right _ List.mem_cons_self
    · intro other otherMember otherChosen
      rw [split, List.mem_append, List.mem_cons] at otherMember
      rcases otherMember with earlier | same | later
      · exact Or.inr (ordered.2.2 other earlier place List.mem_cons_self)
      · exact Or.inl same
      · exact absurd otherChosen (none other later)

/-- What comes last in the tree stands on the greatest line, or inside the
section of what does. -/
theorem IsLast.eq_or_deeper (isLast : listing.IsLast root selected place)
    (isLatest : listing.IsLatest root selected latest) :
    place = latest ∨ place.holder ∈ latest.holder.descendants := by
  rcases isLast.last latest isLatest.member isLatest.chosen with
    same | inside | ⟨_, later⟩
  · exact Or.inl same.symm
  · exact Or.inr inside
  · have bound := isLatest.greatest place isLast.member isLast.chosen
    exact absurd later (Nat.not_lt_of_le bound)

/-- What stands on the greatest line comes last in the tree exactly if nothing of
its kind stands in a section inside its own. -/
theorem isLast_iff_of_isLatest (parsed : parse catalog text = .ok root)
    (isLatest : listing.IsLatest root selected latest) :
    listing.IsLast root selected latest ↔
      ∀ other ∈ listing.placed root, selected other →
        other.holder ∉ latest.holder.descendants := by
  constructor
  · intro isLast other member chosen inside
    have behind : listing.Precedes latest other := Or.inl inside
    rcases isLast.last other member chosen with same | precedes
    · rw [same] at inside
      exact Section.not_mem_descendants_self _ inside
    · exact behind.asymm precedes
  · intro outside
    refine ⟨isLatest.member, isLatest.chosen, ?_⟩
    intro other member chosen
    have ordered := placed_pairwise listing parsed
    obtain ⟨before, after, split⟩ := List.append_of_mem isLatest.member
    rw [split, List.pairwise_append, List.pairwise_cons] at ordered
    have listed := member
    rw [split, List.mem_append, List.mem_cons] at listed
    rcases listed with earlier | same | later
    · exact Or.inr (ordered.2.2 other earlier latest List.mem_cons_self)
    · exact Or.inl same
    · -- Behind the greatest line only a section inside can be listed.
      rcases ordered.2.1.1 other later with inside | ⟨_, before⟩
      · exact absurd inside (outside other member chosen)
      · have bound := isLatest.greatest other member chosen
        exact absurd before (Nat.not_lt_of_le bound)

theorem IsLast.survives (parsed : parse catalog text = .ok root)
    (isLast : listing.IsLast root selected survivor)
    (isLatest : listing.IsLatest root selected latest) :
    listing.Survives root selected survivor latest where
  isLast := isLast
  isLatest := isLatest
  eq_or_deeper := isLast.eq_or_deeper isLatest
  eq_iff := by
    rw [← isLast_iff_of_isLatest parsed isLatest]
    constructor
    · intro same
      rw [← same]
      exact isLast
    · intro latestIsLast
      exact isLast.unique latestIsLast

end Last

end Listing

end CompositorConf
