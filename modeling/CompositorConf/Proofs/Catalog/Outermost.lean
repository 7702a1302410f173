import CompositorConf.Proofs.Catalog.Names

/-!
# Which section a name is found in

A section has an address in its catalog: the number of an outermost section, then
the number of a section in that one, and so on.  Addresses in the order of a
dictionary give the order of the catalog, in which a section comes before the
sections in it, and these before the next section beside it.

* `Catalog.sectionAt?` follows an address, and `DeclaresAt` says that the section
  there declares a name;
* `findSome?_preorderAll` says that the order of the catalog is that of the
  addresses;
* `findAnywhere?_by_address` is the result: a name is found at its first address;
* `font_family_below_misc` and `outermost_not_first` show that a shorter address
  can come later.
-/

namespace CompositorConf

namespace SectionDefinition

def descend? (definition : SectionDefinition) :
    List Nat → Option SectionDefinition
  | [] => some definition
  | number :: rest =>
      definition.subsections[number]?.bind fun inner => inner.descend? rest

/-- The section at an address, whose first number is that of one of the given
sections. -/
def at? (definitions : List SectionDefinition) :
    List Nat → Option SectionDefinition
  | [] => none
  | number :: rest =>
      definitions[number]?.bind fun outermost => outermost.descend? rest

mutual

theorem mem_preorder_iff :
    ∀ (definition : SectionDefinition) {owner : SectionDefinition},
      owner ∈ definition.preorder ↔
        ∃ address, definition.descend? address = some owner
  | ⟨path, declarations, subsections⟩, owner => by
      rw [preorder, List.mem_cons, mem_preorderAll_iff subsections]
      constructor
      · rintro (rfl | ⟨address, isOwner⟩)
        · exact ⟨[], rfl⟩
        · cases address with
          | nil => cases isOwner
          | cons number rest => exact ⟨number :: rest, isOwner⟩
      · rintro ⟨address, isOwner⟩
        cases address with
        | nil => exact Or.inl (Option.some.inj isOwner).symm
        | cons number rest => exact Or.inr ⟨number :: rest, isOwner⟩

theorem mem_preorderAll_iff :
    ∀ (definitions : List SectionDefinition) {owner : SectionDefinition},
      owner ∈ preorderAll definitions ↔
        ∃ address, at? definitions address = some owner
  | [], owner => by
      constructor
      · intro member
        exact absurd member List.not_mem_nil
      · rintro ⟨address, isOwner⟩
        cases address <;> cases isOwner
  | definition :: rest, owner => by
      rw [preorderAll, List.mem_append, mem_preorder_iff definition,
        mem_preorderAll_iff rest]
      constructor
      · rintro (⟨address, isOwner⟩ | ⟨address, isOwner⟩)
        · exact ⟨0 :: address, isOwner⟩
        · cases address with
          | nil => cases isOwner
          | cons number deeper => exact ⟨(number + 1) :: deeper, isOwner⟩
      · rintro ⟨address, isOwner⟩
        match address, isOwner with
        | 0 :: deeper, isOwner => exact Or.inl ⟨deeper, isOwner⟩
        | (number + 1) :: deeper, isOwner =>
            exact Or.inr ⟨number :: deeper, isOwner⟩

end

section Search

variable {Result : Type} {choose : SectionDefinition → Option Result}

mutual

/-- What is found first inside a section, itself included, is found at the first
address that has a result. -/
theorem findSome?_preorder :
    ∀ (definition : SectionDefinition) {result : Result},
      definition.preorder.findSome? choose = some result →
        ∃ address owner, definition.descend? address = some owner ∧
          choose owner = some result ∧
          ∀ other otherOwner, definition.descend? other = some otherOwner →
            (choose otherOwner).isSome → ¬ other < address
  | ⟨path, declarations, subsections⟩, result, found => by
      rw [preorder, List.findSome?_cons] at found
      cases own : choose ⟨path, declarations, subsections⟩ with
      | some chosen =>
          rw [own] at found
          cases found
          exact ⟨[], _, rfl, own, fun other _ _ _ => List.not_lt_nil other⟩
      | none =>
          rw [own] at found
          obtain ⟨address, owner, isOwner, chosen, first⟩ :=
            findSome?_preorderAll subsections found
          cases address with
          | nil => cases isOwner
          | cons number deeper =>
              refine ⟨number :: deeper, owner, isOwner, chosen, ?_⟩
              intro other otherOwner isOther hasResult
              cases other with
              | nil =>
                  cases isOther
                  rw [own] at hasResult
                  cases hasResult
              | cons next rest =>
                  exact first (next :: rest) otherOwner isOther hasResult

theorem findSome?_preorderAll :
    ∀ (definitions : List SectionDefinition) {result : Result},
      (preorderAll definitions).findSome? choose = some result →
        ∃ address owner, at? definitions address = some owner ∧
          choose owner = some result ∧
          ∀ other otherOwner, at? definitions other = some otherOwner →
            (choose otherOwner).isSome → ¬ other < address
  | [], _, found => by cases found
  | definition :: rest, result, found => by
      rw [preorderAll, List.findSome?_append] at found
      cases inside : definition.preorder.findSome? choose with
      | some chosen =>
          rw [inside] at found
          cases found
          obtain ⟨address, owner, isOwner, chosen, first⟩ :=
            findSome?_preorder definition inside
          refine ⟨0 :: address, owner, isOwner, chosen, ?_⟩
          intro other otherOwner isOther hasResult before
          match other, isOther with
          | 0 :: deeper, isOther =>
              rcases List.cons_lt_cons_iff.mp before with less | ⟨_, deep⟩
              · exact absurd less (Nat.lt_irrefl 0)
              · exact first deeper otherOwner isOther hasResult deep
          | (number + 1) :: deeper, _ =>
              rcases List.cons_lt_cons_iff.mp before with less | ⟨same, _⟩
              · exact absurd less (Nat.not_lt_zero _)
              · exact absurd same (Nat.succ_ne_zero number)
      | none =>
          rw [inside] at found
          obtain ⟨address, owner, isOwner, chosen, first⟩ :=
            findSome?_preorderAll rest found
          cases address with
          | nil => cases isOwner
          | cons number deeper =>
              refine ⟨(number + 1) :: deeper, owner, isOwner, chosen, ?_⟩
              intro other otherOwner isOther hasResult before
              match other, isOther with
              | 0 :: below, isOther =>
                  have member : otherOwner ∈ definition.preorder :=
                    (mem_preorder_iff definition).mpr ⟨below, isOther⟩
                  rw [List.findSome?_eq_none_iff.mp inside _ member]
                    at hasResult
                  cases hasResult
              | (next + 1) :: below, isOther =>
                  apply first (next :: below) otherOwner isOther hasResult
                  rw [List.cons_lt_cons_iff] at before ⊢
                  exact before.imp Nat.lt_of_succ_lt_succ
                    fun ⟨same, deep⟩ => ⟨Nat.succ.inj same, deep⟩

end

end Search

end SectionDefinition

namespace Catalog

def sectionAt? (catalog : Catalog) (address : List Nat) :
    Option SectionDefinition :=
  SectionDefinition.at? catalog.sections address

/-- The section at an address declares a name. -/
structure DeclaresAt (catalog : Catalog) (name : String) (address : List Nat)
    (found : LocatedVariable) : Prop where
  owner : catalog.sectionAt? address = some found.owner
  definition : found.owner.lookup? name = some found.definition

/-- No section that declares a name lies less deep than an address, nor before it
at the same depth. -/
def IsOutermost (catalog : Catalog) (name : String) (address : List Nat) :
    Prop :=
  ∀ other found, catalog.DeclaresAt name other found →
    address.length < other.length ∨
      address.length = other.length ∧ ¬ other < address

section Names

variable {catalog : Catalog} {name : String} {found : LocatedVariable}

theorem findAnywhere?_eq_none_iff :
    catalog.findAnywhere? name = none ↔
      ∀ owner ∈ catalog.allSections, owner.lookup? name = none := by
  simp only [findAnywhere?, List.findSome?_eq_none_iff, Option.map_eq_none_iff]

theorem exists_declaresAt_iff :
    (∃ address found, catalog.DeclaresAt name address found) ↔
      ∃ owner ∈ catalog.allSections, owner.lookup? name ≠ none := by
  constructor
  · rintro ⟨address, found, declares⟩
    refine ⟨found.owner, ?_, ?_⟩
    · exact (SectionDefinition.mem_preorderAll_iff catalog.sections).mpr
        ⟨address, declares.owner⟩
    · rw [declares.definition]
      exact Option.some_ne_none _
  · rintro ⟨owner, member, declares⟩
    obtain ⟨definition, isDeclared⟩ := Option.ne_none_iff_exists'.mp declares
    obtain ⟨address, isOwner⟩ :=
      (SectionDefinition.mem_preorderAll_iff catalog.sections).mp member
    exact ⟨address, ⟨owner, definition⟩, isOwner, isDeclared⟩

theorem findAnywhere?_isSome_iff :
    (∃ found, catalog.findAnywhere? name = some found) ↔
      ∃ address found, catalog.DeclaresAt name address found := by
  rw [exists_declaresAt_iff, ← Option.ne_none_iff_exists', ne_eq,
    findAnywhere?_eq_none_iff]
  simp only [not_forall, exists_prop, ne_eq]

/-- A name is found at the first address that declares it. -/
theorem declaresAt_of_findAnywhere?
    (isFound : catalog.findAnywhere? name = some found) :
    ∃ address, catalog.DeclaresAt name address found ∧
      ∀ other otherFound, catalog.DeclaresAt name other otherFound →
        ¬ other < address := by
  rw [findAnywhere?] at isFound
  obtain ⟨address, owner, isOwner, chosen, first⟩ :=
    SectionDefinition.findSome?_preorderAll catalog.sections isFound
  obtain ⟨definition, isDeclared, rfl⟩ := Option.map_eq_some_iff.mp chosen
  refine ⟨address, ⟨isOwner, isDeclared⟩, ?_⟩
  intro other otherFound declares
  apply first other otherFound.owner declares.owner
  rw [declares.definition]
  rfl

/-- The first address is outermost exactly if no section behind it lies less
deep. -/
theorem isOutermost_iff_of_first {address : List Nat}
    (first : ∀ other otherFound, catalog.DeclaresAt name other otherFound →
      ¬ other < address) :
    catalog.IsOutermost name address ↔
      ∀ other otherFound, catalog.DeclaresAt name other otherFound →
        address < other → address.length ≤ other.length := by
  constructor
  · intro outermost other otherFound declares _
    rcases outermost other otherFound declares with less | ⟨same, _⟩
    · exact Nat.le_of_lt less
    · exact Nat.le_of_eq same
  · intro deeper other otherFound declares
    have order : ¬ other < address := first other otherFound declares
    by_cases behind : address < other
    · have bound := deeper other otherFound declares behind
      exact (Nat.lt_or_eq_of_le bound).imp_right fun equal => ⟨equal, order⟩
    · have same : address = other := List.le_antisymm order behind
      exact Or.inr ⟨congrArg List.length same, order⟩

end Names

/-- A catalog in which the path of a section has as many names as its address has
numbers. -/
structure PathsFit (catalog : Catalog) : Prop where
  outermost : ∀ owner ∈ catalog.sections, owner.path.length = 1
  inner :
    ∀ outer ∈ catalog.allSections, ∀ inner ∈ outer.subsections,
      inner.path.length = outer.path.length + 1

section Paths

variable {catalog : Catalog} {name : String} {address other : List Nat}
  {found otherFound : LocatedVariable}

theorem PathsFit.length_of_descend? (fit : catalog.PathsFit)
    {outer owner : SectionDefinition} (member : outer ∈ catalog.allSections)
    (isOwner : outer.descend? address = some owner) :
    owner.path.length = outer.path.length + address.length := by
  induction address generalizing outer with
  | nil =>
      cases isOwner
      rfl
  | cons number rest inductionHypothesis =>
      obtain ⟨inner, isInner, deeper⟩ := Option.bind_eq_some_iff.mp isOwner
      have innerMember : inner ∈ outer.subsections :=
        List.mem_of_getElem? isInner
      have below : inner ∈ catalog.allSections :=
        SectionDefinition.mem_preorderAll_of_subsection _ member innerMember
      rw [inductionHypothesis below deeper,
        fit.inner outer member inner innerMember, List.length_cons]
      omega

theorem PathsFit.length_eq (fit : catalog.PathsFit)
    (declares : catalog.DeclaresAt name address found) :
    found.owner.path.length = address.length := by
  have isOwner := declares.owner
  cases address with
  | nil => cases isOwner
  | cons number rest =>
      obtain ⟨outermost, isOutermost, deeper⟩ :=
        Option.bind_eq_some_iff.mp isOwner
      have member : outermost ∈ catalog.sections :=
        List.mem_of_getElem? isOutermost
      rw [fit.length_of_descend?
          (SectionDefinition.mem_preorderAll_of_mem member) deeper,
        fit.outermost outermost member, List.length_cons, Nat.add_comm]

theorem DeclaresAt.owner_mem (declares : catalog.DeclaresAt name address found) :
    found.owner ∈ catalog.allSections :=
  (SectionDefinition.mem_preorderAll_iff catalog.sections).mpr
    ⟨address, declares.owner⟩

theorem PathsFit.length_le_of_isOutermost (fit : catalog.PathsFit)
    (declares : catalog.DeclaresAt name address found)
    (outermost : catalog.IsOutermost name address)
    {owner : SectionDefinition} (member : owner ∈ catalog.allSections)
    (declared : (owner.lookup? name).isSome) :
    found.owner.path.length ≤ owner.path.length := by
  obtain ⟨definition, isDeclared⟩ := Option.isSome_iff_exists.mp declared
  obtain ⟨other, isOwner⟩ :=
    (SectionDefinition.mem_preorderAll_iff catalog.sections).mp member
  have otherDeclares : catalog.DeclaresAt name other ⟨owner, definition⟩ :=
    ⟨isOwner, isDeclared⟩
  have ownLength := fit.length_eq declares
  have otherLength : owner.path.length = other.length :=
    fit.length_eq otherDeclares
  rcases outermost other _ otherDeclares with less | ⟨same, _⟩ <;> omega

end Paths

theorem standard_pathsFit : standard.PathsFit where
  outermost := by decide +kernel
  inner := by decide +kernel

/-- The names that the standard catalog declares in a section inside another one,
and in an outermost section behind it. -/
def buriedNames : List String :=
  ["enabled", "font_family"]

/-- In the standard catalog the section that is found is outermost, but for two
names. -/
theorem standard_isOutermost_iff {name : String} {found : LocatedVariable}
    (isFound : standard.findAnywhere? name = some found) :
    (∃ address, standard.DeclaresAt name address found ∧
      standard.IsOutermost name address) ↔ name ∉ buriedNames := by
  constructor
  · rintro ⟨address, declares, outermost⟩ buried
    have checked : ∀ name ∈ buriedNames,
        ((standard.findAnywhere? name).all fun found =>
          found.owner.path.length = 2) = true ∧
        ∃ owner ∈ standard.allSections, (owner.lookup? name).isSome ∧
          owner.path.length = 1 := by
      decide +kernel
    obtain ⟨deep, owner, member, declared, shallow⟩ := checked name buried
    rw [isFound, Option.all_some, decide_eq_true_eq] at deep
    have bound := standard_pathsFit.length_le_of_isOutermost declares outermost
      member declared
    omega
  · intro plain
    obtain ⟨address, declares, first⟩ := declaresAt_of_findAnywhere? isFound
    refine ⟨address, declares, ?_⟩
    rw [isOutermost_iff_of_first first]
    intro other otherFound otherDeclares _
    by_contra deeper
    have checked : ∀ outer ∈ standard.allSections,
        ∀ inner ∈ standard.allSections,
          outer.path.length < inner.path.length →
            ∀ declared ∈ inner.declarations,
              (outer.lookup? declared.name).isSome →
                declared.name ∈ buriedNames := by
      decide +kernel
    have less : otherFound.owner.path.length < found.owner.path.length := by
      rw [standard_pathsFit.length_eq declares,
        standard_pathsFit.length_eq otherDeclares]
      omega
    obtain ⟨declared, named⟩ :=
      SectionDefinition.mem_of_lookup? declares.definition
    apply plain
    rw [← named]
    apply checked otherFound.owner otherDeclares.owner_mem found.owner
      declares.owner_mem less _ declared
    rw [named, otherDeclares.definition]
    rfl

/-- **A name is found in the order of the catalog.**  A name is found exactly if
some section at some depth declares it.  No section in front of the one that is
found declares it, nor does one around it.  What is found is outermost exactly if
no section behind it that declares the name lies less deep; in the standard
catalog two names have such a section. -/
theorem findAnywhere?_by_address (catalog : Catalog) (name : String) :
    ((∃ found, catalog.findAnywhere? name = some found) ↔
        ∃ address found, catalog.DeclaresAt name address found) ∧
      (∀ found, catalog.findAnywhere? name = some found →
        ∃ address, catalog.DeclaresAt name address found ∧
          (∀ other otherFound, catalog.DeclaresAt name other otherFound →
            ¬ other < address ∧ (other <+: address → other = address)) ∧
          (catalog.IsOutermost name address ↔
            ∀ other otherFound, catalog.DeclaresAt name other otherFound →
              address < other → address.length ≤ other.length)) ∧
      ∀ found, standard.findAnywhere? name = some found →
        ((∃ address, standard.DeclaresAt name address found ∧
          standard.IsOutermost name address) ↔ name ∉ buriedNames) := by
  refine ⟨findAnywhere?_isSome_iff, fun found isFound => ?_,
    fun found isFound => standard_isOutermost_iff isFound⟩
  obtain ⟨address, declares, first⟩ := declaresAt_of_findAnywhere? isFound
  refine ⟨address, declares, ?_, isOutermost_iff_of_first first⟩
  intro other otherFound otherDeclares
  have order : ¬ other < address := first other otherFound otherDeclares
  exact ⟨order, fun around => List.le_antisymm around.le order⟩

/-- The name `font_family` is found in a section inside another one, though an
outermost section behind it declares it as well. -/
theorem font_family_below_misc :
    ∃ found address, standard.findAnywhere? "font_family" = some found ∧
      found.owner.path = ["group", "groupbar"] ∧
      standard.DeclaresAt "font_family" address found ∧
      ¬ standard.IsOutermost "font_family" address := by
  have evaluated :
      (standard.findAnywhere? "font_family").map (·.owner.path) =
        some ["group", "groupbar"] := by
    decide +kernel
  obtain ⟨found, isFound, path⟩ := Option.map_eq_some_iff.mp evaluated
  obtain ⟨_, general, ofStandard⟩ :=
    findAnywhere?_by_address standard "font_family"
  obtain ⟨address, declares, _⟩ := general found isFound
  refine ⟨found, address, isFound, path, declares, ?_⟩
  intro outermost
  have plain : "font_family" ∉ buriedNames :=
    (ofStandard found isFound).mp ⟨address, declares, outermost⟩
  exact plain (by decide)

/-- What is found need not be outermost. -/
theorem outermost_not_first :
    ¬ ∀ (catalog : Catalog) (name : String) (found : LocatedVariable),
      catalog.findAnywhere? name = some found →
        ∃ address, catalog.DeclaresAt name address found ∧
          catalog.IsOutermost name address := by
  intro outermost
  have evaluated : (standard.findAnywhere? "enabled").isSome = true := by
    decide +kernel
  obtain ⟨found, isFound⟩ := Option.isSome_iff_exists.mp evaluated
  have plain : "enabled" ∉ buriedNames :=
    (standard_isOutermost_iff isFound).mp (outermost _ _ found isFound)
  exact plain (by decide)

end Catalog

end CompositorConf
