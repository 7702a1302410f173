import CompositorConf.Proofs.Configuration.Decoding
import CompositorConf.Proofs.Document.TreeOrder
import CompositorConf.Catalog.Standard

/-!
# Custom variables that are defined more than once

A configuration keeps one text for each custom variable.  Definitions are written
into a table in the order of the tree, and the last one written stays.

* `customVariable_eq_some_iff` finds the definition that is kept;
* `decode_keeps_customVariables` compares it with the one on the greatest line;
* `nestedVariable` defines a custom variable in a section and again below it.
-/

namespace CompositorConf

open Document

namespace Configuration

section Variables

variable {catalog : Catalog} {text : List Char} {root : Section}
  {configuration : Configuration} {name raw : String}

/-- A place at which a custom variable is defined. -/
def Defines (name : String) (place : Placed Assignment) : Prop :=
  place.item.key = name

instance (name : String) : DecidablePred (Defines name) :=
  fun place => inferInstanceAs (Decidable (place.item.key = name))

def insertDefinition (known : Table String) (place : Placed Assignment) :
    Table String :=
  known.insert place.item.key place.item.rawValue

theorem get?_insertDefinition (known : Table String)
    (place : Placed Assignment) :
    (insertDefinition known place).get? name =
      if Defines name place then some place.item.rawValue
      else known.get? name := by
  rw [insertDefinition, Table.get?_insert]
  exact if_congr eq_comm rfl rfl

theorem customVariables_of_decode
    (decoded : decode catalog root = .ok configuration) :
    configuration.customVariables =
      (Listing.customVariables.placed root).foldl insertDefinition .empty := by
  obtain ⟨_, _, rfl⟩ := decode_eq_ok_iff.mp decoded
  have listed := Listing.placed_map_item Listing.customVariables root
  change _ = root.allVariables at listed
  change customVariablesOf root = _
  rw [customVariablesOf, ← listed, List.foldl_map]
  rfl

theorem customVariable_isSome_iff
    (decoded : decode catalog root = .ok configuration) :
    (configuration.customVariables.get? name).isSome ↔
      ∃ place ∈ Listing.customVariables.placed root, Defines name place := by
  rw [customVariables_of_decode decoded]
  exact foldl_isSome_iff (fun known : Table String => known.get? name)
    (Defines name) (·.item.rawValue) get?_insertDefinition rfl _

theorem customVariable_eq_some_iff (parsed : parse catalog text = .ok root)
    (decoded : decode catalog root = .ok configuration) :
    configuration.customVariables.get? name = some raw ↔
      ∃ place, Listing.customVariables.IsLast root (Defines name) place ∧
        place.item.rawValue = raw := by
  rw [customVariables_of_decode decoded]
  refine (foldl_eq_some_iff (fun known : Table String => known.get? name)
    (Defines name) (·.item.rawValue) get?_insertDefinition
    (Table.get?_empty name) _).trans ?_
  constructor
  · rintro ⟨before, place, after, split, defines, none, same⟩
    have isLast := (Listing.isLast_iff_split parsed).mpr
      ⟨before, after, split, defines, none⟩
    exact ⟨place, isLast, same⟩
  · rintro ⟨place, isLast, same⟩
    obtain ⟨before, after, split, defines, none⟩ :=
      (Listing.isLast_iff_split parsed).mp isLast
    exact ⟨before, place, after, split, defines, none, same⟩

/-- **The last definition in the tree is kept.**  A configuration has a text for
a custom variable exactly if some section defines it.  The text is that of the
definition that comes last in the order of the tree, which is the one on the
greatest line exactly if no definition stands in a section inside its own. -/
theorem decode_keeps_customVariables (parsed : parse catalog text = .ok root)
    (decoded : decode catalog root = .ok configuration) (name : String) :
    ((configuration.customVariables.get? name).isSome ↔
      ∃ current ∈ root.preorder, ∃ content ∈ current.customVariables,
        content.key = name) ∧
      ((configuration.customVariables.get? name).isSome →
        ∃ survivor latest,
          Listing.customVariables.Survives root (Defines name) survivor
              latest ∧
            configuration.customVariables.get? name =
              some survivor.item.rawValue) := by
  constructor
  · rw [customVariable_isSome_iff decoded]
    constructor
    · rintro ⟨place, member, defines⟩
      exact ⟨place.holder, Listing.holder_mem_preorder member, place.item,
        (Listing.mem_placed_iff.mp member).2, defines⟩
    · rintro ⟨current, member, content, contentMember, defines⟩
      obtain ⟨place, placed, _, same⟩ :
          ∃ place ∈ Listing.customVariables.placed root,
            place.holder = current ∧ place.item = content :=
        Listing.exists_placed member contentMember
      rw [← same] at defines
      exact ⟨place, placed, defines⟩
  · intro isSome
    obtain ⟨latest, isLatest⟩ :=
      Listing.exists_isLatest ((customVariable_isSome_iff decoded).mp isSome)
    obtain ⟨raw, found⟩ := Option.isSome_iff_exists.mp isSome
    obtain ⟨survivor, isLast, same⟩ :=
      (customVariable_eq_some_iff parsed decoded).mp found
    rw [found, ← same]
    exact ⟨survivor, latest, isLast.survives parsed isLatest, rfl⟩

def nestedVariable : List Char :=
  "input \x7b\n  $x = 1\n\x7d\n$x = 2\n".toList

theorem decode_nestedVariable :
    ∃ root configuration, parse .standard nestedVariable = .ok root ∧
      decode .standard root = .ok configuration ∧
      (configuration.customVariables.get? "x",
        (Listing.customVariables.placed root).map fun place =>
          (place.item.key, place.item.position.line, place.item.rawValue)) =
        (some "1", [("x", 3, "2"), ("x", 1, "1")]) := by
  apply exists_decode_of_map (fun root configuration =>
    (configuration.customVariables.get? "x",
      (Listing.customVariables.placed root).map fun place =>
        (place.item.key, place.item.position.line, place.item.rawValue)))
  decide +kernel

/-- The definition in the section is kept. -/
theorem nestedVariable_keeps_customVariables :
    ∃ root configuration, parse .standard nestedVariable = .ok root ∧
      decode .standard root = .ok configuration ∧
      ∃ survivor latest,
        Listing.customVariables.Survives root (Defines "x") survivor latest ∧
          survivor.item.rawValue = "1" := by
  obtain ⟨root, configuration, parsed, decoded, view⟩ := decode_nestedVariable
  have kept : configuration.customVariables.get? "x" = some "1" :=
    congrArg Prod.fst view
  refine ⟨root, configuration, parsed, decoded, ?_⟩
  obtain ⟨survivor, latest, survives, same⟩ :=
    (decode_keeps_customVariables parsed decoded "x").2 (by rw [kept]; rfl)
  rw [kept] at same
  exact ⟨survivor, latest, survives, (Option.some.inj same).symm⟩

/-- The definition on the greatest line need not be kept. -/
theorem later_definition_lost :
    ¬ ∀ (catalog : Catalog) (text : List Char) (root : Section)
      (configuration : Configuration) (name : String)
      (latest : Placed Assignment),
      parse catalog text = .ok root →
        decode catalog root = .ok configuration →
          Listing.customVariables.IsLatest root (Defines name) latest →
            configuration.customVariables.get? name =
              some latest.item.rawValue := by
  intro overrides
  obtain ⟨root, configuration, parsed, decoded, view⟩ := decode_nestedVariable
  have kept : configuration.customVariables.get? "x" = some "1" :=
    congrArg Prod.fst view
  obtain ⟨latest, rest, placed, seen, others⟩ :=
    List.map_eq_cons_iff.mp (congrArg Prod.snd view)
  simp only [Prod.mk.injEq] at seen
  have bound : ∀ other ∈ rest,
      Listing.customVariables.line other.item ≤
        Listing.customVariables.line latest.item := by
    intro other member
    have inner :
        (other.item.key, other.item.position.line, other.item.rawValue) =
          ("x", 1, "1") := by
      apply List.mem_singleton.mp
      rw [← others]
      exact List.mem_map_of_mem member
    have upper : other.item.position.line = 1 :=
      congrArg (fun view => view.2.1) inner
    change other.item.position.line ≤ latest.item.position.line
    omega
  have isLatest :
      Listing.customVariables.IsLatest root (Defines "x") latest :=
    Listing.isLatest_of_cons placed seen.1 bound
  have lost := overrides _ _ root configuration "x" latest parsed decoded isLatest
  rw [kept, seen.2.2] at lost
  exact absurd lost (by decide)

end Variables

end Configuration

end CompositorConf
