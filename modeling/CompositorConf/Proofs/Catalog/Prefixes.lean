import CompositorConf.Proofs.Catalog.Names

/-!
# Names of sections in front of a key

A name that is no root name and has no colon can be moved from the end of a path to
the front of a key, with a colon behind it.

* `splitCategoryKey_concat` moves one name, and `splitCategoryKey_append` any number
  of them, which `prefixedKey` puts in front of the key;
* `KeywordsAvoid` says that no keyword is spelled with a character, so that no key
  with that character is a keyword; `standard_keywordsAvoid_colon` is the case of the
  colon.
-/

namespace CompositorConf

open Text

section Keys

variable {name : String} (key : String)

theorem keySegments_ne_nil : keySegments key ≠ [] := by
  intro none
  exact List.splitOn_ne_nil ':' key.toList (List.map_eq_nil_iff.mp none)

theorem keySegments_prefixed (plain : ':' ∉ name.toList) :
    keySegments (name ++ ":" ++ key) = name :: keySegments key := by
  have shape : (name ++ ":" ++ key).toList = name.toList ++ ':' :: key.toList := by
    simp
  have cut : (name.toList ++ ':' :: key.toList).splitOn ':' =
      name.toList :: key.toList.splitOn ':' :=
    List.splitOn_append_cons_self_of_not_mem plain key.toList
  rw [keySegments, shape, cut, List.map_cons, String.ofList_toList, keySegments]

theorem keyName_prefixed (plain : ':' ∉ name.toList) :
    keyName (name ++ ":" ++ key) = keyName key := by
  obtain ⟨first, others, pieces⟩ :=
    List.exists_cons_of_ne_nil (keySegments_ne_nil key)
  rw [keyName, keyName, keySegments_prefixed key plain, pieces,
    List.getLast?_cons_cons]
  simp [List.getLast?_cons]

/-- The last name of a path can stand in front of the key instead. -/
theorem splitCategoryKey_concat (path : List String) (plain : ':' ∉ name.toList)
    (different : name ≠ rootName) :
    splitCategoryKey (path ++ [name]) key =
      splitCategoryKey path (name ++ ":" ++ key) := by
  have kept : (path ++ [name]).filter (· ≠ rootName) =
      path.filter (· ≠ rootName) ++ [name] := by
    simp [List.filter_append, different]
  have categories : (name :: keySegments key).dropLast =
      name :: (keySegments key).dropLast :=
    List.dropLast_cons_of_ne_nil (keySegments_ne_nil key)
  rw [splitCategoryKey, splitCategoryKey, kept, keyName_prefixed key plain,
    keySegments_prefixed key plain, categories, List.append_assoc,
    List.singleton_append]

end Keys

/-- A key behind names, with a colon behind each of them. -/
def prefixedKey (names : List String) (key : String) : String :=
  ":".intercalate (names ++ [key])

theorem prefixedKey_nil (key : String) : prefixedKey [] key = key :=
  String.intercalate_singleton

theorem prefixedKey_cons (name : String) (rest : List String) (key : String) :
    prefixedKey (name :: rest) key = name ++ ":" ++ prefixedKey rest key := by
  rw [prefixedKey, prefixedKey]
  cases rest with
  | nil => exact String.intercalate_cons_cons
  | cons next others => exact String.intercalate_cons_cons

theorem splitCategoryKey_append (key : String) {names : List String}
    (plain : ∀ name ∈ names, ':' ∉ name.toList)
    (different : ∀ name ∈ names, name ≠ rootName) :
    ∀ path : List String,
      splitCategoryKey (path ++ names) key =
        splitCategoryKey path (prefixedKey names key) := by
  induction names with
  | nil =>
      intro path
      rw [List.append_nil, prefixedKey_nil]
  | cons name rest inductionHypothesis =>
      intro path
      rw [List.forall_mem_cons] at plain different
      have inner := inductionHypothesis plain.2 different.2 (path ++ [name])
      rw [List.append_assoc, List.singleton_append] at inner
      rw [inner, prefixedKey_cons,
        splitCategoryKey_concat _ path plain.1 different.1]

namespace Catalog

/-- No keyword is spelled with a character, and none has it as a flag. -/
def KeywordsAvoid (catalog : Catalog) (character : Char) : Prop :=
  ∀ keyword ∈ catalog.keywords,
    character ∉ keyword.name.toList ∧ character ∉ keyword.flags

theorem KeywordsAvoid.findKeyword?_eq_none {catalog : Catalog}
    {character : Char} {key : String} (avoid : catalog.KeywordsAvoid character)
    (inKey : character ∈ key.toList) : catalog.findKeyword? key = none := by
  rw [findKeyword?, List.find?_eq_none]
  intro keyword member accepted
  obtain ⟨nameNot, flagsNot⟩ := avoid keyword member
  obtain ⟨letters, split, areFlags⟩ :=
    keyword.exists_flags_of_accepts accepted
  rw [split, List.mem_append] at inKey
  rcases inKey with inName | inLetters
  · exact nameNot inName
  · exact flagsNot (areFlags character inLetters)

theorem standard_keywordsAvoid_colon : standard.KeywordsAvoid ':' := by
  rw [KeywordsAvoid]
  decide +kernel

end Catalog

end CompositorConf
