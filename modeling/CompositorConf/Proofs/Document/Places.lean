import CompositorConf.Proofs.Document.Conservation
import CompositorConf.Proofs.Document.Laminar
import CompositorConf.Proofs.Document.Spans

namespace CompositorConf.Document

open Text

variable {catalog : Catalog} {text : List Char} {root current : Section}
  {entry : Entry}

theorem exists_contentLine_of_recorded {source : List (List Char)}
    {owner : Option Nat}
    (recorded : (owner, entry) ∈ recordedEntries catalog source) :
    ∃ line, source[entry.position.line]? = some line ∧
      hasContent line = true ∧
      entryOfLine? catalog line entry.position.line = some entry := by
  rw [recordedEntries, List.mem_filterMap] at recorded
  obtain ⟨⟨line, number⟩, member, kept⟩ := recorded
  have found : source[number]? = some line :=
    List.mk_mem_zipIdx_iff_getElem?.mp member
  have inside : number < source.length :=
    (List.getElem?_eq_some_iff.mp found).1
  have length : (source.take number).length = number := by
    rw [List.length_take, Nat.min_eq_left (Nat.le_of_lt inside)]
  rw [recordedAfter, length] at kept
  split at kept
  · next content =>
      obtain ⟨other, isEntry, same⟩ := Option.map_eq_some_iff.mp kept
      have equality : other = entry := congrArg Prod.snd same
      rw [equality] at isEntry
      have placed : entry.position.line = number := by
        rw [position_of_entryOfLine? isEntry]
      rw [placed]
      exact ⟨line, found, content.1, isEntry⟩
  · cases kept

/-- Every entry of the tree is what its line records, which has content. -/
theorem exists_contentLine_of_entry (parsed : parse catalog text = .ok root)
    (member : current ∈ root.preorder) (entryMember : entry ∈ current.entries) :
    ∃ line, (lines text)[entry.position.line]? = some line ∧
      hasContent line = true ∧
      entryOfLine? catalog line entry.position.line = some entry := by
  have owned : ∃ owner, (owner, entry) ∈ root.ownedFrom none := by
    rcases Section.mem_preorder_iff.mp member with same | below
    · rw [same] at entryMember
      refine ⟨none, List.mem_append_left _ ?_⟩
      exact List.mem_map_of_mem entryMember
    · refine ⟨some current.span.start.line, List.mem_append_right _ ?_⟩
      rw [List.mem_flatMap]
      exact ⟨current, below, List.mem_map_of_mem entryMember⟩
  obtain ⟨owner, isOwned⟩ := owned
  exact exists_contentLine_of_recorded
    ((ownedFrom_of_parse parsed).mem_iff.mp isOwned)

theorem exists_line_of_entry (parsed : parse catalog text = .ok root)
    (member : current ∈ root.preorder) (entryMember : entry ∈ current.entries) :
    ∃ line, (lines text)[entry.position.line]? = some line ∧
      entryOfLine? catalog line entry.position.line = some entry := by
  obtain ⟨line, isLine, _, recorded⟩ :=
    exists_contentLine_of_entry parsed member entryMember
  exact ⟨line, isLine, recorded⟩

section Order

variable {source before : List (List Char)} {line : List Char}
  {item : Option Nat × Entry}

theorem line_lt_of_recorded (member : item ∈ recordedEntries catalog source) :
    item.2.position.line < source.length := by
  obtain ⟨line, found, _⟩ := exists_contentLine_of_recorded member
  exact (List.getElem?_eq_some_iff.mp found).1

theorem line_of_recordedAfter
    (recorded : recordedAfter catalog before line = some item) :
    item.2.position.line = before.length := by
  rw [recordedAfter] at recorded
  split at recorded
  · obtain ⟨entry, isEntry, same⟩ := Option.map_eq_some_iff.mp recorded
    rw [← same, position_of_entryOfLine? isEntry]
  · cases recorded

theorem recordedEntries_increase (catalog : Catalog)
    (source : List (List Char)) :
    (recordedEntries catalog source).Pairwise fun first second =>
      first.2.position.line < second.2.position.line := by
  induction source using List.reverseRecOn with
  | nil => exact List.Pairwise.nil
  | append_singleton before line inductionHypothesis =>
      rw [recordedEntries_concat, List.pairwise_append]
      refine ⟨inductionHypothesis, ?_, ?_⟩
      · cases recordedAfter catalog before line <;> simp
      · intro earlier earlierMember later laterMember
        rw [line_of_recordedAfter (Option.mem_toList.mp laterMember)]
        exact line_lt_of_recorded earlierMember

/-- What is picked out of the entries of a text comes in the order of its
lines. -/
theorem recordedEntries_filterMap_increase {Item : Type}
    {pick : Entry → Option Item} {line : Item → Nat}
    (placed :
      ∀ entry item, pick entry = some item → entry.position.line = line item)
    (catalog : Catalog) (source : List (List Char)) :
    ((recordedEntries catalog source).filterMap fun item => pick item.2).Pairwise
      fun first second => line first < line second := by
  rw [List.pairwise_filterMap]
  apply (recordedEntries_increase catalog source).imp
  intro first second increase firstItem isFirst secondItem isSecond
  rw [← placed _ _ isFirst, ← placed _ _ isSecond]
  exact increase

end Order

/-- No two entries of a text stand on one line. -/
theorem entries_apart (parsed : parse catalog text = .ok root) :
    (root.ownedFrom none).Pairwise fun first second =>
      first.2.position.line ≠ second.2.position.line := by
  have apart := (recordedEntries_increase catalog (lines text)).imp
    fun {first second} earlier => Nat.ne_of_lt earlier
  exact (ownedFrom_of_parse parsed).symm.pairwise apart fun different =>
    different.symm

theorem arranged_of_parse (parsed : parse catalog text = .ok root)
    (member : current ∈ root.preorder) : current.Arranged := by
  have spanned := spanned_of_parse parsed
  rcases Section.mem_preorder_iff.mp member with same | below
  · rw [same]
    exact
      { inside := fun inner innerMember =>
          ⟨spanned.ordered.starts inner innerMember,
            spanned.stops inner innerMember⟩
        apart := spanned.ordered.apart }
  · have closed := spanned.closed current below
    exact
      { inside := fun inner innerMember =>
          ⟨closed.ordered.starts inner innerMember,
            closed.within.stops inner innerMember⟩
        apart := closed.ordered.apart }

theorem laminar_of_parse (parsed : parse catalog text = .ok root) :
    root.Laminar :=
  fun _ member => arranged_of_parse parsed member

/-- Every section inside the root has a width. -/
theorem proper_of_parse (parsed : parse catalog text = .ok root)
    (member : current ∈ root.descendants) :
    current.span.start < current.span.stop := by
  have spanned := spanned_of_parse parsed
  obtain ⟨outer, outerMember, child⟩ :=
    Section.exists_parent_of_mem_descendants root current member
  rcases Section.mem_preorder_iff.mp outerMember with same | below
  · rw [same] at child
    exact spanned.ordered.proper current child
  · exact (spanned.closed outer below).ordered.proper current child

/-- The span of an entry's line from its start to the end of the key. -/
def keySpan (text : List Char) (entry : Entry) : Span :=
  ⟨entry.lineStart, entry.keyEnd (keyColumnIn (lines text))⟩

/-- An entry stands in front of its key. -/
theorem keySpan_contains_position (parsed : parse catalog text = .ok root)
    (member : current ∈ root.preorder) (entryMember : entry ∈ current.entries) :
    (keySpan text entry).contains entry.position = true := by
  obtain ⟨line, found, recorded⟩ :=
    exists_line_of_entry parsed member entryMember
  have column : entry.position.column = indentation line := by
    rw [position_of_entryOfLine? recorded]
  have ends :
      keyColumnIn (lines text) entry.position.line = equalsColumn line :=
    keysEnd_keyColumnIn (lines text) _ line found
  rw [Span.contains_iff]
  constructor
  · exact Or.inr ⟨rfl, Nat.zero_le _⟩
  · refine Or.inr ⟨rfl, ?_⟩
    calc
      entry.position.column = indentation line := column
      _ ≤ equalsColumn line := indentation_le_equalsColumn line
      _ = keyColumnIn (lines text) entry.position.line := ends.symm

section Keys

variable {position : Position}

/-- A section contains the keys of its entries. -/
theorem contains_of_key (parsed : parse catalog text = .ok root)
    (member : current ∈ root.descendants)
    (entryMember : entry ∈ current.entries)
    (inKey : (keySpan text entry).contains position = true) :
    current.contains position = true := by
  have spanned := spanned_of_parse parsed
  have closed := spanned.closed current member
  have inside : current.span.encloses (keySpan text entry) :=
    ⟨Position.le_of_lt (closed.follow entry entryMember),
      closed.within.keys entry entryMember⟩
  exact inside.contains inKey

/-- The sections inside a section contain no key of its own entries. -/
theorem not_contains_of_key (parsed : parse catalog text = .ok root)
    (member : current ∈ root.preorder) (entryMember : entry ∈ current.entries)
    (inKey : (keySpan text entry).contains position = true) :
    ∀ inner ∈ current.subsections, ¬ inner.contains position = true := by
  have spanned := spanned_of_parse parsed
  have ordered : current.Ordered (keyColumnIn (lines text)) := by
    rcases Section.mem_preorder_iff.mp member with same | below
    · rw [same]
      exact spanned.ordered
    · exact (spanned.closed current below).ordered
  intro inner child contained
  rcases ordered.keysApart entry entryMember inner child with before | after
  · exact Span.not_contains_of_apart before contained inKey
  · exact Span.not_contains_of_apart after inKey contained

variable {path : List String}

theorem chainAt_of_key (parsed : parse catalog text = .ok root)
    (located : (path, current) ∈ root.located [])
    (entryMember : entry ∈ current.entries)
    (inKey : (keySpan text entry).contains position = true) :
    (root.chainAt position).getLast? = some current ∧
      root.pathAt position = path := by
  have member : current ∈ root.preorder :=
    Section.mem_preorder_of_mem_located root located
  obtain ⟨last, names⟩ :=
    Section.chainAt_of_located root (laminar_of_parse parsed) located
      (fun below => contains_of_key parsed below entryMember inKey)
      (not_contains_of_key parsed member entryMember inKey)
  rw [List.nil_append] at names
  exact ⟨last, names⟩

/-- A place in the key of an entry belongs to the section of the entry. -/
theorem innermostAt_of_key (parsed : parse catalog text = .ok root)
    (located : (path, current) ∈ root.located [])
    (entryMember : entry ∈ current.entries)
    (inKey : (keySpan text entry).contains position = true) :
    root.innermostAt position = current := by
  rw [Section.innermostAt,
    (chainAt_of_key parsed located entryMember inKey).1, Option.getD_some]

/-- The names of the sections around the key of an entry are those that lead to
its section. -/
theorem pathAt_of_key (parsed : parse catalog text = .ok root)
    (located : (path, current) ∈ root.located [])
    (entryMember : entry ∈ current.entries)
    (inKey : (keySpan text entry).contains position = true) :
    root.pathAt position = path :=
  (chainAt_of_key parsed located entryMember inKey).2

/-- On the line of an entry, every column up to the first `=` belongs to the
section of the entry. -/
theorem pathAt_of_le_equalsColumn (parsed : parse catalog text = .ok root)
    (located : (path, current) ∈ root.located [])
    (entryMember : entry ∈ current.entries) {line : List Char}
    (isLine : (lines text)[entry.position.line]? = some line) {column : Nat}
    (bound : column ≤ equalsColumn line) :
    root.pathAt ⟨entry.position.line, column⟩ = path := by
  have ends :
      keyColumnIn (lines text) entry.position.line = equalsColumn line :=
    keysEnd_keyColumnIn (lines text) _ line isLine
  rw [← ends] at bound
  apply pathAt_of_key parsed located entryMember
  rw [Span.contains_iff]
  exact ⟨Or.inr ⟨rfl, Nat.zero_le column⟩, Or.inr ⟨rfl, bound⟩⟩

end Keys

end CompositorConf.Document
