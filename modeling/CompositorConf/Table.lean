/-!
# Tables

A table holds at most one value for each name, in the order in which the names
were first given.  `get?` is the view by which the operations are described:
`get?_insert` and `get?_erase` say what each of them changes.
-/

namespace CompositorConf

/-- Named values, one for each name. -/
structure Table (Value : Type) where
  entries : List (String × Value)
  deriving Repr, DecidableEq

namespace Table

variable {Value : Type}

/-- The table without entries. -/
def empty : Table Value := ⟨[]⟩

def get? (table : Table Value) (name : String) : Option Value :=
  table.entries.lookup name

/-- Put a value in the place of the first entry of a name, or after all
entries. -/
def put (name : String) (value : Value) :
    List (String × Value) → List (String × Value)
  | [] => [(name, value)]
  | entry :: rest =>
      if entry.1 = name then (name, value) :: rest
      else entry :: put name value rest

def insert (table : Table Value) (name : String) (value : Value) :
    Table Value :=
  ⟨put name value table.entries⟩

def erase (table : Table Value) (name : String) : Table Value :=
  ⟨table.entries.filter fun entry => entry.1 ≠ name⟩

def size (table : Table Value) : Nat :=
  table.entries.length

/-- The names, in the order in which they were first given. -/
def names (table : Table Value) : List String :=
  table.entries.map (·.1)

@[simp] theorem get?_empty (name : String) :
    (empty : Table Value).get? name = none :=
  rfl

private theorem lookup_put (name : String) (value : Value) (sought : String)
    (entries : List (String × Value)) :
    (put name value entries).lookup sought =
      if sought = name then some value else entries.lookup sought := by
  induction entries with
  | nil =>
      by_cases same : sought = name
      · simp [put, same]
      · have different : (sought == name) = false := by simpa using same
        simp [put, List.lookup_cons, same, different]
  | cons entry rest inductionHypothesis =>
      obtain ⟨key, stored⟩ := entry
      by_cases here : key = name
      · subst here
        by_cases same : sought = key
        · simp [put, same]
        · have different : (sought == key) = false := by simpa using same
          simp [put, List.lookup_cons, same, different]
      · by_cases same : sought = key
        · subst same
          simp [put, here]
        · have different : (sought == key) = false := by simpa using same
          simp [put, List.lookup_cons, here, inductionHypothesis, different]

/-- After an insertion, the name has the new value and every other name the
value it had. -/
theorem get?_insert (table : Table Value) (name : String) (value : Value)
    (sought : String) :
    (table.insert name value).get? sought =
      if sought = name then some value else table.get? sought :=
  lookup_put name value sought table.entries

private theorem lookup_filter (name sought : String)
    (entries : List (String × Value)) :
    (entries.filter fun entry => entry.1 ≠ name).lookup sought =
      if sought = name then none else entries.lookup sought := by
  induction entries with
  | nil => simp
  | cons entry rest inductionHypothesis =>
      obtain ⟨key, stored⟩ := entry
      by_cases here : key = name
      · subst here
        by_cases same : sought = key
        · simpa [same] using inductionHypothesis
        · have different : (sought == key) = false := by simpa using same
          simpa [List.lookup_cons, same, different] using inductionHypothesis
      · by_cases same : sought = key
        · subst same
          simp [here]
        · have different : (sought == key) = false := by simpa using same
          simpa [List.lookup_cons, here, different] using inductionHypothesis

/-- After an erasure, the name has no value and every other name the value it
had. -/
theorem get?_erase (table : Table Value) (name sought : String) :
    (table.erase name).get? sought =
      if sought = name then none else table.get? sought :=
  lookup_filter name sought table.entries

end Table

end CompositorConf
