import CompositorConf.Number.Binary

/-!
# JSON values

A value keeps the members of an object in the order in which they were written,
with one value for each name.  A number is an integer, a binary number of 64 bits,
or one of 32 bits that has yet to be written.

Records are read from a value by `Json.record?`: from an object by the names of
its members, or from an array by position.  `Json.depth` tells how far a value is
nested.
-/

namespace CompositorConf

inductive Json where
  | null
  | bool (value : Bool)
  | integer (value : Int)
  | double (value : Binary64)
  | single (value : Binary32)
  | string (value : String)
  | array (elements : List Json)
  | object (members : List (String × Json))
  deriving Repr, Inhabited

namespace Json

def member? (value : Json) (name : String) : Option Json :=
  match value with
  | .object members => members.lookup name
  | _ => none

def ofNat (value : Nat) : Json :=
  .integer value

def objectOf (members : List (String × Option Json)) : Json :=
  .object (members.filterMap fun entry =>
    entry.2.map fun value => (entry.1, value))

def string? : Json → Option String
  | .string value => some value
  | _ => none

def elements? : Json → Option (List Json)
  | .array elements => some elements
  | _ => none

def nat32? : Json → Option Nat
  | .integer value =>
      if 0 ≤ value ∧ value < 0x100000000 then some value.toNat else none
  | _ => none

def int32? : Json → Option Int
  | .integer value =>
      if -0x80000000 ≤ value ∧ value < 0x80000000 then some value else none
  | _ => none

/-- A number, taken to the format of 32 bits. -/
def single? : Json → Option Binary32
  | .integer value => some (.ofInt .single value)
  | .double value => some (.convert .single value)
  | .single value => some value
  | _ => none

mutual

/-- How many arrays and objects stand inside each other, the value itself
included. -/
def depth : Json → Nat
  | .array elements => depthAll elements + 1
  | .object members => depthMembers members + 1
  | _ => 0

def depthAll : List Json → Nat
  | [] => 0
  | element :: rest => max (depth element) (depthAll rest)

def depthMembers : List (String × Json) → Nat
  | [] => 0
  | (_, value) :: rest => max (depth value) (depthMembers rest)

end

/-- How a record finds its fields. -/
structure RecordShape where
  /-- The fields in their order. -/
  fields : List String
  /-- How many of the first fields an array must give at the least. -/
  required : Nat

/-- The fields of a record.  An object gives them by name, and its other
members are passed over.  An array gives them by position; it may leave out
trailing fields that are not required, and may not have more elements. -/
def record? (shape : RecordShape) : Json → Option (List (String × Json))
  | .object members => some members
  | .array elements =>
      if shape.required ≤ elements.length ∧
          elements.length ≤ shape.fields.length then
        some (shape.fields.zip elements)
      else
        none
  | _ => none

def required? {Value : Type} (fields : List (String × Json)) (name : String)
    (read : Json → Option Value) : Option Value :=
  (fields.lookup name).bind read

/-- Read a field that may be absent or null; nothing at all if it is there and
cannot be read. -/
def optional? {Value : Type} (fields : List (String × Json)) (name : String)
    (read : Json → Option Value) : Option (Option Value) :=
  match fields.lookup name with
  | none | some .null => some none
  | some value => (read value).map some

end Json

end CompositorConf
