import CompositorConf.Json.Basic

/-!
# Shapes of JSON values

A shape tells well-formed values from others without reading them into anything
else.

* `Shape.accepts` decides whether a value has a shape;
* a record is an object, or an array that gives the fields in their order;
* `Presence` says when a field may be left out.
-/

namespace CompositorConf.Json

/-- When a field of a record may be left out. -/
inductive Presence where
  /-- Never, and null does not stand for nothing. -/
  | required
  /-- An object may leave it out or give null; an array has to give null. -/
  | nullable
  /-- As before, and an array may end before it. -/
  | omissible
  deriving DecidableEq, Repr

def Presence.admits (presence : Presence) (test : Json → Bool) :
    Option Json → Bool
  | none => presence != .required
  | some .null => presence != .required || test .null
  | some value => test value

/-- A form that a value can have. -/
inductive Shape where
  /-- The values that pass a test. -/
  | leaf (test : Json → Bool)
  /-- Arrays whose elements all have one shape. -/
  | list (element : Shape)
  /-- The values of either of two shapes. -/
  | either (first second : Shape)
  /-- Records with the given fields; other members of an object are passed
  over.  Only a positional record can be an array. -/
  | record (positional : Bool) (fields : List (String × Presence × Shape))

namespace Shape

mutual

def accepts : Shape → Json → Bool
  | .leaf test, value => test value
  | .list element, value =>
      match value with
      | .array elements => elements.all (accepts element)
      | _ => false
  | .either first second, value => accepts first value || accepts second value
  | .record positional fields, value =>
      match value with
      | .object members => acceptsMembers fields members
      | .array elements => positional && acceptsElements fields elements
      | _ => false

def acceptsMembers :
    List (String × Presence × Shape) → List (String × Json) → Bool
  | [], _ => true
  | (name, presence, shape) :: rest, members =>
      presence.admits (accepts shape) (members.lookup name) &&
        acceptsMembers rest members

def acceptsElements : List (String × Presence × Shape) → List Json → Bool
  | [], elements => elements.isEmpty
  | (_, presence, _) :: rest, [] =>
      presence == .omissible && acceptsElements rest []
  | (_, presence, shape) :: rest, element :: elements =>
      presence.admits (accepts shape) (some element) &&
        acceptsElements rest elements

end

def any : Shape :=
  .leaf fun _ => true

def bool : Shape :=
  .leaf fun
    | .bool _ => true
    | _ => false

/-- The value false or true that stands in for another shape. -/
def orBool (shape : Shape) : Shape :=
  .either bool shape

/-- Integers of 32 bits with a sign. -/
def int32 : Shape :=
  .leaf fun value => value.int32?.isSome

def nat32 : Shape :=
  .leaf fun value => value.nat32?.isSome

def string : Shape :=
  .leaf fun value => value.string?.isSome

/-- One of some words: as a string, or as the name of the only member of an
object, whose value is null. -/
def word (words : List String) : Shape :=
  .leaf fun
    | .string text => words.contains text
    | .object [(name, .null)] => words.contains name
    | _ => false

def fieldsOf (presence : Presence) (shape : Shape) (names : List String) :
    List (String × Presence × Shape) :=
  names.map fun name => (name, presence, shape)

end Shape

end CompositorConf.Json
