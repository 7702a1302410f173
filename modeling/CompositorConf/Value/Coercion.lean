import CompositorConf.Value.Basic

/-!
# Re-reading a value as its declared kind

Classification picks the narrowest kind, so a value of another kind may have
been meant: `1` is read as true where a number is declared.  `coerce` gives the
value of the declared kind that the same text stands for, and never changes the
span.
-/

namespace CompositorConf.Value

/-- The content of the declared kind that a text stands for, if it was read as
`data`.  A custom variable is never replaced by its value. -/
def coerceData (declared : ValueKind) (value : Value) (raw : String) :
    Option ValueData :=
  match declared, value.data with
  | _, .custom _ => none
  | .string, .string text => some (.string text)
  | .string, _ => some (.string raw)
  | .integer, .integer number => some (.integer number)
  | .integer, .bool truth =>
      if raw = "0" ∨ raw = "1" then some (.integer (if truth then 1 else 0))
      else none
  | .float, .float number => some (.float number)
  | .float, .bool truth =>
      if raw = "0" ∨ raw = "1" then
        some (.float (Binary.ofInt .single (if truth then 1 else 0)))
      else none
  | .float, .integer number => some (.float (Binary.ofInt .single number))
  | .gradient, .gradient gradient => some (.gradient gradient)
  | .gradient, .color color =>
      some (.gradient ⟨[⟨color, value.span⟩], Binary.zero .single false⟩)
  | .bool, .bool truth => some (.bool truth)
  | .color, .color color => some (.color color)
  | .vec2, .vec2 horizontal vertical => some (.vec2 horizontal vertical)
  | .modmask, .modmask modifiers => some (.modmask modifiers)
  | _, _ => none

def coerce (declared : ValueKind) (value : Value) (raw : String) :
    Option Value :=
  (coerceData declared value raw).map fun data => ⟨data, value.span⟩

end CompositorConf.Value
