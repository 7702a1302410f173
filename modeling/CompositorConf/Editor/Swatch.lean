import CompositorConf.Color.Unit
import CompositorConf.Document.Basic

/-!
# Colour swatches

Editors show a swatch beside every colour literal of an assignment, the stops of
gradients included, and write back the colour that is picked there.
-/

namespace CompositorConf

structure Swatch where
  range : Span
  color : Rgba
  deriving DecidableEq, Repr

namespace Swatch

/-- The channels of a swatch between zero and one, rounded twice: to the format
of 64 bits and then to that of 32. -/
def channels (swatch : Swatch) : Channels Binary32 :=
  swatch.color.toUnit.map (Binary.convert .single)

def ofValue (value : Value) : List Swatch :=
  match value.data with
  | .color color => [⟨value.span, color⟩]
  | .gradient gradient =>
      gradient.stops.map fun stop => ⟨stop.span, stop.color⟩
  | _ => []

/-- The swatches of a document, in the order of its assignments. -/
def all (root : Section) : List Swatch :=
  root.allAssignments.flatMap fun assignment => ofValue assignment.value

def presentation (color : Channels Binary32) : String :=
  String.ofList (UnitColor.literalOf (color.map (Binary.convert .double)))

end Swatch

end CompositorConf
