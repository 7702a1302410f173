import CompositorConf.Json.Basic
import CompositorConf.Workspace.Uri

/-!
# Settings

A client may name files that are left alone.  Settings come as a JSON value,
either bare or as the member `hyprls` of an object.  A value that cannot be read
gives the defaults, as does no value at all.
-/

namespace CompositorConf

/-- What a client can set. -/
structure Settings where
  /-- Names of files that get no answers. -/
  ignore : List String := ["hyprlock.conf", "hypridle.conf"]
  deriving DecidableEq, Repr

namespace Settings

def scope : String := "hyprls"

/-- Settings as a record: its only field may be left out. -/
def shape : Json.RecordShape := ⟨["ignore"], 0⟩

def names? (value : Json) : Option (List String) :=
  value.elements?.bind fun elements => elements.mapM Json.string?

def ofRecord? (value : Json) : Option Settings := do
  let fields ← value.record? shape
  match fields.lookup "ignore" with
  | some names => return { ignore := ← names? names }
  | none => return {}

def ofJson : Option Json → Settings
  | none => {}
  | some value => (ofRecord? ((value.member? scope).getD value)).getD {}

def ignores (settings : Settings) (path : String) : Bool :=
  match fileName? path with
  | some name => name ∈ settings.ignore
  | none => false

end Settings

end CompositorConf
