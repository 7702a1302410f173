import CompositorConf.Server.Opening.Abilities
import CompositorConf.Server.Request

/-!
# The opening request

A session begins with a request that tells the server about its client.  Of its
parameters only the settings are used; all of them must be well formed.

* `Opening.shape` is the shape of the parameters;
* `Opening.settings?` reads the settings.
-/

namespace CompositorConf.Opening

open Json Json.Shape

def uri : Shape :=
  .leaf fun value => (Params.uri? value).isSome

def token : Shape :=
  .leaf fun value => (RequestId.ofJson? value).isSome

def folder : Shape :=
  .record true [("uri", .required, uri), ("name", .required, .string)]

def client : Shape :=
  .record true [("name", .required, .string), ("version", .nullable, .string)]

def settingsName : String := "initializationOptions"

/-- The parameters of the opening request, which cannot be given by
position. -/
def shape : Shape :=
  .record false [
    ("processId", .nullable, .nat32),
    ("rootPath", .nullable, .string),
    ("rootUri", .nullable, uri),
    (settingsName, .nullable, .any),
    ("capabilities", .required, Abilities.shape),
    ("trace", .nullable, .word ["off", "messages", "verbose"]),
    ("workspaceFolders", .nullable, .list folder),
    ("clientInfo", .nullable, client),
    ("locale", .nullable, .string),
    (Params.workToken, .nullable, token)]

def settings? (params : Json) : Option Settings :=
  if shape.accepts params then some (.ofJson (params.member? settingsName))
  else none

end CompositorConf.Opening
