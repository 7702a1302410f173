import CompositorConf.Catalog.Basic

namespace CompositorConf.Catalog.Standard

def keywords : List KeywordDefinition := [
  { name := "monitor"
    description := "Configures a monitor: `monitor = name, resolution, position, scale`."
    documentFile := "Monitors"
    documentHeading := "general"
    flags := [] },
  { name := "workspace"
    description := "Sets rules for a workspace: `workspace = selector, rules`."
    documentFile := "Workspace-Rules"
    documentHeading := "rules"
    flags := [] },
  { name := "animation"
    description := "Defines an animation: `animation = name, onoff, speed, curve[, " ++
      "style]`."
    documentFile := "Animations"
    documentHeading := "general"
    flags := [] },
  { name := "bezier"
    description := "Defines a bezier curve: `bezier = name, X0, Y0, X1, Y1`."
    documentFile := "Animations"
    documentHeading := "curves"
    flags := [] },
  { name := "windowrule"
    description := "Applies a rule to windows matching a regex: `windowrule = rule, " ++
      "window`."
    documentFile := "Window-Rules"
    documentHeading := "window-rules"
    flags := [] },
  { name := "windowrulev2"
    description := "Applies a rule to windows matching one or more parameters: " ++
      "`windowrulev2 = rule, parameters`."
    documentFile := "Window-Rules"
    documentHeading := "syntax"
    flags := [] },
  { name := "layerrule"
    description := "Applies a rule to layer-shell surfaces: `layerrule = rule, " ++
      "namespace`."
    documentFile := "Window-Rules"
    documentHeading := "layer-rules"
    flags := [] },
  { name := "submap"
    description := "Enters or leaves a keybind submap: `submap = name` (use `reset` to " ++
      "go back)."
    documentFile := "Binds"
    documentHeading := "submaps"
    flags := [] },
  { name := "exec"
    description := "Executes a command on every configuration reload."
    documentFile := "Keywords"
    documentHeading := "executing"
    flags := [] },
  { name := "exec-once"
    description := "Executes a command once, at launch."
    documentFile := "Keywords"
    documentHeading := "executing"
    flags := [] },
  { name := "source"
    description := "Sources another configuration file: `source = path`."
    documentFile := "Keywords"
    documentHeading := "sourcing-multi-file"
    flags := [] },
  { name := "env"
    description := "Sets an environment variable: `env = NAME, value`. The `d` flag also " ++
      "exports it to the D-Bus activation environment."
    documentFile := "Keywords"
    documentHeading := "setting-the-environment"
    flags := ['d'] },
  { name := "bind"
    description := "Binds a key combination to a dispatcher: `bind = MODS, key, " ++
      "dispatcher, params`."
    documentFile := "Binds"
    documentHeading := "basic"
    flags := ['r', 'l', 'e', 'n', 'm', 't', 'i'] },
  { name := "unbind"
    description := "Removes a previously registered keybind: `unbind = MODS, key`."
    documentFile := "Binds"
    documentHeading := "unbind"
    flags := [] }]

end CompositorConf.Catalog.Standard
