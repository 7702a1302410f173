import CompositorConf.Text.AsciiCase

namespace CompositorConf

inductive Modifier where
  | shift
  | caps
  | control
  | alt
  | mod2
  | mod3
  | super
  | mod5
  deriving DecidableEq, Repr

namespace Modifier

/-- Every name of a modifier, in the order in which the names are offered.  They are
compared without ASCII case. -/
def names : List (String × Modifier) :=
  [("SHIFT", .shift), ("CAPS", .caps), ("CONTROL", .control),
    ("CTRL", .control), ("ALT", .alt), ("MOD2", .mod2), ("MOD3", .mod3),
    ("SUPER", .super), ("WIN", .super), ("LOGO", .super), ("MOD4", .super),
    ("MOD5", .mod5)]

def ofName? (name : String) : Option Modifier :=
  (names.find? fun entry => Text.equalIgnoringCase entry.1 name).map (·.2)

def word : Modifier → String
  | .shift => "Shift"
  | .caps => "Caps"
  | .control => "Control"
  | .alt => "Alt"
  | .mod2 => "Mod2"
  | .mod3 => "Mod3"
  | .super => "Super"
  | .mod5 => "Mod5"

end Modifier

end CompositorConf
