import CompositorConf.Document.Parser

namespace CompositorConf

open Text

structure Diagnostic where
  range : Span
  message : String
  deriving DecidableEq, Repr

namespace Diagnostic

def ofError (text : List Char) (error : ParseError) : Diagnostic :=
  let width := ((lineAt text error.line).map utf16Length).getD 0
  ⟨.ofColumns error.line 0 width, error.message⟩

def all (catalog : Catalog) (text : List Char) : List Diagnostic :=
  match Document.parse catalog text with
  | .ok _ => []
  | .error error => [ofError text error]

end Diagnostic

end CompositorConf
