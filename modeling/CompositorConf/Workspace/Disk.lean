namespace CompositorConf

/-- Why a file cannot be read. -/
inductive DiskError where
  | notFound
  | isDirectory
  | notUtf8
  /-- Any other reason, in the words of the system. -/
  | other (text : String)
  deriving DecidableEq, Repr

def DiskError.message : DiskError → String
  | .notFound => "No such file or directory (os error 2)"
  | .isDirectory => "Is a directory (os error 21)"
  | .notUtf8 => "stream did not contain valid UTF-8"
  | .other text => text

abbrev Disk := String → Except DiskError ByteArray

def Disk.readText (disk : Disk) (path : String) : Except DiskError String :=
  match disk path with
  | .error reason => .error reason
  | .ok bytes =>
      match String.fromUTF8? bytes with
      | some text => .ok text
      | none => .error .notUtf8

end CompositorConf
