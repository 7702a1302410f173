/-!
# Command-line arguments

A command is `serve`, or `parse` or `check` with a file.  Options stand before or
after the command; an option given after it overrides the same one given before
it, and none may be given twice on either side.  Arguments are read in their
order, and the first that is wrong, or that asks for help or the version, decides.

* `CommandLine.read` reads all arguments;
* `Reading.usage` stands for arguments that cannot be read.
-/

namespace CompositorConf.CommandLine

/-- What is to be done. -/
inductive Command where
  | serve
  | parse (file : String)
  | check (file : String)
  deriving DecidableEq, Repr

/-- The options on one side of the command. -/
structure Options where
  /-- Whether output is JSON, if it is said. -/
  asJson : Option Bool := none
  quiet : Bool := false
  verbose : Bool := false
  logFile : Option String := none
  deriving DecidableEq, Repr

/-- A command with its options. -/
structure Invocation where
  options : Options
  command : Command
  deriving DecidableEq, Repr

/-- What arguments ask for. -/
inductive Reading where
  | invocation (value : Invocation)
  | version
  | help
  /-- The arguments cannot be read. -/
  | usage
  deriving DecidableEq, Repr

namespace Options

/-- Set the form of the output, which is only possible once. -/
def setOutput? (options : Options) (value : String) : Option Options :=
  if options.asJson.isSome then none
  else if value = "text" then some { options with asJson := some false }
  else if value = "json" then some { options with asJson := some true }
  else none

def setLogFile? (options : Options) (path : String) : Option Options :=
  if options.logFile.isSome ∨ path = "" then none
  else some { options with logFile := some path }

def setQuiet? (options : Options) : Option Options :=
  if options.quiet then none else some { options with quiet := true }

def setVerbose? (options : Options) : Option Options :=
  if options.verbose then none else some { options with verbose := true }

/-- The options of both sides together; those after the command count more. -/
def merge (before after : Options) : Options :=
  { asJson := after.asJson.or before.asJson
    quiet := before.quiet || after.quiet
    verbose := before.verbose || after.verbose
    logFile := after.logFile.or before.logFile }

end Options

/-- What an argument is, before its meaning is known. -/
inductive Argument where
  /-- Two hyphens: no options follow. -/
  | terminator
  /-- Two hyphens and a name, with the text after an `=`. -/
  | long (name : String) (value : Option String)
  /-- A hyphen and letters. -/
  | short (letters : List Char)
  | plain (text : String)
  deriving DecidableEq, Repr

/-- Tell the forms of arguments apart.  A single hyphen is plain. -/
def Argument.ofText (text : String) : Argument :=
  match text.toList with
  | ['-', '-'] => .terminator
  | '-' :: '-' :: rest =>
      let name := String.ofList (rest.takeWhile (· ≠ '='))
      match rest.dropWhile (· ≠ '=') with
      | _ :: value => .long name (some (String.ofList value))
      | [] => .long name none
  | '-' :: first :: rest => .short (first :: rest)
  | _ => .plain text

def Argument.isValue : Argument → Bool
  | .plain _ => true
  | _ => false

/-- What reading options came to. -/
inductive OptionOutcome where
  /-- The options so far and the arguments after them.  There are no options if
  the last one was refused the argument that was to be its value; that is only
  found out when more options are read or none follow. -/
  | next (options : Option Options) (rest : List String)
  | stop (reading : Reading)

def OptionOutcome.ofChange (changed : Option Options) (rest : List String) :
    OptionOutcome :=
  match changed with
  | some options => .next (some options) rest
  | none => .stop .usage

def withValue (set : String → Option Options) (value : Option String)
    (rest : List String) : OptionOutcome :=
  match value, rest with
  | some text, _ => .ofChange (set text) rest
  | none, text :: rest =>
      if (Argument.ofText text).isValue then .next (set text) rest
      else .stop .usage
  | none, [] => .stop .usage

/-- Read an option by its long name.  The version is only told before the
command. -/
def readLong (beforeCommand : Bool) (options : Options) (name : String)
    (value : Option String) (rest : List String) : OptionOutcome :=
  match name, value with
  | "output", _ => withValue options.setOutput? value rest
  | "log-file", _ => withValue options.setLogFile? value rest
  | "quiet", none => .ofChange options.setQuiet? rest
  | "verbose", none => .ofChange options.setVerbose? rest
  | "help", none => .stop .help
  | "version", none => .stop (if beforeCommand then .version else .usage)
  | _, _ => .stop .usage

def readShort (beforeCommand : Bool) (options : Options) (rest : List String) :
    List Char → OptionOutcome
  | [] => .next (some options) rest
  | 'v' :: letters =>
      match options.setVerbose? with
      | some options => readShort beforeCommand options rest letters
      | none => .stop .usage
  | 'h' :: _ => .stop .help
  | 'V' :: _ => .stop (if beforeCommand then .version else .usage)
  | _ :: _ => .stop .usage

def readOptions (beforeCommand : Bool) (options : Options) (rest : List String) :
    Argument → OptionOutcome
  | .long name value => readLong beforeCommand options name value rest
  | .short letters => readShort beforeCommand options rest letters
  | _ => .stop .usage

def commandOf? (name : String) (files : List String) : Option Command :=
  match name, files with
  | "serve", [] => some .serve
  | "parse", [file] => if file = "" then none else some (.parse file)
  | "check", [file] => if file = "" then none else some (.check file)
  | _, _ => none

def takesFile (name : String) (files : List String) (file : String) : Bool :=
  (commandOf? name (files ++ [file])).isSome

def commandNames : List String := ["serve", "parse", "check"]

def helpName : String := "help"

def readHelp : List String → Reading
  | [] => .help
  | [topic] =>
      if topic ∈ commandNames ∨ topic = helpName then .help else .usage
  | _ => .usage

def invocationOf (name : String) (before : Option Options) (after : Options)
    (files : List String) : Reading :=
  match before, commandOf? name files with
  | some before, some command => .invocation ⟨before.merge after, command⟩
  | _, _ => .usage

/-- Read the arguments after the command, the first that is wrong or asks for
help being the last; `bound` limits their number. -/
def readAfter (name : String) (before : Option Options) :
    (bound : Nat) → Options → List String → List String → Reading
  | 0, _, _, _ => .usage
  | _ + 1, options, files, [] => invocationOf name before options files
  | bound + 1, options, files, text :: rest =>
      match Argument.ofText text with
      | .terminator => invocationOf name before options (files ++ rest)
      | .plain file =>
          if takesFile name files file then
            readAfter name before bound options (files ++ [file]) rest
          else
            .usage
      | argument =>
          match readOptions false options rest argument with
          | .next (some options) rest =>
              readAfter name before bound options files rest
          | .next none _ => .usage
          | .stop reading => reading

/-- Read the arguments up to the command and all after it; `bound` limits their
number.  Options that were refused do not keep a command from giving help. -/
def readBefore : (bound : Nat) → Option Options → List String → Reading
  | 0, _, _ => .usage
  | _ + 1, _, [] => .usage
  | bound + 1, options, text :: rest =>
      match Argument.ofText text with
      | .terminator => .usage
      | .plain name =>
          if name ∈ commandNames then
            readAfter name options (bound + 1) {} [] rest
          else if name = helpName then
            readHelp rest
          else
            .usage
      | argument =>
          match options with
          | none => .usage
          | some options =>
              match readOptions true options rest argument with
              | .next options rest => readBefore bound options rest
              | .stop reading => reading

def read (arguments : List String) : Reading :=
  readBefore (arguments.length + 1) (some {}) arguments

end CompositorConf.CommandLine
