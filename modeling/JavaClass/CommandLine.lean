/-
  The command line.

  The arguments are options and one class name, in any order:

    * `-c` or `--classpath` takes a value, the class path to look in, `.` without it;
    * `--constants` asks for the constant pool;
    * `-m` or `--method` takes a value, the name of the methods to show;
    * `--` ends the options: what follows is taken as it is.

  A value stands in the next argument or is attached: to a short option directly or behind `=`, to
  a long one behind `=`.  A next argument that looks like an option is never taken as a value.
-/
import JavaClass.ClassFile.Disassembly
import JavaClass.ClassPath.Loader

namespace JavaClass.CommandLine

/-- What the program is asked to show. -/
structure Request where
  /-- The text of the class path to look in. -/
  classPath : String
  /-- The parts of the class to show. -/
  selection : Selection
  /-- The name of the class, with dots or slashes. -/
  className : String
deriving DecidableEq, Repr

/-- Arguments that make no request. -/
inductive UsageError where
  /-- An option that there is not. -/
  | unknownOption (option : String)
  /-- An option without its value. -/
  | missingValue (option : String)
  /-- An option that takes no value has one. -/
  | unwantedValue (option : String)
  /-- An option is given twice. -/
  | repeated (option : String)
  /-- There is a class name already. -/
  | extraArgument (argument : String)
  /-- There is no class name. -/
  | missingClassName
deriving DecidableEq, Repr

/-- The wording of a failure. -/
def UsageError.message : UsageError → String
  | .unknownOption option => "unknown option: " ++ option
  | .missingValue option => "missing value of option: " ++ option
  | .unwantedValue option => "option takes no value: " ++ option
  | .repeated option => "option given twice: " ++ option
  | .extraArgument argument => "unexpected argument: " ++ argument
  | .missingClassName => "missing class name"

/-- What a command line asks for. -/
inductive Command where
  /-- To show a class. -/
  | disassemble (request : Request)
  /-- To say how the program is used. -/
  | help
  /-- To say which version of the program this is. -/
  | version
deriving DecidableEq, Repr

/-- The options that take a value. -/
inductive ValueOption where
  | classPath
  | method
deriving DecidableEq, Repr

/-- An argument in front of the end of options. -/
inductive Argument where
  | endOfOptions
  | help
  | version
  /-- The option `--constants`. -/
  | constants
  /-- An option that takes a value, with the value if it is attached. -/
  | value (option : ValueOption) (attached : Option String)
  /-- Not an option. -/
  | plain (text : String)
deriving DecidableEq, Repr

/-- Parts a text at the first `=`, which belongs to neither part. -/
def splitAtEquals (text : List Char) : List Char × Option (List Char) :=
  match text.span (· != '=') with
  | (name, _ :: value) => (name, some value)
  | (name, []) => (name, none)

/-- A long option, without the dashes in front. -/
def longOption (text : List Char) : Except UsageError Argument :=
  let (name, attached) := splitAtEquals text
  let attached := attached.map String.ofList
  let flag (argument : Argument) : Except UsageError Argument :=
    match attached with
    | none => .ok argument
    | some _ => .error (.unwantedValue ("--" ++ String.ofList name))
  match String.ofList name with
  | "classpath" => .ok (.value .classPath attached)
  | "method" => .ok (.value .method attached)
  | "constants" => flag .constants
  | "help" => flag .help
  | "version" => flag .version
  | other => .error (.unknownOption ("--" ++ other))

/-- What is attached to a short option: nothing, or a value with or without `=` in front. -/
def attachedToShort : List Char → Option String
  | [] => none
  | '=' :: value => some (String.ofList value)
  | value => some (String.ofList value)

/-- A short option, without the dash in front. -/
def shortOption (letter : Char) (rest : List Char) : Except UsageError Argument :=
  match letter with
  | 'c' => .ok (.value .classPath (attachedToShort rest))
  | 'm' => .ok (.value .method (attachedToShort rest))
  | 'h' => .ok .help
  | 'V' => .ok .version
  | other => .error (.unknownOption (String.ofList ['-', other]))

/-- What an argument is. -/
def Argument.ofString (text : String) : Except UsageError Argument :=
  match text.toList with
  | ['-', '-'] => .ok .endOfOptions
  | '-' :: '-' :: name => longOption name
  | '-' :: letter :: rest => shortOption letter rest
  | _ => .ok (.plain text)

/-- What has been read of a command line. -/
structure State where
  classPath : Option String := none
  constants : Bool := false
  method : Option String := none
  className : Option String := none

/-- Takes the class name. -/
def State.withClassName (s : State) (name : String) : Except UsageError State :=
  match s.className with
  | none => .ok { s with className := some name }
  | some _ => .error (.extraArgument name)

/-- Takes the value of an option. -/
def State.withValue (s : State) (option : ValueOption) (value : String) :
    Except UsageError State :=
  match option with
  | .classPath =>
    if s.classPath.isSome then .error (.repeated "--classpath")
    else .ok { s with classPath := some value }
  | .method =>
    if s.method.isSome then .error (.repeated "--method")
    else .ok { s with method := some value }

/-- Takes the option `--constants`. -/
def State.withConstants (s : State) : Except UsageError State :=
  if s.constants then .error (.repeated "--constants") else .ok { s with constants := true }

/-- The request that has been read. -/
def State.finish (s : State) : Except UsageError Command :=
  match s.className with
  | none => .error .missingClassName
  | some className =>
    .ok (.disassemble {
      classPath := s.classPath.getD "."
      selection := { constants := s.constants, method := s.method }
      className })

/-- The name of an option that takes a value. -/
def ValueOption.name : ValueOption → String
  | .classPath => "--classpath"
  | .method => "--method"

/-- Reads the arguments after what has been read. -/
def parseAfter (s : State) : List String → Except UsageError Command
  | [] => s.finish
  | text :: rest => do
    match ← Argument.ofString text with
    | .endOfOptions => (← rest.foldlM State.withClassName s).finish
    | .help => return .help
    | .version => return .version
    | .constants => parseAfter (← s.withConstants) rest
    | .plain name => parseAfter (← s.withClassName name) rest
    | .value option (some value) => parseAfter (← s.withValue option value) rest
    | .value option none =>
      match rest with
      | [] => throw (.missingValue option.name)
      | next :: rest =>
        match ← Argument.ofString next with
        | .plain value => parseAfter (← s.withValue option value) rest
        | _ => throw (.missingValue option.name)

/-- What a command line asks for. -/
def parse (arguments : List String) : Except UsageError Command := parseAfter {} arguments

/-! ## Answering a request -/

/-- The wording of a failure to load the class that was asked for. -/
def loadFailure (className : String) : LoadError → String
  | .classNotFound name => "class not found: " ++ name
  | error => "cannot load " ++ className ++ ": " ++ error.message

/-- The text that a request asks for, or why there is none. -/
def answer (fs : FileSystem) (request : Request) : Except String String := do
  let path ← (ClassPath.parse fs request.classPath).mapError LoadError.message
  let classFile ← (path.load request.className).mapError (loadFailure request.className)
  (classFile.disassemble request.selection).mapError ReadError.message

/-- What a run of the program leaves behind.  A log is not part of it: its records may reach the
    error output as well, around the text that stands here. -/
structure Outcome where
  exitCode : UInt8
  /-- The whole of the standard output. -/
  stdout : String
  /-- The report of a failure, which is what the program itself writes to the error output. -/
  stderr : String
deriving DecidableEq, Repr

/-- The help text. -/
def usage : String :=
  "Shows a class and the instructions of its methods.\n\n" ++
  "Usage: javaclass [OPTIONS] <CLASS_NAME>\n\n" ++
  "Arguments:\n" ++
  "  <CLASS_NAME>\n\n" ++
  "Options:\n" ++
  "  -c, --classpath <CLASSPATH>  directories to look in, parted by colons [default: .]\n" ++
  "      --constants              list the constant pool\n" ++
  "  -m, --method <METHOD>        show the methods of this name only\n" ++
  "  -h, --help                   print this help\n" ++
  "  -V, --version                print the version\n"

/-- Runs the program: a request is answered or fails with exit code 1, and arguments that make no
    request are an error of usage with exit code 2. -/
def run (fs : FileSystem) (arguments : List String) : Outcome :=
  match parse arguments with
  | .error error =>
    { exitCode := 2, stdout := "", stderr := "error: " ++ error.message ++ "\n\n" ++ usage }
  | .ok .help => { exitCode := 0, stdout := usage, stderr := "" }
  | .ok .version => { exitCode := 0, stdout := "javaclass 0.1.0\n", stderr := "" }
  | .ok (.disassemble request) =>
    match answer fs request with
    | .ok text => { exitCode := 0, stdout := text, stderr := "" }
    | .error message => { exitCode := 1, stdout := "", stderr := message ++ "\n" }

end JavaClass.CommandLine
