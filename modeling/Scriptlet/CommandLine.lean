import Scriptlet.Toolchain

/-! # The command line

Arguments ask for help, for the version, or for a source text to be compiled or run. What the program
then writes and its exit status follow from the request and from the source text alone.
-/

namespace Scriptlet.CommandLine

/-- Where the source text comes from. -/
inductive Input where
  | file (path : String)
  | inline (source : String)
deriving DecidableEq, Repr

/-- What is to be done with a source text. -/
structure Options where
  input : Input
  config : Config
  run : Bool
deriving DecidableEq, Repr

/-- What the arguments ask for. -/
inductive Request where
  | help
  | version
  | process (options : Options)
deriving DecidableEq, Repr

/-- Why the arguments make no sense. -/
inductive UsageError where
  | targetMissing
  | unknownTarget (name : String)
  | sourceMissing
  | secondInput
  | unknownOption (arg : String)
  | noInput
deriving DecidableEq, Repr

/-- The wording of a usage error. -/
def UsageError.message : UsageError → String
  | targetMissing => "--target requires a value"
  | unknownTarget name => Target.unknownMessage name
  | sourceMissing => "-e requires a source argument"
  | secondInput => "Only one input can be specified"
  | unknownOption arg => "Unknown option: " ++ arg
  | noInput => "No input given"

/-- What the arguments have said so far. -/
structure Seen where
  input : Option Input := none
  config : Config := {}
  run : Bool := false
deriving DecidableEq, Repr

/-- Notes the source text, of which there is only one. -/
def Seen.setInput (seen : Seen) (input : Input) : Except UsageError Seen :=
  match seen.input with
  | some _ => .error .secondInput
  | none => .ok { seen with input := some input }

/-- Reads arguments from left to right, after those that have been `seen`. Help and version are given
at once, whatever follows. -/
def parseFrom (seen : Seen) : List String → Except UsageError Request
  | [] =>
      match seen.input with
      | some input => .ok (.process { input, config := seen.config, run := seen.run })
      | none => .error .noInput
  | "--help" :: _ | "-h" :: _ => .ok .help
  | "--version" :: _ | "-v" :: _ => .ok .version
  | "--pratt" :: rest =>
      parseFrom { seen with config := { seen.config with strategy := .climbing } } rest
  | "--run" :: rest => parseFrom { seen with run := true } rest
  | "--check" :: rest => parseFrom { seen with config := { seen.config with check := true } } rest
  | "--verbose" :: rest => parseFrom seen rest
  | "--target" :: [] => .error .targetMissing
  | "--target" :: name :: rest =>
      match Target.ofName? name with
      | some target => parseFrom { seen with config := { seen.config with target } } rest
      | none => .error (.unknownTarget name)
  | "-e" :: [] => .error .sourceMissing
  | "-e" :: source :: rest => do
      parseFrom (← seen.setInput (.inline source)) rest
  | arg :: rest => do
      -- an unknown option is not taken for a file
      if arg.startsWith "-" then throw (.unknownOption arg)
      parseFrom (← seen.setInput (.file arg)) rest

/-- What a list of arguments asks for. -/
def parse (args : List String) : Except UsageError Request :=
  parseFrom {} args

/-- Why a file could not be read. -/
inductive ReadError where
  | notFound
  | notText
  | other (cause : String)
deriving DecidableEq, Repr

/-- The wording of a read error. -/
def ReadError.message : ReadError → String
  | notFound => "No such file or directory (os error 2)"
  | notText => "stream did not contain valid UTF-8"
  | other cause => cause

/-- What a run of the program writes, and its exit status. -/
structure Outcome where
  exit : Nat
  stdout : ByteArray
  stderr : String

/-- Lines of text, each with its line end. -/
def unlines (lines : List String) : String :=
  String.join (lines.map (· ++ "\n"))

/-- The version of the program. -/
def version : String := "0.4.0"

/-- The usage text. -/
def usage : String :=
  unlines [
    "Retroscript " ++ version ++ " - retargetable script compiler",
    "",
    "Usage: retroscript [options] <script.rts>",
    "       retroscript [options] -e <source>",
    "",
    "Options:",
    "  -e <source>      Compile source given on the command line",
    "  --pratt          Parse a single expression with the Pratt parser",
    "  --target <a|b>   Bytecode target (default: b)",
    "  --run            Run on the interpreter instead of compiling",
    "  --check          Interpret before compiling, failing on runtime errors",
    "  --verbose        Log pipeline stages (also: RETROSCRIPT_LOG=debug)",
    "  --version        Show version",
    "  --help, -h       Show this help message",
    "",
    "Examples:",
    "  retroscript script.rts                Print Target-B disassembly",
    "  retroscript --target a script.rts     Print Target-A disassembly",
    "  retroscript --run script.rts          Run a script",
    "  retroscript --pratt -e '1 + 2 * 3'    Compile one expression"]

/-- The messages for an error: one for each error of a batch. -/
def errorLines : CompileError → List String
  | .lexical es => es.map fun e => "Error: " ++ e.message
  | .syntactic es => es.map fun e => "Error: " ++ e.message
  | e => ["Error: " ++ e.message]

/-- The exit status for an error. -/
def exitStatus : CompileError → Nat
  | .lexical _ | .syntactic _ => 65
  | .runtime _ | .codegen _ | .disassembly _ => 70

/-- The outcome after some output and an error. -/
def failed (stdout : ByteArray) (e : CompileError) : Outcome :=
  { exit := exitStatus e, stdout, stderr := unlines (errorLines e) }

/-- The outcome for arguments that make no sense. -/
def misused (e : UsageError) : Outcome :=
  { exit := 64, stdout := .empty, stderr := unlines [e.message] ++ usage }

/-- The outcome for a file that cannot be read. -/
def unreadable (path : String) (e : ReadError) : Outcome :=
  { exit := 66
    stdout := .empty
    stderr := unlines ["Error: could not read '" ++ path ++ "': " ++ e.message] }

/-- The outcome for a chunk: a heading and its listing. -/
def listed (target : Target) (c : Chunk) : Outcome :=
  let heading := unlines ["== " ++ target.name ++ " =="]
  match target.disassemble c with
  | .ok lines => { exit := 0, stdout := (heading ++ unlines lines).toUTF8, stderr := "" }
  | .error e => failed heading.toUTF8 (.disassembly e)

/-- Compiles or runs a source text; nothing, if a loop reaches its bound. -/
def Options.process (options : Options) (bound : Nat) (source : String) : Option Outcome :=
  if options.run then
    match options.config.strategy.interpret bound .unlimited source with
    | none => none
    | some (.ok (), sink) => some { exit := 0, stdout := sink.bytes, stderr := "" }
    | some (.error e, sink) => some (failed sink.bytes e)
  else
    match options.config.compile bound source with
    | none => none
    | some (.ok c) => some (listed options.config.target c)
    | some (.error e) => some (failed .empty e)

/-- The outcome of a request, given what reading a file gives. -/
def Request.outcome (request : Request) (bound : Nat)
    (read : String → Except ReadError String) : Option Outcome :=
  match request with
  | help => some { exit := 0, stdout := .empty, stderr := usage }
  | version => some
      { exit := 0
        stdout := (unlines ["retroscript " ++ CommandLine.version]).toUTF8
        stderr := "" }
  | process options =>
      match options.input with
      | .inline source => options.process bound source
      | .file path =>
          match read path with
          | .ok source => options.process bound source
          | .error e => some (unreadable path e)

/-- The outcome of a list of arguments, given what reading a file gives. -/
def outcome (bound : Nat) (read : String → Except ReadError String) (args : List String) :
    Option Outcome :=
  match parse args with
  | .error e => some (misused e)
  | .ok request => request.outcome bound read

end Scriptlet.CommandLine
