import Narrative.CommandLine.Arguments
import Narrative.Script.Run

/-!
The program: it runs a script file on a fresh context and prints what the operations say. Files are
read through a function, so that nothing here depends on where they are.
-/
namespace Narrative
namespace CommandLine

inductive ReadError where
  | notFound
  | isDirectory
  | notDirectory
  | notPermitted
  | notUtf8
  | other (message : String)
  deriving DecidableEq

def ReadError.message : ReadError → String
  | .notFound => "No such file or directory (os error 2)"
  | .isDirectory => "Is a directory (os error 21)"
  | .notDirectory => "Not a directory (os error 20)"
  | .notPermitted => "Permission denied (os error 13)"
  | .notUtf8 => "stream did not contain valid UTF-8"
  | .other message => message

inductive LoadError where
  | reading (path : String) (cause : ReadError)
  | config (cause : Config.Error)
  | script
  deriving DecidableEq

def LoadError.message : LoadError → String
  | .reading path cause => "reading " ++ path ++ ": " ++ cause.message
  | .config cause => cause.message
  -- like a malformed configuration: the reader's own words, which would follow, are left out
  | .script => "invalid script"

structure Result where
  status : Nat
  lines : List String
  report : Option String
  deriving DecidableEq

section Files
variable (read : String → Except ReadError ByteArray)

def readText (path : String) : Except LoadError String :=
  match read path with
  | .error e => .error (.reading path e)
  | .ok bytes =>
    match String.fromUTF8? bytes with
    | some text => .ok text
    | none => .error (.reading path .notUtf8)

def loadConfig : Option String → Except LoadError Config
  | none => .ok {}
  | some path => do (Config.parse (← readText read path)).mapError .config

def loadScript (path : String) : Except LoadError Script := do
  match Script.parse? (← readText read path) with
  | some ops => pure ops
  | none => throw .script

/-- The outcome of a script file. The configuration is read and checked before the script is read. -/
def runFile (script : String) (config : Option String) : Except LoadError Script.Outcome := do
  let config ← loadConfig read config
  let ops ← loadScript read script
  let context ← (Context.ofConfig config).mapError .config
  pure (ops.run context)

end Files

def nameAndVersion : String := "storyvm 0.1.0"

def helpLines : List String :=
  [ "Replay a JSON script of stack operations against a fresh execution context",
    "",
    "Usage: storyvm [OPTIONS] <SCRIPT>",
    "",
    "Arguments:",
    "  <SCRIPT>  Script file: a JSON array of operations",
    "",
    "Options:",
    "      --config <CONFIG>  Stack capacities as JSON (defaults apply to missing fields)",
    "  -v, --verbose          Log snapshot transitions and garbage collection to stderr",
    "  -h, --help             Print help",
    "  -V, --version          Print version" ]

def Result.ofOutcome : Except LoadError Script.Outcome → Result
  | .error e => ⟨1, [], some ("error: " ++ e.message)⟩
  | .ok o =>
    match o.failure with
    | none => ⟨0, o.lines, none⟩
    | some f => ⟨1, o.lines, some ("error: " ++ f.message)⟩

/-- What the program does with its arguments. A usage error has a status of its own. -/
def respond (read : String → Except ReadError ByteArray) (args : List String) : Result :=
  match Request.ofArguments args with
  -- stands for the words on what is wrong with the arguments, and the usage
  | .error _ => ⟨2, [], some "usage"⟩
  | .ok .version => ⟨0, [nameAndVersion], none⟩
  | .ok .help => ⟨0, helpLines, none⟩
  | .ok (.run script config _) => Result.ofOutcome (runFile read script config)

end CommandLine
end Narrative
