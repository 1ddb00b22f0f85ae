/-!
The arguments of the command line. They are read from left to right, and the first that is wrong or
asks for a text of the program itself decides.
-/
namespace Narrative
namespace CommandLine

/-- What the arguments read so far have given. Nothing is logged, so `verbose` is accepted but changes
no result. -/
structure Invocation where
  script : Option String := none
  config : Option String := none
  verbose : Bool := false
  deriving DecidableEq

inductive Request where
  | run (script : String) (config : Option String) (verbose : Bool)
  | version
  | help
  deriving DecidableEq

inductive UsageError where
  | unknownOption
  | repeatedOption
  | missingValue
  | emptyValue
  | unwantedValue
  | extraArgument
  | missingScript
  deriving DecidableEq

/-- After an argument there are more to read, or the request is settled. -/
inductive Progress where
  | more (i : Invocation)
  | settled (r : Request)
  deriving DecidableEq

namespace Invocation

def withVerbose (i : Invocation) : Except UsageError Invocation :=
  if i.verbose then .error .repeatedOption else .ok { i with verbose := true }

def withConfig (i : Invocation) (path : String) : Except UsageError Invocation :=
  if i.config.isSome then .error .repeatedOption
  else if path = "" then .error .emptyValue
  else .ok { i with config := some path }

def withScript (i : Invocation) (path : String) : Except UsageError Invocation :=
  if i.script.isSome then .error .extraArgument
  else if path = "" then .error .emptyValue
  else .ok { i with script := some path }

def finish (i : Invocation) : Except UsageError Request :=
  match i.script with
  | some script => .ok (.run script i.config i.verbose)
  | none => .error .missingScript

def withShorts (i : Invocation) : List Char → Except UsageError Progress
  | [] => .ok (.more i)
  | 'v' :: cs => do withShorts (← i.withVerbose) cs
  | 'V' :: _ => .ok (.settled .version)
  | 'h' :: _ => .ok (.settled .help)
  | _ => .error .unknownOption

def withLong (i : Invocation) (name : String) (value : Option String) : Except UsageError Progress :=
  match name, value with
  | "config", some path => do pure (.more (← i.withConfig path))
  | "config", none => .error .missingValue
  | "verbose", none => do pure (.more (← i.withVerbose))
  | "version", none => .ok (.settled .version)
  | "help", none => .ok (.settled .help)
  | "verbose", some _ | "version", some _ | "help", some _ => .error .unwantedValue
  | _, _ => .error .unknownOption

/-- An argument that is read alone. A single dash is no option. -/
def withArgument (i : Invocation) (arg : String) : Except UsageError Progress :=
  match arg.toList with
  | '-' :: '-' :: option =>
    let name := String.ofList (option.takeWhile (· != '='))
    match option.dropWhile (· != '=') with
    | [] => i.withLong name none
    | _ :: value => i.withLong name (some (String.ofList value))
  | '-' :: c :: cs => i.withShorts (c :: cs)
  | _ => do pure (.more (← i.withScript arg))

end Invocation

/-- Whether an argument can be the value of the option before it: it looks like no option itself. -/
def isValue (arg : String) : Bool :=
  match arg.toList with
  | ['-'] => true
  | '-' :: _ => false
  | _ => true

/-- Read the arguments that follow. After two dashes there are no more options. -/
def readArguments (i : Invocation) : List String → Except UsageError Request
  | [] => i.finish
  | "--" :: rest => do (← rest.foldlM Invocation.withScript i).finish
  | "--config" :: path :: rest => do
    if isValue path then readArguments (← i.withConfig path) rest else throw .missingValue
  | arg :: rest => do
    match ← i.withArgument arg with
    | .more i => readArguments i rest
    | .settled r => pure r

def Request.ofArguments (args : List String) : Except UsageError Request := readArguments {} args

end CommandLine
end Narrative
