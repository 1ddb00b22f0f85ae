import Narrative.CommandLine.Program

/-!
The program: it reads the files named on the command line and prints what the run of the script gives.
-/
namespace Narrative

/-- Why opening or reading a file failed. -/
def readErrorOf : IO.Error → CommandLine.ReadError
  | .noFileOrDirectory .. => .notFound
  | .inappropriateType _ 20 _ => .notDirectory
  | .inappropriateType .. => .isDirectory
  | .permissionDenied .. => .notPermitted
  | e => .other (toString e)

def readBytes (path : String) : IO (Except CommandLine.ReadError ByteArray) := do
  try pure (.ok (← IO.FS.readBinFile path))
  catch e => pure (.error (readErrorOf e))

end Narrative

open Narrative in
def main (args : List String) : IO UInt32 := do
  let wanted := match CommandLine.Request.ofArguments args with
    | .ok (.run script config _) => script :: config.toList
    | _ => []
  let files ← wanted.mapM fun path => do pure (path, ← readBytes path)
  let read (path : String) := (files.lookup path).getD (.error .notFound)
  let result := CommandLine.respond read args
  for line in result.lines do IO.println line
  if let some report := result.report then IO.eprintln report
  pure result.status.toUInt32
