import Clausal.Committee

/-!
# Command line

`committee [path]` writes the committee instance to a file and shows it. No program can be started
from here, so a named solver is reported as one that does not start.
-/

namespace Clausal.CommandLine

/-- The cause of a failed save. -/
def causeOf : IO.Error → FileError
  | .noFileOrDirectory .. => .notFound
  | .permissionDenied .. => .notPermitted
  | .resourceExhausted .. => .noSpace
  | .invalidArgument _ code _ => if code = 36 then .nameTooLong else .nullInPath
  | .inappropriateType _ code _ => if code = 20 then .notDirectory else .isDirectory
  | e => .other (toString e)

/-- Saves a text; the cause if that failed. -/
def save (path : String) (text : List Char) : IO (Option FileError) := do
  try
    IO.FS.writeFile path (String.ofList text)
    return none
  catch e => return some (causeOf e)

/-- The outcome of a call of a program that does not start. -/
def unstarted (program path : String) : Outcome :=
  .failure (.start (Committee.solverFor program path).startMode program)

def report (p : Committee.Prepared) (path : String) (solver : Option String) :
    IO Committee.Report := do
  match ← save path p.text, solver with
  | some e, _ => return p.unsaved e
  | none, none => return p.unsolved path
  | none, some program => return p.solved path (unstarted program path)

end Clausal.CommandLine

open Clausal in
/-- Runs the committee on the given arguments. -/
def main (args : List String) : IO UInt32 := do
  match Committee.prepare with
  | .error v =>
    IO.eprintln v.message
    return 101
  | .ok p =>
    let path := args.headD Committee.defaultPath
    let report ← CommandLine.report p path (← IO.getEnv "SATENC_SOLVER")
    IO.print report.stdout
    IO.eprint report.stderr
    return UInt32.ofNat report.code
