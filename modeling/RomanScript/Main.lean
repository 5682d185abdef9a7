import RomanScript.CommandLine

/-!
The program itself: it finds out what stands at a path, runs the command line, and writes what that
reports.
-/

namespace RomanScript.CommandLine

/-- What stands at a path of the file system. It reports a folder by the number 21; with any other
number something on the way there is no folder, so that the path leads nowhere. -/
def entryAt (path : String) : IO Entry := do
  try
    let bytes ← IO.FS.readBinFile path
    return .file bytes
  catch error =>
    match error with
    | .noFileOrDirectory _ _ _ => return .missing
    | .inappropriateType _ code _ => return if code == 21 then .folder else .missing
    | _ => return .refused

def Crash.message : Crash → String
  | refusedPath => "the path is refused"
  | isFolder => "the path is a folder"
  | notText => "the file is not a text"
  | noTable .unreadable => "the keyword table cannot be read"
  | noTable (.defective defect) => defect.message "keywords.yaml"
  | misuse cause => cause.message

def perform (arguments : List String) : IO UInt32 := do
  let entry ←
    match Request.ofArguments? arguments with
    | some (.run _ _ path) => entryAt path
    | _ => pure .missing
  match run Keyword.Source.usual.load (fun _ => entry) arguments with
  | .usage =>
    IO.eprintln helpLine
    return 2
  | .crashed crash =>
    IO.eprintln crash.message
    return 1
  | .finished report =>
    IO.print report.output
    IO.eprint report.errors
    return report.exitCode.toUInt32

end RomanScript.CommandLine

def main (arguments : List String) : IO UInt32 :=
  RomanScript.CommandLine.perform arguments
