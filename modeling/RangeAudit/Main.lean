import RangeAudit.Command.Analysis
import RangeAudit.Command.Report
import RangeAudit.Detector
import RangeAudit.Json.Reader
import RangeAudit.Report.Plain

namespace RangeAudit

def usage : String :=
  "usage: range-audit (tally | numbered) FILE [--json FILE] [--summary] [--debug]\n" ++
  "       range-audit detect CHECK FILE\n" ++
  "       range-audit report --report FILE [--no-interval] [--only-summary]"

/-- What stands under a path, as a folder with that one entry. -/
def folderAt (path : String) : IO Folder := do
  try
    return ⟨[(path, ← IO.FS.readFile path)], []⟩
  catch
    | .noFileOrDirectory .. => return .empty
    | _ => return ⟨[], [path]⟩

def compile (path : String) : IO Compilation := do
  match (← folderAt path).entry path with
  | .absent => return .failed (Failure.noSuchFile path).message
  | .directory => return .failed (Failure.isDirectory path).message
  | .file text =>
    match Json.parse text >>= CompilationUnit.ofJson none with
    | .ok u => return .wrapped u
    | .error f => return .failed (f.message ++ ": " ++ path)

def speak (t : Transcript) : IO Unit := do
  t.log.forM fun e => IO.eprintln e.text
  IO.print t.output

def refuse (r : Refusal) : IO UInt32 := do
  if r = .help then IO.println usage else IO.eprintln usage
  return r.exitCode.toUInt32

def runAnalysis (command : Compilation → List String → Except Refusal Outcome)
    (args : List String) : IO UInt32 := do
  match Command.readArgs args with
  | .error r => refuse r
  | .ok a =>
    match command (← compile a.path) args with
    | .error r => refuse r
    | .ok outcome =>
      speak outcome.journal.transcript
      IO.eprint outcome.journal.errorOutput
      outcome.journal.files.forM fun (name, text) => IO.FS.writeFile name text
      return outcome.exitCode.toUInt32

def screenWidth : Int := 80

def runReport (args : List String) : IO UInt32 := do
  let path := ((Report.grammar.parse args).toOption.bind (·.value? "report")).getD ""
  match Report.command .plain (← folderAt path) screenWidth args with
  | .error r => refuse r
  | .ok shown =>
    shown.drawing.lines.forM IO.println
    match shown.exit with
    | .ok code => return code.toUInt32
    | .error f =>
      IO.eprintln f.message
      return 1

def runDetector (check path : String) : IO UInt32 := do
  match Detector.ofCheck? check, ← compile path with
  | some d, .wrapped u =>
    match (d.detect .ofInsertion u).run .empty with
    | .ok findings t =>
      speak t
      findings.forM fun x => IO.print x.description
      return 0
    | .error f t =>
      speak t
      IO.eprintln f.message
      return 1
  | none, _ => refuse .misuse
  | _, .failed message =>
    IO.eprintln message
    return 1
  | _, _ => return 1

def run : List String → IO UInt32
  | "tally" :: args => runAnalysis Command.tally args
  | "numbered" :: args => runAnalysis Command.numbered args
  | "report" :: args => runReport args
  | ["detect", check, path] => runDetector check path
  | ["--help"] => refuse .help
  | _ => refuse .misuse

end RangeAudit

def main (args : List String) : IO UInt32 :=
  RangeAudit.run args
