import RangeAudit.Arguments
import RangeAudit.Command.Journal
import RangeAudit.Json.Writer
import RangeAudit.Listing
import RangeAudit.Results

namespace RangeAudit

namespace CompilationUnit

def results (u : CompilationUnit) (isSummary : Bool) : Except Failure Results := do
  if isSummary then return .summaries (← u.summaryTexts) else return .records (← u.records)

end CompilationUnit

namespace Compilation

/-- The first of several units; a result that is a unit itself calls for a warning. -/
def anyUnit (warning : String) : Compilation → Command CompilationUnit
  | wrapped u | listed u _ => return u
  | bare u => do
    Command.note .warning warning
    return u
  | failed message => throw (.reported message)

def singleUnit : Compilation → Command CompilationUnit
  | wrapped u | bare u => return u
  | listed _ _ => throw (.missing "Slither" "contracts_derived")
  | failed message => throw (.reported message)

end Compilation

namespace Command

def analysisGrammar (operand : String) : Grammar where
  options := [.help, ⟨"json", ["--json"], true⟩, ⟨"summary", ["--summary"], false⟩,
    ⟨"debug", ["--debug"], false⟩, ⟨"solc-remaps", ["--solc-remaps"], true⟩]
  operand? := some operand
  required := []

structure AnalysisArgs where
  path : String
  output? : Option String
  remaps? : Option String
  isSummary : Bool
  deriving DecidableEq, Repr

def AnalysisArgs.ofGiven (g : Given) (operand : String) : AnalysisArgs where
  path := (g.value? operand).getD ""
  output? := (g.value? "json").filter (· != "")
  remaps? := (g.value? "solc-remaps").filter (· != "")
  isSummary := g.hasFlag "summary"

def readArgs (args : List String) : Except Refusal AnalysisArgs := do
  return .ofGiven (← (analysisGrammar "file").parse args) "file"

def remapList (remaps? : Option String) : List String :=
  (remaps?.map (Text.split ';')).getD []

/-- Path mappings as a table, from pairs divided by commas; the index counts the pairs before. -/
def remapPairs (index : Nat) (table : List (String × String)) :
    List String → Except Failure (List (String × String))
  | [] => .ok table
  | part :: rest =>
    match Text.split '=' part with
    | [source, target] => remapPairs (index + 1) (insertKeyed source target table) rest
    | sides => .error (.notAPair index sides.length)

def remapTable : Option String → Except Failure (List (String × String))
  | none => .ok []
  | some text => remapPairs 0 [] (Text.split ',' text)

def tallyBody (compiled : Compilation) (a : AnalysisArgs) : Command Unit := do
  note .info ("分析文件: " ++ a.path)
  call a.path (.list (remapList a.remaps?))
  let u ← compiled.anyUnit "无法获取compilation_unit，尝试使用slither对象"
  let results ← ofExcept (u.results false)
  match a.output? with
  | some path =>
    save path results.toJson.pretty
    say ("分析结果已保存到: " ++ path)
  | none => report (Listing.tally false a.isSummary results.toJson)

def numberedBody (compiled : Compilation) (a : AnalysisArgs) : Command Unit := do
  note .info ("分析文件: " ++ a.path)
  let table ← ofExcept (remapTable a.remaps?)
  call a.path (.table table)
  let u ← compiled.singleUnit
  let results ← ofExcept (u.results a.isSummary)
  report (Listing.numbered a.isSummary results.toJson)
  match a.output? with
  | some path =>
    save path results.toJson.pretty
    note .info ("结果已保存到: " ++ path)
  | none => pure ()

def tellFailure (f : Failure) : Command Unit :=
  note .error ("分析过程中出错: " ++ f.message)

def tally (compiled : Compilation) (args : List String) : Except Refusal Outcome := do
  let a ← readArgs args
  return (tallyBody compiled a).finish fun f => complain ("错误: " ++ f.message)

def numbered (compiled : Compilation) (args : List String) : Except Refusal Outcome := do
  let a ← readArgs args
  return (numberedBody compiled a).finish tellFailure

def withoutCompiler : Outcome :=
  ⟨1, { Journal.empty with
    transcript := Transcript.empty.say "无法导入Slither或区间分析模块。请确保正确安装。" }⟩

def fileBody (compiled : Compilation) (path : String) (output? : Option String) (isSummary : Bool) :
    Command Results := do
  call path .unset
  let u ← compiled.anyUnit "无法获取compilation_unit，尝试使用slither对象代替"
  let results ← ofExcept (u.results isSummary)
  match output?.filter (· != "") with
  | some file =>
    save file results.toJson.pretty
    note .info ("分析结果已保存到: " ++ file)
  | none => pure ()
  return results

/-- The results of a file and the journal. A failure is logged and leaves no results. -/
def analyseFile (compiled : Compilation) (path : String) (output? : Option String)
    (isSummary : Bool) : Option Results × Journal :=
  match fileBody compiled path output? isSummary .empty with
  | .ok results j => (some results, j)
  | .error f j =>
    match tellFailure f j with
    | .ok _ j | .error _ j => (none, j)

end Command

end RangeAudit
