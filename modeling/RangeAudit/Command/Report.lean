import RangeAudit.Arguments
import RangeAudit.Folder
import RangeAudit.Json.Reader
import RangeAudit.Report

namespace RangeAudit.Report

def grammar : Grammar where
  options := [.help, ⟨"report", ["--report", "-r"], true⟩,
    ⟨"no-interval", ["--no-interval"], false⟩, ⟨"only-summary", ["--only-summary"], false⟩]
  operand? := none
  required := ["report"]

/-- What is drawn, how the command ends, and whether the screen was cleared before. -/
structure Showing where
  drawing : Drawing
  exit : Except Failure Nat
  isCleared : Bool

def refuse (console : Console) (message : String) : Showing :=
  match Section.line (styled "red" ("错误: " ++ message)) console [] with
  | .ok _ drawing => ⟨drawing, .ok 1, false⟩
  | .error f drawing => ⟨drawing, .error f, false⟩

def sections (width : Int) (path : String) (g : Given) (data : Json) : Section Unit := do
  header width path data
  summary width data
  if !g.hasFlag "only-summary" then
    findings width data
    if !g.hasFlag "no-interval" then
      intervals width (arranged data)

def showText (console : Console) (width : Int) (path : String) (g : Given) (text : String) :
    Showing :=
  match Json.parse text with
  | .error .malformed => refuse console ("无法解析JSON文件 '" ++ path ++ "'")
  | .error f => refuse console ("读取文件时出错: " ++ f.message)
  | .ok data =>
    match sections width path g data console [] with
    | .ok _ drawing => ⟨drawing, .ok 0, true⟩
    | .error f drawing => ⟨drawing, .error f, true⟩

def showPath (console : Console) (folder : Folder) (width : Int) (path : String) (g : Given) :
    Showing :=
  match folder.entry path with
  | .absent => refuse console ("找不到报告文件 '" ++ path ++ "'")
  | .directory => refuse console ("读取文件时出错: " ++ (Failure.isDirectory path).message)
  | .file text => showText console width path g text

def command (console : Console) (folder : Folder) (width : Int) (args : List String) :
    Except Refusal Showing := do
  let g ← grammar.parse args
  return match g.value? "report" with
  | some path => showPath console folder width path g
  | none => ⟨[], .error .noPath, false⟩

def withoutDrawing : List String :=
  ["错误: 未找到必要的依赖库 'rich'", "请通过以下命令安装: pip install rich"]

end RangeAudit.Report
