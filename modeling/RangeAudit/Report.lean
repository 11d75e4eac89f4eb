import RangeAudit.Json.Access
import RangeAudit.Report.Layout

namespace RangeAudit.Report

/-- A part of a report being drawn on a terminal. What was drawn before a failure stays. -/
abbrev Section (α : Type) := ReaderT Console (EStateM Failure Drawing) α

namespace Section

def draw (b : Block) : Section Unit := fun console d =>
  match console.fault? b with
  | some f => .error f d
  | none => .ok () (d ++ [some b])

def line (text : String) : Section Unit :=
  draw (.line text)

def blank : Section Unit :=
  modify (· ++ [none])

def ask {α : Type} : Except Failure α → Section α
  | .ok a => pure a
  | .error f => throw f

def each {α : Type} (drawItem : α → Section Unit) : List α → Section Unit
  | [] => pure ()
  | a :: rest => do drawItem a; each drawItem rest

end Section

open Section

def boundedWidth (width : Int) : Int :=
  min 100 width

def severityColour : String → String
  | "high" => "red"
  | "medium" => "yellow"
  | "low" => "green"
  | "informational" => "blue"
  | "Optimization" => "cyan"
  | _ => "white"

def styled (style text : String) : String :=
  "[" ++ style ++ "]" ++ text ++ "[/" ++ style ++ "]"

/-- The last part of a path; empty parts and single dots do not count. -/
def fileName (path : String) : String :=
  ((Text.split '/' path).filter fun part => part != "" && part != ".").getLast?.getD ""

def header (width : Int) (path : String) (data : Json) : Section Unit := do
  let width := boundedWidth width
  line "\n"
  let title := Block.plain (.str "Slither Enhanced 智能合约审计报告")
    [("style", .text "bold white on blue")]
  draw (.panel title
    [("width", .number width), ("box", .text "DOUBLE"), ("border_style", .text "blue")])
  let summary ← ask (data.field "summary" (.obj []))
  let time ← ask (summary.field "audit_time" (.str "未知"))
  let version ← ask (summary.field "solc_version" (.str "未知"))
  let count ← ask (summary.field "file_count" (.int 0))
  draw (.table [("width", .number width)] [⟨"属性", [("style", .text "cyan")]⟩, ⟨"值", []⟩]
    [[.str "报告文件", .str (fileName path)], [.str "分析时间", time],
      [.str "Solidity版本", version], [.str "分析文件数", .str count.display]])
  line "\n"

def countRow : String × Json → List Json
  | (severity, count) =>
    let status := if severity = "high" ∨ severity = "medium" then "⚠️ 需要修复" else "📝 建议修复"
    [.str (styled (severityColour severity) (Text.capitalize severity)), .str count.display,
      .str status]

def contracts (summary : Json) : Section Unit := do
  if ← ask (summary.holds "contracts") then
    let list ← ask (summary.entry "contracts")
    if list.isPresent then
      line "\n[bold cyan]分析的合约:[/bold cyan]"
      each (fun c => line ("  • " ++ c.display)) (← ask list.elements)

def summary (width : Int) (data : Json) : Section Unit := do
  let summary ← ask (data.field "summary" (.obj []))
  let counts ← ask (summary.field "vulnerabilities" (.obj []))
  if !counts.isPresent then
    line "[yellow]未发现漏洞或者报告格式不正确[/yellow]"
  else
    let rows := (← ask counts.pairs).map countRow
    draw (.table [("title", .text "漏洞摘要"), ("width", .number (boundedWidth width))]
      [⟨"严重程度", [("style", .text "bold")]⟩, ⟨"数量", [("justify", .text "right")]⟩,
        ⟨"状态", [("justify", .text "center")]⟩] rows)
    contracts summary
    line "\n"

def severityRank : String → Nat
  | "high" => 0
  | "medium" => 1
  | "low" => 2
  | "informational" => 3
  | _ => 999

/-- The rank of a finding; one without a severity comes last. -/
def rank (finding : Json) : Except Failure Nat := do
  let severity ← finding.field "severity" (.str "")
  return severityRank (← severity.lowered)

def listed : Json → Except Failure (List Json)
  | .arr items => .ok items
  | j => .error (.missing j.kind "sort")

def ranked : List Json → Except Failure (List (Nat × Json))
  | [] => .ok []
  | finding :: rest => do
    let r ← rank finding
    return (r, finding) :: (← ranked rest)

/-- Findings in the order of their ranks. Findings of one rank keep their order. -/
def bySeverity (findings : List (Nat × Json)) : List Json :=
  (findings.mergeSort fun a b => a.1 ≤ b.1).map (·.2)

def inOrder (list : Json) : Except Failure (List Json) := do
  let items ← listed list
  return bySeverity (← ranked items)

/-- The list of findings is put in order in place, unless one of them has no rank. -/
def arranged : Json → Json
  | .obj fields => .obj (fields.map fun (key, value) =>
      (key, if key = "vulnerabilities" then (inOrder value).toOption.elim value .arr else value))
  | data => data

def placePart (label : String) (value : Json) : String :=
  if value.isPresent then ", " ++ label ++ ": " ++ value.display else ""

def placeLine (place : Json) : Except Failure String := do
  let file ← place.field "file" (.str "未知文件")
  let contract ← place.field "contract" (.str "")
  let function ← place.field "function" (.str "")
  let number ← place.field "line" (.int 0)
  return "  📍 " ++ styled "cyan" (file.display ++ placePart "合约" contract ++
    placePart "函数" function ++ placePart "行" number)

def places (finding : Json) : Section Unit := do
  let list ← ask (finding.field "locations" (.arr []))
  if list.isPresent then
    line "\n[bold]漏洞位置:[/bold]"
    each (fun place => do line (← ask (placeLine place))) (← ask list.elements)

def advice (finding : Json) : Section Unit := do
  let text ← ask (finding.field "recommendation" (.str ""))
  if text.isPresent then
    line "\n[bold]修复建议:[/bold]"
    line ("  🔧 " ++ styled "green" text.display)

def ruler (width : Int) : String :=
  String.ofList (List.replicate width.toNat '-')

def findingPanel (width : Int) (number : Nat) (severity : String) (name description : Json) :
    Block :=
  let colour := severityColour severity
  .panel (.plain description [])
    [("title", .text ("[" ++ toString number ++ "] " ++ styled colour name.display)),
      ("title_align", .text "left"), ("width", .number width), ("border_style", .text colour)]

def finding (width : Int) (item : Json × Nat) : Section Unit := do
  let (finding, number) := item
  let severity ← ask (do (← finding.field "severity" (.str "unknown")).lowered)
  let confidence ← ask (finding.field "confidence" (.str "unknown"))
  let name ← ask (finding.field "name" (.str "未知漏洞"))
  let description ← ask (finding.field "description" (.str "无描述"))
  draw (findingPanel width number severity name description)
  let severityText := styled (severityColour severity) (Text.capitalize severity)
  let confidenceText ← ask confidence.capitalised
  draw (.table [("width", .number (width - 4)), ("box", .text "SIMPLE")]
    [⟨"属性", [("style", .text "cyan"), ("width", .number 12)]⟩, ⟨"值", []⟩]
    [[.str "严重程度", .str severityText], [.str "可信度", .str confidenceText]])
  places finding
  advice finding
  line ("\n" ++ ruler width ++ "\n")

def findings (width : Int) (data : Json) : Section Unit := do
  let width := boundedWidth width
  let list ← ask (data.field "vulnerabilities" (.arr []))
  if !list.isPresent then
    line "[yellow]未发现漏洞[/yellow]"
  else
    draw (.panel (.line "漏洞详情") [("width", .number width), ("style", .text "bold")])
    each (finding width) ((← ask (inOrder list)).zipIdx 1)

def intervalBranch (data : Json) (key title : String) : Except Failure (List Tree) := do
  if ← data.holds key then
    let intervals ← data.entry key
    if intervals.isPresent then
      let leaves := (← intervals.pairs).map fun (name, interval) =>
        Tree.node (styled "green" name ++ ": " ++ interval.display) []
      return [.node (styled "yellow" title) leaves]
  return []

def functionBranch (function : String × Json) : Except Failure Tree := do
  let (name, data) := function
  let params ← intervalBranch data "params" "参数区间"
  let returns ← intervalBranch data "return" "返回值区间"
  return .node (styled "bold cyan" name) (params ++ returns)

def functionBranches : List (String × Json) → Except Failure (List Tree)
  | [] => .ok []
  | f :: rest => do
    let branch ← functionBranch f
    return branch :: (← functionBranches rest)

def contractTree (contract : String × Json) : Section Unit := do
  let (name, functions) := contract
  let branches ← ask (do functionBranches (← functions.pairs))
  draw (.tree (.node (styled "bold blue" name) branches))
  blank

def intervals (width : Int) (data : Json) : Section Unit := do
  let analysis ← ask (data.field "interval_analysis" (.obj []))
  if !analysis.isPresent then
    line "[yellow]未找到区间分析结果[/yellow]"
  else
    draw (.panel (.line "区间分析结果")
      [("width", .number (boundedWidth width)), ("style", .text "bold cyan")])
    line "[italic]区间分析帮助识别变量可能的取值范围，防止溢出和其他数值相关问题[/italic]\n"
    each contractTree (← ask analysis.pairs)

end RangeAudit.Report
