import RangeAudit.Detector.Finding
import RangeAudit.Json.Access
import RangeAudit.Results

namespace RangeAudit

namespace NumericAnomaly

def profile : Profile where
  check := "interval-numerical-anomalies"
  registration := "IntervalBasedNumericalAnomalies"
  help := "基于增强区间分析的高可信度数值异常检测"
  impact := .high
  confidence := .high
  wiki := "https://github.com/slither_enhanced/wiki/NumericalAnomalies"
  title := "数值异常检测"
  description := "检测智能合约中的数值溢出、下溢、除零错误和其他数值异常"
  scenario :=
    "\n```solidity\ncontract VulnerableContract \x7b\n" ++
    "    function transfer(address to, uint256 amount) public \x7b\n" ++
    "        // 没有检查余额，可能导致下溢\n        balances[msg.sender] -= amount;\n" ++
    "        balances[to] += amount;\n    \x7d\n    \n" ++
    "    function divide(uint256 a, uint256 b) public returns (uint256) \x7b\n" ++
    "        // 没有检查除数是否为零\n        return a / b;\n    \x7d\n\x7d\n```\n"
  recommendation :=
    "使用SafeMath库或Solidity 0.8.0+的内置溢出检查。始终验证除数不为零。" ++
    "考虑使用require语句确保数值操作在合理范围内。"

def definiteWords : List String :=
  ["确定性除零错误", "确定性除零风险", "常量下溢", "常量溢出", "可能下溢", "可能溢出"]

/-- Whether an interval says more than the whole range of words. -/
def isDefiniteInterval (interval : Json) : Except Failure Bool := do
  if interval.str? == some "⊤" then return false
  return !(← interval.holds "[0, 2**256 - 1]")

def isCheckedOverflow (text : Json) : Except Failure Bool := do
  if ← text.holds "SafeMath" then text.holdsAny ["溢出", "下溢"] else return false

def isLimitViolation (text : Json) : Except Failure Bool := do
  if ← text.holds "违规" then text.holdsAny ["最小值违规", "最大值违规"] else return false

def hasDefiniteInterval (r : Json) : Except Failure Bool := do
  if ← r.holds "interval" then isDefiniteInterval (← r.entry "interval") else return false

def isConfident (r : Json) : Except Failure Bool := do
  if !(← r.holdsAny ["issue", "violation"]) then return false
  let text ← r.field "issue" (← r.field "violation" (.str ""))
  if ← text.holdsAny definiteWords then return true
  if ← hasDefiniteInterval r then return true
  if ← isCheckedOverflow text then return false
  if ← r.holdsAll ["contract", "function", "variable"] then isLimitViolation text
  else return false

def part (r : Json) (key : String) : Except Failure Json :=
  r.field key (.str "Unknown")

def description (r : Json) : Except Failure String := do
  if ← r.holds "issue" then return "发现数值异常: " ++ (← r.entry "issue").display
  return "在合约 " ++ (← part r "contract").display ++ " 的函数 " ++ (← part r "function").display ++
    " 中发现数值异常:\n变量 " ++ (← part r "variable").display ++ " 的区间为 " ++
    (← part r "interval").display ++ "\n违规: " ++ (← part r "violation").display

/-- The function that a result speaks of, searched in all contracts of the name. -/
def locate? (u : CompilationUnit) (r : Json) : Except Failure (Option Function) := do
  if ← r.holds "issue" then return none
  let contract := (← part r "contract").str?
  let function := (← part r "function").str?
  match u.search (some · == contract) with
  | .unavailable => return none
  | .failed => .error .lookupFailed
  | .found contracts =>
    return contracts.findSome? fun c => c.functions.find? fun f => some f.name == function

def speaker : String := "Detectors"

def place (u : CompilationUnit) (r : Json) : Reporting (Option Function) :=
  match locate? u r with
  | .ok f? => return f?
  | .error f => do
    .note .error speaker ("查找合约或函数时出错: " ++ f.message)
    return none

def format (u : CompilationUnit) (r : Json) : Reporting (String × Option Function) := do
  let text ← .ofExcept (description r)
  return (text, ← place u r)

/-- A function that cannot be pointed to is logged and drops the finding. -/
def inspect (u : CompilationUnit) (r : Json) : Reporting (List Finding) := do
  let (text, f?) ← format u r
  match (Finding.plain profile text).pointTo? f? with
  | .ok x => return [x]
  | .error f =>
    .note .error speaker ("处理问题时出错: " ++ f.message)
    return []

def confidentOf : List Json → Except Failure (List Json)
  | [] => .ok []
  | r :: rest => do
    let here ← isConfident r
    let later ← confidentOf rest
    return if here then r :: later else later

def confidentResults (u : CompilationUnit) : Except Failure (List Json) := do
  confidentOf ((← u.records).map Record.toJson)

def detect (u : CompilationUnit) : Reporting (List Finding) :=
  match confidentResults u with
  | .ok results => gather (inspect u) results
  | .error f => do
    .note .error speaker ("区间分析执行出错: " ++ f.message)
    return []

end NumericAnomaly

end RangeAudit
