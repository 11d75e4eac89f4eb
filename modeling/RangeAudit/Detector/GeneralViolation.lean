import RangeAudit.Analysis.Unit
import RangeAudit.Detector.Finding

namespace RangeAudit

namespace GeneralViolation

def profile : Profile where
  check := "interval-violation"
  registration := "IntervalViolationDetector"
  help := "使用增强区间分析检测智能合约中的一般数值范围违规"
  impact := .medium
  confidence := .high
  wiki := "https://github.com/your-repo/wiki/interval-violation"
  title := "智能合约数值范围违规"
  description := "检测智能合约中可能违反预期范围约束的数值操作，包括溢出/下溢、除零错误等一般性问题。"
  scenario :=
    "\n```solidity\nfunction calculateExchangeRate(uint256 tokenAmount) public \x7b\n" ++
    "    // 交易量可能非常大，导致汇率溢出\n" ++
    "    uint256 exchangeRate = totalPoolValue * PRECISION / tokenAmount;\n" ++
    "    // exchangeRate可能超出预期范围\n\x7d\n```\n"
  recommendation :=
    "使用SafeMath进行算术操作，并添加显式范围检查以确保数值在预期区间内。" ++
    "对于Solidity 0.8.x，请额外添加业务逻辑范围检查，确保数值满足预期约束。"

def financialWords : List String :=
  ["DeFi约束", "DeFi特定", "defi约束", "defi特定", "流动性", "汇率", "利率", "抵押率", "闪电贷",
    "flash loan", "swap", "交换", "exchange", "pool", "池", "token", "令牌"]

def generalWords : List String :=
  ["溢出", "下溢", "除零", "overflow", "underflow", "division by zero", "边界检查", "boundary",
    "bound"]

def isFinancial (text : String) : Bool :=
  Text.containsAny text financialWords

def isGeneral (text : String) : Bool :=
  Text.containsAny text generalWords

/-- The detector speaks of a text on arithmetic that does not speak of finance. -/
def isOfInterest (text : String) : Bool :=
  !isFinancial text && isGeneral text

def locate? (u : CompilationUnit) (contract function : String) : Except Failure (Option Function) :=
  match u.lookup contract with
  | .unavailable => .ok none
  | .failed => .error .lookupFailed
  | .found contracts => .ok (contracts.head?.bind (·.functionNamed? function))

/-- The finding on a record that says what is wrong where; a missing function is passed over. -/
def locatedFindings (u : CompilationUnit) (contract function subject violation interval : String) :
    Except Failure (List Finding) := do
  if !isOfInterest violation then return []
  match ← locate? u contract function with
  | none => return []
  | some f =>
    let description := "在 " ++ contract ++ " 合约的 " ++ function ++ " 函数中，变量 " ++
      subject ++ " 可能违反数值约束: " ++ violation ++ ".\n计算得到的区间值为: " ++ interval ++ "\n"
    return [← (Finding.plain profile description).pointTo f]

def issueFindings (issue : String) : List Finding :=
  if isOfInterest issue then [.plain profile ("检测到潜在问题: " ++ issue ++ "\n")] else []

def inspect (u : CompilationUnit) : Record → Except Failure (List Finding)
  | .located contract function subject violation interval =>
    locatedFindings u contract function subject violation interval
  | .issue text => .ok (issueFindings text)

def findings (u : CompilationUnit) : Except Failure (List Finding) := do
  gather (inspect u) (← u.records)

/-- A failure is logged, and then there are no findings. -/
def detect (u : CompilationUnit) : Reporting (List Finding) :=
  match findings u with
  | .ok l => return l
  | .error f => do
    .note .error "IntervalViolationDetector" ("区间分析检测器执行出错: " ++ f.message)
    return []

end GeneralViolation

end RangeAudit
