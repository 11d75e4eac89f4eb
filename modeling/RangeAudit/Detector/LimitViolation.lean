import RangeAudit.Analysis.Unit
import RangeAudit.Detector.Finding

namespace RangeAudit

namespace LimitViolation

def profile : Profile where
  check := "defi-range-violation"
  registration := "DeFiRangeViolationDetector"
  help := "DeFi合约中的数值区间违规检测"
  impact := .medium
  confidence := .high
  wiki := "https://github.com/slitherv1/wiki/defi-range-violation"
  title := "DeFi数值区间违规"
  description :=
    "检测DeFi合约中可能超出预期区间的数值操作，包括溢出、下溢、除零风险以及DeFi特定约束违规。"
  scenario :=
    "\n```solidity\n" ++
    "function calculateInterest(uint256 amount, uint256 rate) public returns (uint256) \x7b\n" ++
    "    // 如果amount或rate非常大，计算结果可能溢出\n" ++
    "    uint256 interest = (amount * rate) / 10000;\n    return interest;\n\x7d\n```\n" ++
    "如果amount接近uint256上限且rate较大，乘法操作可能导致溢出，产生错误的结果。\n"
  recommendation :=
    "对所有数值操作使用SafeMath（Solidity < 0.8.0）或添加明确的溢出检查。" ++
    "对于可能接受外部输入的值，添加显式的范围检查以确保在安全区间内。" ++
    "特别是对于DeFi协议，确保所有关键参数（如汇率、利率、金额等）都有合理的区间约束。"

/-- The function of the first contract found under a name. -/
def locate? (u : CompilationUnit) (contract function : String) : Except Failure (Option Function) :=
  match u.lookup contract with
  | .unavailable => .error (.missing "CompilationUnit" "get_contract_from_name")
  | .failed => .error .lookupFailed
  | .found contracts => .ok (contracts.head?.bind (·.functionNamed? function))

def inspect (u : CompilationUnit) (r : Record) : Except Failure (List Finding) := do
  match r with
  | .located contract function subject violation interval =>
    let description := "在 " ++ contract ++ " 合约的 " ++ function ++ " 函数中检测到区间违规:\n变量 " ++
      subject ++ " 的区间为 " ++ interval ++ "\n违规: " ++ violation ++ "\n"
    return [← (Finding.plain profile description).pointTo? (← locate? u contract function)]
  | .issue text => return [.plain profile ("检测到通用问题: " ++ text ++ "\n")]

def detect (u : CompilationUnit) : Except Failure (List Finding) := do
  gather (inspect u) (← u.records)

end LimitViolation

end RangeAudit
