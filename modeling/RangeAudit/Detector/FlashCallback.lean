import RangeAudit.Detector.Finding
import RangeAudit.Text.Case
import RangeAudit.Text.Search

namespace RangeAudit

namespace FlashCallback

def profile : Profile where
  check := "flashloan-callback-risks"
  registration := "FlashLoanCallback"
  help := "检测闪电贷回调函数中的风险"
  impact := .high
  confidence := .high
  wiki := "https://www.example.com/wiki/flashloan-callback-attack"
  title := "闪电贷回调风险"
  description := "检测闪电贷回调函数中存在的风险"
  scenario :=
    "\n```solidity\ncontract vulnerableProtocal \x7b\n" ++
    "  mapping(address => uint256) public  userBalances;\n  uint public totalSupply;\n  \n" ++
    "  //Uniswap V2 闪电贷回调函数\n" ++
    "  function uniswapV2Call(address sender, uint amount0, uint amount1, bytes calldata data) " ++
    "external \x7b\n    // 回调中更新状态变量\n    totalSupply += amount0;\n    \n" ++
    "    // 更新余额\n    address user = abi.decode(data, (address));\n" ++
    "    userBalances[user] += amount0;\n    \n    // 缺少重入保护的外部调用\n" ++
    "    (bool success, ) = user.call\x7bvalue: amount0\x7d(\"\");\n" ++
    "    require(success, \"Transfer failed\");\n  \x7d\n\x7d\n```\n"
  recommendation :=
    "\n  1. 在状态更新后进行外部调用时，添加重入保护,使用 `ReentrancyGuard` 或 " ++
    "`ReentrancyGuardUpgradeable` 等库来保护状态变量的修改\n" ++
    "  2. 不在回调中直接更新关键状态变量，特别是与价格、余额有关的变量\n" ++
    "  3. 验证闪电贷回调的发送者身份\n" ++
    "  4. 使用检查-效果-交互模式(先做所有状态修改，最后再进行外部调用)\n  "

def signatures : List String :=
  ["uniswapV2Call(address,uint256,uint256,bytes)",
    "executeOperation(address[],uint256[],uint256[],address,bytes)",
    "executeOperation(address,uint256,uint256,address,bytes)",
    "onFlashLoan(address,address,uint256,uint256,bytes)", "callFunction(address,tuple,bytes)",
    "callFunction(address,(address,address,uint256,uint256),bytes)",
    "callFunction(address,AccountInfo,bytes)",
    "receiveFlashLoan(address[],uint256[],uint256[],bytes)",
    "flashCallback(address,uint256,uint256,bytes)",
    "onFlashLoanTransfer(address,address,uint256,bytes)",
    "uniswapV3FlashCallback(uint256,uint256,bytes)", "callback(bytes)"]

def callbackWords : List String :=
  ["flashloan", "flash", "callback", "uniswap", "execute", "onflash"]

def lockModifiers : List String :=
  ["nonreentrant", "noreeentrant", "mutex", "lock", "reentrancyguard"]

def lockWords : List String :=
  ["lock", "locked", "locker", "_notenter", "_notreenter"]

def criticalWords : List String :=
  ["balance", "supply", "total", "amount", "pool", "reserve", "price", "rate", "value", "token",
    "fee"]

end FlashCallback

def Signature.complaint? : Signature → Option String
  | unreadable message => some ("处理函数签名时出错: " ++ message)
  | _ => none

/-- Whether the signature, blanks left out, is that of a known callback. -/
def Signature.isKnownCallback : Signature → Bool
  | text s => FlashCallback.signatures.contains (Text.withoutBlanks s)
  | _ => false

def Instr.isExternalCall : Instr → Bool
  | call kind _ _ _ => kind.isExternal
  | _ => false

def Target.callee? : Target → Option Callee
  | known c => some c
  | _ => none

def Instr.callee? : Instr → Option Callee
  | call _ _ target _ => target.callee?
  | _ => none

namespace Function

def isFlashCallback (f : Function) : Bool :=
  f.signature.isKnownCallback || Text.containsAny (Text.lower f.name) FlashCallback.callbackWords

def isBulkEntry (f : Function) : Bool :=
  f.name == "callFunction"

def paramType (v : Variable) : Except Failure String :=
  match v.type? with
  | some t => .ok t
  | none => .error (.missing "LocalVariable" "type")

def takesAddress (f : Function) : Except Failure Bool :=
  if f.isBulkEntry && f.params.length ≥ 2 then do
    let types ← f.params.mapM paramType
    return types.contains "address"
  else
    .ok false

def hasLock (f : Function) : Bool :=
  f.modifiers.any (fun m => Text.containsAny (Text.lower m) FlashCallback.lockModifiers) ||
    f.nodes.any fun n => n.isGuard && Text.containsAny (Text.lower n.text) FlashCallback.lockWords

def checksSender (f : Function) : Bool :=
  f.nodes.any fun n =>
    n.isGuard && Text.contains (Text.lower n.text) "msg.sender" &&
      Text.containsAny (Text.lower n.text) ["==", "require", "equal"]

def addNew (seen : List Variable) (vars : List Variable) : List Variable :=
  vars.foldl (fun seen v => if seen.contains v then seen else seen ++ [v]) seen

/-- For each external call the variables written until then, given those written before. -/
def callsAfterWrites (order : SetOrder) (seen : List Variable) :
    List Node → List (Variable × Option Callee)
  | [] => []
  | n :: rest =>
    let seen := addNew seen n.written
    (n.instrs.filter (·.isExternalCall)).flatMap
        (fun i => (order.arrange seen).map fun v => (v, i.callee?)) ++
      callsAfterWrites order seen rest

def externalCalls (f : Function) : List Instr :=
  f.instrs.filter (·.isExternalCall)

/-- Pairs of a state variable and a call to another contract that follows a write to it. -/
def writesBeforeCalls (order : SetOrder) (f : Function) : List (Variable × Option Callee) :=
  if f.externalCalls.isEmpty then [] else callsAfterWrites order [] f.nodes

def written (order : SetOrder) (f : Function) : List Variable :=
  order.arrange (addNew [] (f.nodes.flatMap (·.written)))

end Function

namespace FlashCallback

def calleeName? : Option Callee → Except Failure (Option String)
  | none => .ok none
  | some c =>
    match c.name with
    | .given name => .ok (some name)
    | .empty => .ok none
    | .missing => .error (.missing "Function" "name")

def namedWrites (order : SetOrder) (f : Function) :
    Except Failure (List (String × Option String)) :=
  (f.writesBeforeCalls order).mapM fun (v, callee?) => do return (v.name, ← calleeName? callee?)

def usesPayment : Instr → Bool
  | .builtin _ _ _ text => Text.contains text "msg.value"
  | _ => false

def isCriticalName (v : Variable) : Bool :=
  Text.containsAny (Text.lower v.name) criticalWords

/-- What the function does to payments and to critical state of its contract. -/
def hazards (c : Contract) (f : Function) : List String :=
  let payments := f.instrs.filter usesPayment
  let writes := (f.nodes.flatMap (·.written)).filter fun v =>
    (c.stateVariables.filter isCriticalName).contains v
  payments.map (fun _ => "在闪电贷回调函数中直接使用了msg.value，可能导致资金被盗") ++
    writes.map fun v => "在闪电贷回调中修改了关键状态变量: " ++ v.name

def callText (callee? : Option Callee) : Except Failure String := do
  let name? ← calleeName? callee?
  return name?.getD (if callee?.isSome then "None" else "外部调用")

def writeRisk (v : Variable) (callee? : Option Callee) : Except Failure String := do
  return "写入状态变量 '" ++ v.name ++ "' 后进行了 '" ++ (← callText callee?) ++ "' 的外部调用"

def risks (order : SetOrder) (c : Contract) (f : Function) : Except Failure (List String) := do
  let writes ← (f.writesBeforeCalls order).mapM fun (v, callee?) => writeRisk v callee?
  let entryWrites := if f.isBulkEntry then f.written order else []
  return (if f.hasLock then [] else ["缺少重入保护"]) ++ writes ++
    hazards c f ++ (if f.checksSender then [] else ["没有验证回调的发送者身份"]) ++
    entryWrites.map fun v => "DyDx闪电贷回调中修改了状态变量: " ++ v.name

def numbered (risks : List String) : String :=
  String.join (risks.zipIdx.map fun (risk, i) => "  " ++ toString (i + 1) ++ ". " ++ risk ++ "\n")

/-- The finding on a callback, if it is at risk. -/
def findings (order : SetOrder) (c : Contract) (f : Function) :
    Except Failure (List Finding) := do
  match ← risks order c f with
  | [] => return []
  | found =>
    let description := "合约 '" ++ c.name ++ "' 中的闪电贷回调函数 '" ++ f.name ++
      "' 存在以下风险:\n" ++ numbered found
    return [← (Finding.plain profile description).pointTo f]

def isExposed (f : Function) : Bool :=
  !f.isConstructor && f.visibility != "internal" && f.visibility != "private"

/-- Whether the function is a callback. A signature that cannot be read is reported. -/
def recognise (f : Function) : Reporting Bool := do
  f.signature.complaint?.forM Reporting.say
  return f.isFlashCallback

def inspect (order : SetOrder) (c : Contract) (f : Function) : Reporting (List Finding) := do
  if !isExposed f then return []
  if ← recognise f then .ofExcept (findings order c f)
  else if ← .ofExcept f.takesAddress then .ofExcept (findings order c f)
  else return []

def detect (order : SetOrder) (u : CompilationUnit) : Reporting (List Finding) :=
  gather (fun c => gather (inspect order c) c.functions) u.contracts

end FlashCallback

end RangeAudit
