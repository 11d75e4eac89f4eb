import RangeAudit.Json.Access
import RangeAudit.Listing.Colour
import RangeAudit.Transcript

namespace RangeAudit

namespace Json

def number? : Json → Option Number
  | num n => some n
  | bool b => some (.truth b)
  | _ => none

/-- Texts that agree, and numbers of one value, truth values among them, count as one. -/
def countsAs : Json → Json → Bool
  | null, null => true
  | str s, str t => s == t
  | j, k =>
    match j.number?, k.number? with
    | some x, some y => x == y || x.same y
    | _, _ => false

/-- A value under which something is counted; arrays and objects are none. -/
def asKey : Json → Except Failure Json
  | arr _ => .error (.notAKey "array")
  | obj _ => .error (.notAKey "object")
  | j => .ok j

end Json

abbrev Tally := List (Json × Nat)

def Tally.count (j : Json) : Tally → Tally
  | [] => [(j, 1)]
  | (k, n) :: rest => if k.countsAs j then (k, n + 1) :: rest else (k, n) :: Tally.count j rest

namespace Listing

def sayAll (lines : List String) : Reporting Unit :=
  modify fun t => { t with lines := t.lines ++ lines }

def sayEach {α : Type} (say : α → Reporting Unit) : List α → Reporting Unit
  | [] => pure ()
  | a :: rest => do say a; sayEach say rest

def need (j : Json) (key : String) : Reporting Json :=
  .ofExcept (j.entry key)

def countedKeys (r : Json) : Except Failure (Json × Json) := do
  let issue ← r.field "violation" (← r.field "issue" (.str "Unknown"))
  let contract ← r.field "contract" (.str "Global")
  return (← issue.asKey, ← contract.asKey)

def countLine : Json × Nat → String
  | (value, count) => "  " ++ value.display ++ ": " ++ toString count

def tallyLines (keys : List (Json × Json)) : List String :=
  let tally (l : List Json) : Tally := l.foldl (fun t j => t.count j) []
  ["\n===== 区间分析摘要 =====", "总问题数: " ++ toString keys.length, "\n问题类型统计:"] ++
    (tally (keys.map (·.1))).map countLine ++ ["\n每个合约的问题数:"] ++
    (tally (keys.map (·.2))).map countLine

def violationColour (violation : Json) : Except Failure Colour := do
  return if ← violation.holdsAny ["溢出", "下溢", "除零"] then .red else .yellow

def sayViolation (palette : Palette) (r : Json) : Reporting Unit := do
  let contract ← need r "contract"
  let function ← need r "function"
  let subject ← need r "variable"
  let violation ← need r "violation"
  let interval ← need r "interval"
  sayAll ["\n[" ++ palette .cyan contract.display ++ "." ++ palette .green function.display ++ "]",
    "  变量: " ++ palette .yellow subject.display]
  let colour ← .ofExcept (violationColour violation)
  sayAll ["  违规: " ++ palette colour violation.display, "  区间: " ++ interval.display]

def sayIssue (palette : Palette) (r : Json) : Reporting Unit := do
  let issue ← need r "issue"
  sayAll ["\n[" ++ palette .cyan "全局问题" ++ "]", "  " ++ palette .red issue.display]

/-- A record that says neither what is wrong where nor what the issue is has no block. -/
def sayRecord (palette : Palette) (r : Json) : Reporting Unit := do
  if ← .ofExcept (r.holdsAll ["contract", "function", "violation"]) then sayViolation palette r
  else if ← .ofExcept (r.holds "issue") then sayIssue palette r
  else pure ()

def tallyIn (palette : Palette) (isSummary : Bool) (results : Json) : Reporting Unit := do
  let records ← .ofExcept results.elements
  if isSummary then sayAll (tallyLines (← .ofExcept (records.mapM countedKeys)))
  else sayEach (sayRecord palette) records

def tally (coloured isSummary : Bool) (results : Json) : Reporting Unit :=
  tallyIn (if coloured then .normal else .plain) isSummary results

def intervalLine : String × Json → String
  | (name, interval) => "    - " ++ name ++ ": " ++ interval.display

def sayIntervals (summary : Json) (key : String) : Reporting Unit := do
  let intervals ← .ofExcept (← need summary key).pairs
  sayAll (intervals.map intervalLine)

def sayFunction (palette : Palette) (function : String × Json) : Reporting Unit := do
  let (name, summary) := function
  sayAll [palette .yellow ("\n函数: " ++ name), "  参数:"]
  sayIntervals summary "params"
  Reporting.say "  返回值:"
  sayIntervals summary "return"

def heading (number : Nat) : String :=
  "\n问题 #" ++ toString number ++ ":"

def sayPart (r : Json) (part : String × String) : Reporting Unit := do
  let (label, key) := part
  Reporting.say ("  " ++ label ++ ": " ++ (← need r key).display)

def sayProblem (palette : Palette) (problem : Json × Nat) : Reporting Unit := do
  let (r, number) := problem
  if ← .ofExcept (r.holds "contract") then
    Reporting.say (palette .red (heading number))
    sayEach (sayPart r) [("合约", "contract"), ("函数", "function"), ("变量", "variable"),
      ("违规", "violation"), ("区间", "interval")]
  else
    let issue ← need r "issue"
    Reporting.say (palette .red (heading number ++ " " ++ issue.display))

def problemCount (n : Nat) : String :=
  "! 发现 " ++ toString n ++ " 个潜在区间问题"

def numberedIn (palette : Palette) (isSummary : Bool) (results : Json) : Reporting Unit := do
  if !results.isPresent then Reporting.say (palette .green "✓ 未发现潜在区间问题")
  else if isSummary then
    Reporting.say (palette .yellow "== 函数区间分析摘要 ==")
    sayEach (sayFunction palette) (← .ofExcept results.pairs)
  else
    let problems ← .ofExcept results.elements
    Reporting.say (palette .red (problemCount problems.length))
    sayEach (sayProblem palette) (problems.zipIdx 1)

def numbered (isSummary : Bool) (results : Json) : Reporting Unit :=
  numberedIn .bright isSummary results

end Listing

end RangeAudit
