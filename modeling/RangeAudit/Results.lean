import RangeAudit.Analysis.Unit
import RangeAudit.Json

namespace RangeAudit

/-- Records of problems, or summaries by function. -/
inductive Results
  | records (l : List Record)
  | summaries (l : List (String × SummaryText))
  deriving DecidableEq, Repr

namespace Json

def ofTexts (texts : List (String × String)) : Json :=
  .obj (texts.map fun (key, text) => (key, .str text))

end Json

def Record.toJson : Record → Json
  | located contract function subject violation interval =>
    .ofTexts [("contract", contract), ("function", function), ("variable", subject),
      ("violation", violation), ("interval", interval)]
  | issue text => .ofTexts [("issue", text)]

def SummaryText.toJson (s : SummaryText) : Json :=
  .obj [("params", .ofTexts s.params), ("return", .ofTexts s.returns)]

def Results.toJson : Results → Json
  | records l => .arr (l.map Record.toJson)
  | summaries l => .obj (l.map fun (key, s) => (key, s.toJson))

end RangeAudit
