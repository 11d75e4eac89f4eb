import RangeAudit.Report.Layout
import RangeAudit.Text.Search

namespace RangeAudit.Report

mutual

/-- The lines of a tree, its children two columns further in. -/
def treeLines (indent : String) : Tree → List String
  | .node label children => (indent ++ label) :: treesLines (indent ++ "  ") children

def treesLines (indent : String) : List Tree → List String
  | [] => []
  | t :: rest => treeLines indent t ++ treesLines indent rest

end

def titleLines (settings : Settings) : List String :=
  match settings.lookup "title" with
  | some (.text title) => [title]
  | _ => []

def blockLines : Block → List String
  | .line text => [text]
  | .plain content _ => [content.display]
  | .panel content settings => titleLines settings ++ blockLines content
  | .table settings columns rows =>
    titleLines settings ++ [Text.join " | " (columns.map (·.title))] ++
      rows.map fun row => Text.join " | " (row.map Json.display)
  | .tree root => treeLines "" root

def Drawing.lines (d : Drawing) : List String :=
  d.flatMap fun
    | some b => blockLines b
    | none => [""]

end RangeAudit.Report
