import RangeAudit.Text.CaseTable
import RangeAudit.Text.CasedTable

namespace RangeAudit.Text

def inRanges (ranges : List (Nat × Nat)) (c : Char) : Bool :=
  ranges.any fun r => r.1 ≤ c.toNat && c.toNat ≤ r.2

def isCased (c : Char) : Bool :=
  inRanges casedRanges c

def isCaseIgnorable (c : Char) : Bool :=
  inRanges caseIgnorableRanges c

/-- Whether the nearest character that is not passed over carries case. -/
def nextIsCased (s : List Char) : Bool :=
  match s.dropWhile isCaseIgnorable with
  | [] => false
  | c :: _ => isCased c

def mapCase (expansions : List (Nat × List Nat)) (shifts : List CaseShift) (c : Char) : List Char :=
  match expansions.find? (·.1 == c.toNat) with
  | some (_, image) => image.map Char.ofNat
  | none => [Char.ofNat (CaseShift.apply shifts c.toNat)]

def lowerChar (c : Char) : List Char :=
  if c.toNat < 128 then [c.toLower] else mapCase lowerExpansions lowerShifts c

def titleChar (c : Char) : List Char :=
  if c.toNat < 128 then [c.toUpper] else mapCase titleExpansions titleShifts c

/-- Lower case of a list whose preceding characters, nearest first, are given. -/
def lowerAfter (before : List Char) : List Char → List Char
  | [] => []
  | c :: s =>
    (if c = 'Σ' then [if nextIsCased before && !nextIsCased s then 'ς' else 'σ']
      else lowerChar c) ++
      lowerAfter (c :: before) s

def lower (s : String) : String :=
  String.ofList (lowerAfter [] s.toList)

def capitalize (s : String) : String :=
  match s.toList with
  | [] => ""
  | c :: rest => String.ofList (titleChar c ++ lowerAfter [c] rest)

end RangeAudit.Text
