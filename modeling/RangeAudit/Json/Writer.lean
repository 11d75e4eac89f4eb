import RangeAudit.Json

namespace RangeAudit.Json

def unitEscape (u : Nat) : List Char :=
  '\\' :: 'u' :: Text.hexDigits 4 u

/-- What lies outside printable ASCII is escaped, where needed as a pair of code units. -/
def writtenChar (c : Char) : List Char :=
  match c with
  | '\x22' => ['\\', '\x22']
  | '\\' => ['\\', '\\']
  | '\n' => ['\\', 'n']
  | '\r' => ['\\', 'r']
  | '\t' => ['\\', 't']
  | '\x08' => ['\\', 'b']
  | '\x0c' => ['\\', 'f']
  | c =>
    let n := c.toNat
    if 32 ≤ n ∧ n < 127 then [c]
    else if n < 0x10000 then unitEscape n
    else
      unitEscape (0xD800 + (n - 0x10000) / 0x400) ++ unitEscape (0xDC00 + (n - 0x10000) % 0x400)

def writtenText (s : String) : String :=
  String.ofList ('\x22' :: s.toList.flatMap writtenChar ++ ['\x22'])

def writtenNumber : Number → String
  | .double .nan => "NaN"
  | .double (.inf negative) => if negative then "-Infinity" else "Infinity"
  | .truth b => if b then "true" else "false"
  | n => n.text

structure Layout where
  opening : Nat → String
  between : Nat → String
  closing : Nat → String

def Layout.line : Layout := ⟨fun _ => "", fun _ => ", ", fun _ => ""⟩

def Layout.block : Layout :=
  let newline (depth : Nat) : String := "\n" ++ String.ofList (List.replicate (4 * depth) ' ')
  ⟨fun depth => newline (depth + 1), fun depth => "," ++ newline (depth + 1), newline⟩

mutual

def write (layout : Layout) (depth : Nat) : Json → String
  | null => "null"
  | bool b => if b then "true" else "false"
  | num n => writtenNumber n
  | str s => writtenText s
  | arr [] => "[]"
  | arr items =>
    "[" ++ layout.opening depth ++ writeItems layout depth items ++ layout.closing depth ++ "]"
  | obj [] => "\x7b\x7d"
  | obj fields =>
    "\x7b" ++ layout.opening depth ++ writeFields layout depth fields ++ layout.closing depth ++
      "\x7d"

def writeItems (layout : Layout) (depth : Nat) : List Json → String
  | [] => ""
  | [j] => write layout (depth + 1) j
  | j :: rest =>
    write layout (depth + 1) j ++ layout.between depth ++ writeItems layout depth rest

def writeFields (layout : Layout) (depth : Nat) : List (String × Json) → String
  | [] => ""
  | [(k, j)] => writtenText k ++ ": " ++ write layout (depth + 1) j
  | (k, j) :: rest =>
    writtenText k ++ ": " ++ write layout (depth + 1) j ++ layout.between depth ++
      writeFields layout depth rest

end

def compact (j : Json) : String :=
  j.write .line 0

def pretty (j : Json) : String :=
  j.write .block 0

end RangeAudit.Json
