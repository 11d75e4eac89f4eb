import RangeAudit.Number
import RangeAudit.Text.Quoted

namespace RangeAudit

/-- Set the value of a key; a key that is there already keeps its position. -/
def insertKeyed {α : Type} (key : String) (value : α) : List (String × α) → List (String × α)
  | [] => [(key, value)]
  | (k, v) :: rest => if k = key then (k, value) :: rest else (k, v) :: insertKeyed key value rest

inductive Json
  | null
  | bool (b : Bool)
  | num (n : Number)
  | str (s : String)
  | arr (items : List Json)
  | obj (fields : List (String × Json))
  deriving Repr, Inhabited

namespace Json

def int (n : Int) : Json := .num (.int n)

def ofFields (fields : List (String × Json)) : Json :=
  .obj (fields.foldl (fun fs (k, v) => insertKeyed k v fs) [])

def get? (j : Json) (key : String) : Option Json :=
  match j with
  | obj fields => fields.lookup key
  | _ => none

def str? : Json → Option String
  | str s => some s
  | _ => none

def bool? : Json → Option Bool
  | bool b => some b
  | _ => none

def int? : Json → Option Int
  | num (.int n) => some n
  | _ => none

def items : Json → List Json
  | arr items => items
  | _ => []

def fields : Json → List (String × Json)
  | obj fields => fields
  | _ => []

/-- Whether a value counts as present: not null, false, zero or empty. -/
def isPresent : Json → Bool
  | null => false
  | bool b => b
  | num n => !n.same 0
  | str s => !s.isEmpty
  | arr items => !items.isEmpty
  | obj fields => !fields.isEmpty

mutual

def inner : Json → String
  | null => "None"
  | bool b => if b then "True" else "False"
  | num n => n.text
  | str s => Text.quoted s
  | arr items => "[" ++ ", ".intercalate (innerItems items) ++ "]"
  | obj fields => "\x7b" ++ ", ".intercalate (innerFields fields) ++ "\x7d"

def innerItems : List Json → List String
  | [] => []
  | j :: rest => inner j :: innerItems rest

def innerFields : List (String × Json) → List String
  | [] => []
  | (k, j) :: rest => (Text.quoted k ++ ": " ++ inner j) :: innerFields rest

end

/-- The text of a value in running text, where a text stands for itself. -/
def display : Json → String
  | str s => s
  | j => j.inner

end Json

end RangeAudit
