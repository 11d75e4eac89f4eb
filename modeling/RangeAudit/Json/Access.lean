import RangeAudit.Failure
import RangeAudit.Json
import RangeAudit.Text.Case
import RangeAudit.Text.Search

namespace RangeAudit.Json

def kind : Json → String
  | null => "null"
  | bool _ => "boolean"
  | num _ => "number"
  | str _ => "text"
  | arr _ => "array"
  | obj _ => "object"

def field (j : Json) (key : String) (default : Json) : Except Failure Json :=
  match j with
  | obj fields => .ok ((fields.lookup key).getD default)
  | _ => .error (.missing j.kind "get")

def pairs : Json → Except Failure (List (String × Json))
  | obj fields => .ok fields
  | j => .error (.missing j.kind "items")

/-- What going through a value meets: items, characters or keys. -/
def elements : Json → Except Failure (List Json)
  | arr items => .ok items
  | str s => .ok (s.toList.map fun c => .str (String.singleton c))
  | obj fields => .ok (fields.map fun f => .str f.1)
  | j => .error (.noItems j.kind)

/-- Whether a word is a key, an item or a part of a value. -/
def holds (j : Json) (word : String) : Except Failure Bool :=
  match j with
  | obj fields => .ok (fields.lookup word).isSome
  | arr items => .ok (items.any fun i => i.str? == some word)
  | str s => .ok (Text.contains s word)
  | _ => .error (.noItems j.kind)

def holdsAny (j : Json) : List String → Except Failure Bool
  | [] => .ok false
  | word :: rest => do if ← j.holds word then return true else j.holdsAny rest

theorem holdsAny_str (s : String) (words : List String) :
    (str s).holdsAny words = .ok (Text.containsAny s words) := by
  induction words with
  | nil => rfl
  | cons word rest ih =>
    rw [holdsAny, holds, Text.containsAny, List.any_cons]
    cases Text.contains s word with
    | true => rfl
    | false => exact ih

def holdsAll (j : Json) : List String → Except Failure Bool
  | [] => .ok true
  | word :: rest => do if ← j.holds word then j.holdsAll rest else return false

def entry (j : Json) (key : String) : Except Failure Json :=
  match j with
  | obj fields =>
    match fields.lookup key with
    | some value => .ok value
    | none => .error (.missingField key)
  | _ => .error (.noFields j.kind)

def lowered : Json → Except Failure String
  | str s => .ok (Text.lower s)
  | j => .error (.missing j.kind "lower")

def capitalised : Json → Except Failure String
  | str s => .ok (Text.capitalize s)
  | j => .error (.missing j.kind "capitalize")

end RangeAudit.Json
