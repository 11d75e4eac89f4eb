import RangeAudit.Json
import RangeAudit.Text.Digit
import RangeAudit.Text.Search

namespace RangeAudit

structure OptionSpec where
  key : String
  names : List String
  takesValue : Bool
  deriving DecidableEq, Repr

def OptionSpec.help : OptionSpec := ⟨"help", ["-h", "--help"], false⟩

/-- What a command may be given: options, and at most one word that belongs to none. -/
structure Grammar where
  options : List OptionSpec
  operand? : Option String
  required : List String
  deriving DecidableEq, Repr

inductive Refusal
  | help | misuse
  deriving DecidableEq, Repr

def Refusal.exitCode : Refusal → Nat
  | help => 0
  | misuse => 2

/-- The arguments of a command by key. An option can be given and yet have no value. -/
structure Given where
  values : List (String × Option String)
  flags : List String
  deriving DecidableEq, Repr

namespace Given

def empty : Given := ⟨[], []⟩

def value? (g : Given) (key : String) : Option String :=
  (g.values.lookup key).join

def isGiven (g : Given) (key : String) : Bool :=
  (g.values.lookup key).isSome

def hasFlag (g : Given) (key : String) : Bool :=
  g.flags.contains key

end Given

namespace Arguments

/-- Whether an option stands alone, or with a text in its own word. -/
inductive Attached
  | alone
  | joined (text : List Char)
  deriving DecidableEq, Repr

inductive Word
  | operand (text : String)
  | separator
  | option (o : OptionSpec) (isShort : Bool) (attached : Attached)
  | unknown
  deriving DecidableEq, Repr

def isNumeral (s : List Char) : Bool :=
  let s := if s.getLast? = some '\n' then s.dropLast else s
  let (whole, rest) := s.span Text.isDecimal
  match rest with
  | [] => !whole.isEmpty
  | '.' :: digits => !digits.isEmpty && digits.all Text.isDecimal
  | _ => false

def splitMark (s : List Char) : List Char × Attached :=
  match s.span (· != '=') with
  | (name, '=' :: value) => (name, .joined value)
  | (name, _) => (name, .alone)

end Arguments

namespace Grammar
open Arguments

def optionNamed? (g : Grammar) (name : String) : Option OptionSpec :=
  g.options.find? (·.names.contains name)

def candidates (g : Grammar) (name : List Char) : List OptionSpec :=
  g.options.flatMap fun o => (o.names.filter (name.isPrefixOf ·.toList)).map fun _ => o

def unnamed (s : List Char) : Word :=
  if isNumeral s.tail || s.contains ' ' then .operand (String.ofList s) else .unknown

def classifyOther (g : Grammar) (c : Char) (rest : List Char) : Except Refusal Word :=
  let word := '-' :: c :: rest
  if c = '-' then
    let (name, attached) := splitMark word
    match g.candidates name with
    | [] => .ok (unnamed word)
    | [o] => .ok (.option o false attached)
    | _ => .error .misuse
  else
    match g.optionNamed? (String.ofList ['-', c]) with
    | some o => .ok (.option o true (.joined rest))
    | none => .ok (unnamed word)

/-- What a word before the separator is. -/
def classify (g : Grammar) (s : String) : Except Refusal Word :=
  match s.toList with
  | '-' :: c :: rest =>
    match g.optionNamed? s with
    | some o => .ok (.option o (c != '-') .alone)
    | none =>
      match splitMark s.toList with
      | (name, .joined value) =>
        match g.optionNamed? (String.ofList name) with
        | some o => .ok (.option o (c != '-') (.joined value))
        | none => g.classifyOther c rest
      | _ => g.classifyOther c rest
  | _ => .ok (.operand s)

def words (g : Grammar) : List String → Except Refusal (List Word)
  | [] => .ok []
  | s :: rest =>
    if s = "--" then .ok (.separator :: rest.map .operand)
    else do
      let w ← g.classify s
      return w :: (← g.words rest)

structure Uses where
  uses : List (OptionSpec × Option String)
  takesNext : Bool
  deriving DecidableEq, Repr

def useAlone (o : OptionSpec) (next? : Option String) : Except Refusal Uses :=
  if o.takesValue then
    match next? with
    | some value => .ok ⟨[(o, some value)], true⟩
    | none => .error .misuse
  else
    .ok ⟨[(o, none)], false⟩

def attachedValue (text : List Char) : Option String :=
  if text = ['-', '-'] then none else some (String.ofList text)

/-- Text in the word of a short option is its value, or names more short options. -/
def useShort (g : Grammar) (next? : Option String) (o : OptionSpec) :
    List Char → Except Refusal Uses
  | [] => if o.takesValue then .ok ⟨[(o, some "")], false⟩ else .error .misuse
  | c :: rest =>
    if o.takesValue then .ok ⟨[(o, attachedValue (c :: rest))], false⟩
    else
      match g.optionNamed? (String.ofList ['-', c]) with
      | none => .error .misuse
      | some o' => do
        let later ← if rest.isEmpty then useAlone o' next? else g.useShort next? o' rest
        return { later with uses := (o, none) :: later.uses }

def use (g : Grammar) (next? : Option String) (o : OptionSpec) (isShort : Bool) :
    Attached → Except Refusal Uses
  | .alone => useAlone o next?
  | .joined text =>
    if isShort then g.useShort next? o text
    else if o.takesValue then .ok ⟨[(o, attachedValue text)], false⟩
    else .error .misuse

end Grammar

namespace Arguments

structure Progress where
  given : Given
  isPending : Bool
  hasExtra : Bool
  deriving DecidableEq, Repr

namespace Progress

/-- Keep an option; being asked for help ends the reading. -/
def keep (p : Progress) : OptionSpec × Option String → Except Refusal Progress
  | (o, value?) =>
    if o.takesValue then .ok { p with given.values := insertKeyed o.key value? p.given.values }
    else if o = .help then .error .help
    else .ok { p with given.flags := p.given.flags ++ [o.key] }

def keepAll (p : Progress) (u : Grammar.Uses) : Except Refusal Progress :=
  u.uses.foldlM keep p

def keepOperand (p : Progress) (key? : Option String) (text : String) : Progress :=
  match key? with
  | some key =>
    if p.isPending then
      { p with given.values := insertKeyed key (some text) p.given.values, isPending := false }
    else { p with hasExtra := true }
  | none => { p with hasExtra := true }

end Progress

end Arguments

namespace Grammar
open Arguments

/-- Read the words one after another. A separator next to the operand is passed over. -/
def consume (g : Grammar) (p : Progress) : List Word → Except Refusal Progress
  | [] => .ok p
  | .operand text :: .separator :: rest =>
    if p.isPending then g.consume (p.keepOperand g.operand? text) rest
    else g.consume { p with hasExtra := true } rest
  | .operand text :: rest => g.consume (p.keepOperand g.operand? text) rest
  | .separator :: rest =>
    g.consume { p with hasExtra := p.hasExtra || !p.isPending || rest.isEmpty } rest
  | .unknown :: rest => g.consume { p with hasExtra := true } rest
  | .option o isShort attached :: .operand text :: rest => do
    let u ← g.use (some text) o isShort attached
    let p ← p.keepAll u
    if u.takesNext then g.consume p rest else g.consume p (.operand text :: rest)
  | .option o isShort attached :: rest => do
    let u ← g.use none o isShort attached
    g.consume (← p.keepAll u) rest
  termination_by l => l.length

def parse (g : Grammar) (args : List String) : Except Refusal Given := do
  let words ← g.words args
  let p ← g.consume ⟨.empty, g.operand?.isSome, false⟩ words
  if p.isPending || p.hasExtra || !g.required.all p.given.isGiven then
    .error .misuse
  else
    .ok p.given

end Grammar

end RangeAudit
