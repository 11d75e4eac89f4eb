import RangeAudit.Analysis.State
import RangeAudit.Number.Reader
import RangeAudit.Operator.Transfer
import RangeAudit.Vocabulary

namespace RangeAudit

structure Effect where
  store? : Option (Place × Interval)
  issues : List Issue
  checked? : Option Place
  failure? : Option Failure
  deriving DecidableEq, Repr

namespace Effect

def nothing : Effect := ⟨none, [], none, none⟩

def store (p : Place) (i : Interval) : Effect :=
  { nothing with store? := some (p, i) }

def fail (f : Failure) : Effect :=
  { nothing with failure? := some f }

end Effect

def insertPlace (places : List Place) (p : Place) : List Place :=
  if places.contains p then places else places ++ [p]

def State.apply (s : State) (e : Effect) : State :=
  { s with
    ranges := match e.store? with
      | some (p, i) => s.ranges.set p i
      | none => s.ranges
    issues := s.issues ++ e.issues
    checked := match e.checked? with
      | some p => insertPlace s.checked p
      | none => s.checked }

namespace Literal

def numeral? (s : String) : Option Int :=
  if Text.startsWith s "0x" then Text.hexInteger? s else Text.decimalInteger? s

def assigned (c : Literal) : Except Failure (Option Number) :=
  match c with
  | .text s =>
    if Text.isDigits s then do return some (.int (← Number.readInteger s))
    else .ok ((numeral? s).map .int)
  | c => .ok c.number?

/-- The interval of a constant operand; a text counts if it is all digits or hexadecimal. -/
def interval (c : Literal) : Except Failure Interval :=
  match c with
  | .int n => .ok (.point (.int n))
  | .truth b => .ok (.point (.int (if b then 1 else 0)))
  | .text s =>
    if Text.isDigits s then do return .point (.int (← Number.readInteger s))
    else if Text.startsWith s "0x" then
      .ok ((Text.hexInteger? s).elim .bottom fun n => .point (.int n))
    else .ok .bottom
  | .empty => .ok .bottom

end Literal

namespace Operand

def interval (r : Ranges) : Operand → Except Failure Interval
  | .place p => .ok (r.getD p)
  | .literal c => c.interval

def argument? (r : Ranges) : Operand → Option Interval
  | .place p => r.get? p
  | .literal c => c.number?.map .point

end Operand

namespace Operator

/-- The alarm for a divisor interval that contains zero. -/
def divisorAlarm? (op : Operator) (l r : Interval) : Option Issue :=
  if op.meetsZero l r then
    some (if (Corners.ofIntervals l r).divisorIsZero then .divisorIsZero (op == .mod)
      else .divisorMayBeZero (op == .mod) r)
  else none

def exceedsWord (x : Number) : Bool :=
  Number.le (.int (Nat.pow 2 256)) x

def overflows (f : Number → Number → Except Failure Number) (l r : Interval) :
    Except Failure Bool :=
  match l.hi, r.hi with
  | some x, some y => do return exceedsWord (← f x y)
  | _, _ => .ok false

def underflows (l r : Interval) : Bool :=
  match l.lo, r.hi with
  | some x, some y => x.lt y
  | _, _ => false

def powerOverflows (l r : Interval) : Bool :=
  match l.hi, r.hi with
  | some x, some y => Number.lt 1 x && Number.lt 1 y && Number.lt 32 y
  | _, _ => false

def wordAlarm (op : Operator) (l r : Interval) (result : Place) : Except Failure (Option Issue) :=
  let alarm (isRaised : Bool) (issue : Issue) : Option Issue :=
    if isRaised then some issue else none
  match op with
  | .add => do return alarm (← overflows Number.add l r) (.additionOverflow result l r)
  | .sub => .ok (alarm (underflows l r && result.isUnsigned) (.subtractionUnderflow result l r))
  | .mul => do return alarm (← overflows Number.mul l r) (.multiplicationOverflow result l r)
  | .pow => .ok (alarm (powerOverflows l r) (.powerOverflow result l r))
  | _ => .ok none

/-- The alarm for a divisor whose bounds are both known and enclose zero. -/
def zeroAlarm? (op : Operator) (dividend : Operand) (r : Interval) (result : Place) :
    Option Issue :=
  match op.isDivision, r.lo, r.hi with
  | true, some x, some y =>
    if x.le 0 && Number.le 0 y then some (.divisionByZero result dividend r) else none
  | _, _, _ => none

end Operator

namespace Effect

def ofOperation (op : Operator) (l r : Interval) (result : Place) : Effect :=
  match Issue.raised (op.divisorAlarm? l r) with
  | .error f => fail f
  | .ok issues =>
    match op.apply l r with
    | .ok i => { store result i with issues }
    | .error f => { fail f with issues }

/-- A checked result can only be divided by zero. -/
def operandAlarms (isChecked : Bool) (op : Operator) (result : Place) (left : Operand)
    (l r : Interval) : Except Failure (List Issue) := do
  let word ← Issue.raised (← if isChecked then .ok none else op.wordAlarm l r result)
  let zero ← Issue.raised (op.zeroAlarm? left r result)
  return word ++ zero

/-- A binary operation on two intervals. The alarms on the operands follow the store. -/
def binaryOn (checked : List Place) (op : Operator) (result : Place) (left : Operand)
    (l r : Interval) : Effect :=
  let e := ofOperation op l r result
  if e.failure?.isSome then e
  else
    match operandAlarms (checked.contains result) op result left l r with
    | .error f => { e with failure? := some f }
    | .ok issues => { e with issues := e.issues ++ issues }

def binary (s : State) (op : Operator) (result : Place) (left right : Operand) : Effect :=
  match right.interval s.ranges with
  | .error f => fail f
  | .ok r =>
    match left.interval s.ranges with
    | .error f => fail f
    | .ok l => binaryOn s.checked op result left l r

/-- An untracked source gives what its type says, or leaves the target as it was. -/
def assign (s : State) (result : Place) (source : Operand) : Effect :=
  match source with
  | .literal c =>
    match c.assigned with
    | .error f => fail f
    | .ok (some x) => store result (.point x)
    | .ok none => nothing
  | .place p =>
    match s.ranges.get? p with
    | some i => store result i
    | none =>
      match p.lowerType? with
      | some type =>
        if Text.contains type "address" then store result .address
        else if Text.contains type "bool" then store result .bit
        else nothing
      | none => nothing

end Effect

namespace TypeClass

def signedRange (bits : Nat) : Number × Number :=
  let half := (Number.int ((bits : Int) - 1)).twoPow
  (half.neg, half.pred)

def unsignedMax (bits : Nat) : Number :=
  .int (Nat.pow 2 bits - 1)

def clip (lo hi : Number) (i : Interval) : Interval :=
  .between (i.lo.elim lo (lo.greatest ·)) (i.hi.elim hi (hi.least ·))

def converted? (t : TypeClass) (i : Interval) : Option Interval :=
  match t with
  | .unsigned bits => some (clip 0 (unsignedMax bits) i)
  | .signed bits => some (clip (signedRange bits).1 (signedRange bits).2 i)
  | .address => some .address
  | .truth =>
    some (if i.lo.any (Number.lt 0 ·) then .point 1
      else if i.hi.any (·.le 0) then .point 0
      else .bit)
  | .other => none

end TypeClass

namespace Effect

def convert (s : State) (result : Place) (source : Operand) : Effect :=
  match source.place?.bind s.ranges.get?, result.lowerType? with
  | some i, some type =>
    match TypeClass.ofText type with
    | .error f => fail f
    | .ok t => (t.converted? i).elim nothing (store result)
  | _, _ => nothing

def memberInterval? (base field : String) : Option Interval :=
  if base == "msg" && field == "value" then some .unsignedWord
  else if base == "block" && field == "timestamp" then some (.between 0 4102444800)
  else if base == "block" && field == "number" then some (.between 0 (.int (Nat.pow 2 64 - 1)))
  else if base == "tx" && field == "gasprice" then some (.between 0 (.int (Nat.pow 10 18)))
  else if field == "balance" then some .unsignedWord
  else none

def storeAt (owner : String) (result? : Option Place) (i : Interval) : Effect :=
  match result? with
  | some p => store p i
  | none => fail (.missing owner "lvalue")

def member (result? : Option Place) (base field : String) : Effect :=
  match memberInterval? (Text.lower base) (Text.lower field) with
  | some i => storeAt "Member" result? i
  | none => nothing

def isCheckedLibrary (c : Callee) : Bool :=
  c.library?.any fun name => Text.contains (Text.lower name) "math"

def arithmeticNames : List String := ["add", "sub", "mul", "div", "mod"]

def arithmeticCall (s : State) (result? : Option Place) (name : String) (checked : Bool)
    (args : List Operand) : Effect :=
  match args.mapM (·.argument? s.ranges) with
  | some (l :: r :: _) =>
    match result? with
    | some p =>
      let e := ofOperation (.ofText none name) l r p
      if checked && e.failure?.isNone then { e with checked? := some p } else e
    | none =>
      let e := ofOperation (.ofText none name) l r .unnamed
      { e with
        store? := none, failure? := e.failure?.or (some (.missing "SolidityCall" "lvalue")) }
  | _ => nothing

def choose (choice : String) (pick : Number → Number → Number) (bounds : List (Option Number)) :
    Except Failure Number :=
  match bounds.filterMap id with
  | [] => .error (.emptyChoice choice)
  | x :: xs => .ok (xs.foldl pick x)

/-- The interval of the least argument: the first lower bound and the least upper bound. -/
def leastInterval (first : Interval) (rest : List Interval) : Except Failure Interval := do
  let hi ← choose "min" .least ((first :: rest).map (·.hi))
  return ⟨first.lo, some hi⟩

/-- The interval of the greatest argument: the greatest of the bounds on each side. -/
def greatestInterval (first : Interval) (rest : List Interval) : Except Failure Interval := do
  let hi ← choose "max" .greatest ((first :: rest).map (·.hi))
  let lo ← choose "max" .greatest ((first :: rest).map (·.lo))
  return ⟨some lo, some hi⟩

def choiceCall (s : State) (result? : Option Place)
    (interval : Interval → List Interval → Except Failure Interval) (args : List Operand) :
    Effect :=
  match args.filterMap (·.argument? s.ranges) with
  | a :: b :: rest =>
    match interval a (b :: rest) with
    | .ok i => storeAt "SolidityCall" result? i
    | .error f => fail f
  | _ => nothing

def withArgs (args : Args) (next : List Operand → Effect) : Effect :=
  match args with
  | .given l => next l
  | _ => fail (.noItems "NoneType")

def builtinNamed (s : State) (result? : Option Place) (callee : Callee) (name : String)
    (args : Args) : Effect :=
  if arithmeticNames.contains name then
    withArgs args (arithmeticCall s result? name (isCheckedLibrary callee))
  else if name == "min" then withArgs args (choiceCall s result? leastInterval)
  else if name == "max" then withArgs args (choiceCall s result? greatestInterval)
  else nothing

def builtin (s : State) (result? : Option Place) (target : Target) (args : Args) : Effect :=
  match target, args with
  | .absent, _ => nothing
  | _, .missing => nothing
  | .unresolved, _ => fail (.missing "NoneType" "name")
  | .known callee, args =>
    match callee.name with
    | .missing => fail (.missing "Function" "name")
    | .empty => fail (.missing "NoneType" "lower")
    | .given name => builtinNamed s result? callee (Text.lower name) args

def resultByName? (name : String) : Option Interval :=
  if Text.contains name "balance" || ["total", "supply"].all (Text.contains name) then
    some .unsignedWord
  else if Text.containsAny name ["price", "rate"] then some (.between 0 (.int (Nat.pow 10 36)))
  else if Text.contains name "allowance" then some .unsignedWord
  else if Text.contains name "decimals" then some (.between 0 18)
  else none

def resultByType? (type : String) : Option Interval :=
  if Text.contains type "bool" then some .bit
  else if Text.contains type "address" then some .address
  else none

/-- What is known of the result of a call, by the name of the function, then by its type. -/
def resultOf? (target : Target) : Except Failure (Option Interval) :=
  let byType (callee : Callee) : Option Interval :=
    callee.returnType?.bind fun type => resultByType? (Text.lower type)
  match target with
  | .known callee =>
    match callee.name with
    | .missing => .ok (byType callee)
    | .empty => .error (.missing "NoneType" "lower")
    | .given name => .ok ((resultByName? (Text.lower name)).orElse fun _ => byType callee)
  | _ => .ok none

/-- A critical result about which nothing is known may be any unsigned word. -/
def call (result? : Option Place) (target : Target) (args : Args) : Effect :=
  match target, result?, args with
  | .absent, _, _ => nothing
  | _, none, _ => nothing
  | _, _, .missing => nothing
  | target, some p, _ =>
    match resultOf? target with
    | .error f => fail f
    | .ok (some i) => store p i
    | .ok none => if p.isCritical then store p .unsignedWord else nothing

end Effect

def Shape.name : Shape → String
  | binary => "Binary"
  | assign => "Assignment"
  | convert => "TypeConversion"

def Instr.effect (s : State) : Instr → Effect
  | .binary op result left right => .binary s op result left right
  | .assign result source => .assign s result source
  | .convert result source => .convert s result source
  | .member result? base field => .member result? base field
  | .builtin result? target args _ => .builtin s result? target args
  | .call _ result? target args => .call result? target args
  | .condition _ => .nothing
  | .other result? _ target args => .call result? target args
  | .incomplete shape part _ _ => .fail (.missing shape.name part)

def Instr.process (i : Instr) : Analysis Unit := fun s =>
  let e := i.effect s
  match e.failure? with
  | none => .ok () (s.apply e)
  | some f => .error f (s.apply e)

end RangeAudit
