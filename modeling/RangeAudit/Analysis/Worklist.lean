import RangeAudit.Analysis.Change
import RangeAudit.Analysis.Condition

namespace RangeAudit

structure Config where
  /-- The visit of a node from which on intervals are widened. -/
  wideningThreshold : Int := 3
  narrowingSweeps : Int := 2
  maxBatches : Int := 20
  batchSize : Int := 5
  order : SetOrder := .ofInsertion

namespace Node

def run (n : Node) : Analysis Unit := do
  if n.isBranch then n.condition.assume
  n.instrs.forM Instr.process

end Node

/-- How often a node was visited, and the ranges found at the start of its last visit. -/
structure Visit where
  count : Nat
  before : Ranges
  deriving DecidableEq, Repr

structure Progress where
  queue : List Nat
  processed : List Nat
  visits : List (Nat × Visit)
  deriving DecidableEq, Repr

namespace Progress

def start (f : Function) : Progress :=
  ⟨List.range f.nodes.length, [], []⟩

def visit? (p : Progress) (node : Nat) : Option Visit :=
  p.visits.lookup node

def noteVisit (p : Progress) (node : Nat) (v : Visit) : Progress :=
  { p with visits := (node, v) :: p.visits }

def queueSons (p : Progress) (sons : List Nat) : Progress :=
  { p with
    queue := sons.foldl
      (fun queue son =>
        if !p.processed.contains son || queue.contains son then queue ++ [son] else queue)
      p.queue }

def markProcessed (p : Progress) (node : Nat) : Progress :=
  if p.processed.contains node then p else { p with processed := p.processed ++ [node] }

end Progress

/-- Carry a node out, widen from a certain visit on, and queue its successors on a change. -/
def visitNode (cfg : Config) (index : Nat) (node : Node) (p : Progress) : Analysis Progress := do
  let before := (← get).ranges.snapshot
  let count := ((p.visit? index).elim 0 (·.count)) + 1
  node.run
  if cfg.wideningThreshold ≤ count then
    modify fun s => { s with ranges := s.ranges.widenFrom before }
  let changed ← .ofExcept ((← get).ranges.changedSince defaultThreshold before)
  let p := p.noteVisit index ⟨count, before⟩
  let p := if changed then p.queueSons node.sons else p
  return p.markProcessed index

def visitBatch (cfg : Config) (nodes : List Node) : List Nat → Progress → Analysis Progress
  | [], p => pure p
  | index :: rest, p => do
    let p ← match nodes[index]? with
      | some node => visitNode cfg index node p
      | none => pure p
    visitBatch cfg nodes rest p

/-- Take batches off the queue until it is empty or the given number of batches is used up. -/
def workOff (cfg : Config) (nodes : List Node) : Nat → Progress → Analysis Progress
  | 0, p => pure p
  | batches + 1, p =>
    if p.queue.isEmpty then pure p
    else do
      let size := cfg.batchSize.toNat
      let p ← visitBatch cfg nodes (p.queue.take size) { p with queue := p.queue.drop size }
      workOff cfg nodes batches p

/-- Carry out a visited node again and narrow towards the ranges of its last visit. -/
def narrowNode (p : Progress) (index : Nat) (node : Node) : Analysis Unit := do
  match p.visit? index with
  | none => pure ()
  | some v =>
    node.run
    modify fun s => { s with ranges := s.ranges.narrowTo v.before }

def narrowSweep (p : Progress) (index : Nat) : List Node → Analysis Unit
  | [] => pure ()
  | node :: rest => do
    narrowNode p index node
    narrowSweep p (index + 1) rest

def narrowSweeps (p : Progress) (nodes : List Node) : Nat → Analysis Unit
  | 0 => pure ()
  | sweeps + 1 => do
    narrowSweep p 0 nodes
    narrowSweeps p nodes sweeps

namespace TypeClass

def paramInterval : TypeClass → Interval
  | .unsigned bits => .between 0 (unsignedMax bits)
  | .signed bits => .between (signedRange bits).1 (signedRange bits).2
  | .address => .address
  | .truth => .bit
  | .other => .unsignedWord

end TypeClass

namespace Variable

def place (v : Variable) : Place := .var v

def paramInterval (v : Variable) : Except Failure Interval :=
  v.place.lowerType?.elim (.ok .unsignedWord) fun type =>
    TypeClass.paramInterval <$> TypeClass.ofText type

/-- The interval a critical state variable starts with where it is read first. -/
def stateInterval? (v : Variable) : Option Interval :=
  v.place.lowerType?.bind fun type =>
    if Text.contains type "uint" then some .unsignedWord
    else if Text.contains type "int" then some .signedWord
    else none

def localInterval (v : Variable) : Interval :=
  v.place.lowerType?.elim .unsignedWord fun type =>
    if Text.contains type "uint" then .unsignedWord
    else if Text.contains type "int" then .signedWord
    else if Text.contains type "bool" then .bit
    else .unsignedWord

end Variable

namespace Ranges

def addParam (r : Ranges) (v : Variable) : Except Failure Ranges :=
  if v.place.isCritical then r.set v.place <$> v.paramInterval else .ok r

def addSource (r : Ranges) (i : Instr) : Ranges :=
  match i.source? with
  | some (.place (.var v)) =>
    if !r.contains v.place && v.kind == .stateVariable && v.place.isCritical then
      r.setSome v.place v.stateInterval?
    else r
  | _ => r

def addLocal (r : Ranges) (v : Variable) : Ranges :=
  if v.place.isCritical && !r.contains v.place then r.set v.place v.localInterval else r

end Ranges

namespace Function

def resultsOfKind (f : Function) (kind : VariableKind) : List Variable :=
  f.instrs.filterMap fun i =>
    match i.result? with
    | some (.var v) => if v.kind == kind then some v else none
    | _ => none

def trackParam (v : Variable) : Analysis Unit := do
  let r ← .ofExcept ((← get).ranges.addParam v)
  modify fun s => { s with ranges := r }

/-- The local and temporary variables that are written, as their set is gone through. -/
def localResults (order : SetOrder) (f : Function) : List Variable :=
  order.arrange (f.resultsOfKind .localVariable ++ f.resultsOfKind .temporary).eraseDups

def addVariables (order : SetOrder) (f : Function) (r : Ranges) : Ranges :=
  (f.localResults order).foldl .addLocal (f.instrs.foldl .addSource r)

def start (order : SetOrder) (f : Function) : Analysis Unit := do
  modify fun s => { s with ranges := .empty }
  f.params.forM trackParam
  modify fun s => { s with ranges := f.addVariables order s.ranges }

def iterate (cfg : Config) (f : Function) : Analysis Unit := do
  let p ← workOff cfg f.nodes cfg.maxBatches.toNat (.start f)
  narrowSweeps p f.nodes cfg.narrowingSweeps.toNat

def analyze (cfg : Config) (f : Function) : Analysis Unit := do
  f.start cfg.order
  f.iterate cfg

end Function

end RangeAudit
