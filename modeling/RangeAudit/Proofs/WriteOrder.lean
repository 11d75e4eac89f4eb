import RangeAudit.Detector.FlashCallback
import RangeAudit.Proofs.ControlFlow
import RangeAudit.Proofs.Occurrence
import RangeAudit.Proofs.Start

namespace RangeAudit

/-- The callee of a call that hands control to another contract, as far as it is known. -/
def Instr.outerCallee? : Instr → Option (Option Callee)
  | .call .low _ (.known callee) _ | .call .high _ (.known callee) _
  | .call .send _ (.known callee) _ | .call .transfer _ (.known callee) _ => some (some callee)
  | .call .low _ _ _ | .call .high _ _ _ | .call .send _ _ _ | .call .transfer _ _ _ => some none
  | _ => none

theorem Instr.outerCallee?_eq (i : Instr) :
    i.outerCallee? = if i.isExternalCall then some i.callee? else none := by
  cases i with
  | call kind result? target args => cases kind <;> cases target <;> rfl
  | binary | assign | convert | member | builtin | condition | other | incomplete => rfl

namespace Function

variable {f : Function} {i j k : Nat} {v : Variable} {callee? : Option Callee} {order : SetOrder}

/-- The state variables that the nodes write, each once, in the order of the first writes. -/
def writtenBy (nodes : List Node) : List Variable :=
  (nodes.flatMap (·.written)).eraseDups

theorem addNew_eraseDups (l vars : List Variable) :
    addNew l.eraseDups vars = (l ++ vars).eraseDups := by
  induction vars generalizing l with
  | nil => rw [List.append_nil, addNew, List.foldl_nil]
  | cons v vars ih =>
    have hstep : addNew l.eraseDups (v :: vars) = addNew (l ++ [v]).eraseDups vars := by
      simp only [eraseDups_concat, addNew, List.foldl_cons, List.contains_iff_mem,
        List.mem_eraseDups]
    rw [hstep, ih, List.append_assoc, List.singleton_append]

theorem addNew_writtenBy (before : List Node) (n : Node) :
    addNew (writtenBy before) n.written = writtenBy (before ++ [n]) := by
  rw [writtenBy, addNew_eraseDups, writtenBy, List.flatMap_append, List.flatMap_singleton]

def pairsOf (vars : List Variable) (n : Node) : List (Variable × Option Callee) :=
  (n.instrs.filterMap Instr.outerCallee?).flatMap fun callee? => vars.map fun v => (v, callee?)

theorem flatMap_externalCalls (vars : List Variable) (instrs : List Instr) :
    ((instrs.filter (·.isExternalCall)).flatMap fun call => vars.map fun v => (v, call.callee?)) =
      (instrs.filterMap Instr.outerCallee?).flatMap fun callee? =>
        vars.map fun v => (v, callee?) := by
  induction instrs with
  | nil => rfl
  | cons i instrs ih =>
    cases hi : i.isExternalCall with
    | true => simp [i.outerCallee?_eq, hi, ih]
    | false => simp [i.outerCallee?_eq, hi, ih]

/-- What the walk along a list has seen when it comes to a node is what the nodes up to it write. -/
theorem callsAfterWrites_writtenBy (order : SetOrder) (before nodes : List Node) :
    callsAfterWrites order (writtenBy before) nodes =
      (nodes.zipIdx before.length).flatMap fun e =>
        pairsOf (order.arrange (writtenBy ((before ++ nodes).take (e.2 + 1)))) e.1 := by
  induction nodes generalizing before with
  | nil => rfl
  | cons n rest ih =>
    have hnow : (before ++ n :: rest).take (before.length + 1) = before ++ [n] := by
      rw [List.take_length_add_append, List.take_succ_cons, List.take_zero]
    have hlater := ih (before ++ [n])
    rw [List.length_append, List.length_singleton, List.append_assoc, List.singleton_append]
      at hlater
    rw [callsAfterWrites, addNew_writtenBy, hlater, List.zipIdx_cons, List.flatMap_cons, hnow,
      flatMap_externalCalls, pairsOf]

theorem writesBeforeCalls_eq_callsAfterWrites (order : SetOrder) (f : Function) :
    f.writesBeforeCalls order = callsAfterWrites order (writtenBy []) f.nodes := by
  rw [writesBeforeCalls]
  split
  · rename_i hnone
    rw [List.isEmpty_iff, externalCalls, List.filter_eq_nil_iff] at hnone
    have hnode : ∀ n ∈ f.nodes, n.instrs.filterMap Instr.outerCallee? = [] := by
      intro n hn
      rw [List.filterMap_eq_nil_iff]
      intro i hi
      rw [i.outerCallee?_eq, if_neg (hnone i (List.mem_flatMap.2 ⟨n, hn, hi⟩))]
    rw [callsAfterWrites_writtenBy, eq_comm, List.flatMap_eq_nil_iff]
    intro e he
    rw [pairsOf, hnode e.1 (List.fst_mem_of_mem_zipIdx he), List.flatMap_nil]
  · rfl

/-- Each callee is paired with what was written until then, in the order of the set. -/
theorem writesBeforeCalls_eq_pairs (order : SetOrder) (f : Function) :
    f.writesBeforeCalls order = f.nodes.zipIdx.flatMap fun (n, j) =>
      (n.instrs.filterMap Instr.outerCallee?).flatMap fun callee? =>
        (order.arrange (writtenBy (f.nodes.take (j + 1)))).map fun v => (v, callee?) := by
  rw [writesBeforeCalls_eq_callsAfterWrites, callsAfterWrites_writtenBy]
  rfl

def swap : Callee :=
  ⟨.given "swap", none, none, .given []⟩

def settlement : Function :=
  .ofNodes [] [
    { Node.ofInstrs [] [1] with written := [.stateOfType "fee" "uint256"] },
    { Node.ofInstrs [] [2] with written := [.stateOfType "balance" "uint256"] },
    .ofInstrs [.call .high (some .unnamed) (.known swap) (.given [])] []]

/-- A set that gives the last member first pairs the balance before the fee. -/
theorem settlement_reversed :
    writtenBy settlement.nodes = [.stateOfType "fee" "uint256", .stateOfType "balance" "uint256"] ∧
      settlement.writesBeforeCalls ⟨List.reverse, List.reverse_perm⟩ =
        [(.stateOfType "balance" "uint256", some swap),
          (.stateOfType "fee" "uint256", some swap)] := by
  decide

def WritesAt (f : Function) (i : Nat) (v : Variable) : Prop :=
  ∃ n, f.nodes[i]? = some n ∧ v ∈ n.written

def CallsAt (f : Function) (j : Nat) (callee? : Option Callee) : Prop :=
  ∃ n call, f.nodes[j]? = some n ∧ call ∈ n.instrs ∧ call.outerCallee? = some callee?

theorem mem_writtenBy_take : v ∈ writtenBy (f.nodes.take (j + 1)) ↔ ∃ i ≤ j, f.WritesAt i v := by
  rw [writtenBy, List.mem_eraseDups, List.mem_flatMap]
  constructor
  · rintro ⟨n, hn, hv⟩
    obtain ⟨i, hi, hn⟩ := mem_take_nodes.1 hn
    exact ⟨i, Nat.le_of_lt_succ hi, n, hn, hv⟩
  · rintro ⟨i, hi, n, hn, hv⟩
    exact ⟨n, mem_take_nodes.2 ⟨i, Nat.lt_succ_of_le hi, hn⟩, hv⟩

theorem mem_writesBeforeCalls :
    (v, callee?) ∈ f.writesBeforeCalls order ↔
      ∃ i j, i ≤ j ∧ f.WritesAt i v ∧ f.CallsAt j callee? := by
  rw [writesBeforeCalls_eq_callsAfterWrites, callsAfterWrites_writtenBy, List.mem_flatMap]
  constructor
  · rintro ⟨⟨n, j⟩, hn, hpair⟩
    obtain ⟨callee?, hcallee, hpair⟩ := List.mem_flatMap.1 hpair
    obtain ⟨w, hw, heq⟩ := List.mem_map.1 hpair
    cases heq
    obtain ⟨i, hi, hwrites⟩ := mem_writtenBy_take.1 ((order.perm _).mem_iff.1 hw)
    obtain ⟨call, hcall, houter⟩ := List.mem_filterMap.1 hcallee
    exact ⟨i, j, hi, hwrites, n, call, List.mem_zipIdx_iff_getElem?.1 hn, hcall, houter⟩
  · rintro ⟨i, j, hi, hwrites, n, call, hn, hcall, houter⟩
    have hw : v ∈ order.arrange (writtenBy (f.nodes.take (j + 1))) :=
      (order.perm _).mem_iff.2 (mem_writtenBy_take.2 ⟨i, hi, hwrites⟩)
    refine ⟨(n, j), List.mem_zipIdx_iff_getElem?.2 hn, List.mem_flatMap.2 ⟨callee?, ?_, ?_⟩⟩
    · exact List.mem_filterMap.2 ⟨call, hcall, houter⟩
    · exact List.mem_map.2 ⟨v, hw, rfl⟩

/-- Wherever a path of one edge or more leads from a write to a call, the two are paired. -/
def PairsPaths (order : SetOrder) (f : Function) : Prop :=
  ∀ i j v callee?, Relation.TransGen f.Leads i j → f.WritesAt i v → f.CallsAt j callee? →
    (v, callee?) ∈ f.writesBeforeCalls order

theorem IsForward.pairsPaths (hf : f.IsForward) : f.PairsPaths order :=
  fun i j _ _ hpath hwrites hcalls =>
    mem_writesBeforeCalls.2 ⟨i, j, hf.le_of_path hpath, hwrites, hcalls⟩

/-- The same edges, with one node that writes the state and one that calls another contract. -/
def withWriteAndCall (f : Function) (i k : Nat) : Function :=
  f.withActions (fun m => if m = k then [.call .low none .unresolved .empty] else [])
    fun m => if m = i then [.stateOfType "v" "uint256"] else []

theorem withWriteAndCall_writesAt :
    (f.withWriteAndCall i k).WritesAt j v ↔
      j < f.nodes.length ∧ j = i ∧ v = .stateOfType "v" "uint256" := by
  constructor
  · rintro ⟨n, hn, hv⟩
    rw [(of_withActions_node hn).2] at hv
    have hj : j < f.nodes.length := by
      simpa [withWriteAndCall, withActions] using (List.getElem?_eq_some_iff.1 hn).1
    by_cases hji : j = i
    · exact ⟨hj, hji, by simpa [hji] using hv⟩
    · simp [hji] at hv
  · rintro ⟨hj, rfl, rfl⟩
    exact ⟨_, withActions_node (List.getElem?_eq_getElem hj), by simp⟩

theorem withWriteAndCall_callsAt :
    (f.withWriteAndCall i k).CallsAt j callee? ↔
      j < f.nodes.length ∧ j = k ∧ callee? = none := by
  constructor
  · rintro ⟨n, call, hn, hcall, houter⟩
    rw [(of_withActions_node hn).1] at hcall
    have hj : j < f.nodes.length := by
      simpa [withWriteAndCall, withActions] using (List.getElem?_eq_some_iff.1 hn).1
    by_cases hjk : j = k
    · obtain rfl : call = .call .low none .unresolved .empty := by simpa [hjk] using hcall
      cases houter
      exact ⟨hj, hjk, rfl⟩
    · simp [hjk] at hcall
  · rintro ⟨hj, rfl, rfl⟩
    exact ⟨_, .call .low none .unresolved .empty,
      withActions_node (List.getElem?_eq_getElem hj), by simp, rfl⟩

/-- Along an edge back, a write at its start and a call at its end are not paired. -/
theorem withWriteAndCall_not_pairsPaths (h : f.Leads i k) (hback : k < i) :
    ¬ (f.withWriteAndCall i k).PairsPaths order := by
  intro hpairs
  obtain ⟨n, hn, -⟩ := id h
  have hi : i < f.nodes.length := (List.getElem?_eq_some_iff.1 hn).1
  have hedges : (f.withWriteAndCall i k).SameEdges f := withActions_sameEdges f _ _
  have hpath : Relation.TransGen (f.withWriteAndCall i k).Leads i k :=
    .single (hedges.leads_eq ▸ h)
  obtain ⟨i', k', hle, hwrites, hcalls⟩ := mem_writesBeforeCalls.1
    (hpairs i k _ _ hpath (withWriteAndCall_writesAt.2 ⟨hi, rfl, rfl⟩)
      (withWriteAndCall_callsAt.2 ⟨hback.trans hi, rfl, rfl⟩))
  obtain ⟨-, rfl, -⟩ := withWriteAndCall_writesAt.1 hwrites
  obtain ⟨-, rfl, -⟩ := withWriteAndCall_callsAt.1 hcalls
  omega

/-- All paths are paired, whatever the nodes do, exactly if no edge leads back. -/
theorem pairsPaths_iff_isForward (order : SetOrder) (f : Function) :
    (∀ v callee?, (v, callee?) ∈ f.writesBeforeCalls order ↔
      ∃ i j, i ≤ j ∧ f.WritesAt i v ∧ f.CallsAt j callee?) ∧
    ((∀ g : Function, g.SameEdges f → g.PairsPaths order) ↔ f.IsForward) := by
  refine ⟨fun v callee? => mem_writesBeforeCalls, fun hall i k hleads => ?_, fun hf g hg => ?_⟩
  · by_contra hback
    have hedges : (f.withWriteAndCall i k).SameEdges f := withActions_sameEdges f _ _
    exact withWriteAndCall_not_pairsPaths hleads (by omega) (hall _ hedges)
  · exact IsForward.pairsPaths fun i k hleads => hf i k (hg.leads_eq ▸ hleads)

/-- A callback that in each round of a loop calls another contract and then writes its state. -/
def settleLoop : Function :=
  { Function.ofNodes [] [
      .ofInstrs [] [1],
      .ofInstrs [.call .high (some .unnamed) (.known swap) (.given [])] [2],
      { Node.ofInstrs [] [1] with written := [.stateOfType "v" "uint256"] }] with
    name := "onFlashLoan"
    signature := .text "onFlashLoan(address,address,uint256,uint256,bytes)" }

/-- The write of a round comes before the call of the next one, and they are not paired. -/
theorem settleLoop_unpaired :
    Relation.TransGen settleLoop.Leads 2 1 ∧ settleLoop.WritesAt 2 (.stateOfType "v" "uint256") ∧
      settleLoop.CallsAt 1 (some swap) ∧
      ∀ order : SetOrder, settleLoop.writesBeforeCalls order = [] := by
  refine ⟨.single ⟨_, rfl, by decide⟩, ⟨_, rfl, by decide⟩,
    ⟨_, _, rfl, List.mem_cons_self, rfl⟩, ?_⟩
  intro order
  have hnone : order.arrange [] = [] := (order.perm []).eq_nil
  have hwalk : settleLoop.writesBeforeCalls order =
      ((order.arrange []).map (fun v => (v, some swap)) ++ []) ++ [] := rfl
  rw [hwalk, hnone]
  rfl

end Function

end RangeAudit
