import RangeAudit.Detector.UncheckedBalance
import RangeAudit.Proofs.ControlFlow
import RangeAudit.Proofs.Start

namespace RangeAudit

def SucceedsWith {α : Type} (x : Except Failure α) (good : Prop) (a : α) : Prop :=
  ∀ b, x = .ok b ↔ good ∧ b = a

namespace SucceedsWith

variable {α β : Type} {x : Except Failure α} {next : α → Except Failure β} {good good' : Prop}
  {a : α} {b : β}

theorem ok (a : α) : SucceedsWith (.ok a) True a := by
  intro b
  rw [Except.ok.injEq, true_and, eq_comm]

theorem error (e : Failure) (a : α) : SucceedsWith (.error e) False a :=
  fun _ => ⟨nofun, fun h => h.1.elim⟩

theorem congr (h : SucceedsWith x good a) (hgood : good ↔ good') : SucceedsWith x good' a :=
  fun b => (h b).trans (and_congr_left' hgood)

theorem bind (hx : SucceedsWith x good a) (hnext : SucceedsWith (next a) good' b) :
    SucceedsWith (x >>= next) (good ∧ good') b := by
  intro r
  constructor
  · intro h
    obtain ⟨a', ha', h⟩ := ok_of_bind h
    obtain ⟨hgood, rfl⟩ := (hx a').1 ha'
    obtain ⟨hgood', rfl⟩ := (hnext r).1 h
    exact ⟨⟨hgood, hgood'⟩, rfl⟩
  · rintro ⟨⟨hgood, hgood'⟩, rfl⟩
    rw [(hx a).2 ⟨hgood, rfl⟩]
    exact (hnext r).2 ⟨hgood', rfl⟩

theorem map (hx : SucceedsWith x good a) (g : α → β) :
    SucceedsWith (x >>= fun a => .ok (g a)) good (g a) :=
  (hx.bind (ok (g a))).congr (iff_of_eq (and_true _))

theorem gather {find : α → Except Failure (List Finding)} {good : α → Prop}
    {found : α → List Finding} {l : List α}
    (h : ∀ a ∈ l, SucceedsWith (find a) (good a) (found a)) :
    SucceedsWith (gather find l) (∀ a ∈ l, good a) (l.flatMap found) := by
  induction l with
  | nil => exact (ok []).congr (iff_of_true trivial (List.forall_mem_nil _))
  | cons a l ih =>
    obtain ⟨ha, hl⟩ := List.forall_mem_cons.1 h
    have hrest := (ih hl).map (found a ++ ·)
    exact (ha.bind hrest).congr List.forall_mem_cons.symm

end SucceedsWith

namespace UncheckedBalance

/-- An assignment in a function, at the position of a node. -/
structure Change where
  function : Function
  position : Nat
  instr : Instr
  deriving DecidableEq

end UncheckedBalance

open UncheckedBalance

def Node.IsNamed (n : Node) : Prop :=
  ∀ i ∈ n.instrs, (assignedName? i).toOption.isSome

instance (n : Node) : Decidable n.IsNamed :=
  inferInstanceAs (Decidable (∀ i ∈ n.instrs, (assignedName? i).toOption.isSome))

namespace Contract

variable {c : Contract} {i : Instr}

def balances (c : Contract) : List Variable :=
  c.stateVariables.filter fun v => v.type?.any (Text.contains · "mapping(address=>uint256)")

/-- Whether the instruction assigns to something whose name begins with that of a balance. -/
def assigns (c : Contract) (i : Instr) : Bool :=
  match assignedName? i with
  | .ok (some name) => c.balances.any fun b => Text.startsWith name b.name
  | _ => false

def checks (c : Contract) (n : Node) : Bool :=
  n.instrs.any (checksBalance c c.balances)

def ChecksAt (c : Contract) (f : Function) (j : Nat) : Prop :=
  ∃ n v b, f.nodes[j]? = some n ∧ .condition (.place (.var v)) ∈ n.instrs ∧
    b ∈ c.balances ∧ c.deps.relates v b

/-- On every path from the first node, a check comes before the node at a position. -/
def Guards (c : Contract) (f : Function) (k : Nat) : Prop :=
  ∀ path, f.IsPathTo path k → ∃ j ∈ path.dropLast, c.ChecksAt f j

def changes (c : Contract) : List Change :=
  c.functions.flatMap fun f => f.nodes.zipIdx.flatMap fun (n, k) =>
    (n.instrs.filter c.assigns).map fun i => ⟨f, k, i⟩

def reports (c : Contract) (x : Change) : Bool :=
  !(x.function.nodes.take x.position).any c.checks

/-- What the detector asks for: types of state variables and targets of assignments. -/
structure IsReadable (c : Contract) : Prop where
  typed : ∀ v ∈ c.stateVariables, v.type?.isSome
  named : c.balances ≠ [] → ∀ f ∈ c.functions, ∀ n ∈ f.nodes, n.IsNamed

theorem mem_changes {x : Change} : x ∈ c.changes ↔
    x.function ∈ c.functions ∧ (∃ n, x.function.nodes[x.position]? = some n ∧ x.instr ∈ n.instrs) ∧
      c.assigns x.instr := by
  constructor
  · intro hx
    obtain ⟨f, hf, hx⟩ := List.mem_flatMap.1 hx
    obtain ⟨⟨n, k⟩, hn, hx⟩ := List.mem_flatMap.1 hx
    obtain ⟨i, hi, rfl⟩ := List.mem_map.1 hx
    obtain ⟨hi, hassigns⟩ := List.mem_filter.1 hi
    exact ⟨hf, ⟨n, List.mem_zipIdx_iff_getElem?.1 hn, hi⟩, hassigns⟩
  · rintro ⟨hf, ⟨n, hn, hi⟩, hassigns⟩
    refine List.mem_flatMap.2 ⟨x.function, hf, List.mem_flatMap.2 ⟨(n, x.position), ?_, ?_⟩⟩
    · exact List.mem_zipIdx_iff_getElem?.2 hn
    · exact List.mem_map.2 ⟨x.instr, List.mem_filter.2 ⟨hi, hassigns⟩, rfl⟩

theorem assigns_ne_nil (c : Contract) (h : c.assigns i) : c.balances ≠ [] := by
  intro hnone
  unfold assigns at h
  split at h
  · rw [hnone] at h
    cases h
  · cases h

theorem checksBalance_iff : checksBalance c c.balances i ↔
    ∃ v b, i = .condition (.place (.var v)) ∧ b ∈ c.balances ∧ c.deps.relates v b := by
  unfold checksBalance
  split
  · rw [List.any_eq_true]
    constructor
    · rintro ⟨b, hb, hrelates⟩
      exact ⟨_, b, rfl, hb, hrelates⟩
    · rintro ⟨v, b, heq, hb, hrelates⟩
      cases heq
      exact ⟨b, hb, hrelates⟩
  · rename_i hother
    constructor
    · exact fun h => by cases h
    · rintro ⟨v, b, rfl, -, -⟩
      exact absurd rfl (hother v)

theorem reports_eq_false_iff {x : Change} :
    c.reports x = false ↔ ∃ j < x.position, c.ChecksAt x.function j := by
  rw [reports, Bool.not_eq_false', List.any_eq_true]
  constructor
  · rintro ⟨n, hn, hchecks⟩
    obtain ⟨j, hj, hn⟩ := Function.mem_take_nodes.1 hn
    obtain ⟨i, hi, hchecks⟩ := List.any_eq_true.1 hchecks
    obtain ⟨v, b, rfl, hb, hrelates⟩ := checksBalance_iff.1 hchecks
    exact ⟨j, hj, n, v, b, hn, hi, hb, hrelates⟩
  · rintro ⟨j, hj, n, v, b, hn, hi, hb, hrelates⟩
    refine ⟨n, Function.mem_take_nodes.2 ⟨j, hj, hn⟩, List.any_eq_true.2 ⟨_, hi, ?_⟩⟩
    exact checksBalance_iff.2 ⟨v, b, rfl, hb, hrelates⟩

end Contract

namespace UncheckedBalance

variable {f : Function} {n : Node}

def finding (c : Contract) (f : Function) : Finding :=
  .plain profile ("Unchecked balance change in " ++ f.name ++ " (" ++ c.name ++ ")\n")

theorem balancesOf_succeeds (l : List Variable) :
    SucceedsWith (balancesOf l) (∀ v ∈ l, v.type?.isSome)
      (l.filter fun v => v.type?.any (Text.contains · "mapping(address=>uint256)")) := by
  induction l with
  | nil => exact (SucceedsWith.ok []).congr (iff_of_true trivial (List.forall_mem_nil _))
  | cons v l ih =>
    have hv : SucceedsWith (isBalance v) v.type?.isSome
        (v.type?.any (Text.contains · "mapping(address=>uint256)")) := by
      unfold isBalance
      cases v.type? with
      | none => exact (SucceedsWith.error _ _).congr (iff_of_false id Bool.false_ne_true)
      | some type => exact (SucceedsWith.ok _).congr (iff_of_true trivial rfl)
    rw [List.filter_cons]
    exact (hv.bind (ih.map _)).congr
      (List.forall_mem_cons (p := fun v : Variable => v.type?.isSome)).symm

theorem assignsBalance_succeeds (c : Contract) (i : Instr) :
    SucceedsWith (assignsBalance c.balances i) (assignedName? i).toOption.isSome (c.assigns i) := by
  unfold assignsBalance Contract.assigns
  cases assignedName? i with
  | error e => exact (SucceedsWith.error e _).congr (iff_of_false id Bool.false_ne_true)
  | ok name? =>
    cases name? with
    | none => exact (SucceedsWith.ok _).congr (iff_of_true trivial rfl)
    | some name => exact (SucceedsWith.ok _).congr (iff_of_true trivial rfl)

def found (c : Contract) (f : Function) (before : List Node) (n : Node) : List Finding :=
  if before.any c.checks then [] else (n.instrs.filter c.assigns).map fun _ => finding c f

theorem inspectNode_succeeds (c : Contract) (f : Function) (before : List Node) (n : Node) :
    SucceedsWith (inspectNode c f c.balances (before.any c.checks) n)
      n.IsNamed (found c f before n) := by
  let here (i : Instr) : List Finding :=
    if c.assigns i && !before.any c.checks then [finding c f] else []
  have hfound : found c f before n = n.instrs.flatMap here := by
    unfold found here
    cases before.any c.checks with
    | true => simp
    | false =>
      induction n.instrs with
      | nil => rfl
      | cons i l ih =>
        rw [List.flatMap_cons, ← ih, List.filter_cons]
        cases c.assigns i <;> rfl
  rw [hfound]
  refine SucceedsWith.gather fun i _ => ?_
  have hlast : SucceedsWith
      (if c.assigns i && !before.any c.checks then pure [finding c f] else pure []) True
      (here i) := by
    unfold here
    split
    · exact .ok _
    · exact .ok _
  exact ((assignsBalance_succeeds c i).bind hlast).congr (iff_of_eq (and_true _))

theorem inspectNodes_succeeds (c : Contract) (f : Function) (before nodes : List Node) :
    SucceedsWith (inspectNodes c f c.balances (before.any c.checks) nodes)
      (∀ n ∈ nodes, n.IsNamed)
      ((nodes.zipIdx before.length).flatMap fun e =>
        found c f ((before ++ nodes).take e.2) e.1) := by
  induction nodes generalizing before with
  | nil => exact (SucceedsWith.ok []).congr (iff_of_true trivial (List.forall_mem_nil _))
  | cons n rest ih =>
    have hnow : (before ++ n :: rest).take before.length = before := List.take_left
    have hchecked : (before.any c.checks || n.instrs.any (checksBalance c c.balances)) =
        (before ++ [n]).any c.checks := by
      rw [List.any_append, List.any_cons, List.any_nil, Bool.or_false, Contract.checks]
    have hlater := ih (before ++ [n])
    rw [List.length_append, List.length_singleton, List.append_assoc, List.singleton_append]
      at hlater
    rw [inspectNodes, hchecked, List.zipIdx_cons, List.flatMap_cons, hnow]
    exact ((inspectNode_succeeds c f before n).bind (hlater.map _)).congr
      (List.forall_mem_cons (p := fun n : Node => n.IsNamed)).symm

/-- The findings of a contract are those on the changes that are reported. -/
theorem map_finding_changes (c : Contract) :
    (c.changes.filter c.reports).map (fun x => finding c x.function) =
      c.functions.flatMap fun f =>
        f.nodes.zipIdx.flatMap fun e => found c f (f.nodes.take e.2) e.1 := by
  rw [Contract.changes, List.filter_flatMap, List.map_flatMap]
  refine List.flatMap_congr fun f _ => ?_
  rw [List.filter_flatMap, List.map_flatMap]
  refine List.flatMap_congr fun e _ => ?_
  rw [found, List.filter_map, List.map_map]
  have hreports : c.reports ∘ (fun i => ⟨f, e.2, i⟩) =
      fun _ => !(f.nodes.take e.2).any c.checks := rfl
  rw [hreports]
  cases (f.nodes.take e.2).any c.checks with
  | true => simp
  | false => simp [Function.comp_def]

theorem gather_inspectNodes_succeeds (c : Contract) :
    SucceedsWith (gather (fun f => inspectNodes c f c.balances false f.nodes) c.functions)
      (∀ f ∈ c.functions, ∀ n ∈ f.nodes, n.IsNamed)
      ((c.changes.filter c.reports).map fun x => finding c x.function) := by
  rw [map_finding_changes]
  exact .gather fun f _ => inspectNodes_succeeds c f [] f.nodes

theorem inspect_succeeds (c : Contract) :
    SucceedsWith (inspect c) c.IsReadable
      ((c.changes.filter c.reports).map fun x => finding c x.function) := by
  have hbalances : SucceedsWith (balancesOf c.stateVariables)
      (∀ v ∈ c.stateVariables, v.type?.isSome) c.balances := balancesOf_succeeds _
  cases hb : c.balances with
  | nil =>
    have hchanges : c.changes = [] := by
      refine List.eq_nil_iff_forall_not_mem.2 fun x hx => ?_
      exact c.assigns_ne_nil (Contract.mem_changes.1 hx).2.2 hb
    have hreadable : (∀ v ∈ c.stateVariables, v.type?.isSome) ∧ True ↔ c.IsReadable :=
      ⟨fun h => ⟨h.1, fun hne => absurd hb hne⟩, fun h => ⟨h.typed, trivial⟩⟩
    rw [hb] at hbalances
    rw [inspect, hchanges]
    refine (hbalances.bind ?_).congr hreadable
    exact .ok []
  | cons b rest =>
    have hall := gather_inspectNodes_succeeds c
    rw [hb] at hbalances hall
    refine (hbalances.bind hall).congr ⟨fun h => ⟨h.1, fun _ => h.2⟩, fun h => ⟨h.typed, ?_⟩⟩
    exact h.named (hb ▸ List.cons_ne_nil b rest)

theorem detect_succeeds (u : CompilationUnit) :
    SucceedsWith (detect u) (∀ c ∈ u.contracts, c.IsReadable)
      (u.contracts.flatMap fun c =>
        (c.changes.filter c.reports).map fun x => finding c x.function) :=
  .gather fun c _ => inspect_succeeds c

def deposits : Variable :=
  .stateOfType "deposits" "mapping(address=>uint256)"

def test : Instr :=
  .condition (.place (.var deposits))

def change : Instr :=
  .assign (.var deposits) (.literal (.int 0))

def vault (functions : List Function) : Contract :=
  ⟨"Vault", functions, [deposits], [], false, false, true, []⟩

theorem vault_balances (functions : List Function) : (vault functions).balances = [deposits] := by
  have hbalance : (deposits.type?.any (Text.contains · "mapping(address=>uint256)")) := by decide
  exact List.filter_cons_of_pos hbalance

theorem vault_assigns (functions : List Function) : (vault functions).assigns change := by
  have hstarts : Text.startsWith deposits.name deposits.name := by decide
  unfold Contract.assigns
  rw [vault_balances]
  exact List.any_eq_true.2 ⟨deposits, List.mem_singleton.2 rfl, hstarts⟩

theorem vault_checksAt {functions : List Function} {j : Nat} (hn : f.nodes[j]? = some n)
    (htest : test ∈ n.instrs) : (vault functions).ChecksAt f j :=
  ⟨n, deposits, deposits, hn, htest, vault_balances functions ▸ List.mem_singleton.2 rfl, rfl⟩

/-- The same edges, with one node that tests the balances and one that changes them. -/
def withTestAndChange (f : Function) (j k : Nat) : Function :=
  f.withActions (fun m => if m = j then [test] else if m = k then [change] else []) fun _ => []

theorem withTestAndChange_sameEdges (f : Function) (j k : Nat) :
    (withTestAndChange f j k).SameEdges f :=
  Function.withActions_sameEdges f _ _

theorem eq_of_checksAt_withTestAndChange {c : Contract} {j k m : Nat}
    (h : c.ChecksAt (withTestAndChange f j k) m) : m = j := by
  obtain ⟨n, v, b, hn, htest, -, -⟩ := h
  rw [(Function.of_withActions_node hn).1] at htest
  by_contra hne
  rw [if_neg hne] at htest
  split at htest
  · cases List.mem_singleton.1 htest
  · cases htest

/-- A position that some path goes around can hold the only check before a change. -/
theorem withTestAndChange_unguarded {j k : Nat} (hk : k < f.nodes.length) (hj : j < k)
    (haround : ¬ f.Dominates j k) :
    (⟨withTestAndChange f j k, k, change⟩ : Change) ∈ (vault [withTestAndChange f j k]).changes ∧
      (vault [withTestAndChange f j k]).reports ⟨withTestAndChange f j k, k, change⟩ = false ∧
      ¬ (vault [withTestAndChange f j k]).Guards (withTestAndChange f j k) k := by
  have hchecks : (vault [withTestAndChange f j k]).ChecksAt (withTestAndChange f j k) j :=
    vault_checksAt (Function.withActions_node (List.getElem?_eq_getElem (hj.trans hk))) (by simp)
  have hchange : ∃ n, (withTestAndChange f j k).nodes[k]? = some n ∧ change ∈ n.instrs :=
    ⟨_, Function.withActions_node (List.getElem?_eq_getElem hk), by simp [hj.ne']⟩
  refine ⟨?_, Contract.reports_eq_false_iff.2 ⟨j, hj, hchecks⟩, fun hguards => haround ?_⟩
  · exact Contract.mem_changes.2 ⟨List.mem_singleton.2 rfl, hchange, vault_assigns _⟩
  · intro path hpath
    obtain ⟨m, hm, hchecks⟩ :=
      hguards path ((withTestAndChange_sameEdges f j k).isPathTo_iff.2 hpath)
    exact eq_of_checksAt_withTestAndChange hchecks ▸ hm

/-- Changes left out are guarded in all functions exactly if the earlier positions dominate. -/
theorem unreported_guarded_iff_dominated (u : CompilationUnit) {k : Nat} (hk : k < f.nodes.length) :
    (∀ findings, detect u = .ok findings ↔ (∀ c ∈ u.contracts, c.IsReadable) ∧
      findings = u.contracts.flatMap fun c =>
        (c.changes.filter c.reports).map fun x => finding c x.function) ∧
    (∀ (c : Contract) (x : Change),
      c.reports x = false ↔ ∃ j < x.position, c.ChecksAt x.function j) ∧
    ((∀ (c : Contract), ∀ x ∈ c.changes, x.function.SameEdges f → x.position = k →
      c.reports x = false → c.Guards x.function k) ↔ ∀ j < k, f.Dominates j k) := by
  refine ⟨detect_succeeds u, fun c x => Contract.reports_eq_false_iff, fun hall j hj => ?_, ?_⟩
  · by_contra haround
    obtain ⟨hchange, hreports, hguards⟩ := withTestAndChange_unguarded hk hj haround
    exact hguards (hall _ _ hchange (withTestAndChange_sameEdges f j k) rfl hreports)
  · rintro hdominates c x - hedges rfl hreports path hpath
    obtain ⟨j, hj, hchecks⟩ := Contract.reports_eq_false_iff.1 hreports
    exact ⟨j, hdominates j hj path (hedges.isPathTo_iff.1 hpath), hchecks⟩

def withdraw : Function :=
  { Function.ofNodes [] [.ofInstrs [test] [1], .ofInstrs [change] []] with name := "withdraw" }

def mint : Function :=
  { Function.ofNodes [] [.ofInstrs [change] []] with name := "mint" }

theorem vault_reports_unguarded :
    detect ⟨[vault [withdraw, mint]], [], .all⟩ = .ok [finding (vault [withdraw, mint]) mint] ∧
      (⟨withdraw, 1, change⟩ : Change) ∈ (vault [withdraw, mint]).changes ∧
      (vault [withdraw, mint]).Guards withdraw 1 := by
  obtain ⟨hdetect, -, hguards⟩ := unreported_guarded_iff_dominated (f := withdraw) (k := 1)
    ⟨[vault [withdraw, mint]], [], .all⟩ (by decide)
  have hchange : (⟨withdraw, 1, change⟩ : Change) ∈ (vault [withdraw, mint]).changes := by decide
  have hnext : ∀ i k, withdraw.Leads i k → k = i + 1 := by
    rintro (_ | _ | i) k ⟨n, hn, hk⟩
    · cases hn
      exact List.mem_singleton.1 hk
    · cases hn
      cases hk
    · cases hn
  have hreadable : ∀ c ∈ [vault [withdraw, mint]], c.IsReadable :=
    List.forall_mem_singleton.2 ⟨by decide, by decide⟩
  refine ⟨(hdetect _).2 ⟨hreadable, by decide⟩, hchange, ?_⟩
  exact hguards.2 (fun j hj => Function.dominates_of_next hnext hj) _ _ hchange rfl rfl (by decide)

/-- A function that checks the balances on one branch and changes them on the other. -/
def bypass : Function :=
  .ofNodes [] [.ofInstrs [] [1, 2], .ofInstrs [test] [], .ofInstrs [change] []]

/-- The change on the other branch is not reported, and no check comes before it. -/
theorem bypass_unreported :
    detect ⟨[vault [bypass]], [], .all⟩ = .ok [] ∧
      (⟨bypass, 2, change⟩ : Change) ∈ (vault [bypass]).changes ∧ bypass.IsPathTo [0, 2] 2 ∧
      ∀ j ∈ [0, 2].dropLast, ¬ (vault [bypass]).ChecksAt bypass j := by
  refine ⟨by decide, by decide, ⟨rfl, .cons_cons ⟨_, rfl, by decide⟩ (.singleton 2), rfl⟩, ?_⟩
  intro j hj
  obtain rfl := List.mem_singleton.1 hj
  rintro ⟨n, v, b, hn, htest, -, -⟩
  cases hn
  cases htest

end UncheckedBalance

end RangeAudit
