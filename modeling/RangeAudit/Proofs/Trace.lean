import RangeAudit.Proofs.Start

namespace RangeAudit

variable {α β : Type} {s s' t : State}

inductive Step
  | param (v : Variable)
  | source (i : Instr)
  | result (v : Variable)
  | assume (e : Expression)
  | carry (i : Instr)
  | widen (earlier : Ranges)
  | compare (earlier : Ranges)
  | narrow (earlier : Ranges)

namespace Step

def run : Step → Analysis Unit
  | param v => Function.trackParam v
  | source i => modify fun s => { s with ranges := s.ranges.addSource i }
  | result v => modify fun s => { s with ranges := s.ranges.addLocal v }
  | assume e => e.assume
  | carry i => i.process
  | widen earlier => modify fun s => { s with ranges := s.ranges.widenFrom earlier }
  | compare earlier => fun s =>
    match s.ranges.changedSince defaultThreshold earlier with
    | .ok _ => .ok () s
    | .error e => .error e s
  | narrow earlier => modify fun s => { s with ranges := s.ranges.narrowTo earlier }

/-- The state in which a step ends, be it with a failure. -/
def ends (step : Step) (s : State) : State :=
  match step.run s with
  | .ok _ t => t
  | .error _ t => t

theorem ends_of_ok {step : Step} (h : step.run s = .ok () t) : step.ends s = t := by
  simp only [ends, h]

theorem ends_of_error {step : Step} {e : Failure} (h : step.run s = .error e t) :
    step.ends s = t := by
  simp only [ends, h]

theorem run_param_error {v : Variable} {e : Failure} (h : s.ranges.addParam v = .error e) :
    (param v).run s = .error e s := by
  rw [run, Function.trackParam, Analysis.bind_ok (Analysis.get_apply s), h]
  exact Analysis.bind_error (Analysis.ofExcept_error e s) _

theorem ends_param (v : Variable) (s : State) :
    (param v).ends s = match s.ranges.addParam v with
      | .ok r => { s with ranges := r }
      | .error _ => s := by
  cases h : s.ranges.addParam v with
  | ok r => exact ends_of_ok (Function.trackParam_ok.2 ⟨r, h, rfl⟩)
  | error e => exact ends_of_error (run_param_error h)

theorem ranges_modify {step : Step} {g : Ranges → Ranges}
    (h : step.run = modify fun s => { s with ranges := g s.ranges }) (s : State) :
    (step.ends s).ranges = g s.ranges := by
  rw [ends, h]
  rfl

theorem ranges_source (i : Instr) (s : State) :
    ((source i).ends s).ranges = s.ranges.addSource i :=
  ranges_modify (g := (·.addSource i)) rfl s

theorem ranges_result (v : Variable) (s : State) :
    ((result v).ends s).ranges = s.ranges.addLocal v :=
  ranges_modify (g := (·.addLocal v)) rfl s

theorem ranges_widen (earlier : Ranges) (s : State) :
    ((widen earlier).ends s).ranges = s.ranges.widenFrom earlier :=
  ranges_modify (g := (·.widenFrom earlier)) rfl s

theorem ranges_narrow (earlier : Ranges) (s : State) :
    ((narrow earlier).ends s).ranges = s.ranges.narrowTo earlier :=
  ranges_modify (g := (·.narrowTo earlier)) rfl s

theorem ends_assume (e : Expression) (s : State) :
    (assume e).ends s = match e with
      | .binary (.compare c) left right => { s with ranges := s.ranges.refine c left right }
      | _ => s := by
  cases e with
  | binary op left right => cases op <;> rfl
  | incomplete | other => rfl

theorem ends_carry (i : Instr) (s : State) : (carry i).ends s = s.apply (i.effect s) := by
  cases h : (i.effect s).failure? with
  | none => exact ends_of_ok (Instr.process_ok_iff.2 ⟨h, rfl⟩)
  | some f => exact ends_of_error (e := f) (by simp only [run, Instr.process, h])

theorem run_compare_ok {earlier : Ranges} {changed : Bool}
    (h : s.ranges.changedSince defaultThreshold earlier = .ok changed) :
    (compare earlier).run s = .ok () s := by
  simp only [run, h]

theorem ends_compare (earlier : Ranges) (s : State) : (compare earlier).ends s = s := by
  cases h : s.ranges.changedSince defaultThreshold earlier with
  | ok changed => exact ends_of_ok (run_compare_ok h)
  | error e => exact ends_of_error (e := e) (by simp only [run, h])

end Step

/-- The states that steps taken in turn pass through; a failure is the end. -/
def passed : List Step → State → List State
  | [], s => [s]
  | step :: rest, s =>
    s :: match step.run s with
      | .ok _ t => passed rest t
      | .error _ t => [t]

section Steps

def Node.steps (n : Node) : List Step :=
  (if n.isBranch then [.assume n.condition] else []) ++ n.instrs.map .carry

def visitSteps (cfg : Config) (node : Node) (count : Nat) (before : Ranges) : List Step :=
  node.steps ++
    ((if cfg.wideningThreshold ≤ count then [.widen before] else []) ++ [.compare before])

def Analysis.stepsThen (a : Analysis α) (first : List Step) (next : α → State → List Step)
    (s : State) : List Step :=
  first ++ match a s with
    | .ok b t => next b t
    | .error _ _ => []

def batchSteps (cfg : Config) (nodes : List Node) : List Nat → Progress → State → List Step
  | [], _, _ => []
  | index :: rest, p, s =>
    match nodes[index]? with
    | none => batchSteps cfg nodes rest p s
    | some node =>
      (visitNode cfg index node p).stepsThen
        (visitSteps cfg node (visitCount p index) s.ranges.snapshot)
        (batchSteps cfg nodes rest) s

def workSteps (cfg : Config) (nodes : List Node) : Nat → Progress → State → List Step
  | 0, _, _ => []
  | batches + 1, p, s =>
    if p.queue.isEmpty then []
    else
      let batch := p.queue.take cfg.batchSize.toNat
      let left := { p with queue := p.queue.drop cfg.batchSize.toNat }
      (visitBatch cfg nodes batch left).stepsThen (batchSteps cfg nodes batch left s)
        (workSteps cfg nodes batches) s

def narrowSteps (p : Progress) (index : Nat) (node : Node) : List Step :=
  match p.visit? index with
  | none => []
  | some v => node.steps ++ [.narrow v.before]

def sweepSteps (p : Progress) : Nat → List Node → List Step
  | _, [] => []
  | index, node :: rest => narrowSteps p index node ++ sweepSteps p (index + 1) rest

namespace Function

def startSteps (order : SetOrder) (f : Function) : List Step :=
  f.params.map .param ++ (f.instrs.map .source ++ (f.localResults order).map .result)

def iterateSteps (cfg : Config) (f : Function) (s : State) : List Step :=
  (workOff cfg f.nodes cfg.maxBatches.toNat (.start f)).stepsThen
    (workSteps cfg f.nodes cfg.maxBatches.toNat (.start f) s)
    (fun p _ => (List.replicate cfg.narrowingSweeps.toNat (sweepSteps p 0 f.nodes)).flatten) s

def steps (cfg : Config) (f : Function) (s : State) : List Step :=
  (f.start cfg.order).stepsThen (f.startSteps cfg.order) (fun _ => f.iterateSteps cfg) s

def passes (cfg : Config) (f : Function) (s : State) : List State :=
  passed (f.steps cfg s) { s with ranges := .empty }

end Function

end Steps

section Equations

def EndsLike (a : EStateM.Result Failure State α) (b : EStateM.Result Failure State Unit) : Prop :=
  match a with
  | .ok _ t => b = .ok () t
  | .error e t => b = .error e t

theorem endsLike_unit {a b : EStateM.Result Failure State Unit} : EndsLike a b ↔ b = a := by
  cases a <;> rfl

theorem EndsLike.ok {a : EStateM.Result Failure State α} {b : EStateM.Result Failure State Unit}
    {c : α} (h : EndsLike a b) (ha : a = .ok c t) : b = .ok () t := by
  rwa [ha] at h

theorem EndsLike.stepsThen {a : Analysis α} {k : α → Analysis β} {first : List Step}
    {next : α → State → List Step} (h : EndsLike (a s) (first.forM Step.run s'))
    (hk : ∀ b t, a s = .ok b t → EndsLike (k b t) ((next b t).forM Step.run t)) :
    EndsLike ((a >>= k) s) ((a.stepsThen first next s).forM Step.run s') := by
  rw [Analysis.stepsThen, Analysis.forM_append]
  cases ha : a s with
  | ok b t =>
    rw [Analysis.bind_ok ha, Analysis.bind_ok (h.ok ha)]
    exact hk b t ha
  | error e t =>
    rw [ha] at h
    rw [Analysis.bind_error ha, Analysis.bind_error h]
    rfl

theorem forM_map_run {g : α → Step} {k : α → Analysis Unit} (h : ∀ a, (g a).run = k a)
    (l : List α) (s : State) : (l.map g).forM Step.run s = l.forM k s := by
  induction l generalizing s with
  | nil => rfl
  | cons a l ih =>
    rw [List.map_cons, Analysis.forM_cons, Analysis.forM_cons, h]
    exact Analysis.bind_congr rfl fun _ t => ih t

theorem forM_map_modify {g : α → Step} {k : Ranges → α → Ranges}
    (h : ∀ a s, (g a).run s = .ok () { s with ranges := k s.ranges a }) (l : List α) (s : State) :
    (l.map g).forM Step.run s = .ok () { s with ranges := l.foldl k s.ranges } := by
  induction l generalizing s with
  | nil => rfl
  | cons a l ih =>
    rw [List.map_cons, Analysis.forM_cons, Analysis.bind_ok (h a s), ih]
    rfl

theorem Node.run_eq_steps (n : Node) (s : State) : n.run s = n.steps.forM Step.run s := by
  have hinstrs (t : State) :
      (n.instrs.map .carry).forM Step.run t = n.instrs.forM Instr.process t :=
    forM_map_run (fun _ => rfl) n.instrs t
  rw [Node.run_apply, Node.steps]
  split
  · rw [List.singleton_append, Analysis.forM_cons]
    exact Analysis.bind_congr rfl fun _ t => (hinstrs t).symm
  · exact (hinstrs s).symm

theorem visitNode_steps (cfg : Config) (index : Nat) (node : Node) (p : Progress) (s : State) :
    EndsLike (visitNode cfg index node p s)
      ((visitSteps cfg node (visitCount p index) s.ranges.snapshot).forM Step.run s) := by
  rw [visitNode_apply, visitSteps, Analysis.forM_append, ← Analysis.bind_congr
    (node.run_eq_steps s) fun _ _ => rfl]
  cases hr : node.run s with
  | error e t => exact Analysis.bind_error hr _
  | ok _ t =>
    have hwiden : (if cfg.wideningThreshold ≤ (visitCount p index : Int) then
        [Step.widen s.ranges.snapshot] else []).forM Step.run t =
          .ok () (widened cfg (visitCount p index) s.ranges.snapshot t) := by
      unfold widened
      split
      · rfl
      · rfl
    rw [Analysis.bind_ok hr, Analysis.forM_append, Analysis.bind_ok hwiden, Analysis.forM_cons]
    dsimp only
    cases hc : (widened cfg (visitCount p index) s.ranges.snapshot t).ranges.changedSince
      defaultThreshold s.ranges.snapshot with
    | error e => exact Analysis.bind_error (by simp only [Step.run, hc]) _
    | ok changed => exact Analysis.bind_ok (Step.run_compare_ok hc) _

theorem visitBatch_steps (cfg : Config) (nodes : List Node) (l : List Nat) (p : Progress)
    (s : State) :
    EndsLike (visitBatch cfg nodes l p s) ((batchSteps cfg nodes l p s).forM Step.run s) := by
  induction l generalizing p s with
  | nil => rfl
  | cons index rest ih =>
    rw [visitBatch_cons, batchSteps]
    cases nodes[index]? with
    | none => exact ih p s
    | some node =>
      apply EndsLike.stepsThen (visitNode_steps cfg index node p s)
      intro p' t _
      exact ih p' t

theorem workOff_steps (cfg : Config) (nodes : List Node) (batches : Nat) (p : Progress)
    (s : State) :
    EndsLike (workOff cfg nodes batches p s)
      ((workSteps cfg nodes batches p s).forM Step.run s) := by
  induction batches generalizing p s with
  | zero => rfl
  | succ batches ih =>
    rw [workOff, workSteps]
    split
    · rfl
    · apply EndsLike.stepsThen (visitBatch_steps cfg nodes _ _ s)
      intro p' t _
      exact ih p' t

theorem narrowNode_eq_steps (p : Progress) (index : Nat) (node : Node) (s : State) :
    narrowNode p index node s = (narrowSteps p index node).forM Step.run s := by
  unfold narrowNode narrowSteps
  cases p.visit? index with
  | none => rfl
  | some v =>
    dsimp only
    rw [Analysis.forM_append]
    exact Analysis.bind_congr (node.run_eq_steps s) fun _ _ => rfl

theorem narrowSweep_eq_steps (p : Progress) (index : Nat) (nodes : List Node) (s : State) :
    narrowSweep p index nodes s = (sweepSteps p index nodes).forM Step.run s := by
  induction nodes generalizing index s with
  | nil => rfl
  | cons node rest ih =>
    rw [narrowSweep, sweepSteps, Analysis.forM_append]
    exact Analysis.bind_congr (narrowNode_eq_steps p index node s) fun _ t => ih (index + 1) t

theorem narrowSweeps_eq_steps (p : Progress) (nodes : List Node) (sweeps : Nat) (s : State) :
    narrowSweeps p nodes sweeps s =
      (List.replicate sweeps (sweepSteps p 0 nodes)).flatten.forM Step.run s := by
  induction sweeps generalizing s with
  | zero => rfl
  | succ sweeps ih =>
    rw [narrowSweeps, List.replicate_succ, List.flatten_cons, Analysis.forM_append]
    exact Analysis.bind_congr (narrowSweep_eq_steps p 0 nodes s) fun _ t => ih t

namespace Function

theorem start_eq_steps (order : SetOrder) (f : Function) (s : State) :
    f.start order s = (f.startSteps order).forM Step.run { s with ranges := .empty } := by
  have hparams : (f.params.map .param).forM Step.run { s with ranges := .empty } =
      f.params.forM trackParam { s with ranges := .empty } :=
    forM_map_run (fun _ => rfl) f.params _
  rw [start, Analysis.bind_ok (Analysis.modify_apply _ s), startSteps, Analysis.forM_append]
  refine Analysis.bind_congr hparams.symm fun _ t => ?_
  have hsources : (f.instrs.map .source).forM Step.run t =
      .ok () { t with ranges := f.instrs.foldl .addSource t.ranges } :=
    forM_map_modify (fun _ _ => rfl) f.instrs t
  rw [Analysis.forM_append, Analysis.bind_ok hsources, forM_map_modify (k := .addLocal)]
  · rfl
  · exact fun _ _ => rfl

theorem iterate_eq_steps (cfg : Config) (f : Function) (s : State) :
    f.iterate cfg s = (f.iterateSteps cfg s).forM Step.run s := by
  refine (endsLike_unit.1 ?_).symm
  apply EndsLike.stepsThen (workOff_steps cfg f.nodes _ _ s)
  intro p t _
  exact endsLike_unit.2 (narrowSweeps_eq_steps p f.nodes _ t).symm

/-- The analysis of a function takes its steps one after another, and does nothing else. -/
theorem analyze_eq_steps (cfg : Config) (f : Function) (s : State) :
    f.analyze cfg s = (f.steps cfg s).forM Step.run { s with ranges := .empty } := by
  refine (endsLike_unit.1 ?_).symm
  apply EndsLike.stepsThen (endsLike_unit.2 (f.start_eq_steps cfg.order s).symm)
  intro _ t _
  exact endsLike_unit.2 (f.iterate_eq_steps cfg t).symm

end Function

end Equations

section Passed

variable {step : Step} {l m : List Step} {u : State}

theorem mem_passed_self (l : List Step) (s : State) : s ∈ passed l s := by
  cases l with
  | nil => exact List.mem_singleton_self s
  | cons step rest => exact List.mem_cons_self

theorem mem_passed_cons (h : step.run s = .ok () t) (hu : u ∈ passed l t) :
    u ∈ passed (step :: l) s := by
  simp only [passed, h]
  exact List.mem_cons_of_mem _ hu

theorem mem_passed_append_left (hu : u ∈ passed l s) : u ∈ passed (l ++ m) s := by
  induction l generalizing s with
  | nil =>
    obtain rfl := List.mem_singleton.1 hu
    exact mem_passed_self m u
  | cons step rest ih =>
    simp only [passed, List.cons_append] at hu ⊢
    rcases List.mem_cons.1 hu with rfl | hu
    · exact List.mem_cons_self
    · refine List.mem_cons_of_mem _ ?_
      split at hu
      · exact ih hu
      · exact hu

theorem mem_passed_append_right (h : l.forM Step.run s = .ok () t) (hu : u ∈ passed m t) :
    u ∈ passed (l ++ m) s := by
  induction l generalizing s with
  | nil =>
    cases h
    exact hu
  | cons step rest ih =>
    obtain ⟨_, v, hv, h⟩ := Analysis.bind_eq_ok.1 h
    exact mem_passed_cons hv (ih h)

theorem mem_passed_of_ok (h : l.forM Step.run s = .ok () t) : t ∈ passed l s := by
  have ht : t ∈ passed (l ++ []) s := mem_passed_append_right h (mem_passed_self [] t)
  rwa [List.append_nil] at ht

end Passed

namespace Function

variable {cfg : Config} {f : Function} {nodes : List Node} {p p' : Progress}
  {past past' : List Ranges} {l m : List Step} {seen seen' : Ranges → Prop}

/-- What a step in the analysis of a function can be; snapshots are of ranges seen before. -/
def Allows (f : Function) (seen : Ranges → Prop) : Step → Prop
  | .param v => v ∈ f.params
  | .source i => i ∈ f.instrs
  | .result v => ∃ i ∈ f.instrs, i.result? = some v.place
  | .assume e => ∃ n ∈ f.nodes, n.isBranch ∧ n.condition = e
  | .carry i => i ∈ f.instrs
  | .widen earlier | .compare earlier | .narrow earlier => ∃ r, seen r ∧ earlier = r.snapshot

theorem Allows.mono {step : Step} (h : f.Allows seen step) (hseen : ∀ r, seen r → seen' r) :
    f.Allows seen' step := by
  cases step with
  | param | source | result | assume | carry => exact h
  | widen | compare | narrow =>
    obtain ⟨r, hr, rfl⟩ := h
    exact ⟨r, hseen r hr, rfl⟩

/-- Each step is one that the function allows where it is taken. -/
def IsTrace (f : Function) : List Ranges → List Step → State → Prop
  | _, [], _ => True
  | past, step :: rest, s =>
    f.Allows (· ∈ s.ranges :: past) step ∧
      ∀ t, step.run s = .ok () t → f.IsTrace (s.ranges :: past) rest t

namespace IsTrace

theorem of_allows (h : ∀ step ∈ l, f.Allows (· ∈ s.ranges :: past) step) : f.IsTrace past l s := by
  induction l generalizing past s with
  | nil => trivial
  | cons step rest ih =>
    refine ⟨h step List.mem_cons_self, fun t _ => ih fun next hnext => ?_⟩
    exact (h next (List.mem_cons_of_mem _ hnext)).mono fun r hr => List.mem_cons_of_mem _ hr

theorem append (hl : f.IsTrace past l s)
    (hm : ∀ t past', l.forM Step.run s = .ok () t → past ⊆ past' →
      (∀ u ∈ passed l s, u.ranges ∈ t.ranges :: past') → f.IsTrace past' m t) :
    f.IsTrace past (l ++ m) s := by
  induction l generalizing past s with
  | nil =>
    refine hm s past rfl (List.Subset.refl past) fun u hu => ?_
    obtain rfl := List.mem_singleton.1 hu
    exact List.mem_cons_self
  | cons step rest ih =>
    refine ⟨hl.1, fun v hv => ih (hl.2 v hv) fun t past' ht hsub hseen => ?_⟩
    refine hm t past' (Analysis.bind_eq_ok.2 ⟨(), v, hv, ht⟩) ?_ fun u hu => ?_
    · exact fun r hr => hsub (List.mem_cons_of_mem _ hr)
    · simp only [passed, hv] at hu
      rcases List.mem_cons.1 hu with rfl | hu
      · exact List.mem_cons_of_mem _ (hsub List.mem_cons_self)
      · exact hseen u hu

theorem stepsThen {a : Analysis α} {next : α → State → List Step} (hl : f.IsTrace past l s')
    (ha : EndsLike (a s) (l.forM Step.run s'))
    (hnext : ∀ b t past', a s = .ok b t → past ⊆ past' →
      (∀ u ∈ passed l s', u.ranges ∈ t.ranges :: past') → f.IsTrace past' (next b t) t) :
    f.IsTrace past (a.stepsThen l next s) s' := by
  refine hl.append fun t past' ht hsub hseen => ?_
  cases hr : a s with
  | ok b u =>
    cases ht.symm.trans (ha.ok hr)
    exact hnext b t past' hr hsub hseen
  | error e u => trivial

/-- What every step keeps, be it one that fails, holds of all states on the way. -/
theorem keeps {I : Ranges → Prop}
    (hstep : ∀ step s, f.Allows I step → I s.ranges → I (step.ends s).ranges)
    (h : f.IsTrace past l s) (hpast : ∀ r ∈ past, I r) (hs : I s.ranges) :
    ∀ u ∈ passed l s, I u.ranges := by
  induction l generalizing past s with
  | nil =>
    intro u hu
    obtain rfl := List.mem_singleton.1 hu
    exact hs
  | cons step rest ih =>
    have hpast : ∀ r ∈ s.ranges :: past, I r := List.forall_mem_cons.2 ⟨hs, hpast⟩
    have hends := hstep step s (h.1.mono hpast) hs
    intro u hu
    simp only [passed] at hu
    rcases List.mem_cons.1 hu with rfl | hu
    · exact hs
    · cases hr : step.run s with
      | ok _ t =>
        simp only [Step.ends, hr] at hends hu
        exact ih (h.2 t hr) hpast hends u hu
      | error e t =>
        simp only [Step.ends, hr] at hends hu
        obtain rfl := List.mem_singleton.1 hu
        exact hends

theorem completes_or {I B : Ranges → Prop}
    (hstep : ∀ step s, f.Allows I step → I s.ranges →
      B (step.ends s).ranges ∨ ∃ t, step.run s = .ok () t ∧ I t.ranges)
    (h : f.IsTrace past l s) (hpast : ∀ r ∈ past, I r) (hs : I s.ranges) :
    (∃ u ∈ passed l s, B u.ranges) ∨ ∃ t, l.forM Step.run s = .ok () t ∧ I t.ranges := by
  induction l generalizing past s with
  | nil => exact .inr ⟨s, rfl, hs⟩
  | cons step rest ih =>
    have hpast : ∀ r ∈ s.ranges :: past, I r := List.forall_mem_cons.2 ⟨hs, hpast⟩
    rcases hstep step s (h.1.mono hpast) hs with hbad | ⟨t, ht, hi⟩
    · refine .inl ⟨step.ends s, ?_, hbad⟩
      cases hr : step.run s with
      | ok _ t =>
        simp only [Step.ends, passed, hr]
        exact List.mem_cons_of_mem _ (mem_passed_self rest t)
      | error e t =>
        simp only [Step.ends, passed, hr]
        exact List.mem_cons_of_mem _ (List.mem_singleton_self t)
    · rcases ih (h.2 t ht) hpast hi with ⟨u, hu, hbad⟩ | ⟨v, hv, hi⟩
      · exact .inl ⟨u, mem_passed_cons ht hu, hbad⟩
      · exact .inr ⟨v, Analysis.bind_eq_ok.2 ⟨(), t, ht, hv⟩, hi⟩

end IsTrace

theorem mem_instrs {n : Node} {i : Instr} (hn : n ∈ f.nodes) (hi : i ∈ n.instrs) :
    i ∈ f.instrs :=
  List.mem_flatMap.2 ⟨n, hn, hi⟩

theorem allows_node {n : Node} (hn : n ∈ f.nodes) : ∀ step ∈ n.steps, f.Allows seen step := by
  intro step hstep
  rcases List.mem_append.1 hstep with hstep | hstep
  · split at hstep
    · rename_i hb
      obtain rfl := List.mem_singleton.1 hstep
      exact ⟨n, hn, hb, rfl⟩
    · cases hstep
  · obtain ⟨i, hi, rfl⟩ := List.mem_map.1 hstep
    exact mem_instrs hn hi

theorem visitSteps_isTrace {n : Node} (hn : n ∈ f.nodes) (count : Nat) :
    f.IsTrace past (visitSteps cfg n count s.ranges.snapshot) s := by
  refine .of_allows fun step hstep => ?_
  rcases List.mem_append.1 hstep with hstep | hstep
  · exact allows_node hn step hstep
  · have hself : ∃ r, r ∈ s.ranges :: past ∧ s.ranges.snapshot = r.snapshot :=
      ⟨s.ranges, List.mem_cons_self, rfl⟩
    rcases List.mem_append.1 hstep with hstep | hstep
    · split at hstep
      · obtain rfl := List.mem_singleton.1 hstep
        exact hself
      · cases hstep
    · obtain rfl := List.mem_singleton.1 hstep
      exact hself

theorem batchSteps_isTrace (cfg : Config) (l : List Nat) (p : Progress) (s : State) :
    f.IsTrace past (batchSteps cfg f.nodes l p s) s := by
  induction l generalizing p s past with
  | nil => trivial
  | cons index rest ih =>
    rw [batchSteps]
    cases hn : f.nodes[index]? with
    | none => exact ih p s
    | some node =>
      apply (visitSteps_isTrace (List.mem_of_getElem? hn) _).stepsThen
        (visitNode_steps cfg index node p s)
      intro p' t past' _ _ _
      exact ih p' t

theorem workSteps_isTrace (cfg : Config) (batches : Nat) (p : Progress) (s : State) :
    f.IsTrace past (workSteps cfg f.nodes batches p s) s := by
  induction batches generalizing p s past with
  | zero => trivial
  | succ batches ih =>
    rw [workSteps]
    split
    · trivial
    · apply (batchSteps_isTrace cfg _ _ s).stepsThen (visitBatch_steps cfg f.nodes _ _ s)
      intro p' t past' _ _ _
      exact ih p' t

end Function

def Progress.SeenIn (p : Progress) (seen : Ranges → Prop) : Prop :=
  ∀ e ∈ p.visits, ∃ r, seen r ∧ e.2.before = r.snapshot

section SeenIn

variable {cfg : Config} {nodes : List Node} {p p' : Progress} {seen : Ranges → Prop}

theorem visitBatch_seenIn {l : List Nat} (h : visitBatch cfg nodes l p s = .ok p' t)
    (hpassed : ∀ u ∈ passed (batchSteps cfg nodes l p s) s, seen u.ranges) (hp : p.SeenIn seen) :
    p'.SeenIn seen := by
  induction l generalizing p s with
  | nil =>
    cases h
    exact hp
  | cons index rest ih =>
    rw [visitBatch_cons] at h
    rw [batchSteps] at hpassed
    cases hn : nodes[index]? with
    | none =>
      rw [hn] at h hpassed
      exact ih h hpassed hp
    | some node =>
      rw [hn] at h hpassed
      obtain ⟨p₁, s₁, h₁, h⟩ := Analysis.bind_eq_ok.1 h
      have hrun := (visitNode_steps cfg index node p s).ok h₁
      simp only [Analysis.stepsThen, h₁] at hpassed
      apply ih h fun u hu => hpassed u (mem_passed_append_right hrun hu)
      obtain ⟨_, changed, -, -, rfl⟩ := visitNode_ok h₁
      rw [Progress.SeenIn, Progress.afterVisit_visits]
      refine List.forall_mem_cons.2 ⟨⟨s.ranges, ?_, rfl⟩, hp⟩
      exact hpassed s (mem_passed_self _ s)

theorem workOff_seenIn {batches : Nat} (h : workOff cfg nodes batches p s = .ok p' t)
    (hpassed : ∀ u ∈ passed (workSteps cfg nodes batches p s) s, seen u.ranges)
    (hp : p.SeenIn seen) : p'.SeenIn seen := by
  induction batches generalizing p s with
  | zero =>
    cases h
    exact hp
  | succ batches ih =>
    rw [workOff] at h
    rw [workSteps] at hpassed
    split at h
    · cases h
      exact hp
    · rename_i hq
      rw [if_neg hq] at hpassed
      obtain ⟨p₁, s₁, h₁, h⟩ := Analysis.bind_eq_ok.1 h
      have hrun := (visitBatch_steps cfg nodes _ _ s).ok h₁
      simp only [Analysis.stepsThen, h₁] at hpassed
      apply ih h fun u hu => hpassed u (mem_passed_append_right hrun hu)
      exact visitBatch_seenIn h₁ (fun u hu => hpassed u (mem_passed_append_left hu)) hp

end SeenIn

namespace Function

variable {cfg : Config} {f : Function} {past : List Ranges} {seen I B : Ranges → Prop}

theorem allows_sweep {p : Progress} {nodes : List Node} {index : Nat} (hp : p.SeenIn seen)
    (hnodes : nodes ⊆ f.nodes) : ∀ step ∈ sweepSteps p index nodes, f.Allows seen step := by
  induction nodes generalizing index with
  | nil =>
    intro step hstep
    cases hstep
  | cons node rest ih =>
    intro step hstep
    rcases List.mem_append.1 hstep with hstep | hstep
    · unfold narrowSteps at hstep
      split at hstep
      · cases hstep
      · rename_i v hv
        rcases List.mem_append.1 hstep with hstep | hstep
        · exact allows_node (hnodes List.mem_cons_self) step hstep
        · obtain rfl := List.mem_singleton.1 hstep
          exact hp _ (Progress.mem_of_visit? hv)
    · exact ih (fun n hn => hnodes (List.mem_cons_of_mem _ hn)) step hstep

theorem allows_start (order : SetOrder) : ∀ step ∈ f.startSteps order, f.Allows seen step := by
  intro step hstep
  rcases List.mem_append.1 hstep with hstep | hstep
  · obtain ⟨v, hv, rfl⟩ := List.mem_map.1 hstep
    exact hv
  · rcases List.mem_append.1 hstep with hstep | hstep
    · obtain ⟨i, hi, rfl⟩ := List.mem_map.1 hstep
      exact hi
    · obtain ⟨v, hv, rfl⟩ := List.mem_map.1 hstep
      exact localResults_result hv

theorem iterateSteps_isTrace (cfg : Config) (f : Function) (s : State) :
    f.IsTrace past (f.iterateSteps cfg s) s := by
  apply (workSteps_isTrace cfg _ _ s).stepsThen (workOff_steps cfg f.nodes _ _ s)
  intro p t past' hp _ hseen
  have hstart : (Progress.start f).SeenIn (· ∈ t.ranges :: past') := by
    intro e he
    cases he
  have hp := workOff_seenIn hp hseen hstart
  refine .of_allows fun step hstep => ?_
  obtain ⟨sweep, hsweep, hstep⟩ := List.mem_flatten.1 hstep
  obtain rfl := List.eq_of_mem_replicate hsweep
  exact allows_sweep hp (List.Subset.refl _) step hstep

theorem steps_isTrace (cfg : Config) (f : Function) (s : State) :
    f.IsTrace past (f.steps cfg s) { s with ranges := .empty } := by
  apply IsTrace.stepsThen (.of_allows (allows_start cfg.order))
    (endsLike_unit.2 (f.start_eq_steps cfg.order s).symm)
  intro _ t past' _ _ _
  exact f.iterateSteps_isTrace cfg t

theorem iterate_keeps
    (hstep : ∀ step s, f.Allows I step → I s.ranges → I (step.ends s).ranges) (hs : I s.ranges)
    (h : f.iterate cfg s = .ok () t) : I t.ranges := by
  rw [iterate_eq_steps] at h
  have hpast : ∀ r ∈ [], I r := fun r hr => by cases hr
  exact (f.iterateSteps_isTrace cfg s).keeps hstep hpast hs t (mem_passed_of_ok h)

theorem passes_keep (hempty : I .empty)
    (hstep : ∀ step s, f.Allows I step → I s.ranges → I (step.ends s).ranges) :
    ∀ u ∈ f.passes cfg s, I u.ranges := by
  have hpast : ∀ r ∈ [], I r := fun r hr => by cases hr
  exact (f.steps_isTrace cfg s).keeps hstep hpast hempty

theorem analyze_completes_or (hempty : I .empty)
    (hstep : ∀ step s, f.Allows I step → I s.ranges →
      B (step.ends s).ranges ∨ ∃ t, step.run s = .ok () t ∧ I t.ranges) :
    (∃ u ∈ f.passes cfg s, B u.ranges) ∨ ∃ t, f.analyze cfg s = .ok () t := by
  have hpast : ∀ r ∈ [], I r := fun r hr => by cases hr
  rcases (f.steps_isTrace cfg s).completes_or hstep hpast hempty with hbad | ⟨t, ht, -⟩
  · exact .inl hbad
  · exact .inr ⟨t, (f.analyze_eq_steps cfg s).trans ht⟩

theorem mem_passes_of_ok (h : f.analyze cfg s = .ok () t) : t ∈ f.passes cfg s := by
  rw [analyze_eq_steps] at h
  exact mem_passed_of_ok h

end Function

end RangeAudit
