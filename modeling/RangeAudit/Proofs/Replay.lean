import RangeAudit.Proofs.Visit

namespace RangeAudit

variable {cfg : Config} {r : Ranges} {s t : State} {i : Instr} {p q : Place} {x : Interval}
  {nodes : List Node} {node : Node}

namespace Ranges

def IsUnstable (r : Ranges) : Prop :=
  ∀ e ∈ r.entries, e.1.isStable = false

theorem mem_of_get? (h : r.get? p = some x) : (p, x) ∈ r.entries := by
  obtain ⟨l, m, hl, -⟩ := List.lookup_eq_some_iff.1 h
  simp [hl]

theorem mem_setEntries {l : List (Place × Interval)} {e : Place × Interval}
    (h : e ∈ setEntries p x l) : e = (p, x) ∨ e ∈ l := by
  induction l with
  | nil => exact .inl (List.mem_singleton.1 h)
  | cons c l ih =>
    obtain ⟨q, y⟩ := c
    rw [setEntries] at h
    split at h
    · rename_i hq
      rcases List.mem_cons.1 h with rfl | h
      · exact .inl (by rw [hq])
      · exact .inr (List.mem_cons_of_mem _ h)
    · rcases List.mem_cons.1 h with rfl | h
      · exact .inr List.mem_cons_self
      · rcases ih h with he | he
        · exact .inl he
        · exact .inr (List.mem_cons_of_mem _ he)

namespace IsUnstable

theorem place (h : r.IsUnstable) (hp : r.get? p = some x) : p.isStable = false :=
  h (p, x) (mem_of_get? hp)

theorem set (h : r.IsUnstable) (hp : p.isStable = false) (x : Interval) :
    (r.set p x).IsUnstable := by
  intro e he
  rcases mem_setEntries he with rfl | he
  · exact hp
  · exact h e he

theorem setSome (h : r.IsUnstable) (hp : p.isStable = false) (x? : Option Interval) :
    (r.setSome p x?).IsUnstable := by
  cases x? with
  | none => exact h
  | some x => exact h.set hp x

theorem map (h : r.IsUnstable) (f : Place → Interval → Interval) : (r.map f).IsUnstable := by
  intro e he
  obtain ⟨d, hd, rfl⟩ := List.mem_map.1 he
  exact h d hd

theorem snapshot (h : r.IsUnstable) : r.snapshot = .empty := by
  unfold Ranges.snapshot
  rw [List.filter_eq_nil_iff.2]
  · rfl
  · rintro ⟨p, x⟩ he
    simp [h (p, x) he]

theorem refine (h : r.IsUnstable) (c : Comparison) (left right : Operand) :
    (r.refine c left right).IsUnstable := by
  unfold Ranges.refine
  split
  · rename_i p k
    cases k.threshold? with
    | none => exact h
    | some n =>
      simp only [Option.elim_some, refineByNumber]
      split
      · exact h
      · rename_i y hy
        split
        · exact h
        · exact h.set (h.place hy) _
  · rename_i p q
    unfold refinePair
    split
    · rename_i y z hy hz
      exact (h.setSome (h.place hy) _).setSome (h.place hz) _
    · exact h
  · exact h

end IsUnstable

theorem map_id (f : Place → Interval → Interval) (h : ∀ p x, f p x = x) : r.map f = r := by
  unfold map
  simp [h]

theorem widenFrom_empty (r : Ranges) : r.widenFrom .empty = r :=
  map_id _ fun _ _ => rfl

theorem narrowTo_empty (r : Ranges) : r.narrowTo .empty = r :=
  map_id _ fun _ _ => rfl

theorem changedSince_empty (threshold? : Option Number) (r : Ranges) :
    ∃ changed, r.changedSince threshold? .empty = .ok changed := by
  unfold changedSince
  cases r.entries with
  | nil => exact ⟨false, rfl⟩
  | cons e l => exact ⟨true, rfl⟩

end Ranges

namespace Instr

def IsUnstable (i : Instr) : Prop :=
  ∀ p ∈ i.result?, p.isStable = false

instance (i : Instr) : Decidable i.IsUnstable :=
  inferInstanceAs (Decidable (∀ p ∈ i.result?, p.isStable = false))

theorem IsUnstable.apply (hi : i.IsUnstable) (h : s.ranges.IsUnstable) :
    (s.apply (i.effect s)).ranges.IsUnstable := by
  cases he : (i.effect s).store? with
  | none => rwa [State.ranges_apply_of_none s he]
  | some c =>
    obtain ⟨p, x⟩ := c
    have hp := hi p (effect_result he)
    simpa only [State.apply, he] using h.set hp x

theorem run_unstable {l : List Instr} (hl : ∀ i ∈ l, i.IsUnstable) (h : s.ranges.IsUnstable)
    (hr : l.forM process s = .ok () t) : t.ranges.IsUnstable := by
  induction l generalizing s with
  | nil =>
    cases hr
    exact h
  | cons i l ih =>
    obtain ⟨-, hr⟩ := run_cons_ok.1 hr
    exact ih (fun j hj => hl j (List.mem_cons_of_mem _ hj)) ((hl i List.mem_cons_self).apply h) hr

end Instr

namespace Node

def IsUnstable (n : Node) : Prop :=
  ∀ i ∈ n.instrs, i.IsUnstable

theorem run_apply (n : Node) (s : State) : n.run s =
    (if n.isBranch then (n.condition.assume >>= fun _ => n.instrs.forM Instr.process) s
      else n.instrs.forM Instr.process s) := by
  unfold run
  cases n.isBranch <;> rfl

theorem IsUnstable.run (hn : node.IsUnstable) (h : s.ranges.IsUnstable)
    (hr : node.run s = .ok () t) : t.ranges.IsUnstable := by
  rw [run_apply] at hr
  split at hr
  · obtain ⟨_, u, hc, hr⟩ := Analysis.bind_eq_ok.1 hr
    refine Instr.run_unstable hn ?_ hr
    unfold Expression.assume at hc
    split at hc
    · cases hc
      exact h.refine _ _ _
    · cases hc
    · cases hc
      exact h
  · exact Instr.run_unstable hn h hr

theorem run_of_not_branch (h : node.isBranch = false) (s : State) :
    node.run s = node.instrs.forM Instr.process s := by
  rw [run_apply, h]
  rfl

theorem forM_run_eq_process {l : List Node} (h : ∀ n ∈ l, n.isBranch = false) (s : State) :
    l.forM run s = (l.flatMap (·.instrs)).forM Instr.process s := by
  induction l generalizing s with
  | nil => rfl
  | cons n l ih =>
    have hn := run_of_not_branch (h n List.mem_cons_self) s
    rw [List.flatMap_cons, Analysis.forM_append, Analysis.forM_cons]
    exact Analysis.bind_congr hn fun _ t => ih (fun m hm => h m (List.mem_cons_of_mem _ hm)) t

end Node

theorem flatMap_flatten_replicate {α β : Type} (g : α → List β) (l : List α) (n : Nat) :
    (List.replicate n l).flatten.flatMap g = (List.replicate n (l.flatMap g)).flatten := by
  induction n with
  | zero => rfl
  | succ n ih =>
    rw [List.replicate_succ, List.replicate_succ, List.flatten_cons, List.flatten_cons,
      List.flatMap_append, ih]

/-- Every snapshot that was noted is empty. -/
def Progress.IsBlank (p : Progress) : Prop :=
  ∀ e ∈ p.visits, e.2.before = .empty

theorem filterMap_getElem?_range {α : Type} (l : List α) :
    (List.range l.length).filterMap (l[·]?) = l := by
  induction l with
  | nil => rfl
  | cons a l ih =>
    rw [List.length_cons, List.range_succ_eq_map, List.filterMap_cons, List.filterMap_map]
    exact congrArg (a :: ·) ih

def runAt (nodes : List Node) (indices : List Nat) : Analysis Unit :=
  (indices.filterMap (nodes[·]?)).forM Node.run

/-- A part of the worklist ends as a plain run of nodes does. -/
def Replays (a : EStateM.Result Failure State Progress) (b : EStateM.Result Failure State Unit) :
    Prop :=
  match a with
  | .ok p t => b = .ok () t ∧ t.ranges.IsUnstable ∧ p.IsBlank
  | .error e t => b = .error e t

theorem Replays.bind {a : Analysis Progress} {b c : Analysis Unit}
    {k : Progress → Analysis Progress} (h : Replays (a s) (b s))
    (hk : ∀ p t, a s = .ok p t → t.ranges.IsUnstable → p.IsBlank → Replays (k p t) (c t)) :
    Replays ((a >>= k) s) ((b >>= fun _ => c) s) := by
  cases ha : a s with
  | error e t =>
    rw [ha] at h
    rw [Analysis.bind_error ha, Analysis.bind_error h]
    rfl
  | ok p t =>
    rw [ha] at h
    obtain ⟨hb, ht, hp⟩ := h
    rw [Analysis.bind_ok ha, Analysis.bind_ok hb]
    exact hk p t ha ht hp

theorem runAt_append (nodes : List Node) (k l : List Nat) (s : State) :
    runAt nodes (k ++ l) s = (runAt nodes k >>= fun _ => runAt nodes l) s := by
  unfold runAt
  rw [List.filterMap_append, Analysis.forM_append]

theorem visitNode_replays {p : Progress} (hn : node.IsUnstable) (hs : s.ranges.IsUnstable)
    (hp : p.IsBlank) (index : Nat) :
    Replays (visitNode cfg index node p s) (node.run s) := by
  rw [visitNode_apply, hs.snapshot]
  cases hr : node.run s with
  | error e t => rfl
  | ok _ t =>
    have hw : widened cfg (visitCount p index) .empty t = t := by
      unfold widened
      rw [Ranges.widenFrom_empty]
      split <;> rfl
    obtain ⟨changed, hc⟩ := t.ranges.changedSince_empty defaultThreshold
    simp only [hw, hc]
    refine ⟨rfl, hn.run hs hr, ?_⟩
    intro e he
    rw [Progress.afterVisit_visits] at he
    rcases List.mem_cons.1 he with rfl | he
    · rfl
    · exact hp e he

theorem visitBatch_replays {p : Progress} (hnodes : ∀ n ∈ nodes, n.IsUnstable)
    (hs : s.ranges.IsUnstable) (hp : p.IsBlank) (l : List Nat) :
    Replays (visitBatch cfg nodes l p s) (runAt nodes l s) := by
  induction l generalizing p s with
  | nil => exact ⟨rfl, hs, hp⟩
  | cons index rest ih =>
    rw [visitBatch_cons, runAt, List.filterMap_cons]
    cases hn : nodes[index]? with
    | none => exact ih hs hp
    | some node =>
      have hv : Replays (visitNode cfg index node p s) (node.run s) :=
        visitNode_replays (hnodes node (List.mem_of_getElem? hn)) hs hp index
      rw [Analysis.forM_cons]
      exact hv.bind fun p₁ t _ ht hp₁ => ih ht hp₁

/-- The nodes run in order, as many as fit into the batches, and then some of them again. -/
theorem workOff_replays (cfg : Config) {p : Progress} (hnodes : ∀ n ∈ nodes, n.IsUnstable)
    (hs : s.ranges.IsUnstable) (hp : p.IsBlank) (batches : Nat) :
    ∃ later, Replays (workOff cfg nodes batches p s)
      (runAt nodes (p.queue.take (batches * cfg.batchSize.toNat) ++ later) s) := by
  induction batches generalizing p s with
  | zero =>
    refine ⟨[], ?_⟩
    rw [Nat.zero_mul]
    exact ⟨rfl, hs, hp⟩
  | succ batches ih =>
    rw [workOff]
    split
    · rename_i hq
      have hq : p.queue = [] := by simpa using hq
      rw [hq]
      refine ⟨[], ?_⟩
      rw [List.take_nil]
      exact ⟨rfl, hs, hp⟩
    · have hp₀ : ({ p with queue := p.queue.drop cfg.batchSize.toNat } : Progress).IsBlank := hp
      have hb : Replays (visitBatch cfg nodes (p.queue.take cfg.batchSize.toNat)
          { p with queue := p.queue.drop cfg.batchSize.toNat } s)
          (runAt nodes (p.queue.take cfg.batchSize.toNat) s) :=
        visitBatch_replays hnodes hs hp₀ _
      simp only [Nat.succ_mul, Nat.add_comm _ cfg.batchSize.toNat, List.take_add,
        List.append_assoc]
      cases h : visitBatch cfg nodes (p.queue.take cfg.batchSize.toNat)
          { p with queue := p.queue.drop cfg.batchSize.toNat } s with
      | error e t =>
        refine ⟨[], ?_⟩
        rw [runAt_append]
        exact hb.bind fun p₁ u h₁ _ _ => by cases h.symm.trans h₁
      | ok p₁ t =>
        have hok := hb
        rw [h] at hok
        obtain ⟨later, hl⟩ := ih hok.2.1 hok.2.2
        obtain ⟨-, queued, hq⟩ := visitBatch_ok h
        rw [hq, List.take_append, List.append_assoc] at hl
        refine ⟨queued.take (batches * cfg.batchSize.toNat -
          (p.queue.drop cfg.batchSize.toNat).length) ++ later, ?_⟩
        rw [runAt_append]
        refine hb.bind fun p₂ u h₂ _ _ => ?_
        cases h.symm.trans h₂
        exact hl

theorem Progress.IsBlank.before {p : Progress} (hp : p.IsBlank) {index : Nat} {v : Visit}
    (h : p.visit? index = some v) : v.before = .empty :=
  hp (index, v) (Progress.mem_of_visit? h)

theorem narrowNode_eq_run {p : Progress} (hp : p.IsBlank) {index : Nat} (hv : p.IsVisited index)
    (node : Node) (s : State) : narrowNode p index node s = node.run s := by
  obtain ⟨v, h⟩ := Option.isSome_iff_exists.1 hv
  simp only [narrowNode, h, hp.before h, Ranges.narrowTo_empty]
  cases hr : node.run s with
  | error e t => exact Analysis.bind_error hr _
  | ok _ t => exact Analysis.bind_ok hr _

theorem narrowSweep_eq_run {p : Progress} (hp : p.IsBlank) {index : Nat} {l : List Node}
    (hv : ∀ j < l.length, p.IsVisited (index + j)) (s : State) :
    narrowSweep p index l s = l.forM Node.run s := by
  induction l generalizing index s with
  | nil => rfl
  | cons node l ih =>
    have hl : ∀ j < l.length, p.IsVisited (index + 1 + j) := by
      intro j hj
      have h := hv (j + 1) (by simpa using hj)
      rwa [show index + (j + 1) = index + 1 + j by omega] at h
    have hn : narrowNode p index node s = node.run s :=
      narrowNode_eq_run hp (hv 0 (by simp)) node s
    rw [narrowSweep, Analysis.forM_cons]
    exact Analysis.bind_congr hn fun _ t => ih hl t

theorem narrowSweeps_eq_run {p : Progress} (hp : p.IsBlank)
    (hv : ∀ j < nodes.length, p.IsVisited j) (sweeps : Nat) (s : State) :
    narrowSweeps p nodes sweeps s = (List.replicate sweeps nodes).flatten.forM Node.run s := by
  induction sweeps generalizing s with
  | zero => rfl
  | succ sweeps ih =>
    have hn : narrowSweep p 0 nodes s = nodes.forM Node.run s :=
      narrowSweep_eq_run hp (by simpa using hv) s
    rw [narrowSweeps, List.replicate_succ, List.flatten_cons, Analysis.forM_append]
    exact Analysis.bind_congr hn fun _ t => ih t

def Operand.isStable : Operand → Bool
  | .place (.var v) => v.stable
  | _ => false

namespace Function

variable {f : Function}

/-- No snapshot finds again what the analysis of the function can track. -/
structure IsUnstable (f : Function) : Prop where
  params : ∀ v ∈ f.params, v.stable = false
  results : ∀ i ∈ f.instrs, i.IsUnstable
  sources : ∀ i ∈ f.instrs, ∀ v : Variable, i.source? = some (.place (.var v)) → v.stable = false

instance (f : Function) : Decidable f.IsUnstable :=
  decidable_of_iff ((∀ v ∈ f.params, v.stable = false) ∧ (∀ i ∈ f.instrs, i.IsUnstable) ∧
      ∀ i ∈ f.instrs, ∀ o ∈ i.source?, o.isStable = false) <| by
    constructor
    · rintro ⟨hparams, hresults, hsources⟩
      exact ⟨hparams, hresults, fun i hi v hv => hsources i hi _ hv⟩
    · rintro ⟨hparams, hresults, hsources⟩
      refine ⟨hparams, hresults, fun i hi o ho => ?_⟩
      cases o with
      | place p =>
        cases p with
        | var v => exact hsources i hi v ho
        | unnamed => rfl
      | literal k => rfl

theorem IsUnstable.node_isUnstable (hf : f.IsUnstable) : ∀ n ∈ f.nodes, n.IsUnstable :=
  fun n hn i hi => hf.results i (List.mem_flatMap.2 ⟨n, hn, hi⟩)

/-- The nodes run in order, some of them again, and all of them once for each sweep. -/
theorem iterate_eq_run (hf : f.IsUnstable) (hs : s.ranges.IsUnstable)
    (hsize : f.nodes.length ≤ cfg.maxBatches.toNat * cfg.batchSize.toNat) :
    ∃ later, (∀ n ∈ later, n ∈ f.nodes) ∧ f.iterate cfg s =
      (f.nodes ++ later ++ (List.replicate cfg.narrowingSweeps.toNat f.nodes).flatten).forM
        Node.run s := by
  have hblank : (Progress.start f).IsBlank := by
    intro e he
    cases he
  obtain ⟨later, hw⟩ := workOff_replays cfg hf.node_isUnstable hs hblank cfg.maxBatches.toNat
  have hq : (Progress.start f).queue = List.range f.nodes.length := rfl
  rw [hq, List.take_of_length_le (by simpa using hsize), runAt, List.filterMap_append,
    filterMap_getElem?_range] at hw
  refine ⟨later.filterMap (f.nodes[·]?), ?_, ?_⟩
  · intro n hn
    obtain ⟨j, -, hj⟩ := List.mem_filterMap.1 hn
    exact List.mem_of_getElem? hj
  · rw [Function.iterate, Analysis.forM_append]
    cases h : workOff cfg f.nodes cfg.maxBatches.toNat (.start f) s with
    | error e t =>
      rw [h] at hw
      rw [Analysis.bind_error h, Analysis.bind_error hw]
    | ok p t =>
      rw [h] at hw
      obtain ⟨hr, -, hp⟩ := hw
      rw [Analysis.bind_ok h, Analysis.bind_ok hr]
      exact narrowSweeps_eq_run hp (workOff_start_visits hsize h) _ t

theorem iterate_eq_process (hf : f.IsUnstable) (hs : s.ranges.IsUnstable)
    (hsize : f.nodes.length ≤ cfg.maxBatches.toNat * cfg.batchSize.toNat)
    (hbranch : ∀ n ∈ f.nodes, n.isBranch = false) :
    ∃ later, (∀ i ∈ later, i ∈ f.instrs) ∧ f.iterate cfg s =
      (f.instrs ++ later ++ (List.replicate cfg.narrowingSweeps.toNat f.instrs).flatten).forM
        Instr.process s := by
  obtain ⟨later, hl, h⟩ := iterate_eq_run hf hs hsize
  refine ⟨later.flatMap (·.instrs), ?_, ?_⟩
  · intro i hi
    obtain ⟨n, hn, hi⟩ := List.mem_flatMap.1 hi
    exact List.mem_flatMap.2 ⟨n, hl n hn, hi⟩
  · rw [h, Node.forM_run_eq_process, List.flatMap_append, List.flatMap_append,
      flatMap_flatten_replicate]
    · rfl
    · intro n hn
      rcases List.mem_append.1 hn with hn | hn
      · rcases List.mem_append.1 hn with hn | hn
        · exact hbranch n hn
        · exact hbranch n (hl n hn)
      · obtain ⟨l, hl, hn⟩ := List.mem_flatten.1 hn
        rw [List.eq_of_mem_replicate hl] at hn
        exact hbranch n hn

end Function

end RangeAudit
