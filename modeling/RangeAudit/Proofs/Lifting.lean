import RangeAudit.Proofs.Start

namespace RangeAudit

variable {α β : Type} {cfg : Config} {R : State → State → Prop} {nodes : List Node} {p : Progress}

/-- Related states track the same intervals, and stay related when these change alike. -/
structure TracksAlike (R : State → State → Prop) : Prop where
  ranges {s s' : State} (h : R s s') : s.ranges = s'.ranges
  setRanges {s s' : State} (h : R s s') (r : Ranges) :
    R { s with ranges := r } { s' with ranges := r }

theorem TracksAlike.mapRanges {s s' : State} (hR : TracksAlike R) (h : R s s')
    (g : Ranges → Ranges) :
    R { s with ranges := g s.ranges } { s' with ranges := g s'.ranges } := by
  rw [← hR.ranges h]
  exact hR.setRanges h _

/-- Completing from a state, it completes with the same result from every related one. -/
def Analysis.Lifts (R : State → State → Prop) (a : Analysis α) : Prop :=
  ∀ ⦃s s' t : State⦄ ⦃b : α⦄, R s s' → a s = .ok b t → ∃ t', a s' = .ok b t' ∧ R t t'

namespace Analysis.Lifts

theorem pure (b : α) : Lifts R (Pure.pure b : Analysis α) := by
  intro s s' t c hs h
  cases h
  exact ⟨s', rfl, hs⟩

theorem bind {a : Analysis α} {k : α → Analysis β} (ha : a.Lifts R) (hk : ∀ c, (k c).Lifts R) :
    (a >>= k).Lifts R := by
  intro s s' t b hs h
  obtain ⟨c, u, hu, ht⟩ := bind_eq_ok.1 h
  obtain ⟨u', hu', hs⟩ := ha hs hu
  obtain ⟨t', ht', hs⟩ := hk c hs ht
  exact ⟨t', bind_eq_ok.2 ⟨c, u', hu', ht'⟩, hs⟩

theorem ofExcept (x : Except Failure α) : (Analysis.ofExcept x).Lifts R := by
  cases x with
  | ok b => exact pure b
  | error f =>
    intro s s' t b _ h
    cases h

theorem modifyRanges (hR : TracksAlike R) (g : Ranges → Ranges) :
    Lifts R (modify fun s => { s with ranges := g s.ranges } : Analysis Unit) := by
  intro s s' t b hs h
  cases h
  exact ⟨_, rfl, hR.mapRanges hs g⟩

theorem get_bind (hR : TracksAlike R) {k : State → Analysis β} (hk : ∀ s, (k s).Lifts R)
    (hranges : ∀ s s', s.ranges = s'.ranges → k s = k s') :
    ((get : Analysis State) >>= k).Lifts R := by
  intro s s' t b hs h
  obtain ⟨t', ht', ht⟩ := hk s hs h
  rw [hranges s s' (hR.ranges hs)] at ht'
  exact ⟨t', ht', ht⟩

theorem forM {f : α → Analysis Unit} {l : List α} (h : ∀ a ∈ l, (f a).Lifts R) :
    Lifts R (l.forM f) := by
  induction l with
  | nil => exact pure ()
  | cons a l ih =>
    exact (h a List.mem_cons_self).bind fun _ => ih fun b hb => h b (List.mem_cons_of_mem a hb)

end Analysis.Lifts

theorem Expression.assume_lifts (hR : TracksAlike R) (e : Expression) : e.assume.Lifts R := by
  have hid : Analysis.Lifts R (fun s => .ok () s : Analysis Unit) := .pure ()
  cases e with
  | binary op left right =>
    cases op with
    | compare c => exact .modifyRanges hR fun r => r.refine c left right
    | add | sub | mul | div | mod | pow | shl | shr | logic | unknown => exact hid
  | incomplete part =>
    intro s s' t b _ h
    cases h
  | other => exact hid

theorem Node.run_lifts {n : Node} (hR : TracksAlike R)
    (hn : ∀ i ∈ n.instrs, i.process.Lifts R) : n.run.Lifts R := by
  unfold Node.run
  split
  · exact (n.condition.assume_lifts hR).bind fun _ => .forM hn
  · exact .forM hn

theorem TracksAlike.widened {t t' : State} (hR : TracksAlike R) (h : R t t') (cfg : Config)
    (count : Nat) (before : Ranges) :
    R (widened cfg count before t) (widened cfg count before t') := by
  unfold RangeAudit.widened
  split
  · exact hR.mapRanges h (·.widenFrom before)
  · exact h

theorem visitNode_lifts {node : Node} (hR : TracksAlike R) (hn : node.run.Lifts R) (index : Nat)
    (p : Progress) : (visitNode cfg index node p).Lifts R := by
  intro s s' t b hs h
  rw [visitNode_apply] at h ⊢
  cases hr : node.run s with
  | error e u =>
    rw [hr] at h
    cases h
  | ok _ u =>
    obtain ⟨u', hu', hu⟩ := hn hs hr
    have hu := hR.widened hu cfg (visitCount p index) s.ranges.snapshot
    rw [hr] at h
    rw [hu', ← hR.ranges hs]
    dsimp only at h ⊢
    rw [← hR.ranges hu]
    split at h
    · cases h
    · cases h
      exact ⟨_, rfl, hu⟩

theorem visitBatch_lifts (hR : TracksAlike R) (hn : ∀ n ∈ nodes, n.run.Lifts R) (l : List Nat)
    (p : Progress) : (visitBatch cfg nodes l p).Lifts R := by
  induction l generalizing p with
  | nil => exact .pure p
  | cons index rest ih =>
    rw [visitBatch]
    split
    · rename_i node hnode
      exact (visitNode_lifts hR (hn node (List.mem_of_getElem? hnode)) index p).bind ih
    · exact (Analysis.Lifts.pure p).bind ih

theorem workOff_lifts (hR : TracksAlike R) (hn : ∀ n ∈ nodes, n.run.Lifts R) (batches : Nat)
    (p : Progress) : (workOff cfg nodes batches p).Lifts R := by
  induction batches generalizing p with
  | zero => exact .pure p
  | succ batches ih =>
    rw [workOff]
    split
    · exact .pure p
    · exact (visitBatch_lifts hR hn _ _).bind ih

theorem narrowNode_lifts {node : Node} (hR : TracksAlike R) (hn : node.run.Lifts R)
    (p : Progress) (index : Nat) : (narrowNode p index node).Lifts R := by
  unfold narrowNode
  split
  · exact .pure ()
  · exact hn.bind fun _ => .modifyRanges hR fun r => r.narrowTo _

theorem narrowSweep_lifts (hR : TracksAlike R) (hn : ∀ n ∈ nodes, n.run.Lifts R) (p : Progress)
    (index : Nat) : (narrowSweep p index nodes).Lifts R := by
  induction nodes generalizing index with
  | nil => exact .pure ()
  | cons node rest ih =>
    obtain ⟨hnode, hrest⟩ := List.forall_mem_cons.1 hn
    exact (narrowNode_lifts hR hnode p index).bind fun _ => ih hrest (index + 1)

theorem narrowSweeps_lifts (hR : TracksAlike R) (hn : ∀ n ∈ nodes, n.run.Lifts R) (p : Progress)
    (sweeps : Nat) : (narrowSweeps p nodes sweeps).Lifts R := by
  induction sweeps with
  | zero => exact .pure ()
  | succ sweeps ih => exact (narrowSweep_lifts hR hn p 0).bind fun _ => ih

namespace Function

variable {f : Function}

theorem trackParam_lifts (hR : TracksAlike R) (v : Variable) : (trackParam v).Lifts R := by
  refine .get_bind hR (fun s => ?_) (fun s s' h => ?_)
  · exact (Analysis.Lifts.ofExcept _).bind fun r => .modifyRanges hR fun _ => r
  · rw [h]

/-- The analysis of a function lifts along every relation that its instructions lift along. -/
theorem analyze_lifts (hR : TracksAlike R) (hf : ∀ i ∈ f.instrs, i.process.Lifts R)
    (cfg : Config) : (f.analyze cfg).Lifts R := by
  have hn : ∀ n ∈ f.nodes, n.run.Lifts R := fun n hn =>
    Node.run_lifts hR fun i hi => hf i (List.mem_flatMap.2 ⟨n, hn, hi⟩)
  have hstart : (f.start cfg.order).Lifts R :=
    (Analysis.Lifts.modifyRanges hR fun _ => .empty).bind fun _ =>
      (Analysis.Lifts.forM fun v _ => trackParam_lifts hR v).bind fun _ =>
        .modifyRanges hR (f.addVariables cfg.order)
  exact hstart.bind fun _ => (workOff_lifts hR hn _ _).bind fun p => narrowSweeps_lifts hR hn p _

/-- The intervals that were tracked before do not matter. -/
theorem analyze_reset (cfg : Config) (f : Function) (s : State) (r : Ranges) :
    f.analyze cfg { s with ranges := r } = f.analyze cfg s := rfl

end Function

end RangeAudit
