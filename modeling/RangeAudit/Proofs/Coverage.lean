import RangeAudit.Proofs.Branch

namespace RangeAudit

variable {cfg : Config} {f : Function} {nodes : List Node} {node : Node} {index j : Nat}
  {l trace more : List Nat} {p p' : Progress} {r r' : Ranges} {s t u : State} {q : Place}

/-- What may happen to the tracked intervals after a node. -/
inductive Ranges.Adjusted (r : Ranges) : Ranges → Prop
  | kept : Adjusted r r
  | widened (earlier : Ranges) : Adjusted r (r.widenFrom earlier)
  | narrowed (earlier : Ranges) : Adjusted r (r.narrowTo earlier)

/-- A state leads to another by carrying out the nodes at the given positions in turn. -/
inductive Carries (nodes : List Node) : State → List Nat → State → Prop
  | nil (s : State) : Carries nodes s [] s
  | cons {s t u : State} {index : Nat} {node : Node} {r : Ranges} {rest : List Nat}
    (hnode : nodes[index]? = some node) (hrun : node.run s = .ok () t)
    (hadjusted : t.ranges.Adjusted r) (hrest : Carries nodes { t with ranges := r } rest u) :
    Carries nodes s (index :: rest) u

namespace Carries

theorem append (h : Carries nodes s trace t) (hmore : Carries nodes t more u) :
    Carries nodes s (trace ++ more) u := by
  induction h with
  | nil => exact hmore
  | cons hnode hrun hadjusted _ ih => exact .cons hnode hrun hadjusted (ih hmore)

theorem lt_length (h : Carries nodes s trace t) (hj : j ∈ trace) : j < nodes.length := by
  induction h with
  | nil => cases hj
  | cons hnode _ _ _ ih =>
    rcases List.mem_cons.1 hj with rfl | hj
    · exact (List.getElem?_eq_some_iff.1 hnode).1
    · exact ih hj

end Carries

theorem visitNode_carries (hnode : nodes[index]? = some node)
    (h : visitNode cfg index node p s = .ok p' t) :
    Carries nodes s [index] t ∧ ∀ j, p'.IsVisited j ↔ p.IsVisited j ∨ j ∈ [index] := by
  obtain ⟨u, changed, hrun, rfl, rfl⟩ := visitNode_ok h
  constructor
  · unfold widened
    split
    · exact .cons hnode hrun (.widened s.ranges.snapshot) (.nil _)
    · exact .cons hnode hrun .kept (.nil _)
  · intro j
    rw [Progress.isVisited_of_visits (p.afterVisit_visits _ _ _ _), List.mem_singleton, or_comm]

theorem visitBatch_carries (h : visitBatch cfg nodes l p s = .ok p' t) :
    ∃ trace, Carries nodes s trace t ∧ (∀ j ∈ trace, j ∈ l) ∧
      ∀ j, p'.IsVisited j ↔ p.IsVisited j ∨ j ∈ trace := by
  induction l generalizing p s with
  | nil =>
    cases h
    exact ⟨[], .nil _, by simp, by simp⟩
  | cons index rest ih =>
    rw [visitBatch_cons] at h
    cases hnode : nodes[index]? with
    | none =>
      rw [hnode] at h
      obtain ⟨trace, hcarries, hmem, hvisited⟩ := ih h
      exact ⟨trace, hcarries, fun j hj => List.mem_cons_of_mem index (hmem j hj), hvisited⟩
    | some node =>
      rw [hnode] at h
      obtain ⟨p₁, s₁, hvisit, h⟩ := Analysis.bind_eq_ok.1 h
      obtain ⟨hfirst, hvisited₁⟩ := visitNode_carries hnode hvisit
      obtain ⟨trace, hcarries, hmem, hvisited⟩ := ih h
      refine ⟨[index] ++ trace, hfirst.append hcarries, ?_, ?_⟩
      · intro j hj
        exact List.cons_subset_cons index hmem hj
      · intro j
        rw [hvisited, hvisited₁, List.mem_append, or_assoc]

/-- A queue that the batches do not get through is worked off from its front. -/
theorem workOff_carries {batches : Nat} (h : workOff cfg nodes batches p s = .ok p' t) :
    ∃ trace, Carries nodes s trace t ∧ (∀ j, p'.IsVisited j ↔ p.IsVisited j ∨ j ∈ trace) ∧
      (batches * cfg.batchSize.toNat ≤ p.queue.length →
        ∀ j ∈ trace, j ∈ p.queue.take (batches * cfg.batchSize.toNat)) := by
  induction batches generalizing p s with
  | zero =>
    cases h
    exact ⟨[], .nil _, by simp, by simp⟩
  | succ batches ih =>
    rw [workOff] at h
    split at h
    · cases h
      exact ⟨[], .nil _, by simp, by simp⟩
    · obtain ⟨p₁, s₁, hbatch, h⟩ := Analysis.bind_eq_ok.1 h
      obtain ⟨first, hfirst, hmem₁, hvisited₁⟩ := visitBatch_carries hbatch
      obtain ⟨-, later, hqueue⟩ := visitBatch_ok hbatch
      obtain ⟨trace, hcarries, hvisited, hmem⟩ := ih h
      refine ⟨first ++ trace, hfirst.append hcarries, ?_, ?_⟩
      · intro j
        rw [hvisited, hvisited₁, List.mem_append, or_assoc]
        rfl
      · intro hlength j hj
        rw [Nat.succ_mul] at hlength
        have hleft : batches * cfg.batchSize.toNat ≤ (p.queue.drop cfg.batchSize.toNat).length := by
          rw [List.length_drop]
          omega
        rw [Nat.succ_mul, Nat.add_comm, List.take_add, List.mem_append]
        rcases List.mem_append.1 hj with hj | hj
        · exact .inl (hmem₁ j hj)
        · -- what the batch queued lies behind the nodes that the remaining batches take
          rw [hqueue, List.take_append_of_le_length hleft, List.length_append] at hmem
          exact .inr (hmem (Nat.le_add_right_of_le hleft) j hj)

theorem narrowSweep_carries {suffix : List Node} (hsuffix : nodes.drop index = suffix)
    (h : narrowSweep p index suffix s = .ok () t) :
    ∃ trace, Carries nodes s trace t ∧ ∀ j ∈ trace, p.IsVisited j := by
  induction suffix generalizing index s with
  | nil =>
    cases h
    exact ⟨[], .nil _, by simp⟩
  | cons node suffix ih =>
    obtain ⟨_, u, hu, h⟩ := Analysis.bind_eq_ok.1 h
    have hnode : nodes[index]? = some node := by
      rw [← List.head?_drop, hsuffix, List.head?_cons]
    have hrest : nodes.drop (index + 1) = suffix := by
      rw [← List.tail_drop, hsuffix, List.tail_cons]
    obtain ⟨trace, hcarries, hvisited⟩ := ih hrest h
    cases hv : p.visit? index with
    | none =>
      rw [narrowNode, hv] at hu
      cases hu
      exact ⟨trace, hcarries, hvisited⟩
    | some v =>
      rw [narrowNode, hv] at hu
      obtain ⟨_, w, hrun, hu⟩ := Analysis.bind_eq_ok.1 hu
      cases hu
      refine ⟨index :: trace, .cons hnode hrun (.narrowed v.before) hcarries, ?_⟩
      intro j hj
      rcases List.mem_cons.1 hj with rfl | hj
      · exact Option.isSome_iff_exists.2 ⟨v, hv⟩
      · exact hvisited j hj

theorem narrowSweeps_carries {sweeps : Nat} (h : narrowSweeps p nodes sweeps s = .ok () t) :
    ∃ trace, Carries nodes s trace t ∧ ∀ j ∈ trace, p.IsVisited j := by
  induction sweeps generalizing s with
  | zero =>
    cases h
    exact ⟨[], .nil _, by simp⟩
  | succ sweeps ih =>
    obtain ⟨_, u, hu, h⟩ := Analysis.bind_eq_ok.1 h
    obtain ⟨first, hfirst, hvisited₁⟩ := narrowSweep_carries List.drop_zero hu
    obtain ⟨trace, hcarries, hvisited⟩ := ih h
    refine ⟨first ++ trace, hfirst.append hcarries, fun j hj => ?_⟩
    exact (List.mem_append.1 hj).elim (hvisited₁ j) (hvisited j)

namespace Function

theorem workOff_start_carries
    (h : workOff cfg f.nodes cfg.maxBatches.toNat (.start f) s = .ok p t) :
    ∃ trace, Carries f.nodes s trace t ∧ (∀ j, p.IsVisited j ↔ j ∈ trace) ∧
      ∀ j, j ∈ trace ↔ j < min f.nodes.length (cfg.maxBatches.toNat * cfg.batchSize.toNat) := by
  obtain ⟨trace, hcarries, hvisited, hmem⟩ := workOff_carries h
  have hqueue : (Progress.start f).queue = List.range f.nodes.length := rfl
  have hfresh (j : Nat) : ¬ (Progress.start f).IsVisited j := by
    simp [Progress.IsVisited, Progress.visit?, Progress.start]
  have hiff (j : Nat) : p.IsVisited j ↔ j ∈ trace := by
    rw [hvisited, or_iff_right (hfresh j)]
  rw [hqueue, List.length_range, List.take_range] at hmem
  refine ⟨trace, hcarries, hiff, fun j => ⟨fun hj => ?_, fun hj => ?_⟩⟩
  · have hlt := hcarries.lt_length hj
    by_cases hsize : cfg.maxBatches.toNat * cfg.batchSize.toNat ≤ f.nodes.length
    · have hj := List.mem_range.1 (hmem hsize j hj)
      omega
    · omega
  · rw [← hiff]
    refine workOff_visits h j (.inr ⟨?_, by omega⟩)
    rw [hqueue, List.take_range]
    exact List.mem_range.2 (by omega)

/-- A completed analysis has carried out exactly the nodes that fit into the batches. -/
theorem analyze_carries_first_nodes (h : f.analyze cfg s = .ok () t) :
    ∃ start trace, f.start cfg.order s = .ok () start ∧ Carries f.nodes start trace t ∧
      ∀ j, j ∈ trace ↔ j < min f.nodes.length (cfg.maxBatches.toNat * cfg.batchSize.toNat) := by
  obtain ⟨start, hstart, h⟩ := analyze_ok.1 h
  obtain ⟨p, u, hwork, hsweeps⟩ := Analysis.bind_eq_ok.1 h
  obtain ⟨trace, hcarries, hvisited, hmem⟩ := workOff_start_carries hwork
  obtain ⟨again, hagain, hmore⟩ := narrowSweeps_carries hsweeps
  refine ⟨start, trace ++ again, hstart, hcarries.append hagain, fun j => ?_⟩
  rw [List.mem_append, ← hmem]
  exact or_iff_left_of_imp fun hj => (hvisited j).1 (hmore j hj)

end Function

namespace Ranges

theorem isSome_set (p : Place) (x : Interval) (h : (r.get? q).isSome) :
    ((r.set p x).get? q).isSome := by
  rw [get?_set]
  split
  · rfl
  · exact h

theorem isSome_setSome (p : Place) (x? : Option Interval) (h : (r.get? q).isSome) :
    ((r.setSome p x?).get? q).isSome := by
  cases x? with
  | none => exact h
  | some x => exact isSome_set p x h

theorem isSome_refine (c : Comparison) (left right : Operand) (h : (r.get? q).isSome) :
    ((r.refine c left right).get? q).isSome := by
  unfold refine
  split
  · rename_i p k
    cases k.threshold? with
    | none => exact h
    | some n =>
      simp only [Option.elim_some, refineByNumber]
      split
      · exact h
      · split
        · exact h
        · exact isSome_set p _ h
  · unfold refinePair
    split
    · exact isSome_setSome _ _ (isSome_setSome _ _ h)
    · exact h
  · exact h

theorem Adjusted.isSome (hr : r.Adjusted r') (h : (r.get? q).isSome) : (r'.get? q).isSome := by
  cases hr with
  | kept => exact h
  | widened earlier => rwa [widenFrom, get?_map, Option.isSome_map]
  | narrowed earlier => rwa [narrowTo, get?_map, Option.isSome_map]

end Ranges

theorem Expression.isSome_assume {e : Expression} (h : e.assume s = .ok () t)
    (hq : (s.ranges.get? q).isSome) : (t.ranges.get? q).isSome := by
  unfold Expression.assume at h
  split at h
  · cases h
    exact Ranges.isSome_refine _ _ _ hq
  · cases h
  · cases h
    exact hq

theorem Node.isSome_run (h : node.run s = .ok () t)
    (hq : (s.ranges.get? q).isSome ∨ ∀ u, q ∈ storedBy u node.instrs) :
    (t.ranges.get? q).isSome := by
  rw [Node.run_apply] at h
  split at h
  · obtain ⟨_, u, hu, h⟩ := Analysis.bind_eq_ok.1 h
    exact RangeAudit.isSome_run h (hq.imp (Expression.isSome_assume hu) fun hstored => hstored u)
  · exact RangeAudit.isSome_run h (hq.imp id fun hstored => hstored s)

namespace Carries

theorem isSome (h : Carries nodes s trace t) (hq : (s.ranges.get? q).isSome) :
    (t.ranges.get? q).isSome := by
  induction h with
  | nil => exact hq
  | cons _ hrun hadjusted _ ih => exact ih (hadjusted.isSome (Node.isSome_run hrun (.inl hq)))

theorem isSome_of_mem (h : Carries nodes s trace t) (hj : j ∈ trace) (hnode : nodes[j]? = some node)
    (hq : ∀ u, q ∈ storedBy u node.instrs) : (t.ranges.get? q).isSome := by
  induction h with
  | nil => cases hj
  | cons hindex hrun hadjusted hrest ih =>
    rcases List.mem_cons.1 hj with rfl | hj
    · cases hnode.symm.trans hindex
      exact hrest.isSome (hadjusted.isSome (Node.isSome_run hrun (.inr hq)))
    · exact ih hj

end Carries

/-- A hundred empty nodes in a chain, and one that assigns behind them. -/
def longChain : Function :=
  .ofNodes [] ((List.range 100).map (fun k => .ofInstrs [] [k + 1]) ++
    [.ofInstrs [.assign (.named "v") (.literal (.int 1))] []])

theorem longChain_analyze : longChain.analyze {} .initial = .ok () .initial := by
  decide +kernel

theorem longChain_carries_hundred :
    longChain.analyze {} .initial = .ok () .initial ∧
      ∃ start trace, longChain.start .ofInsertion .initial = .ok () start ∧
        Carries longChain.nodes start trace .initial ∧ ∀ j, j ∈ trace ↔ j < 100 :=
  ⟨longChain_analyze, Function.analyze_carries_first_nodes longChain_analyze⟩

/-- The analysis completes without having carried out the last node of the chain. -/
theorem longChain_skips_last :
    longChain.nodes.length = 101 ∧ longChain.analyze {} .initial = .ok () .initial ∧
      ∀ start trace, Carries longChain.nodes start trace .initial → 100 ∉ trace := by
  refine ⟨by decide, longChain_analyze, fun start trace h hlast => ?_⟩
  have hv := h.isSome_of_mem (q := .named "v") hlast rfl fun u => List.mem_cons_self
  cases hv

end RangeAudit
