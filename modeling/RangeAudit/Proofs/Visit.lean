import RangeAudit.Proofs.Run

namespace RangeAudit

variable {cfg : Config} {nodes : List Node} {node : Node} {index : Nat} {p p' : Progress}
  {s t : State} {v : Visit}

namespace Progress

def IsVisited (p : Progress) (index : Nat) : Prop :=
  (p.visit? index).isSome

theorem mem_of_visit? (h : p.visit? index = some v) : (index, v) ∈ p.visits := by
  obtain ⟨l, m, hl, -⟩ := List.lookup_eq_some_iff.1 h
  simp [hl]

/-- The progress after a visit that did or did not change the tracked intervals. -/
def afterVisit (p : Progress) (index : Nat) (v : Visit) (sons : List Nat) (changed : Bool) :
    Progress :=
  let p := p.noteVisit index v
  (if changed then p.queueSons sons else p).markProcessed index

theorem markProcessed_visits (p : Progress) (index : Nat) :
    (p.markProcessed index).visits = p.visits := by
  unfold markProcessed
  split <;> rfl

theorem markProcessed_queue (p : Progress) (index : Nat) :
    (p.markProcessed index).queue = p.queue := by
  unfold markProcessed
  split <;> rfl

theorem queueSons_queue (p : Progress) (sons : List Nat) :
    ∃ later, (p.queueSons sons).queue = p.queue ++ later := by
  unfold queueSons
  dsimp only
  generalize p.queue = queue
  induction sons generalizing queue with
  | nil => exact ⟨[], by simp⟩
  | cons son sons ih =>
    rw [List.foldl_cons]
    split
    · obtain ⟨later, h⟩ := ih (queue ++ [son])
      exact ⟨son :: later, by rw [h, List.append_assoc]; rfl⟩
    · exact ih queue

theorem afterVisit_visits (p : Progress) (index : Nat) (v : Visit) (sons : List Nat)
    (changed : Bool) : (p.afterVisit index v sons changed).visits = (index, v) :: p.visits := by
  unfold afterVisit
  rw [markProcessed_visits]
  split <;> rfl

theorem afterVisit_queue (p : Progress) (index : Nat) (v : Visit) (sons : List Nat)
    (changed : Bool) : ∃ later, (p.afterVisit index v sons changed).queue = p.queue ++ later := by
  unfold afterVisit
  rw [markProcessed_queue]
  split
  · exact queueSons_queue (p.noteVisit index v) sons
  · exact ⟨[], (List.append_nil _).symm⟩

theorem isVisited_of_visits (h : p'.visits = (index, v) :: p.visits) (j : Nat) :
    p'.IsVisited j ↔ j = index ∨ p.IsVisited j := by
  unfold IsVisited visit?
  rw [h, List.lookup_cons]
  by_cases hj : j = index
  · simp [hj]
  · have hb : (j == index) = false := by simp [hj]
    simp [hj, hb]

end Progress

/-- A node that keeps coming back widens the tracked intervals. -/
def widened (cfg : Config) (count : Nat) (before : Ranges) (t : State) : State :=
  if cfg.wideningThreshold ≤ count then { t with ranges := t.ranges.widenFrom before } else t

def visitCount (p : Progress) (index : Nat) : Nat :=
  (p.visit? index).elim 0 (·.count) + 1

theorem visitNode_apply (cfg : Config) (index : Nat) (node : Node) (p : Progress) (s : State) :
    visitNode cfg index node p s = match node.run s with
      | .error e t => .error e t
      | .ok _ t =>
        let before := s.ranges.snapshot
        let t := widened cfg (visitCount p index) before t
        match t.ranges.changedSince defaultThreshold before with
        | .error e => .error e t
        | .ok changed =>
          .ok (p.afterVisit index ⟨visitCount p index, before⟩ node.sons changed) t := by
  rw [visitNode, Analysis.bind_ok (Analysis.get_apply s)]
  cases hr : node.run s with
  | error e t => rw [Analysis.bind_error hr]
  | ok _ t =>
    have queued (u : State) : (do
        let changed ← Analysis.ofExcept (u.ranges.changedSince defaultThreshold s.ranges.snapshot)
        pure (p.afterVisit index ⟨visitCount p index, s.ranges.snapshot⟩ node.sons changed) :
          Analysis Progress) u = match u.ranges.changedSince defaultThreshold s.ranges.snapshot with
        | .error e => .error e u
        | .ok changed =>
          .ok (p.afterVisit index ⟨visitCount p index, s.ranges.snapshot⟩ node.sons changed) u := by
      cases u.ranges.changedSince defaultThreshold s.ranges.snapshot with
      | error e => exact Analysis.bind_error (Analysis.ofExcept_error e u) _
      | ok changed => exact Analysis.bind_ok (Analysis.ofExcept_ok changed u) _
    rw [Analysis.bind_ok hr]
    by_cases hw : cfg.wideningThreshold ≤ (visitCount p index : Int)
    · have hw' : cfg.wideningThreshold ≤ (((p.visit? index).elim 0 (·.count) + 1 : Nat) : Int) := hw
      simp only [widened, if_pos hw, if_pos hw']
      exact queued _
    · have hw' : ¬ cfg.wideningThreshold ≤
          (((p.visit? index).elim 0 (·.count) + 1 : Nat) : Int) := hw
      simp only [widened, if_neg hw, if_neg hw']
      exact queued _

theorem visitNode_ok {s' : State} (h : visitNode cfg index node p s = .ok p' s') :
    ∃ t changed, node.run s = .ok () t ∧
      s' = widened cfg (visitCount p index) s.ranges.snapshot t ∧
      p' = p.afterVisit index ⟨visitCount p index, s.ranges.snapshot⟩ node.sons changed := by
  rw [visitNode_apply] at h
  cases hr : node.run s with
  | error e t =>
    rw [hr] at h
    cases h
  | ok _ t =>
    rw [hr] at h
    dsimp only at h
    split at h
    · cases h
    · cases h
      exact ⟨t, _, rfl, rfl, rfl⟩

theorem visitBatch_cons (cfg : Config) (nodes : List Node) (index : Nat) (rest : List Nat)
    (p : Progress) (s : State) :
    visitBatch cfg nodes (index :: rest) p s = match nodes[index]? with
      | none => visitBatch cfg nodes rest p s
      | some node => (visitNode cfg index node p >>= visitBatch cfg nodes rest) s := by
  rw [visitBatch]
  cases nodes[index]? <;> rfl

theorem visitBatch_ok {l : List Nat} {s' : State} (h : visitBatch cfg nodes l p s = .ok p' s') :
    (∀ j, p.IsVisited j ∨ (j ∈ l ∧ j < nodes.length) → p'.IsVisited j) ∧
      ∃ later, p'.queue = p.queue ++ later := by
  induction l generalizing p s with
  | nil =>
    cases h
    refine ⟨?_, [], (List.append_nil _).symm⟩
    rintro j (hj | ⟨hj, -⟩)
    · exact hj
    · cases hj
  | cons index rest ih =>
    rw [visitBatch_cons] at h
    cases hn : nodes[index]? with
    | none =>
      rw [hn] at h
      obtain ⟨hv, hq⟩ := ih h
      refine ⟨?_, hq⟩
      rintro j (hj | ⟨hj, hlt⟩)
      · exact hv j (.inl hj)
      · rcases List.mem_cons.1 hj with rfl | hj
        · rw [List.getElem?_eq_none_iff] at hn
          omega
        · exact hv j (.inr ⟨hj, hlt⟩)
    | some node =>
      rw [hn] at h
      obtain ⟨p₁, s₁, h₁, h⟩ := Analysis.bind_eq_ok.1 h
      obtain ⟨t, changed, -, -, rfl⟩ := visitNode_ok h₁
      obtain ⟨hv, later, hq⟩ := ih h
      have hvisits := p.afterVisit_visits index ⟨visitCount p index, s.ranges.snapshot⟩ node.sons
        changed
      obtain ⟨first, hf⟩ := p.afterVisit_queue index ⟨visitCount p index, s.ranges.snapshot⟩
        node.sons changed
      refine ⟨?_, first ++ later, by rw [hq, hf, List.append_assoc]⟩
      rintro j (hj | ⟨hj, hlt⟩)
      · exact hv j (.inl ((Progress.isVisited_of_visits hvisits j).2 (.inr hj)))
      · rcases List.mem_cons.1 hj with rfl | hj
        · exact hv j (.inl ((Progress.isVisited_of_visits hvisits j).2 (.inl rfl)))
        · exact hv j (.inr ⟨hj, hlt⟩)

/-- The nodes that fit into the given number of batches are all visited. -/
theorem workOff_visits {batches : Nat} {s' : State}
    (h : workOff cfg nodes batches p s = .ok p' s') (j : Nat)
    (hj : p.IsVisited j ∨ (j ∈ p.queue.take (batches * cfg.batchSize.toNat) ∧ j < nodes.length)) :
    p'.IsVisited j := by
  induction batches generalizing p s with
  | zero =>
    cases h
    simpa using hj
  | succ batches ih =>
    rw [workOff] at h
    split at h
    · rename_i hq
      have hq : p.queue = [] := by simpa using hq
      rw [hq] at hj
      cases h
      simpa using hj
    · obtain ⟨p₁, s₁, h₁, h⟩ := Analysis.bind_eq_ok.1 h
      obtain ⟨hv, later, hq⟩ := visitBatch_ok h₁
      apply ih h
      rcases hj with hj | ⟨hj, hlt⟩
      · exact .inl (hv j (.inl hj))
      · rw [Nat.succ_mul, Nat.add_comm, List.take_add, List.mem_append] at hj
        rcases hj with hj | hj
        · exact .inl (hv j (.inr ⟨hj, hlt⟩))
        · refine .inr ⟨?_, hlt⟩
          rw [hq, List.take_append]
          exact List.mem_append_left _ hj

theorem visitBatch_preserves {I : Progress → State → Prop}
    (hvisit : ∀ index node p s p' s', nodes[index]? = some node → I p s →
      visitNode cfg index node p s = .ok p' s' → I p' s')
    {l : List Nat} {s' : State} (hi : I p s) (h : visitBatch cfg nodes l p s = .ok p' s') :
    I p' s' := by
  induction l generalizing p s with
  | nil =>
    cases h
    exact hi
  | cons index rest ih =>
    rw [visitBatch_cons] at h
    cases hn : nodes[index]? with
    | none =>
      rw [hn] at h
      exact ih hi h
    | some node =>
      rw [hn] at h
      obtain ⟨p₁, s₁, h₁, h⟩ := Analysis.bind_eq_ok.1 h
      exact ih (hvisit index node p s p₁ s₁ hn hi h₁) h

/-- What every visit keeps, whatever stands in the queue, the worklist keeps. -/
theorem workOff_preserves {I : Progress → State → Prop}
    (hvisit : ∀ index node p s p' s', nodes[index]? = some node → I p s →
      visitNode cfg index node p s = .ok p' s' → I p' s')
    (hqueue : ∀ p s queue, I p s → I { p with queue } s)
    {batches : Nat} {s' : State} (hi : I p s) (h : workOff cfg nodes batches p s = .ok p' s') :
    I p' s' := by
  induction batches generalizing p s with
  | zero =>
    cases h
    exact hi
  | succ batches ih =>
    rw [workOff] at h
    split at h
    · cases h
      exact hi
    · obtain ⟨p₁, s₁, h₁, h⟩ := Analysis.bind_eq_ok.1 h
      exact ih (visitBatch_preserves hvisit (hqueue p s _ hi) h₁) h

namespace Function

variable {f : Function}

theorem workOff_start_visits {s' : State}
    (hsize : f.nodes.length ≤ cfg.maxBatches.toNat * cfg.batchSize.toNat)
    (h : workOff cfg f.nodes cfg.maxBatches.toNat (.start f) s = .ok p s') (j : Nat)
    (hj : j < f.nodes.length) : p.IsVisited j := by
  apply workOff_visits h j
  refine .inr ⟨?_, hj⟩
  have hq : (Progress.start f).queue = List.range f.nodes.length := rfl
  rw [hq, List.take_of_length_le (by simpa using hsize)]
  exact List.mem_range.2 hj

end Function

end RangeAudit
