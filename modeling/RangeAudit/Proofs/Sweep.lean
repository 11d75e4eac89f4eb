import RangeAudit.Proofs.Independence
import RangeAudit.Proofs.Settled

namespace RangeAudit

variable {f : Function} {s t swept : State} {i : Instr} {l before after : List Instr} {p : Place}
  {order : SetOrder}

/-- Nothing from the instruction on writes what it reads, and nothing behind it its result. -/
structure Instr.IsFinal (i : Instr) (after : List Instr) : Prop where
  reads : ∀ p ∈ i.reads, ∀ j ∈ i :: after, j.result? ≠ some p
  result : ∀ p, i.result? = some p → ∀ j ∈ after, j.result? ≠ some p

theorem State.mem_checked_apply (s : State) (e : Effect) :
    ∀ p ∈ s.checked, p ∈ (s.apply e).checked := by
  intro p hp
  unfold State.apply
  dsimp only
  split
  · exact mem_insertPlace.2 (.inl hp)
  · exact hp

theorem Instr.mem_checked_run (h : l.forM Instr.process s = .ok () t) :
    ∀ p ∈ s.checked, p ∈ t.checked := by
  induction l generalizing s with
  | nil =>
    cases h
    exact fun p hp => hp
  | cons i l ih =>
    obtain ⟨-, h⟩ := Instr.run_cons_ok.1 h
    exact fun p hp => ih h p (s.mem_checked_apply _ p hp)

structure State.Repeats (swept t : State) : Prop where
  ranges : ∀ p, t.ranges.get? p = swept.ranges.get? p
  checked : ∀ p ∈ swept.checked, p ∈ t.checked

theorem State.Repeats.step (ht : swept.Repeats t) (hi : i.IsFinal after)
    (h : (i :: after).forM Instr.process s = .ok () swept) :
    (i.effect t).failure? = none ∧ swept.Repeats (t.apply (i.effect t)) := by
  obtain ⟨hn, hafter⟩ := Instr.run_cons_ok.1 h
  have hreads : ∀ p ∈ i.reads, s.ranges.get? p = t.ranges.get? p := by
    intro p hp
    rw [ht.ranges p, Instr.get?_run h (hi.reads p hp)]
  have hchecked : ∀ p ∈ s.checked, p ∈ t.checked :=
    fun p hp => ht.checked p (Instr.mem_checked_run h p hp)
  have hstore : (i.effect t).store? = (i.effect s).store? :=
    (Instr.effect_store_congr hreads).symm
  refine ⟨(Instr.effect_mono hreads hchecked hn).1, fun p => ?_,
    fun p hp => t.mem_checked_apply _ p (ht.checked p hp)⟩
  cases he : (i.effect s).store? with
  | none => rw [State.ranges_apply_of_none t (hstore.trans he), ht.ranges p]
  | some c =>
    obtain ⟨q, x⟩ := c
    rw [State.get?_apply t (hstore.trans he)]
    split
    · rename_i hp
      rw [hp, Instr.get?_run hafter (hi.result q (Instr.effect_result he)), State.get?_apply s he,
        if_pos rfl]
    · exact ht.ranges p

namespace Function

/-- No place is written twice, and what is read is never written or was written before. -/
structure IsOrdered (f : Function) : Prop where
  once : (f.instrs.filterMap Instr.result?).Nodup
  earlier : ∀ k (hk : k < f.instrs.length), ∀ p ∈ f.instrs[k].reads,
    (∀ i ∈ f.instrs, i.result? ≠ some p) ∨ ∃ i ∈ f.instrs.take k, i.result? = some p

theorem IsOrdered.isFinal (hf : f.IsOrdered) (hbody : f.instrs = before ++ i :: after) :
    i.IsFinal after := by
  have honce := hf.once
  rw [hbody, List.filterMap_append, List.nodup_append] at honce
  obtain ⟨-, hrest, hdisjoint⟩ := honce
  constructor
  · intro p hp j hj hjp
    have hlength : before.length < f.instrs.length := by
      rw [hbody, List.length_append, List.length_cons]
      omega
    have hi : f.instrs[before.length] = i := by
      rw [List.getElem_of_eq hbody hlength]
      simp
    have htake : f.instrs.take before.length = before := by
      rw [hbody, List.take_left]
    rcases hf.earlier before.length hlength p (hi ▸ hp) with hnever | ⟨k, hk, hkp⟩
    · exact hnever j (hbody ▸ List.mem_append_right _ hj) hjp
    · rw [htake] at hk
      have hearlier : p ∈ before.filterMap Instr.result? := List.mem_filterMap.2 ⟨k, hk, hkp⟩
      have hlater : p ∈ (i :: after).filterMap Instr.result? := List.mem_filterMap.2 ⟨j, hj, hjp⟩
      exact hdisjoint p hearlier p hlater rfl
  · intro p hp j hj hjp
    rw [List.filterMap_cons, hp] at hrest
    exact (List.nodup_cons.1 hrest).1 (List.mem_filterMap.2 ⟨j, hj, hjp⟩)

/-- After a sweep no instruction changes an interval, in whatever order. -/
theorem IsOrdered.run_again (hf : f.IsOrdered) (h : f.instrs.forM Instr.process s = .ok () swept)
    (hl : ∀ i ∈ l, i ∈ f.instrs) (ht : swept.Repeats t) :
    ∃ t', l.forM Instr.process t = .ok () t' ∧ swept.Repeats t' := by
  induction l generalizing t with
  | nil => exact ⟨t, rfl, ht⟩
  | cons i l ih =>
    obtain ⟨before, after, hbody⟩ := List.append_of_mem (hl i List.mem_cons_self)
    have hrun := h
    rw [hbody] at hrun
    obtain ⟨u, -, hrun⟩ := Analysis.forM_append_ok.1 hrun
    obtain ⟨hn, ht⟩ := ht.step (hf.isFinal hbody) hrun
    obtain ⟨t', hrest, ht'⟩ := ih (fun j hj => hl j (List.mem_cons_of_mem i hj)) ht
    exact ⟨t', Instr.run_cons_ok.2 ⟨hn, hrest⟩, ht'⟩

theorem IsOrdered.analyze_of_sweep (hord : f.IsOrdered) (hf : f.IsUnstable)
    (hsize : f.nodes.length ≤ 100) (hbranch : ∀ n ∈ f.nodes, n.isBranch = false) {start : State}
    (hstart : f.start order s = .ok () start)
    (hsweep : f.instrs.forM Instr.process start = .ok () swept) :
    ∃ t, f.analyze { order := order } s = .ok () t ∧
      ∀ p, t.ranges.get? p = swept.ranges.get? p := by
  obtain ⟨later, hlater, hiter⟩ := iterate_eq_rounds hf (start_isUnstable hf hstart) hsize hbranch
  have hagain : ∀ i ∈ later ++ f.instrs, i ∈ f.instrs :=
    fun i hi => (List.mem_append.1 hi).elim (hlater i) id
  obtain ⟨t, ht, hrepeats⟩ := hord.run_again hsweep hagain ⟨fun _ => rfl, fun _ hp => hp⟩
  refine ⟨t, analyze_ok.2 ⟨start, hstart, ?_⟩, hrepeats.ranges⟩
  rw [hiter]
  exact Analysis.forM_append_ok.2 ⟨swept, hsweep, ht⟩

def withSons (f : Function) (sons : Nat → List Nat) : Function :=
  { f with nodes := f.nodes.mapIdx fun k n => { n with sons := sons k } }

theorem withSons_instrs (f : Function) (sons : Nat → List Nat) :
    (f.withSons sons).instrs = f.instrs := by
  have hmap : (f.withSons sons).nodes.map (·.instrs) = f.nodes.map (·.instrs) := by
    apply List.ext_getElem
    · simp [withSons]
    · simp [withSons]
  rw [instrs, instrs, List.flatMap_def, List.flatMap_def, hmap]

theorem withSons_start (f : Function) (sons : Nat → List Nat) :
    (f.withSons sons).start order = f.start order := by
  have hvariables : (f.withSons sons).addVariables order = f.addVariables order := by
    funext r
    simp only [addVariables, localResults, resultsOfKind, withSons_instrs]
  unfold start
  rw [hvariables]
  rfl

theorem IsUnstable.withSons (hf : f.IsUnstable) (sons : Nat → List Nat) :
    (f.withSons sons).IsUnstable := by
  constructor
  · exact hf.params
  · rw [withSons_instrs]
    exact hf.results
  · rw [withSons_instrs]
    exact hf.sources

theorem IsOrdered.withSons (hf : f.IsOrdered) (sons : Nat → List Nat) :
    (f.withSons sons).IsOrdered := by
  constructor
  · rw [withSons_instrs]
    exact hf.once
  · simp only [withSons_instrs]
    exact hf.earlier

/-- An ordered function ends with the intervals of one sweep, whatever its edges. -/
theorem analyze_eq_sweep (hf : f.IsUnstable) (hord : f.IsOrdered) (hsize : f.nodes.length ≤ 100)
    (hbranch : ∀ n ∈ f.nodes, n.isBranch = false) (h : f.analyze { order := order } s = .ok () t) :
    ∃ start swept, f.start order s = .ok () start ∧
      f.instrs.forM Instr.process start = .ok () swept ∧
      (∀ p, t.ranges.get? p = swept.ranges.get? p) ∧
      ∀ sons, ∃ t', (f.withSons sons).analyze { order := order } s = .ok () t' ∧
        ∀ p, t'.ranges.get? p = t.ranges.get? p := by
  obtain ⟨start, hstart, hiter⟩ := analyze_ok.1 h
  obtain ⟨later, -, hrounds⟩ := iterate_eq_rounds hf (start_isUnstable hf hstart) hsize hbranch
  rw [hrounds] at hiter
  obtain ⟨swept, hsweep, -⟩ := Analysis.forM_append_ok.1 hiter
  have hend : ∀ p, t.ranges.get? p = swept.ranges.get? p := by
    obtain ⟨u, hu, hranges⟩ := hord.analyze_of_sweep hf hsize hbranch hstart hsweep
    cases h.symm.trans hu
    exact hranges
  refine ⟨start, swept, hstart, hsweep, hend, fun sons => ?_⟩
  have hsize' : (f.withSons sons).nodes.length ≤ 100 := by
    simpa [withSons] using hsize
  have hbranch' : ∀ n ∈ (f.withSons sons).nodes, n.isBranch = false := by
    intro n hn
    obtain ⟨k, hk, rfl⟩ := List.mem_mapIdx.1 hn
    exact hbranch f.nodes[k] (List.getElem_mem hk)
  rw [← withSons_start f sons] at hstart
  rw [← withSons_instrs f sons] at hsweep
  obtain ⟨t', ht', hranges⟩ := (hord.withSons sons).analyze_of_sweep (hf.withSons sons) hsize'
    hbranch' hstart hsweep
  exact ⟨t', ht', fun p => (hranges p).trans (hend p).symm⟩

end Function

/-- A loop that adds to a parameter, takes the least of the sum and a constant, and converts it. -/
def cappedLoop : Function :=
  .ofNodes [.ofType "p" "uint8"] [
    .ofInstrs [.binary .add (.named "x") (.place (.var (.ofType "p" "uint8"))) (.literal (.int 1))]
      [1],
    .ofInstrs [.builtin (some (.named "y")) (.known ⟨.given "min", none, none, .missing⟩)
      (.given [.place (.named "x"), .literal (.int 7)]) ""] [0, 2],
    .ofInstrs [.convert (.var (.ofType "z" "uint8")) (.place (.named "y"))] [1, 0]]

theorem cappedLoop_eq_sweep :
    ∃ start swept t, cappedLoop.start .ofInsertion .initial = .ok () start ∧
      cappedLoop.instrs.forM Instr.process start = .ok () swept ∧
      cappedLoop.analyze {} .initial = .ok () t ∧
      (∀ p, t.ranges.get? p = swept.ranges.get? p) ∧
      ∀ sons, ∃ t', (cappedLoop.withSons sons).analyze {} .initial = .ok () t' ∧
        t'.ranges.get? (.named "y") = some (.between 1 7) := by
  have hf : cappedLoop.IsUnstable := by decide
  have hord : cappedLoop.IsOrdered := ⟨by decide, by decide⟩
  have h : cappedLoop.analyze {} .initial = .ok () ⟨⟨[
      (.var (.ofType "p" "uint8"), .between 0 255), (.var (.ofType "z" "uint8"), .between 1 7),
      (.named "x", .between 1 256), (.named "y", .between 1 7)]⟩, [], [], []⟩ := by
    decide +kernel
  obtain ⟨start, swept, hstart, hsweep, hend, hsons⟩ :=
    Function.analyze_eq_sweep hf hord (by decide) (by decide) h
  refine ⟨start, swept, _, hstart, hsweep, h, hend, fun sons => ?_⟩
  obtain ⟨t', ht', hranges⟩ := hsons sons
  exact ⟨t', ht', hranges (.named "y")⟩

end RangeAudit
