import RangeAudit.Proofs.Start

namespace RangeAudit

variable {f : Function} {s s' t t' : State} {i : Instr} {l m body : List Instr} {p : Place}
  {before : List Place} {order : SetOrder}

namespace Instr

/-- The place at which an instruction stores in a state. -/
def stored (i : Instr) (s : State) : List Place :=
  ((i.effect s).store?.map Prod.fst).toList

theorem mem_stored : p ∈ i.stored s ↔ ∃ x, (i.effect s).store? = some (p, x) := by
  simp [stored]

theorem get?_apply_of_not_stored (h : p ∉ i.stored s) :
    (s.apply (i.effect s)).ranges.get? p = s.ranges.get? p :=
  s.get?_apply_of_not_store fun x he => h (mem_stored.2 ⟨x, he⟩)

theorem isSome_apply_of_stored (h : p ∈ i.stored s) :
    ((s.apply (i.effect s)).ranges.get? p).isSome := by
  obtain ⟨x, hx⟩ := mem_stored.1 h
  rw [State.get?_apply s hx, if_pos rfl]
  rfl

end Instr

def storedBy : State → List Instr → List Place
  | _, [] => []
  | s, i :: l => i.stored s ++ storedBy (s.apply (i.effect s)) l

theorem get?_run_of_not_stored (h : l.forM Instr.process s = .ok () t) (hp : p ∉ storedBy s l) :
    t.ranges.get? p = s.ranges.get? p := by
  induction l generalizing s with
  | nil =>
    cases h
    rfl
  | cons i l ih =>
    obtain ⟨-, h⟩ := Instr.run_cons_ok.1 h
    rw [storedBy, List.mem_append, not_or] at hp
    rw [ih h hp.2, Instr.get?_apply_of_not_stored hp.1]

theorem isSome_run (h : l.forM Instr.process s = .ok () t)
    (hp : (s.ranges.get? p).isSome ∨ p ∈ storedBy s l) : (t.ranges.get? p).isSome := by
  induction l generalizing s with
  | nil =>
    cases h
    simpa [storedBy] using hp
  | cons i l ih =>
    obtain ⟨-, h⟩ := Instr.run_cons_ok.1 h
    apply ih h
    rw [storedBy, List.mem_append] at hp
    rcases hp with hp | hp | hp
    · exact .inl (s.isSome_apply _ hp)
    · exact .inl (Instr.isSome_apply_of_stored hp)
    · exact .inr hp

theorem mem_storedBy (h : p ∈ storedBy s l) : ∃ i ∈ l, i.result? = some p := by
  induction l generalizing s with
  | nil => cases h
  | cons i l ih =>
    rcases List.mem_append.1 h with h | h
    · obtain ⟨x, hx⟩ := Instr.mem_stored.1 h
      exact ⟨i, List.mem_cons_self, Instr.effect_result hx⟩
    · obtain ⟨j, hj, hp⟩ := ih h
      exact ⟨j, List.mem_cons_of_mem i hj, hp⟩

/-- What a run reads and stores from there on was stored before. -/
def IsSettled : List Place → State → List Instr → Prop
  | _, _, [] => True
  | before, s, i :: l =>
    (∀ p ∈ i.reads, p ∈ storedBy s (i :: l) → p ∈ before) ∧
      IsSettled (before ++ i.stored s) (s.apply (i.effect s)) l

instance decidableIsSettled :
    (before : List Place) → (s : State) → (l : List Instr) → Decidable (IsSettled before s l)
  | _, _, [] => inferInstanceAs (Decidable True)
  | before, s, i :: l =>
    have := decidableIsSettled (before ++ i.stored s) (s.apply (i.effect s)) l
    inferInstanceAs (Decidable (_ ∧ _))

/-- A settled run, started from other intervals of the places that it stores, leaves the same. -/
theorem IsSettled.rerun (hset : IsSettled before s l) (hs : l.forM Instr.process s = .ok () s')
    (ht : l.forM Instr.process t = .ok () t')
    (hagree : ∀ p, p ∈ before ∨ p ∉ storedBy s l → t.ranges.get? p = s.ranges.get? p) (p : Place) :
    t'.ranges.get? p = s'.ranges.get? p := by
  induction l generalizing before s t with
  | nil =>
    cases hs
    cases ht
    exact hagree p (.inr (by simp [storedBy]))
  | cons i l ih =>
    obtain ⟨hreads, hset⟩ := hset
    obtain ⟨-, hs⟩ := Instr.run_cons_ok.1 hs
    obtain ⟨-, ht⟩ := Instr.run_cons_ok.1 ht
    have hstore : (i.effect t).store? = (i.effect s).store? := by
      apply Instr.effect_store_congr
      intro q hq
      apply hagree
      by_cases hb : q ∈ before
      · exact .inl hb
      · exact .inr fun hst => hb (hreads q hq hst)
    refine ih hset hs ht fun q hq => ?_
    by_cases hi : q ∈ i.stored s
    · obtain ⟨x, hx⟩ := Instr.mem_stored.1 hi
      rw [State.get?_apply s hx, State.get?_apply t (hstore.trans hx)]
      simp
    · have hi' : q ∉ i.stored t := by
        rwa [Instr.stored, hstore]
      rw [Instr.get?_apply_of_not_stored hi, Instr.get?_apply_of_not_stored hi']
      apply hagree
      rcases hq with hq | hq
      · exact .inl ((List.mem_append.1 hq).resolve_right hi)
      · exact .inr fun hst => (List.mem_append.1 hst).elim hi hq

/-- A state that further runs may lead to from the one before the first. -/
structure Reached (s : State) (body : List Instr) (t : State) : Prop where
  kept : ∀ p, p ∉ storedBy s body → t.ranges.get? p = s.ranges.get? p
  tracked : ∀ p ∈ storedBy s body, (t.ranges.get? p).isSome

theorem IsSettled.stored_subset (hset : IsSettled before s l)
    (hs : l.forM Instr.process s = .ok () s')
    (hkept : ∀ p, p ∉ before → p ∉ storedBy s l → t.ranges.get? p = s.ranges.get? p)
    (hbefore : ∀ p ∈ before, (s.ranges.get? p).isSome ∧ (t.ranges.get? p).isSome)
    (htracked : ∀ p ∈ storedBy s l, (t.ranges.get? p).isSome)
    (hi : i ∈ l) (hn : (i.effect t).failure? = none) : ∀ p ∈ i.stored t, p ∈ storedBy s l := by
  induction l generalizing before s with
  | nil => cases hi
  | cons j l ih =>
    obtain ⟨hreads, hset⟩ := hset
    obtain ⟨hj, hs⟩ := Instr.run_cons_ok.1 hs
    rcases List.mem_cons.1 hi with rfl | hi
    · have hsome : (i.effect t).store?.isSome = (i.effect s).store?.isSome := by
        refine Instr.effect_store_isSome_congr (fun q hq => ?_) hn hj
        by_cases hb : q ∈ before
        · rw [(hbefore q hb).1, (hbefore q hb).2]
        · rw [hkept q hb fun hst => hb (hreads q hq hst)]
      intro p hp
      obtain ⟨x, hx⟩ := Instr.mem_stored.1 hp
      rw [hx] at hsome
      obtain ⟨⟨q, y⟩, hy⟩ := Option.isSome_iff_exists.1 hsome.symm
      have hpq : some p = some q := (Instr.effect_result hx).symm.trans (Instr.effect_result hy)
      cases hpq
      exact List.mem_append_left _ (Instr.mem_stored.2 ⟨y, hy⟩)
    · intro p hp
      refine List.mem_append_right _ (ih hset hs ?_ ?_ ?_ hi p hp)
      · intro q hb hst
        rw [List.mem_append, not_or] at hb
        rw [Instr.get?_apply_of_not_stored hb.2]
        exact hkept q hb.1 fun h => (List.mem_append.1 h).elim hb.2 hst
      · intro q hb
        rcases List.mem_append.1 hb with hb | hb
        · exact ⟨s.isSome_apply _ (hbefore q hb).1, (hbefore q hb).2⟩
        · exact ⟨Instr.isSome_apply_of_stored hb, htracked q (List.mem_append_left _ hb)⟩
      · exact fun q hq => htracked q (List.mem_append_right _ hq)

theorem Reached.step (hset : IsSettled [] s body) (hs : body.forM Instr.process s = .ok () s')
    (ht : Reached s body t) (hi : i ∈ body) (hn : (i.effect t).failure? = none) :
    Reached s body (t.apply (i.effect t)) := by
  have hsub : ∀ p ∈ i.stored t, p ∈ storedBy s body :=
    hset.stored_subset hs (fun p _ => ht.kept p) (fun p hp => by cases hp) ht.tracked hi hn
  constructor
  · intro p hp
    rw [Instr.get?_apply_of_not_stored fun h => hp (hsub p h)]
    exact ht.kept p hp
  · intro p hp
    exact t.isSome_apply _ (ht.tracked p hp)

theorem Reached.run (hset : IsSettled [] s body) (hs : body.forM Instr.process s = .ok () s')
    (ht : Reached s body t) (hl : ∀ i ∈ l, i ∈ body) (h : l.forM Instr.process t = .ok () t') :
    Reached s body t' := by
  induction l generalizing t with
  | nil =>
    cases h
    exact ht
  | cons i l ih =>
    obtain ⟨hn, h⟩ := Instr.run_cons_ok.1 h
    exact ih (ht.step hset hs (hl i List.mem_cons_self) hn)
      (fun j hj => hl j (List.mem_cons_of_mem _ hj)) h

/-- A settled run ends as it ended the first time, whatever ran in between. -/
theorem IsSettled.rerun_after (hset : IsSettled [] s body)
    (hs : body.forM Instr.process s = .ok () s') (hl : ∀ i ∈ l, i ∈ body)
    (h : (l ++ body).forM Instr.process s' = .ok () t') (p : Place) :
    t'.ranges.get? p = s'.ranges.get? p := by
  obtain ⟨t, ht, h⟩ := Analysis.forM_append_ok.1 h
  have hreached : Reached s body s' :=
    ⟨fun p hp => get?_run_of_not_stored hs hp, fun p hp => isSome_run hs (.inr hp)⟩
  have hreached : Reached s body t := hreached.run hset hs hl ht
  refine hset.rerun hs h (fun q hq => ?_) p
  exact hreached.kept q (hq.resolve_left (by simp))

namespace Function

theorem iterate_eq_rounds (hf : f.IsUnstable) (hs : s.ranges.IsUnstable)
    (hsize : f.nodes.length ≤ 100) (hbranch : ∀ n ∈ f.nodes, n.isBranch = false) :
    ∃ later, (∀ i ∈ later, i ∈ f.instrs) ∧
      f.iterate { order := order } s = (f.instrs ++ (later ++ f.instrs)).forM Instr.process s := by
  let cfg : Config := { order := order }
  have hbatches : f.nodes.length ≤ cfg.maxBatches.toNat * cfg.batchSize.toNat := hsize
  obtain ⟨later, hl, hiter⟩ := iterate_eq_process hf hs hbatches hbranch
  refine ⟨later ++ f.instrs, fun i hi => (List.mem_append.1 hi).elim (hl i) id, ?_⟩
  have hsweeps : (List.replicate cfg.narrowingSweeps.toNat f.instrs).flatten =
      f.instrs ++ f.instrs := by
    change f.instrs ++ (f.instrs ++ []) = _
    rw [List.append_nil]
  rw [hiter, hsweeps]
  simp only [List.append_assoc]

/-- Without branches the analysis ends with a run of all instructions in order. -/
theorem analyze_eq_single_run (hf : f.IsUnstable) (hsize : f.nodes.length ≤ 100)
    (hbranch : ∀ n ∈ f.nodes, n.isBranch = false) (h : f.analyze { order := order } s = .ok () s') :
    ∃ start once left, f.start order s = .ok () start ∧
      f.instrs.forM Instr.process start = .ok () once ∧
      f.instrs.forM Instr.process left = .ok () s' ∧
      (∀ p, (∀ i ∈ f.instrs, i.result? ≠ some p) →
        left.ranges.get? p = start.ranges.get? p) ∧
      (IsSettled [] start f.instrs → ∀ p, s'.ranges.get? p = once.ranges.get? p) := by
  obtain ⟨start, hstart, h⟩ := analyze_ok.1 h
  obtain ⟨later, hl, hiter⟩ := iterate_eq_rounds hf (start_isUnstable hf hstart) hsize hbranch
  rw [hiter] at h
  obtain ⟨once, honce, hagain⟩ := Analysis.forM_append_ok.1 h
  obtain ⟨left, hleft, hlast⟩ := Analysis.forM_append_ok.1 hagain
  refine ⟨start, once, left, hstart, honce, hlast, fun p hp => ?_, fun hset p => ?_⟩
  · rw [Instr.get?_run hleft fun i hi => hp i (hl i hi), Instr.get?_run honce hp]
  · exact hset.rerun_after honce hl hagain p

end Function

def squareSuccessor : Function :=
  .ofNodes [] [
    .ofInstrs [.assign (.named "x") (.literal (.int 1))] [1],
    .ofInstrs [.binary .add (.named "x") (.place (.named "x")) (.literal (.int 1))] [2],
    .ofInstrs [.binary .mul (.named "y") (.place (.named "x")) (.place (.named "x"))] []]

theorem squareSuccessor_single_run :
    ∃ once s', squareSuccessor.instrs.forM Instr.process .initial = .ok () once ∧
      squareSuccessor.analyze {} .initial = .ok () s' ∧
      ∀ p, s'.ranges.get? p = once.ranges.get? p := by
  have hf : squareSuccessor.IsUnstable := by decide
  have h : squareSuccessor.analyze {} .initial = .ok ()
      ⟨⟨[(.named "x", .between 2 2), (.named "y", .between 4 4)]⟩, [], [], []⟩ := by
    decide +kernel
  obtain ⟨start, once, left, hstart, honce, -, -, hsame⟩ :=
    Function.analyze_eq_single_run hf (by decide) (by decide) h
  have hinitial : squareSuccessor.start .ofInsertion .initial = .ok () .initial := rfl
  cases hinitial.symm.trans hstart
  exact ⟨once, _, honce, h, hsame (by decide)⟩

/-- A function that adds one to its parameter. -/
def increment : Function :=
  .ofNodes [.ofType "p" "uint8"]
    [.ofInstrs [.binary .add (.var (.ofType "p" "uint8")) (.place (.var (.ofType "p" "uint8")))
      (.literal (.int 1))] []]

/-- The parameter is incremented three times, where a single run does it once. -/
theorem increment_runs_again :
    increment.nodes.length ≤ 100 ∧ (∀ n ∈ increment.nodes, n.isBranch = false ∧ n.sons = []) ∧
      ∃ start once s', increment.start .ofInsertion .initial = .ok () start ∧
        increment.instrs.forM Instr.process start = .ok () once ∧
        increment.analyze {} .initial = .ok () s' ∧
        once.ranges.get? (.var (.ofType "p" "uint8")) = some (.between 1 256) ∧
        s'.ranges.get? (.var (.ofType "p" "uint8")) = some (.between 3 258) := by
  let tracked (x : Interval) : State := ⟨⟨[(.var (.ofType "p" "uint8"), x)]⟩, [], [], []⟩
  have hstart : increment.start .ofInsertion .initial = .ok () (tracked (.between 0 255)) := by
    decide +kernel
  have honce : increment.instrs.forM Instr.process (tracked (.between 0 255)) =
      .ok () (tracked (.between 1 256)) := by
    decide +kernel
  have hend : increment.analyze {} .initial = .ok () (tracked (.between 3 258)) := by
    decide +kernel
  exact ⟨by decide, by decide, _, _, _, hstart, honce, hend, rfl, rfl⟩

end RangeAudit
