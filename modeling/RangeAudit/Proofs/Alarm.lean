import RangeAudit.Proofs.Soundness

open RangeAudit.Interval (greatestWord between)

namespace RangeAudit

variable {size x y : Int} {ρ ρ' : Valuation} {f : Function} {s s' t : State} {p : Place} {i : Instr}
  {l r : Interval} {op : Operator} {left right : Operand} {before body after : List Instr}
  {issue : Issue} {order : SetOrder}

theorem Issue.mem_of_raised {issues : List Issue} (h : Issue.raised (some issue) = .ok issues) :
    issue ∈ issues := by
  rw [(Issue.raised_ok h).1]
  exact List.mem_singleton_self issue

theorem Instr.mem_issues_run (h : body.forM Instr.process s = .ok () t) (hi : issue ∈ s.issues) :
    issue ∈ t.issues := by
  induction body generalizing s with
  | nil =>
    cases h
    exact hi
  | cons i body ih =>
    obtain ⟨-, h⟩ := Instr.run_cons_ok.1 h
    exact ih h (List.mem_append_left _ hi)

namespace Effect

theorem operandAlarms_ok {isChecked : Bool} {issue? : Option Issue} {issues : List Issue}
    (hw : (if isChecked then .ok none else op.wordAlarm l r p) = .ok issue?)
    (h : operandAlarms isChecked op p left l r = .ok issues) :
    ∃ word zero, Issue.raised issue? = .ok word ∧
      Issue.raised (op.zeroAlarm? left r p) = .ok zero ∧ issues = word ++ zero := by
  rw [operandAlarms_eq hw] at h
  cases hword : Issue.raised issue? with
  | error e => simp [bind, Except.bind, hword] at h
  | ok word =>
    cases hzero : Issue.raised (op.zeroAlarm? left r p) with
    | error e => simp [bind, Except.bind, hword, hzero] at h
    | ok zero =>
      simp only [bind, Except.bind, pure, Except.pure, hword, hzero, Except.ok.injEq] at h
      exact ⟨word, zero, rfl, rfl, h.symm⟩

theorem binaryOn_raises {checked : List Place} {word? : Option Issue}
    (hn : (binaryOn checked op p left l r).failure? = none) (hc : checked.contains p = false)
    (hw : op.wordAlarm l r p = .ok word?)
    (h : op.divisorAlarm? l r = some issue ∨ word? = some issue ∨
      op.zeroAlarm? left r p = some issue) :
    issue ∈ (binaryOn checked op p left l r).issues := by
  rw [binaryOn, ofOperation, hc] at hn ⊢
  cases hd : Issue.raised (op.divisorAlarm? l r) with
  | error e =>
    rw [hd] at hn
    cases hn
  | ok issues =>
    cases hz : op.apply l r with
    | error e =>
      rw [hd, hz] at hn
      cases hn
    | ok z =>
      cases ho : operandAlarms false op p left l r with
      | error e =>
        rw [hd, hz, ho] at hn
        cases hn
      | ok more =>
        have hmem : issue ∈ issues ++ more := by
          obtain ⟨word, zero, hword, hzero, rfl⟩ :=
            operandAlarms_ok ((if_neg Bool.false_ne_true).trans hw) ho
          rcases h with h | rfl | h
          · rw [h] at hd
            exact List.mem_append_left _ (Issue.mem_of_raised hd)
          · exact List.mem_append_right _ (List.mem_append_left _ (Issue.mem_of_raised hword))
          · rw [h] at hzero
            exact List.mem_append_right _ (List.mem_append_right _ (Issue.mem_of_raised hzero))
        exact hmem

end Effect

theorem Instr.checked_run (harith : ∀ i ∈ body, i.isArithmetic)
    (h : body.forM Instr.process s = .ok () t) : t.checked = s.checked := by
  induction body generalizing s with
  | nil =>
    cases h
    rfl
  | cons i body ih =>
    obtain ⟨-, h⟩ := Instr.run_cons_ok.1 h
    rw [ih (fun j hj => harith j (List.mem_cons_of_mem i hj)) h]
    have hi := harith i List.mem_cons_self
    have hnone : (i.effect s).checked? = none := by
      cases i with
      | assign p source => exact Effect.assign_checked s p source
      | binary op p left right =>
        simp only [Instr.effect, Effect.binary]
        split
        · rfl
        · split
          · rfl
          · exact Effect.binaryOn_checked _ _ _ _ _ _
      | convert | member | builtin | call | condition | other | incomplete => cases hi
    simp only [State.apply, hnone]

namespace Operator

theorem wordAlarm_add (hl : l.Encloses size x) (hr : r.Encloses size y)
    (h : (Nat.pow 2 256 : Nat) ≤ x + y) :
    wordAlarm .add l r p = .ok (some (.additionOverflow p l r)) := by
  obtain ⟨a, b, rfl, -, hb, -⟩ := hl
  obtain ⟨c, d, rfl, -, hd, -⟩ := hr
  have hexceeds : exceedsWord (.int (b + d)) = true := by
    simp only [exceedsWord, Number.le_int, decide_eq_true_eq]
    omega
  change Except.ok (if exceedsWord (.int (b + d)) then _ else none) = _
  rw [if_pos hexceeds]

theorem wordAlarm_mul (hl : l.Encloses size x) (hr : r.Encloses size y) (hx : 0 ≤ x) (hy : 0 ≤ y)
    (h : (Nat.pow 2 256 : Nat) ≤ x * y) :
    wordAlarm .mul l r p = .ok (some (.multiplicationOverflow p l r)) := by
  obtain ⟨a, b, rfl, -, hb, -⟩ := hl
  obtain ⟨c, d, rfl, -, hd, -⟩ := hr
  have hexceeds : exceedsWord (.int (b * d)) = true := by
    have : x * y ≤ b * d := Int.mul_le_mul hb hd hy (by omega)
    simp only [exceedsWord, Number.le_int, decide_eq_true_eq]
    omega
  change Except.ok (if exceedsWord (.int (b * d)) then _ else none) = _
  rw [if_pos hexceeds]

theorem wordAlarm_sub (hl : l.Encloses size x) (hr : r.Encloses size y) (hp : p.isUnsigned)
    (h : x < y) : wordAlarm .sub l r p = .ok (some (.subtractionUnderflow p l r)) := by
  obtain ⟨a, b, rfl, ha, -⟩ := hl
  obtain ⟨c, d, rfl, -, hd, -⟩ := hr
  have hbelow : Number.lt (.int a) (.int d) = true := by
    simp only [Number.lt_int, decide_eq_true_eq]
    omega
  change Except.ok (if Number.lt (.int a) (.int d) && p.isUnsigned then _ else none) = _
  rw [if_pos (by simp [hbelow, hp])]

theorem divisorAlarm?_zero (hop : op = .div ∨ op = .mod) (hl : l.Encloses size x)
    (hr : r.Encloses size 0) :
    op.divisorAlarm? l r = some (if r = .point 0 then .divisorIsZero (op == .mod)
      else .divisorMayBeZero (op == .mod) r) := by
  obtain ⟨a, b, rfl, -⟩ := hl
  obtain ⟨c, d, rfl, hc, hd, -⟩ := hr
  have hmeets : op.meetsZero (between (.int a) (.int b)) (between (.int c) (.int d)) = true := by
    have hdiv : op.isDivision = true := by
      rcases hop with rfl | rfl <;> rfl
    simp [meetsZero, hdiv, between, Interval.isBottom, Interval.isTop, Interval.boundIs,
      Corners.ofIntervals, Corners.divisorMeetsZero, hc, hd]
  have hcertain : (Corners.ofIntervals (between (.int a) (.int b))
      (between (.int c) (.int d))).divisorIsZero = true ↔
      between (.int c) (.int d) = .point 0 := by
    simp [Corners.ofIntervals, Corners.divisorIsZero, between, Interval.point]
  rw [divisorAlarm?, if_pos hmeets]
  simp only [hcertain]

theorem zeroAlarm?_zero (hop : op = .div ∨ op = .mod) (hr : r.Encloses size 0) :
    op.zeroAlarm? left r p = some (.divisionByZero p left r) := by
  obtain ⟨c, d, rfl, hc, hd, -⟩ := hr
  have hzero : (Number.le (.int c) 0 && Number.le 0 (.int d)) = true := by
    simp [hc, hd]
  rcases hop with rfl | rfl
  · change (if Number.le (.int c) 0 && Number.le 0 (.int d) then _ else none) = _
    rw [if_pos hzero]
  · change (if Number.le (.int c) 0 && Number.le 0 (.int d) then _ else none) = _
    rw [if_pos hzero]

end Operator

theorem Operand.IsKnown.interval_congr {o : Operand} {r r' : Ranges} (ho : o.IsKnown f before)
    (h : ∀ p : Place, p.IsKnown f before → r.get? p = r'.get? p) :
    o.interval r = o.interval r' := by
  refine Operand.interval_congr fun p hp => h p ?_
  cases o with
  | place q =>
    cases List.mem_singleton.1 hp
    exact ho
  | literal c => cases hp

namespace Function

/-- What the analysis knows where it comes to an instruction for the first time. -/
theorem analyze_passes (hf : f.IsUnstable) (hlength : f.nodes.length ≤ 100)
    (hbranch : ∀ n ∈ f.nodes, n.isBranch = false) (hform : f.IsSingleAssignment)
    (hparams : ∀ v ∈ f.params, v.Admits (ρ v.place)) (hsplit : f.instrs = before ++ i :: after)
    (hrun : before.foldlM Instr.execute? ρ = some ρ')
    (h : f.analyze { order := order } s = .ok () s') :
    ∃ size u, i.ConstantsBelow size ∧ f.Covers size ρ' before u.ranges ∧
      (i.effect u).failure? = none ∧ u.checked = s.checked ∧
      (∀ issue ∈ (i.effect u).issues, issue ∈ s'.issues) ∧
      ∀ p : Place, p.IsKnown f before → s'.ranges.get? p = u.ranges.get? p := by
  obtain ⟨size, hsize, hconst, -⟩ := exists_size f.instrs
  obtain ⟨start, hstart, h⟩ := analyze_ok.1 h
  obtain ⟨later, hlater, hiter⟩ :=
    iterate_eq_rounds hf (start_isUnstable hf hstart) hlength hbranch
  rw [hiter] at h
  obtain ⟨once, honce, hagain⟩ := Analysis.forM_append_ok.1 h
  have hsettled := hform.isSettled (List.nil_append _).symm hform.known [] start
  have hfinal := hsettled.rerun_after honce hlater hagain
  rw [hsplit] at honce
  obtain ⟨u, hu, hrest⟩ := Analysis.forM_append_ok.1 honce
  obtain ⟨hn, hafter⟩ := Instr.run_cons_ok.1 hrest
  have hmem : ∀ j ∈ before, j ∈ f.instrs := fun j hj => by simp [hsplit, hj]
  have hknown := hform.known
  rw [hsplit] at hknown
  refine ⟨size, u, hconst i (by simp [hsplit]), ?_, hn, ?_, ?_, fun p hp => ?_⟩
  · rcases (start_covers hparams hrun hmem hstart hsize).run hknown.of_append.1
      (fun j hj => hform.arithmetic j (hmem j hj)) (hform.solved hsplit hknown hrun)
      (fun j hj => hconst j (hmem j hj)) hsize with ⟨t, ht, hcovers⟩ | ⟨t, ht, -⟩
    · cases hu.symm.trans ht
      exact hcovers
    · cases hu.symm.trans ht
  · rw [Instr.checked_run (fun j hj => hform.arithmetic j (hmem j hj)) hu, start_frame hstart]
  · intro issue hissue
    exact Instr.mem_issues_run hagain (Instr.mem_issues_run hafter (List.mem_append_right _ hissue))
  · rw [hfinal p, Instr.get?_run hrest (hform.not_assigned hsplit hp)]

/-- No alarm is missed on unsigned arithmetic in single-assignment form. -/
theorem analyze_raises_alarm (hf : f.IsUnstable) (hlength : f.nodes.length ≤ 100)
    (hbranch : ∀ n ∈ f.nodes, n.isBranch = false) (hform : f.IsSingleAssignment)
    (hparams : ∀ v ∈ f.params, v.Admits (ρ v.place))
    (hsplit : f.instrs = before ++ .binary op p left right :: after) (hp : p.isUnsigned)
    (hchecked : p ∉ s.checked) (hrun : before.foldlM Instr.execute? ρ = some ρ')
    (hx : left.value? ρ' = some x) (hy : right.value? ρ' = some y)
    (h : f.analyze { order := order } s = .ok () s') :
    ∃ l r, left.interval s'.ranges = .ok l ∧ right.interval s'.ranges = .ok r ∧
      (op = .add → (Nat.pow 2 256 : Nat) ≤ x + y → .additionOverflow p l r ∈ s'.issues) ∧
      (op = .mul → (Nat.pow 2 256 : Nat) ≤ x * y → .multiplicationOverflow p l r ∈ s'.issues) ∧
      (op = .sub → x - y < 0 → .subtractionUnderflow p l r ∈ s'.issues) ∧
      (op = .div ∨ op = .mod → y = 0 → .divisionByZero p left r ∈ s'.issues ∧
        (if r = .point 0 then .divisorIsZero (op == .mod) else .divisorMayBeZero (op == .mod) r) ∈
          s'.issues) := by
  obtain ⟨size, u, hconst, hcovers, hn, hsame, hissues, hfinal⟩ :=
    analyze_passes hf hlength hbranch hform hparams hsplit hrun h
  have hknown := hform.known
  rw [hsplit] at hknown
  have hops : ∀ o ∈ [left, right], o.IsKnown f before := hknown.of_append.2.1
  have hcovered (o : Operand) (ho : o ∈ [left, right]) : o.IsCovered size ρ' u.ranges :=
    hcovers.operand (hops o ho) fun n hn => hconst n (hn ▸ ho)
  have hinterval (o : Operand) (ho : o ∈ [left, right]) :
      o.interval s'.ranges = o.interval u.ranges :=
    (hops o ho).interval_congr hfinal
  obtain ⟨x', l, hx', hx0, hl, hlx⟩ := hcovered left (by simp)
  obtain ⟨y', r, hy', hy0, hr, hry⟩ := hcovered right (by simp)
  cases hx.symm.trans hx'
  cases hy.symm.trans hy'
  have heffect : (Instr.binary op p left right).effect u = .binaryOn u.checked op p left l r := by
    simp only [Instr.effect, Effect.binary, hl, hr]
  rw [heffect] at hn hissues
  have hc : u.checked.contains p = false := by
    simpa [hsame] using hchecked
  have hraised (issue : Issue) (word? : Option Issue) (hw : op.wordAlarm l r p = .ok word?)
      (hi : op.divisorAlarm? l r = some issue ∨ word? = some issue ∨
        op.zeroAlarm? left r p = some issue) : issue ∈ s'.issues :=
    hissues issue (Effect.binaryOn_raises hn hc hw hi)
  refine ⟨l, r, (hinterval left (by simp)).trans hl, (hinterval right (by simp)).trans hr,
    ?_, ?_, ?_, ?_⟩
  · rintro rfl hover
    exact hraised _ _ (Operator.wordAlarm_add hlx hry hover) (.inr (.inl rfl))
  · rintro rfl hover
    exact hraised _ _ (Operator.wordAlarm_mul hlx hry hx0 hy0 hover) (.inr (.inl rfl))
  · rintro rfl hunder
    exact hraised _ _ (Operator.wordAlarm_sub hlx hry hp (by omega)) (.inr (.inl rfl))
  · rintro hop rfl
    obtain ⟨word?, hw⟩ := op.wordAlarm_ok hlx hry p
    exact ⟨hraised _ _ hw (.inr (.inr (Operator.zeroAlarm?_zero hop hry))),
      hraised _ _ hw (.inl (Operator.divisorAlarm?_zero hop hlx hry))⟩

end Function

/-- A function that divides its parameter by the last digit of it. -/
def lastDigitQuotient : Function :=
  .ofNodes [.ofType "a" "uint8"] [
    .ofInstrs [.binary .mod (.var (.ofType "x" "uint8")) (.place (.var (.ofType "a" "uint8")))
      (.literal (.int 10))] [1],
    .ofInstrs [.binary .div (.var (.ofType "y" "uint8")) (.place (.var (.ofType "a" "uint8")))
      (.place (.var (.ofType "x" "uint8")))] []]

theorem lastDigitQuotient_isSingleAssignment : lastDigitQuotient.IsSingleAssignment := by
  have ha (before : List Instr) :
      (Place.var (.ofType "a" "uint8")).IsKnown lastDigitQuotient before :=
    .inl ⟨.ofType "a" "uint8", by decide, rfl, ⟨8, by decide, rfl⟩, by decide⟩
  refine ⟨by decide, by decide, ?_, ?_, trivial⟩
  · exact List.forall_mem_cons.2 ⟨ha _, List.forall_mem_singleton.2 (Int.natCast_nonneg 10)⟩
  · exact List.forall_mem_cons.2
      ⟨ha _, List.forall_mem_singleton.2 (.inr ⟨_, List.mem_singleton_self _, rfl⟩)⟩

def lastDigitArgument : Valuation :=
  fun _ => 20

/-- The argument 20 has the last digit 0, and the division by it is reported. -/
theorem lastDigitQuotient_raises_alarm :
    ∃ s', lastDigitQuotient.analyze {} .initial = .ok () s' ∧
      ∃ r, (Operand.place (.var (.ofType "x" "uint8"))).interval s'.ranges = .ok r ∧
        .divisionByZero (.var (.ofType "y" "uint8")) (.place (.var (.ofType "a" "uint8"))) r ∈
          s'.issues := by
  have hf : lastDigitQuotient.IsUnstable := by decide
  have hparams : ∀ v ∈ lastDigitQuotient.params, v.Admits (lastDigitArgument v.place) :=
    List.forall_mem_singleton.2 ⟨.unsigned 8, rfl, by decide, by decide⟩
  have h : lastDigitQuotient.analyze {} .initial = .ok () ⟨⟨[
      (.var (.ofType "a" "uint8"), .between 0 255), (.var (.ofType "x" "uint8"), .between 0 9),
      (.var (.ofType "y" "uint8"), .word)]⟩,
      (List.replicate 4 [.divisorMayBeZero false (.between 0 9),
        .divisionByZero (.var (.ofType "y" "uint8")) (.place (.var (.ofType "a" "uint8")))
          (.between 0 9)]).flatten, [], []⟩ := by
    decide +kernel
  obtain ⟨l, r, -, hr, -, -, -, hzero⟩ := Function.analyze_raises_alarm (y := 0) hf
    (by decide) (by decide)
    lastDigitQuotient_isSingleAssignment hparams
    (show lastDigitQuotient.instrs = [_] ++ .binary .div _ _ _ :: [] from rfl) (by decide)
    (by decide) (execute_cons.2 ⟨_, 0, rfl, by decide, by decide, rfl⟩) rfl (by decide) h
  exact ⟨_, h, r, hr, (hzero (.inl rfl) rfl).1⟩

end RangeAudit
