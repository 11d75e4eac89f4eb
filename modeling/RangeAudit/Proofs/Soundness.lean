import RangeAudit.Proofs.Execution
import RangeAudit.Proofs.Operation

open RangeAudit.Interval (greatestWord between)

namespace RangeAudit

variable {size x y : Int} {ρ ρ' : Valuation} {f : Function} {s t : State} {p : Place} {i : Instr}
  {l r z : Interval} {op : Operator} {left : Operand} {before body after : List Instr}
  {order : SetOrder}

section Types

/-- The values of a type. A type that is none of the known ones is taken for an unsigned word. -/
def TypeClass.Admits (x : Int) : TypeClass → Prop
  | .unsigned bits => 0 ≤ x ∧ x < Nat.pow 2 bits
  | .signed bits => 0 < bits ∧ -(Nat.pow 2 (bits - 1)) ≤ x ∧ x < Nat.pow 2 (bits - 1)
  | .address => 0 ≤ x ∧ x < Nat.pow 2 160
  | .truth => x = 0 ∨ x = 1
  | .other => IsWord x

def Variable.typeClass (v : Variable) : Except Failure TypeClass :=
  v.place.lowerType?.elim (.ok .other) TypeClass.ofText

def Variable.Admits (v : Variable) (x : Int) : Prop :=
  ∃ t, v.typeClass = .ok t ∧ t.Admits x

theorem TypeClass.signedRange_eq {bits : Nat} (h : 0 < bits) :
    signedRange bits = (.int (-(Nat.pow 2 (bits - 1))), .int (Nat.pow 2 (bits - 1) - 1)) := by
  have hnat : ((bits : Int) - 1).toNat = bits - 1 := by omega
  have hnonneg : 0 ≤ (bits : Int) - 1 := by omega
  simp only [signedRange, Number.twoPow, Number.toInt?, if_pos hnonneg, hnat]
  rfl

theorem TypeClass.paramInterval_contains {c : TypeClass} (h : c.Admits x) :
    c.paramInterval.contains x := by
  cases c with
  | unsigned bits =>
    obtain ⟨h0, h1⟩ := h
    exact Interval.contains_between.2 ⟨h0, Int.le_sub_one_of_lt h1⟩
  | signed bits =>
    obtain ⟨hbits, h0, h1⟩ := h
    rw [paramInterval, signedRange_eq hbits]
    exact Interval.contains_between.2 ⟨h0, Int.le_sub_one_of_lt h1⟩
  | address =>
    obtain ⟨h0, h1⟩ := h
    exact Interval.contains_between.2 ⟨h0, Int.le_sub_one_of_lt h1⟩
  | truth =>
    have : 0 ≤ x ∧ x ≤ 1 := by
      rcases h with rfl | rfl <;> decide
    exact Interval.contains_between.2 this
  | other => exact Interval.contains_between.2 h

theorem Variable.paramInterval_eq (v : Variable) :
    v.paramInterval = TypeClass.paramInterval <$> v.typeClass := by
  unfold Variable.paramInterval Variable.typeClass
  cases v.place.lowerType? <;> rfl

theorem Variable.Admits.paramInterval_ok {v : Variable} (h : v.Admits x) :
    ∃ z, v.paramInterval = .ok z := by
  obtain ⟨c, hc, -⟩ := h
  rw [Variable.paramInterval_eq, hc]
  exact ⟨_, rfl⟩

theorem Variable.typeClass_of_type {v : Variable} {bits : Nat} (hbits : bits ≤ 256)
    (h : v.type? = some (unsignedText bits)) : v.typeClass = .ok (.unsigned bits) := by
  simp only [Variable.typeClass, Place.lowerType?, Variable.place, Place.type?, h, Option.map_some,
    Option.elim_some]
  exact TypeClass.ofText_unsigned hbits

theorem Variable.IsWordTyped.isCritical {v : Variable} (h : v.IsWordTyped) :
    v.place.isCritical := by
  obtain ⟨bits, -, h⟩ := h
  have hword : Text.containsAny (Text.lower (unsignedText bits)) criticalTypes :=
    List.any_eq_true.2 ⟨"uint", by decide, contains_unsignedText bits⟩
  simp [Place.isCritical, Place.lowerType?, Variable.place, Place.type?, h, hword]

theorem Variable.IsWordTyped.encloses {v : Variable} (h : v.IsWordTyped) (hx : v.Admits x)
    (hsize : greatestWord < size) :
    IsWord x ∧ ∃ z, v.paramInterval = .ok z ∧ z.Encloses size x := by
  obtain ⟨bits, hbits, h⟩ := h
  obtain ⟨t, ht, hx⟩ := hx
  rw [typeClass_of_type hbits h] at ht
  cases ht
  obtain ⟨h0, h1⟩ := hx
  have hpow : ((Nat.pow 2 bits : Nat) : Int) ≤ greatestWord + 1 :=
    Int.ofNat_le.2 (Nat.pow_le_pow_right (by decide) hbits)
  refine ⟨⟨h0, by omega⟩, _, by rw [Variable.paramInterval_eq, typeClass_of_type hbits h]; rfl, ?_⟩
  exact ⟨0, _, rfl, h0, Int.le_sub_one_of_lt h1, by omega, by omega⟩

end Types

section Alarms

theorem Interval.Encloses.isWritable (h : z.Encloses size x) (hsize : size ≤ Number.writtenBelow) :
    z.isWritable := by
  obtain ⟨a, b, rfl, ha, hb, ha', hb'⟩ := h
  simp only [Interval.isWritable, between, Option.all_some, Number.isWritable, Bool.and_eq_true,
    decide_eq_true_eq]
  omega

theorem Operator.wordAlarm_ok (op : Operator) (hl : l.Encloses size x) (hr : r.Encloses size y)
    (p : Place) : ∃ issue?, op.wordAlarm l r p = .ok issue? := by
  obtain ⟨a, b, rfl, -⟩ := hl
  obtain ⟨c, d, rfl, -⟩ := hr
  cases op with
  | add | sub | mul | pow | div | mod | shl | shr | compare | logic | unknown => exact ⟨_, rfl⟩

namespace Effect

theorem operandAlarms_eq {isChecked : Bool} {issue? : Option Issue}
    (h : (if isChecked then .ok none else op.wordAlarm l r p) = .ok issue?) :
    operandAlarms isChecked op p left l r = (do
      let word ← Issue.raised issue?
      let zero ← Issue.raised (op.zeroAlarm? left r p)
      return word ++ zero) := by
  unfold operandAlarms
  cases isChecked with
  | true =>
    cases h
    rfl
  | false =>
    simp only [Bool.false_eq_true, if_false] at h ⊢
    rw [h]
    rfl

theorem operandAlarms_error {isChecked : Bool} {e : Failure} {issue? : Option Issue}
    (hword : (if isChecked then .ok none else op.wordAlarm l r p) = .ok issue?)
    (h : operandAlarms isChecked op p left l r = .error e) :
    e = .tooLongToWrite ∧ ¬ (l.isWritable ∧ r.isWritable ∧ left.isWritable) := by
  rw [operandAlarms_eq hword] at h
  cases hw : Issue.raised issue? with
  | error e' =>
    rw [show e = e' by simpa [bind, Except.bind, hw] using h.symm]
    obtain ⟨rfl, issue, hissue, hlong⟩ := Issue.raised_error hw
    refine ⟨rfl, fun ⟨hl, hr, _⟩ => hlong ?_⟩
    cases isChecked with
    | true =>
      cases hword
      cases hissue
    | false => rw [Operator.wordAlarm_isWritable hword hissue, hl, hr, Bool.and_self]
  | ok word =>
    cases hz : Issue.raised (op.zeroAlarm? left r p) with
    | error e' =>
      rw [show e = e' by simpa [bind, Except.bind, hw, hz] using h.symm]
      obtain ⟨rfl, issue, hissue, hlong⟩ := Issue.raised_error hz
      refine ⟨rfl, fun ⟨_, hr, hleft⟩ => hlong ?_⟩
      rw [Operator.zeroAlarm?_isWritable hissue, hr, hleft, Bool.and_self]
    | ok zero => simp [bind, Except.bind, pure, Except.pure, hw, hz] at h

theorem binaryOn_failure_cases {checked : List Place} (hl : l.Encloses size x)
    (hr : r.Encloses size y) (hleft : left.interval s.ranges = .ok l)
    (hz : op.apply l r = .ok z) :
    ((binaryOn checked op p left l r).failure? = none ∧
      (binaryOn checked op p left l r).store? = some (p, z)) ∨
      ((binaryOn checked op p left l r).failure? = some .tooLongToWrite ∧
        Number.writtenBelow < size) := by
  by_cases hwarn : op.CanWarn l r
  · obtain ⟨issues, hstore⟩ := hwarn.gives hz p
    obtain ⟨issue?, hword⟩ :
        ∃ issue?, (if checked.contains p then .ok none else op.wordAlarm l r p) = .ok issue? := by
      split
      · exact ⟨none, rfl⟩
      · exact op.wordAlarm_ok hl hr p
    rw [binaryOn, hstore]
    cases ho : operandAlarms (checked.contains p) op p left l r with
    | error e =>
      obtain ⟨rfl, hlong⟩ := operandAlarms_error hword ho
      refine .inr ⟨rfl, Int.not_le.1 fun hsize => hlong ?_⟩
      have hwritable := hl.isWritable hsize
      exact ⟨hwritable, hr.isWritable hsize, Operand.isWritable_of_interval hleft hwritable⟩
    | ok more => exact .inl ⟨rfl, rfl⟩
  · obtain ⟨issues, hfail⟩ := Operator.failsWith_of_not_canWarn hwarn p
    rw [binaryOn, hfail]
    exact .inr ⟨rfl, Int.not_le.1 fun hsize => hwarn fun _ => hr.isWritable hsize⟩

end Effect

end Alarms

def Operand.IsCovered (size : Int) (ρ : Valuation) (r : Ranges) (o : Operand) : Prop :=
  ∃ x z, o.value? ρ = some x ∧ 0 ≤ x ∧ o.interval r = .ok z ∧ z.Encloses size x

theorem get?_of_encloses {r : Ranges} (h : (r.getD p).Encloses size x) :
    r.get? p = some (r.getD p) := by
  unfold Ranges.getD at h ⊢
  cases hp : r.get? p with
  | none =>
    rw [hp] at h
    obtain ⟨a, b, h, -⟩ := h
    cases h
  | some z => rfl

/-- An instruction stores an interval around its value, unless an alarm is too long to write. -/
theorem Instr.effect_encloses (hi : i.isArithmetic)
    (hops : ∀ o ∈ i.operands, o.IsCovered size ρ s.ranges) (hsolved : i.Solved ρ)
    (hsize : greatestWord < size) :
    ((i.effect s).failure? = none ∧
      ∃ p z, (i.effect s).store? = some (p, z) ∧ i.result? = some p ∧ z.Encloses size (ρ p)) ∨
    ((i.effect s).failure? = some .tooLongToWrite ∧ Number.writtenBelow < size) := by
  obtain ⟨p, hp, hvalue, hword⟩ := hsolved
  cases i with
  | assign q source =>
    cases hp
    obtain ⟨x, z, hx, -, hz, henc⟩ := hops source (by simp [Instr.operands])
    obtain rfl : x = ρ p := Option.some.inj (hx.symm.trans hvalue)
    refine .inl ?_
    cases source with
    | literal c =>
      cases c with
      | int n =>
        cases hz
        exact ⟨rfl, p, _, rfl, rfl, henc⟩
      | text | truth | empty => cases hx
    | place q =>
      cases hz
      have hq := get?_of_encloses henc
      have heffect : (Instr.assign p (.place q)).effect s = .store p (s.ranges.getD q) := by
        simp only [Instr.effect, Effect.assign, hq]
      rw [heffect]
      exact ⟨rfl, p, _, rfl, rfl, henc⟩
  | binary op q left right =>
    cases hp
    obtain ⟨x, l, hx, hx0, hl, hlx⟩ := hops left (by simp [Instr.operands])
    obtain ⟨y, r, hy, hy0, hr, hry⟩ := hops right (by simp [Instr.operands])
    have hop : op.value? x y = some (ρ p) := by
      simpa [Instr.value?, hx, hy] using hvalue
    obtain ⟨z, hz, henc⟩ := Operator.apply_encloses hlx hry hx0 hy0 hop hword hsize
    have heffect : (Instr.binary op p left right).effect s =
        .binaryOn s.checked op p left l r := by
      simp only [Instr.effect, Effect.binary, hl, hr]
    rw [heffect]
    rcases Effect.binaryOn_failure_cases hlx hry hl hz with ⟨hn, hst⟩ | h
    · exact .inl ⟨hn, p, z, hst, rfl, henc⟩
    · exact .inr h
  | convert | member | builtin | call | condition | other | incomplete => cases hi

/-- Every known place is tracked with an interval around its value, which is an unsigned word. -/
def Function.Covers (f : Function) (size : Int) (ρ : Valuation) (before : List Instr)
    (r : Ranges) : Prop :=
  ∀ p : Place, p.IsKnown f before →
    IsWord (ρ p) ∧ ∃ z, r.get? p = some z ∧ z.Encloses size (ρ p)

def Instr.ConstantsBelow (size : Int) (i : Instr) : Prop :=
  ∀ n : Int, .literal (.int n) ∈ i.operands → n < size

namespace Function.Covers

theorem operand {r : Ranges} {o : Operand} (h : f.Covers size ρ before r) (ho : o.IsKnown f before)
    (hconst : ∀ n : Int, o = .literal (.int n) → n < size) : o.IsCovered size ρ r := by
  cases o with
  | place p =>
    obtain ⟨hword, z, hz, henc⟩ := h p ho
    have hget : r.getD p = z := by
      rw [Ranges.getD, hz]
      rfl
    exact ⟨ρ p, z, rfl, hword.1, congrArg Except.ok hget, henc⟩
  | literal c =>
    cases c with
    | int n =>
      have h0 : 0 ≤ n := ho
      have hn := hconst n rfl
      exact ⟨n, .point (.int n), rfl, h0, rfl, n, n, rfl, le_refl n, le_refl n, by omega, hn⟩
    | text | truth | empty => cases ho

theorem step (h : f.Covers size ρ before s.ranges) (hsolved : i.Solved ρ)
    (hstore : (i.effect s).store? = some (p, z)) (hp : i.result? = some p)
    (henc : z.Encloses size (ρ p)) :
    f.Covers size ρ (before ++ [i]) (s.apply (i.effect s)).ranges := by
  intro q hq
  rw [State.get?_apply s hstore]
  by_cases hqp : q = p
  · subst hqp
    obtain ⟨p', hp', -, hword⟩ := hsolved
    cases hp.symm.trans hp'
    exact ⟨hword, z, if_pos rfl, henc⟩
  · rw [if_neg hqp]
    refine h q ?_
    rcases hq with hq | ⟨j, hj, hjq⟩
    · exact .inl hq
    · rcases List.mem_append.1 hj with hj | hj
      · exact .inr ⟨j, hj, hjq⟩
      · cases List.mem_singleton.1 hj
        exact absurd (Option.some.inj (hjq.symm.trans hp)) hqp

theorem run (h : f.Covers size ρ before s.ranges) (hk : f.KnowsOperands before body)
    (harith : ∀ i ∈ body, i.isArithmetic) (hsolved : ∀ i ∈ body, i.Solved ρ)
    (hconst : ∀ i ∈ body, i.ConstantsBelow size) (hsize : greatestWord < size) :
    (∃ t, body.forM Instr.process s = .ok () t ∧ f.Covers size ρ (before ++ body) t.ranges) ∨
      ∃ t, body.forM Instr.process s = .error .tooLongToWrite t ∧ Number.writtenBelow < size := by
  induction body generalizing before s with
  | nil => exact .inl ⟨s, rfl, by rwa [List.append_nil]⟩
  | cons i body ih =>
    have hops : ∀ o ∈ i.operands, o.IsCovered size ρ s.ranges := fun o ho =>
      h.operand (hk.1 o ho) fun n hn => hconst i List.mem_cons_self n (hn ▸ ho)
    rcases Instr.effect_encloses (harith i List.mem_cons_self) hops
      (hsolved i List.mem_cons_self) hsize with ⟨hn, p, z, hstore, hp, henc⟩ | ⟨hf, hlong⟩
    · have hcov := h.step (hsolved i List.mem_cons_self) hstore hp henc
      have hi : i.process s = .ok () (s.apply (i.effect s)) := Instr.process_ok_iff.2 ⟨hn, rfl⟩
      rw [Analysis.forM_cons, Analysis.bind_ok hi]
      have := ih hcov hk.2 (fun j hj => harith j (List.mem_cons_of_mem i hj))
        (fun j hj => hsolved j (List.mem_cons_of_mem i hj))
        (fun j hj => hconst j (List.mem_cons_of_mem i hj))
      rwa [List.append_assoc] at this
    · have hi : i.process s = .error .tooLongToWrite (s.apply (i.effect s)) := by
        simp only [Instr.process, hf]
      rw [Analysis.forM_cons, Analysis.bind_error hi]
      exact .inr ⟨_, rfl, hlong⟩

end Function.Covers

theorem exists_size (body : List Instr) : ∃ size, greatestWord < size ∧
    (∀ i ∈ body, i.ConstantsBelow size) ∧
    (Number.writtenBelow < size → ∃ i ∈ body, ∃ n : Int,
      .literal (.int n) ∈ i.operands ∧ (Number.int n).isWritable = false) := by
  have hword : greatestWord < Number.writtenBelow := by decide +kernel
  have hbound (l : List Operand) : ∃ size ≥ (Number.writtenBelow : Int),
      ∀ n : Int, .literal (.int n) ∈ l → n < size := by
    induction l with
    | nil => exact ⟨_, le_refl _, fun n hn => by cases hn⟩
    | cons o l ih =>
      obtain ⟨size, hsize, hl⟩ := ih
      by_cases ho : ∃ n : Int, o = .literal (.int n)
      · obtain ⟨k, rfl⟩ := ho
        refine ⟨max size (k + 1), by omega, fun n hn => ?_⟩
        rcases List.mem_cons.1 hn with hn | hn
        · cases hn
          omega
        · have := hl n hn
          omega
      · refine ⟨size, hsize, fun n hn => hl n ((List.mem_cons.1 hn).resolve_left fun h => ?_)⟩
        exact ho ⟨n, h.symm⟩
  by_cases hlong : ∃ i ∈ body, ∃ n : Int, .literal (.int n) ∈ i.operands ∧
      (Number.int n).isWritable = false
  · obtain ⟨size, hsize, hl⟩ := hbound (body.flatMap Instr.operands)
    refine ⟨size, by omega, fun i hi n hn => ?_, fun _ => hlong⟩
    exact hl n (List.mem_flatMap.2 ⟨i, hi, hn⟩)
  · refine ⟨Number.writtenBelow, hword, fun i hi n hn => ?_, fun h => absurd h (lt_irrefl _)⟩
    by_contra hle
    refine hlong ⟨i, hi, n, hn, ?_⟩
    simp only [Number.isWritable, decide_eq_false_iff_not]
    omega

namespace Function

theorem start_covers (hparams : ∀ v ∈ f.params, v.Admits (ρ v.place))
    (hrun : body.foldlM Instr.execute? ρ = some ρ') (hbody : ∀ i ∈ body, i ∈ f.instrs)
    (h : f.start order s = .ok () t) (hsize : greatestWord < size) :
    f.Covers size ρ' [] t.ranges := by
  rintro p (⟨v, hv, rfl, htyped, hfree⟩ | ⟨i, hi, -⟩)
  · rw [execute_frame hrun fun i hi => hfree i (hbody i hi)]
    obtain ⟨hword, z, hz, henc⟩ := htyped.encloses (hparams v hv) hsize
    obtain ⟨z', hz', hget⟩ := start_param h hv htyped.isCritical
    cases hz.symm.trans hz'
    exact ⟨hword, z, hget, henc⟩
  · cases hi

/-- Any further rounds leave intervals around the values of an execution. -/
theorem covers_rounds {later : List Instr} (hform : f.IsSingleAssignment)
    (hrun : f.instrs.foldlM Instr.execute? ρ = some ρ') (hlater : ∀ i ∈ later, i ∈ f.instrs)
    (h : f.Covers size ρ' [] s.ranges) (hconst : ∀ i ∈ f.instrs, i.ConstantsBelow size)
    (hsize : greatestWord < size) :
    (∃ t, (f.instrs ++ later).forM Instr.process s = .ok () t ∧
      f.Covers size ρ' f.instrs t.ranges) ∨
      ∃ t, (f.instrs ++ later).forM Instr.process s = .error .tooLongToWrite t ∧
        Number.writtenBelow < size := by
  have hmem : ∀ i ∈ f.instrs ++ later, i ∈ f.instrs := fun i hi =>
    (List.mem_append.1 hi).elim id (hlater i)
  have hsolved : ∀ i ∈ f.instrs, i.Solved ρ' :=
    hform.solved (show f.instrs = [] ++ (f.instrs ++ []) by simp)
      (by simpa using hform.known) hrun
  have hknown : f.KnowsOperands [] (f.instrs ++ later) :=
    hform.known.append fun i hi => hform.known.mem (hlater i hi)
  rcases h.run hknown (fun i hi => hform.arithmetic i (hmem i hi))
    (fun i hi => hsolved i (hmem i hi)) (fun i hi => hconst i (hmem i hi)) hsize with
    ⟨t, ht, hcovers⟩ | herror
  · refine .inl ⟨t, ht, fun p hp => hcovers p (hp.mono fun i hi => ?_)⟩
    exact List.mem_append_left later hi
  · exact .inr herror

theorem start_contains {v : Variable} (hv : v ∈ f.params) (hx : v.Admits x)
    (h : f.start order s = .ok () t) : (v.place.isCritical → t.ranges.contains v.place) ∧
      ∀ z, t.ranges.get? v.place = some z → z.contains x := by
  constructor
  · intro hc
    obtain ⟨z, -, hz⟩ := start_param h hv hc
    simp [Ranges.contains, hz]
  · intro z hget
    obtain ⟨c, hc, hx⟩ := hx
    have hcritical := (start_startsFor h _ (Ranges.mem_of_get? hget)).1
    obtain ⟨z', hz, hget'⟩ := start_param h hv hcritical
    cases hget.symm.trans hget'
    rw [Variable.paramInterval_eq, hc] at hz
    cases hz
    exact TypeClass.paramInterval_contains hx

/-- The final intervals contain the values of every execution on unsigned words. -/
theorem analyze_contains_values (hf : f.IsUnstable) (hlength : f.nodes.length ≤ 100)
    (hbranch : ∀ n ∈ f.nodes, n.isBranch = false) (hform : f.IsSingleAssignment)
    (hparams : ∀ v ∈ f.params, v.Admits (ρ v.place))
    (hrun : f.instrs.foldlM Instr.execute? ρ = some ρ') (s : State) :
    (∃ s', f.analyze { order := order } s = .ok () s' ∧
      (∀ v ∈ f.params, (v.place.isCritical → s'.ranges.contains v.place) ∧
        ∀ z, s'.ranges.get? v.place = some z → z.contains (ρ' v.place)) ∧
      ∀ i ∈ f.instrs, ∀ p, i.result? = some p →
        ∃ z, s'.ranges.get? p = some z ∧ z.contains (ρ' p)) ∨
    ∃ s', f.analyze { order := order } s = .error .tooLongToWrite s' ∧
      ∃ i ∈ f.instrs, ∃ n : Int,
        .literal (.int n) ∈ i.operands ∧ (Number.int n).isWritable = false := by
  obtain ⟨size, hsize, hconst, hlong⟩ := exists_size f.instrs
  obtain ⟨start, hstart⟩ := start_succeeds (fun v hv => (hparams v hv).paramInterval_ok) order s
  obtain ⟨later, hlater, hiter⟩ :=
    iterate_eq_rounds hf (start_isUnstable hf hstart) hlength hbranch
  have hagain : ∀ i ∈ later ++ f.instrs, i ∈ f.instrs := fun i hi =>
    (List.mem_append.1 hi).elim (hlater i) id
  rcases covers_rounds hform hrun hagain (start_covers hparams hrun (fun i hi => hi) hstart hsize)
    hconst hsize with ⟨s', hok, hcovers⟩ | ⟨s', herror, hbig⟩
  · have hresult : ∀ i ∈ f.instrs, ∀ p, i.result? = some p →
        ∃ z, s'.ranges.get? p = some z ∧ z.contains (ρ' p) := by
      intro i hi p hp
      obtain ⟨-, z, hz, henc⟩ := hcovers p (.inr ⟨i, hi, hp⟩)
      exact ⟨z, hz, henc.contains⟩
    refine .inl ⟨s', analyze_ok.2 ⟨start, hstart, hiter.trans hok⟩, fun v hv => ?_, hresult⟩
    by_cases hassigned : ∃ i ∈ f.instrs, i.result? = some v.place
    · obtain ⟨i, hi, hp⟩ := hassigned
      obtain ⟨z, hz, hcontains⟩ := hresult i hi _ hp
      refine ⟨fun _ => by simp [Ranges.contains, hz], fun z' hz' => ?_⟩
      cases hz.symm.trans hz'
      exact hcontains
    · have hfree : ∀ i ∈ f.instrs, i.result? ≠ some v.place := fun i hi hp =>
        hassigned ⟨i, hi, hp⟩
      have hkept : s'.ranges.get? v.place = start.ranges.get? v.place :=
        Instr.get?_run hok fun i hi => hfree i ((List.mem_append.1 hi).elim id (hagain i))
      rw [Ranges.contains, hkept, execute_frame hrun hfree]
      exact start_contains hv (hparams v hv) hstart
  · refine .inr ⟨s', ?_, hlong hbig⟩
    rw [analyze, Analysis.bind_ok hstart, hiter]
    exact herror

end Function

/-- A function that multiplies, subtracts and takes a remainder, in nodes that form a loop. -/
def remainderLoop : Function :=
  .ofNodes [.ofType "a" "uint8", .ofType "b" "uint16"] [
    .ofInstrs [.binary .mul (.named "x") (.place (.var (.ofType "a" "uint8")))
      (.place (.var (.ofType "b" "uint16")))] [1],
    .ofInstrs [.binary .sub (.named "y") (.place (.named "x")) (.literal (.int 7))] [2],
    .ofInstrs [.binary .mod (.named "z") (.place (.named "y"))
      (.place (.var (.ofType "a" "uint8")))] [0]]

theorem remainderLoop_isSingleAssignment : remainderLoop.IsSingleAssignment := by
  have ha (before : List Instr) :
      (Place.var (.ofType "a" "uint8")).IsKnown remainderLoop before :=
    .inl ⟨.ofType "a" "uint8", by decide, rfl, ⟨8, by decide, rfl⟩, by decide⟩
  have hb (before : List Instr) :
      (Place.var (.ofType "b" "uint16")).IsKnown remainderLoop before :=
    .inl ⟨.ofType "b" "uint16", by decide, rfl, ⟨16, by decide, rfl⟩, by decide⟩
  have hlast (before : List Instr) (i : Instr) (p : Place) (h : i.result? = some p) :
      p.IsKnown remainderLoop (before ++ [i]) := .inr ⟨i, by simp, h⟩
  refine ⟨by decide, by decide, ?_, ?_, ?_, trivial⟩
  · exact List.forall_mem_cons.2 ⟨ha _, List.forall_mem_singleton.2 (hb _)⟩
  · exact List.forall_mem_cons.2
      ⟨hlast _ _ _ rfl, List.forall_mem_singleton.2 (Int.natCast_nonneg 7)⟩
  · exact List.forall_mem_cons.2 ⟨hlast _ _ _ rfl, List.forall_mem_singleton.2 (ha _)⟩

def remainderArguments : Valuation :=
  fun p => if p = .var (.ofType "a" "uint8") then 5 else 9

/-- With arguments 5 and 9 the function computes 45, 38 and 3. -/
theorem remainderLoop_contains_values :
    ∃ s', remainderLoop.analyze {} .initial = .ok () s' ∧
      (∃ z, s'.ranges.get? (.named "x") = some z ∧ z.contains 45) ∧
      (∃ z, s'.ranges.get? (.named "y") = some z ∧ z.contains 38) ∧
      ∃ z, s'.ranges.get? (.named "z") = some z ∧ z.contains 3 := by
  have hf : remainderLoop.IsUnstable := by decide
  have hparams : ∀ v ∈ remainderLoop.params, v.Admits (remainderArguments v.place) :=
    List.forall_mem_cons.2 ⟨⟨.unsigned 8, rfl, by decide, by decide⟩,
      List.forall_mem_singleton.2 ⟨.unsigned 16, rfl, by decide, by decide⟩⟩
  have hrun : remainderLoop.instrs.foldlM Instr.execute? remainderArguments =
      some (((remainderArguments.set (.named "x") 45).set (.named "y") 38).set (.named "z") 3) := by
    rfl
  rcases Function.analyze_contains_values hf (by decide) (by decide)
    remainderLoop_isSingleAssignment hparams hrun .initial with
    ⟨s', hok, -, hresult⟩ | ⟨s', -, i, hi, n, hn, hlong⟩
  · refine ⟨s', hok, ?_, ?_, ?_⟩
    · exact hresult _ (List.mem_of_getElem? (i := 0) rfl) _ rfl
    · exact hresult _ (List.mem_of_getElem? (i := 1) rfl) _ rfl
    · exact hresult _ (List.mem_of_getElem? (i := 2) rfl) _ rfl
  · simp only [remainderLoop, Function.ofNodes, Node.ofInstrs, Function.instrs, List.flatMap_cons,
      List.flatMap_nil, List.append_nil, List.cons_append, List.nil_append, List.mem_cons,
      List.not_mem_nil, or_false] at hi
    rcases hi with rfl | rfl | rfl <;> simp [Instr.operands] at hn
    subst hn
    exact absurd hlong (by decide +kernel)

/-- A function that multiplies its parameter by a constant that is too long to write. -/
def longProduct : Function :=
  .ofNodes [.ofType "a" "uint8"] [
    .ofInstrs [.binary .mul (.named "z") (.place (.var (.ofType "a" "uint8")))
      (.literal (.int Number.writtenBelow))] []]

theorem longProduct_isSingleAssignment : longProduct.IsSingleAssignment := by
  refine ⟨by decide, by decide, ?_, trivial⟩
  refine List.forall_mem_cons.2 ⟨?_, List.forall_mem_singleton.2 (Int.natCast_nonneg _)⟩
  exact .inl ⟨.ofType "a" "uint8", by decide, rfl, ⟨8, by decide, rfl⟩, by decide⟩

/-- With the argument zero the function computes zero, and the analysis stops at the product. -/
theorem longProduct_stops :
    longProduct.IsUnstable ∧ longProduct.IsSingleAssignment ∧
      (∀ v ∈ longProduct.params, v.Admits 0) ∧
      longProduct.instrs.foldlM Instr.execute? (fun _ => 0) =
        some (Valuation.set (fun _ => 0) (.named "z") 0) ∧
      longProduct.analyze {} .initial = .error .tooLongToWrite
        (.ofEntries [(.var (.ofType "a" "uint8"), between 0 255),
          (.named "z", between 0 (.int greatestWord))]) := by
  refine ⟨by decide, longProduct_isSingleAssignment, ?_, ?_, by decide +kernel⟩
  · exact List.forall_mem_singleton.2 ⟨.unsigned 8, rfl, by decide, by decide⟩
  · exact execute_cons.2 ⟨.named "z", 0, rfl, congrArg some (Int.zero_mul _), by decide, rfl⟩

end RangeAudit
