import RangeAudit.Proofs.Completion
import RangeAudit.Proofs.Repetition
import RangeAudit.Proofs.Unknown

open RangeAudit.Interval (between)

namespace RangeAudit

variable {s : State} {op : Operator} {p : Place} {left right : Operand} {l r : Interval}
  {issue : Issue} {checked : List Place}

namespace Interval

def isClosed (i : Interval) : Bool :=
  i.lo.isSome && i.hi.isSome

/-- Whether an interval is neither bottom nor top. -/
def isNontrivial (i : Interval) : Bool :=
  !i.isBottom && !i.isTop

end Interval

theorem Text.startsWith_append {word s : String} (h : word.length ≤ s.length) (t : String) :
    startsWith (s ++ t) word = startsWith s word := by
  have hlength : word.toList.length ≤ s.toList.length := h
  rw [Bool.eq_iff_iff, startsWith, startsWith, List.isPrefixOf_iff_prefix,
    List.isPrefixOf_iff_prefix, String.toList_append]
  constructor
  · intro hword
    exact List.prefix_of_prefix_length_le hword (List.prefix_append _ _) hlength
  · intro hword
    exact hword.trans (List.prefix_append _ _)

namespace Issue

def isCertain (issue : Issue) : Bool :=
  Text.startsWith issue.text "确定性除零"

def isPossible (issue : Issue) : Bool :=
  Text.startsWith issue.text "潜在除零错误"

def heading : Issue → String
  | divisorMayBeZero _ _ => "确定性除零风险: "
  | divisorIsZero _ => "确定性除零错误: "
  | additionOverflow _ _ _ => "潜在加法溢出: "
  | subtractionUnderflow _ _ _ => "潜在减法下溢: "
  | multiplicationOverflow _ _ _ => "潜在乘法溢出: "
  | powerOverflow _ _ _ => "潜在幂运算溢出: "
  | divisionByZero _ _ _ => "潜在除零错误: "

theorem text_eq_heading (issue : Issue) : ∃ rest, issue.text = issue.heading ++ rest := by
  cases issue with
  | divisorMayBeZero remainder divisor =>
    change ∃ rest, "确定性除零风险: " ++ _ ++ _ ++ _ ++ _ = "确定性除零风险: " ++ rest
    simp only [String.append_assoc]
    exact ⟨_, rfl⟩
  | divisorIsZero remainder =>
    change ∃ rest, "确定性除零错误: " ++ _ ++ _ = "确定性除零错误: " ++ rest
    simp only [String.append_assoc]
    exact ⟨_, rfl⟩
  | divisionByZero result dividend divisor =>
    change ∃ rest, "潜在除零错误: " ++ _ ++ _ ++ _ ++ _ ++ _ ++ _ = "潜在除零错误: " ++ rest
    simp only [String.append_assoc]
    exact ⟨_, rfl⟩
  | additionOverflow | subtractionUnderflow | multiplicationOverflow | powerOverflow =>
    exact ⟨_, rfl⟩

theorem length_heading (issue : Issue) : 8 ≤ issue.heading.length := by
  cases issue <;> (dsimp only [heading]; decide)

theorem startsWith_text {word : String} (h : word.length ≤ 8) :
    Text.startsWith issue.text word = Text.startsWith issue.heading word := by
  obtain ⟨rest, htext⟩ := issue.text_eq_heading
  rw [htext, Text.startsWith_append (h.trans issue.length_heading)]

theorem isCertain_eq (issue : Issue) :
    issue.isCertain = match issue with
      | divisorMayBeZero _ _ | divisorIsZero _ => true
      | _ => false := by
  rw [isCertain, startsWith_text (by decide)]
  cases issue <;> (dsimp only [heading]; decide)

theorem isPossible_eq (issue : Issue) :
    issue.isPossible = match issue with
      | divisionByZero _ _ _ => true
      | _ => false := by
  rw [isPossible, startsWith_text (by decide)]
  cases issue <;> (dsimp only [heading]; decide)

end Issue

namespace Corners

theorem divisorMeetsZero_ofIntervals (l r : Interval) :
    (ofIntervals l r).divisorMeetsZero = (r.lo.all (·.le 0) && r.hi.all (Number.le 0)) := by
  obtain ⟨lo, hi⟩ := r
  cases lo with
  | none =>
    cases hi with
    | none => rfl
    | some y => rfl
  | some x =>
    cases hi with
    | none => exact congrArg (Number.le x 0 && ·) rfl
    | some y => rfl

theorem divisorMeetsZero_of_contains (l : Interval) (hr : r.contains 0) :
    (ofIntervals l r).divisorMeetsZero := by
  rw [divisorMeetsZero_ofIntervals]
  simp only [Interval.contains, Bool.and_assoc, Bool.and_eq_true] at hr
  exact Bool.and_eq_true_iff.2 hr.2

end Corners

namespace Operator

theorem meetsZero_iff (hop : op.isDivision) :
    op.meetsZero l r ↔ r.contains 0 ∧ l.isNontrivial ∧ r.isNontrivial := by
  simp only [meetsZero, hop, Corners.divisorMeetsZero_ofIntervals, Interval.contains,
    Interval.isNontrivial, Bool.and_eq_true]
  tauto

theorem zeroAlarm?_eq (hop : op.isDivision) :
    op.zeroAlarm? left r p =
      if r.contains 0 && r.isClosed then some (.divisionByZero p left r) else none := by
  obtain ⟨lo, hi⟩ := r
  rw [zeroAlarm?, hop]
  cases lo with
  | none => simp [Interval.isClosed]
  | some x =>
    cases hi with
    | none => simp [Interval.isClosed]
    | some y => simp [Interval.isClosed, Interval.contains, Interval.isBottom]

theorem divisorAlarm?_wording (op : Operator) (l r : Interval) :
    (op.divisorAlarm? l r).toList.any (·.isCertain) = op.meetsZero l r ∧
      (op.divisorAlarm? l r).toList.any (·.isPossible) = false := by
  unfold divisorAlarm?
  split
  · rename_i hmeets
    split
    · simp [Issue.isCertain_eq, Issue.isPossible_eq, hmeets]
    · simp [Issue.isCertain_eq, Issue.isPossible_eq, hmeets]
  · rename_i hmeets
    simp [hmeets]

theorem zeroAlarm?_wording (hop : op.isDivision) (left : Operand) (r : Interval) (p : Place) :
    (op.zeroAlarm? left r p).toList.any (·.isCertain) = false ∧
      (op.zeroAlarm? left r p).toList.any (·.isPossible) = (r.contains 0 && r.isClosed) := by
  rw [zeroAlarm?_eq hop]
  split
  · rename_i hmeets
    simp [Issue.isCertain_eq, Issue.isPossible_eq, hmeets]
  · rename_i hmeets
    simpa using hmeets

theorem apply_of_contains_zero (hop : op.isDivision) (hr : r.contains 0) :
    ∃ i, op.apply l r = .ok i := by
  unfold apply
  split
  · exact ⟨_, rfl⟩
  · split
    · split
      · exact ⟨_, rfl⟩
      · exact ⟨_, rfl⟩
    · cases op with
      | div =>
        rw [applyBounds, Corners.div, if_pos (Corners.divisorMeetsZero_of_contains l hr)]
        exact ⟨_, rfl⟩
      | mod => exact ⟨_, rfl⟩
      | add | sub | mul | pow | shl | shr | compare | logic | unknown => cases hop

end Operator

namespace Effect

theorem operandAlarms_of_isDivision {isChecked : Bool} (hop : op.isDivision) :
    operandAlarms isChecked op p left l r = Issue.raised (op.zeroAlarm? left r p) := by
  have hword : (if isChecked then .ok none else op.wordAlarm l r p) = .ok none := by
    rw [Operator.wordAlarm_of_isDivision hop, ite_self]
  rw [operandAlarms_eq hword]
  cases Issue.raised (op.zeroAlarm? left r p) with
  | ok issues => rfl
  | error e => rfl

/-- What is recorded while the interval is derived: the alarm, if the divisor can be written. -/
theorem ofOperation_issues_eq (op : Operator) (l r : Interval) (p : Place) :
    (ofOperation op l r p).issues =
      if r.isWritable then (op.divisorAlarm? l r).toList else [] := by
  have hrecorded {issues : List Issue} (h : Issue.raised (op.divisorAlarm? l r) = .ok issues) :
      issues = if r.isWritable then (op.divisorAlarm? l r).toList else [] := by
    obtain ⟨rfl, hwritable⟩ := Issue.raised_ok h
    cases halarm : op.divisorAlarm? l r with
    | none => simp
    | some issue =>
      have hr : r.isWritable := by
        rw [← Operator.divisorAlarm?_isWritable halarm]
        exact hwritable issue halarm
      rw [if_pos hr]
  unfold ofOperation
  split
  · rename_i e herror
    obtain ⟨-, issue, hissue, hlong⟩ := Issue.raised_error herror
    rw [Operator.divisorAlarm?_isWritable hissue] at hlong
    rw [if_neg hlong]
    rfl
  · rename_i issues hissues
    split <;> exact hrecorded hissues

/-- What a division records after that: the other alarm, if dividend and divisor can be written. -/
theorem binaryOn_issues_eq (hop : op.isDivision) :
    (binaryOn checked op p left l r).issues = (ofOperation op l r p).issues ++
      if r.isWritable && left.isWritable then (op.zeroAlarm? left r p).toList else [] := by
  rw [binaryOn, operandAlarms_of_isDivision hop]
  split
  · -- the alarm is not reached, but only a divisor that is not zero or too long can get here
    rename_i hfailure
    have hnone : r.isWritable → op.zeroAlarm? left r p = none := by
      intro hr
      have hnot : r.contains 0 = false := by
        by_contra hcontains
        obtain ⟨i, hi⟩ := Operator.apply_of_contains_zero hop (Bool.of_not_eq_false hcontains)
        have hwarn : op.CanWarn l r := fun _ => hr
        obtain ⟨issues, hstore⟩ := hwarn.gives hi p
        rw [hstore] at hfailure
        cases hfailure
      rw [Operator.zeroAlarm?_eq hop, hnot]
      rfl
    split
    · rename_i hwritable
      rw [hnone (Bool.and_eq_true_iff.1 hwritable).1]
      exact (List.append_nil _).symm
    · exact (List.append_nil _).symm
  · cases hraised : Issue.raised (op.zeroAlarm? left r p) with
    | error e =>
      obtain ⟨-, issue, hissue, hlong⟩ := Issue.raised_error hraised
      rw [Operator.zeroAlarm?_isWritable hissue] at hlong
      rw [if_neg hlong]
      exact (List.append_nil _).symm
    | ok issues =>
      obtain ⟨rfl, hwritable⟩ := Issue.raised_ok hraised
      cases halarm : op.zeroAlarm? left r p with
      | none => simp
      | some issue =>
        rw [if_pos ((Operator.zeroAlarm?_isWritable halarm).symm.trans (hwritable issue halarm))]

end Effect

namespace Instr

/-- Where the divisor may be zero, the two alarms agree exactly if their conditions do. -/
theorem zero_alarms_agree_iff (hop : op.isDivision) (hleft : left.interval s.ranges = .ok l)
    (hright : right.interval s.ranges = .ok r) :
    ∃ issues, ((Step.carry (binary op p left right)).ends s).issues = s.issues ++ issues ∧
      (issues.any (·.isCertain) ↔
        r.contains 0 ∧ (l.isNontrivial ∧ r.isNontrivial) ∧ r.isWritable) ∧
      (issues.any (·.isPossible) ↔
        r.contains 0 ∧ r.isClosed ∧ r.isWritable ∧ left.isWritable) ∧
      ((issues.any (·.isCertain) ↔ issues.any (·.isPossible)) ↔
        (r.contains 0 → r.isWritable →
          (l.isNontrivial ∧ r.isNontrivial ↔ r.isClosed ∧ left.isWritable))) := by
  have hends : ((Step.carry (binary op p left right)).ends s).issues =
      s.issues ++ (Effect.binaryOn s.checked op p left l r).issues := by
    rw [Step.ends_carry, effect, Effect.binary, hright, hleft]
    rfl
  obtain ⟨hcertain, hnotPossible⟩ := op.divisorAlarm?_wording l r
  obtain ⟨hnotCertain, hpossible⟩ := Operator.zeroAlarm?_wording hop left r p
  rw [Effect.binaryOn_issues_eq hop, Effect.ofOperation_issues_eq] at hends
  refine ⟨_, hends, ?_⟩
  by_cases hr : r.isWritable
  · by_cases hwritable : left.isWritable
    · simp only [hr, hwritable, Bool.and_self, if_true, List.any_append, hcertain, hnotCertain,
        hnotPossible, hpossible, Bool.or_false, Bool.false_or, Bool.and_eq_true,
        Operator.meetsZero_iff hop]
      tauto
    · simp only [hr, hwritable, Bool.and_false, Bool.false_eq_true, if_true, if_false,
        List.append_nil, hcertain, hnotPossible, Operator.meetsZero_iff hop]
      tauto
  · simp [hr]

theorem closedDivisor_raises_both :
    ∃ issues, ((Step.carry (binary .mod (Variable.octet "z").place (.place (.named "x"))
        (.place (.named "y")))).ends
        (.ofEntries [(.named "x", .point 1), (.named "y", between (.int (-2)) 3)])).issues =
          issues ∧
      issues.any (·.isCertain) ∧ issues.any (·.isPossible) := by
  let s : State := .ofEntries [(.named "x", .point 1), (.named "y", between (.int (-2)) 3)]
  have hleft : (Operand.place (.named "x")).interval s.ranges = .ok (.point 1) := rfl
  have hright : (Operand.place (.named "y")).interval s.ranges = .ok (between (.int (-2)) 3) := rfl
  obtain ⟨issues, hends, hcertain, hpossible, -⟩ := zero_alarms_agree_iff
    (p := (Variable.octet "z").place) (show Operator.mod.isDivision from rfl) hleft hright
  have hwritable : (between (.int (-2)) 3).isWritable := by
    decide +kernel
  exact ⟨issues, hends, hcertain.2 ⟨by decide, by decide, hwritable⟩,
    hpossible.2 ⟨by decide, by decide, hwritable, rfl⟩⟩

/-- A divisor without a lower bound raises only the one alarm, and top only the other. -/
theorem openDivisor_raises_one :
    (Interval.atMost 5).contains 0 ∧
      (binary .div (Variable.octet "z").place (.place (.named "x")) (.place (.named "y"))).process
          (.ofEntries [(.named "x", .point 1), (.named "y", .atMost 5)]) =
        .ok () { State.ofEntries [(.named "x", .point 1), (.named "y", .atMost 5),
            ((Variable.octet "z").place, .word)] with
          issues := [.divisorMayBeZero false (.atMost 5)] } ∧
      Interval.top.contains 0 ∧
      (binary .div (Variable.octet "z").place (.place (.named "x")) (.place (.named "y"))).process
          (.ofEntries [(.named "x", .point 1), (.named "y", .top)]) =
        .ok () { State.ofEntries [(.named "x", .point 1), (.named "y", .top),
            ((Variable.octet "z").place, .unsignedWord)] with
          issues := [.divisionByZero (Variable.octet "z").place (.place (.named "x")) .top] } := by
  decide +kernel

end Instr

end RangeAudit
