import Mathlib
import RangeAudit.Proofs.Run

open RangeAudit.Interval (between)
open Set (Icc)

namespace RangeAudit

variable {op : Operator} {l r i : Interval} {f : Failure} {issue : Issue} {issue? : Option Issue}
  {left : Operand} {p : Place} {a b c d : Int}

namespace Number

@[simp]
theorem ofNat_eq (n : Nat) : (OfNat.ofNat n : Number) = .int n := rfl

@[simp]
theorem same_negInf (a : Int) : same (.int a) negInf = false := rfl

@[simp]
theorem same_posInf (a : Int) : same (.int a) posInf = false := rfl

theorem pow_le_writtenBelow : Nat.pow 2 256 ≤ writtenBelow := by
  have hpow (m : Nat) (h : 256 ≤ m) : Nat.pow 2 256 ≤ Nat.pow 10 m :=
    (Nat.pow_le_pow_left (by decide) 256).trans (Nat.pow_le_pow_right (by decide) h)
  unfold writtenBelow
  exact hpow _ (by decide)

theorem isWritable_int {n : Int} : isWritable (.int n) ↔ n.natAbs < writtenBelow := by
  rw [isWritable, decide_eq_true_iff]

theorem isWritable_of_same_zero {x : Number} (h : x.same 0) : x.isWritable := by
  cases x with
  | int n =>
    have hn : n = 0 := by simpa using (same_int n 0).symm.trans h
    subst hn
    exact isWritable_int.2 (lt_of_lt_of_le (by decide) pow_le_writtenBelow)
  | truth | double => rfl

end Number

theorem Interval.isWritable_between : (between (.int c) (.int d)).isWritable ↔
    c.natAbs < Number.writtenBelow ∧ d.natAbs < Number.writtenBelow := by
  simp only [isWritable, between, Option.all_some, Bool.and_eq_true, Number.isWritable_int]

theorem Interval.not_isWritable_writtenBelow :
    ¬ (between (.int c) (.int Number.writtenBelow)).isWritable := by
  rw [isWritable_between, Int.natAbs_natCast]
  exact fun h => lt_irrefl _ h.2

theorem Corners.divisorMeetsZero_iff :
    divisorMeetsZero ⟨.int a, .int b, .int c, .int d⟩ = true ↔ c ≤ 0 ∧ 0 ≤ d := by
  simp [divisorMeetsZero]

theorem Corners.isWritable_of_divisorIsZero (h : (ofIntervals l r).divisorIsZero) :
    r.isWritable := by
  obtain ⟨lo, hi⟩ := r
  obtain ⟨hlo, hhi⟩ := Bool.and_eq_true_iff.1 h
  refine Bool.and_eq_true_iff.2 ⟨?_, ?_⟩
  · cases lo with
    | none => rfl
    | some x => exact Number.isWritable_of_same_zero hlo
  · cases hi with
    | none => rfl
    | some y => exact Number.isWritable_of_same_zero hhi

theorem Operand.isWritable_of_interval {ranges : Ranges} (h : left.interval ranges = .ok l)
    (hl : l.isWritable) : left.isWritable := by
  cases left with
  | place p => rfl
  | literal k =>
    cases k with
    | int n =>
      cases h
      change (between (.int n) (.int n)).isWritable at hl
      rw [Interval.isWritable_between] at hl
      rw [Operand.isWritable, Literal.isWritable, Number.isWritable_int]
      exact hl.1
    | text | truth | empty => rfl

namespace Issue

theorem raised_of_isWritable (h : ∀ issue ∈ issue?, issue.isWritable) :
    raised issue? = .ok issue?.toList := by
  cases issue? with
  | none => rfl
  | some issue => exact if_pos (h issue rfl)

theorem raised_of_not_isWritable (h : ¬ issue.isWritable) :
    raised (some issue) = .error .tooLongToWrite :=
  if_neg h

theorem raised_ok {issues : List Issue} (h : raised issue? = .ok issues) :
    issues = issue?.toList ∧ ∀ issue ∈ issue?, issue.isWritable := by
  have hwritable : ∀ issue ∈ issue?, issue.isWritable := by
    intro issue hissue
    by_contra hlong
    rw [hissue, raised_of_not_isWritable hlong] at h
    cases h
  rw [raised_of_isWritable hwritable] at h
  cases h
  exact ⟨rfl, hwritable⟩

theorem raised_error (h : raised issue? = .error f) :
    f = .tooLongToWrite ∧ ∃ issue ∈ issue?, ¬ issue.isWritable := by
  cases issue? with
  | none => cases h
  | some issue =>
    by_cases hwritable : issue.isWritable
    · rw [raised, if_pos hwritable] at h
      cases h
    · rw [raised_of_not_isWritable hwritable] at h
      cases h
      exact ⟨rfl, issue, rfl, hwritable⟩

end Issue

namespace Operator

theorem divisorAlarm?_isWritable (h : issue ∈ op.divisorAlarm? l r) :
    issue.isWritable = r.isWritable := by
  unfold divisorAlarm? at h
  split at h
  · cases h
    split
    · rename_i hzero
      exact (Corners.isWritable_of_divisorIsZero hzero).symm
    · simp [Issue.isWritable, Issue.intervals, Issue.operand?]
  · cases h

theorem zeroAlarm?_isWritable (h : issue ∈ op.zeroAlarm? left r p) :
    issue.isWritable = (r.isWritable && left.isWritable) := by
  unfold zeroAlarm? at h
  split at h
  · split at h
    · cases h
      simp [Issue.isWritable, Issue.intervals, Issue.operand?]
    · cases h
  · cases h

theorem wordAlarm_isWritable (h : op.wordAlarm l r p = .ok issue?) (hissue : issue ∈ issue?) :
    issue.isWritable = (l.isWritable && r.isWritable) := by
  have halarm {isRaised : Bool} {about : Issue} (hintervals : about.intervals = [l, r])
      (hoperand : about.operand? = none) (h : issue ∈ if isRaised then some about else none) :
      issue.isWritable = (l.isWritable && r.isWritable) := by
    split at h
    · cases h
      simp [Issue.isWritable, hintervals, hoperand]
    · cases h
  cases op with
  | add | mul =>
    obtain ⟨isRaised, -, h⟩ := ok_of_bind h
    cases h
    exact halarm rfl rfl hissue
  | sub | pow =>
    cases h
    exact halarm rfl rfl hissue
  | div | mod | shl | shr | compare | logic | unknown =>
    cases h
    cases hissue

theorem divisorAlarm?_isSome : (op.divisorAlarm? l r).isSome = op.meetsZero l r := by
  unfold divisorAlarm?
  split
  · rename_i hmeets
    rw [hmeets]
    rfl
  · rename_i hmeets
    rw [Bool.eq_false_iff.2 hmeets]
    rfl

/-- What an operation says of its divisor can be written. -/
def CanWarn (op : Operator) (l r : Interval) : Prop :=
  op.meetsZero l r → r.isWritable

/-- The operation gives an interval, whatever it says of its divisor. -/
def Gives (op : Operator) (l r i : Interval) : Prop :=
  ∀ p, ∃ issues, Effect.ofOperation op l r p = { Effect.store p i with issues := issues }

/-- The operation ends with a failure and gives nothing. -/
def FailsWith (op : Operator) (l r : Interval) (f : Failure) : Prop :=
  ∀ p, ∃ issues, Effect.ofOperation op l r p = { Effect.fail f with issues := issues }

theorem CanWarn.raised (h : op.CanWarn l r) :
    Issue.raised (op.divisorAlarm? l r) = .ok (op.divisorAlarm? l r).toList := by
  apply Issue.raised_of_isWritable
  intro issue hissue
  rw [divisorAlarm?_isWritable hissue]
  exact h (divisorAlarm?_isSome ▸ Option.isSome_of_mem hissue)

theorem CanWarn.gives (h : op.CanWarn l r) (happly : op.apply l r = .ok i) : op.Gives l r i := by
  intro p
  rw [Effect.ofOperation, h.raised, happly]
  exact ⟨_, rfl⟩

theorem CanWarn.failsWith (h : op.CanWarn l r) (happly : op.apply l r = .error f) :
    op.FailsWith l r f := by
  intro p
  rw [Effect.ofOperation, h.raised, happly]
  exact ⟨_, rfl⟩

theorem failsWith_of_not_canWarn (h : ¬ op.CanWarn l r) : op.FailsWith l r .tooLongToWrite := by
  obtain ⟨hmeets, hr⟩ := Classical.not_imp.1 h
  obtain ⟨issue, hissue⟩ := Option.isSome_iff_exists.1 (divisorAlarm?_isSome.trans hmeets)
  have hwritable : ¬ issue.isWritable := by
    rwa [divisorAlarm?_isWritable hissue]
  intro p
  rw [Effect.ofOperation, hissue, Issue.raised_of_not_isWritable hwritable]
  exact ⟨_, rfl⟩

theorem FailsWith.not_gives (h : op.FailsWith l r f) : ¬ op.Gives l r i := by
  intro hgives
  obtain ⟨issues, hfail⟩ := h .unnamed
  obtain ⟨issues', hstore⟩ := hgives .unnamed
  cases hfail.symm.trans hstore

theorem gives_iff : op.Gives l r i ↔ op.CanWarn l r ∧ op.apply l r = .ok i := by
  constructor
  · intro hgives
    have hwarn : op.CanWarn l r := by
      by_contra h
      exact (failsWith_of_not_canWarn h).not_gives hgives
    refine ⟨hwarn, ?_⟩
    cases happly : op.apply l r with
    | error f => exact absurd hgives (hwarn.failsWith happly).not_gives
    | ok j =>
      obtain ⟨issues, hstore⟩ := hwarn.gives happly .unnamed
      obtain ⟨issues', hstore'⟩ := hgives .unnamed
      cases hstore.symm.trans hstore'
      rfl
  · rintro ⟨hwarn, happly⟩
    exact hwarn.gives happly

theorem canWarn_of_not_isDivision (h : op.isDivision = false) : op.CanWarn l r := by
  intro hmeets
  simp [meetsZero, h] at hmeets

theorem canWarn_between (op : Operator) (a b c d : Int) :
    op.CanWarn (between (.int a) (.int b)) (between (.int c) (.int d)) ↔
      (op.isDivision → (0 : Int) ∈ Icc c d → (between (.int c) (.int d)).isWritable) := by
  have hmeets : op.meetsZero (between (.int a) (.int b)) (between (.int c) (.int d)) =
      (op.isDivision && Corners.divisorMeetsZero ⟨.int a, .int b, .int c, .int d⟩) := by
    simp [meetsZero, between, Interval.isBottom, Interval.isTop, Interval.boundIs,
      Corners.ofIntervals]
  rw [CanWarn, hmeets, Bool.and_eq_true, Corners.divisorMeetsZero_iff, and_imp]
  exact Iff.rfl

theorem apply_between (op : Operator) (a b c d : Int) :
    op.apply (between (.int a) (.int b)) (between (.int c) (.int d)) =
      op.applyBounds (between (.int a) (.int b)) (between (.int c) (.int d)) := by
  simp [apply, between, Interval.isBottom, Interval.isTop, Interval.boundIs]

theorem gives_between_iff :
    op.Gives (between (.int a) (.int b)) (between (.int c) (.int d)) i ↔
      (op.isDivision → (0 : Int) ∈ Icc c d → (between (.int c) (.int d)).isWritable) ∧
        op.applyBounds (between (.int a) (.int b)) (between (.int c) (.int d)) = .ok i := by
  rw [gives_iff, canWarn_between, apply_between]

theorem gives_between_iff_of_not_isDivision (hop : op.isDivision = false) :
    op.Gives (between (.int a) (.int b)) (between (.int c) (.int d)) i ↔
      op.applyBounds (between (.int a) (.int b)) (between (.int c) (.int d)) = .ok i := by
  rw [gives_iff, apply_between]
  exact and_iff_right (canWarn_of_not_isDivision hop)

end Operator

end RangeAudit
