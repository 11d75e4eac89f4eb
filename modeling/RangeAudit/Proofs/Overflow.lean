import RangeAudit.Proofs.Repetition
import RangeAudit.Proofs.Unknown

open RangeAudit.Interval (leastWord greatestWord between)
open Set (Icc image2)

namespace RangeAudit

variable {s : State} {op : Operator} {f : Int → Int → Int} {p : Place} {left right : Operand}
  {v : Variable} {a b c d x y : Int} {bits : Nat} {l r i : Interval}

namespace Operator

/-- Sums and products beyond the greatest word, and differences below zero. -/
def isFault (op : Operator) (x y : Int) : Bool :=
  match op with
  | .add => Nat.pow 2 256 ≤ x + y
  | .sub => x - y < 0
  | .mul => Nat.pow 2 256 ≤ x * y
  | _ => false

def MayFault (op : Operator) (a b c d : Int) : Prop :=
  ∃ x ∈ Icc a b, ∃ y ∈ Icc c d, op.isFault x y

def faultIssue? (op : Operator) (p : Place) (l r : Interval) : Option Issue :=
  match op with
  | .add => some (.additionOverflow p l r)
  | .sub => some (.subtractionUnderflow p l r)
  | .mul => some (.multiplicationOverflow p l r)
  | _ => none

/-- The left operand with which a fault shows first. -/
def worstLeft (op : Operator) (a b : Int) : Int :=
  if op = .sub then a else b

theorem mayFault_iff (ha : 0 ≤ a) (hab : a ≤ b) (hc : 0 ≤ c) (hcd : c ≤ d) :
    op.MayFault a b c d ↔ op.isFault (op.worstLeft a b) d := by
  have hworst : op.worstLeft a b ∈ Icc a b := by
    unfold worstLeft
    split
    · exact ⟨le_rfl, hab⟩
    · exact ⟨hab, le_rfl⟩
  constructor
  · rintro ⟨x, ⟨hax, hxb⟩, y, ⟨hcy, hyd⟩, hfault⟩
    cases op with
    | add =>
      simp only [isFault, decide_eq_true_eq] at hfault
      exact decide_eq_true (hfault.trans (Int.add_le_add hxb hyd))
    | sub =>
      simp only [isFault, decide_eq_true_eq] at hfault
      exact decide_eq_true ((Int.sub_le_sub hax hyd).trans_lt hfault)
    | mul =>
      simp only [isFault, decide_eq_true_eq] at hfault
      exact decide_eq_true (hfault.trans (Int.mul_le_mul hxb hyd (hc.trans hcy) (ha.trans hab)))
    | div | mod | pow | shl | shr | compare | logic | unknown => cases hfault
  · intro hfault
    exact ⟨_, hworst, d, ⟨hcd, le_rfl⟩, hfault⟩

theorem mayFault_iff_exceeds (hop : op.exactFunction? = some f) (hsub : op ≠ .sub) :
    op.MayFault a b c d ↔ ∃ x ∈ Icc a b, ∃ y ∈ Icc c d, (Nat.pow 2 256 : Nat) ≤ f x y := by
  cases op with
  | add =>
    cases hop
    simp only [MayFault, isFault, decide_eq_true_eq]
  | mul =>
    cases hop
    simp only [MayFault, isFault, decide_eq_true_eq]
  | sub => exact absurd rfl hsub
  | div | mod | pow | shl | shr | compare | logic | unknown => cases hop

theorem nonneg_of_exact (hop : op.exactFunction? = some f) (hsub : op ≠ .sub) (hx : 0 ≤ x)
    (hy : 0 ≤ y) : 0 ≤ f x y := by
  cases op with
  | add =>
    cases hop
    exact Int.add_nonneg hx hy
  | mul =>
    cases hop
    exact Int.mul_nonneg hx hy
  | sub => exact absurd rfl hsub
  | div | mod | pow | shl | shr | compare | logic | unknown => cases hop

/-- The alarm looks at the bounds where a fault shows first. -/
theorem wordAlarm_between (hop : op.exactFunction? = some f) (hp : p.isUnsigned) (a b c d : Int) :
    op.wordAlarm (between (.int a) (.int b)) (between (.int c) (.int d)) p =
      .ok (if op.isFault (op.worstLeft a b) d then
        op.faultIssue? p (between (.int a) (.int b)) (between (.int c) (.int d)) else none) := by
  cases op with
  | add =>
    have hexceeds : exceedsWord (.int (b + d)) = isFault .add b d := Number.le_int _ _
    change Except.ok (if exceedsWord (.int (b + d)) then _ else none) = _
    rw [hexceeds]
    rfl
  | sub =>
    have hbelow : (Number.lt (.int a) (.int d) && p.isUnsigned) = isFault .sub a d := by
      rw [hp, Bool.and_true, Number.lt_int]
      exact decide_eq_decide.2 sub_neg.symm
    change Except.ok (if Number.lt (.int a) (.int d) && p.isUnsigned then _ else none) = _
    rw [hbelow]
    rfl
  | mul =>
    have hexceeds : exceedsWord (.int (b * d)) = isFault .mul b d := Number.le_int _ _
    change Except.ok (if exceedsWord (.int (b * d)) then _ else none) = _
    rw [hexceeds]
    rfl
  | div | mod | pow | shl | shr | compare | logic | unknown => cases hop

theorem faultIssue?_raised (hop : op.exactFunction? = some f) (p : Place) (l r : Interval) :
    ∃ issue, op.faultIssue? p l r = some issue ∧
      Issue.raised (some issue) =
        if l.isWritable && r.isWritable then .ok [issue] else .error .tooLongToWrite := by
  have hraised (issue : Issue) (h : issue.intervals = [l, r]) (ho : issue.operand? = none) :
      Issue.raised (some issue) =
        if l.isWritable && r.isWritable then .ok [issue] else .error .tooLongToWrite := by
    simp only [Issue.raised, Issue.isWritable, h, ho, List.all_cons, List.all_nil, Option.all_none,
      Bool.and_true]
  cases op with
  | add | sub | mul => exact ⟨_, rfl, hraised _ rfl rfl⟩
  | div | mod | pow | shl | shr | compare | logic | unknown => cases hop

end Operator

/-- The interval is stored, and the alarm is then raised as far as it can be written. -/
theorem Effect.binaryOn_exact {checked : List Place} {issue? : Option Issue}
    (hop : op.exactFunction? = some f) (hchecked : p ∉ checked) (happly : op.apply l r = .ok i)
    (halarm : op.wordAlarm l r p = .ok issue?) :
    binaryOn checked op p left l r =
      match Issue.raised issue? with
      | .ok issues => { store p i with issues }
      | .error e => { store p i with failure? := some e } := by
  have hdivision := Operator.isDivision_of_exact hop
  have hstore : ofOperation op l r p = store p i := by
    simp [ofOperation, Operator.divisorAlarm?, Operator.meetsZero, hdivision, Issue.raised, happly,
      store, nothing]
  have hcontains : checked.contains p = false := by
    simpa using hchecked
  have halarms : (if false then .ok none else op.wordAlarm l r p) = .ok issue? := halarm
  rw [binaryOn, hstore, hcontains, operandAlarms_eq halarms,
    Operator.zeroAlarm?_of_not_isDivision hdivision]
  cases Issue.raised issue? with
  | error e => rfl
  | ok issues =>
    change { store p i with issues := [] ++ (issues ++ []) } = _
    rw [List.append_nil, List.nil_append]

theorem Variable.HasIntegerType.isUnsigned (h : v.HasIntegerType (.unsigned bits)) :
    v.place.isUnsigned := by
  obtain ⟨width, -, -, ⟨htype, -⟩ | ⟨-, hclass⟩⟩ := h
  · simp only [Place.isUnsigned, Place.lowerType?, Variable.place, Place.type?, htype,
      Option.map_some, Option.any_some]
    exact contains_unsignedText width
  · cases hclass

theorem Interval.IsSaturatedHull.lo_neg_iff {results : Set Int} (h : i.IsSaturatedHull results) :
    (∃ m : Int, i.lo = some (.int m) ∧ m < 0) ↔ ∃ z ∈ results, z < 0 := by
  obtain ⟨lo, hi, hleast, -, rfl⟩ := h
  constructor
  · rintro ⟨m, hm, hneg⟩
    cases hm
    exact ⟨lo, hleast.1, (le_max_left _ _).trans_lt hneg⟩
  · rintro ⟨z, hz, hneg⟩
    exact ⟨_, rfl, max_lt ((hleast.2 hz).trans_lt hneg) leastWord_neg⟩

theorem Place.violation?_of_words (p : Place) {m n : Int} (hm : 0 ≤ m) (hn : n ≤ greatestWord)
    {w : Violation} (h : p.violation? (between (.int m) (.int n)) = some w) :
    ∃ limit ∈ limits, limit.violation? (between (.int m) (.int n)) = some w := by
  have hword : ((Nat.pow 2 256 : Nat) : Int) = greatestWord + 1 := by decide
  have hhi : ¬ (Nat.pow 2 256 : Nat) ≤ n := by omega
  rw [violation?, if_neg (by simp [between, Interval.isBottom]),
    if_neg (by simpa [between] using hhi), if_neg (by simp [between, hm.not_gt])] at h
  obtain ⟨limit, hlimit, hbroken⟩ := List.exists_of_findSome?_eq_some h
  exact ⟨limit, (List.mem_filter.1 hlimit).1, hbroken⟩

namespace Instr

section Exact

variable (hop : op.exactFunction? = some f)
  (hleft : left.interval s.ranges = .ok (between (.int a) (.int b))) (ha : 0 ≤ a) (hab : a ≤ b)
  (hright : right.interval s.ranges = .ok (between (.int c) (.int d))) (hc : 0 ≤ c) (hcd : c ≤ d)
  (hp : p.isUnsigned) (hchecked : p ∉ s.checked)
  (happly : op.apply (between (.int a) (.int b)) (between (.int c) (.int d)) = .ok i)

include hop hleft hright hp hchecked happly in
theorem process_exact :
    (binary op p left right).process s =
      match Issue.raised (if op.isFault (op.worstLeft a b) d then
        op.faultIssue? p (between (.int a) (.int b)) (between (.int c) (.int d)) else none) with
      | .ok issues =>
        .ok () { s with ranges := s.ranges.set p i, issues := s.issues ++ issues }
      | .error e => .error e { s with ranges := s.ranges.set p i } := by
  rw [process, effect, Effect.binary, hright, hleft]
  dsimp only
  rw [Effect.binaryOn_exact hop hchecked happly (Operator.wordAlarm_between hop hp a b c d)]
  cases Issue.raised (if op.isFault (op.worstLeft a b) d then
    op.faultIssue? p (between (.int a) (.int b)) (between (.int c) (.int d)) else none) with
  | ok issues => simp [State.apply, Effect.store, Effect.nothing]
  | error e => simp [State.apply, Effect.store, Effect.nothing]

include hop hleft ha hab hright hc hcd hp hchecked happly in
theorem process_of_fault (hfault : op.MayFault a b c d) :
    ∃ issue, op.faultIssue? p (between (.int a) (.int b)) (between (.int c) (.int d)) =
        some issue ∧
      (binary op p left right).process s =
        if (between (.int a) (.int b)).isWritable && (between (.int c) (.int d)).isWritable then
          .ok () { s with ranges := s.ranges.set p i, issues := s.issues ++ [issue] }
        else .error .tooLongToWrite { s with ranges := s.ranges.set p i } := by
  obtain ⟨issue, hissue, hraised⟩ := Operator.faultIssue?_raised hop p (between (.int a) (.int b))
    (between (.int c) (.int d))
  have hprocess := process_exact hop hleft hright hp hchecked happly
  rw [if_pos ((Operator.mayFault_iff ha hab hc hcd).1 hfault), hissue, hraised] at hprocess
  refine ⟨issue, hissue, hprocess.trans ?_⟩
  cases (between (.int a) (.int b)).isWritable && (between (.int c) (.int d)).isWritable with
  | true => rfl
  | false => rfl

include hop hleft ha hab hright hc hcd hp hchecked happly in
theorem process_of_not_fault (hfault : ¬ op.MayFault a b c d) :
    (binary op p left right).process s = .ok () { s with ranges := s.ranges.set p i } := by
  have hprocess := process_exact hop hleft hright hp hchecked happly
  rw [if_neg (mt (Operator.mayFault_iff ha hab hc hcd).2 hfault)] at hprocess
  simpa only [Issue.raised, List.append_nil] using hprocess

include hop hleft ha hab hright hc hcd hp hchecked happly in
theorem ends_reports_iff :
    (∃ issue, op.faultIssue? p (between (.int a) (.int b)) (between (.int c) (.int d)) =
          some issue ∧
        ((Step.carry (binary op p left right)).ends s).issues = s.issues ++ [issue]) ↔
      op.MayFault a b c d ∧
        ((between (.int a) (.int b)).isWritable && (between (.int c) (.int d)).isWritable) := by
  by_cases hfault : op.MayFault a b c d
  · obtain ⟨issue, hissue, hprocess⟩ :=
      process_of_fault hop hleft ha hab hright hc hcd hp hchecked happly hfault
    cases hw : (between (.int a) (.int b)).isWritable && (between (.int c) (.int d)).isWritable with
    | true =>
      rw [hw] at hprocess
      have hends : (Step.carry (binary op p left right)).ends s = _ := Step.ends_of_ok hprocess
      exact iff_of_true ⟨issue, hissue, congrArg State.issues hends⟩ ⟨hfault, rfl⟩
    | false =>
      rw [hw] at hprocess
      have hends : (Step.carry (binary op p left right)).ends s = _ := Step.ends_of_error hprocess
      rw [hends]
      simp
  · have hprocess := process_of_not_fault hop hleft ha hab hright hc hcd hp hchecked happly hfault
    have hends : (Step.carry (binary op p left right)).ends s = _ := Step.ends_of_ok hprocess
    rw [hends]
    simp [hfault]

end Exact

/-- An issue is left exactly if some values lead out of the unsigned words. -/
theorem reports_fault_iff (hop : op.exactFunction? = some f)
    (hleft : left.interval s.ranges = .ok (between (.int a) (.int b))) (ha : 0 ≤ a) (hab : a ≤ b)
    (hright : right.interval s.ranges = .ok (between (.int c) (.int d))) (hc : 0 ≤ c) (hcd : c ≤ d)
    (hp : p.isUnsigned) (hchecked : p ∉ s.checked) :
    ∃ i, (op.MayFault a b c d → ∃ issue,
          op.faultIssue? p (between (.int a) (.int b)) (between (.int c) (.int d)) = some issue ∧
          (binary op p left right).process s =
            if (between (.int a) (.int b)).isWritable && (between (.int c) (.int d)).isWritable then
              .ok () { s with ranges := s.ranges.set p i, issues := s.issues ++ [issue] }
            else .error .tooLongToWrite { s with ranges := s.ranges.set p i }) ∧
      (¬ op.MayFault a b c d →
        (binary op p left right).process s = .ok () { s with ranges := s.ranges.set p i }) ∧
      (op = .sub → (op.MayFault a b c d ↔ ∃ m : Int, i.lo = some (.int m) ∧ m < 0)) := by
  obtain ⟨i, happly, hull⟩ := Operator.applyBounds_isSaturatedHull hop hab hcd
  rw [← Operator.apply_between] at happly
  refine ⟨i, process_of_fault hop hleft ha hab hright hc hcd hp hchecked happly,
    process_of_not_fault hop hleft ha hab hright hc hcd hp hchecked happly, ?_⟩
  rintro rfl
  cases hop
  rw [hull.lo_neg_iff]
  constructor
  · rintro ⟨x, hx, y, hy, hneg⟩
    exact ⟨_, ⟨x, hx, y, hy, rfl⟩, of_decide_eq_true hneg⟩
  · rintro ⟨_, ⟨x, hx, y, hy, rfl⟩, hneg⟩
    exact ⟨x, hx, y, hy, decide_eq_true hneg⟩

theorem difference_reports_fault :
    Operator.sub.MayFault 5 9 3 7 ∧
      ∃ i, (binary .sub (Variable.octet "z").place (.place (.named "x"))
          (.place (.named "y"))).process
          (.ofEntries [(.named "x", between 5 9), (.named "y", between 3 7)]) =
          .ok () { State.ofEntries [(.named "x", between 5 9), (.named "y", between 3 7),
              ((Variable.octet "z").place, i)] with
            issues := [.subtractionUnderflow (Variable.octet "z").place (between 5 9)
              (between 3 7)] } ∧
        ∃ m : Int, i.lo = some (.int m) ∧ m < 0 := by
  have hfault : Operator.sub.MayFault 5 9 3 7 := ⟨5, by decide, 7, by decide, by decide⟩
  let s : State := .ofEntries [(.named "x", between 5 9), (.named "y", between 3 7)]
  have hleft : (Operand.place (.named "x")).interval s.ranges =
      .ok (between (.int 5) (.int 9)) := rfl
  have hright : (Operand.place (.named "y")).interval s.ranges =
      .ok (between (.int 3) (.int 7)) := rfl
  obtain ⟨i, hreport, -, hnegative⟩ := reports_fault_iff (p := (Variable.octet "z").place)
    (show Operator.sub.exactFunction? = some (· - ·) from rfl) hleft (by decide) (by decide) hright
    (by decide) (by decide) (by decide) (by decide)
  obtain ⟨issue, hissue, hprocess⟩ := hreport hfault
  cases hissue
  have hwritable : ((between 5 9).isWritable && (between 3 7).isWritable) = true := by
    decide +kernel
  exact ⟨hfault, i, hprocess.trans (if_pos hwritable), (hnegative rfl).1 hfault⟩

/-- The factor is too long to write: the alarm fails, and no issue is left. -/
theorem longFactor_unreported :
    Operator.mul.MayFault 0 1 Number.writtenBelow Number.writtenBelow ∧
      (Variable.octet "z").place.isUnsigned ∧
      (binary .mul (Variable.octet "z").place (.place (.named "x"))
          (.literal (.int Number.writtenBelow))).process
          (.ofEntries [(.named "x", between 0 1)]) =
        .error .tooLongToWrite (.ofEntries [(.named "x", between 0 1),
          ((Variable.octet "z").place, .unsignedWord)]) := by
  refine ⟨⟨1, by decide, Number.writtenBelow, ⟨le_rfl, le_rfl⟩, ?_⟩, by decide, ?_⟩
  · decide +kernel
  · decide +kernel

/-- Beyond a narrower type a result is reported exactly if it exceeds the machine word too. -/
theorem reports_overflow_iff (hop : op.exactFunction? = some f) (hsub : op ≠ .sub)
    (hleft : left.interval s.ranges = .ok (between (.int a) (.int b))) (ha : 0 ≤ a) (hab : a ≤ b)
    (hright : right.interval s.ranges = .ok (between (.int c) (.int d))) (hc : 0 ≤ c) (hcd : c ≤ d)
    (hv : v.HasIntegerType (.unsigned bits)) (hchecked : v.place ∉ s.checked)
    (hover : ∃ x ∈ Icc a b, ∃ y ∈ Icc c d, (Nat.pow 2 bits : Nat) ≤ f x y) :
    ((∃ issue, op.faultIssue? v.place (between (.int a) (.int b)) (between (.int c) (.int d)) =
          some issue ∧
        ((Step.carry (binary op v.place left right)).ends s).issues = s.issues ++ [issue]) ↔
      (∃ x ∈ Icc a b, ∃ y ∈ Icc c d, (Nat.pow 2 256 : Nat) ≤ f x y) ∧
        ((between (.int a) (.int b)).isWritable && (between (.int c) (.int d)).isWritable)) ∧
      ((∀ x ∈ Icc a b, ∀ y ∈ Icc c d, f x y < (Nat.pow 2 256 : Nat)) →
        ∃ i, (binary op v.place left right).process s =
            .ok () { s with ranges := s.ranges.set v.place i } ∧
          (∃ x, i.contains x ∧ ¬ v.Admits x) ∧
          ∀ w, v.place.violation? i = some w → ∃ limit ∈ limits, limit.violation? i = some w) := by
  obtain ⟨i, happly, hull⟩ := Operator.applyBounds_isSaturatedHull hop hab hcd
  rw [← Operator.apply_between] at happly
  have hexceeds := Operator.mayFault_iff_exceeds (a := a) (b := b) (c := c) (d := d) hop hsub
  constructor
  · rw [← hexceeds]
    exact ends_reports_iff hop hleft ha hab hright hc hcd hv.isUnsigned hchecked happly
  · intro hbelow
    have hwords : ∀ z ∈ image2 f (Icc a b) (Icc c d), 0 ≤ z ∧ z ≤ greatestWord := by
      rintro _ ⟨x, hx, y, hy, rfl⟩
      exact ⟨Operator.nonneg_of_exact hop hsub (ha.trans hx.1) (hc.trans hy.1),
        Int.le_sub_one_of_lt (hbelow x hx y hy)⟩
    have hfault : ¬ op.MayFault a b c d := by
      rw [hexceeds]
      rintro ⟨x, hx, y, hy, hle⟩
      exact hle.not_gt (hbelow x hx y hy)
    refine ⟨i, process_of_not_fault hop hleft ha hab hright hc hcd hv.isUnsigned hchecked happly
      hfault, ?_, ?_⟩
    · obtain ⟨x, hx, y, hy, hlarge⟩ := hover
      have hresult : f x y ∈ image2 f (Icc a b) (Icc c d) := ⟨x, hx, y, hy, rfl⟩
      obtain ⟨h0, hword⟩ := hwords _ hresult
      refine ⟨f x y, hull.coversWords _ hresult (Interval.leastWord_neg.le.trans h0) hword, ?_⟩
      rintro ⟨t, ht, hadmits⟩
      cases ht.symm.trans hv.typeClass
      exact hlarge.not_gt hadmits.2
    · obtain ⟨lo, hi, hleast, hgreatest, rfl⟩ := hull
      intro w
      exact v.place.violation?_of_words ((hwords lo hleast.1).1.trans (le_max_left _ _))
        (min_le_right _ _)

theorem product_exceeds_octet :
    ∃ i, (binary .mul (Variable.octet "z").place (.place (.named "x"))
        (.place (.named "y"))).process
        (.ofEntries [(.named "x", between 3 300), (.named "y", between 5 500)]) =
        .ok () (.ofEntries [(.named "x", between 3 300), (.named "y", between 5 500),
          ((Variable.octet "z").place, i)]) ∧
      ∃ x, i.contains x ∧ ¬ (Variable.octet "z").Admits x := by
  have hbelow : ∀ x ∈ Icc (3 : Int) 300, ∀ y ∈ Icc (5 : Int) 500,
      x * y < (Nat.pow 2 256 : Nat) := by
    intro x hx y hy
    calc x * y ≤ 300 * 500 :=
          Int.mul_le_mul hx.2 hy.2 (le_trans (by decide) hy.1) (by decide)
      _ < (Nat.pow 2 256 : Nat) := by decide
  let s : State := .ofEntries [(.named "x", between 3 300), (.named "y", between 5 500)]
  have hleft : (Operand.place (.named "x")).interval s.ranges =
      .ok (between (.int 3) (.int 300)) := rfl
  have hright : (Operand.place (.named "y")).interval s.ranges =
      .ok (between (.int 5) (.int 500)) := rfl
  obtain ⟨-, hsilent⟩ := reports_overflow_iff
    (show Operator.mul.exactFunction? = some (· * ·) from rfl) (by decide) hleft (by decide)
    (by decide) hright (by decide) (by decide) (Variable.hasIntegerType_octet "z") (by decide)
    ⟨300, by decide, 500, by decide, by decide⟩
  obtain ⟨i, hprocess, hvalues, -⟩ := hsilent hbelow
  exact ⟨i, hprocess, hvalues⟩

/-- The sum of 200 and 100 is no octet, and nothing is reported. -/
theorem sum_exceeds_octet_unreported :
    (Nat.pow 2 8 : Nat) ≤ (200 + 100 : Int) ∧
      (binary .add (Variable.octet "z").place (.place (.named "x"))
        (.place (.named "y"))).process
        (.ofEntries [(.named "x", .point 200), (.named "y", .point 100)]) =
        .ok () (.ofEntries [(.named "x", .point 200), (.named "y", .point 100),
          ((Variable.octet "z").place, .point 300)]) := by
  decide

end Instr

end RangeAudit
